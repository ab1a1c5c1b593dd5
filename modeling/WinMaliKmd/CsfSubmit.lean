import WinMaliKmd.Runs
import WinMaliKmd.VmTable

/-!
# Command stream submission

The submit path of `WinMaliFw.c` around the one command stream group: the slot
is torn down and started for an address space, a trampoline goes into the ring,
and the driver waits for its sequence number. What the firmware does during a
call is part of the call's reply. Diagnostics, doorbells and the wake-up of an
idle slot touch none of this state.
-/

set_option autoImplicit false

namespace WinMali.CsfSubmit
open WinMali.AsSlots WinMali.VmTable

def csfTagOffset : Word := 64

def csfTagPattern : Word := 0xCAFEBABE

/-- Bytes of the 16 instructions of a trampoline. -/
def trampolineBytes : ℕ := 16 * 8

/-- `insert` and `extract` are the words the driver writes, `outExtract` the firmware's. `ring`
lists the copies into the ring with their offsets, the latest first. -/
structure FwCtx where
  csfBootValid : Bool
  hostRingVa : Bool
  qRing : Bool
  cs00Input : Bool
  csg0 : Bool
  insert : ℕ
  extract : ℕ
  outExtract : ℕ
  ring : List (ℕ × List Word)
  seqno : ℕ
  kqJobSeq : ℕ
  csRegCount : Word
  csUnpreservedRegCount : Word
  sbSlotCount : ℕ
  csgConfig : ℕ
  currentCsgAs : ℕ
  csgStarted : Bool

/-- What a call meets: the acknowledgements, the bytes the firmware consumes before each read
of its extract word, and the poll at which the last `SYNC_ADD64` of the trampoline shows. -/
structure Reply where
  terminateAck : Bool
  startAck : Bool
  beforeProgram : ℕ
  beforeInsert : ℕ
  beforeRing : ℕ
  afterRing : ℕ
  completes : Option ℕ
deriving DecidableEq, Repr

structure StreamCall where
  streamGpuVa : Word
  streamSizeBytes : BitVec 32
  latestFlush : BitVec 32
  csgAsSlot : ℕ
  timeoutMs : ℕ
deriving DecidableEq, Repr

/-- The call of a group submit for eight instructions. -/
def groupCall (asSlot : ℕ) : StreamCall := ⟨0x8000000, 64, 0, asSlot, 500⟩

/-- What a submit looks at before all else. -/
def submitFlags (fw : FwCtx) : Bool :=
  fw.csfBootValid && fw.hostRingVa && fw.qRing && fw.cs00Input

/-- The firmware moves its extract word forward and never past the insert word. -/
def FwCtx.consume (fw : FwCtx) (bytes : ℕ) : FwCtx :=
  { fw with
    outExtract := if fw.outExtract + bytes ≤ fw.insert then fw.outExtract + bytes
      else fw.outExtract }

def programAndStartCsg (fw : FwCtx) (asSlot : ℕ) (r : Reply) : NtStatus × FwCtx :=
  if !fw.cs00Input || !fw.csg0 || !fw.qRing then (.deviceNotReady, fw)
  else
    -- two reads of the firmware's word, and it may move between them
    let fw := fw.consume r.beforeProgram
    let fw := { fw with extract := fw.outExtract }
    let fw := fw.consume r.beforeInsert
    let fw := { fw with insert := fw.outExtract, csgConfig := asSlot }
    if r.startAck then (.success, { fw with currentCsgAs := asSlot, csgStarted := true })
    else (.ioTimeout, fw)

/-- The slot counts as stopped whatever the firmware answers. -/
def terminateCsg (fw : FwCtx) (r : Reply) : NtStatus × FwCtx :=
  if !fw.csgStarted then (.success, fw)
  else if !fw.csg0 then (.deviceNotReady, fw)
  else (if r.terminateAck then .success else .ioTimeout, { fw with csgStarted := false })

def rebindCsgAs (fw : FwCtx) (asSlot : ℕ) (r : Reply) : NtStatus × FwCtx :=
  if asSlot ≥ asSlotMax then (.success, fw)
  else if !fw.csg0 then (.deviceNotReady, fw)
  else programAndStartCsg (terminateCsg fw r).2 asSlot r

def sbWaitMask (sbSlotCount : ℕ) : Word :=
  if sbSlotCount = 0 then 1
  else if sbSlotCount ≥ 16 then 0xFFFF
  else (1 <<< sbSlotCount) - 1

def callInstrs (fw : FwCtx) (c : StreamCall) : List Word :=
  let addrReg := fw.csRegCount - fw.csUnpreservedRegCount
  let valReg := addrReg + 2
  let syncAdd := (51 <<< 56) ||| (addrReg <<< 40) ||| (valReg <<< 32) ||| 1
  [(2 <<< 56) ||| (valReg <<< 48) ||| c.latestFlush.setWidth 64,
    (36 <<< 56) ||| (valReg <<< 40) ||| 0x233,
    (1 <<< 56) ||| (addrReg <<< 48) ||| c.streamGpuVa,
    (2 <<< 56) ||| (valReg <<< 48) ||| c.streamSizeBytes.setWidth 64,
    (3 <<< 56) ||| (1 <<< 16),
    (32 <<< 56) ||| (addrReg <<< 40) ||| (valReg <<< 32),
    (1 <<< 56) ||| (addrReg <<< 48) ||| (csfSyncGpuVa + csfTagOffset),
    (1 <<< 56) ||| (valReg <<< 48) ||| csfTagPattern,
    syncAdd,
    (1 <<< 56) ||| (addrReg <<< 48) ||| csfSyncGpuVa,
    (1 <<< 56) ||| (valReg <<< 48) ||| 1,
    (3 <<< 56) ||| (sbWaitMask fw.sbSlotCount <<< 16),
    syncAdd,
    0,
    0,
    47 <<< 56]

/-- All that precedes the ring: the checks, the rebind and the new job number. -/
def prepare (fw : FwCtx) (c : StreamCall) (r : Reply) : NtStatus × FwCtx :=
  if !fw.csfBootValid || !fw.hostRingVa || !fw.qRing || !fw.cs00Input then (.deviceNotReady, fw)
  else
    let (st, fw) := rebindCsgAs fw c.csgAsSlot r
    if !st.ok then (st, fw)
    else
      let fw := { fw with kqJobSeq := (fw.kqJobSeq + 1) % 2 ^ 64 }
      (.success, fw.consume r.beforeRing)

/-- The ring write; `none` stands for `STATUS_BUFFER_OVERFLOW`. -/
def publish (fw : FwCtx) (c : StreamCall) : Option FwCtx :=
  let ringInsert := fw.insert &&& (csfRingBytes - 1)
  if ringInsert + trampolineBytes > csfRingBytes then none
  else some { fw with
    ring := (ringInsert, callInstrs fw c) :: fw.ring
    extract := fw.outExtract
    insert := ringInsert + trampolineBytes }

/-- The poll loop, with `n` polls to go. -/
def pollSeqno (seqnoAt : ℕ → ℕ) (jobSeq : ℕ) : ℕ → ℕ → NtStatus
  | _, 0 => .ioTimeout
  | i, n + 1 => if jobSeq ≤ seqnoAt i then .success else pollSeqno seqnoAt jobSeq (i + 1) n

def seqnoAfter (fw : FwCtx) : ℕ := (fw.seqno + 1) % 2 ^ 64

def seqnoAt (fw : FwCtx) (r : Reply) (i : ℕ) : ℕ :=
  match r.completes with
  | none => fw.seqno
  | some k => if k ≤ i then seqnoAfter fw else fw.seqno

def waitJob (fw : FwCtx) (c : StreamCall) (r : Reply) : NtStatus × FwCtx :=
  (pollSeqno (seqnoAt fw r) fw.kqJobSeq 0 c.timeoutMs,
    { fw with seqno := if r.completes.isSome then seqnoAfter fw else fw.seqno }.consume r.afterRing)

def submitStreamCall (fw : FwCtx) (c : StreamCall) (r : Reply) : NtStatus × FwCtx :=
  let (st, fw) := prepare fw c r
  if !st.ok then (st, fw)
  else
    match publish fw c with
    | none => (.bufferOverflow, fw)
    | some fw => waitJob fw c r

/-- Calls of the submit path: with a stream, or the rebind that follows a failure. -/
inductive Op
  | stream (c : StreamCall) (r : Reply)
  | rebind (asSlot : ℕ) (r : Reply)
deriving DecidableEq, Repr

def step (fw : FwCtx) : Op → Option FwCtx
  | .stream c r => some (submitStreamCall fw c r).2
  | .rebind asSlot r => some (rebindCsgAs fw asSlot r).2

structure Submitter where
  fwCtx : Option FwCtx
  csfJobs : Bool
  gpuMmuBringupAs : ℕ

def shaderNopBytes : BitVec 32 := 8

def submitNopJob (a : Submitter) (timeoutMs : ℕ) (r : Reply) : NtStatus × Submitter :=
  match a.fwCtx with
  | none => (.deviceNotReady, a)
  | some fw =>
    if !a.csfJobs then (.deviceNotReady, a)
    else
      let (st, fw) := submitStreamCall fw
        ⟨csfShaderGpuVa, shaderNopBytes, 0, a.gpuMmuBringupAs, timeoutMs⟩ r
      (st, { a with fwCtx := some fw })

def submitGroupStream (a : Submitter) (c : StreamCall) (r recover : Reply) :
    NtStatus × Submitter :=
  match a.fwCtx with
  | none => (.deviceNotReady, a)
  | some fw =>
    if !a.csfJobs then (.deviceNotReady, a)
    else if c.csgAsSlot ≥ asSlotMax || c.streamGpuVa == 0 || c.streamSizeBytes == 0 then
      (.invalidParameter, a)
    else
      let (st, fw) := submitStreamCall fw c r
      if !st.ok then
        (st, { a with fwCtx := some (rebindCsgAs fw a.gpuMmuBringupAs recover).2 })
      else (st, { a with fwCtx := some fw })

/-- The state that `WinMaliCsfBootstrap_` leaves, whatever the registers of the device are. -/
def bootstrapped (csRegCount csUnpreservedRegCount : Word) (sbSlotCount gpuMmuBringupAs : ℕ) :
    FwCtx where
  csfBootValid := true
  hostRingVa := true
  qRing := true
  cs00Input := true
  csg0 := true
  insert := 0
  extract := 0
  outExtract := 0
  ring := []
  seqno := 0
  kqJobSeq := 0
  csRegCount := csRegCount
  csUnpreservedRegCount := csUnpreservedRegCount
  sbSlotCount := sbSlotCount
  csgConfig := gpuMmuBringupAs
  currentCsgAs := gpuMmuBringupAs
  csgStarted := true

section Calls

variable (fw : FwCtx) (c : StreamCall) (r : Reply) (n asSlot : ℕ)

@[simp] theorem consume_insert : (fw.consume n).insert = fw.insert := rfl

@[simp] theorem consume_ring : (fw.consume n).ring = fw.ring := rfl

@[simp] theorem consume_seqno : (fw.consume n).seqno = fw.seqno := rfl

@[simp] theorem consume_kqJobSeq : (fw.consume n).kqJobSeq = fw.kqJobSeq := rfl

/-- The firmware stays behind the insert word. -/
theorem consume_le {fw : FwCtx} (h : fw.outExtract ≤ fw.insert) (n : ℕ) :
    (fw.consume n).outExtract ≤ fw.insert := by
  simp only [FwCtx.consume]
  split <;> assumption

/-- Nothing is left to consume in an empty ring. -/
theorem consume_of_empty {fw : FwCtx} (h : fw.outExtract = fw.insert) (n : ℕ) :
    (fw.consume n).outExtract = fw.insert := by
  simp only [FwCtx.consume]
  split <;> omega

/-- The parts that neither a rebind nor the firmware changes. -/
structure SameJobs (fw fw' : FwCtx) : Prop where
  kqJobSeq : fw'.kqJobSeq = fw.kqJobSeq
  seqno : fw'.seqno = fw.seqno
  ring : fw'.ring = fw.ring

theorem terminate_eq : ∃ b, (terminateCsg fw r).2 = { fw with csgStarted := b } := by
  unfold terminateCsg
  split
  · exact ⟨fw.csgStarted, rfl⟩
  · split
    · exact ⟨fw.csgStarted, rfl⟩
    · exact ⟨false, rfl⟩

theorem rebind_sameJobs : SameJobs fw (rebindCsgAs fw asSlot r).2 := by
  obtain ⟨b, hterm⟩ := terminate_eq fw r
  unfold rebindCsgAs
  split
  · exact ⟨rfl, rfl, rfl⟩
  · split
    · exact ⟨rfl, rfl, rfl⟩
    · rw [hterm]
      unfold programAndStartCsg
      split
      · exact ⟨rfl, rfl, rfl⟩
      · dsimp only
        split <;> exact ⟨rfl, rfl, rfl⟩

theorem prepare_success {fw u : FwCtx} {c : StreamCall} {r : Reply}
    (h : prepare fw c r = (.success, u)) :
    u.kqJobSeq = (fw.kqJobSeq + 1) % 2 ^ 64 ∧ u.seqno = fw.seqno ∧ u.ring = fw.ring := by
  have same := rebind_sameJobs fw r c.csgAsSlot
  rcases hrebind : rebindCsgAs fw c.csgAsSlot r with ⟨st, fw'⟩
  rw [hrebind] at same
  simp only [prepare, hrebind] at h
  split at h
  · cases h
  · split at h
    · rename_i hst
      rw [(Prod.mk.inj h).1] at hst
      cases hst
    · obtain rfl := (Prod.mk.inj h).2
      have hjob : fw'.kqJobSeq = fw.kqJobSeq := same.kqJobSeq
      simp only [consume_kqJobSeq, consume_seqno, consume_ring, hjob, true_and]
      exact ⟨same.seqno, same.ring⟩

theorem prepare_failure {fw u : FwCtx} {c : StreamCall} {r : Reply} {st : NtStatus}
    (h : prepare fw c r = (st, u)) (hst : st ≠ .success) : SameJobs fw u := by
  have same := rebind_sameJobs fw r c.csgAsSlot
  rcases hrebind : rebindCsgAs fw c.csgAsSlot r with ⟨st', fw'⟩
  rw [hrebind] at same
  simp only [prepare, hrebind] at h
  split at h
  · obtain rfl := (Prod.mk.inj h).2
    exact ⟨rfl, rfl, rfl⟩
  · split at h
    · obtain rfl := (Prod.mk.inj h).2
      exact same
    · exact absurd (Prod.mk.inj h).1.symm hst

theorem ringInsert_eq (n : ℕ) : n &&& (csfRingBytes - 1) = n % csfRingBytes :=
  Nat.and_two_pow_sub_one_eq_mod n 16

theorem publish_eq_none (fw : FwCtx) (c : StreamCall) :
    publish fw c = none ↔ csfRingBytes < fw.insert % csfRingBytes + trampolineBytes := by
  simp [publish, ringInsert_eq]

theorem publish_frame {fw v : FwCtx} {c : StreamCall} (h : publish fw c = some v) :
    v = { fw with ring := v.ring, extract := v.extract, insert := v.insert } := by
  simp only [publish] at h
  split at h
  · cases h
  · obtain rfl := Option.some.inj h
    rfl

theorem publish_eq_some {fw v : FwCtx} {c : StreamCall} (h : publish fw c = some v) :
    v.ring = (fw.insert % csfRingBytes, callInstrs fw c) :: fw.ring ∧
      v.insert = fw.insert % csfRingBytes + trampolineBytes ∧ v.outExtract = fw.outExtract ∧
      v.seqno = fw.seqno ∧ v.kqJobSeq = fw.kqJobSeq := by
  simp only [publish, ringInsert_eq] at h
  split at h
  · cases h
  · obtain rfl := Option.some.inj h
    exact ⟨rfl, rfl, rfl, rfl, rfl⟩

theorem poll_success_iff (seqnoAt : ℕ → ℕ) (jobSeq i n : ℕ) :
    pollSeqno seqnoAt jobSeq i n = .success ↔ ∃ k, i ≤ k ∧ k < i + n ∧ jobSeq ≤ seqnoAt k := by
  induction n generalizing i with
  | zero =>
    simp only [pollSeqno, Nat.add_zero, reduceCtorEq, false_iff]
    rintro ⟨k, hk, hlt, _⟩
    omega
  | succ n ih =>
    unfold pollSeqno
    split
    · rename_i hseq
      exact iff_of_true rfl ⟨i, le_rfl, by omega, hseq⟩
    · rename_i hseq
      rw [ih]
      constructor
      · rintro ⟨k, hk, hlt, hk'⟩
        exact ⟨k, by omega, by omega, hk'⟩
      · rintro ⟨k, hk, hlt, hk'⟩
        have hne : k ≠ i := by
          rintro rfl
          exact hseq hk'
        exact ⟨k, by omega, by omega, hk'⟩

/-- What a group submit does to the firmware context is a run of the submit path. -/
theorem submitGroupStream_run {a : Submitter} {fw fw' : FwCtx} {c : StreamCall}
    {r recover : Reply} (h : a.fwCtx = some fw)
    (h' : (submitGroupStream a c r recover).2.fwCtx = some fw') :
    ∃ ops, Runs.exec step fw ops = some fw' := by
  simp only [submitGroupStream, h] at h'
  split at h'
  · rw [h] at h'
    exact ⟨[], h'⟩
  · split at h'
    · rw [h] at h'
      exact ⟨[], h'⟩
    · split at h'
      · exact ⟨[.stream c r, .rebind a.gpuMmuBringupAs recover], h'⟩
      · exact ⟨[.stream c r], h'⟩

theorem submitNopJob_run {a : Submitter} {fw fw' : FwCtx} {timeoutMs : ℕ} {r : Reply}
    (h : a.fwCtx = some fw) (h' : (submitNopJob a timeoutMs r).2.fwCtx = some fw') :
    ∃ ops, Runs.exec step fw ops = some fw' := by
  simp only [submitNopJob, h] at h'
  split at h'
  · rw [h] at h'
    exact ⟨[], h'⟩
  · exact ⟨[.stream ⟨csfShaderGpuVa, shaderNopBytes, 0, a.gpuMmuBringupAs, timeoutMs⟩ r], h'⟩

end Calls

end WinMali.CsfSubmit
