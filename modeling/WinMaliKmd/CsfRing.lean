import WinMaliKmd.CsfSubmit

/-!
# Ring counters

The insert and extract words are meant to run free, with the ring offset as
their remainder. The driver masks the word it read before it publishes the next
one, so the words run free only on the first lap of the ring.
-/

set_option autoImplicit false

namespace WinMali.CsfRing
open WinMali.AsSlots WinMali.CsfSubmit WinMali.Runs WinMali.VmTable

/-- What is asked of the ring write that follows the state `u`. -/
def FreeRunning (u : FwCtx) (c : StreamCall) : Prop :=
  (∀ v, publish u c = some v →
    v.ring = (u.insert % csfRingBytes, callInstrs u c) :: u.ring ∧
    v.insert = (u.insert + trampolineBytes) % 2 ^ 64 ∧
    v.outExtract < v.insert ∧ v.insert - v.outExtract ≤ csfRingBytes) ∧
  (u.outExtract = u.insert → publish u c ≠ none)

/-- The call gets as far as the ring write. -/
def reachesRing (fw : FwCtx) (c : StreamCall) (r : Reply) : Bool :=
  fw.csfBootValid && fw.hostRingVa && fw.qRing && fw.cs00Input &&
    (decide (c.csgAsSlot ≥ asSlotMax) || (fw.csg0 && r.startAck))

/-- The insert word that the ring write finds: a rebind sets it to the firmware's word. -/
def position (fw : FwCtx) (c : StreamCall) (r : Reply) : ℕ :=
  if c.csgAsSlot ≥ asSlotMax then fw.insert
  else ((fw.consume r.beforeProgram).consume r.beforeInsert).outExtract

/-- A trampoline ends within the first lap of the ring, or, without a rebind, it does not fit
and the ring is not drained. -/
def guard (fw : FwCtx) : Op → Prop
  | .stream c r => reachesRing fw c r = true →
    position fw c r + trampolineBytes ≤ csfRingBytes ∨
      c.csgAsSlot ≥ asSlotMax ∧
        csfRingBytes < position fw c r % csfRingBytes + trampolineBytes ∧
        (fw.consume r.beforeRing).outExtract ≠ position fw c r
  | .rebind _ _ => True

def RingStep (fw : FwCtx) : Op → FwCtx → Prop
  | .stream c r, _ => ∀ u, prepare fw c r = (.success, u) → FreeRunning u c
  | .rebind _ _, _ => True

structure Inv (fw : FwCtx) : Prop where
  extract_le : fw.outExtract ≤ fw.insert
  insert_le : fw.insert ≤ csfRingBytes

section Calls

variable {fw fw' u : FwCtx} {c : StreamCall} {r : Reply} {asSlot n : ℕ}

theorem Inv.consume (I : Inv fw) (n : ℕ) : Inv (fw.consume n) := by
  refine ⟨?_, ?_⟩
  · rw [consume_insert]
    exact consume_le I.extract_le n
  · rw [consume_insert]
    exact I.insert_le

/-- Where a rebind that is tried leaves the ring empty. -/
def restart (fw : FwCtx) (r : Reply) : ℕ :=
  ((fw.consume r.beforeProgram).consume r.beforeInsert).outExtract

theorem Inv.restart_le (I : Inv fw) (r : Reply) : restart fw r ≤ fw.insert :=
  ((I.consume r.beforeProgram).consume r.beforeInsert).extract_le

/-- A rebind leaves the two words alone, or the ring empty. -/
theorem rebind_cases (fw : FwCtx) (asSlot : ℕ) (r : Reply) :
    (asSlot ≥ asSlotMax ∨ fw.csg0 = false ∨ fw.cs00Input = false ∨ fw.qRing = false) ∧
        (rebindCsgAs fw asSlot r).2.insert = fw.insert ∧
        (rebindCsgAs fw asSlot r).2.outExtract = fw.outExtract ∨
      asSlot < asSlotMax ∧ (rebindCsgAs fw asSlot r).2.insert = restart fw r ∧
        (rebindCsgAs fw asSlot r).2.outExtract = restart fw r := by
  obtain ⟨b, hterm⟩ := terminate_eq fw r
  unfold rebindCsgAs
  split
  · exact .inl ⟨.inl (by assumption), rfl, rfl⟩
  · rename_i hslot
    split
    · rename_i hcsg
      exact .inl ⟨.inr (.inl (by simpa using hcsg)), rfl, rfl⟩
    · rw [hterm]
      unfold programAndStartCsg
      split
      · rename_i hmissing
        refine .inl ⟨?_, rfl, rfl⟩
        simp only [Bool.or_eq_true, Bool.not_eq_true'] at hmissing
        tauto
      · right
        dsimp only
        split <;> exact ⟨Nat.lt_of_not_le hslot, rfl, rfl⟩

theorem rebind_inv (I : Inv fw) (asSlot : ℕ) (r : Reply) : Inv (rebindCsgAs fw asSlot r).2 := by
  rcases rebind_cases fw asSlot r with ⟨_, hins, hout⟩ | ⟨_, hins, hout⟩
  · exact ⟨by rw [hins, hout]; exact I.extract_le, by rw [hins]; exact I.insert_le⟩
  · refine ⟨by rw [hins, hout], ?_⟩
    rw [hins]
    exact (I.restart_le r).trans I.insert_le

theorem rebind_success_iff (fw : FwCtx) (asSlot : ℕ) (r : Reply) (hcs : fw.cs00Input = true)
    (hq : fw.qRing = true) : (rebindCsgAs fw asSlot r).1.ok = true ↔
      asSlot ≥ asSlotMax ∨ fw.csg0 = true ∧ r.startAck = true := by
  obtain ⟨b, hterm⟩ := terminate_eq fw r
  unfold rebindCsgAs
  split
  · simp_all
  · rename_i hslot
    cases hcsg : fw.csg0 with
    | false => simp [hslot, NtStatus.ok]
    | true =>
      rw [if_neg (by simp), hterm]
      simp only [programAndStartCsg, hcs, hcsg, hq, hslot]
      cases r.startAck <;> simp [NtStatus.ok]

/-- The state in which the ring is written. -/
theorem prepare_success_iff (fw u : FwCtx) (c : StreamCall) (r : Reply) :
    prepare fw c r = (.success, u) ↔ reachesRing fw c r = true ∧
      u = ({ (rebindCsgAs fw c.csgAsSlot r).2 with
        kqJobSeq := ((rebindCsgAs fw c.csgAsSlot r).2.kqJobSeq + 1) % 2 ^ 64 } : FwCtx).consume
          r.beforeRing := by
  have hok := rebind_success_iff fw c.csgAsSlot r
  rcases hrebind : rebindCsgAs fw c.csgAsSlot r with ⟨st, fw'⟩
  rw [hrebind] at hok
  simp only [prepare, hrebind]
  by_cases hup : fw.csfBootValid = true ∧ fw.hostRingVa = true ∧ fw.qRing = true ∧
      fw.cs00Input = true
  · obtain ⟨hboot, hhost, hq, hcs⟩ := hup
    have hreach : reachesRing fw c r = true ↔ st.ok = true := by
      rw [hok hcs hq]
      simp [reachesRing, hboot, hhost, hq, hcs]
    rw [hreach, if_neg (by simp [hboot, hhost, hq, hcs])]
    cases hst : st.ok with
    | true => simp [eq_comm]
    | false =>
      have hne : st ≠ .success := by
        rintro rfl
        cases hst
      simp [hne]
  · have hreach : ¬reachesRing fw c r = true := by
      simp only [reachesRing, Bool.and_eq_true]
      tauto
    rw [if_pos]
    · simp [hreach]
    · simp only [Bool.or_eq_true, Bool.not_eq_true']
      by_contra hall
      simp only [not_or, Bool.not_eq_false] at hall
      tauto

/-- The two words at the ring write. -/
theorem prepare_words (I : Inv fw) (h : prepare fw c r = (.success, u)) :
    reachesRing fw c r = true ∧ u.insert = position fw c r ∧ u.outExtract ≤ u.insert ∧
      u.outExtract = if c.csgAsSlot ≥ asSlotMax then (fw.consume r.beforeRing).outExtract
        else position fw c r := by
  obtain ⟨hreach, rfl⟩ := (prepare_success_iff fw u c r).mp h
  refine ⟨hreach, ?_, ((rebind_inv I c.csgAsSlot r).consume r.beforeRing).extract_le, ?_⟩
  · unfold position
    rcases rebind_cases fw c.csgAsSlot r with ⟨hwhy, hins, _⟩ | ⟨hslot, hins, _⟩
    · have hslot : c.csgAsSlot ≥ asSlotMax := by
        simp only [reachesRing, Bool.and_eq_true, Bool.or_eq_true, decide_eq_true_eq] at hreach
        grind
      rw [if_pos hslot]
      exact hins
    · rw [if_neg (Nat.not_le_of_lt hslot)]
      exact hins
  · rcases rebind_cases fw c.csgAsSlot r with ⟨hwhy, hins, hout⟩ | ⟨hslot, hins, hout⟩
    · have hslot : c.csgAsSlot ≥ asSlotMax := by
        simp only [reachesRing, Bool.and_eq_true, Bool.or_eq_true, decide_eq_true_eq] at hreach
        grind
      rw [if_pos hslot]
      simp [FwCtx.consume, hins, hout]
    · rw [if_neg (Nat.not_le_of_lt hslot), position, if_neg (Nat.not_le_of_lt hslot)]
      refine (consume_of_empty ?_ r.beforeRing).trans hins
      exact hout.trans hins.symm

/-- The masked word is the free-running one exactly on the first lap. -/
theorem freeRunning_iff {I : ℕ} (hins : u.insert = I) (hI : I ≤ csfRingBytes)
    (hout : u.outExtract ≤ I) : FreeRunning u c ↔
      I + trampolineBytes ≤ csfRingBytes ∨
        csfRingBytes < I % csfRingBytes + trampolineBytes ∧ u.outExtract ≠ I := by
  have hnone := publish_eq_none u c
  rw [hins] at hnone
  constructor
  · rintro ⟨hsome, hdrained⟩
    by_contra hbad
    obtain ⟨hlap, hbad⟩ := not_or.mp hbad
    cases hpub : publish u c with
    | none =>
      have hfull := hnone.mp hpub
      exact hbad ⟨hfull, fun h => hdrained (h.trans hins.symm) hpub⟩
    | some v =>
      have hfits : ¬csfRingBytes < I % csfRingBytes + trampolineBytes := by
        rw [← hnone, hpub]
        simp
      obtain ⟨_, hv, _⟩ := hsome v hpub
      rw [(publish_eq_some hpub).2.1, hins] at hv
      simp only [csfRingBytes, trampolineBytes] at *
      omega
  · rintro (hlap | ⟨hfull, hbusy⟩)
    · refine ⟨fun v hv => ?_, fun _ hpub => ?_⟩
      · obtain ⟨hring, hv, hex, _⟩ := publish_eq_some hv
        rw [hring, hv, hex, hins]
        simp only [csfRingBytes, trampolineBytes] at *
        exact ⟨trivial, by omega, by omega, by omega⟩
      · have hfull := hnone.mp hpub
        simp only [csfRingBytes, trampolineBytes] at *
        omega
    · refine ⟨fun v hv => ?_, fun h => absurd (h.trans hins) hbusy⟩
      rw [hnone.mpr hfull] at hv
      cases hv

theorem ringStep_iff (I : Inv fw) (op : Op) : RingStep fw op fw' ↔ guard fw op := by
  cases op with
  | rebind asSlot r => exact Iff.rfl
  | stream c r =>
    have hle : position fw c r ≤ csfRingBytes := by
      unfold position
      split
      · exact I.insert_le
      · exact (I.restart_le r).trans I.insert_le
    constructor
    · intro h hreach
      have hprep := (prepare_success_iff fw _ c r).mpr ⟨hreach, rfl⟩
      obtain ⟨_, hins, hout, hex⟩ := prepare_words I hprep
      refine ((freeRunning_iff hins hle (hins ▸ hout)).mp (h _ hprep)).imp_right ?_
      rintro ⟨hfull, hbusy⟩
      by_cases hslot : c.csgAsSlot ≥ asSlotMax
      · rw [hex, if_pos hslot] at hbusy
        exact ⟨hslot, hfull, hbusy⟩
      · rw [hex, if_neg hslot] at hbusy
        exact absurd rfl hbusy
    · intro hg u hprep
      obtain ⟨hreach, hins, hout, hex⟩ := prepare_words I hprep
      refine (freeRunning_iff hins hle (hins ▸ hout)).mpr ((hg hreach).imp_right ?_)
      rintro ⟨hslot, hfull, hbusy⟩
      rw [hex, if_pos hslot]
      exact ⟨hfull, hbusy⟩

theorem prepare_inv (I : Inv fw) (c : StreamCall) (r : Reply) : Inv (prepare fw c r).2 := by
  have J := rebind_inv I c.csgAsSlot r
  rcases hrebind : rebindCsgAs fw c.csgAsSlot r with ⟨st, fw'⟩
  rw [hrebind] at J
  simp only [prepare, hrebind]
  split
  · exact I
  · split
    · exact J
    · have K : Inv ({ fw' with kqJobSeq := (fw'.kqJobSeq + 1) % 2 ^ 64 } : FwCtx) :=
        ⟨J.extract_le, J.insert_le⟩
      exact K.consume r.beforeRing

theorem waitJob_inv (I : Inv u) (c : StreamCall) (r : Reply) : Inv (waitJob u c r).2 := by
  have J : ∀ n, Inv ({ u with seqno := n } : FwCtx) := fun _ => ⟨I.extract_le, I.insert_le⟩
  exact (J _).consume r.afterRing

theorem step_inv (I : Inv fw) (op : Op) (hg : guard fw op) (h : step fw op = some fw') :
    Inv fw' := by
  cases op with
  | rebind asSlot r =>
    obtain rfl := Option.some.inj h
    exact rebind_inv I asSlot r
  | stream c r =>
    obtain rfl := Option.some.inj h
    have hring : RingStep fw (.stream c r) fw := (ringStep_iff I (.stream c r)).mpr hg
    have J := prepare_inv I c r
    rcases hprep : prepare fw c r with ⟨st, u⟩
    rw [hprep] at J
    simp only [submitStreamCall, hprep]
    by_cases hst : st = .success
    · subst hst
      cases hpub : publish u c with
      | none => simpa using J
      | some v =>
        obtain ⟨_, _, hlt, _⟩ := (hring u hprep).1 v hpub
        have hle : v.insert ≤ csfRingBytes := by
          have hsome := publish_eq_none u c
          rw [hpub] at hsome
          rw [(publish_eq_some hpub).2.1]
          simpa using hsome
        have K : Inv v := ⟨hlt.le, hle⟩
        simpa using waitJob_inv K c r
    · simpa [NtStatus.ok_eq_false hst] using J

end Calls

theorem bootstrapped_inv (n m : Word) (sb as : ℕ) : Inv (bootstrapped n m sb as) :=
  ⟨le_rfl, Nat.zero_le _⟩

/-- Over every run the ring words run free in every submit exactly when every trampoline ends
within the first lap. -/
theorem free_running_iff (n m : Word) (sb as : ℕ) (ops : List Op) :
    Always step RingStep (bootstrapped n m sb as) ops ↔
      Guarded step guard (bootstrapped n m sb as) ops :=
  (guarded_iff_always (fun _ op _ I hg h => step_inv I op hg h)
    (fun _ op _ I _ => (ringStep_iff I op).symm) (bootstrapped_inv n m sb as)).symm

section Lap

def nopCall : StreamCall := ⟨csfShaderGpuVa, shaderNopBytes, 0, bringupAs, 500⟩

/-- A job that is executed at once. -/
def drained : Op := .stream nopCall ⟨true, true, 0, 0, 0, 128, some 0⟩

/-- After `n` jobs that were executed at once. -/
def lap (n jobs seqno extract : ℕ) (ring : List (ℕ × List Word)) : FwCtx :=
  { bootstrapped 96 4 8 bringupAs with
    insert := 128 * n
    extract := extract
    outExtract := 128 * n
    seqno := seqno
    kqJobSeq := jobs
    ring := ring }

variable (n jobs seqno extract : ℕ) (ring : List (ℕ × List Word))

theorem prepare_lap :
    prepare (lap n jobs seqno extract ring) nopCall ⟨true, true, 0, 0, 0, 128, some 0⟩ =
      (.success, lap n ((jobs + 1) % 2 ^ 64) seqno (128 * n) ring) := by
  simp [prepare, lap, bootstrapped, rebindCsgAs, terminateCsg, programAndStartCsg, FwCtx.consume,
    nopCall, asSlotMax, bringupAs]

theorem publish_lap {n : ℕ} (hn : n < 512) :
    publish (lap n jobs seqno extract ring) nopCall = some { lap n jobs seqno (128 * n)
      ((128 * n, callInstrs (lap n jobs seqno extract ring) nopCall) :: ring) with
        insert := 128 * n + trampolineBytes } := by
  have hmask : (lap n jobs seqno extract ring).insert &&& (csfRingBytes - 1) = 128 * n := by
    rw [ringInsert_eq]
    exact Nat.mod_eq_of_lt (by simp only [lap, csfRingBytes]; omega)
  have hfits : ¬128 * n + trampolineBytes > csfRingBytes := by
    simp only [csfRingBytes, trampolineBytes]
    omega
  rw [publish, hmask, if_neg hfits]
  rfl

theorem step_lap {n : ℕ} (hn : n < 512) : ∃ jobs' seqno' extract' ring',
    step (lap n jobs seqno extract ring) drained =
      some (lap (n + 1) jobs' seqno' extract' ring') := by
  refine ⟨(jobs + 1) % 2 ^ 64, (seqno + 1) % 2 ^ 64, 128 * n, (128 * n,
    callInstrs (lap n ((jobs + 1) % 2 ^ 64) seqno (128 * n) ring) nopCall) :: ring, ?_⟩
  have hwait : ∀ v : FwCtx, v.outExtract + 128 = v.insert →
      (waitJob v nopCall ⟨true, true, 0, 0, 0, 128, some 0⟩).2 =
        { v with outExtract := v.insert, seqno := seqnoAfter v } := by
    intro v hv
    simp [waitJob, FwCtx.consume, hv]
  simp only [step, drained, submitStreamCall, prepare_lap, publish_lap _ _ _ _ hn,
    NtStatus.ok_success, Bool.not_true, Bool.false_eq_true, if_false]
  rw [hwait _ rfl]
  rfl

theorem run_laps {k n : ℕ} (hk : n + k ≤ 512) : ∃ jobs' seqno' extract' ring',
    exec step (lap n jobs seqno extract ring) (List.replicate k drained) =
      some (lap (n + k) jobs' seqno' extract' ring') := by
  induction k generalizing n jobs seqno extract ring with
  | zero => exact ⟨jobs, seqno, extract, ring, rfl⟩
  | succ k ih =>
    obtain ⟨j, q, e, l, h⟩ := step_lap jobs seqno extract ring (by omega : n < 512)
    obtain ⟨j', q', e', l', hrun⟩ := ih j q e l (by omega : n + 1 + k ≤ 512)
    refine ⟨j', q', e', l', ?_⟩
    rw [List.replicate_succ, exec, h, Option.bind_some, hrun]
    congr 2
    omega

/-- After 512 jobs that were all executed, the next one publishes an insert word behind the
firmware's extract word. -/
theorem second_lap_falls_behind : ∃ fw u v,
    exec step (bootstrapped 96 4 8 bringupAs) (List.replicate 512 drained) = some fw ∧
      prepare fw nopCall ⟨true, true, 0, 0, 0, 128, some 0⟩ = (.success, u) ∧
      publish u nopCall = some v ∧ u.insert = 65536 ∧ v.insert = 128 ∧ v.outExtract = 65536 := by
  obtain ⟨jobs, seqno, extract, ring, hrun⟩ := run_laps 0 0 0 [] (k := 512) (n := 0) (by omega)
  have hprep := prepare_lap (0 + 512) jobs seqno extract ring
  generalize hu : lap (0 + 512) ((jobs + 1) % 2 ^ 64) seqno (128 * (0 + 512)) ring = u at hprep
  have hins : u.insert = 65536 := hu ▸ rfl
  have hout : u.outExtract = 65536 := hu ▸ rfl
  cases hpub : publish u nopCall with
  | none => exact absurd ((publish_eq_none _ _).mp hpub) (by rw [hins]; decide)
  | some v =>
    obtain ⟨_, hv, hout', _⟩ := publish_eq_some hpub
    rw [hins] at hv
    exact ⟨_, u, v, hrun, hprep, hpub, hins, hv, hout'.trans hout⟩

end Lap

end WinMali.CsfRing
