import Mathlib.Data.List.Perm.Subperm
import WinMaliKmd.CsfSubmit

/-!
# Whose increment a submit waits for

All jobs add to one word, so a call that polls it cannot tell its own trampoline from
one that was given up earlier. Here the firmware executes trampolines when it likes,
in the order of the ring and each at most once, and it leaves out any of them.
-/

set_option autoImplicit false

namespace WinMali.SubmitSound
open WinMali.CsfSubmit WinMali.Runs

/-- `own` is the call's trampoline, counted from 0 in the order of the ring. -/
inductive Pc
  | idle
  | waiting (c : StreamCall) (own jobSeq polls : ℕ)
  | returned (own : Option ℕ) (status : NtStatus)
deriving DecidableEq, Repr

/-- `issued` is the number of job numbers that were taken, `published` the number of
trampolines that were copied into the ring, and `done` lists those whose last `SYNC_ADD64` was
executed, the latest first. -/
structure State where
  fw : FwCtx
  issued : ℕ
  published : ℕ
  done : List ℕ
  pc : Pc

inductive Label
  | call (c : StreamCall) (r : Reply)
  | poll
  | rebind (asSlot : ℕ) (r : Reply)
  | consume (bytes : ℕ)
  | trampoline (j : ℕ)

def beginCall (s : State) (c : StreamCall) (r : Reply) : State :=
  let (st, fw) := prepare s.fw c r
  if !st.ok then { s with fw := fw, pc := .returned none st }
  else
    match publish fw c with
    | none => { s with fw := fw, issued := s.issued + 1, pc := .returned none .bufferOverflow }
    | some fw =>
      { s with
        fw := fw
        issued := s.issued + 1
        published := s.published + 1
        pc := .waiting c s.published fw.kqJobSeq 0 }

/-- The calls exclude each other. -/
def step (s : State) : Label → Option State
  | .call c r =>
    match s.pc with
    | .waiting .. => none
    | _ => some (beginCall s c r)
  | .poll =>
    match s.pc with
    | .waiting c own jobSeq i =>
      if i < c.timeoutMs then
        if jobSeq ≤ s.fw.seqno then some { s with pc := .returned (some own) .success }
        else some { s with pc := .waiting c own jobSeq (i + 1) }
      else some { s with pc := .returned (some own) .ioTimeout }
    | _ => none
  | .rebind asSlot r =>
    match s.pc with
    | .waiting .. => none
    | _ => some { s with fw := (rebindCsgAs s.fw asSlot r).2 }
  | .consume bytes => some { s with fw := s.fw.consume bytes }
  | .trampoline j =>
    if j < s.published ∧ ∀ k ∈ s.done, k < j then
      some { s with fw := { s.fw with seqno := seqnoAfter s.fw }, done := j::s.done }
    else none

def start (csRegCount csUnpreservedRegCount : Word) (sbSlotCount gpuMmuBringupAs : ℕ) : State where
  fw := bootstrapped csRegCount csUnpreservedRegCount sbSlotCount gpuMmuBringupAs
  issued := 0
  published := 0
  done := []
  pc := .idle

/-- What a caller knows: nothing yet, its place in the ring, or that its trampoline is done. -/
def Known (s : State) : Pc → Prop
  | .idle => True
  | .waiting _ own jobSeq _ => s.published = own + 1 ∧ jobSeq = s.issued % 2 ^ 64
  | .returned own status =>
    status = .success → s.issued < 2 ^ 64 → ∃ j, own = some j ∧ j ∈ s.done

/-- The word counts the trampolines that are done, and there are no more of those than job
numbers. -/
structure Inv (s : State) : Prop where
  kqJobSeq : s.fw.kqJobSeq = s.issued % 2 ^ 64
  seqno : s.fw.seqno = s.done.length % 2 ^ 64
  published : s.published ≤ s.issued
  order : s.done.Pairwise (· > ·)
  ring : ∀ j ∈ s.done, j < s.published
  pc : Known s s.pc

section Invariant

variable {s : State} {c : StreamCall} {r : Reply}

theorem done_subperm (I : Inv s) : s.done.Subperm (List.range s.published) :=
  List.Nodup.subperm (I.order.imp fun h => h.ne') fun j hj => List.mem_range.mpr (I.ring j hj)

theorem all_done (I : Inv s) (h : s.published ≤ s.done.length) {j : ℕ} (hj : j < s.published) :
    j ∈ s.done := by
  have hperm := (done_subperm I).perm_of_length_le (by rwa [List.length_range])
  exact hperm.mem_iff.mpr (List.mem_range.mpr hj)

/-- The word has reached a job number only if every trampoline up to that job is done. -/
theorem seqno_reached (I : Inv s) (hissued : s.issued < 2 ^ 64)
    (h : s.issued % 2 ^ 64 ≤ s.fw.seqno) {j : ℕ} (hj : j < s.published) : j ∈ s.done := by
  have hseqno : s.fw.seqno ≤ s.done.length := I.seqno ▸ Nat.mod_le _ _
  have hpublished := I.published
  rw [Nat.mod_eq_of_lt hissued] at h
  exact all_done I (by omega) hj

theorem start_inv (n m : Word) (sb as : ℕ) : Inv (start n m sb as) where
  kqJobSeq := rfl
  seqno := rfl
  published := le_rfl
  order := .nil
  ring := by simp [start]
  pc := trivial

theorem beginCall_inv (I : Inv s) (c : StreamCall) (r : Reply) : Inv (beginCall s c r) := by
  rcases hprep : prepare s.fw c r with ⟨st, u⟩
  by_cases hst : st = .success
  · subst hst
    obtain ⟨hjob, hseq, -⟩ := prepare_success hprep
    rw [I.kqJobSeq, Nat.mod_add_mod] at hjob
    have hpublished := I.published
    cases hpub : publish u c with
    | none =>
      simp only [beginCall, hprep, hpub, NtStatus.ok_success, Bool.not_true, Bool.false_eq_true,
        if_false]
      exact ⟨hjob, hseq.trans I.seqno, Nat.le_succ_of_le hpublished, I.order, I.ring,
        fun h => by cases h⟩
    | some v =>
      obtain ⟨-, -, -, hseq', hjob'⟩ := publish_eq_some hpub
      simp only [beginCall, hprep, hpub, NtStatus.ok_success, Bool.not_true, Bool.false_eq_true,
        if_false]
      refine ⟨hjob'.trans hjob, (hseq'.trans hseq).trans I.seqno, Nat.succ_le_succ hpublished,
        I.order, ?_, ?_⟩
      · exact fun j hj => Nat.lt_succ_of_lt (I.ring j hj)
      · exact ⟨rfl, hjob'.trans hjob⟩
  · have same := prepare_failure hprep hst
    simp only [beginCall, hprep, NtStatus.ok_eq_false hst, Bool.not_false, if_true]
    exact ⟨same.kqJobSeq.trans I.kqJobSeq, same.seqno.trans I.seqno, I.published, I.order, I.ring,
      fun h => absurd h hst⟩

theorem poll_inv (I : Inv s) {t : State} (h : step s .poll = some t) : Inv t := by
  have hpc := I.pc
  unfold step at h
  cases hs : s.pc with
  | idle => simp [hs] at h
  | returned own st => simp [hs] at h
  | waiting c own jobSeq i =>
    rw [hs] at hpc
    obtain ⟨hown, hjob⟩ := hpc
    simp only [hs] at h
    split at h
    · split at h
      · rename_i hseq
        obtain rfl := Option.some.inj h
        refine { I with pc := fun _ hissued => ⟨own, rfl, ?_⟩ }
        exact seqno_reached I hissued (hjob ▸ hseq) (hown ▸ Nat.lt_succ_self own)
      · obtain rfl := Option.some.inj h
        exact { I with pc := ⟨hown, hjob⟩ }
    · obtain rfl := Option.some.inj h
      exact { I with pc := fun h => by cases h }

theorem trampoline_inv (I : Inv s) {j : ℕ} (hj : j < s.published) (hlast : ∀ k ∈ s.done, k < j) :
    Inv { s with fw := { s.fw with seqno := seqnoAfter s.fw }, done := j::s.done } where
  kqJobSeq := I.kqJobSeq
  seqno := by
    change (s.fw.seqno + 1) % 2 ^ 64 = (s.done.length + 1) % 2 ^ 64
    rw [I.seqno, Nat.mod_add_mod]
  published := I.published
  order := .cons hlast I.order
  ring := by
    intro k hk
    rcases List.mem_cons.mp hk with rfl | hk
    · exact hj
    · exact I.ring k hk
  pc := by
    have hpc := I.pc
    unfold Known at hpc ⊢
    dsimp only
    split at hpc
    · trivial
    · exact hpc
    · intro hst hissued
      obtain ⟨own, rfl, hown⟩ := hpc hst hissued
      exact ⟨own, rfl, List.mem_cons_of_mem _ hown⟩

theorem step_inv (I : Inv s) {l : Label} {t : State} (h : step s l = some t) : Inv t := by
  cases l with
  | call c r =>
    simp only [step] at h
    split at h
    · cases h
    · obtain rfl := Option.some.inj h
      exact beginCall_inv I c r
  | poll => exact poll_inv I h
  | rebind asSlot r =>
    have same := rebind_sameJobs s.fw r asSlot
    simp only [step] at h
    split at h
    · cases h
    · obtain rfl := Option.some.inj h
      exact { I with
        kqJobSeq := same.kqJobSeq.trans I.kqJobSeq
        seqno := same.seqno.trans I.seqno }
  | consume bytes =>
    obtain rfl := Option.some.inj h
    exact { I with kqJobSeq := I.kqJobSeq, seqno := I.seqno }
  | trampoline j =>
    simp only [step] at h
    split at h
    · rename_i hj
      obtain rfl := Option.some.inj h
      exact trampoline_inv I hj.1 hj.2
    · cases h

end Invariant

theorem run_inv {n m : Word} {sb as : ℕ} {ls : List Label} {s : State}
    (h : exec step (start n m sb as) ls = some s) : Inv s :=
  exec_invariant (fun _ _ _ I _ ht => step_inv I ht)
    (start_inv n m sb as) (guarded_true step _ ls) h

def acked : Reply := ⟨true, true, 0, 0, 0, 0, none⟩

/-- As long as the job numbers have not wrapped around, a call that returns a success does so
after its own trampoline is done. -/
theorem success_after_own_sync (n m : Word) (sb as : ℕ) (ls : List Label) (s : State)
    (own : Option ℕ) (hrun : exec step (start n m sb as) ls = some s)
    (hissued : s.issued < 2 ^ 64) (hret : s.pc = .returned own .success) :
    ∃ j, own = some j ∧ j ∈ s.done := by
  have hpc := (run_inv hrun).pc
  rw [hret] at hpc
  exact hpc rfl hissued

/-- The first call runs out of time and is executed late; the second one waits for its own. -/
theorem late_job_not_taken : ∃ s,
    exec step (start 96 4 8 1)
      [.call ⟨0x8000000, 64, 0, 2, 1⟩ acked, .poll, .poll, .trampoline 0,
        .call (groupCall 2) acked, .poll, .trampoline 1, .poll] = some s ∧
    s.pc = .returned (some 1) .success ∧ ∃ j, some 1 = some j ∧ j ∈ s.done := by
  refine ⟨_, rfl, rfl, ?_⟩
  exact success_after_own_sync 96 4 8 1
    [.call ⟨0x8000000, 64, 0, 2, 1⟩ acked, .poll, .poll, .trampoline 0,
      .call (groupCall 2) acked, .poll, .trampoline 1, .poll] _ (some 1) rfl (by decide) rfl

def lostCall : List Label := .call (groupCall 2) acked::List.replicate 501 .poll

/-- Nothing was ever executed, and `k` job numbers were taken. -/
structure Hung (s : State) (k : ℕ) : Prop where
  ready : s.fw.csfBootValid = true ∧ s.fw.hostRingVa = true ∧ s.fw.qRing = true ∧
    s.fw.cs00Input = true ∧ s.fw.csg0 = true
  outExtract : s.fw.outExtract = 0
  kqJobSeq : s.fw.kqJobSeq = k
  seqno : s.fw.seqno = 0
  done : s.done = []
  pc : ∀ c own jobSeq i, s.pc ≠ .waiting c own jobSeq i

section Wrap

variable {s : State} {k : ℕ}

theorem start_hung (n m : Word) (sb as : ℕ) : Hung (start n m sb as) 0 where
  ready := ⟨rfl, rfl, rfl, rfl, rfl⟩
  outExtract := rfl
  kqJobSeq := rfl
  seqno := rfl
  done := rfl
  pc := by simp [start]

theorem hung_call (H : Hung s k) : ∃ t, step s (.call (groupCall 2) acked) = some t ∧
    t.pc = .waiting (groupCall 2) s.published ((k + 1) % 2 ^ 64) 0 ∧
    ∀ pc, (∀ c own jobSeq i, pc ≠ .waiting c own jobSeq i) →
      Hung { t with pc := pc } ((k + 1) % 2 ^ 64) := by
  obtain ⟨hboot, hring, hq, hcs, hcsg⟩ := H.ready
  have hprep : ∃ u, prepare s.fw (groupCall 2) acked = (.success, u) ∧
      u.outExtract = 0 ∧ u.insert = 0 ∧ u.csfBootValid = true ∧ u.hostRingVa = true ∧
      u.qRing = true ∧ u.cs00Input = true ∧ u.csg0 = true := by
    obtain ⟨started, hterm⟩ := terminate_eq s.fw acked
    have hack : acked.startAck = true := rfl
    have hidle : acked.beforeProgram = 0 ∧ acked.beforeInsert = 0 ∧ acked.beforeRing = 0 :=
      ⟨rfl, rfl, rfl⟩
    have hslot : ¬(groupCall 2).csgAsSlot ≥ AsSlots.asSlotMax := by decide
    simp [prepare, rebindCsgAs, hterm, programAndStartCsg, FwCtx.consume, hack, hidle, hslot,
      hboot, hring, hq, hcs, hcsg, H.outExtract]
  obtain ⟨u, hu, hout, hins, hready⟩ := hprep
  obtain ⟨hjob, hseq, -⟩ := prepare_success hu
  obtain ⟨v, hv⟩ : ∃ v, publish u (groupCall 2) = some v := by
    apply Option.ne_none_iff_exists'.mp
    rw [Ne, publish_eq_none, hins]
    decide
  have hframe := publish_frame hv
  obtain ⟨-, -, hout', hseq', hjob'⟩ := publish_eq_some hv
  rw [hjob, H.kqJobSeq] at hjob'
  refine ⟨beginCall s (groupCall 2) acked, ?_, ?_, ?_⟩
  · simp only [step]
    split
    · rename_i hpc
      exact absurd hpc (H.pc _ _ _ _)
    · rfl
  · simp only [beginCall, hu, hv, NtStatus.ok_success, Bool.not_true, Bool.false_eq_true, if_false,
      hjob']
  · intro pc hpc
    simp only [beginCall, hu, hv, NtStatus.ok_success, Bool.not_true, Bool.false_eq_true, if_false]
    refine ⟨?_, hout'.trans hout, hjob', (hseq'.trans hseq).trans H.seqno, H.done, hpc⟩
    rw [hframe]
    exact hready

theorem polls_time_out {c : StreamCall} {own jobSeq i left : ℕ}
    (hpc : s.pc = .waiting c own jobSeq i) (hleft : i + left = c.timeoutMs)
    (hseq : s.fw.seqno < jobSeq) :
    exec step s (List.replicate (left + 1) .poll) =
      some { s with pc := .returned (some own) .ioTimeout } := by
  induction left generalizing s i with
  | zero =>
    have hlast : ¬i < c.timeoutMs := by omega
    simp [exec, step, hpc, hlast]
  | succ left ih =>
    have hmore : i < c.timeoutMs := by omega
    have hpoll : step s .poll = some { s with pc := .waiting c own jobSeq (i + 1) } := by
      simp [step, hpc, hmore, Nat.not_le.mpr hseq]
    rw [List.replicate_succ, exec, hpoll, Option.bind_some,
      ih (s := { s with pc := .waiting c own jobSeq (i + 1) }) rfl (by omega) hseq]

theorem hung_lostCall (H : Hung s k) (hk : k + 1 < 2 ^ 64) :
    ∃ t, exec step s lostCall = some t ∧ Hung t (k + 1) := by
  obtain ⟨t, ht, hpc, hafter⟩ := hung_call H
  rw [Nat.mod_eq_of_lt hk] at hpc hafter
  have hseq : t.fw.seqno < k + 1 := by
    have := (hafter .idle (by simp)).seqno
    change t.fw.seqno = 0 at this
    omega
  refine ⟨_, ?_, hafter (.returned (some s.published) .ioTimeout) (by simp)⟩
  rw [lostCall, exec, ht, Option.bind_some]
  exact polls_time_out hpc rfl hseq

theorem hung_lostCalls (H : Hung s k) (n : ℕ) (hn : k + n < 2 ^ 64) :
    ∃ t, exec step s (List.replicate n lostCall).flatten = some t ∧ Hung t (k + n) := by
  induction n generalizing s k with
  | zero => exact ⟨s, rfl, H⟩
  | succ n ih =>
    obtain ⟨u, hu, Hu⟩ := hung_lostCall H (by omega)
    obtain ⟨t, ht, Ht⟩ := ih Hu (by omega)
    refine ⟨t, ?_, ?_⟩
    · rw [List.replicate_succ, List.flatten_cons, exec_append, hu, Option.bind_some, ht]
    · rwa [show k + (n + 1) = k + 1 + n by omega]

end Wrap

/-- After so many lost calls that the numbers have wrapped around, the next call succeeds at
once, and no trampoline was ever done. -/
theorem wrapped_number_succeeds : ∃ s own,
    exec step (start 96 4 8 1)
      ((List.replicate (2 ^ 64 - 1) lostCall).flatten ++ [.call (groupCall 2) acked, .poll]) =
        some s ∧
    s.pc = .returned own .success ∧ s.done = [] := by
  obtain ⟨t, ht, Ht⟩ := hung_lostCalls (start_hung 96 4 8 1) (2 ^ 64 - 1) (by decide)
  obtain ⟨u, hu, hpc, hafter⟩ := hung_call Ht
  have hzero : (0 + (2 ^ 64 - 1) + 1) % 2 ^ 64 = 0 := by decide
  rw [hzero] at hpc
  refine ⟨{ u with pc := .returned (some t.published) .success }, some t.published, ?_, rfl,
    (hafter .idle (by simp)).done⟩
  rw [exec_append, ht, Option.bind_some, exec, hu, Option.bind_some]
  simp [exec, step, hpc, groupCall]

end WinMali.SubmitSound
