import WinMaliKmd.CsfSubmit

/-!
# Recovery after a lost job

A job number is taken for every trampoline and the firmware adds one for every
trampoline that it completes. A job that is lost leaves the two counters apart
for good, so a later job succeeds exactly when none was lost before it.
-/

set_option autoImplicit false

namespace WinMali.CsfRecovery
open WinMali.CsfSubmit WinMali.Runs

/-- The call takes a job number. -/
def takesJob (fw : FwCtx) : Op → Bool
  | .stream c r => (prepare fw c r).1.ok
  | .rebind _ _ => false

/-- The trampoline of the call reaches the ring and its last `SYNC_ADD64` is executed. -/
def executed (fw : FwCtx) : Op → Bool
  | .stream c r =>
    (prepare fw c r).1.ok && (publish (prepare fw c r).2 c).isSome && r.completes.isSome
  | .rebind _ _ => false

def next (fw : FwCtx) : Op → FwCtx
  | .stream c r => (submitStreamCall fw c r).2
  | .rebind asSlot r => (rebindCsgAs fw asSlot r).2

/-- The number of calls of a history with a property of the state they start in. -/
def tally (p : FwCtx → Op → Bool) : FwCtx → List Op → ℕ
  | _, [] => 0
  | fw, op::ops => (p fw op).toNat + tally p (next fw op) ops

def jobs (fw : FwCtx) (ops : List Op) : ℕ := tally takesJob fw ops

def lost (fw : FwCtx) (ops : List Op) : ℕ :=
  tally (fun fw op => takesJob fw op && !executed fw op) fw ops

section Calls

variable {fw : FwCtx}

theorem executed_takesJob {op : Op} (h : executed fw op = true) : takesJob fw op = true := by
  cases op with
  | stream c r =>
    simp only [executed, Bool.and_eq_true] at h
    exact h.1.1
  | rebind asSlot r => cases h

theorem step_eq (fw : FwCtx) (op : Op) : step fw op = some (next fw op) := by
  cases op <;> rfl

theorem next_kqJobSeq (fw : FwCtx) (op : Op) (h : fw.kqJobSeq < 2 ^ 64) :
    (next fw op).kqJobSeq = (fw.kqJobSeq + (takesJob fw op).toNat) % 2 ^ 64 := by
  cases op with
  | rebind asSlot r =>
    have same := rebind_sameJobs fw r asSlot
    simpa [next, takesJob, same.kqJobSeq] using (Nat.mod_eq_of_lt h).symm
  | stream c r =>
    rcases hprep : prepare fw c r with ⟨st, u⟩
    simp only [next, takesJob, submitStreamCall, hprep]
    by_cases hst : st = .success
    · subst hst
      have hu := (prepare_success hprep).1
      cases hpub : publish u c with
      | none => simpa using hu
      | some v =>
        have hv := (publish_eq_some hpub).2.2.2.2
        simp [waitJob, hv, hu]
    · have same := prepare_failure hprep hst
      simpa [NtStatus.ok_eq_false hst, same.kqJobSeq] using (Nat.mod_eq_of_lt h).symm

theorem next_seqno (fw : FwCtx) (op : Op) (h : fw.seqno < 2 ^ 64) :
    (next fw op).seqno = (fw.seqno + (executed fw op).toNat) % 2 ^ 64 := by
  cases op with
  | rebind asSlot r =>
    have same := rebind_sameJobs fw r asSlot
    simpa [next, executed, same.seqno] using (Nat.mod_eq_of_lt h).symm
  | stream c r =>
    rcases hprep : prepare fw c r with ⟨st, u⟩
    simp only [next, executed, submitStreamCall, hprep]
    by_cases hst : st = .success
    · subst hst
      have hu := (prepare_success hprep).2.1
      cases hpub : publish u c with
      | none => simpa [hu] using (Nat.mod_eq_of_lt h).symm
      | some v =>
        have hv := (publish_eq_some hpub).2.2.2.1
        cases hc : r.completes with
        | none => simpa [waitJob, hc, hv, hu] using (Nat.mod_eq_of_lt h).symm
        | some k => simp [waitJob, seqnoAfter, hc, hv, hu]
    · have same := prepare_failure hprep hst
      simpa [NtStatus.ok_eq_false hst, same.seqno] using (Nat.mod_eq_of_lt h).symm

/-- The driver's counter and the firmware's after some jobs of which some were lost. -/
structure Counted (fw : FwCtx) (jobs lost : ℕ) : Prop where
  lost_le : lost ≤ jobs
  kqJobSeq : fw.kqJobSeq = jobs % 2 ^ 64
  seqno : fw.seqno = (jobs - lost) % 2 ^ 64

theorem next_counted {j l : ℕ} (C : Counted fw j l) (op : Op) :
    Counted (next fw op) (j + (takesJob fw op).toNat)
      (l + (takesJob fw op && !executed fw op).toNat) := by
  have hlost := C.lost_le
  have hjob := next_kqJobSeq fw op (by rw [C.kqJobSeq]; exact Nat.mod_lt _ (by decide))
  have hseq := next_seqno fw op (by rw [C.seqno]; exact Nat.mod_lt _ (by decide))
  rw [C.kqJobSeq, Nat.mod_add_mod] at hjob
  rw [C.seqno, Nat.mod_add_mod] at hseq
  refine ⟨?_, hjob, ?_⟩
  · cases takesJob fw op <;> cases executed fw op <;> simp <;> omega
  · rw [hseq]
    congr 1
    cases htakes : takesJob fw op with
    | false =>
      cases hex : executed fw op with
      | false => simp
      | true => rw [executed_takesJob hex] at htakes; cases htakes
    | true =>
      cases executed fw op with
      | false => simp
      | true =>
        simp only [Bool.toNat_true, Bool.not_true, Bool.and_false, Bool.toNat_false, Nat.add_zero]
        omega

theorem run_counted {ops : List Op} {j l : ℕ} {u : FwCtx} (C : Counted fw j l)
    (h : exec step fw ops = some u) : Counted u (j + jobs fw ops) (l + lost fw ops) := by
  induction ops generalizing fw j l with
  | nil =>
    cases h
    exact C
  | cons op ops ih =>
    obtain ⟨w, hw, hrest⟩ := (exec_cons step fw u op ops).mp h
    rw [step_eq] at hw
    obtain rfl := Option.some.inj hw
    have := ih (next_counted C op) hrest
    simpa [jobs, lost, tally, Nat.add_assoc] using this

end Calls

theorem bootstrapped_counted (n m : Word) (sb as : ℕ) : Counted (bootstrapped n m sb as) 0 0 :=
  ⟨le_rfl, rfl, rfl⟩

/-- A job whose trampoline completes before the wait runs out succeeds if no job before it was
lost, and, until the 64-bit counters wrap around, only then. -/
theorem completed_succeeds_iff (n m : Word) (sb as : ℕ) (ops : List Op) (c : StreamCall)
    (r : Reply) (k : ℕ) (fw u v : FwCtx)
    (hrun : exec step (bootstrapped n m sb as) ops = some fw)
    (hprep : prepare fw c r = (.success, u)) (hpub : publish u c = some v)
    (hdone : r.completes = some k) (hin : k < c.timeoutMs) :
    (lost (bootstrapped n m sb as) ops = 0 → (submitStreamCall fw c r).1 = .success) ∧
      (jobs (bootstrapped n m sb as) ops + 1 < 2 ^ 64 →
        (submitStreamCall fw c r).1 = .success → lost (bootstrapped n m sb as) ops = 0) := by
  have C := run_counted (bootstrapped_counted n m sb as) hrun
  simp only [Nat.zero_add] at C
  obtain ⟨hjob, hseq, _⟩ := prepare_success hprep
  obtain ⟨_, _, _, hseq', hjob'⟩ := publish_eq_some hpub
  have hresult : (submitStreamCall fw c r).1 =
      pollSeqno (seqnoAt v r) v.kqJobSeq 0 c.timeoutMs := by
    simp [submitStreamCall, hprep, hpub, waitJob]
  have hafter : seqnoAfter v = (fw.seqno + 1) % 2 ^ 64 := by
    rw [seqnoAfter, hseq', hseq]
  rw [hresult, poll_success_iff, hjob', hjob, C.kqJobSeq, Nat.mod_add_mod]
  constructor
  · intro hlost
    refine ⟨k, Nat.zero_le k, by omega, ?_⟩
    rw [C.seqno, hlost, Nat.sub_zero, Nat.mod_add_mod] at hafter
    simp [seqnoAt, hdone, hafter]
  · rintro hjobs ⟨i, _, _, hi⟩
    have hle := C.lost_le
    rw [C.seqno, Nat.mod_add_mod] at hafter
    rw [Nat.mod_eq_of_lt hjobs] at hi
    rw [Nat.mod_eq_of_lt (by omega)] at hafter
    -- the word that a poll reads is at most one ahead of the executed jobs
    have hread : seqnoAt v r i ≤ jobs (bootstrapped n m sb as) ops -
        lost (bootstrapped n m sb as) ops + 1 := by
      have hv : v.seqno =
          jobs (bootstrapped n m sb as) ops - lost (bootstrapped n m sb as) ops := by
        rw [hseq', hseq, C.seqno, Nat.mod_eq_of_lt (by omega)]
      simp only [seqnoAt, hdone]
      split
      · exact hafter.le
      · rw [hv]
        exact Nat.le_succ _
    omega

def replyOf (completes : Option ℕ) : Reply := ⟨true, true, 0, 0, 0, 128, completes⟩

/-- One job that hangs, and the next one times out although it is executed. -/
theorem lost_job_wedges : ∃ fw u v,
    exec step (bootstrapped 96 4 8 1)
      [.stream (groupCall 2) (replyOf none), .rebind 1 (replyOf none)] = some fw ∧
      prepare fw (groupCall 2) (replyOf (some 0)) = (.success, u) ∧
      publish u (groupCall 2) = some v ∧
      (submitStreamCall fw (groupCall 2) (replyOf (some 0))).1 = .ioTimeout :=
  ⟨_, _, _, rfl, rfl, rfl, by decide +kernel⟩

theorem second_job_succeeds :
    (submitStreamCall (next (bootstrapped 96 4 8 1) (.stream (groupCall 2) (replyOf (some 0))))
      (groupCall 2) (replyOf (some 3))).1 = .success :=
  (completed_succeeds_iff 96 4 8 1 [.stream (groupCall 2) (replyOf (some 0))] (groupCall 2)
    (replyOf (some 3)) 3 _ _ _ rfl rfl rfl rfl (by decide)).1 (by decide)

end WinMali.CsfRecovery
