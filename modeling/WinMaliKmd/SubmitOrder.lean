import WinMaliKmd.EscapeBounds
import WinMaliKmd.ForLoops
import WinMaliKmd.Traces

/-!
# The order of work and signals in a submit

`GroupSubmit` with the events of its loop: the check of a sync array, each wait and
each signal, and the streams. A kernel may let any of them fail. The first one that
fails ends the submit, a failed signal excepted, and it is the signals whose error
can get lost.
-/

set_option autoImplicit false

namespace WinMali.SubmitOrder
open WinMali.BoTable WinMali.AsSlots WinMali.EscapeBuffer WinMali.EscapeHandlers
open WinMali.EscapeBounds WinMali.ForLoops WinMali.Traces

inductive Event
  | syncArray (i : ℕ) (found : Bool)
  | wait (i m : ℕ) (err : Errno)
  /-- there is no address space or no stream to run -/
  | noStream (i : ℕ)
  | stream (i : ℕ) (err : Errno)
  | signal (i m : ℕ) (err : Errno)
deriving DecidableEq, Repr

def Event.ends : Event → Bool
  | .syncArray _ found => !found
  | .wait _ _ err => err != .ok
  | .noStream _ => true
  | .stream _ err => err != .ok
  | .signal _ _ _ => false

variable (b : Buffer) (k : Kernel)

def opIsSignal (qs : QueueSubmit) (m : ℕ) : Bool :=
  b.u32 (qs.syncsOffset.toNat + syncOpBytes * m) &&& syncOpSignal != 0

def processSyncOps (i : ℕ) (qs : QueueSubmit) (isSignal : Bool) :
    ℕ → ℕ → Errno → Errno × List Event
  | _, 0, err => (err, [])
  | m, left + 1, err =>
    if opIsSignal b qs m != isSignal then processSyncOps i qs isSignal (m + 1) left err
    else if isSignal then
      let e := k.syncSignal i m
      let rest := processSyncOps i qs isSignal (m + 1) left (if e ≠ .ok ∧ err = .ok then e else err)
      (rest.1, .signal i m e :: rest.2)
    else
      let e := k.syncWait i m
      if e ≠ .ok then (e, [.wait i m e])
      else
        let rest := processSyncOps i qs isSignal (m + 1) left err
        (rest.1, .wait i m e :: rest.2)

def waits (i : ℕ) (qs : QueueSubmit) (err : Errno) : Errno × List Event :=
  if qs.syncsCount = 0 then (err, [])
  else
    let waited := processSyncOps b k i qs false 0 qs.syncsCount.toNat .ok
    (waited.1, .syncArray i true :: waited.2)

def signals (i : ℕ) (qs : QueueSubmit) : Errno × List Event :=
  if qs.syncsCount = 0 then (.ok, [])
  else processSyncOps b k i qs true 0 qs.syncsCount.toNat .ok

/-- One turn of the loop: whether it goes on, the error so far, and the events. -/
def submit (i : ℕ) (qs : QueueSubmit) (err : Errno) : Bool × Errno × List Event :=
  if syncsRefused b qs then (false, .einval, [.syncArray i false])
  else
    let waited := waits b k i qs err
    if qs.syncsCount ≠ 0 ∧ waited.1 ≠ .ok then (false, waited)
    else if k.groupAsSlot i ≥ asSlotMax ∨ qs.streamAddr = 0 ∨ qs.streamSize = 0 then
      (false, .einval, waited.2 ++ [.noStream i])
    else if !(k.submitGroupStream i).ok then
      let e := if k.submitGroupStream i = .deviceNotReady then .einval else .eio
      (false, e, waited.2 ++ [.stream i e])
    else
      let signalled := signals b k i qs
      (true, if signalled.1 ≠ .ok ∧ waited.1 = .ok then signalled.1 else waited.1,
        waited.2 ++ .stream i .ok :: signalled.2)

def submits (o : ℕ) : ℕ → ℕ → Errno → Errno × List Event
  | _, 0, err => (err, [])
  | i, left + 1, err =>
    let turn := submit b k i (submitAt b o i) err
    let rest := if turn.1 then submits o (i + 1) left turn.2.1 else (turn.2.1, [])
    (rest.1, turn.2.2 ++ rest.2)

def groupSubmit : Errno × List Event :=
  match escapeAt b (ulong escapeHeaderSize) (ulong 24) with
  | none => (.einval, [])
  | some args =>
    let queueSubmitsCount := b.u32 (args + 4)
    if queueSubmitsCount = 0 then (.ok, [])
    else
      match escapeAt b (b.u32 (args + 8))
        (ulong (queueSubmitsCount.toNat * queueSubmitBytes)) with
      | none => (.einval, [])
      | some o =>
        match k.group (b.u32 args) with
        | none => (.enoent, [])
        | some fatal =>
          if fatal then (.einval, []) else submits b k o 0 queueSubmitsCount.toNat .ok

def queueSubmitOf (j : ℕ) : QueueSubmit := submitAt b (b.u32 (argsOffset + 8)).toNat j

def queueSubmitsCount : ℕ := (b.u32 (argsOffset + 4)).toNat

structure WorkDone (j : ℕ) (qs : QueueSubmit) (seen : List Event) : Prop where
  waits : ∀ m < qs.syncsCount.toNat, opIsSignal b qs m = false → .wait j m .ok ∈ seen
  stream : .stream j .ok ∈ seen

theorem WorkDone.mono {b : Buffer} {j : ℕ} {qs : QueueSubmit} {seen later : List Event}
    (h : WorkDone b j qs seen) (hsub : seen ⊆ later) : WorkDone b j qs later :=
  ⟨fun m hm hop => hsub (h.waits m hm hop), hsub h.stream⟩

/-- What an event may come after: no failure that ends the submit, and, when it is a signal,
the work of its own submit and of those before it. -/
structure InOrder (o : ℕ) (seen : List Event) (e : Event) : Prop where
  goesOn : ∀ x ∈ seen, x.ends = false
  work : ∀ i m err, e = .signal i m err → ∀ j ≤ i, WorkDone b j (submitAt b o j) seen

/-- The submit is left with nothing undone, the signals included. -/
def AllDone : Prop :=
  ArgsFit b 24 ∧ ∀ j < queueSubmitsCount b,
    WorkDone b j (queueSubmitOf b j) (groupSubmit b k).2 ∧
      ∀ m < (queueSubmitOf b j).syncsCount.toNat, opIsSignal b (queueSubmitOf b j) m = true →
        .signal j m .ok ∈ (groupSubmit b k).2

section SyncOps

variable {b : Buffer} {k : Kernel}

theorem processSyncOps_errno (i : ℕ) (qs : QueueSubmit) (isSignal : Bool) (m left : ℕ)
    (err : Errno) :
    (processSyncOps b k i qs isSignal m left err).1 =
      (escapeProcessSyncOps b (if isSignal then k.syncSignal i else k.syncWait i)
        qs.syncsOffset.toNat isSignal m left err).1 := by
  induction left generalizing m err with
  | zero => rfl
  | succ left ih =>
    simp only [processSyncOps, escapeProcessSyncOps, opIsSignal]
    split
    · exact ih _ _
    · cases isSignal with
      | true => exact ih _ _
      | false =>
        simp only [Bool.false_eq_true, if_false]
        split
        · rfl
        · exact ih _ _

theorem goesOn_snoc {seen : List Event} {e : Event} (hgo : ∀ x ∈ seen, x.ends = false)
    (he : e.ends = false) : ∀ x ∈ seen ++ [e], x.ends = false :=
  List.forall_mem_append.mpr ⟨hgo, List.forall_mem_singleton.mpr he⟩

theorem processWaits_each {o : ℕ} {seen : List Event} (hgo : ∀ x ∈ seen, x.ends = false) (i : ℕ)
    (qs : QueueSubmit) (m left : ℕ) (err : Errno) :
    Each (InOrder b o) seen (processSyncOps b k i qs false m left err).2 := by
  induction left generalizing seen m with
  | zero => trivial
  | succ left ih =>
    have hwait : ∀ err', InOrder b o seen (.wait i m err') := fun err' => ⟨hgo, nofun⟩
    simp only [processSyncOps, Bool.false_eq_true, if_false]
    split
    · exact ih hgo _
    · split
      · exact ⟨hwait _, trivial⟩
      · rename_i hok
        exact ⟨hwait _, ih (goesOn_snoc hgo (by simp [Event.ends, not_not.mp hok])) _⟩

theorem processWaits_done {i : ℕ} {qs : QueueSubmit} {m left : ℕ} {err : Errno}
    (hok : (processSyncOps b k i qs false m left err).1 = .ok) :
    (∀ x ∈ (processSyncOps b k i qs false m left err).2, x.ends = false) ∧
      ∀ n, m ≤ n → n < m + left → opIsSignal b qs n = false →
        .wait i n .ok ∈ (processSyncOps b k i qs false m left err).2 := by
  induction left generalizing m with
  | zero => exact ⟨nofun, fun n _ _ => by omega⟩
  | succ left ih =>
    simp only [processSyncOps, Bool.false_eq_true, if_false, Bool.bne_false] at hok ⊢
    split at hok
    · rename_i hsignal
      obtain ⟨hgo, hmem⟩ := ih hok
      rw [if_pos hsignal]
      refine ⟨hgo, fun n hm hn hwait => hmem n ?_ (by omega) hwait⟩
      rcases Nat.eq_or_lt_of_le hm with rfl | hlt
      · simp [hwait] at hsignal
      · exact hlt
    · rename_i hwait
      rw [if_neg hwait]
      split at hok
      · rename_i hfails
        exact absurd hok hfails
      · rename_i hpass
        rw [if_neg hpass]
        obtain ⟨hgo, hmem⟩ := ih hok
        have herr : k.syncWait i m = .ok := not_not.mp hpass
        refine ⟨fun x hx => ?_, fun n hm hn hop => ?_⟩
        · rcases List.mem_cons.mp hx with rfl | hx
          · simp [Event.ends, herr]
          · exact hgo x hx
        · rcases Nat.eq_or_lt_of_le hm with rfl | hlt
          · simp [herr]
          · exact List.mem_cons_of_mem _ (hmem n hlt (by omega) hop)

theorem mem_processWaits {i : ℕ} {qs : QueueSubmit} {m left : ℕ} {err : Errno} {e : Event}
    (h : e ∈ (processSyncOps b k i qs false m left err).2) : ∃ n r, e = .wait i n r := by
  induction left generalizing m with
  | zero => cases h
  | succ left ih =>
    simp only [processSyncOps, Bool.false_eq_true, if_false] at h
    split at h
    · exact ih h
    · split at h
      · exact ⟨_, _, List.mem_singleton.mp h⟩
      · rcases List.mem_cons.mp h with rfl | h
        · exact ⟨_, _, rfl⟩
        · exact ih h

theorem mem_processSignals {i : ℕ} {qs : QueueSubmit} {m left : ℕ} {err : Errno} {e : Event} :
    e ∈ (processSyncOps b k i qs true m left err).2 ↔
      ∃ n, m ≤ n ∧ n < m + left ∧ opIsSignal b qs n = true ∧
        e = .signal i n (k.syncSignal i n) := by
  induction left generalizing m err with
  | zero => exact iff_of_false nofun fun ⟨n, hm, hn, _⟩ => by omega
  | succ left ih =>
    simp only [processSyncOps, if_true]
    rw [exists_turns_succ]
    split
    · rename_i hwait
      rw [ih]
      refine (or_iff_right fun h => ?_).symm
      simp [h.1] at hwait
    · rename_i hsignal
      rw [List.mem_cons, ih]
      refine or_congr_left (and_iff_right ?_).symm
      simpa using hsignal

theorem processSignals_each {i o : ℕ} {seen : List Event} (hgo : ∀ x ∈ seen, x.ends = false)
    (hwork : ∀ j ≤ i, WorkDone b j (submitAt b o j) seen) (qs : QueueSubmit) (m left : ℕ)
    (err : Errno) : Each (InOrder b o) seen (processSyncOps b k i qs true m left err).2 := by
  induction left generalizing seen m err with
  | zero => trivial
  | succ left ih =>
    simp only [processSyncOps, if_true]
    split
    · exact ih hgo hwork _ _
    · refine ⟨⟨hgo, fun i' m' err' he => ?_⟩, ih (goesOn_snoc hgo rfl) (fun j hj => ?_) _ _⟩
      · obtain ⟨rfl, -⟩ := Event.signal.inj he
        exact hwork
      · exact (hwork j hj).mono (List.subset_append_left _ _)

end SyncOps

section Turns

variable {b : Buffer} {k : Kernel} {i o : ℕ} {qs : QueueSubmit} {err : Errno}
  {seen : List Event}

theorem waits_each (hgo : ∀ x ∈ seen, x.ends = false) :
    Each (InOrder b o) seen (waits b k i qs err).2 := by
  unfold waits
  split
  · trivial
  · exact ⟨⟨hgo, nofun⟩, processWaits_each (goesOn_snoc hgo rfl) _ _ _ _ _⟩

theorem waits_done (hok : ¬(qs.syncsCount ≠ 0 ∧ (waits b k i qs err).1 ≠ .ok)) :
    (∀ x ∈ (waits b k i qs err).2, x.ends = false) ∧
      ∀ m < qs.syncsCount.toNat, opIsSignal b qs m = false →
        .wait i m .ok ∈ (waits b k i qs err).2 := by
  unfold waits at hok ⊢
  split
  · rename_i hz
    exact ⟨nofun, fun m hm => by simp [hz] at hm⟩
  · rename_i hz
    rw [if_neg hz] at hok
    obtain ⟨hgo, hmem⟩ := processWaits_done (not_not.mp (not_and.mp hok hz))
    refine ⟨fun x hx => ?_, fun m hm hop => ?_⟩
    · rcases List.mem_cons.mp hx with rfl | hx
      · rfl
      · exact hgo x hx
    · exact List.mem_cons_of_mem _ (hmem m (Nat.zero_le m) (by omega) hop)

theorem mem_waits {e : Event} (h : e ∈ (waits b k i qs err).2) :
    e = .syncArray i true ∨ ∃ m r, e = .wait i m r := by
  unfold waits at h
  split at h
  · cases h
  · exact (List.mem_cons.mp h).imp_right mem_processWaits

theorem mem_signals {e : Event} :
    e ∈ (signals b k i qs).2 ↔
      ∃ m < qs.syncsCount.toNat, opIsSignal b qs m = true ∧
        e = .signal i m (k.syncSignal i m) := by
  unfold signals
  split
  · rename_i hz
    simp [hz]
  · simp [mem_processSignals]

theorem signals_each (hgo : ∀ x ∈ seen, x.ends = false)
    (hwork : ∀ j ≤ i, WorkDone b j (submitAt b o j) seen) :
    Each (InOrder b o) seen (signals b k i qs).2 := by
  unfold signals
  split
  · trivial
  · exact processSignals_each hgo hwork _ _ _ _

/-- The submit is left for its sync array, for a wait or for its stream, or the turn is carried
out to its end. -/
theorem submit_cases (b : Buffer) (k : Kernel) (i : ℕ) (qs : QueueSubmit) (err : Errno) :
    submit b k i qs err = (false, .einval, [.syncArray i false]) ∨
    (waits b k i qs err).1 ≠ .ok ∧ submit b k i qs err = (false, waits b k i qs err) ∨
    ¬(qs.syncsCount ≠ 0 ∧ (waits b k i qs err).1 ≠ .ok) ∧
      ((∃ e last, e ≠ .ok ∧ (last = .noStream i ∨ last = .stream i e) ∧
        submit b k i qs err = (false, e, (waits b k i qs err).2 ++ [last])) ∨
      submit b k i qs err = (true,
        if (signals b k i qs).1 ≠ .ok ∧ (waits b k i qs err).1 = .ok then (signals b k i qs).1
          else (waits b k i qs err).1,
        (waits b k i qs err).2 ++ .stream i .ok :: (signals b k i qs).2)) := by
  unfold submit
  dsimp only
  split
  · exact .inl rfl
  split
  · rename_i hwait
    exact .inr (.inl ⟨hwait.2, rfl⟩)
  rename_i hwait
  refine .inr (.inr ⟨hwait, ?_⟩)
  split
  · exact .inl ⟨.einval, _, nofun, .inl rfl, rfl⟩
  split
  · refine .inl ⟨_, _, ?_, .inr rfl, rfl⟩
    split <;> exact nofun
  · exact .inr rfl

structure TurnDone (b : Buffer) (k : Kernel) (i : ℕ) (qs : QueueSubmit) (es : List Event) :
    Prop where
  goesOn : ∀ x ∈ es, x.ends = false
  work : WorkDone b i qs es
  signals : ∀ m < qs.syncsCount.toNat, opIsSignal b qs m = true →
    .signal i m (k.syncSignal i m) ∈ es

theorem submit_goes (hon : (submit b k i qs err).1 = true) :
    ¬(qs.syncsCount ≠ 0 ∧ (waits b k i qs err).1 ≠ .ok) ∧ submit b k i qs err = (true,
      if (signals b k i qs).1 ≠ .ok ∧ (waits b k i qs err).1 = .ok then (signals b k i qs).1
        else (waits b k i qs err).1,
      (waits b k i qs err).2 ++ .stream i .ok :: (signals b k i qs).2) := by
  rcases submit_cases b k i qs err with h | ⟨-, h⟩ | ⟨hwait, ⟨e, last, -, -, h⟩ | h⟩
  · rw [h] at hon
    cases hon
  · rw [h] at hon
    cases hon
  · rw [h] at hon
    cases hon
  · exact ⟨hwait, h⟩

theorem submit_done (hon : (submit b k i qs err).1 = true) :
    TurnDone b k i qs (submit b k i qs err).2.2 := by
  obtain ⟨hwait, hturn⟩ := submit_goes hon
  rw [hturn]
  obtain ⟨hgo, hwaits⟩ := waits_done hwait
  refine ⟨fun x hx => ?_, ⟨fun m hm hop => ?_, ?_⟩, fun m hm hop => ?_⟩
  · simp only [List.mem_append, List.mem_cons] at hx
    rcases hx with hx | rfl | hx
    · exact hgo x hx
    · rfl
    · obtain ⟨m, -, -, rfl⟩ := mem_signals.mp hx
      rfl
  · exact List.mem_append_left _ (hwaits m hm hop)
  · simp
  · exact List.mem_append_right _ (List.mem_cons_of_mem _ (mem_signals.mpr ⟨m, hm, hop, rfl⟩))

theorem submit_each (hgo : ∀ x ∈ seen, x.ends = false)
    (hwork : ∀ j < i, WorkDone b j (submitAt b o j) seen) :
    Each (InOrder b o) seen (submit b k i (submitAt b o i) err).2.2 := by
  rcases submit_cases b k i (submitAt b o i) err with
    h | ⟨-, h⟩ | ⟨hwait, ⟨e, last, -, hlast, h⟩ | h⟩ <;> rw [h]
  · exact ⟨⟨hgo, nofun⟩, trivial⟩
  · exact waits_each hgo
  · obtain ⟨hgoes, -⟩ := waits_done hwait
    refine each_append.mpr ⟨waits_each hgo, ⟨List.forall_mem_append.mpr ⟨hgo, hgoes⟩, ?_⟩, trivial⟩
    rcases hlast with rfl | rfl <;> exact nofun
  obtain ⟨hgoes, hwaits⟩ := waits_done hwait
  -- nothing has failed when it comes to the stream
  have hgo' : ∀ x ∈ seen ++ (waits b k i (submitAt b o i) err).2, x.ends = false :=
    List.forall_mem_append.mpr ⟨hgo, hgoes⟩
  refine each_append.mpr ⟨waits_each hgo, ⟨hgo', nofun⟩, signals_each ?_ ?_⟩
  · exact goesOn_snoc hgo' rfl
  · intro j hj
    rcases Nat.lt_or_eq_of_le hj with hlt | rfl
    · refine (hwork j hlt).mono fun x hx => ?_
      exact List.mem_append_left _ (List.mem_append_left _ hx)
    · refine ⟨fun m hm hop => ?_, by simp⟩
      exact List.mem_append_left _ (List.mem_append_right _ (hwaits m hm hop))

theorem submits_each (left : ℕ) (hgo : ∀ x ∈ seen, x.ends = false)
    (hwork : ∀ j < i, WorkDone b j (submitAt b o j) seen) :
    Each (InOrder b o) seen (submits b k o i left err).2 := by
  induction left generalizing i err seen with
  | zero => trivial
  | succ left ih =>
    simp only [submits]
    refine each_append.mpr ⟨submit_each hgo hwork, ?_⟩
    split
    · rename_i hon
      have hdone := submit_done hon
      refine ih (List.forall_mem_append.mpr ⟨hgo, hdone.goesOn⟩) fun j hj => ?_
      rcases Nat.lt_or_eq_of_le (Nat.le_of_lt_succ hj) with hlt | rfl
      · exact (hwork j hlt).mono (List.subset_append_left _ _)
      · exact hdone.work.mono (List.subset_append_right _ _)
    · trivial

end Turns

section Errors

variable {b : Buffer} {k : Kernel} {i j o : ℕ} {qs : QueueSubmit} {err : Errno} {e : Event}

theorem waits_errno (i : ℕ) (qs : QueueSubmit) (err : Errno) :
    (waits b k i qs err).1 = (syncPass b qs (k.syncWait i) false err).1 := by
  unfold waits syncPass
  split
  · rfl
  · exact processSyncOps_errno _ _ _ _ _ _

theorem signals_errno (i : ℕ) (qs : QueueSubmit) :
    (signals b k i qs).1 = (syncPass b qs (k.syncSignal i) true .ok).1 := by
  unfold signals syncPass
  split
  · rfl
  · exact processSyncOps_errno _ _ _ _ _ _

/-- A turn of the loop is the one of the escape handler. -/
theorem submit_errno (i : ℕ) (qs : QueueSubmit) (err : Errno) :
    (submit b k i qs err).1 = (queueSubmit b k i qs err).1 ∧
      (submit b k i qs err).2.1 = (queueSubmit b k i qs err).2.1 := by
  unfold submit queueSubmit
  simp only [waits_errno, signals_errno]
  split
  · exact ⟨rfl, rfl⟩
  split
  · exact ⟨rfl, waits_errno i qs err⟩
  split
  · exact ⟨rfl, rfl⟩
  split <;> exact ⟨rfl, rfl⟩

theorem submits_errno (o i left : ℕ) (err : Errno) :
    (submits b k o i left err).1 = (submitLoop b k o i left err).1 := by
  induction left generalizing i err with
  | zero => rfl
  | succ left ih =>
    have hturn := submit_errno (b := b) (k := k) i (submitAt b o i) err
    simp only [submits, submitLoop, hturn]
    unfold submitAt
    split
    · exact ih _ _
    · rfl

/-- The events are those of the handler in the escape dispatcher. -/
theorem groupSubmit_errno : (groupSubmit b k).1 = (escapeGroupSubmit b k).1 := by
  unfold groupSubmit escapeGroupSubmit withArgs
  cases escapeAt b (ulong escapeHeaderSize) (ulong 24) with
  | none => rfl
  | some args =>
    dsimp only
    split
    · rfl
    cases escapeAt b (b.u32 (args + 8)) (ulong ((b.u32 (args + 4)).toNat * queueSubmitBytes)) with
    | none => rfl
    | some o =>
      cases k.group (b.u32 args) with
      | none => rfl
      | some fatal =>
        cases fatal with
        | true => rfl
        | false => exact submits_errno _ _ _ _

end Errors

theorem groupSubmit_cases (b : Buffer) (k : Kernel) :
    (ArgsFit b 24 ∧ escapeRangeOk b (b.u32 (argsOffset + 8))
        (ulong (queueSubmitsCount b * queueSubmitBytes)) = true ∧
      k.group (b.u32 argsOffset) = some false ∧
      groupSubmit b k =
        submits b k (b.u32 (argsOffset + 8)).toNat 0 (queueSubmitsCount b) .ok) ∨
    (ArgsFit b 24 ∧ queueSubmitsCount b = 0 ∧ groupSubmit b k = (.ok, [])) ∨
    (¬(ArgsFit b 24 ∧ queueSubmitsCount b = 0) ∧
      ¬(ArgsFit b 24 ∧ escapeRangeOk b (b.u32 (argsOffset + 8))
        (ulong (queueSubmitsCount b * queueSubmitBytes)) = true ∧
        k.group (b.u32 argsOffset) = some false) ∧
      (groupSubmit b k).1 ≠ .ok ∧ (groupSubmit b k).2 = []) := by
  unfold groupSubmit queueSubmitsCount
  rcases @escapeAt_args b 24 (by decide) (by decide) with
    ⟨hfit, hat⟩ | ⟨hfit, hat⟩ <;> rw [hat]
  case inr => exact .inr (.inr ⟨fun h => hfit h.1, fun h => hfit h.1, nofun, rfl⟩)
  case inl =>
    dsimp only
    split
    · rename_i hz
      exact .inr (.inl ⟨hfit, by simp [hz], rfl⟩)
    rename_i hz
    have hcount : ¬(b.u32 (argsOffset + 4)).toNat = 0 := fun h => hz (BitVec.eq_of_toNat_eq h)
    cases hrange : escapeAt b (b.u32 (argsOffset + 8))
        (ulong ((b.u32 (argsOffset + 4)).toNat * queueSubmitBytes)) with
    | none =>
      rw [escapeAt_none, Bool.eq_false_iff] at hrange
      exact .inr (.inr ⟨fun h => hcount h.2, fun h => hrange h.2.1, nofun, rfl⟩)
    | some o =>
      obtain ⟨hok, rfl⟩ := escapeAt_some.mp hrange
      cases hgroup : k.group (b.u32 argsOffset) with
      | none => exact .inr (.inr ⟨fun h => hcount h.2, by simp, nofun, rfl⟩)
      | some fatal =>
        cases fatal with
        | true => exact .inr (.inr ⟨fun h => hcount h.2, by simp, nofun, rfl⟩)
        | false => exact .inl ⟨hfit, hok, rfl, rfl⟩

/-- A signal comes after every wait and the stream of its own submit and of all submits before
it, and nothing at all comes after a wait, a stream or a sync array that fails. -/
theorem signals_after_work (b : Buffer) (k : Kernel) (before after : List Event) (e : Event)
    (h : (groupSubmit b k).2 = before ++ e::after) :
    (∀ i m err, e = .signal i m err → ∀ j ≤ i, WorkDone b j (queueSubmitOf b j) before) ∧
      (e.ends = true → after = []) := by
  have heach : Each (InOrder b (b.u32 (argsOffset + 8)).toNat) [] (groupSubmit b k).2 := by
    rcases groupSubmit_cases b k with ⟨-, -, -, hloop⟩ | ⟨-, -, hnone⟩ | ⟨-, -, -, hnone⟩
    · rw [hloop]
      exact submits_each _ nofun fun j hj => by omega
    · rw [hnone]
      trivial
    · rw [hnone]
      trivial
  rw [h] at heach
  refine ⟨heach.cut.work, fun hends => ?_⟩
  cases after with
  | nil => rfl
  | cons x after =>
    rw [show before ++ e::x::after = (before ++ [e]) ++ x::after by simp] at heach
    have hgo := heach.cut.goesOn e (by simp)
    rw [hends] at hgo
    cases hgo

/-- Two submits of a stream. The first one signals, the second one waits. -/
def twoSubmits : Buffer where
  privateDriverDataSize := 156
  byte o :=
    match o with
    | 0 => 0x57 | 1 => 0x4D | 2 => 0x65 | 3 => 0x73
    | 4 => 1
    | 8 => 9
    | 36 => 1 | 40 => 2 | 44 => 60
    | 64 => 64 | 71 => 8 | 76 => 1 | 80 => 124
    | 96 => 64 | 103 => 8 | 108 => 1 | 112 => 140
    | 127 => 0x80 | 128 => 7
    | 144 => 8
    | _ => 0

/-- The sync object of the signal is not known any more. -/
def signalFails : Kernel :=
  { oneVm with
    group := fun _ => some false
    syncSignal := fun i _ => if i = 0 then .enoent else .ok }

theorem signal_after_stream : ∃ before after,
    (groupSubmit twoSubmits signalFails).2 = before ++ .signal 0 0 .enoent::after ∧
      WorkDone twoSubmits 0 (queueSubmitOf twoSubmits 0) before :=
  ⟨[.syncArray 0 true, .stream 0 .ok], [.syncArray 1 true, .wait 1 0 .ok, .stream 1 .ok],
    by decide +kernel, (signals_after_work twoSubmits signalFails [.syncArray 0 true, .stream 0 .ok]
      [.syncArray 1 true, .wait 1 0 .ok, .stream 1 .ok] (.signal 0 0 .enoent)
      (by decide +kernel)).1 0 0 .enoent rfl 0 (Nat.le_refl 0)⟩

def SignalsPass (i : ℕ) (qs : QueueSubmit) : Prop :=
  ∀ m < qs.syncsCount.toNat, opIsSignal b qs m = true → k.syncSignal i m = .ok

/-- A signal fails in a submit that is carried out to its end, and the last submit with a sync
array of its own has no failure. -/
structure SignalLost : Prop where
  args : ArgsFit b 24
  range : escapeRangeOk b (b.u32 (argsOffset + 8))
    (ulong (queueSubmitsCount b * queueSubmitBytes)) = true
  group : k.group (b.u32 argsOffset) = some false
  passes : ∀ j < queueSubmitsCount b, SubmitPasses b k j (queueSubmitOf b j)
  fails : ∃ j < queueSubmitsCount b, ¬SignalsPass b k j (queueSubmitOf b j)
  last : ∀ j < queueSubmitsCount b, (queueSubmitOf b j).syncsCount ≠ 0 →
    (∀ l < queueSubmitsCount b, j < l → (queueSubmitOf b l).syncsCount = 0) →
      SignalsPass b k j (queueSubmitOf b j)

section Results

variable {b : Buffer} {k : Kernel} {i j o : ℕ} {qs : QueueSubmit} {err : Errno} {e : Event}

theorem processSignals_ok (i : ℕ) (qs : QueueSubmit) (m left : ℕ) (err : Errno) :
    (processSyncOps b k i qs true m left err).1 = .ok ↔
      err = .ok ∧ ∀ n, m ≤ n → n < m + left → opIsSignal b qs n = true →
        k.syncSignal i n = .ok := by
  induction left generalizing m err with
  | zero => exact (and_iff_left fun n _ _ => by omega).symm
  | succ left ih =>
    rw [forall_turns_succ]
    simp only [processSyncOps, if_true, Bool.bne_true]
    split
    · rename_i hwait
      rw [ih]
      simp [show opIsSignal b qs m = false by simpa using hwait]
    · rename_i hsignal
      rw [ih]
      simp only [show opIsSignal b qs m = true by simpa using hsignal]
      by_cases herr : err = .ok <;> by_cases he : k.syncSignal i m = .ok <;> simp [herr, he]

theorem signals_ok (i : ℕ) (qs : QueueSubmit) :
    (signals b k i qs).1 = .ok ↔ SignalsPass b k i qs := by
  unfold signals SignalsPass
  split
  · rename_i hz
    simp [hz]
  · simp [processSignals_ok]

/-- The error that a turn hands on: that of its own signals, if it has a sync array at all. -/
theorem submit_err (hon : (submit b k i qs err).1 = true) :
    (submit b k i qs err).2.1 = .ok ↔
      SignalsPass b k i qs ∧ (qs.syncsCount = 0 → err = .ok) := by
  rw [← signals_ok]
  obtain ⟨hwait, hturn⟩ := submit_goes hon
  rw [hturn]
  by_cases hz : qs.syncsCount = 0
  · simp [waits, signals, hz]
  · have hwaited : (waits b k i qs err).1 = .ok := not_not.mp (not_and.mp hwait hz)
    simp only [hwaited, hz, and_true, false_imp_iff]
    split
    · rfl
    · rename_i hsignal
      exact iff_of_true rfl (not_not.mp hsignal)

theorem submit_ends (hend : (submit b k i qs err).1 = false) :
    (submit b k i qs err).2.1 ≠ .ok := by
  rcases submit_cases b k i qs err with h | ⟨hwait, h⟩ | ⟨-, ⟨e, last, he, -, h⟩ | h⟩ <;>
    rw [h] at hend ⊢
  · exact nofun
  · exact hwait
  · exact he
  · cases hend

theorem submit_stream (h : .stream j .ok ∈ (submit b k i qs err).2.2) :
    j = i ∧ (submit b k i qs err).1 = true := by
  have hwaits : .stream j .ok ∉ (waits b k i qs err).2 := fun h => by
    rcases mem_waits h with h | ⟨m, r, h⟩ <;> cases h
  have hsignals : .stream j .ok ∉ (signals b k i qs).2 := fun h => by
    obtain ⟨m, -, -, h⟩ := mem_signals.mp h
    cases h
  rcases submit_cases b k i qs err with hs | ⟨-, hs⟩ | ⟨-, ⟨e, last, he, hlast, hs⟩ | hs⟩ <;>
    rw [hs] at h ⊢
  · simp at h
  · exact absurd h hwaits
  · rcases hlast with rfl | rfl <;> simp [hwaits, he.symm] at h
  · simp only [List.mem_append, List.mem_cons, hwaits, hsignals, or_false, false_or] at h
    exact ⟨(Event.stream.inj h).1, rfl⟩

theorem submit_signal {m : ℕ} {r : Errno} (h : .signal j m r ∈ (submit b k i qs err).2.2) :
    r = k.syncSignal j m := by
  have hwaits : .signal j m r ∉ (waits b k i qs err).2 := fun h => by
    rcases mem_waits h with h | ⟨m, r, h⟩ <;> cases h
  rcases submit_cases b k i qs err with hs | ⟨-, hs⟩ | ⟨-, ⟨e, last, -, hlast, hs⟩ | hs⟩ <;>
    rw [hs] at h
  · simp at h
  · exact absurd h hwaits
  · rcases hlast with rfl | rfl <;> simp [hwaits] at h
  · simp only [List.mem_append, List.mem_cons, hwaits, false_or, reduceCtorEq] at h
    obtain ⟨m', -, -, h⟩ := mem_signals.mp h
    obtain ⟨rfl, rfl, rfl⟩ := Event.signal.inj h
    rfl

theorem submits_ok (o i left : ℕ) (err : Errno) :
    (submits b k o i left err).1 = .ok ↔
      (∀ j, i ≤ j → j < i + left → SubmitPasses b k j (submitAt b o j)) ∧
      (∀ j, i ≤ j → j < i + left → (submitAt b o j).syncsCount ≠ 0 →
        (∀ l, j < l → l < i + left → (submitAt b o l).syncsCount = 0) →
          SignalsPass b k j (submitAt b o j)) ∧
      ((∀ j, i ≤ j → j < i + left → (submitAt b o j).syncsCount = 0) → err = .ok) := by
  induction left generalizing i err with
  | zero =>
    constructor
    · exact fun h => ⟨fun j _ _ => by omega, fun j _ _ => by omega, fun _ => h⟩
    · exact fun h => h.2.2 fun j _ _ => by omega
  | succ left ih =>
    have hpasses := queueSubmit_goes_on (b := b) (k := k) i (submitAt b o i) err
    rw [← (submit_errno i (submitAt b o i) err).1] at hpasses
    simp only [submits]
    split
    · rename_i hon
      have herr := submit_err hon
      rw [hpasses] at hon
      rw [ih]
      constructor
      · rintro ⟨hpass, hlast, hnone⟩
        rw [herr] at hnone
        refine ⟨fun j hj hlt => ?_, fun j hj hlt hsyncs hrest => ?_, fun hz => ?_⟩
        · rcases Nat.eq_or_lt_of_le hj with rfl | hj
          · exact hon
          · exact hpass j hj (by omega)
        · rcases Nat.eq_or_lt_of_le hj with rfl | hj
          · exact (hnone fun l hl hlt => hrest l hl (by omega)).1
          · exact hlast j hj (by omega) hsyncs fun l hl hlt => hrest l hl (by omega)
        · have hhead := hz i (Nat.le_refl i) (by omega)
          exact (hnone fun l hl hlt => hz l (by omega) (by omega)).2 hhead
      · rintro ⟨hpass, hlast, hnone⟩
        refine ⟨fun j hj hlt => hpass j (by omega) (by omega),
          fun j hj hlt hsyncs hrest => ?_, fun hz => herr.mpr ⟨?_, fun hhead => ?_⟩⟩
        · exact hlast j (by omega) (by omega) hsyncs fun l hl hlt => hrest l hl (by omega)
        · by_cases hhead : (submitAt b o i).syncsCount = 0
          · intro m hm
            simp [hhead] at hm
          · exact hlast i (Nat.le_refl i) (by omega) hhead fun l hl hlt => hz l hl (by omega)
        · refine hnone fun j hj hlt => ?_
          rcases Nat.eq_or_lt_of_le hj with rfl | hj
          · exact hhead
          · exact hz j hj (by omega)
    · rename_i hend
      refine iff_of_false (submit_ends (Bool.eq_false_iff.mpr hend)) fun h => hend ?_
      exact hpasses.mpr (h.1 i (Nat.le_refl i) (by omega))

theorem mem_submits {left : ℕ} (h : e ∈ (submits b k o i left err).2) :
    ∃ j err', e ∈ (submit b k j (submitAt b o j) err').2.2 := by
  induction left generalizing i err with
  | zero => cases h
  | succ left ih =>
    simp only [submits, List.mem_append] at h
    rcases h with h | h
    · exact ⟨i, err, h⟩
    · split at h
      · exact ih h
      · cases h

theorem submits_stream {left : ℕ} (h : .stream j .ok ∈ (submits b k o i left err).2) :
    SubmitPasses b k j (submitAt b o j) := by
  obtain ⟨i', err', hturn⟩ := mem_submits h
  obtain ⟨rfl, hon⟩ := submit_stream hturn
  rw [(submit_errno _ _ _).1] at hon
  exact (queueSubmit_goes_on _ _ _).mp hon

theorem submits_signal {left m : ℕ} {r : Errno}
    (h : .signal j m r ∈ (submits b k o i left err).2) : r = k.syncSignal j m := by
  obtain ⟨i', err', hturn⟩ := mem_submits h
  exact submit_signal hturn

theorem submits_done (o i left : ℕ) (err : Errno)
    (hpass : ∀ j, i ≤ j → j < i + left → SubmitPasses b k j (submitAt b o j)) :
    ∀ j, i ≤ j → j < i + left → ∃ es ⊆ (submits b k o i left err).2,
      TurnDone b k j (submitAt b o j) es := by
  induction left generalizing i err with
  | zero => exact fun j _ _ => by omega
  | succ left ih =>
    have hon : (submit b k i (submitAt b o i) err).1 = true := by
      rw [(submit_errno _ _ _).1]
      exact (queueSubmit_goes_on _ _ _).mpr (hpass i (Nat.le_refl i) (by omega))
    intro j hj hlt
    simp only [submits, hon, if_true]
    rcases Nat.eq_or_lt_of_le hj with rfl | hj
    · exact ⟨_, List.subset_append_left _ _, submit_done hon⟩
    · obtain ⟨es, hsub, hes⟩ := ih (i + 1) (submit b k i (submitAt b o i) err).2.1
        (fun j hj hlt => hpass j (by omega) (by omega)) j hj (by omega)
      exact ⟨es, fun x hx => List.mem_append_right _ (hsub hx), hes⟩

end Results

theorem allDone_iff : AllDone b k ↔
    ArgsFit b 24 ∧ (queueSubmitsCount b = 0 ∨
      escapeRangeOk b (b.u32 (argsOffset + 8))
          (ulong (queueSubmitsCount b * queueSubmitBytes)) = true ∧
        k.group (b.u32 argsOffset) = some false ∧
        ∀ j < queueSubmitsCount b, SubmitPasses b k j (queueSubmitOf b j) ∧
          SignalsPass b k j (queueSubmitOf b j)) := by
  unfold AllDone
  refine and_congr_right fun hargs => ?_
  rcases groupSubmit_cases b k with ⟨-, hrange, hgroup, hloop⟩ | ⟨-, hz, hnone⟩ |
    ⟨hcount, hstart, -, hnone⟩
  · rw [hloop]
    constructor
    · refine fun h => .inr ⟨hrange, hgroup, fun j hj => ?_⟩
      exact ⟨submits_stream (h j hj).1.stream,
        fun m hm hop => (submits_signal ((h j hj).2 m hm hop)).symm⟩
    · rintro h j hj
      obtain ⟨-, -, hpass⟩ := h.resolve_left (by omega)
      obtain ⟨es, hsub, hdone⟩ := submits_done (b.u32 (argsOffset + 8)).toNat 0
        (queueSubmitsCount b) .ok (fun j _ hj => (hpass j (by omega)).1) j (Nat.zero_le j)
        (by omega)
      refine ⟨hdone.work.mono hsub, fun m hm hop => hsub ?_⟩
      rw [← (hpass j hj).2 m hm hop]
      exact hdone.signals m hm hop
  · exact iff_of_true (fun j hj => by omega) (.inl hz)
  · have hcount : queueSubmitsCount b ≠ 0 := fun h => hcount ⟨hargs, h⟩
    refine iff_of_false (fun h => ?_) fun h => ?_
    · have := (h 0 (Nat.pos_of_ne_zero hcount)).1.stream
      simp [hnone] at this
    · obtain ⟨hrange, hgroup, -⟩ := h.resolve_left hcount
      exact hstart ⟨hargs, hrange, hgroup⟩

theorem groupSubmit_ok : (groupSubmit b k).1 = .ok ↔
    ArgsFit b 24 ∧ (queueSubmitsCount b = 0 ∨
      escapeRangeOk b (b.u32 (argsOffset + 8))
          (ulong (queueSubmitsCount b * queueSubmitBytes)) = true ∧
        k.group (b.u32 argsOffset) = some false ∧
        (∀ j < queueSubmitsCount b, SubmitPasses b k j (queueSubmitOf b j)) ∧
        ∀ j < queueSubmitsCount b, (queueSubmitOf b j).syncsCount ≠ 0 →
          (∀ l < queueSubmitsCount b, j < l → (queueSubmitOf b l).syncsCount = 0) →
            SignalsPass b k j (queueSubmitOf b j)) := by
  rcases groupSubmit_cases b k with ⟨hargs, hrange, hgroup, hloop⟩ | ⟨hargs, hz, hnone⟩ |
    ⟨hcount, hstart, hfail, -⟩
  · rw [hloop, submits_ok]
    constructor
    · rintro ⟨hpass, hlast, -⟩
      refine ⟨hargs, .inr ⟨hrange, hgroup, fun j hj => hpass j (Nat.zero_le j) (by omega),
        fun j hj hsyncs hrest => ?_⟩⟩
      exact hlast j (Nat.zero_le j) (by omega) hsyncs fun l hl hlt => hrest l (by omega) hl
    · rintro ⟨-, hz | ⟨-, -, hpass, hlast⟩⟩
      · exact ⟨fun j _ _ => by omega, fun j _ _ => by omega, fun _ => rfl⟩
      · refine ⟨fun j _ hj => hpass j (by omega), fun j _ hj hsyncs hrest => ?_, fun _ => rfl⟩
        exact hlast j (by omega) hsyncs fun l hlt hl => hrest l hl (by omega)
  · rw [hnone]
    exact iff_of_true rfl ⟨hargs, .inl hz⟩
  · refine iff_of_false hfail fun h => ?_
    rcases h with ⟨hargs, hz | ⟨hrange, hgroup, -⟩⟩
    · exact hcount ⟨hargs, hz⟩
    · exact hstart ⟨hargs, hrange, hgroup⟩

/-- The errno says whether everything was done, unless the error of a signal is lost to a later
submit with a sync array. -/
theorem submit_reports_iff (b : Buffer) (k : Kernel) :
    ((escapeGroupSubmit b k).1 = .ok ↔ AllDone b k) ↔ ¬SignalLost b k := by
  rw [← groupSubmit_errno, groupSubmit_ok, allDone_iff]
  constructor
  · intro h hlost
    obtain ⟨j, hj, hfails⟩ := hlost.fails
    have hdone := h.mp ⟨hlost.args, .inr ⟨hlost.range, hlost.group, hlost.passes, hlost.last⟩⟩
    obtain ⟨-, -, hall⟩ := hdone.2.resolve_left (by omega)
    exact hfails (hall j hj).2
  · intro hkept
    constructor
    · rintro ⟨hargs, hz | ⟨hrange, hgroup, hpass, hlast⟩⟩
      · exact ⟨hargs, .inl hz⟩
      · refine ⟨hargs, .inr ⟨hrange, hgroup, fun j hj => ⟨hpass j hj, ?_⟩⟩⟩
        by_contra hfails
        exact hkept ⟨hargs, hrange, hgroup, hpass, ⟨j, hj, hfails⟩, hlast⟩
    · rintro ⟨hargs, hz | ⟨hrange, hgroup, hall⟩⟩
      · exact ⟨hargs, .inl hz⟩
      · exact ⟨hargs, .inr ⟨hrange, hgroup, fun j hj => (hall j hj).1,
          fun j hj _ _ => (hall j hj).2⟩⟩

/-- The waits of the second submit come to no error, and that is what is returned. -/
theorem failed_signal_not_reported :
    (escapeGroupSubmit twoSubmits signalFails).1 = .ok ∧ ¬AllDone twoSubmits signalFails ∧
      (groupSubmit twoSubmits signalFails).2 =
        [.syncArray 0 true, .stream 0 .ok, .signal 0 0 .enoent,
          .syncArray 1 true, .wait 1 0 .ok, .stream 1 .ok] := by
  have hevents : (groupSubmit twoSubmits signalFails).2 =
      [.syncArray 0 true, .stream 0 .ok, .signal 0 0 .enoent,
        .syncArray 1 true, .wait 1 0 .ok, .stream 1 .ok] := by decide +kernel
  refine ⟨by decide +kernel, fun hdone => ?_, hevents⟩
  have hsignal := (hdone.2 0 (by decide)).2 0 (by decide) (by decide)
  rw [hevents] at hsignal
  simp at hsignal

end WinMali.SubmitOrder
