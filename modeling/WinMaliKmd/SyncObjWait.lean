import Mathlib.Order.Nat
import WinMaliKmd.EscapeBounds
import WinMaliKmd.SyncWait

/-!
# Waiting on sync objects

All of `WinMaliSyncObjWait`: the wait on one object, the wait on an array of binary
ones, and the references that it takes meanwhile. Other threads may change the table
between two look-ups, and the waits of the kernel may end in any way or not at all.
-/

set_option autoImplicit false

namespace WinMali.SyncObjWait
open WinMali.BoTable WinMali.EscapeBuffer WinMali.EscapeHandlers WinMali.EscapeBounds
open WinMali.SyncWait (makeTimeout)

structure SyncObj where
  uid : ℕ
  handle : BitVec 32
  isTimeline : Bool
deriving DecidableEq, Repr

/-- What a wait of the kernel comes to. A time-out is a success to `NT_SUCCESS`. -/
inductive KeStatus
  | success
  | timeout
  | error
deriving DecidableEq, Repr

def KeStatus.errno : KeStatus → Errno
  | .success => .ok
  | .timeout => .etimedout
  | .error => .einval

structure Reply where
  status : KeStatus
  time : ℕ
deriving DecidableEq, Repr

/-- A call of `KeWaitForMultipleObjects`. The array of wait blocks is always `NULL`. -/
structure WaitCall where
  objects : List ℕ
  waitType : ℕ
  timeout : Option ℤ
deriving DecidableEq, Repr

/-- What one call of the driver finds: the table at its look-ups, the counter of a timeline each
time that it is read, and how the waits end. A wait that does not end has no reply. -/
structure World where
  table : ℕ → List SyncObj
  timelineValue : ℕ → BitVec 64
  waitForSingleObject : Option ℤ → ℕ → Option Reply
  waitForMultipleObjects : WaitCall → Option Reply

/-- A change of a reference count. The entry of `refs` that is given back may be one that was
never written. -/
inductive Event
  | increment (uid : ℕ)
  | decrement (entry : Option ℕ)
deriving DecidableEq, Repr

structure Return where
  err : Errno
  time : ℕ
  events : List Event
deriving DecidableEq, Repr

def syncObjGet (table : List SyncObj) (handle : BitVec 32) : Option SyncObj :=
  table.find? fun so => so.handle == handle

/-- `WaitAll` and `WaitAny` of the kernel's enumeration. -/
def waitTypeAll : ℕ := 0

def waitTypeAny : ℕ := 1

/-- `WaitAll ? WaitAll : WaitAny`, where `WaitAll` is the parameter of the function. -/
def waitType (waitAll : BitVec 8) : ℕ := if waitAll ≠ 0 then waitAll.toNat else waitTypeAny

variable (w : World)

/-- The loop on a timeline. Its turns have no bound, so it is followed for `fuel` of them. -/
def timelineWait (target : BitVec 64) (timeout : Option ℤ) : ℕ → ℕ → ℕ → Option (Errno × ℕ)
  | 0, _, _ => none
  | fuel + 1, n, now =>
    if w.timelineValue (2 * n) ≥ target then some (.ok, now)
    else if w.timelineValue (2 * n + 1) ≥ target then some (.ok, now)
    else
      match w.waitForSingleObject timeout n with
      | none => none
      | some r =>
        if r.status = .success then timelineWait target timeout fuel (n + 1) r.time
        else some (r.status.errno, r.time)

/-- `while (i > 0)`, when handle `i` is not known. -/
def unwindUnknown (refs : ℕ → Option ℕ) (i : BitVec 32) : List Event :=
  if 0 < i then .decrement (refs (i - 1).toNat) :: unwindUnknown refs (i - 1) else []
termination_by i.toNat
decreasing_by bv_omega

/-- `while (i + 1 > 0)`, when object `i` is a timeline. -/
def unwindTimeline (refs : ℕ → Option ℕ) (i : BitVec 32) : List Event :=
  if 0 < i + 1 then
    .decrement (refs i.toNat) :: if i - 1 = -1 then [] else unwindTimeline refs (i - 1)
  else []
termination_by i.toNat
decreasing_by bv_omega

/-- The loop that fills `refs` and `objects`, and the counts until it ends or is left. -/
def getLoop (handles : ℕ → BitVec 32) : ℕ → BitVec 32 → (ℕ → Option ℕ) → List ℕ →
    Except Errno ((ℕ → Option ℕ) × List ℕ) × List Event
  | 0, _, refs, objects => (.ok (refs, objects), [])
  | left + 1, i, refs, objects =>
    match syncObjGet (w.table i.toNat) (handles i.toNat) with
    | none => (.error .enoent, unwindUnknown (Function.update refs i.toNat none) i)
    | some so =>
      let refs := Function.update refs i.toNat (some so.uid)
      if so.isTimeline then (.error .einval, .increment so.uid :: unwindTimeline refs i)
      else
        let rest := getLoop handles left (i + 1) refs (objects ++ [so.uid])
        (rest.1, .increment so.uid :: rest.2)

def waitOn (count : BitVec 32) (handles : ℕ → BitVec 32) (points : Option (ℕ → BitVec 64))
    (waitAll : BitVec 8) (timeout : Option ℤ) (fuel : ℕ) : Option Return :=
  if count = 1 then
    match syncObjGet (w.table 0) (handles 0) with
    | none => some ⟨.enoent, 0, []⟩
    | some so =>
      let waited :=
        if so.isTimeline then
          timelineWait w ((points.map fun p => p 0).getD 0) timeout fuel 0 0
        else (w.waitForSingleObject timeout 0).map fun r => (r.status.errno, r.time)
      waited.map fun r => ⟨r.1, r.2, [.increment so.uid, .decrement (some so.uid)]⟩
  else if count.toNat > maximumWaitObjects then some ⟨.einval, 0, []⟩
  else
    let got := getLoop w handles count.toNat 0 (fun _ => none) []
    match got.1 with
    | .error e => some ⟨e, 0, got.2⟩
    | .ok (refs, objects) =>
      (w.waitForMultipleObjects ⟨objects, waitType waitAll, timeout⟩).map fun r =>
        ⟨r.status.errno, r.time,
          got.2 ++ (List.range count.toNat).map fun i => .decrement (refs i)⟩

def syncObjWait (count : BitVec 32) (handles : Option (ℕ → BitVec 32))
    (points : Option (ℕ → BitVec 64)) (waitAll : BitVec 8) (timeoutNs : ℤ) (fuel : ℕ) :
    Option Return :=
  match handles with
  | none => some ⟨.einval, 0, []⟩
  | some handles =>
    if count = 0 then some ⟨.einval, 0, []⟩
    else waitOn w count handles points waitAll (makeTimeout timeoutNs) fuel

def waitFlagAll : BitVec 32 := 1 <<< 0

def escapeSyncObjWait (b : Buffer) (fuel : ℕ) : Option Return :=
  match escapeAt b (ulong escapeHeaderSize) (ulong 24) with
  | none => some ⟨.einval, 0, []⟩
  | some args =>
    let count := b.u32 (args + 4)
    let pointsOffset := b.u32 (args + 12)
    let waitAll : BitVec 8 := if b.u32 args &&& waitFlagAll ≠ 0 then 1 else 0
    let timeoutNs := (b.u64 (args + 16)).toInt
    if count = 0 then some ⟨.einval, 0, []⟩
    else
      match escapeAt b (b.u32 (args + 8)) (ulong (count.toNat * 4)) with
      | none => some ⟨.einval, 0, []⟩
      | some o =>
        let handles := some fun i => b.u32 (o + 4 * i)
        if pointsOffset = 0 then syncObjWait w count handles none waitAll timeoutNs fuel
        else
          match escapeAt b pointsOffset (ulong (count.toNat * 8)) with
          | none => some ⟨.einval, 0, []⟩
          | some p =>
            syncObjWait w count handles (some fun i => b.u64 (p + 8 * i)) waitAll timeoutNs fuel

section Errors

variable {w : World} {b : Buffer}

/-- What the escape dispatcher knows of the call: the kinds of the objects, and how it ends. -/
def World.kernel (w : World) (k : Kernel) (err : Errno) : Kernel :=
  { k with
    syncObj := fun i handle => (syncObjGet (w.table i) handle).map (·.isTimeline)
    wait := err }

theorem waitHandles_errno (k : Kernel) (err : Errno) (o : ℕ) {left : ℕ} {i : BitVec 32}
    (refs : ℕ → Option ℕ) (objects : List ℕ) (hleft : i.toNat + left < 2 ^ 32) :
    (waitHandles b (w.kernel k err) o i.toNat left).1 =
      match (getLoop w (fun j => b.u32 (o + 4 * j)) left i refs objects).1 with
      | .error e => e
      | .ok _ => err := by
  induction left generalizing i refs objects with
  | zero => rfl
  | succ left ih =>
    have hsucc : (i + 1).toNat = i.toNat + 1 := by bv_omega
    simp only [waitHandles, getLoop, World.kernel]
    cases syncObjGet (w.table i.toNat) (b.u32 (o + 4 * i.toNat)) with
    | none => rfl
    | some so =>
      simp only [Option.map_some]
      cases so.isTimeline with
      | true => rfl
      | false =>
        rw [← hsucc]
        exact ih (i := i + 1) _ _ (by omega)

theorem waitOn_errno (k : Kernel) {count : BitVec 32} {o : ℕ} (points : Option ℕ)
    {waitAll : BitVec 8} {timeout : Option ℤ} {fuel : ℕ} {r : Return}
    (h : waitOn w count (fun i => b.u32 (o + 4 * i))
      (points.map fun p i => b.u64 (p + 8 * i)) waitAll timeout fuel = some r) :
    (EscapeHandlers.syncObjWait b (w.kernel k r.err) count.toNat o points).1 = r.err := by
  unfold waitOn at h
  unfold EscapeHandlers.syncObjWait
  by_cases hone : count = 1
  · rw [if_pos hone] at h
    rw [if_pos (by simp [hone])]
    change (match syncObjGet (w.table 0) (b.u32 o) with
      | none => some (Return.mk .enoent 0 [])
      | some so => _) = some r at h
    simp only [World.kernel]
    cases hso : syncObjGet (w.table 0) (b.u32 o) with
    | none =>
      rw [hso] at h
      obtain rfl := Option.some.inj h
      rfl
    | some so => rfl
  · rw [if_neg hone] at h
    rw [if_neg (show ¬count.toNat = 1 from fun hcount => hone (BitVec.eq_of_toNat_eq hcount))]
    split
    · rename_i hmax
      rw [if_pos hmax] at h
      obtain rfl := Option.some.inj h
      rfl
    · rename_i hmax
      rw [if_neg hmax] at h
      refine (waitHandles_errno k r.err o (i := 0) (fun _ => none) []
        (by simpa using count.isLt)).trans ?_
      dsimp only at h ⊢
      split at h
      · rename_i hgot
        obtain rfl := Option.some.inj h
        rw [hgot]
      · rename_i hgot
        rw [hgot]

theorem escapeSyncObjWait_errno (k : Kernel) {fuel : ℕ} {r : Return}
    (h : escapeSyncObjWait w b fuel = some r) :
    (EscapeHandlers.escapeSyncObjWait b (w.kernel k r.err)).1 = r.err := by
  unfold escapeSyncObjWait at h
  unfold EscapeHandlers.escapeSyncObjWait withArgs
  cases hargs : escapeAt b (ulong escapeHeaderSize) (ulong 24) with
  | none =>
    rw [hargs] at h
    obtain rfl := Option.some.inj h
    rfl
  | some args =>
    rw [hargs] at h
    dsimp only at h ⊢
    by_cases hz : b.u32 (args + 4) = 0
    · rw [if_pos hz] at h ⊢
      obtain rfl := Option.some.inj h
      rfl
    rw [if_neg hz] at h ⊢
    cases hhandles : escapeAt b (b.u32 (args + 8)) (ulong ((b.u32 (args + 4)).toNat * 4)) with
    | none =>
      rw [hhandles] at h
      obtain rfl := Option.some.inj h
      rfl
    | some o =>
      rw [hhandles] at h
      simp only [syncObjWait, hz, if_false] at h ⊢
      split
      · rename_i hnone
        rw [if_pos hnone] at h
        exact waitOn_errno k none h
      · rename_i hpoints
        rw [if_neg hpoints] at h
        cases hat : escapeAt b (b.u32 (args + 12)) (ulong ((b.u32 (args + 4)).toNat * 8)) with
        | none =>
          rw [hat] at h
          obtain rfl := Option.some.inj h
          rfl
        | some p =>
          rw [hat] at h
          exact waitOn_errno k (some p) h

end Errors

section References

variable {refs : ℕ → Option ℕ}

/-- Either loop ends, after the entries below where it started. -/
theorem unwindUnknown_eq (i : BitVec 32) :
    unwindUnknown refs i = (List.range i.toNat).reverse.map fun j => .decrement (refs j) := by
  induction hn : i.toNat generalizing i with
  | zero =>
    have hi : ¬0 < i := by bv_omega
    rw [unwindUnknown, if_neg hi]
    rfl
  | succ n ih =>
    have hi : 0 < i := by bv_omega
    have hpred : (i - 1).toNat = n := by bv_omega
    rw [unwindUnknown, if_pos hi, ih _ hpred, hpred, List.range_succ]
    simp

theorem unwindTimeline_eq (i : BitVec 32) (hi : i.toNat + 1 < 2 ^ 32) :
    unwindTimeline refs i =
      (List.range (i.toNat + 1)).reverse.map fun j => .decrement (refs j) := by
  induction hn : i.toNat generalizing i with
  | zero =>
    have hpos : 0 < i + 1 := by bv_omega
    have hlast : i - 1 = -1 := by bv_omega
    rw [unwindTimeline, if_pos hpos, if_pos hlast, hn]
    rfl
  | succ n ih =>
    have hpos : 0 < i + 1 := by bv_omega
    have hlast : ¬i - 1 = -1 := by bv_omega
    have hpred : (i - 1).toNat = n := by bv_omega
    rw [unwindTimeline, if_pos hpos, if_neg hlast, ih _ (by omega) hpred, hn,
      List.range_succ (n := n + 1)]
    simp

theorem filled_update {got : List ℕ} {n : ℕ} (h : (List.range n).map refs = got.map some)
    (entry : Option ℕ) :
    (List.range n).map (Function.update refs n entry) = got.map some := by
  rw [← h]
  refine List.map_congr_left fun j hj => ?_
  exact Function.update_of_ne (Nat.ne_of_lt (List.mem_range.mp hj)) _ _

theorem released {got : List ℕ} {n : ℕ} (h : (List.range n).map refs = got.map some) :
    ((List.range n).map fun j => Event.decrement (refs j)) =
      got.map fun uid => .decrement (some uid) := by
  have hentries := congrArg (List.map Event.decrement) h
  rwa [List.map_map, List.map_map] at hentries

theorem unwound {got : List ℕ} {n : ℕ} (h : (List.range n).map refs = got.map some) :
    ((List.range n).reverse.map fun j => Event.decrement (refs j)) =
      got.reverse.map fun uid => .decrement (some uid) := by
  rw [List.map_reverse, List.map_reverse, released h]

/-- The objects of the loop are those before it, `got`, and some more. It has given all of them
back if it was left. -/
theorem getLoop_events (w : World) (handles : ℕ → BitVec 32) (left : ℕ) {i : BitVec 32}
    (refs : ℕ → Option ℕ) (objects got : List ℕ) (hleft : i.toNat + left + 1 < 2 ^ 32)
    (hgot : (List.range i.toNat).map refs = got.map some) :
    ∃ more : List ℕ,
      (∀ e, (getLoop w handles left i refs objects).1 = .error e →
        (getLoop w handles left i refs objects).2 =
          more.map .increment ++ (got ++ more).reverse.map fun uid => .decrement (some uid)) ∧
      ∀ refs' objects', (getLoop w handles left i refs objects).1 = .ok (refs', objects') →
        (getLoop w handles left i refs objects).2 = more.map .increment ∧
          (List.range (i.toNat + left)).map refs' = (got ++ more).map some := by
  induction left generalizing i refs objects got with
  | zero =>
    simp only [getLoop]
    refine ⟨[], nofun, fun refs' objects' h => ?_⟩
    obtain ⟨rfl, -⟩ := Prod.mk.inj (Except.ok.inj h)
    exact ⟨rfl, by simpa using hgot⟩
  | succ left ih =>
    simp only [getLoop]
    cases hso : syncObjGet (w.table i.toNat) (handles i.toNat) with
    | none =>
      refine ⟨[], fun e _ => ?_, nofun⟩
      simp [unwindUnknown_eq, unwound (filled_update hgot none)]
    | some so =>
      have hnext : (List.range (i.toNat + 1)).map
          (Function.update refs i.toNat (some so.uid)) = (got ++ [so.uid]).map some := by
        rw [List.range_succ, List.map_append, filled_update hgot, List.map_append]
        simp
      dsimp only
      cases so.isTimeline with
      | true =>
        refine ⟨[so.uid], fun e _ => ?_, nofun⟩
        simp only [if_true, unwindTimeline_eq i (by omega), unwound hnext]
        rfl
      | false =>
        have hsucc : (i + 1).toNat = i.toNat + 1 := by bv_omega
        obtain ⟨more, herror, hok⟩ := ih (i := i + 1) _ (objects ++ [so.uid])
          (got ++ [so.uid]) (by omega) (by rw [hsucc, hnext])
        simp only [Bool.false_eq_true, if_false]
        refine ⟨so.uid::more, fun e h => ?_, fun refs' objects' h => ?_⟩
        · rw [herror e h]
          simp
        · obtain ⟨hevents, hrefs⟩ := hok refs' objects' h
          rw [hsucc, Nat.add_assoc, Nat.add_comm 1] at hrefs
          refine ⟨?_, by simpa using hrefs⟩
          rw [hevents]
          rfl

end References

/-- Every reference that was taken was given back, once. -/
def Balanced (es : List Event) : Prop :=
  ∃ got : List ℕ, es.Perm (got.map .increment ++ got.map fun uid => .decrement (some uid))

section Balance

variable {es : List Event}

theorem balanced_nil : Balanced [] := ⟨[], List.Perm.refl _⟩

theorem Balanced.count (h : Balanced es) (uid : ℕ) :
    es.count (.increment uid) = es.count (.decrement (some uid)) := by
  obtain ⟨got, hperm⟩ := h
  have hinc := List.count_map_of_injective got Event.increment (fun _ _ => Event.increment.inj) uid
  have hdec := List.count_map_of_injective got (fun uid => Event.decrement (some uid))
    (fun _ _ h => Option.some.inj (Event.decrement.inj h)) uid
  have hcross : (got.map fun uid => Event.decrement (some uid)).count (.increment uid) = 0 :=
    List.count_eq_zero.mpr (by simp)
  have hcross' : (got.map Event.increment).count (.decrement (some uid)) = 0 :=
    List.count_eq_zero.mpr (by simp)
  rw [hperm.count_eq, hperm.count_eq, List.count_append, List.count_append, hinc, hdec, hcross,
    hcross', Nat.add_comm]

theorem Balanced.taken (h : Balanced es) {entry : Option ℕ} (hmem : .decrement entry ∈ es) :
    ∃ uid, entry = some uid ∧ .increment uid ∈ es := by
  obtain ⟨got, hperm⟩ := h
  simp only [hperm.mem_iff, List.mem_append, List.mem_map, reduceCtorEq, and_false, exists_false,
    false_or, Event.decrement.injEq, Event.increment.injEq, exists_eq_right] at hmem ⊢
  obtain ⟨uid, huid, rfl⟩ := hmem
  exact ⟨uid, rfl, .inl huid⟩

theorem waitOn_balanced {w : World} {count : BitVec 32} {handles : ℕ → BitVec 32}
    {points : Option (ℕ → BitVec 64)} {waitAll : BitVec 8} {timeout : Option ℤ} {fuel : ℕ}
    {r : Return} (h : waitOn w count handles points waitAll timeout fuel = some r) :
    Balanced r.events := by
  unfold waitOn at h
  split at h
  · split at h
    · cases h
      exact balanced_nil
    · obtain ⟨waited, -, rfl⟩ := Option.map_eq_some_iff.mp h
      exact ⟨[_], List.Perm.refl _⟩
  split at h
  · cases h
    exact balanced_nil
  rename_i hmax
  have hcount : (0 : BitVec 32).toNat + count.toNat + 1 < 2 ^ 32 := by
    simp only [maximumWaitObjects] at hmax
    simp
    omega
  obtain ⟨got, herror, hok⟩ := getLoop_events w handles count.toNat (i := 0) (fun _ => none) [] []
    hcount rfl
  dsimp only at h
  split at h
  · rename_i e hgot
    cases h
    refine ⟨got, ?_⟩
    rw [herror e hgot, List.map_reverse]
    exact List.Perm.append_left _ (List.reverse_perm _)
  · rename_i refs objects hgot
    obtain ⟨reply, -, rfl⟩ := Option.map_eq_some_iff.mp h
    obtain ⟨hevents, hrefs⟩ := hok refs objects hgot
    refine ⟨got, ?_⟩
    rw [show (0 : BitVec 32).toNat + count.toNat = count.toNat from Nat.zero_add _] at hrefs
    rw [hevents]
    exact List.Perm.append_left _ (List.Perm.of_eq (released hrefs))

end Balance

/-- When the call returns, every object has lost as many references as it was given, and what was
given back were references that the call had. -/
theorem wait_reference_neutral (w : World) (count : BitVec 32)
    (handles : Option (ℕ → BitVec 32)) (points : Option (ℕ → BitVec 64)) (waitAll : BitVec 8)
    (timeoutNs : ℤ) (fuel : ℕ) (r : Return)
    (h : syncObjWait w count handles points waitAll timeoutNs fuel = some r) :
    (∀ uid, r.events.count (.increment uid) = r.events.count (.decrement (some uid))) ∧
      ∀ entry, .decrement entry ∈ r.events →
        ∃ uid, entry = some uid ∧ .increment uid ∈ r.events := by
  have hbalanced : Balanced r.events := by
    unfold syncObjWait at h
    split at h
    · cases h
      exact balanced_nil
    · split at h
      · cases h
        exact balanced_nil
      · exact waitOn_balanced h
  exact ⟨hbalanced.count, fun entry hmem => hbalanced.taken hmem⟩

def threeObjects : World where
  table _ := [⟨0, 5, false⟩, ⟨1, 6, false⟩, ⟨2, 7, true⟩]
  timelineValue _ := 0
  waitForSingleObject _ _ := none
  waitForMultipleObjects _ := none

theorem timeline_among_handles : ∃ r,
    syncObjWait threeObjects 4 (some fun i => if i < 2 then 5 else 7) none 0 (-1) 0 = some r ∧
      r.events.count (.increment 0) = 2 ∧
        r.events.count (.increment 0) = r.events.count (.decrement (some 0)) :=
  ⟨⟨.einval, 0, [.increment 0, .increment 0, .increment 2, .decrement (some 2),
      .decrement (some 0), .decrement (some 0)]⟩, by decide +kernel, by decide,
    (wait_reference_neutral threeObjects 4 (some fun i => if i < 2 then 5 else 7) none 0 (-1) 0 _
      (by decide +kernel)).1 0⟩

section WaitTypes

variable (w : World) (b : Buffer)

def waitCount : ℕ := (b.u32 (argsOffset + 4)).toNat

def handleOf (i : ℕ) : BitVec 32 := b.u32 ((b.u32 (argsOffset + 8)).toNat + 4 * i)

def flagAll : Bool := b.u32 argsOffset &&& waitFlagAll != 0

def waitTimeout : Option ℤ := makeTimeout (b.u64 (argsOffset + 16)).toInt

def objectsOf (handles : ℕ → BitVec 32) (i left : ℕ) : List ℕ :=
  (List.range' i left).filterMap fun i => (syncObjGet (w.table i) (handles i)).map (·.uid)

def waitObjects : List ℕ := objectsOf w (handleOf b) 0 (waitCount b)

/-- A wait on two binary objects or more, whose arrays are in the buffer. -/
structure BinaryWait : Prop where
  args : ArgsFit b 24
  two : 2 ≤ waitCount b
  handles : escapeRangeOk b (b.u32 (argsOffset + 8)) (ulong (waitCount b * 4)) = true
  points : b.u32 (argsOffset + 12) = 0 ∨
    escapeRangeOk b (b.u32 (argsOffset + 12)) (ulong (waitCount b * 8)) = true
  binary : ∀ i < waitCount b, ∃ so, syncObjGet (w.table i) (handleOf b i) = some so ∧
    so.isTimeline = false

/-- `KeWaitForMultipleObjects` looks at the type that it is passed: it succeeds at the first moment
before the time-out at which all of the events, or any of them, are set. -/
structure Implements (signalled : ℕ → ℕ → Bool) (inTime : Option ℤ → ℕ → Prop) : Prop where
  all : ∀ c : WaitCall, c.waitType = waitTypeAll → ∀ t,
    w.waitForMultipleObjects c = some ⟨.success, t⟩ ↔
      IsLeast {t | inTime c.timeout t ∧ ∀ o ∈ c.objects, signalled t o = true} t
  any : ∀ c : WaitCall, c.waitType = waitTypeAny → ∀ t,
    w.waitForMultipleObjects c = some ⟨.success, t⟩ ↔
      IsLeast {t | inTime c.timeout t ∧ ∃ o ∈ c.objects, signalled t o = true} t

/-- With the flag success means that all objects are signalled. Without it success comes as soon
as one is, and only then. -/
def WaitsAsAsked (signalled : ℕ → ℕ → Bool) (inTime : Option ℤ → ℕ → Prop) (fuel : ℕ) : Prop :=
  if flagAll b then
    ∀ r, escapeSyncObjWait w b fuel = some r → r.err = .ok →
      ∀ o ∈ waitObjects w b, signalled r.time o = true
  else
    ∀ t, (∃ r, escapeSyncObjWait w b fuel = some r ∧ r.err = .ok ∧ r.time = t) ↔
      IsLeast {t | inTime (waitTimeout b) t ∧ ∃ o ∈ waitObjects w b, signalled t o = true} t

/-- All objects are signalled by the time that the first of them is. Without the flag it is enough
that there are not more than the kernel can wait for, or that none is signalled. -/
def SignalledTogether (signalled : ℕ → ℕ → Bool) (inTime : Option ℤ → ℕ → Prop) : Prop :=
  if flagAll b then
    waitCount b ≤ maximumWaitObjects → ∀ t,
      IsLeast {t | inTime (waitTimeout b) t ∧ ∃ o ∈ waitObjects w b, signalled t o = true} t →
        ∀ o ∈ waitObjects w b, signalled t o = true
  else
    waitCount b ≤ maximumWaitObjects ∨
      ∀ t, inTime (waitTimeout b) t → ∀ o ∈ waitObjects w b, signalled t o = false

variable {w b}

theorem getLoop_binary (handles : ℕ → BitVec 32) (left : ℕ) {i : BitVec 32}
    (refs : ℕ → Option ℕ) (objects : List ℕ) (hleft : i.toNat + left < 2 ^ 32)
    (hbinary : ∀ j, i.toNat ≤ j → j < i.toNat + left →
      ∃ so, syncObjGet (w.table j) (handles j) = some so ∧ so.isTimeline = false) :
    ∃ refs', (getLoop w handles left i refs objects).1 =
      .ok (refs', objects ++ objectsOf w handles i.toNat left) := by
  induction left generalizing i refs objects with
  | zero => exact ⟨refs, by simp [getLoop, objectsOf]⟩
  | succ left ih =>
    obtain ⟨so, hso, htimeline⟩ := hbinary i.toNat (Nat.le_refl _) (by omega)
    have hsucc : (i + 1).toNat = i.toNat + 1 := by bv_omega
    obtain ⟨refs', hrest⟩ := ih (i := i + 1) (Function.update refs i.toNat (some so.uid))
      (objects ++ [so.uid]) (by omega) fun j hj hlt => hbinary j (by omega) (by omega)
    refine ⟨refs', ?_⟩
    simp only [getLoop, hso, htimeline, Bool.false_eq_true, if_false]
    rw [hrest, hsucc]
    simp [objectsOf, List.range'_succ, hso]

/-- The kernel is asked to wait for any of the objects, whatever the flag. -/
theorem waitOn_binary {count : BitVec 32} {handles : ℕ → BitVec 32}
    (points : Option (ℕ → BitVec 64)) {waitAll : BitVec 8} (timeout : Option ℤ) (fuel : ℕ)
    (htwo : 2 ≤ count.toNat) (hflag : waitAll = 0 ∨ waitAll = 1)
    (hbinary : ∀ j < count.toNat,
      ∃ so, syncObjGet (w.table j) (handles j) = some so ∧ so.isTimeline = false) :
    (maximumWaitObjects < count.toNat ∧
      waitOn w count handles points waitAll timeout fuel = some ⟨.einval, 0, []⟩) ∨
    (count.toNat ≤ maximumWaitObjects ∧ ∃ events,
      waitOn w count handles points waitAll timeout fuel =
        (w.waitForMultipleObjects
          ⟨objectsOf w handles 0 count.toNat, waitTypeAny, timeout⟩).map fun r =>
            ⟨r.status.errno, r.time, events⟩) := by
  have htype : waitType waitAll = waitTypeAny := by rcases hflag with rfl | rfl <;> rfl
  have hone : ¬count = 1 := fun h => by simp [h] at htwo
  unfold waitOn
  rw [if_neg hone]
  by_cases hmax : count.toNat > maximumWaitObjects
  · exact .inl ⟨hmax, if_pos hmax⟩
  · obtain ⟨refs, hgot⟩ := getLoop_binary (w := w) handles count.toNat (i := 0)
      (fun _ => none) [] (by simpa using count.isLt) fun j _ hj => hbinary j (by simpa using hj)
    refine .inr ⟨Nat.le_of_not_lt hmax, (getLoop w handles count.toNat 0 (fun _ => none) []).2 ++
      (List.range count.toNat).map fun i => .decrement (refs i), ?_⟩
    rw [if_neg hmax]
    dsimp only
    rw [hgot, htype]
    rfl

theorem binary_escape (hb : BinaryWait w b) (fuel : ℕ) :
    ∃ points waitAll, (waitAll = 0 ∨ waitAll = 1) ∧ escapeSyncObjWait w b fuel =
      waitOn w (b.u32 (argsOffset + 4)) (handleOf b) points waitAll (waitTimeout b) fuel := by
  obtain ⟨-, hargs⟩ | ⟨hno, -⟩ := @escapeAt_args b 24 (by decide) (by decide)
  case inr => exact absurd hb.args hno
  have hhandles : escapeAt b (b.u32 (argsOffset + 8))
      (ulong ((b.u32 (argsOffset + 4)).toNat * 4)) = some (b.u32 (argsOffset + 8)).toNat :=
    escapeAt_some.mpr ⟨hb.handles, rfl⟩
  have hz : ¬b.u32 (argsOffset + 4) = 0 := fun h => by
    have htwo := hb.two
    simp [waitCount, h] at htwo
  have hflag : (if b.u32 argsOffset &&& waitFlagAll ≠ 0 then (1 : BitVec 8) else 0) = 0 ∨
      (if b.u32 argsOffset &&& waitFlagAll ≠ 0 then (1 : BitVec 8) else 0) = 1 := by
    split <;> simp
  unfold escapeSyncObjWait
  simp only [hargs, hz, if_false, hhandles]
  by_cases hnone : b.u32 (argsOffset + 12) = 0
  · refine ⟨none, _, hflag, ?_⟩
    rw [if_pos hnone]
    simp only [syncObjWait, hz, if_false]
    rfl
  · have hpoints : escapeAt b (b.u32 (argsOffset + 12))
        (ulong ((b.u32 (argsOffset + 4)).toNat * 8)) = some (b.u32 (argsOffset + 12)).toNat :=
      escapeAt_some.mpr ⟨hb.points.resolve_left hnone, rfl⟩
    refine ⟨some fun i => b.u64 ((b.u32 (argsOffset + 12)).toNat + 8 * i), _, hflag, ?_⟩
    rw [if_neg hnone, hpoints]
    simp only [syncObjWait, hz, if_false]
    rfl

theorem binary_wait_ok {signalled : ℕ → ℕ → Bool} {inTime : Option ℤ → ℕ → Prop}
    (hb : BinaryWait w b) (hw : Implements w signalled inTime) (fuel t : ℕ) :
    (∃ r, escapeSyncObjWait w b fuel = some r ∧ r.err = .ok ∧ r.time = t) ↔
      waitCount b ≤ maximumWaitObjects ∧
        IsLeast {t | inTime (waitTimeout b) t ∧ ∃ o ∈ waitObjects w b, signalled t o = true} t := by
  obtain ⟨points, waitAll, hflag, hcall⟩ := binary_escape hb fuel
  rcases waitOn_binary points (waitTimeout b) fuel hb.two hflag hb.binary with
    ⟨hmax, hwait⟩ | ⟨hmax, events, hwait⟩
  · rw [hcall, hwait]
    refine iff_of_false ?_ fun h => absurd h.1 (Nat.not_le_of_lt hmax)
    rintro ⟨r, hr, herr, -⟩
    obtain rfl := Option.some.inj hr
    cases herr
  · rw [hcall, hwait, ← hw.any ⟨waitObjects w b, waitTypeAny, waitTimeout b⟩ rfl t]
    refine Iff.trans ?_ (and_iff_right hmax).symm
    constructor
    · rintro ⟨r, hr, herr, rfl⟩
      obtain ⟨⟨status, time⟩, hreply, rfl⟩ := Option.map_eq_some_iff.mp hr
      cases status with
      | success => exact hreply
      | timeout => cases herr
      | error => cases herr
    · intro hreply
      refine ⟨⟨.ok, t, events⟩, ?_, rfl, rfl⟩
      exact Option.map_eq_some_iff.mpr ⟨⟨.success, t⟩, hreply, rfl⟩

end WaitTypes

/-- The escape waits as it was asked to exactly when the flag makes no difference. -/
theorem multi_wait_iff (w : World) (b : Buffer) (signalled : ℕ → ℕ → Bool)
    (inTime : Option ℤ → ℕ → Prop) (fuel : ℕ) (hb : BinaryWait w b)
    (hw : Implements w signalled inTime) :
    WaitsAsAsked w b signalled inTime fuel ↔ SignalledTogether w b signalled inTime := by
  have hok := binary_wait_ok hb hw fuel
  unfold WaitsAsAsked SignalledTogether
  cases flagAll b with
  | true =>
    simp only [if_true]
    constructor
    · intro h hmax t ht
      obtain ⟨r, hr, herr, rfl⟩ := (hok t).mpr ⟨hmax, ht⟩
      exact h r hr herr
    · intro h r hr herr
      obtain ⟨hmax, ht⟩ := (hok r.time).mp ⟨r, hr, herr, rfl⟩
      exact h hmax r.time ht
  | false =>
    simp only [Bool.false_eq_true, if_false, hok, and_iff_right_iff_imp]
    by_cases hmax : waitCount b ≤ maximumWaitObjects
    · exact iff_of_true (fun _ _ => hmax) (.inl hmax)
    · rw [or_iff_right hmax]
      constructor
      · intro h t ht o ho
        by_contra hsignal
        have hex : ∃ t, inTime (waitTimeout b) t ∧ ∃ o ∈ waitObjects w b, signalled t o = true :=
          ⟨t, ht, o, ho, by simpa using hsignal⟩
        classical exact hmax (h _ (Nat.isLeast_find hex))
      · rintro h t ⟨⟨htime, o, ho, hsignal⟩, -⟩
        rw [h t htime o ho] at hsignal
        cases hsignal

def pollBoth : Buffer where
  privateDriverDataSize := 68
  byte o :=
    match o with
    | 0 => 0x57 | 1 => 0x4D | 2 => 0x65 | 3 => 0x73
    | 4 => 1
    | 8 => 0x84
    | 36 => 1 | 40 => 2 | 44 => 60
    | 60 => 5 | 64 => 6
    | _ => 0

/-- The objects of `set` are signalled, and the kernel looks at them once. -/
def poll (set : List ℕ) (c : WaitCall) : Option Reply :=
  if c.waitType = waitTypeAll then
    if c.objects.all fun o => o ∈ set then some ⟨.success, 0⟩ else some ⟨.timeout, 0⟩
  else if c.objects.any fun o => o ∈ set then some ⟨.success, 0⟩ else some ⟨.timeout, 0⟩

def pollWorld (set : List ℕ) : World where
  table _ := [⟨0, 5, false⟩, ⟨1, 6, false⟩]
  timelineValue _ := 0
  waitForSingleObject _ _ := none
  waitForMultipleObjects := poll set

theorem polled {found : Bool} {t : ℕ} :
    (if found then some (⟨.success, 0⟩ : Reply) else some ⟨.timeout, 0⟩) = some ⟨.success, t⟩ ↔
      t = 0 ∧ found = true := by
  cases found <;> simp [eq_comm]

theorem pollWorld_implements (set : List ℕ) :
    Implements (pollWorld set) (fun _ o => o ∈ set) fun _ t => t = 0 := by
  have hleast : ∀ (P : ℕ → Prop) t, IsLeast {t | t = 0 ∧ P t} t ↔ t = 0 ∧ P 0 := by
    intro P t
    constructor
    · rintro ⟨⟨rfl, hP⟩, -⟩
      exact ⟨rfl, hP⟩
    · rintro ⟨rfl, hP⟩
      exact ⟨⟨rfl, hP⟩, fun _ _ => Nat.zero_le _⟩
  constructor
  · intro c hc t
    rw [hleast]
    change poll set c = _ ↔ _
    rw [poll, if_pos hc, polled, List.all_eq_true]
  · intro c hc t
    have hany : ¬c.waitType = waitTypeAll := by
      rw [hc]
      decide
    rw [hleast]
    change poll set c = _ ↔ _
    rw [poll, if_neg hany, polled, List.any_eq_true]

theorem pollBoth_wait (set : List ℕ) : BinaryWait (pollWorld set) pollBoth where
  args := by
    unfold ArgsFit
    decide
  two := by decide
  handles := by decide
  points := .inl (by decide)
  binary i hi := by
    change i < 2 at hi
    change ∃ so, syncObjGet [⟨0, 5, false⟩, ⟨1, 6, false⟩] _ = _ ∧ _
    have hcases : i = 0 ∨ i = 1 := by omega
    rcases hcases with rfl | rfl
    · exact ⟨⟨0, 5, false⟩, by decide, rfl⟩
    · exact ⟨⟨1, 6, false⟩, by decide, rfl⟩

/-- Only the first of the two objects is signalled, and the wait for both is over. -/
theorem wait_all_returns_early :
    flagAll pollBoth = true ∧
      (escapeSyncObjWait (pollWorld [0]) pollBoth 0).map (·.err) = some .ok ∧
      ¬WaitsAsAsked (pollWorld [0]) pollBoth (fun _ o => o ∈ [0]) (fun _ t => t = 0) 0 := by
  have hflag : flagAll pollBoth = true := by decide
  have hreturn : escapeSyncObjWait (pollWorld [0]) pollBoth 0 =
      some ⟨.ok, 0, [.increment 0, .increment 1, .decrement (some 0), .decrement (some 1)]⟩ := by
    decide +kernel
  refine ⟨hflag, by rw [hreturn]; rfl, fun h => ?_⟩
  rw [WaitsAsAsked, if_pos hflag] at h
  have hsecond := h _ hreturn rfl 1 (by decide +kernel)
  cases hsecond

theorem wait_all_when_both_are :
    WaitsAsAsked (pollWorld [0, 1]) pollBoth (fun _ o => o ∈ [0, 1]) (fun _ t => t = 0) 0 := by
  refine (multi_wait_iff _ _ _ _ 0 (pollBoth_wait [0, 1]) (pollWorld_implements [0, 1])).mpr ?_
  rw [SignalledTogether, if_pos (by decide)]
  rintro - t - o ho
  have hobjects : waitObjects (pollWorld [0, 1]) pollBoth = [0, 1] := by decide +kernel
  rw [hobjects] at ho
  exact decide_eq_true ho

end WinMali.SyncObjWait
