import WinMaliKmd.SyncObjWait

/-!
# Wait blocks

The kernel waits for at most three objects unless the caller brings wait blocks of its own,
and `WinMaliSyncObjWait` brings none. It lets lists of up to 64 handles through to the call.
-/

set_option autoImplicit false

namespace WinMali.WaitBlocks
open WinMali.BoTable WinMali.EscapeBuffer WinMali.EscapeHandlers WinMali.EscapeBounds
  WinMali.SyncObjWait
open WinMali.SyncWait (makeTimeout)

/-- `THREAD_WAIT_OBJECTS`, the blocks that a thread has itself. -/
def threadWaitObjects : ℕ := 3

variable (w : World) (b : Buffer)

/-- The call of `KeWaitForMultipleObjects` that `waitOn` makes, if it comes to it. -/
def waitOnCall (count : BitVec 32) (handles : ℕ → BitVec 32) (waitAll : BitVec 8)
    (timeout : Option ℤ) : Option WaitCall :=
  if count = 1 then none
  else if count.toNat > maximumWaitObjects then none
  else
    match (getLoop w handles count.toNat 0 (fun _ => none) []).1 with
    | .error _ => none
    | .ok (_, objects) => some ⟨objects, waitType waitAll, timeout⟩

/-- The call that the escape makes. -/
def escapeWaitCall : Option WaitCall :=
  match escapeAt b (ulong escapeHeaderSize) (ulong 24) with
  | none => none
  | some args =>
    let count := b.u32 (args + 4)
    let pointsOffset := b.u32 (args + 12)
    let waitAll : BitVec 8 := if b.u32 args &&& waitFlagAll ≠ 0 then 1 else 0
    let timeout := makeTimeout (b.u64 (args + 16)).toInt
    if count = 0 then none
    else
      match escapeAt b (b.u32 (args + 8)) (ulong (count.toNat * 4)) with
      | none => none
      | some o =>
        let handles i := b.u32 (o + 4 * i)
        if pointsOffset = 0 then waitOnCall w count handles waitAll timeout
        else
          match escapeAt b pointsOffset (ulong (count.toNat * 8)) with
          | none => none
          | some _ => waitOnCall w count handles waitAll timeout

/-- A list of binary objects that are there, with its arrays in the buffer. -/
structure ValidList : Prop where
  args : ArgsFit b 24
  one : 1 ≤ waitCount b
  handles : escapeRangeOk b (b.u32 (argsOffset + 8)) (ulong (waitCount b * 4)) = true
  points : b.u32 (argsOffset + 12) = 0 ∨
    escapeRangeOk b (b.u32 (argsOffset + 12)) (ulong (waitCount b * 8)) = true
  binary : ∀ i < waitCount b, ∃ so, syncObjGet (w.table i) (handleOf b i) = some so ∧
    so.isTimeline = false

/-- The escape returns what a wait of the kernel on the objects comes to, when it does. -/
def WaitedOn : Prop :=
  ∀ fuel, ∃ events, escapeSyncObjWait w b fuel =
    (if waitCount b = 1 then w.waitForSingleObject (waitTimeout b) 0
      else w.waitForMultipleObjects ⟨waitObjects w b, waitTypeAny, waitTimeout b⟩).map fun r =>
        ⟨r.status.errno, r.time, events⟩

/-- No call is for more objects than there are wait blocks, and a list of valid binary handles is
waited on. -/
structure KeepsContract : Prop where
  allowed : ∀ c, escapeWaitCall w b = some c → c.objects.length ≤ threadWaitObjects
  waited : ValidList w b → waitCount b ≤ maximumWaitObjects → WaitedOn w b

variable {w b}

section Loop

theorem getLoop_ok (handles : ℕ → BitVec 32) (left : ℕ) {i : BitVec 32} (refs : ℕ → Option ℕ)
    (objects : List ℕ) (hleft : i.toNat + left < 2 ^ 32) {out : (ℕ → Option ℕ) × List ℕ}
    (h : (getLoop w handles left i refs objects).1 = .ok out) :
    ∀ j, i.toNat ≤ j → j < i.toNat + left →
      ∃ so, syncObjGet (w.table j) (handles j) = some so ∧ so.isTimeline = false := by
  induction left generalizing i refs objects with
  | zero => exact fun j h1 h2 => absurd h2 (by omega)
  | succ left ih =>
    have hsucc : (i + 1).toNat = i.toNat + 1 := by bv_omega
    rw [getLoop] at h
    cases hso : syncObjGet (w.table i.toNat) (handles i.toNat) with
    | none =>
      rw [hso] at h
      cases h
    | some so =>
      rw [hso] at h
      cases htimeline : so.isTimeline with
      | true =>
        simp only [htimeline, if_true] at h
        cases h
      | false =>
        simp only [htimeline, Bool.false_eq_true, if_false] at h
        intro j h1 h2
        obtain rfl | h1 := Nat.eq_or_lt_of_le h1
        · exact ⟨so, hso, htimeline⟩
        · exact ih (i := i + 1) _ _ (by omega) h j (by omega) (by omega)

theorem getLoop_answers (answers : WaitCall → Option Reply) (handles : ℕ → BitVec 32) (left : ℕ)
    (i : BitVec 32) (refs : ℕ → Option ℕ) (objects : List ℕ) :
    getLoop { w with waitForMultipleObjects := answers } handles left i refs objects =
      getLoop w handles left i refs objects := by
  induction left generalizing i refs objects with
  | zero => rfl
  | succ left ih => simp only [getLoop, ih]

theorem objectsOf_length {handles : ℕ → BitVec 32} {i left : ℕ} (h : ∀ j, i ≤ j → j < i + left →
    ∃ so, syncObjGet (w.table j) (handles j) = some so ∧ so.isTimeline = false) :
    (objectsOf w handles i left).length = left := by
  induction left generalizing i with
  | zero => rfl
  | succ left ih =>
    obtain ⟨so, hso, -⟩ := h i (Nat.le_refl i) (by omega)
    have hrest := ih (i := i + 1) fun j h1 h2 => h j (by omega) (by omega)
    unfold objectsOf at hrest ⊢
    rw [List.range'_succ, List.filterMap_cons, hso, Option.map_some, List.length_cons, hrest]

variable {count : BitVec 32} {handles : ℕ → BitVec 32} {waitAll : BitVec 8} {timeout : Option ℤ}

theorem waitOnCall_eq (htwo : 2 ≤ count.toNat) (hmax : count.toNat ≤ maximumWaitObjects)
    (hbinary : ∀ j < count.toNat,
      ∃ so, syncObjGet (w.table j) (handles j) = some so ∧ so.isTimeline = false) :
    waitOnCall w count handles waitAll timeout =
      some ⟨objectsOf w handles 0 count.toNat, waitType waitAll, timeout⟩ := by
  have hone : ¬count = 1 := fun h => by simp [h] at htwo
  obtain ⟨refs, hgot⟩ := getLoop_binary (w := w) handles count.toNat (i := 0)
    (fun _ => none) [] (by simpa using count.isLt) fun j _ hj => hbinary j (by simpa using hj)
  rw [waitOnCall, if_neg hone, if_neg (by omega), hgot]
  rfl

theorem waitOnCall_some {c : WaitCall} (h : waitOnCall w count handles waitAll timeout = some c) :
    count ≠ 1 ∧ count.toNat ≤ maximumWaitObjects ∧ ∀ j < count.toNat,
      ∃ so, syncObjGet (w.table j) (handles j) = some so ∧ so.isTimeline = false := by
  unfold waitOnCall at h
  split at h
  · cases h
  rename_i hone
  split at h
  · cases h
  rename_i hmax
  split at h
  · cases h
  · rename_i refs objects hgot
    have hok := getLoop_ok handles count.toNat (i := 0) (fun _ => none) []
      (by simpa using count.isLt) hgot
    exact ⟨hone, by omega, fun j hj => hok j (Nat.zero_le j) (by simpa using hj)⟩

/-- The recorded call is the one whose answer decides; where none is recorded such answers play
no part. -/
theorem waitOn_call (points : Option (ℕ → BitVec 64)) (fuel : ℕ) :
    (∀ c, waitOnCall w count handles waitAll timeout = some c → ∃ events,
      waitOn w count handles points waitAll timeout fuel =
        (w.waitForMultipleObjects c).map fun r => ⟨r.status.errno, r.time, events⟩) ∧
    (waitOnCall w count handles waitAll timeout = none → ∀ answers,
      waitOn { w with waitForMultipleObjects := answers } count handles points waitAll timeout
          fuel =
        waitOn w count handles points waitAll timeout fuel) := by
  unfold waitOnCall waitOn
  have htimeline (answers : WaitCall → Option Reply) (target : BitVec 64) (n now : ℕ) :
      timelineWait { w with waitForMultipleObjects := answers } target timeout fuel n now =
        timelineWait w target timeout fuel n now := by
    induction fuel generalizing n now with
    | zero => rfl
    | succ fuel ih => simp only [timelineWait, ih]
  have hloop (answers : WaitCall → Option Reply) :
      getLoop { w with waitForMultipleObjects := answers } handles count.toNat 0
          (fun _ => none) [] =
        getLoop w handles count.toNat 0 (fun _ => none) [] := getLoop_answers answers ..
  split
  · exact ⟨by simp, fun _ answers => by simp only [htimeline]⟩
  split
  · exact ⟨by simp, fun _ _ => rfl⟩
  · simp only [hloop]
    cases (getLoop w handles count.toNat 0 (fun _ => none) []).1 with
    | error e => exact ⟨by simp, fun _ _ => rfl⟩
    | ok out =>
      refine ⟨fun c hc => ?_, by simp⟩
      obtain rfl := Option.some.inj hc
      exact ⟨_, rfl⟩

end Loop

section Escape

/-- The escape reads its arguments and waits, or it returns and makes no call. -/
theorem escape_cases (w : World) (b : Buffer) :
    (escapeWaitCall w b = none ∧ (∀ fuel, escapeSyncObjWait w b fuel = some ⟨.einval, 0, []⟩) ∧
      ¬ValidList w b) ∨
    ∃ points waitAll, (waitAll = 0 ∨ waitAll = 1) ∧
      escapeWaitCall w b =
        waitOnCall w (b.u32 (argsOffset + 4)) (handleOf b) waitAll (waitTimeout b) ∧
      (∀ fuel, escapeSyncObjWait w b fuel =
        waitOn w (b.u32 (argsOffset + 4)) (handleOf b) points waitAll (waitTimeout b) fuel) ∧
      ((∀ i < waitCount b, ∃ so, syncObjGet (w.table i) (handleOf b i) = some so ∧
        so.isTimeline = false) → ValidList w b) := by
  have hflag : (if b.u32 argsOffset &&& waitFlagAll ≠ 0 then (1 : BitVec 8) else 0) = 0 ∨
      (if b.u32 argsOffset &&& waitFlagAll ≠ 0 then (1 : BitVec 8) else 0) = 1 := by
    split <;> simp
  unfold SyncObjWait.escapeSyncObjWait escapeWaitCall
  obtain ⟨hfit, hargs⟩ | ⟨hno, hargs⟩ := @escapeAt_args b 24 (by decide) (by decide)
  case inr =>
    simp only [hargs]
    exact .inl ⟨trivial, fun _ => trivial, fun V => hno V.args⟩
  simp only [hargs]
  by_cases hz : b.u32 (argsOffset + 4) = 0
  · simp only [hz, if_true]
    refine .inl ⟨trivial, fun _ => trivial, fun V => ?_⟩
    have hone := V.one
    simp [waitCount, hz] at hone
  have hcount : 1 ≤ waitCount b := by
    have hne : waitCount b ≠ 0 := fun h => hz (BitVec.eq_of_toNat_eq h)
    omega
  simp only [hz, if_false]
  cases hhandles : escapeAt b (b.u32 (argsOffset + 8))
      (ulong ((b.u32 (argsOffset + 4)).toNat * 4)) with
  | none =>
    refine .inl ⟨rfl, fun _ => rfl, fun V => ?_⟩
    rw [escapeAt_none] at hhandles
    exact absurd (V.handles.symm.trans hhandles) (by decide)
  | some o =>
    obtain ⟨hrange, rfl⟩ := escapeAt_some.mp hhandles
    by_cases hnone : b.u32 (argsOffset + 12) = 0
    · simp only [hnone, if_true]
      refine .inr ⟨none, _, hflag, rfl, fun fuel => ?_, fun h =>
        ⟨hfit, hcount, hrange, .inl hnone, h⟩⟩
      simp only [SyncObjWait.syncObjWait, hz, if_false]
      rfl
    · simp only [hnone, if_false]
      cases hpoints : escapeAt b (b.u32 (argsOffset + 12))
          (ulong ((b.u32 (argsOffset + 4)).toNat * 8)) with
      | none =>
        refine .inl ⟨rfl, fun _ => rfl, fun V => ?_⟩
        rw [escapeAt_none] at hpoints
        exact absurd ((V.points.resolve_left hnone).symm.trans hpoints) (by decide)
      | some p =>
        obtain ⟨hprange, rfl⟩ := escapeAt_some.mp hpoints
        refine .inr ⟨some fun i => b.u64 ((b.u32 (argsOffset + 12)).toNat + 8 * i), _, hflag, rfl,
          fun fuel => ?_, fun h => ⟨hfit, hcount, hrange, .inr hprange, h⟩⟩
        simp only [SyncObjWait.syncObjWait, hz, if_false]
        rfl

theorem call_valid {c : WaitCall} (h : escapeWaitCall w b = some c) :
    ValidList w b ∧ c.objects.length = waitCount b ∧ waitCount b ≤ maximumWaitObjects := by
  rcases escape_cases w b with ⟨hnone, -, -⟩ | ⟨points, waitAll, -, hcall, -, hvalid⟩
  · rw [hnone] at h
    cases h
  rw [hcall] at h
  obtain ⟨hone, hmax, hbinary⟩ := waitOnCall_some h
  have V := hvalid hbinary
  have hne : waitCount b ≠ 1 := fun h1 => hone (BitVec.eq_of_toNat_eq h1)
  have htwo : 2 ≤ (b.u32 (argsOffset + 4)).toNat := by
    have h1 := V.one
    unfold waitCount at h1 hne
    omega
  rw [waitOnCall_eq htwo hmax hbinary] at h
  obtain rfl := Option.some.inj h
  exact ⟨V, objectsOf_length fun j _ hj => hbinary j (by omega), hmax⟩

theorem valid_waited (V : ValidList w b) (hmax : waitCount b ≤ maximumWaitObjects) :
    WaitedOn w b := by
  intro fuel
  rcases escape_cases w b with ⟨-, -, hno⟩ | ⟨points, waitAll, hflag, -, hwait, -⟩
  · exact absurd V hno
  rw [hwait]
  by_cases hone : waitCount b = 1
  · have hcount : b.u32 (argsOffset + 4) = 1 := BitVec.eq_of_toNat_eq hone
    obtain ⟨so, hso, htimeline⟩ := V.binary 0 (by omega)
    rw [if_pos hone, waitOn, if_pos hcount]
    simp only [hso, htimeline, Bool.false_eq_true, if_false, Option.map_map]
    exact ⟨_, rfl⟩
  · have h1 := V.one
    obtain ⟨hlt, -⟩ | ⟨-, events, hevents⟩ := waitOn_binary points (waitTimeout b) fuel
      (show 2 ≤ (b.u32 (argsOffset + 4)).toNat by unfold waitCount at h1 hone; omega) hflag V.binary
    · exact absurd hlt (Nat.not_lt.mpr hmax)
    · rw [if_neg hone]
      exact ⟨events, hevents⟩

end Escape

theorem keepsContract_iff (w : World) (b : Buffer) : KeepsContract w b ↔
    ¬(ValidList w b ∧ threadWaitObjects < waitCount b ∧ waitCount b ≤ maximumWaitObjects) := by
  constructor
  · rintro K ⟨V, hlow, hmax⟩
    rcases escape_cases w b with ⟨-, -, hno⟩ | ⟨points, waitAll, -, hcall, -, -⟩
    · exact hno V
    have htwo : 2 ≤ (b.u32 (argsOffset + 4)).toNat := by
      change 2 ≤ waitCount b
      unfold threadWaitObjects at hlow
      omega
    rw [waitOnCall_eq htwo hmax V.binary] at hcall
    have hlen := K.allowed _ hcall
    rw [objectsOf_length fun j _ hj => V.binary j (by unfold waitCount; omega)] at hlen
    exact absurd hlen (Nat.not_le.mpr hlow)
  · intro hno
    refine ⟨fun c hc => ?_, valid_waited⟩
    obtain ⟨V, hlen, hmax⟩ := call_valid hc
    rw [hlen]
    by_contra hlow
    exact hno ⟨V, Nat.lt_of_not_le hlow, hmax⟩

/-- A wait for any of four objects, of which there is one. -/
def fourHandles : Buffer where
  privateDriverDataSize := 76
  byte o :=
    match o with
    | 0 => 0x57 | 1 => 0x4D | 2 => 0x65 | 3 => 0x73
    | 4 => 1
    | 8 => 0x84
    | 40 => 4 | 44 => 60
    | 60 => 5 | 64 => 5 | 68 => 5 | 72 => 5
    | _ => 0

def oneObject : World where
  table _ := [⟨0, 5, false⟩]
  timelineValue _ := 0
  waitForSingleObject _ _ := none
  waitForMultipleObjects _ := none

theorem four_objects_one_thread :
    escapeWaitCall oneObject fourHandles = some ⟨[0, 0, 0, 0], waitTypeAny, some 0⟩ ∧
      ¬KeepsContract oneObject fourHandles := by
  have hcall : escapeWaitCall oneObject fourHandles =
      some ⟨[0, 0, 0, 0], waitTypeAny, some 0⟩ := by decide +kernel
  exact ⟨hcall, fun K => absurd (K.allowed _ hcall) (by decide)⟩

end WinMali.WaitBlocks
