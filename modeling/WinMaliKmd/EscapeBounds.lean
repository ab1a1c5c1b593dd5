import WinMaliKmd.EscapeHandlers

/-!
# Every access of an escape is in the buffer

A handler checks each range that it uses, at a size that was cast to 32 bits. That is
enough for every operation but `VmBind` and `GroupSubmit`, whose counts have no bound:
there it takes a count whose size is not truncated, or an entry that ends the walk.
-/

set_option autoImplicit false

namespace WinMali.EscapeBounds
open WinMali.AsSlots WinMali.EscapeBuffer WinMali.EscapeHandlers
open WinMali.BoTable hiding vmBindOp

variable (b : Buffer) (k : Kernel)

def AllInside (as : List Access) : Prop := ∀ a ∈ as, b.Inside a

/-- Every byte that is read or written lies in the buffer. -/
def Safe : Prop := AllInside b (kmdEscape b k).2.2

/-- The operation can be carried out, and the batch goes on. -/
def OpPasses (i : ℕ) (op : VmBindOp) : Prop :=
  (op.flags &&& bindOpTypeMask = bindOpTypeMap ∧
      ∃ boSize, k.bo i op.boHandle = some boSize ∧ op.boOffset = 0 ∧ op.size ≤ boSize ∧
        k.pfnArray i = true ∧ (k.vmMap i op).ok = true) ∨
    (op.flags &&& bindOpTypeMask = bindOpTypeUnmap ∧ (k.vmUnmap i op).ok = true) ∨
    op.flags &&& bindOpTypeMask = bindOpTypeSyncOnly

/-- A sync operation that the waits before a submit get past. -/
def WaitPasses (i : ℕ) (qs : QueueSubmit) (m : ℕ) : Prop :=
  b.u32 (qs.syncsOffset.toNat + syncOpBytes * m) &&& syncOpSignal ≠ 0 ∨ k.syncWait i m = .ok

/-- The submit is waited for and run, and the next one is looked at. -/
structure SubmitPasses (i : ℕ) (qs : QueueSubmit) : Prop where
  range : syncsRefused b qs = false
  waits : ∀ m < qs.syncsCount.toNat, WaitPasses b k i qs m
  slot : k.groupAsSlot i < asSlotMax
  addr : qs.streamAddr ≠ 0
  size : qs.streamSize ≠ 0
  stream : (k.submitGroupStream i).ok = true

def opAt (o i : ℕ) : VmBindOp := vmBindOpAt b (o + vmBindOpBytes * i)

def submitAt (o i : ℕ) : QueueSubmit := queueSubmitAt b (o + queueSubmitBytes * i)

def VmBindFits (vmId opsCount opsOffset : BitVec 32) : Prop :=
  escapeRangeOk b opsOffset (ulong (opsCount.toNat * vmBindOpBytes)) = true →
    k.vm vmId = some true →
      WalkFits b opsOffset.toNat vmBindOpBytes opsCount.toNat
        fun i => OpPasses k i (opAt b opsOffset.toNat i)

def SyncsFit (i : ℕ) (qs : QueueSubmit) : Prop :=
  syncsRefused b qs = false →
    WalkFits b qs.syncsOffset.toNat syncOpBytes qs.syncsCount.toNat (WaitPasses b k i qs)

/-- Both the submits, and the sync operations of each submit that the walk comes to. -/
def GroupSubmitFits (group count offset : BitVec 32) : Prop :=
  escapeRangeOk b offset (ulong (count.toNat * queueSubmitBytes)) = true →
    k.group group = some false →
      WalkFits b offset.toNat queueSubmitBytes count.toNat
          (fun i => SubmitPasses b k i (submitAt b offset.toNat i)) ∧
        Walk (fun i => SubmitPasses b k i (submitAt b offset.toNat i))
          (fun i => SyncsFit b k i (submitAt b offset.toNat i)) 0 count.toNat

def argsOffset : ℕ := escapeHeaderSize

/-- The argument struct of an operation is in the buffer. -/
def ArgsFit (size : ℕ) : Prop := argsOffset + size ≤ b.privateDriverDataSize.toNat

/-- The condition, for the two operations that need one. -/
structure Fits : Prop where
  vmBind : k.adapter = true → Accepted b → (b.u32 8).toNat = opVmBind → ArgsFit b 16 →
    VmBindFits b k (b.u32 argsOffset) (b.u32 (argsOffset + 8)) (b.u32 (argsOffset + 12))
  groupSubmit : k.adapter = true → Accepted b → (b.u32 8).toNat = opGroupSubmit → ArgsFit b 24 →
    GroupSubmitFits b k (b.u32 argsOffset) (b.u32 (argsOffset + 4)) (b.u32 (argsOffset + 8))

section Arguments

variable {b : Buffer} {k : Kernel} {a : Access} {as bs : List Access} {size : ℕ}
  {body : ℕ → Outcome}

@[simp] theorem allInside_nil : AllInside b [] := by simp [AllInside]

@[simp] theorem allInside_cons : AllInside b (a :: as) ↔ b.Inside a ∧ AllInside b as := by
  simp [AllInside]

@[simp] theorem allInside_append : AllInside b (as ++ bs) ↔ AllInside b as ∧ AllInside b bs := by
  simp [AllInside, or_imp, forall_and]

/-- The argument struct is found at its offset, or it does not fit. -/
theorem escapeAt_args (hpos : 0 < size) (hsize : size < 2 ^ 32) :
    (ArgsFit b size ∧ escapeAt b (ulong escapeHeaderSize) (ulong size) = some argsOffset) ∨
      (¬ArgsFit b size ∧ escapeAt b (ulong escapeHeaderSize) (ulong size) = none) := by
  have hoff : (ulong escapeHeaderSize).toNat = argsOffset := ulong_toNat (by decide)
  have hargs : escapeRangeOk b (ulong escapeHeaderSize) (ulong size) = true ↔ ArgsFit b size := by
    rw [rangeOk_iff, hoff, ulong_toNat hsize]
    refine or_iff_right fun hzero => ?_
    have hval := congrArg BitVec.toNat hzero
    rw [ulong_toNat hsize] at hval
    exact Nat.ne_of_gt hpos hval
  by_cases hfit : ArgsFit b size
  · exact .inl ⟨hfit, escapeAt_some.mpr ⟨hargs.mpr hfit, hoff.symm⟩⟩
  · exact .inr ⟨hfit, escapeAt_none.mpr (Bool.eq_false_iff.mpr fun h => hfit (hargs.mp h))⟩

theorem withArgs_inside (hpos : 0 < size) (hsize : size < 2 ^ 32) :
    AllInside b (withArgs b size body).2 ↔ (ArgsFit b size → AllInside b (body argsOffset).2) := by
  unfold withArgs
  rcases escapeAt_args (b := b) hpos hsize with ⟨hfit, hat⟩ | ⟨hfit, hat⟩
  · have hargs : b.Inside ⟨argsOffset, size⟩ := hfit
    simp [hat, hfit, hargs]
  · simp [hat, hfit]

end Arguments

section Loops

variable {b : Buffer} {k : Kernel}

theorem vmBindOp_ok {i : ℕ} {op : VmBindOp} : vmBindOp k i op = .ok ↔ OpPasses k i op := by
  unfold vmBindOp OpPasses
  generalize op.flags &&& bindOpTypeMask = opType
  by_cases hmap : opType = bindOpTypeMap
  · -- no other type has its number
    have hunmap : ¬(opType = bindOpTypeUnmap) := by rw [hmap]; decide
    have hsync : ¬(opType = bindOpTypeSyncOnly) := by rw [hmap]; decide
    rw [if_pos hmap, and_iff_right hmap, or_iff_left (not_or.mpr ⟨fun h => hunmap h.1, hsync⟩)]
    cases hbo : k.bo i op.boHandle with
    | none => simp
    | some boSize =>
      simp only [Option.some.injEq, exists_eq_left']
      have hguard : (op.boOffset = 0 ∧ op.size ≤ boSize) ↔
          ¬(op.boOffset ≠ 0 ∨ op.size > boSize) := by
        simp [not_or]
      rw [← and_assoc, hguard]
      by_cases hbad : op.boOffset ≠ 0 ∨ op.size > boSize
      · rw [if_pos hbad]
        exact iff_of_false (by simp) fun h => h.1 hbad
      · rw [if_neg hbad, and_iff_right hbad]
        cases k.pfnArray i with
        | false => simp
        | true =>
          cases hok : (k.vmMap i op).ok with
          | true => simp
          | false => by_cases hres : k.vmMap i op = .insufficientResources <;> simp [hres]
  · by_cases hunmap : opType = bindOpTypeUnmap
    · have hsync : ¬(opType = bindOpTypeSyncOnly) := by rw [hunmap]; decide
      rw [if_neg hmap, if_pos hunmap, or_iff_right fun h => hmap h.1, and_iff_right hunmap,
        or_iff_left hsync]
      cases (k.vmUnmap i op).ok <;> simp
    · simp [hmap, hunmap]

theorem vmBindLoop_inside (ops i left : ℕ) :
    AllInside b (vmBindLoop b k ops i left).2 ↔
      Walk (fun j => OpPasses k j (opAt b ops j))
        (fun j => b.Inside ⟨ops + vmBindOpBytes * j, vmBindOpBytes⟩) i left := by
  induction left generalizing i with
  | zero => simp [vmBindLoop, walk_zero]
  | succ left ih =>
    rw [walk_succ, ← ih, ← vmBindOp_ok]
    simp only [vmBindLoop, allInside_cons, opAt]
    split
    · simp [*]
    · simp [*]

theorem escapeVmBind_inside : AllInside b (escapeVmBind b k).2 ↔
    (ArgsFit b 16 →
      VmBindFits b k (b.u32 argsOffset) (b.u32 (argsOffset + 8)) (b.u32 (argsOffset + 12))) := by
  unfold escapeVmBind
  rw [withArgs_inside (by decide) (by decide)]
  refine imp_congr_right fun _ => ?_
  generalize b.u32 (argsOffset + 8) = opsCount
  generalize b.u32 (argsOffset + 12) = opsOffset
  unfold VmBindFits
  by_cases hz : opsCount = 0
  · simp [hz, WalkFits]
  · rw [if_neg hz]
    cases hat : escapeAt b opsOffset (ulong (opsCount.toNat * vmBindOpBytes)) with
    | none => simp [escapeAt_none.mp hat]
    | some ops =>
      have hwalk := vmBindLoop_inside (b := b) (k := k) ops 0 opsCount.toNat
      rw [walk_fits_iff hat (by decide)] at hwalk
      obtain ⟨hok, rfl⟩ := escapeAt_some.mp hat
      cases hvm : k.vm (b.u32 argsOffset) with
      | none => simp
      | some ptInitialized => cases ptInitialized <;> simp [hok, hwalk]

/-- The waits before a submit: a failed one ends them. -/
theorem waitOps_inside (reply : ℕ → Errno) (ops i left : ℕ) (err : Errno) :
    AllInside b (escapeProcessSyncOps b reply ops false i left err).2 ↔
      Walk (fun m => b.u32 (ops + syncOpBytes * m) &&& syncOpSignal ≠ 0 ∨ reply m = .ok)
        (fun m => b.Inside ⟨ops + syncOpBytes * m, syncOpBytes⟩) i left := by
  induction left generalizing i with
  | zero => simp [escapeProcessSyncOps, walk_zero]
  | succ left ih =>
    rw [walk_succ, ← ih]
    simp only [escapeProcessSyncOps, allInside_cons]
    by_cases hsignal : b.u32 (ops + syncOpBytes * i) &&& syncOpSignal = 0#32
    · by_cases hreply : reply i = .ok <;> simp [hsignal, hreply]
    · simp [hsignal]

theorem waitOps_ok (reply : ℕ → Errno) (ops i left : ℕ) :
    (escapeProcessSyncOps b reply ops false i left .ok).1 = .ok ↔
      Walk (fun _ => True)
        (fun m => b.u32 (ops + syncOpBytes * m) &&& syncOpSignal ≠ 0 ∨ reply m = .ok) i left := by
  induction left generalizing i with
  | zero => simp [escapeProcessSyncOps, walk_zero]
  | succ left ih =>
    rw [walk_succ, ← ih]
    simp only [escapeProcessSyncOps]
    by_cases hsignal : b.u32 (ops + syncOpBytes * i) &&& syncOpSignal = 0#32
    · by_cases hreply : reply i = .ok <;> simp [hsignal, hreply]
    · simp [hsignal]

/-- The signals after a submit: all of them are looked at. -/
theorem signalOps_inside (reply : ℕ → Errno) (ops i left : ℕ) (err : Errno) :
    AllInside b (escapeProcessSyncOps b reply ops true i left err).2 ↔
      Walk (fun _ => True) (fun m => b.Inside ⟨ops + syncOpBytes * m, syncOpBytes⟩) i left := by
  induction left generalizing i err with
  | zero => simp [escapeProcessSyncOps, walk_zero]
  | succ left ih =>
    rw [walk_succ]
    simp only [escapeProcessSyncOps, allInside_cons]
    split <;> simp [ih]

/-- The handler gets past the waits exactly when each of them is got past. -/
theorem syncPass_wait_ok {qs : QueueSubmit} {i : ℕ} {err : Errno} :
    (qs.syncsCount ≠ 0 ∧ (syncPass b qs (k.syncWait i) false err).1 ≠ .ok) ↔
      ¬∀ m < qs.syncsCount.toNat, WaitPasses b k i qs m := by
  by_cases hz : qs.syncsCount = 0
  · simp [hz]
  · rw [and_iff_right hz, syncPass, if_neg hz, Ne, waitOps_ok, walk_all]
    rfl

/-- A submit touches its sync operations only: up to the wait that fails, or all of them twice. -/
theorem syncs_inside {qs : QueueSubmit} (k : Kernel) (i : ℕ) (err : Errno)
    (hok : syncsRefused b qs = false) :
    AllInside b (syncPass b qs (k.syncWait i) false err).2 ↔ SyncsFit b k i qs := by
  unfold SyncsFit
  rw [imp_iff_right hok]
  by_cases hz : qs.syncsCount = 0
  · simp [syncPass, hz, WalkFits]
  · have hrange : escapeAt b qs.syncsOffset (ulong (qs.syncsCount.toNat * syncOpBytes)) =
        some qs.syncsOffset.toNat := by
      simp only [syncsRefused, Bool.and_eq_false_iff, bne_eq_false_iff_eq, hz, false_or,
        Bool.not_eq_false'] at hok
      exact escapeAt_some.mpr ⟨hok, rfl⟩
    rw [syncPass, if_neg hz, waitOps_inside, ← walk_fits_iff hrange (by decide)]
    rfl

theorem signals_inside {qs : QueueSubmit} {i : ℕ} {err err' : Errno}
    (hwaits : ∀ m < qs.syncsCount.toNat, WaitPasses b k i qs m)
    (hwaited : AllInside b (syncPass b qs (k.syncWait i) false err).2) :
    AllInside b (syncPass b qs (k.syncSignal i) true err').2 := by
  unfold syncPass at hwaited ⊢
  split
  · exact allInside_nil
  · rename_i hz
    rw [if_neg hz, waitOps_inside] at hwaited
    rw [signalOps_inside, walk_all]
    intro m hm
    exact hwaited m (Nat.zero_le m) (by omega) fun n _ hn => hwaits n (by omega)

theorem queueSubmit_goes_on (i : ℕ) (qs : QueueSubmit) (err : Errno) :
    (queueSubmit b k i qs err).1 = true ↔ SubmitPasses b k i qs := by
  unfold queueSubmit
  cases hrange : syncsRefused b qs with
  | true => exact iff_of_false (by simp) fun h => by simp [h.range] at hrange
  | false =>
    simp only [Bool.false_eq_true, if_false]
    split
    · rename_i hwait
      have hwaits := syncPass_wait_ok.mp hwait
      exact iff_of_false (by simp) fun h => hwaits h.waits
    · rename_i hwait
      have hwaits := not_not.mp (mt syncPass_wait_ok.mpr hwait)
      split
      · rename_i hstream
        refine iff_of_false (by simp) fun h => ?_
        rcases hstream with hslot | haddr | hsize
        · exact absurd h.slot (by omega)
        · exact h.addr haddr
        · exact h.size hsize
      · rename_i hstream
        push Not at hstream
        cases hrun : (k.submitGroupStream i).ok with
        | false => exact iff_of_false (by simp) fun h => by simp [h.stream] at hrun
        | true =>
          exact iff_of_true (by simp) ⟨hrange, hwaits, hstream.1, hstream.2.1, hstream.2.2, hrun⟩

theorem queueSubmit_inside (i : ℕ) (qs : QueueSubmit) (err : Errno) :
    AllInside b (queueSubmit b k i qs err).2.2 ↔ SyncsFit b k i qs := by
  unfold queueSubmit
  cases hrange : syncsRefused b qs with
  | true => simp [SyncsFit, hrange]
  | false =>
    simp only [Bool.false_eq_true, if_false]
    have hwaited := syncs_inside k i err hrange
    split
    · exact hwaited
    · rename_i hwait
      have hwaits := not_not.mp (mt syncPass_wait_ok.mpr hwait)
      split
      · exact hwaited
      · split
        · exact hwaited
        · rw [allInside_append, ← hwaited, and_iff_left_iff_imp]
          exact signals_inside hwaits

theorem submitLoop_inside (submits i left : ℕ) (err : Errno) :
    AllInside b (submitLoop b k submits i left err).2 ↔
      Walk (fun j => SubmitPasses b k j (submitAt b submits j))
        (fun j => b.Inside ⟨submits + queueSubmitBytes * j, queueSubmitBytes⟩ ∧
          SyncsFit b k j (submitAt b submits j)) i left := by
  induction left generalizing i err with
  | zero => simp [submitLoop, walk_zero]
  | succ left ih =>
    rw [walk_succ, ← queueSubmit_inside i _ err, ← queueSubmit_goes_on i _ err]
    simp only [submitLoop, submitAt, allInside_cons, allInside_append, List.cons_append, and_assoc]
    split
    · rename_i hon
      rw [imp_iff_right hon, ih]
      rfl
    · rename_i hend
      simp [hend]

theorem escapeGroupSubmit_inside : AllInside b (escapeGroupSubmit b k).2 ↔
    (ArgsFit b 24 →
      GroupSubmitFits b k (b.u32 argsOffset) (b.u32 (argsOffset + 4))
        (b.u32 (argsOffset + 8))) := by
  unfold escapeGroupSubmit
  rw [withArgs_inside (by decide) (by decide)]
  refine imp_congr_right fun _ => ?_
  generalize b.u32 (argsOffset + 4) = count
  generalize b.u32 (argsOffset + 8) = offset
  unfold GroupSubmitFits
  by_cases hz : count = 0
  · simp [hz, WalkFits, walk_zero]
  · rw [if_neg hz]
    cases hat : escapeAt b offset (ulong (count.toNat * queueSubmitBytes)) with
    | none => simp [escapeAt_none.mp hat]
    | some submits =>
      have hwalk := submitLoop_inside (b := b) (k := k) submits 0 count.toNat .ok
      rw [walk_and, walk_fits_iff hat (by decide)] at hwalk
      obtain ⟨hok, rfl⟩ := escapeAt_some.mp hat
      cases hgroup : k.group (b.u32 argsOffset) with
      | none => simp
      | some fatal => cases fatal <;> simp [hok, hwalk]

end Loops

section BoundedCounts

variable {b : Buffer} {k : Kernel} {size : ℕ} {body : ℕ → Outcome}

/-- The handlers that use their argument struct only. -/
theorem withArgs_only (hpos : 0 < size) (hsize : size < 2 ^ 32)
    (hbody : ∀ args, (body args).2 = []) : AllInside b (withArgs b size body).2 := by
  rw [withArgs_inside hpos hsize, hbody]
  exact fun _ => allInside_nil

theorem escapeAt_one {offset : BitVec 32} {count o : ℕ}
    (h : escapeAt b offset (ulong count) = some o) (hc : count < 2 ^ 32) (hpos : 0 < count) :
    b.Inside ⟨o, count⟩ :=
  (escapeAt_inside h hc).resolve_right (by omega)

theorem escapeDevQuery_inside : AllInside b (escapeDevQuery b).2 := by
  have hinfo : ∀ args infoSize, 0 < infoSize → infoSize < 2 ^ 32 →
      AllInside b (devQueryInfo b args infoSize).2 := by
    intro args infoSize hpos hsize
    unfold devQueryInfo
    split_ifs
    · exact allInside_nil
    · exact allInside_nil
    · exact allInside_nil
    · split
      · exact allInside_nil
      · rename_i dst hdst
        simpa using escapeAt_one hdst hsize hpos
  unfold escapeDevQuery
  rw [withArgs_inside (by decide) (by decide)]
  intro _
  split
  · exact hinfo _ _ (by decide) (by decide)
  · exact hinfo _ _ (by decide) (by decide)
  · exact hinfo _ _ (by decide) (by decide)
  · exact hinfo _ _ (by decide) (by decide)
  · exact allInside_nil

theorem escapeBoSetLabel_inside : AllInside b (escapeBoSetLabel b k).2 := by
  unfold escapeBoSetLabel
  rw [withArgs_inside (by decide) (by decide)]
  intro _
  dsimp only
  split
  · exact allInside_nil
  · rename_i hlen
    split
    · exact allInside_nil
    · rename_i label hlabel
      split
      · rename_i hcopy
        have hin := escapeAt_one hlabel (by unfold boLabelMax at hlen; omega) (by omega)
        have hle : min (b.u32 (argsOffset + 4)).toNat (boLabelBytes - 1) ≤
          (b.u32 (argsOffset + 4)).toNat := Nat.min_le_left _ _
        rw [allInside_cons]
        exact ⟨Nat.le_trans (Nat.add_le_add_left hle label) hin, allInside_nil⟩
      · exact allInside_nil

theorem escapeDebugLog_inside : AllInside b (escapeDebugLog b).2 := by
  unfold escapeDebugLog
  rw [withArgs_inside (by decide) (by decide)]
  intro _
  dsimp only
  split
  · exact allInside_nil
  · rename_i text htext
    split
    · rename_i hpos
      have hlt : min (b.u32 argsOffset).toNat debugLogMax < 2 ^ 32 :=
        Nat.lt_of_le_of_lt (Nat.min_le_right _ _) (by decide)
      simpa using escapeAt_one htext hlt hpos
    · exact allInside_nil

theorem escapeGroupCreate_inside : AllInside b (escapeGroupCreate b k).2 := by
  unfold escapeGroupCreate
  rw [withArgs_inside (by decide) (by decide)]
  intro _
  dsimp only
  split
  · exact allInside_nil
  · rename_i hcount
    rw [not_or] at hcount
    have hpos : 0 < (b.u32 argsOffset).toNat :=
      Nat.pos_of_ne_zero fun h => hcount.1 (BitVec.eq_of_toNat_eq h)
    split
    · exact allInside_nil
    · rename_i queues hqueues
      split
      · exact allInside_nil
      · split
        · have hlt : (b.u32 argsOffset).toNat * queueCreateBytes < 2 ^ 32 := by
            unfold groupMaxQueues at hcount
            unfold queueCreateBytes
            omega
          simpa using escapeAt_one hqueues hlt (Nat.mul_pos hpos (by decide))
        · exact allInside_nil

theorem waitHandles_inside (handles i left : ℕ)
    (h : ∀ j, i ≤ j → j < i + left → b.Inside ⟨handles + 4 * j, 4⟩) :
    AllInside b (waitHandles b k handles i left).2 := by
  induction left generalizing i with
  | zero => exact allInside_nil
  | succ left ih =>
    have hrest := ih (i + 1) fun j hj hlt => h j (by omega) (by omega)
    simp only [waitHandles, allInside_cons]
    refine ⟨h i (Nat.le_refl i) (by omega), ?_⟩
    split
    · exact allInside_nil
    · split
      · exact allInside_nil
      · exact hrest

/-- A wait on many handles is refused before the first one is read. -/
theorem syncObjWait_inside {count handles : ℕ} {points : Option ℕ}
    (hhandles : count ≤ maximumWaitObjects → b.Inside ⟨handles, count * 4⟩)
    (hpoints : count ≤ maximumWaitObjects → ∀ p ∈ points, b.Inside ⟨p, count * 8⟩) :
    AllInside b (syncObjWait b k count handles points).2 := by
  unfold syncObjWait
  split
  · rename_i hone
    subst hone
    have hhandle : b.Inside ⟨handles, 4⟩ := hhandles (by decide)
    split
    · simpa using hhandle
    · rw [allInside_cons]
      refine ⟨hhandle, ?_⟩
      split
      · intro a ha
        obtain ⟨p, hp, rfl⟩ := List.mem_map.mp ha
        exact hpoints (by decide) p (Option.mem_toList.mp hp)
      · exact allInside_nil
  · split
    · exact allInside_nil
    · rename_i hmax
      refine waitHandles_inside _ _ _ fun j _ hj => ?_
      have hin := hhandles (by omega)
      unfold Buffer.Inside at hin ⊢
      dsimp only at hin ⊢
      omega

theorem escapeSyncObjWait_inside : AllInside b (escapeSyncObjWait b k).2 := by
  unfold escapeSyncObjWait
  rw [withArgs_inside (by decide) (by decide)]
  intro _
  dsimp only
  split
  · exact allInside_nil
  · rename_i hcount
    have hpos : 0 < (b.u32 (argsOffset + 4)).toNat :=
      Nat.pos_of_ne_zero fun h => hcount (BitVec.eq_of_toNat_eq h)
    have harray : ∀ (offset : BitVec 32) (elem o : ℕ), elem = 4 ∨ elem = 8 →
        escapeAt b offset (ulong ((b.u32 (argsOffset + 4)).toNat * elem)) = some o →
          (b.u32 (argsOffset + 4)).toNat ≤ maximumWaitObjects →
            b.Inside ⟨o, (b.u32 (argsOffset + 4)).toNat * elem⟩ := by
      intro offset elem o helem hat hmax
      unfold maximumWaitObjects at hmax
      rcases helem with rfl | rfl
      · exact escapeAt_one hat (by omega) (by omega)
      · exact escapeAt_one hat (by omega) (by omega)
    split
    · exact allInside_nil
    · rename_i handles hhandles
      have hin := harray _ _ _ (.inl rfl) hhandles
      split
      · exact syncObjWait_inside hin (by simp)
      · split
        · exact allInside_nil
        · rename_i points hpoints
          refine syncObjWait_inside hin fun hmax p hp => ?_
          cases hp
          exact harray _ _ _ (.inr rfl) hpoints hmax

/-- Every operation but the two bounds what it uses. -/
theorem dispatch_inside {op : ℕ} (hbind : op ≠ opVmBind) (hsubmit : op ≠ opGroupSubmit) :
    AllInside b (dispatch b k op).2 := by
  unfold dispatch
  -- most touch their argument struct and nothing else
  split <;> try exact withArgs_only (by decide) (by decide) fun _ => rfl
  · exact escapeDevQuery_inside
  · exact escapeBoSetLabel_inside
  · exact escapeDebugLog_inside
  · exact escapeSyncObjWait_inside
  · exact absurd rfl hbind
  · exact escapeGroupCreate_inside
  · exact absurd rfl hsubmit
  · exact allInside_nil
  · exact allInside_nil

end BoundedCounts

section Escape

variable {b : Buffer} {k : Kernel}

/-- What the entry checks leave to the handlers. -/
theorem safe_iff_dispatch : Safe b k ↔
    (k.adapter = true → Accepted b → AllInside b (dispatch b k (b.u32 8).toNat).2) := by
  unfold Safe kmdEscape
  by_cases hsize : b.privateDriverDataSize.toNat < escapeHeaderSize
  · rw [if_pos hsize]
    exact iff_of_true allInside_nil fun _ h => absurd h.size (Nat.not_le_of_lt hsize)
  rw [if_neg hsize]
  have hheader : b.Inside ⟨0, escapeHeaderSize⟩ := by
    unfold Buffer.Inside
    dsimp only
    omega
  have hread : AllInside b [⟨0, escapeHeaderSize⟩] := by simpa using hheader
  cases hadapter : k.adapter with
  | false => simp
  | true =>
    simp only [Bool.not_true, Bool.false_eq_true, if_false, true_implies]
    by_cases hmagic : b.u32 0 = escapeMagic
    · rw [if_neg (not_not.mpr hmagic)]
      by_cases habi : b.u16 4 = abiMajor
      · rw [if_neg (not_not.mpr habi)]
        by_cases hpayload : (b.u32 12).toNat > b.privateDriverDataSize.toNat
        · rw [if_pos hpayload]
          exact iff_of_true hread fun h => absurd h.payload (Nat.not_le_of_lt hpayload)
        · rw [if_neg hpayload, allInside_cons, and_iff_right hheader, imp_iff_right]
          exact ⟨Nat.le_of_not_lt hsize, hmagic, habi, Nat.le_of_not_lt hpayload⟩
      · rw [if_pos habi]
        exact iff_of_true hread fun h => absurd h.abi habi
    · rw [if_pos hmagic]
      exact iff_of_true hread fun h => absurd h.magic hmagic

end Escape

/-- An escape stays in its buffer exactly when a batch of the two operations does. -/
theorem accesses_inside_iff (b : Buffer) (k : Kernel) : Safe b k ↔ Fits b k := by
  rw [safe_iff_dispatch]
  constructor
  · intro hsafe
    refine ⟨fun hadapter haccepted hop => ?_, fun hadapter haccepted hop => ?_⟩
    · have hbind := hsafe hadapter haccepted
      rw [hop] at hbind
      exact escapeVmBind_inside.mp hbind
    · have hsubmit := hsafe hadapter haccepted
      rw [hop] at hsubmit
      exact escapeGroupSubmit_inside.mp hsubmit
  · intro hfits hadapter haccepted
    by_cases hbind : (b.u32 8).toNat = opVmBind
    · rw [hbind]
      exact escapeVmBind_inside.mpr (hfits.vmBind hadapter haccepted hbind)
    · by_cases hsubmit : (b.u32 8).toNat = opGroupSubmit
      · rw [hsubmit]
        exact escapeGroupSubmit_inside.mpr (hfits.groupSubmit hadapter haccepted hsubmit)
      · exact dispatch_inside hbind hsubmit

/-- A batch of 2^29 operations in a buffer that ends where the first one would be. -/
def wrappedBind : Buffer where
  privateDriverDataSize := 52
  byte o :=
    match o with
    | 0 => 0x57 | 1 => 0x4D | 2 => 0x65 | 3 => 0x73
    | 4 => 1
    | 8 => 3
    | 12 => 52
    | 36 => 1
    | 47 => 0x20
    | 48 => 52
    | _ => 0

def oneVm : Kernel where
  adapter := true
  call _ := .ok
  vm vmId := if vmId = 1 then some true else none
  bo _ _ := none
  pfnArray _ := false
  vmMap _ _ := .invalidParameter
  vmUnmap _ _ := .invalidParameter
  group _ := none
  groupAsSlot _ := 0
  submitGroupStream _ := .success
  syncSignal _ _ := .ok
  syncWait _ _ := .ok
  syncObj _ _ := none
  wait := .ok

theorem wrapped_bind_reads_past_end :
    ⟨52, 40⟩ ∈ (kmdEscape wrappedBind oneVm).2.2 ∧ ¬Safe wrappedBind oneVm := by
  have hread : ⟨52, 40⟩ ∈ (kmdEscape wrappedBind oneVm).2.2 := by decide +kernel
  refine ⟨hread, fun hsafe => ?_⟩
  have hout : ¬wrappedBind.Inside ⟨52, 40⟩ := by decide
  exact hout (hsafe _ hread)

end WinMali.EscapeBounds
