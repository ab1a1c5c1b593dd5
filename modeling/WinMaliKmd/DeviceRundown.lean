import WinMaliKmd.BoTable
import WinMaliKmd.IntrusiveList

/-!
# The rundown of a device

`DestroyDevice` over the four tables as they are in memory: lists of embedded
links, objects that a pointer may or may not lead to, and a count beside each
list. The four rundowns are one routine with the owner field and the release of
the table's own kind of object.
-/

set_option autoImplicit false

namespace WinMali.DeviceRundown
open WinMali.AsSlots WinMali.BoTable WinMali.IntrusiveList WinMali.Lpae WinMali.VmPageTable
open WinMali.VmTable hiding Table

structure SyncObj where
  handle : ℕ
  isTimeline : Bool
  timelineValue : ℕ
  ownerDevice : ℕ
deriving DecidableEq, Repr

structure Group where
  handle : ℕ
  vmId : ℕ
  fatalQueueMask : BitVec 32
  ownerDevice : ℕ
deriving DecidableEq, Repr

structure Fields (α : Type) where
  handle : α → ℕ
  ownerDevice : α → ℕ

def boFields : Fields Bo := ⟨Bo.handle, fun bo => bo.ownerDevice.getD 0⟩

def vmFields : Fields Vm := ⟨Vm.id, Vm.ownerDevice⟩

def syncObjFields : Fields SyncObj := ⟨SyncObj.handle, SyncObj.ownerDevice⟩

def groupFields : Fields Group := ⟨Group.handle, Group.ownerDevice⟩

structure Table (α : Type) where
  links : Links ℕ
  objs : ℕ → Option α
  head : ℕ
  count : ℤ

section Routines

variable {α σ : Type} (fields : Fields α)

def findByHandle (fuel : ℕ) (t : Table α) (handle : ℕ) : Option (Option ℕ) :=
  scan (fun e => (t.objs e).map fun o => fields.handle o == handle) t.links t.head fuel
    (t.links.flink t.head)

def tableInit (head : ℕ) : Table α := ⟨initializeListHead ⟨id, id⟩ head, fun _ => none, head, 0⟩

def createInsert (t : Table α) (e : ℕ) (o : α) : Table α :=
  { t with
    links := insertTailList t.links t.head e
    objs := Function.update t.objs e (some o)
    count := t.count + 1 }

def takeByHandle (fuel : ℕ) (t : Table α) (handle : ℕ) : Option (Option ℕ × Table α) :=
  (findByHandle fields fuel t handle).map fun
    | none => (none, t)
    | some e => (some e, { t with links := removeEntryList t.links e, count := t.count - 1 })

/-- One object is released: what its kind does besides is `free`. -/
def freeEntry (free : σ → α → σ) (s : ℕ × (ℕ → Option α) × σ) (e : ℕ) :
    Option (ℕ × (ℕ → Option α) × σ) :=
  (s.2.1 e).map fun o => (s.1 + 1, Function.update s.2.1 e none, free s.2.2 o)

/-- `freeHead` is the list head on the stack of the caller. -/
def rundownOwner (free : σ → α → σ) (fuel freeHead : ℕ) (t : Table α) (s : σ)
    (ownerDevice : ℕ) : Option (ℕ × Table α × σ) :=
  if ownerDevice = 0 then some (0, t, s)
  else
    let m := initializeListHead t.links freeHead
    (sift (fun e => (t.objs e).map fun o => fields.ownerDevice o == ownerDevice) t.head freeHead
      fuel m (m.flink t.head)).bind fun (k, m) =>
        (drain (freeEntry free) freeHead fuel m (0, t.objs, s)).map fun (m, n, objs, s) =>
          (n, { t with links := m, objs := objs, count := t.count - k }, s)

end Routines

structure KmdDevice where
  adapter : Bool
  ownerProcess : Option ℕ
deriving DecidableEq, Repr

/-- `devices` is where a device handle leads, `deviceCount` is kept in each process. -/
structure State where
  devices : ℕ → Option KmdDevice
  deviceCount : ℕ → ℤ
  groupTable : Table Group
  boTable : Table Bo
  syncObjTable : Table SyncObj
  vmTable : Table Vm
  adapter : Adapter

section Rundowns

variable (fuel freeHead : ℕ)

/-- The release of a group gives its memory back and nothing else. -/
def groupRundownOwner (t : Table Group) (ownerDevice : ℕ) :=
  rundownOwner groupFields (fun _ _ => ()) fuel freeHead t () ownerDevice

/-- What becomes of the pages of a BO is in the model of its table. -/
def boRundownOwner (t : Table Bo) (ownerDevice : ℕ) :=
  rundownOwner boFields (fun _ _ => ()) fuel freeHead t () ownerDevice

def syncObjRundownOwner (t : Table SyncObj) (ownerDevice : ℕ) :=
  rundownOwner syncObjFields (fun _ _ => ()) fuel freeHead t () ownerDevice

def vmRundownOwner (t : Table Vm) (a : Adapter) (ownerDevice : ℕ) :=
  rundownOwner vmFields vmFree fuel freeHead t a ownerDevice

/-- `none` is a fault or a loop that does not end. -/
def destroyDevice (s : State) (hDevice : ℕ) : Option (NtStatus × State) :=
  match if hDevice = 0 then none else s.devices hDevice with
  | none => some (.invalidHandle, s)
  | some dev =>
    let deviceCount := match dev.ownerProcess with
      | some p => Function.update s.deviceCount p (s.deviceCount p - 1)
      | none => s.deviceCount
    let devices := Function.update s.devices hDevice none
    let s := { s with deviceCount := deviceCount }
    if dev.adapter then
      (groupRundownOwner fuel freeHead s.groupTable hDevice).bind fun (_, groups, _) =>
      (boRundownOwner fuel freeHead s.boTable hDevice).bind fun (_, bos, _) =>
      (syncObjRundownOwner fuel freeHead s.syncObjTable hDevice).bind fun (_, syncObjs, _) =>
      (vmRundownOwner fuel freeHead s.vmTable s.adapter hDevice).map fun (_, vms, a) =>
        (.success, { s with
          devices := devices
          groupTable := groups
          boTable := bos
          syncObjTable := syncObjs
          vmTable := vms
          adapter := a })
    else some (.success, { s with devices := devices })

end Rundowns

section Spec

variable {α σ : Type} {fields : Fields α}

/-- The list of a table, every entry with the object that is there, and the right count. -/
structure Holds (t : Table α) (l : List (ℕ × α)) : Prop where
  ring : Ring t.links t.head (l.map Prod.fst)
  objs : ∀ x ∈ l, t.objs x.1 = some x.2
  count : t.count = l.length

/-- The stack of the caller is not in the table. -/
def Apart (freeHead : ℕ) (t : Table α) (l : List (ℕ × α)) : Prop :=
  freeHead ∉ t.head :: l.map Prod.fst

def ownedBy (fields : Fields α) (ownerDevice : ℕ) (x : ℕ × α) : Bool :=
  fields.ownerDevice x.2 == ownerDevice

def testAt (t : Table α) (p : α → Bool) (e : ℕ) : Bool := (t.objs e).any p

theorem Holds.testAt {t : Table α} {l : List (ℕ × α)} (h : Holds t l) (p : α → Bool)
    {x : ℕ × α} (hx : x ∈ l) : testAt t p x.1 = p x.2 := by
  rw [DeviceRundown.testAt, h.objs x hx, Option.any_some]

theorem Holds.read {t : Table α} {l : List (ℕ × α)} (h : Holds t l) (p : α → Bool) :
    ∀ e ∈ l.map Prod.fst, (t.objs e).map p = some (DeviceRundown.testAt t p e) := by
  intro e he
  obtain ⟨x, hx, rfl⟩ := List.mem_map.mp he
  rw [h.objs x hx, h.testAt p hx, Option.map_some]

theorem Holds.filter {t : Table α} {l : List (ℕ × α)} (h : Holds t l) (p : α → Bool) :
    (l.map Prod.fst).filter (DeviceRundown.testAt t p) =
      (l.filter fun x => p x.2).map Prod.fst := by
  rw [List.filter_map]
  congr 1
  exact List.filter_congr fun x hx => h.testAt p hx

theorem Holds.filter_not {t : Table α} {l : List (ℕ × α)} (h : Holds t l) (p : α → Bool) :
    ((l.map Prod.fst).filter fun e => !DeviceRundown.testAt t p e) =
      (l.filter fun x => !p x.2).map Prod.fst := by
  rw [List.filter_map]
  congr 1
  exact List.filter_congr fun x hx => by rw [Function.comp_apply, h.testAt p hx]

theorem find?_congr_mem {p q : α → Bool} {l : List α} (h : ∀ x ∈ l, p x = q x) :
    l.find? p = l.find? q := by
  rw [← List.head?_filter, ← List.head?_filter, List.filter_congr h]

theorem findByHandle_spec {t : Table α} {l : List (ℕ × α)} {fuel : ℕ} (h : Holds t l)
    (hn : l.length < fuel) (handle : ℕ) : findByHandle fields fuel t handle =
      some ((l.find? fun x => fields.handle x.2 == handle).map Prod.fst) := by
  have hring : Ring t.links t.head ([] ++ l.map Prod.fst) := h.ring
  have hscan := scan_spec (n := fuel) hring
    (h.read fun o => fields.handle o == handle) (by simpa using hn)
  rw [← h.ring.flink_head] at hscan
  rw [findByHandle, hscan, List.find?_map]
  congr 2
  exact find?_congr_mem fun x hx => h.testAt _ hx

theorem tableInit_holds (head : ℕ) : Holds (tableInit head : Table α) [] :=
  ⟨initializeListHead_ring _ head, nofun, rfl⟩

theorem createInsert_holds {t : Table α} {l : List (ℕ × α)} {e : ℕ} (h : Holds t l)
    (he : e ∉ t.head :: l.map Prod.fst) (o : α) : Holds (createInsert t e o) (l ++ [(e, o)]) := by
  refine ⟨?_, fun x hx => ?_, by simp [createInsert, h.count]⟩
  · rw [List.map_append]
    exact h.ring.insertTailList he
  · rcases List.mem_append.mp hx with hx | hx
    · have hne : x.1 ≠ e := fun heq => he (List.mem_cons_of_mem _ (heq ▸ List.mem_map_of_mem hx))
      exact (Function.update_of_ne hne ..).trans (h.objs x hx)
    · obtain rfl := List.mem_singleton.mp hx
      exact Function.update_self ..

theorem takeByHandle_spec {t : Table α} {l : List (ℕ × α)} {fuel : ℕ} (h : Holds t l)
    (hn : l.length < fuel) (handle : ℕ) : ∃ t', takeByHandle fields fuel t handle =
      some ((l.find? fun x => fields.handle x.2 == handle).map Prod.fst, t') ∧
      Holds t' (l.eraseP fun x => fields.handle x.2 == handle) := by
  rw [takeByHandle, findByHandle_spec h hn]
  cases hf : l.find? fun x => fields.handle x.2 == handle with
  | none =>
    refine ⟨t, rfl, ?_⟩
    rw [List.eraseP_of_forall_not (by simpa using hf)]
    exact h
  | some x =>
    obtain ⟨hx, pre, post, rfl, hpre⟩ := List.find?_eq_some_iff_append.mp hf
    have herase : (pre ++ x :: post).eraseP (fun x => fields.handle x.2 == handle) =
        pre ++ post := by
      rw [List.eraseP_append_right _ (by simpa using hpre)]
      simp [hx]
    have hring := h.ring
    rw [List.map_append, List.map_cons] at hring
    refine ⟨_, rfl, ?_, ?_, ?_⟩
    · rw [herase, List.map_append]
      exact hring.removeEntryList
    · rw [herase]
      exact fun y hy => h.objs y (by simp at hy ⊢; tauto)
    · have hcount := h.count
      rw [herase]
      simp at hcount ⊢
      omega

theorem freeEntry_some {free : σ → α → σ} {objs : ℕ → Option α} {s : σ} {n e : ℕ} {o : α}
    (h : objs e = some o) : freeEntry free (n, objs, s) e =
      some (n + 1, Function.update objs e none, free s o) := by
  simp [freeEntry, h]

theorem foldlM_freeEntry (free : σ → α → σ) (s : σ) (n : ℕ) {objs : ℕ → Option α}
    {l : List (ℕ × α)} (hobjs : ∀ x ∈ l, objs x.1 = some x.2) (hnd : (l.map Prod.fst).Nodup) :
    ∃ objs', (l.map Prod.fst).foldlM (freeEntry free) (n, objs, s) =
      some (n + l.length, objs', (l.map Prod.snd).foldl free s) ∧
      ∀ e, e ∉ l.map Prod.fst → objs' e = objs e := by
  induction l generalizing n objs s with
  | nil => exact ⟨objs, rfl, fun _ _ => rfl⟩
  | cons x l ih =>
    obtain ⟨hx, hnd⟩ := List.nodup_cons.mp hnd
    have hrest : ∀ y ∈ l, Function.update objs x.1 none y.1 = some y.2 := by
      intro y hy
      have hne : y.1 ≠ x.1 := fun heq => hx (heq ▸ List.mem_map_of_mem hy)
      rw [Function.update_of_ne hne, hobjs y (List.mem_cons_of_mem x hy)]
    obtain ⟨objs', hfold, hkeep⟩ := ih (free s x.2) (n + 1) hrest hnd
    refine ⟨objs', ?_, fun e he => ?_⟩
    · rw [List.map_cons, List.foldlM_cons, freeEntry_some (hobjs x List.mem_cons_self)]
      simpa [Nat.add_comm, Nat.add_left_comm] using hfold
    · rw [List.map_cons, List.mem_cons, not_or] at he
      rw [hkeep e he.2, Function.update_of_ne he.1]

/-- The rundown of a table is the removal of the owner's entries from its list. -/
theorem rundownOwner_spec (fields : Fields α) (free : σ → α → σ) (s : σ) {t : Table α}
    {l : List (ℕ × α)} {fuel freeHead ownerDevice : ℕ} (h : Holds t l) (ha : Apart freeHead t l)
    (hn : l.length < fuel) (ho : ownerDevice ≠ 0) : ∃ t',
      rundownOwner fields free fuel freeHead t s ownerDevice =
        some ((l.filter (ownedBy fields ownerDevice)).length, t',
          ((l.filter (ownedBy fields ownerDevice)).map Prod.snd).foldl free s) ∧
      Holds t' (l.filter fun x => !ownedBy fields ownerDevice x) := by
  have hring : Ring _ _ ([] ++ l.map Prod.fst) := initializeListHead_frame h.ring ha
  have hstack := initializeListHead_ring t.links freeHead
  have hdis : (t.head :: ([] ++ l.map Prod.fst)).Disjoint [freeHead] := by
    simpa [Apart] using ha
  obtain ⟨m, hsift, hlive, hdead, hapart⟩ := sift_spec (n := fuel) hring hstack hdis
    (h.read fun o => fields.ownerDevice o == ownerDevice) (by simpa using hn)
  rw [List.nil_append, h.filter_not] at hlive
  rw [List.nil_append, h.filter] at hdead
  rw [List.nil_append, List.nil_append, h.filter_not, h.filter] at hapart
  rw [h.filter, ← (initializeListHead_frame h.ring ha).flink_head, List.length_map] at hsift
  have hobjs : ∀ x ∈ l.filter (ownedBy fields ownerDevice), t.objs x.1 = some x.2 := fun x hx =>
    h.objs x (List.mem_of_mem_filter hx)
  obtain ⟨objs', hfold, hkeep⟩ := foldlM_freeEntry free s 0 hobjs hdead.nodup.of_cons
  have hlen : ((l.filter (ownedBy fields ownerDevice)).map Prod.fst).length < fuel := by
    rw [List.length_map]
    exact (List.length_filter_le _ _).trans_lt hn
  obtain ⟨m', hdrain, -, hring'⟩ := drain_spec hdead hlive hapart hfold hlen
  refine ⟨{ t with
    links := m'
    objs := objs'
    count := t.count - (l.filter (ownedBy fields ownerDevice)).length }, ?_, hring', ?_, ?_⟩
  · rw [rundownOwner, if_neg ho]
    dsimp only
    rw [hsift, Option.bind_some]
    dsimp only
    rw [hdrain, Option.map_some, Nat.zero_add]
    rfl
  · intro x hx
    have hmem : x.1 ∈ (l.filter fun x => !ownedBy fields ownerDevice x).map Prod.fst :=
      List.mem_map_of_mem hx
    have hnot : x.1 ∉ (l.filter (ownedBy fields ownerDevice)).map Prod.fst := fun hd =>
      hapart (List.mem_cons_of_mem _ hd) (List.mem_cons_of_mem _ hmem)
    exact (hkeep _ hnot).trans (h.objs x (List.mem_of_mem_filter hx))
  · have hsum := List.length_eq_length_filter_add (l := l) (ownedBy fields ownerDevice)
    have hcount := h.count
    dsimp only
    omega

end Spec

section Slots

variable (a : Adapter) {i : ℕ}

theorem vmTeardown_slot (pt : VmPt) (hi : i < asSlotMax) :
    (vmTeardown a pt).2.inUse i = (a.inUse i && !decide (pt.asSlot = i)) ∧
      (vmTeardown a pt).2.asBindings i = if i = pt.asSlot then .zero else a.asBindings i := by
  have h32 : i < 32 := hi.trans (by decide)
  by_cases hs : pt.asSlot < asSlotMax
  · have hdrop : (vmTeardown a pt).2 = drop (if a.gpuRegsMapped then asDisable a pt.asSlot else a)
        pt.asSlot := by
      simp [vmTeardown, vmReleaseAs, hs, drop]
    have hdis : (if a.gpuRegsMapped then asDisable a pt.asSlot else a).inUse i = a.inUse i ∧
        (if a.gpuRegsMapped then asDisable a pt.asSlot else a).asBindings = a.asBindings := by
      cases hr : a.gpuRegsMapped <;> simp [asDisable, hr, Adapter.log, Adapter.inUse]
    rw [hdrop, inUse_drop _ _ _ h32, hdis.1]
    refine ⟨rfl, ?_⟩
    simp [drop, Adapter.release, Adapter.setBinding, Function.update_apply, hdis.2]
  · have hne : pt.asSlot ≠ i := fun heq => hs (heq ▸ hi)
    simp [vmTeardown, hs, hne, Ne.symm hne]

theorem vmFree_slots (vms : List Vm) (hi : i < asSlotMax) :
    ((vms.foldl vmFree a).inUse i = true ↔ a.inUse i = true ∧ ∀ vm ∈ vms, vm.pt.asSlot ≠ i) ∧
      (vms.foldl vmFree a).asBindings i =
        if ∃ vm ∈ vms, vm.pt.asSlot = i then .zero else a.asBindings i := by
  induction vms generalizing a with
  | nil => simp
  | cons vm vms ih =>
    obtain ⟨huse, hbind⟩ := vmTeardown_slot a vm.pt hi
    obtain ⟨ihuse, ihbind⟩ := ih (vmFree a vm)
    rw [List.foldl_cons, ihuse, ihbind, vmFree, huse, hbind]
    constructor
    · simp [and_assoc]
    · by_cases hrest : ∃ vm ∈ vms, vm.pt.asSlot = i
      · simp [hrest]
      · by_cases heq : vm.pt.asSlot = i
        · simp [heq]
        · simp [hrest, heq, Ne.symm heq]

end Slots

/-- What is left of a table: the entries of other owners in their order, with the right count,
and every handle that led to one of them still does. -/
structure Kept {α : Type} (fields : Fields α) (ownerDevice fuel : ℕ) (l : List (ℕ × α))
    (t t' : Table α) : Prop where
  holds : Holds t' (l.filter fun x => !ownedBy fields ownerDevice x)
  resolves : ∀ handle, ∀ x ∈ l, ownedBy fields ownerDevice x = false →
    findByHandle fields fuel t handle = some (some x.1) →
    findByHandle fields fuel t' handle = some (some x.1)

/-- The device is gone, and so is what it owned. -/
structure RunDown (s t : State) (fuel hDevice : ℕ) (groups : List (ℕ × Group))
    (bos : List (ℕ × Bo)) (syncObjs : List (ℕ × SyncObj)) (vms : List (ℕ × Vm)) : Prop where
  groupsKept : Kept groupFields hDevice fuel groups s.groupTable t.groupTable
  bosKept : Kept boFields hDevice fuel bos s.boTable t.boTable
  syncObjsKept : Kept syncObjFields hDevice fuel syncObjs s.syncObjTable t.syncObjTable
  vmsKept : Kept vmFields hDevice fuel vms s.vmTable t.vmTable
  released : ∀ i < asSlotMax, (∃ x ∈ vms, x.2.ownerDevice = hDevice ∧ x.2.pt.asSlot = i) →
    t.adapter.inUse i = false ∧ t.adapter.asBindings i = .zero
  leased : ∀ i < asSlotMax, (∀ x ∈ vms, x.2.ownerDevice = hDevice → x.2.pt.asSlot ≠ i) →
    t.adapter.inUse i = s.adapter.inUse i ∧ t.adapter.asBindings i = s.adapter.asBindings i

section Tables

variable {α : Type} {fields : Fields α} {ownerDevice fuel : ℕ} {l : List (ℕ × α)} {t t' : Table α}

theorem find?_filter_of_some {p q : ℕ × α → Bool} {x : ℕ × α} (hf : l.find? p = some x)
    (hq : q x = true) : (l.filter q).find? p = some x := by
  obtain ⟨hp, pre, post, rfl, hpre⟩ := List.find?_eq_some_iff_append.mp hf
  refine List.find?_eq_some_iff_append.mpr ⟨hp, pre.filter q, post.filter q, ?_, ?_⟩
  · rw [List.filter_append, List.filter_cons_of_pos hq]
  · exact fun y hy => hpre y (List.mem_of_mem_filter hy)

theorem Kept.of_holds (h : Holds t l)
    (h' : Holds t' (l.filter fun x => !ownedBy fields ownerDevice x)) (hn : l.length < fuel) :
    Kept fields ownerDevice fuel l t t' := by
  refine ⟨h', fun handle x hx hother hfind => ?_⟩
  rw [findByHandle_spec h hn] at hfind
  obtain ⟨y, hy, hyx⟩ := Option.map_eq_some_iff.mp (Option.some.inj hfind)
  -- the entry at the address is `x` itself
  have hobj := (h.objs y (List.mem_of_find?_eq_some hy)).symm.trans (hyx ▸ h.objs x hx)
  obtain rfl : y = x := Prod.ext hyx (Option.some.inj hobj)
  rw [findByHandle_spec h' ((List.length_filter_le _ _).trans_lt hn),
    find?_filter_of_some hy (by simp [hother]), Option.map_some]

end Tables

/-- The four tables hold these lists, and the stack of the caller lies outside. -/
structure WellFormed (s : State) (freeHead : ℕ) (groups : List (ℕ × Group))
    (bos : List (ℕ × Bo)) (syncObjs : List (ℕ × SyncObj)) (vms : List (ℕ × Vm)) : Prop where
  groups : Holds s.groupTable groups ∧ Apart freeHead s.groupTable groups
  bos : Holds s.boTable bos ∧ Apart freeHead s.boTable bos
  syncObjs : Holds s.syncObjTable syncObjs ∧ Apart freeHead s.syncObjTable syncObjs
  vms : Holds s.vmTable vms ∧ Apart freeHead s.vmTable vms

section Destroy

variable (s : State) (hDevice fuel freeHead : ℕ) (dev : KmdDevice) (groups : List (ℕ × Group))
  (bos : List (ℕ × Bo)) (syncObjs : List (ℕ × SyncObj)) (vms : List (ℕ × Vm))

/-- What the VMs of the device leave of the slots. -/
theorem slots_after {i : ℕ} (hi : i < asSlotMax) :
    let dead := (vms.filter (ownedBy vmFields hDevice)).map Prod.snd
    ((∃ x ∈ vms, x.2.ownerDevice = hDevice ∧ x.2.pt.asSlot = i) →
      (dead.foldl vmFree s.adapter).inUse i = false ∧
        (dead.foldl vmFree s.adapter).asBindings i = .zero) ∧
      ((∀ x ∈ vms, x.2.ownerDevice = hDevice → x.2.pt.asSlot ≠ i) →
        (dead.foldl vmFree s.adapter).inUse i = s.adapter.inUse i ∧
          (dead.foldl vmFree s.adapter).asBindings i = s.adapter.asBindings i) := by
  intro dead
  obtain ⟨huse, hbind⟩ := vmFree_slots s.adapter dead hi
  have hdead : (∃ vm ∈ dead, vm.pt.asSlot = i) ↔
      ∃ x ∈ vms, x.2.ownerDevice = hDevice ∧ x.2.pt.asSlot = i := by
    simp only [dead, List.mem_map, List.mem_filter, ownedBy, vmFields, beq_iff_eq]
    constructor
    · rintro ⟨vm, ⟨x, ⟨hmem, howner⟩, rfl⟩, hslot⟩
      exact ⟨x, hmem, howner, hslot⟩
    · rintro ⟨x, hmem, howner, hslot⟩
      exact ⟨x.2, ⟨x, ⟨hmem, howner⟩, rfl⟩, hslot⟩
  constructor
  · intro hx
    obtain ⟨vm, hvm, hslot⟩ := hdead.mpr hx
    refine ⟨Bool.eq_false_iff.mpr fun h => (huse.mp h).2 vm hvm hslot, ?_⟩
    rw [hbind, if_pos ⟨vm, hvm, hslot⟩]
  · intro hx
    have hnone : ∀ vm ∈ dead, vm.pt.asSlot ≠ i := by
      intro vm hvm hslot
      obtain ⟨x, hmem, howner, hxs⟩ := hdead.mp ⟨vm, hvm, hslot⟩
      exact hx x hmem howner hxs
    refine ⟨Bool.eq_iff_iff.mpr ?_, ?_⟩
    · rw [huse]
      exact and_iff_left hnone
    · rw [hbind, if_neg]
      rintro ⟨vm, hvm, hslot⟩
      exact hnone vm hvm hslot

/-- The rundowns end for any bound on their rounds above the lengths of the lists. -/
theorem destroyDevice_runs_down (hnull : hDevice ≠ 0) (hdev : s.devices hDevice = some dev)
    (hadapter : dev.adapter = true) (hw : WellFormed s freeHead groups bos syncObjs vms)
    (hfuel : groups.length < fuel ∧ bos.length < fuel ∧ syncObjs.length < fuel ∧
      vms.length < fuel) :
    ∃ t, destroyDevice fuel freeHead s hDevice = some (.success, t) ∧
      t.devices hDevice = none ∧ RunDown s t fuel hDevice groups bos syncObjs vms := by
  obtain ⟨hfg, hfb, hfs, hfv⟩ := hfuel
  obtain ⟨⟨hg, hga⟩, ⟨hb, hba⟩, ⟨hs, hsa⟩, ⟨hv, hva⟩⟩ := hw
  obtain ⟨g, hrg, hg'⟩ := rundownOwner_spec groupFields (fun _ _ => ()) () hg hga hfg hnull
  obtain ⟨b, hrb, hb'⟩ := rundownOwner_spec boFields (fun _ _ => ()) () hb hba hfb hnull
  obtain ⟨o, hro, ho'⟩ := rundownOwner_spec syncObjFields (fun _ _ => ()) () hs hsa hfs hnull
  obtain ⟨v, hrv, hv'⟩ := rundownOwner_spec vmFields vmFree s.adapter hv hva hfv hnull
  refine ⟨{ s with
    devices := Function.update s.devices hDevice none
    deviceCount := match dev.ownerProcess with
      | some p => Function.update s.deviceCount p (s.deviceCount p - 1)
      | none => s.deviceCount
    groupTable := g
    boTable := b
    syncObjTable := o
    vmTable := v
    adapter := ((vms.filter (ownedBy vmFields hDevice)).map Prod.snd).foldl vmFree s.adapter },
    ?_, ?_, ?_⟩
  · rw [destroyDevice, if_neg hnull, hdev]
    simp only [groupRundownOwner, boRundownOwner, syncObjRundownOwner, vmRundownOwner, hrg, hrb,
      hro, hrv, hadapter, if_true, Option.bind_some, Option.map_some]
  · exact Function.update_self ..
  · exact ⟨.of_holds hg hg' hfg, .of_holds hb hb' hfb, .of_holds hs ho' hfs, .of_holds hv hv' hfv,
      fun i hi => (slots_after s hDevice vms hi).1, fun i hi => (slots_after s hDevice vms hi).2⟩

end Destroy

/-- A VM of device 7 in slot 3 between two BOs of device 7 and one of device 9. -/
def twoDevices : State where
  devices := fun d => if d = 7 ∨ d = 9 then some ⟨true, none⟩ else none
  deviceCount := fun _ => 0
  groupTable := tableInit 10
  boTable := createInsert (createInsert (createInsert (tableInit 20)
    21 ⟨1, 4096, 0, 0, [5], false, none, some 7⟩)
    22 ⟨2, 4096, 0, 0, [6], false, none, some 9⟩)
    23 ⟨3, 4096, 0, 0, [7], false, none, some 7⟩
  syncObjTable := tableInit 30
  vmTable := createInsert (tableInit 40) 41
    ⟨1, 7, 0, fun _ => ⟨none, false⟩, ⟨some 1, [1], 3, fun _ _ => 0, 0, []⟩⟩
  adapter := ⟨0xFF, true, 0xFF, 0x0B, fun _ => .zero, []⟩

theorem twoDevices_run_down : ∃ t, destroyDevice 4 99 twoDevices 7 = some (.success, t) ∧
    t.devices 7 = none ∧ RunDown twoDevices t 4 7 []
      [(21, ⟨1, 4096, 0, 0, [5], false, none, some 7⟩),
        (22, ⟨2, 4096, 0, 0, [6], false, none, some 9⟩),
        (23, ⟨3, 4096, 0, 0, [7], false, none, some 7⟩)] []
      [(41, ⟨1, 7, 0, fun _ => ⟨none, false⟩, ⟨some 1, [1], 3, fun _ _ => 0, 0, []⟩⟩)] := by
  refine destroyDevice_runs_down _ _ _ _ ⟨true, none⟩ _ _ _ _ (by decide) rfl rfl ⟨?_, ?_, ?_, ?_⟩
    (by decide)
  · exact ⟨tableInit_holds 10, by simp [Apart, tableInit, twoDevices]⟩
  · refine ⟨createInsert_holds (createInsert_holds (createInsert_holds (tableInit_holds 20)
      ?_ _) ?_ _) ?_ _, ?_⟩ <;> simp [Apart, createInsert, tableInit, twoDevices]
  · exact ⟨tableInit_holds 30, by simp [Apart, tableInit, twoDevices]⟩
  · refine ⟨createInsert_holds (tableInit_holds 40) ?_ _, ?_⟩ <;>
      simp [Apart, createInsert, tableInit, twoDevices]

end WinMali.DeviceRundown
