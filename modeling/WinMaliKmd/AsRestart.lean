import WinMaliKmd.AsSlotsInvariant
import WinMaliKmd.VmTable

/-!
# Slots across device restarts

`StartDevice` and `StopDevice` reset the slot tables, while VMs stay in the VM
table until they are destroyed or the device is removed. Only the parts of a
start that reach the slots are kept: resources, registers, the allocator and
the bring-up address space.
-/

set_option autoImplicit false

namespace WinMali.AsRestart
open WinMali.AsSlots WinMali.AsSlotsInvariant WinMali.VmPageTable WinMali.VmTable WinMali.Runs

structure Device where
  adapter : Adapter
  vmTable : Table
  mmuAsBound : Bool

def Device.leases (d : Device) : List ℕ := d.vmTable.vms.map fun vm => vm.pt.asSlot

def Device.withVms (d : Device) (r : Adapter × Table) : Device :=
  { d with adapter := r.1, vmTable := r.2 }

@[simp] theorem leases_withVms (d : Device) (a : Adapter) (tab : Table) :
    (d.withVms (a, tab)).leases = tab.vms.map fun vm => vm.pt.asSlot := rfl

inductive BringupReply
  | noRegs
  | hwInitFailed
  | probed (asPresent : SlotMask.Mask)

structure StartReply where
  resources : Bool
  bringup : BringupReply
  heap : Bool
  rootPa : Word
  hw : NtStatus

def bringupHardware (a : Adapter) (r : BringupReply) : Bool × Adapter :=
  if a.gpuRegsMapped then (true, a)
  else
    match r with
    | .noRegs => (false, a)
    | .hwInitFailed => (false, { a with gpuRegsMapped := true })
    | .probed asPresent => (true, { a with gpuRegsMapped := true, hwAsPresent := asPresent })

/-- The entries that are bound at slots other than the two reserved ones, whoever owns them. -/
def releasedSlots (a : Adapter) : List ℕ :=
  (List.range asSlotMax).filter fun i => a.bound i && i != mcuAs && i != bringupAs

def mmuTeardown (d : Device) : Device :=
  let released := releasedSlots d.adapter
  let a := released.foldl drop d.adapter
  let a := if a.gpuRegsMapped then released.foldl asDisable a else a
  let a := if d.mmuAsBound && a.gpuRegsMapped then asDisable a bringupAs else a
  { d with adapter := a, mmuAsBound := false }

def mmuInit (d : Device) (r : StartReply) : Device :=
  let d := mmuTeardown d
  if !r.heap then d
  else
    let a := asDisable d.adapter bringupAs
    let (status, a) := asEnable a bringupAs r.rootPa r.hw
    let d := { d with adapter := a }
    if !status.ok then mmuTeardown d else { d with mmuAsBound := true }

def startDevice (d : Device) (r : StartReply) : Device :=
  if !r.resources then d
  else
    let (up, a) := bringupHardware d.adapter r.bringup
    if !up then { d with adapter := a }
    else
      let d := { d with adapter := initAsAllocator a }
      if d.adapter.gpuRegsMapped then mmuInit d r else d

def stopDevice (d : Device) : Device :=
  let d := mmuTeardown d
  { d with adapter := { d.adapter with gpuRegsMapped := false } }

/-- After `AddDevice`. -/
def added : Device := ⟨⟨0, false, 0, 0, fun _ => .zero, []⟩, ⟨[], 1⟩, false⟩

inductive Op
  | startDevice (r : StartReply)
  | stopDevice
  | vmCreate (r : VmRequest)
  | vmDestroy (id : ℕ)
  | bind (hContext : ℕ) (rootPtPa : Word) (hw : NtStatus)
  | unbind (hContext : ℕ)

def step (d : Device) : Op → Option Device
  | .startDevice r => some (startDevice d r)
  | .stopDevice => some (stopDevice d)
  | .vmCreate r => some (d.withVms (vmCreate d.adapter d.vmTable r).2)
  | .vmDestroy id => some (d.withVms (vmDestroy d.adapter d.vmTable id))
  | .bind h root hw => some { d with adapter := (bindContextRootPt d.adapter h root hw).2.2 }
  | .unbind h => some { d with adapter := (unbindContext d.adapter h).2 }

/-- A context holds the slot; the entry of a VM has a NULL handle. -/
def contextBound (a : Adapter) (i : ℕ) : Prop := a.bound i = true ∧ (a.asBindings i).hContext ≠ 0

def Exclusive (d : Device) : Prop :=
  d.leases.Nodup ∧ ∀ i ∈ d.leases, ¬contextBound d.adapter i

/-- The event disables or releases the slot. -/
def touches (i : ℕ) : AsEvent → Prop
  | .enable _ _ => False
  | .disable j => i = j
  | .release j => i = j
  | .reset => True

def newEvents (d t : Device) : List AsEvent :=
  t.adapter.asLog.take (t.adapter.asLog.length - d.adapter.asLog.length)

/-- A VM that is live before and after the step has its slot left alone; what a teardown
does to the slot of its own VM, the step ends that VM with. -/
def SlotSafe (d t : Device) : Prop :=
  ∀ vm ∈ d.vmTable.vms, vm ∈ t.vmTable.vms → ∀ e ∈ newEvents d t, ¬touches vm.pt.asSlot e

/-- No VM is live when the tables are reset, and no binding call finds the entry of a VM. -/
def guard (d : Device) : Op → Prop
  | .startDevice r =>
    r.resources = true → (bringupHardware d.adapter r.bringup).1 = true → d.vmTable.vms = []
  | .stopDevice => d.vmTable.vms = []
  | .vmCreate _ => True
  | .vmDestroy _ => True
  | .bind h root _ =>
    d.adapter.gpuRegsMapped = true → root &&& 0xFFF = 0 →
      findAsForContext d.adapter h < asSlotMax → findAsForContext d.adapter h ∉ d.leases
  | .unbind h =>
    findAsForContext d.adapter h < asSlotMax → findAsForContext d.adapter h ∉ d.leases

/-- Slot `i` has the same bit and entry in both adapters, and nothing touched it between. -/
structure Untouched (a a' : Adapter) (i : ℕ) : Prop where
  inUse : a'.inUse i = a.inUse i
  binding : a'.asBindings i = a.asBindings i
  quiet : ∃ es, a'.asLog = es ++ a.asLog ∧ ∀ e ∈ es, ¬touches i e

section Untouched

variable {a b c : Adapter} {i j : ℕ}

theorem Untouched.rfl : Untouched a a i := ⟨Eq.refl _, Eq.refl _, [], by simp, by simp⟩

theorem Untouched.trans (h : Untouched a b i) (h' : Untouched b c i) : Untouched a c i := by
  obtain ⟨es, hes, hq⟩ := h.quiet
  obtain ⟨es', hes', hq'⟩ := h'.quiet
  refine ⟨h'.inUse.trans h.inUse, h'.binding.trans h.binding, es' ++ es, ?_, ?_⟩
  · rw [hes', hes, List.append_assoc]
  · intro e he
    rcases List.mem_append.mp he with he | he
    · exact hq' e he
    · exact hq e he

theorem Untouched.bound (h : Untouched a b i) : b.bound i = a.bound i :=
  congrArg AsBinding.bound h.binding

theorem untouched_setBinding (a : Adapter) (hij : i ≠ j) (b : AsBinding) :
    Untouched a (a.setBinding j b) i :=
  ⟨Eq.refl _, by simp [Adapter.setBinding, hij], [], by simp [Adapter.setBinding], by simp⟩

theorem untouched_take (a : Adapter) (hi : i < 32) (hij : i ≠ j) : Untouched a (a.take j) i :=
  ⟨by simp [inUse_take a j i hi, Ne.symm hij], Eq.refl _, [], by simp [Adapter.take], by simp⟩

theorem untouched_log (a : Adapter) {e : AsEvent} (he : ¬touches i e) : Untouched a (a.log e) i :=
  ⟨Eq.refl _, Eq.refl _, [e], by simp [Adapter.log], by simpa using he⟩

theorem untouched_drop (a : Adapter) (hi : i < 32) (hij : i ≠ j) : Untouched a (drop a j) i :=
  ⟨by simp [inUse_drop a j i hi, Ne.symm hij],
    by simp [drop, Adapter.setBinding, Adapter.release, hij],
    [.release j], by simp [drop, Adapter.setBinding, Adapter.release], by simpa [touches] using hij⟩

theorem untouched_enter (a : Adapter) (hij : i ≠ j) (h : ℕ) (root : Word) :
    Untouched a (enter a j h root) i :=
  (untouched_setBinding a hij _).trans (untouched_log _ (by simp [touches]))

theorem untouched_lease (a : Adapter) (hi : i < 32) (hij : i ≠ j) (root : Word) :
    Untouched a (lease a j root) i :=
  ((untouched_take a hi hij).trans (untouched_setBinding _ hij _)).trans
    (untouched_log _ (by simp [touches]))

theorem untouched_unbind (a : Adapter) (h : ℕ) (hi : i < 32)
    (hf : findAsForContext a h < asSlotMax → i ≠ findAsForContext a h) :
    Untouched a (unbindContext a h).2 i := by
  rcases unbind_cases a h with ⟨-, heq⟩ | ⟨hlt, heq | heq⟩ <;> rw [heq]
  · exact .rfl
  · exact untouched_drop a hi (hf hlt)
  · exact (untouched_drop a hi (hf hlt)).trans (untouched_log _ (hf hlt))

theorem untouched_bind (a : Adapter) (h : ℕ) (root : Word) (hw : NtStatus) (hi : i < 32)
    (hf : a.gpuRegsMapped = true → root &&& 0xFFF = 0 → findAsForContext a h < asSlotMax →
      i ≠ findAsForContext a h)
    (hp : pickFreeAs a < asSlotMax → i ≠ pickFreeAs a) :
    Untouched a (bindContextRootPt a h root hw).2.2 i := by
  generalize hr : (bindContextRootPt a h root hw).2.2 = r
  have O := bind_cases a h root hw
  rw [hr] at O
  cases O with
  | refused => exact .rfl
  | unbound regs zero => exact untouched_unbind a h hi (hf regs (by rw [zero]; decide))
  | rebound regs nonzero aligned found ok => exact untouched_enter a (hf regs aligned found) h root
  | rebindFailed regs nonzero aligned found failed =>
    have hne := hf regs aligned found
    exact (untouched_enter a hne h root).trans (untouched_setBinding _ hne _)
  | bound fresh free ok =>
    exact (untouched_take a hi (hp free)).trans (untouched_enter _ (hp free) h root)
  | bindFailed fresh free =>
    exact ((untouched_take a hi (hp free)).trans (untouched_enter _ (hp free) h root)).trans
      (untouched_drop _ hi (hp free))

end Untouched

/-- The slots 0 and 1 are not handed out. -/
def Reserved (a : Adapter) : Prop :=
  ∀ i, i < 2 → a.bound i = false ∧ (a.present i = true → a.inUse i = true)

/-- A live VM has its own slot, marked used, with the tag of a VM in its entry. -/
structure Owner (a : Adapter) (i : ℕ) : Prop where
  low : 2 ≤ i
  high : i < asSlotMax
  used : a.inUse i = true
  tagged : (a.asBindings i).hContext = 0

structure Inv (d : Device) : Prop where
  nodup : d.leases.Nodup
  owner : ∀ i ∈ d.leases, Owner d.adapter i
  reserved : Reserved d.adapter

theorem Inv.exclusive {d : Device} (I : Inv d) : Exclusive d :=
  ⟨I.nodup, fun i hi hc => hc.2 (I.owner i hi).tagged⟩

theorem Owner.keep {a a' : Adapter} {i : ℕ} (O : Owner a i) (u : Untouched a a' i) : Owner a' i :=
  ⟨O.low, O.high, u.inUse.trans O.used, by rw [u.binding]; exact O.tagged⟩

theorem Reserved.keep {a a' : Adapter} (R : Reserved a)
    (hp : ∀ i, i < 2 → a'.present i = a.present i)
    (u : ∀ i, i < 2 → Untouched a a' i) : Reserved a' := by
  intro i hi
  rw [hp i hi, (u i hi).bound, (u i hi).inUse]
  exact R i hi

theorem find_ge {a : Adapter} (R : Reserved a) (h : ℕ) (hf : findAsForContext a h < asSlotMax) :
    2 ≤ findAsForContext a h := by
  by_contra hlt
  have := (R _ (by omega : findAsForContext a h < 2)).1
  rw [find_bound _ _ hf] at this
  cases this

theorem pick_ge {a : Adapter} (R : Reserved a) (hf : pickFreeAs a < asSlotMax) :
    2 ≤ pickFreeAs a := by
  by_contra hlt
  obtain ⟨hpres, hfree⟩ := pick_free a hf
  have := (R _ (by omega : pickFreeAs a < 2)).2 hpres
  rw [hfree] at this
  cases this

/-- A used slot is not the one that a search for a free slot finds. -/
theorem pick_ne {a : Adapter} {i : ℕ} (hu : a.inUse i = true) (hf : pickFreeAs a < asSlotMax) :
    i ≠ pickFreeAs a := by
  rintro rfl
  rw [(pick_free a hf).2] at hu
  cases hu

theorem newEvents_eq {d t : Device} {es : List AsEvent}
    (h : t.adapter.asLog = es ++ d.adapter.asLog) : newEvents d t = es := by
  rw [newEvents, h, List.length_append, Nat.add_sub_cancel]
  exact List.take_left

theorem slotSafe_of_untouched {d t : Device}
    (h : ∀ vm ∈ d.vmTable.vms, vm ∈ t.vmTable.vms →
      Untouched d.adapter t.adapter vm.pt.asSlot) : SlotSafe d t := by
  intro vm hd ht e he
  obtain ⟨es, hes, hq⟩ := (h vm hd ht).quiet
  rw [newEvents_eq hes] at he
  exact hq e he

theorem bind_present (a : Adapter) (h : ℕ) (root : Word) (hw : NtStatus) (i : ℕ) :
    (bindContextRootPt a h root hw).2.2.present i = a.present i := by
  generalize hr : (bindContextRootPt a h root hw).2.2 = r
  have O := bind_cases a h root hw
  rw [hr] at O
  cases O with
  | unbound => rcases unbind_cases a h with ⟨-, heq⟩ | ⟨-, heq | heq⟩ <;> rw [heq] <;> rfl
  | _ => rfl

/-- A step that leaves the VM table alone and the slots of all VMs untouched. -/
theorem step_untouched {d : Device} {a' : Adapter} (I : Inv d)
    (hp : ∀ i, i < 2 → a'.present i = d.adapter.present i)
    (hr : ∀ i, i < 2 → Untouched d.adapter a' i)
    (hv : ∀ i ∈ d.leases, Untouched d.adapter a' i) :
    Inv { d with adapter := a' } ∧ SlotSafe d { d with adapter := a' } := by
  refine ⟨⟨I.nodup, fun i hi => (I.owner i hi).keep (hv i hi), I.reserved.keep hp hr⟩, ?_⟩
  exact slotSafe_of_untouched fun vm hd _ => hv _ (List.mem_map.mpr ⟨vm, hd, rfl⟩)

theorem step_unbind {d : Device} (I : Inv d) (h : ℕ) (hg : guard d (.unbind h)) :
    Inv { d with adapter := (unbindContext d.adapter h).2 } ∧
      SlotSafe d { d with adapter := (unbindContext d.adapter h).2 } := by
  refine step_untouched I ?_ ?_ ?_
  · intro i _
    rcases unbind_cases d.adapter h with ⟨-, heq⟩ | ⟨-, heq | heq⟩ <;> rw [heq] <;> rfl
  · intro i hi
    refine untouched_unbind _ h (by omega) fun hf => ?_
    have := find_ge I.reserved h hf
    omega
  · intro i hi
    have := (I.owner i hi).high
    refine untouched_unbind _ h (by unfold asSlotMax at this; omega) fun hf => ?_
    rintro rfl
    exact hg hf hi

theorem step_bind {d : Device} (I : Inv d) (h : ℕ) (root : Word) (hw : NtStatus)
    (hg : guard d (.bind h root hw)) :
    Inv { d with adapter := (bindContextRootPt d.adapter h root hw).2.2 } ∧
      SlotSafe d { d with adapter := (bindContextRootPt d.adapter h root hw).2.2 } := by
  refine step_untouched I (fun i _ => bind_present d.adapter h root hw i) ?_ ?_
  · intro i hi
    refine untouched_bind _ h root hw (by omega) (fun _ _ hf => ?_) (fun hf => ?_)
    · have := find_ge I.reserved h hf
      omega
    · have := pick_ge I.reserved hf
      omega
  · intro i hi
    have O := I.owner i hi
    have := O.high
    refine untouched_bind _ h root hw (by unfold asSlotMax at this; omega) ?_
      (fun hf => pick_ne O.used hf)
    rintro hregs hal hf rfl
    exact hg hregs hal hf hi

/-- A new VM comes with a slot that was free, or the table is as before. -/
theorem vmCreate_cases (a : Adapter) (tab : Table) (r : VmRequest) :
    (vmCreate a tab r).2 = (a, tab) ∨
      pickFreeAs a < asSlotMax ∧ ((∃ root, (vmCreate a tab r).2 =
          (drop (lease a (pickFreeAs a) root) (pickFreeAs a), tab)) ∨
        ∃ root vm, vm.pt.asSlot = pickFreeAs a ∧ (vmCreate a tab r).2 =
          ((lease a (pickFreeAs a) root).setBinding (pickFreeAs a) ⟨0, root, true⟩,
            ⟨tab.vms ++ [vm], tab.nextId + 1⟩)) := by
  unfold vmCreate
  cases r.pool with
  | false => exact .inl rfl
  | true =>
    simp only [Bool.not_true, Bool.false_eq_true, if_false]
    generalize hr : vmInit r.supply a r.mem r.hw = v
    have O := vmInit_cases r.supply a r.mem r.hw
    rw [hr] at O
    cases O with
    | refused st pt failed =>
      left
      simp [NtStatus.ok_eq_false failed]
    | enableFailed st pt root failed free =>
      right
      exact ⟨free, .inl ⟨root, by simp [NtStatus.ok_eq_false failed]⟩⟩
    | leased pt root free slot =>
      right
      simp only [NtStatus.ok_success, Bool.not_true, Bool.false_eq_true, if_false]
      exact ⟨free, .inr ⟨root, _, (csfMapIntoVm_asSlot ..).trans slot, rfl⟩⟩

theorem step_vmCreate {d : Device} (I : Inv d) (r : VmRequest) :
    Inv (d.withVms (vmCreate d.adapter d.vmTable r).2) ∧
      SlotSafe d (d.withVms (vmCreate d.adapter d.vmTable r).2) := by
  have hlow : ∀ i, i < 2 → pickFreeAs d.adapter < asSlotMax → i ≠ pickFreeAs d.adapter := by
    intro i hi hf
    have := pick_ge I.reserved hf
    omega
  have h32 : ∀ i ∈ d.leases, i < 32 := by
    intro i hi
    have := (I.owner i hi).high
    unfold asSlotMax at this
    omega
  have hne : ∀ i ∈ d.leases, pickFreeAs d.adapter < asSlotMax → i ≠ pickFreeAs d.adapter :=
    fun i hi hf => pick_ne (I.owner i hi).used hf
  rcases vmCreate_cases d.adapter d.vmTable r with
    heq | ⟨hf, ⟨root, heq⟩ | ⟨root, vm, hvm, heq⟩⟩ <;>
    rw [heq]
  · exact ⟨I, slotSafe_of_untouched fun _ _ _ => .rfl⟩
  · refine step_untouched I (fun _ _ => rfl) (fun i hi => ?_) (fun i hi => ?_)
    · exact (untouched_lease _ (by omega) (hlow i hi hf) root).trans
        (untouched_drop _ (by omega) (hlow i hi hf))
    · exact (untouched_lease _ (h32 i hi) (hne i hi hf) root).trans
        (untouched_drop _ (h32 i hi) (hne i hi hf))
  · have hkeep : ∀ i, i < 32 → i ≠ pickFreeAs d.adapter → Untouched d.adapter
        ((lease d.adapter (pickFreeAs d.adapter) root).setBinding (pickFreeAs d.adapter)
          ⟨0, root, true⟩) i :=
      fun i hi hip => (untouched_lease _ hi hip root).trans (untouched_setBinding _ hip _)
    have hleases : (d.vmTable.vms ++ [vm]).map (fun vm => vm.pt.asSlot) =
        d.leases ++ [pickFreeAs d.adapter] := by simp [Device.leases, hvm]
    refine ⟨⟨?_, ?_, ?_⟩, ?_⟩
    · rw [leases_withVms, hleases]
      refine List.nodup_append.mpr ⟨I.nodup, by simp, ?_⟩
      intro i hi j hj
      rw [List.mem_singleton.mp hj]
      exact hne i hi hf
    · intro i hi
      rw [leases_withVms, hleases] at hi
      rcases List.mem_append.mp hi with hi | hi
      · exact (I.owner i hi).keep (hkeep i (h32 i hi) (hne i hi hf))
      · obtain rfl := List.mem_singleton.mp hi
        refine ⟨pick_ge I.reserved hf, hf, ?_, by simp [Device.withVms, Adapter.setBinding]⟩
        change (d.adapter.take (pickFreeAs d.adapter)).inUse (pickFreeAs d.adapter) = true
        rw [inUse_take _ _ _ (by unfold asSlotMax at hf; omega)]
        simp
    · exact I.reserved.keep (fun _ _ => rfl) fun i hi => hkeep i (by omega) (hlow i hi hf)
    · refine slotSafe_of_untouched fun v hv _ => ?_
      have hi : v.pt.asSlot ∈ d.leases := List.mem_map.mpr ⟨v, hv, rfl⟩
      exact hkeep _ (h32 _ hi) (hne _ hi hf)

theorem takeById_spec {tab tab' : Table} {id : ℕ} {vm : Vm}
    (h : vmTakeById tab id = some (vm, tab')) :
    ∃ l₁ l₂, tab.vms = l₁ ++ vm :: l₂ ∧ tab'.vms = l₁ ++ l₂ := by
  unfold vmTakeById at h
  obtain ⟨v, hv, heq⟩ := Option.map_eq_some_iff.mp h
  obtain ⟨rfl, rfl⟩ := Prod.mk.inj heq
  obtain ⟨hid, l₁, l₂, hl, hnot⟩ := List.find?_eq_some_iff_append.mp hv
  refine ⟨l₁, l₂, hl, ?_⟩
  have hskip : ∀ b ∈ l₁, ¬(b.id == id) = true := fun b hb => by simpa using hnot b hb
  simp only [hl, List.eraseP_append_right _ hskip]
  rw [List.eraseP_cons]
  simp only [hid, cond_true]

theorem step_vmDestroy {d : Device} (I : Inv d) (id : ℕ) :
    Inv (d.withVms (vmDestroy d.adapter d.vmTable id)) ∧
      SlotSafe d (d.withVms (vmDestroy d.adapter d.vmTable id)) := by
  unfold vmDestroy
  cases ht : vmTakeById d.vmTable id with
  | none => exact ⟨I, slotSafe_of_untouched fun _ _ _ => .rfl⟩
  | some p =>
    obtain ⟨vm, tab'⟩ := p
    obtain ⟨l₁, l₂, hl, hl'⟩ := takeById_spec ht
    have hleases : d.leases = l₁.map (fun v => v.pt.asSlot) ++
        vm.pt.asSlot :: l₂.map (fun v => v.pt.asSlot) := by simp [Device.leases, hl]
    have hown : Owner d.adapter vm.pt.asSlot := I.owner _ (by simp [hleases])
    have hnd := I.nodup
    rw [hleases, List.nodup_middle, List.nodup_cons, ← List.map_append] at hnd
    -- the VMs that stay have other slots
    have hkeep : ∀ i, i < 32 → i ≠ vm.pt.asSlot → Untouched d.adapter (vmFree d.adapter vm) i := by
      intro i hi hne
      rcases vmTeardown_cases d.adapter vm.pt hown.high with heq | heq <;> rw [vmFree, heq]
      · exact untouched_drop _ hi hne
      · exact (untouched_log _ (e := .disable vm.pt.asSlot) hne).trans (untouched_drop _ hi hne)
    have hstay : ∀ i ∈ (l₁ ++ l₂).map (fun v => v.pt.asSlot),
        i ∈ d.leases ∧ i < 32 ∧ i ≠ vm.pt.asSlot := by
      intro i hi
      have hmem : i ∈ d.leases := by
        rw [hleases]
        simp only [List.map_append, List.mem_append] at hi
        simp only [List.mem_append, List.mem_cons]
        exact hi.imp_right .inr
      have := (I.owner i hmem).high
      exact ⟨hmem, by unfold asSlotMax at this; omega, fun hiv => hnd.1 (hiv ▸ hi)⟩
    refine ⟨⟨?_, ?_, ?_⟩, ?_⟩
    · rw [leases_withVms, hl']
      exact hnd.2
    · intro i hi
      rw [leases_withVms, hl'] at hi
      obtain ⟨hmem, hi32, hne⟩ := hstay i hi
      exact (I.owner i hmem).keep (hkeep i hi32 hne)
    · refine I.reserved.keep (fun i _ => ?_) fun i hi => hkeep i (by omega) (by
        have := hown.low
        omega)
      change (vmTeardown d.adapter vm.pt).2.present i = _
      rcases vmTeardown_cases d.adapter vm.pt hown.high with heq | heq <;> rw [heq] <;> rfl
    · refine slotSafe_of_untouched fun v _ hv => ?_
      obtain ⟨-, hi32, hne⟩ := hstay v.pt.asSlot (List.mem_map.mpr ⟨v, hl' ▸ hv, rfl⟩)
      exact hkeep _ hi32 hne

/-- Resetting the slots 2 and up leaves the reserved ones alone. -/
theorem reserved_drops {a : Adapter} (l : List ℕ) (hl : ∀ i ∈ l, 2 ≤ i) (R : Reserved a) :
    Reserved (l.foldl drop a) := by
  induction l generalizing a with
  | nil => exact R
  | cons j l ih =>
    refine ih (fun i hi => hl i (by simp [hi])) (R.keep (fun _ _ => rfl) fun i hi => ?_)
    have := hl j (by simp)
    exact untouched_drop a (by omega) (by omega)

theorem reserved_disable {a : Adapter} (i : ℕ) (R : Reserved a) : Reserved (asDisable a i) := by
  unfold asDisable
  split
  · exact R
  · exact R

theorem reserved_disables {a : Adapter} (l : List ℕ) (R : Reserved a) :
    Reserved (l.foldl asDisable a) := by
  induction l generalizing a with
  | nil => exact R
  | cons j l ih => exact ih (reserved_disable j R)

theorem reserved_mmuTeardown {d : Device} (R : Reserved d.adapter) :
    Reserved (mmuTeardown d).adapter := by
  have hge : ∀ i ∈ releasedSlots d.adapter, 2 ≤ i := by
    intro i hi
    simp only [releasedSlots, mcuAs, bringupAs, List.mem_filter, Bool.and_eq_true, bne_iff_ne] at hi
    omega
  have h1 := reserved_drops _ hge R
  unfold mmuTeardown
  dsimp only
  split <;> split
  · exact reserved_disable _ (reserved_disables _ h1)
  · exact reserved_disables _ h1
  · exact reserved_disable _ h1
  · exact h1

theorem reserved_init (a : Adapter) : Reserved (initAsAllocator a) := by
  intro i hi
  refine ⟨rfl, fun _ => ?_⟩
  rw [init_inUse a i (by omega)]
  have : i = 0 ∨ i = 1 := by omega
  rcases this with rfl | rfl <;> rfl

theorem reserved_mmuInit {d : Device} (r : StartReply) (R : Reserved d.adapter) :
    Reserved (mmuInit d r).adapter := by
  have h1 := reserved_mmuTeardown R
  unfold mmuInit
  dsimp only
  split
  · exact h1
  have h2 : Reserved
      (asEnable (asDisable (mmuTeardown d).adapter bringupAs) bringupAs r.rootPa r.hw).2 :=
    reserved_disable _ h1
  split
  · exact reserved_mmuTeardown h2
  · exact h2

theorem mmuInit_vms (d : Device) (r : StartReply) : (mmuInit d r).vmTable = d.vmTable := by
  unfold mmuInit
  dsimp only
  split
  · rfl
  · split <;> rfl

theorem startDevice_vms (d : Device) (r : StartReply) :
    (startDevice d r).vmTable = d.vmTable := by
  unfold startDevice
  split
  · rfl
  dsimp only
  split
  · rfl
  split
  · exact mmuInit_vms _ r
  · rfl

theorem bringup_tables (a : Adapter) (r : BringupReply) :
    (bringupHardware a r).2.asSlotInUseMask = a.asSlotInUseMask ∧
      (bringupHardware a r).2.asSlotPresentMask = a.asSlotPresentMask ∧
      (bringupHardware a r).2.asBindings = a.asBindings ∧
      (bringupHardware a r).2.asLog = a.asLog := by
  unfold bringupHardware
  split
  · exact ⟨rfl, rfl, rfl, rfl⟩
  · cases r <;> exact ⟨rfl, rfl, rfl, rfl⟩

theorem bringup_untouched (a : Adapter) (r : BringupReply) (i : ℕ) :
    Untouched a (bringupHardware a r).2 i := by
  obtain ⟨hu, -, hb, hl⟩ := bringup_tables a r
  exact ⟨by rw [Adapter.inUse, hu, Adapter.inUse], congrFun hb i, [], by simpa using hl, by simp⟩

/-- Without live VMs only the reserved slots matter. -/
theorem step_noVms {d t : Device} (ht : t.vmTable.vms = []) (R : Reserved t.adapter) :
    Inv t ∧ SlotSafe d t := by
  refine ⟨⟨by simp [Device.leases, ht], by simp [Device.leases, ht], R⟩, ?_⟩
  intro vm _ hvm
  simp [ht] at hvm

theorem step_start {d : Device} (I : Inv d) (r : StartReply)
    (hg : guard d (.startDevice r)) :
    Inv (startDevice d r) ∧ SlotSafe d (startDevice d r) := by
  cases hres : r.resources with
  | false =>
    simp only [startDevice, hres, Bool.not_false, if_true]
    exact ⟨I, slotSafe_of_untouched fun _ _ _ => .rfl⟩
  | true =>
    have hu := bringup_untouched d.adapter r.bringup
    have hp := (bringup_tables d.adapter r.bringup).2.1
    cases hup : (bringupHardware d.adapter r.bringup).1 with
    | false =>
      simp only [startDevice, hres, hup, Bool.not_true, Bool.not_false, Bool.false_eq_true,
        if_false, if_true]
      exact step_untouched I (fun i _ => by rw [Adapter.present, hp, Adapter.present])
        (fun i _ => hu i) (fun i _ => hu i)
    | true =>
      refine step_noVms (by rw [startDevice_vms]; exact hg hres hup) ?_
      simp only [startDevice, hres, hup, Bool.not_true, Bool.false_eq_true, if_false]
      split
      · exact reserved_mmuInit r (reserved_init _)
      · exact reserved_init _

theorem step_stop {d : Device} (I : Inv d) (hg : guard d .stopDevice) :
    Inv (stopDevice d) ∧ SlotSafe d (stopDevice d) :=
  step_noVms hg (reserved_mmuTeardown I.reserved)

/-- What one call preserves when it meets the guard. -/
theorem step_inv {d t : Device} (op : Op) (I : Inv d) (hg : guard d op)
    (h : step d op = some t) : Inv t ∧ SlotSafe d t := by
  cases op with
  | startDevice r => exact Option.some.inj h ▸ step_start I r hg
  | stopDevice => exact Option.some.inj h ▸ step_stop I hg
  | vmCreate r => exact Option.some.inj h ▸ step_vmCreate I r
  | vmDestroy id => exact Option.some.inj h ▸ step_vmDestroy I id
  | bind h' root hw => exact Option.some.inj h ▸ step_bind I h' root hw hg
  | unbind h' => exact Option.some.inj h ▸ step_unbind I h' hg

theorem added_inv : Inv added := by
  refine ⟨by simp [added, Device.leases], by simp [added, Device.leases], ?_⟩
  intro i _
  refine ⟨rfl, ?_⟩
  simp [added, Adapter.present, SlotMask.hasBit]

/-- When the slot tables are reset only while no VM is live, and no binding call finds the
entry of a VM, the owners of the slots stay apart over every run. -/
theorem slots_exclusive (ops : List Op) (hg : Guarded step guard added ops) :
    Always step (fun d _ t => Exclusive t ∧ SlotSafe d t) added ops := by
  refine always_of_guarded (fun d op t I hop h => (step_inv op I hop h).1) ?_ added_inv hg
  intro d op t I hop h
  obtain ⟨I', hsafe⟩ := step_inv op I hop h
  exact ⟨I'.exclusive, hsafe⟩

def eightSlots : StartReply := ⟨true, .probed 0xFF, true, 0x1000, .success⟩

def plainVm : VmRequest :=
  ⟨0, 1, true, fun k => ⟨some (BitVec.ofNat 64 (4096 * (k + 1))), true⟩, fun _ _ => 0, .success,
    none⟩

/-- The VM that outlives a stop and start shares its slot with the next one. -/
theorem restart_shares_slot : ∃ t,
    exec step added [.startDevice eightSlots, .vmCreate plainVm, .stopDevice,
      .startDevice eightSlots, .vmCreate plainVm] = some t ∧ ¬Exclusive t := by
  refine ⟨_, rfl, ?_⟩
  intro h
  exact absurd h.1 (by decide)

/-- A VM that is destroyed before the stop leaves nothing behind. -/
theorem restart_after_destroy :
    Always step (fun d _ t => Exclusive t ∧ SlotSafe d t) added
      [.startDevice eightSlots, .vmCreate plainVm, .vmDestroy 1, .stopDevice,
        .startDevice eightSlots, .vmCreate plainVm] := by
  refine slots_exclusive _ ?_
  rintro t ⟨⟩
  refine ⟨fun _ _ => rfl, ?_⟩
  rintro t ⟨⟩
  refine ⟨trivial, ?_⟩
  rintro t ⟨⟩
  refine ⟨trivial, ?_⟩
  rintro t ⟨⟩
  refine ⟨rfl, ?_⟩
  rintro t ⟨⟩
  refine ⟨fun _ _ => rfl, ?_⟩
  rintro t ⟨⟩
  exact ⟨trivial, trivial⟩

end WinMali.AsRestart
