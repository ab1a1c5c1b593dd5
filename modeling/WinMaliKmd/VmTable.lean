import WinMaliKmd.VmPageTable

/-!
# The VM table

`WinMaliVm.c` with the cross mapping of the command stream pages that a new VM
gets. A VM carries the replies that the page allocator will give it.
-/

set_option autoImplicit false

namespace WinMali.VmTable
open WinMali.AsSlots WinMali.Lpae WinMali.VmPageTable

def sysmemGpuBase : Word := 0x10000000

def defaultUserVaRange : Word := 0x30000000

structure Vm where
  id : ℕ
  ownerDevice : ℕ
  kmdVaNext : Word
  supply : ℕ → PtReply
  pt : VmPt

structure Table where
  vms : List Vm
  nextId : ℕ

/-- Physical addresses of the ring, sync and shader pages once the firmware runs. -/
structure CsfPages where
  ringPa : Word
  syncPa : Word
  shaderPa : Word

def csfRingGpuVa : Word := 0x410000

def csfShaderGpuVa : Word := 0x420000

def csfSyncGpuVa : Word := 0x421000

def csfRingBytes : ℕ := 64 * 1024

def csfMapIntoVm (supply : ℕ → PtReply) (a : Adapter) (csf : Option CsfPages) (pt : VmPt) :
    NtStatus × VmPt :=
  match csf with
  | none => (.deviceNotReady, pt)
  | some c =>
    let ringPfns := fun i => (c.ringPa >>> 12) + BitVec.ofNat 64 i
    let (st, pt) := vmMap supply (some a) pt csfRingGpuVa (some ringPfns) (csfRingBytes / 4096)
      pageAttrRwNx
    if !st.ok then (st, pt)
    else
      let (st, pt) := vmMap supply (some a) pt csfSyncGpuVa (some fun _ => c.syncPa >>> 12) 1
        pageAttrRwNx
      if !st.ok then (st, pt)
      else
        let (st, pt) := vmMap supply (some a) pt csfShaderGpuVa
          (some fun _ => c.shaderPa >>> 12) 1 pageAttrRwEx
        if !st.ok then (st, pt) else (.success, pt)

structure VmRequest where
  userVaRange : Word
  ownerDevice : ℕ
  pool : Bool
  supply : ℕ → PtReply
  mem : Word → Fin 512 → Word
  hw : NtStatus
  csf : Option CsfPages

def grantedRange (userVaRange : Word) : Word :=
  let granted := if userVaRange ≠ 0 then userVaRange else defaultUserVaRange
  if granted > defaultUserVaRange then defaultUserVaRange else granted

/-- A refusal leaves the table alone; the adapter may have seen a slot come and go. -/
def vmCreate (a : Adapter) (tab : Table) (r : VmRequest) : Option ℕ × Adapter × Table :=
  if !r.pool then (none, a, tab)
  else
    let (st, pt, a) := vmInit r.supply a r.mem r.hw
    if !st.ok then (none, a, tab)
    else
      let (_, pt) := csfMapIntoVm r.supply a r.csf pt
      let vm : Vm :=
        { id := tab.nextId % 2 ^ 32
          ownerDevice := r.ownerDevice
          kmdVaNext := (sysmemGpuBase + grantedRange r.userVaRange + 0xFFFF) &&& ~~~0xFFFF
          supply := r.supply
          pt := pt }
      (some vm.id, a, { vms := tab.vms ++ [vm], nextId := tab.nextId + 1 })

def vmFree (a : Adapter) (vm : Vm) : Adapter := (vmTeardown a vm.pt).2

/-- The VM with that id leaves the table first; its slot is torn down after. -/
def vmTakeById (tab : Table) (id : ℕ) : Option (Vm × Table) :=
  (tab.vms.find? fun vm => vm.id == id).map fun vm =>
    (vm, { tab with vms := tab.vms.eraseP fun vm => vm.id == id })

def vmDestroy (a : Adapter) (tab : Table) (id : ℕ) : Adapter × Table :=
  match vmTakeById tab id with
  | none => (a, tab)
  | some (vm, tab) => (vmFree a vm, tab)

theorem asFlushMem_asSlot (pt : VmPt) : (asFlushMem pt).asSlot = pt.asSlot := rfl

section Slot

variable (supply : ℕ → PtReply)

theorem ptAllocPage_asSlot (pt : VmPt) : (ptAllocPage supply pt).2.asSlot = pt.asSlot := by
  unfold ptAllocPage
  dsimp only
  split
  · rfl
  · split <;> rfl

theorem ptDescend_asSlot (pt : VmPt) (l : Word) (i : Fin 512) :
    (ptDescend supply pt l i).2.asSlot = pt.asSlot := by
  have h := ptAllocPage_asSlot supply pt
  unfold ptDescend
  dsimp only
  split
  · split <;> rfl
  · split <;> rename_i heq <;> rw [heq] at h <;> exact h

theorem ptWalkToLeaf_asSlot (pt : VmPt) (l0 va : Word) :
    (ptWalkToLeaf supply pt l0 va).2.asSlot = pt.asSlot := by
  unfold ptWalkToLeaf
  have h0 := ptDescend_asSlot supply pt l0 (index va 39)
  generalize ptDescend supply pt l0 (index va 39) = r0 at h0 ⊢
  rcases r0 with ⟨_ | l1, pt1⟩
  · exact h0
  have h1 := ptDescend_asSlot supply pt1 l1 (index va 30)
  dsimp only
  generalize ptDescend supply pt1 l1 (index va 30) = r1 at h1 ⊢
  rcases r1 with ⟨_ | l2, pt2⟩
  · exact h1.trans h0
  exact (ptDescend_asSlot supply pt2 l2 (index va 21)).trans (h1.trans h0)

theorem vmMapLoop_asSlot (l0 gpuVa : Word) (pfns : ℕ → Word) (attrs : Word) (i left : ℕ)
    (pt : VmPt) : (vmMapLoop supply l0 gpuVa pfns attrs i left pt).2.asSlot = pt.asSlot := by
  induction left generalizing i pt with
  | zero => rfl
  | succ left ih =>
    have h := ptWalkToLeaf_asSlot supply pt l0 (pageVa gpuVa i)
    unfold vmMapLoop
    dsimp only
    generalize ptWalkToLeaf supply pt l0 (pageVa gpuVa i) = r at h ⊢
    rcases r with ⟨_ | l3, pt1⟩
    · exact h
    · exact (ih (i + 1) _).trans h

theorem vmMap_asSlot (adapter : Option Adapter) (pt : VmPt) (gpuVa : Word)
    (pfns : Option (ℕ → Word)) (count : ℕ) (attrs : Word) :
    (vmMap supply adapter pt gpuVa pfns count attrs).2.asSlot = pt.asSlot := by
  unfold vmMap
  split
  · rename_i l0 f _
    have h := vmMapLoop_asSlot supply l0 gpuVa f attrs 0 count pt
    split
    · rfl
    split
    · rfl
    · dsimp only
      split
      · exact (asFlushMem_asSlot _).trans h
      · exact h
  · rfl

theorem csfMapIntoVm_asSlot (a : Adapter) (csf : Option CsfPages) (pt : VmPt) :
    (csfMapIntoVm supply a csf pt).2.asSlot = pt.asSlot := by
  unfold csfMapIntoVm
  cases csf with
  | none => rfl
  | some c =>
    dsimp only
    split
    · exact vmMap_asSlot ..
    split
    · exact (vmMap_asSlot ..).trans (vmMap_asSlot ..)
    split <;> exact (vmMap_asSlot ..).trans ((vmMap_asSlot ..).trans (vmMap_asSlot ..))

end Slot

end WinMali.VmTable
