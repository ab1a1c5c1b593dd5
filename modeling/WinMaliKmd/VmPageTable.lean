import WinMaliKmd.AsSlots
import WinMaliKmd.RadixTree

/-!
# Per-VM page tables

`WinMaliMmuVmInit`, `VmMap`, `VmUnmap` and `VmTeardown` over raw page memory. A
table page is named by its physical address; the CPU address that the driver
keeps beside it is the same page. Both allocations behind a table page are
replies of the environment, and memory starts with any contents.
-/

set_option autoImplicit false

namespace WinMali.VmPageTable
open WinMali.AsSlots WinMali.Lpae WinMali.RadixTree

structure PtReply where
  contiguous : Option Word
  pool : Bool

/-- A leaf write with the frame and attributes it stores, or a flush of a slot. The
driver keeps no such trace; it is what the refinement is stated about. -/
inductive Event
  | leaf (page : ℕ) (value : Option (Word × Word))
  | flush (slot : ℕ)

structure VmPt where
  rootVa : Option Word
  allocatedPages : List Word
  asSlot : ℕ
  mem : Word → Fin 512 → Word
  calls : ℕ
  trace : List Event

def index (va : Word) (shift : ℕ) : Fin 512 := Fin.ofNat 512 ((va >>> shift) &&& 0x1FF).toNat

def pageOf (va : Word) : ℕ := va.toNat / 4096 % 2 ^ 36

def zeroPage (mem : Word → Fin 512 → Word) (pa : Word) : Word → Fin 512 → Word :=
  fun n i => if n = pa then 0 else mem n i

def setLeaf (pt : VmPt) (l3 va w : Word) (value : Option (Word × Word)) : VmPt :=
  { pt with
    mem := write pt.mem l3 (index va 12) w
    trace := .leaf (pageOf va) value :: pt.trace }

def asFlushMem (pt : VmPt) : VmPt := { pt with trace := .flush pt.asSlot :: pt.trace }

section Supply

variable (supply : ℕ → PtReply)

def ptAllocPage (pt : VmPt) : Option Word × VmPt :=
  let reply := supply pt.calls
  let pt := { pt with calls := pt.calls + 1 }
  match reply.contiguous with
  | none => (none, pt)
  | some pa =>
    let pt := { pt with mem := zeroPage pt.mem pa }
    if reply.pool then (some pa, pt) else (none, pt)

/-- `l[i]` is the parent entry. -/
def ptDescend (pt : VmPt) (l : Word) (i : Fin 512) : Except NtStatus Word × VmPt :=
  let ent := pt.mem l i
  if ent &&& 3 = tableDesc then
    match pt.allocatedPages.find? (fun pa => pa == ent &&& paMask) with
    | some pa => (.ok pa, pt)
    | none => (.error .invalidDeviceState, pt)
  else
    match ptAllocPage supply pt with
    | (none, pt) => (.error .insufficientResources, pt)
    | (some pa, pt) =>
      (.ok pa, { pt with
        allocatedPages := pt.allocatedPages ++ [pa]
        mem := write pt.mem l i ((pa &&& paMask) ||| tableDesc) })

def ptWalkToLeaf (pt : VmPt) (l0 gpuVa : Word) : Except NtStatus Word × VmPt :=
  match ptDescend supply pt l0 (index gpuVa 39) with
  | (.error st, pt) => (.error st, pt)
  | (.ok l1, pt) =>
    match ptDescend supply pt l1 (index gpuVa 30) with
    | (.error st, pt) => (.error st, pt)
    | (.ok l2, pt) => ptDescend supply pt l2 (index gpuVa 21)

def pageVa (gpuVa : Word) (i : ℕ) : Word := gpuVa + BitVec.ofNat 64 i * 4096

def vmMapLoop (l0 gpuVa : Word) (pfns : ℕ → Word) (attrs : Word) :
    ℕ → ℕ → VmPt → NtStatus × VmPt
  | _, 0, pt => (.success, pt)
  | i, left + 1, pt =>
    let va := pageVa gpuVa i
    let pa := pfns i <<< 12
    match ptWalkToLeaf supply pt l0 va with
    | (.error st, pt) => (st, pt)
    | (.ok l3, pt) =>
      vmMapLoop l0 gpuVa pfns attrs (i + 1) left
        (setLeaf pt l3 va ((pa &&& paMask) ||| attrs) (some (pa, attrs)))

def vmUnmapLoop (l0 gpuVa : Word) : ℕ → ℕ → VmPt → VmPt
  | _, 0, pt => pt
  | i, left + 1, pt =>
    let va := pageVa gpuVa i
    match ptWalkToLeaf supply pt l0 va with
    | (.error _, pt) => vmUnmapLoop l0 gpuVa (i + 1) left pt
    | (.ok l3, pt) => vmUnmapLoop l0 gpuVa (i + 1) left (setLeaf pt l3 va 0 none)

/-- `none` is a NULL `Adapter` or a NULL `Pfns`. -/
def vmMap (adapter : Option Adapter) (pt : VmPt) (gpuVa : Word) (pfns : Option (ℕ → Word))
    (pageCount : ℕ) (attrs : Word) : NtStatus × VmPt :=
  match adapter, pt.rootVa, pfns with
  | some a, some l0, some pfns =>
    if pageCount = 0 then (.success, pt)
    else if gpuVa &&& 0xFFF ≠ 0 then (.invalidParameter, pt)
    else
      let (st, pt) := vmMapLoop supply l0 gpuVa pfns attrs 0 pageCount pt
      (st, if st.ok && a.gpuRegsMapped && decide (pt.asSlot < asSlotMax)
        then asFlushMem pt else pt)
  | _, _, _ => (.invalidParameter, pt)

def vmUnmap (adapter : Option Adapter) (pt : VmPt) (gpuVa : Word) (pageCount : ℕ) :
    NtStatus × VmPt :=
  match adapter, pt.rootVa with
  | some a, some l0 =>
    if gpuVa &&& 0xFFF ≠ 0 then (.invalidParameter, pt)
    else if pageCount = 0 then (.success, pt)
    else
      let pt := vmUnmapLoop supply l0 gpuVa 0 pageCount pt
      (.success, if a.gpuRegsMapped && decide (pt.asSlot < asSlotMax) then asFlushMem pt else pt)
  | _, _ => (.invalidParameter, pt)

/-- `mem` is what physical memory holds; `hw` is the reply of the AS enable. -/
def vmInit (a : Adapter) (mem : Word → Fin 512 → Word) (hw : NtStatus) :
    NtStatus × VmPt × Adapter :=
  let pt : VmPt := ⟨none, [], asSlotMax, mem, 0, []⟩
  if !a.gpuRegsMapped then (.deviceNotReady, pt, a)
  else
    match ptAllocPage supply pt with
    | (none, pt) => (.insufficientResources, pt, a)
    | (some root, pt) =>
      let (as, a) := vmPickAs a
      if as ≥ asSlotMax then (.insufficientResources, pt, a)
      else
        let (status, a) := asEnable a as root hw
        if !status.ok then (status, pt, vmReleaseAs a as)
        else
          (.success, { pt with rootVa := some root, allocatedPages := [root], asSlot := as },
            a.setBinding as { a.asBindings as with rootPtPa := root })

end Supply

def vmTeardown (a : Adapter) (pt : VmPt) : VmPt × Adapter :=
  let a := if pt.asSlot < asSlotMax && a.gpuRegsMapped then asDisable a pt.asSlot else a
  let a := if pt.asSlot < asSlotMax then vmReleaseAs a pt.asSlot else a
  ({ pt with rootVa := none, allocatedPages := [], asSlot := asSlotMax }, a)

/-- The hardware walk: three table levels, then the page descriptor. -/
def hwWalk (mem : Word → Fin 512 → Word) (root va : Word) : Option (Word × Word) :=
  (next (mem root (index va 39))).bind fun l1 =>
    (next (mem l1 (index va 30))).bind fun l2 =>
      (next (mem l2 (index va 21))).bind fun l3 => leafOf (mem l3 (index va 12))

def lastLeaf : List Event → ℕ → Option (Word × Word)
  | [], _ => none
  | .leaf p value::rest, page => if page = p then value else lastLeaf rest page
  | .flush _::rest, page => lastLeaf rest page

end WinMali.VmPageTable
