import WinMaliKmd.FirmwareImage
import WinMaliKmd.VmPageTable

/-!
# The page table of the microcontroller

The tables that `WinMaliFw.c` builds for the firmware: all of them come from one block,
and a table is found again from the physical address in its descriptor. Above the
sections of the image a second allocator hands out ranges for the driver's own buffers.
-/

set_option autoImplicit false

namespace WinMali.McuPageTable
open WinMali.Lpae WinMali.RadixTree WinMali.VmPageTable WinMali.FirmwareImage

/-- The block for the tables: one page-aligned run of physical memory below `2^48`. -/
structure Pool where
  va : Word
  pa : Word
  bytes : ℕ
  aligned : pa.toNat % 4096 = 0
  below : pa.toNat + bytes ≤ 2 ^ 48

/-- Where the driver sees the page at a physical address. -/
def Pool.host (p : Pool) (pa : Word) : Word := p.va + (pa - p.pa)

def Pool.page (p : Pool) (i : ℕ) : Word := p.pa + BitVec.ofNat 64 (4096 * i)

/-- `mem` is the driver's memory, by the address of a page. -/
structure FwPt where
  pool : Pool
  ptUsed : ℕ
  rootHostVa : Option Word
  rootTablePa : Word
  mcuDynNextVa : Word
  mem : Word → Fin 512 → Word

def makeL3Pte (physPa attrs : Word) : Word := (physPa &&& paMask) ||| attrs

def ifaceEntryRdWr : Ulong := (1 : Ulong) <<< 1

def ifaceEntryRdEx : Ulong := (1 : Ulong) <<< 2

def sectionPteAttrs (sectionFlags : Ulong) : Word :=
  let writable := sectionFlags &&& ifaceEntryRdWr != 0
  let executable := sectionFlags &&& ifaceEntryRdEx != 0
  if writable && executable then pageAttrRwEx
  else if writable && !executable then pageAttrRwNx
  else if !writable && executable then pageAttrRoEx
  else pageAttrRoNx

def ptAllocPage (fw : FwPt) : Option (Word × Word) × FwPt :=
  if fw.ptUsed + 4096 > fw.pool.bytes then (none, fw)
  else
    let hostVa := fw.pool.va + BitVec.ofNat 64 fw.ptUsed
    (some (fw.pool.pa + BitVec.ofNat 64 fw.ptUsed, hostVa),
      { fw with mem := zeroPage fw.mem hostVa, ptUsed := fw.ptUsed + 4096 })

def ptEnsureChild (fw : FwPt) (parentTable : Word) (idx : Fin 512) :
    Option (Word × Word) × FwPt :=
  let ent := fw.mem parentTable idx
  if ent &&& 3 = 3 ∧ ent &&& paMask ≠ 0 then
    let childPa := ent &&& paMask
    (some (childPa, fw.pool.va + (childPa - fw.pool.pa)), fw)
  else ptAllocPage fw

def ptLevel (fw : FwPt) (t : Word) (idx : Fin 512) : Option Word × FwPt :=
  match ptEnsureChild fw t idx with
  | (none, fw) => (none, fw)
  | (some (childPa, childHost), fw) =>
    (some childHost,
      if fw.mem t idx = 0 then { fw with mem := write fw.mem t idx (childPa ||| 3) } else fw)

def ptLevels (mcuVa : Word) : List ℕ → FwPt → Word → Option Word × FwPt
  | [], fw, t => (some t, fw)
  | shift :: shifts, fw, t =>
    match ptLevel fw t (index mcuVa shift) with
    | (none, fw) => (none, fw)
    | (some child, fw) => ptLevels mcuVa shifts fw child

def levelShifts : List ℕ := (List.range 3).map fun level => 39 - 9 * level

def ptMap4k (fw : FwPt) (mcuVa physPa attrs : Word) : NtStatus × FwPt :=
  match fw.rootHostVa with
  | none => (.invalidParameter, fw)
  | some root =>
    match ptLevels mcuVa levelShifts fw root with
    | (none, fw) => (.insufficientResources, fw)
    | (some t, fw) =>
      (.success, { fw with mem := write fw.mem t (index mcuVa 12) (makeL3Pte physPa attrs) })

def mapPages (base pa attrs : Word) : ℕ → ℕ → FwPt → NtStatus × FwPt
  | _, 0, fw => (.success, fw)
  | i, left + 1, fw =>
    match ptMap4k fw (base + BitVec.ofNat 64 i * 4096) (pa + BitVec.ofNat 64 i * 4096) attrs with
    | (.success, fw) => mapPages base pa attrs (i + 1) left fw
    | (status, fw) => (status, fw)

def buildPtForSections : List FwSection → FwPt → NtStatus × FwPt
  | [], fw => (.success, fw)
  | s :: ss, fw =>
    match s.backingPa with
    | none => buildPtForSections ss fw
    | some pa =>
      if s.vaEnd ≤ s.vaStart then buildPtForSections ss fw
      else
        match mapPages (s.vaStart.setWidth 64) pa (sectionPteAttrs s.flags) 0
          ((s.vaEnd.toNat - s.vaStart.toNat + 4095) / 4096) fw with
        | (.success, fw) => buildPtForSections ss fw
        | (status, fw) => (status, fw)

def maxEnd (sections : List FwSection) : Word :=
  sections.foldl (fun m s => if s.vaEnd.setWidth 64 > m then s.vaEnd.setWidth 64 else m) 0

def initMcuDynVa (fw : FwPt) (sections : List FwSection) : FwPt :=
  let next := (maxEnd sections + 65535) &&& ~~~65535
  { fw with mcuDynNextVa := if next < maxEnd sections then maxEnd sections else next }

/-- The arguments of `McuMapContiguous_`; `hostVa` says that the pointer is not null. -/
structure MapCall where
  hostVa : Bool
  hostPa : Word
  bytes : Word
  align : Word
  attrs : Word

/-- `OutMcuVa` is the second result. -/
def mcuMapContiguous (fw : FwPt) (c : MapCall) : NtStatus × Word × FwPt :=
  if !c.hostVa ∨ c.bytes = 0 ∨ c.align < 4096 then (.invalidParameter, 0, fw)
  else
    let base := (fw.mcuDynNextVa + c.align - 1) &&& ~~~(c.align - 1)
    let pages := (c.bytes + 4095).toNat / 4096
    match mapPages base c.hostPa c.attrs 0 pages fw with
    | (.success, fw) =>
      (.success, base, { fw with mcuDynNextVa := base + BitVec.ofNat 64 pages * 4096 })
    | (status, fw) => (status, 0, fw)

/-- What `WinMaliFwInit` does with the new block before the sections are mapped. -/
def initRoot (pool : Pool) (mem : Word → Fin 512 → Word) : Option FwPt :=
  match ptAllocPage ⟨pool, 0, none, 0, 0, mem⟩ with
  | (none, _) => none
  | (some (rootTablePa, rootHostVa), fw) =>
    some { fw with rootTablePa := rootTablePa, rootHostVa := some rootHostVa }

/-- Calls one after the other, as long as they succeed, with the ranges they return. -/
def mapAll : List MapCall → FwPt → Option (List Word × FwPt)
  | [], fw => some ([], fw)
  | c :: cs, fw =>
    match mcuMapContiguous fw c with
    | (.success, base, fw) => (mapAll cs fw).map fun r => (base :: r.1, r.2)
    | _ => none

def FwPt.phys (fw : FwPt) : Word → Fin 512 → Word := fun pa => fw.mem (fw.pool.host pa)

/-- The hardware walk for the microcontroller, whose addresses have 48 bits. -/
def mcuWalk (fw : FwPt) (va : Word) : Option (Word × Word) :=
  if va.toNat < 2 ^ 48 then hwWalk fw.phys fw.rootTablePa va else none

end WinMali.McuPageTable
