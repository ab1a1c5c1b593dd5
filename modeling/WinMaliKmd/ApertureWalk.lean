import WinMaliKmd.ApertureAtomic
import WinMaliKmd.ForLoops
import WinMaliKmd.VmPageTableMap

/-!
# The tables of the bring-up slot, in raw memory

`WinMaliMmuInit` builds the tables of address space 1 by hand: three static levels in the
scratch heap, with one leaf table there and a flat block of leaf tables for the aperture.
`ResolveL3Slot_` computes where the leaf of an address is without a look at the tables;
the hardware finds it by its walk.
-/

set_option autoImplicit false

namespace WinMali.ApertureWalk
open WinMali.AsSlots WinMali.Lpae WinMali.VmPageTable WinMali.VmTable
open WinMali.ApertureRoots WinMali.ApertureAtomic WinMali.ForLoops WinMali.VmPageTableMap

def scratchHeapBytes : ℕ := 256 * 1024

def apertureL3Count : ℕ := windowBytes >>> 21

def apertureL3Bytes : ℕ := apertureL3Count <<< 12

/-- A page-aligned run of physical memory below `2^48`. -/
structure Placed (pa : Word) (bytes : ℕ) : Prop where
  aligned : pa.toNat % 4096 = 0
  below : pa.toNat + bytes ≤ 2 ^ 48

/-- The answers that `MmuInit` gets: contiguous blocks, each at its physical address, and the
status of the AS enable. -/
structure Replies where
  scratch : Option Word
  dma : ℕ → Option Word
  aperture : Option Word
  asEnable : NtStatus
  scratch_placed : ∀ pa ∈ scratch, Placed pa scratchHeapBytes
  aperture_placed : ∀ pa ∈ aperture, Placed pa apertureL3Bytes
  apart : ∀ pa ∈ scratch, ∀ pa' ∈ aperture,
    pa.toNat + scratchHeapBytes ≤ pa'.toNat ∨ pa'.toNat + apertureL3Bytes ≤ pa.toNat

/-- `mem a` is the word at physical address `a`. A block is named by its physical address,
`none` for a null pointer; `transtab` is the root that the registers of address space 1 hold. -/
structure Mmu where
  gpuRegsMapped : Bool
  mmuFeatures : BitVec 32
  mem : ℕ → Word
  transtab : Option Word
  mmuScratchHeap : Option Word
  dmaSegment : Option (Word × ℕ)
  apertureL3 : Option Word
  gpuMmuAsBound : Bool
  gpuMmuBringupAs : ℕ

def asDisable (m : Mmu) (as : ℕ) : Mmu :=
  if m.gpuRegsMapped ∧ as = bringupAs then { m with transtab := none } else m

def mmuTeardown (m : Mmu) : Mmu :=
  let m := if m.gpuMmuAsBound && m.gpuRegsMapped then asDisable m m.gpuMmuBringupAs else m
  { m with
    gpuMmuAsBound := false
    apertureL3 := none
    mmuScratchHeap := none
    dmaSegment := none }

/-- `RtlFillMemory` with 0. -/
def fill (mem : ℕ → Word) (pa : Word) (bytes : ℕ) : ℕ → Word :=
  fun a => if pa.toNat ≤ a ∧ a < pa.toNat + bytes then 0 else mem a

/-- The table of the level 2 entry where the aperture starts. -/
def apertureL2Idx : ℕ := ((sysmemGpuBase >>> 21) &&& 0x1FF).toNat

/-- The loop that links the leaf tables of the aperture. -/
def wireAperture (l2 : ℕ) (aperPa : Word) : ℕ → (ℕ → Word) → ℕ → Word
  | 0, mem => mem
  | t + 1, mem => Function.update (wireAperture l2 aperPa t mem) (l2 + 8 * (apertureL2Idx + t))
      ((aperPa + (BitVec.ofNat 64 t <<< 12)) ||| 3)

/-- The stores of `MmuInit` once it has its blocks. -/
def wire (rootPa aperPa : Word) (mem : ℕ → Word) : ℕ → Word :=
  let base := rootPa.toNat
  let l1pa := rootPa + 4096
  let l2pa := rootPa + 8192
  let l3pa := rootPa + 12288
  let dataPa := rootPa + 16384
  let mem := Function.update mem (base + 16384)
    ((mem (base + 16384) &&& 0xFFFFFFFF00000000) ||| 0xA5A5A5A5)
  let mem := Function.update mem base (l1pa ||| 3)
  let mem := Function.update mem (base + 4096) (l2pa ||| 3)
  let mem := Function.update mem (base + 8192 + 8 * 2) (l3pa ||| 3)
  let mem := Function.update mem (base + 12288) (makeL3PagePte dataPa pageAttrRwNx)
  wireAperture (base + 8192) aperPa apertureL3Count mem

/-- The whole window, or half of it up to three times over. -/
def dmaBlock (r : Replies) : Option (Word × ℕ) :=
  [0, 1, 2, 3].findSome? fun k => (r.dma k).map fun pa => (pa, windowBytes >>> k)

def mmuInit (r : Replies) (m : Mmu) : NtStatus × Mmu :=
  if !m.gpuRegsMapped then (.deviceNotReady, m)
  else
    let m := mmuTeardown m
    match r.scratch with
    | none => (.insufficientResources, m)
    | some rootPa =>
      let m := { m with mem := fill m.mem rootPa scratchHeapBytes }
      match dmaBlock r with
      | none => (.insufficientResources, m)
      | some (dmaPa, dmaBytes) =>
        let m := { m with mem := fill m.mem dmaPa dmaBytes }
        match r.aperture with
        | none => (.insufficientResources, m)
        | some aperPa =>
          let m := asDisable
            { m with
              mem := wire rootPa aperPa (fill m.mem aperPa apertureL3Bytes)
              mmuScratchHeap := some rootPa
              dmaSegment := some (dmaPa, dmaBytes)
              apertureL3 := some aperPa } bringupAs
          if !r.asEnable.ok then (r.asEnable, mmuTeardown m)
          else
            (.success, { m with
              transtab := some rootPa
              gpuMmuAsBound := true
              gpuMmuBringupAs := bringupAs })

/-- A slot is the physical address of an entry. -/
def resolveL3Slot (m : Mmu) (gpuVa : Word) : Option ℕ :=
  if mmuTestGpuVa ≤ gpuVa ∧ gpuVa < mmuTestGpuVa + 0x200000 then
    m.mmuScratchHeap.map fun heap =>
      heap.toNat + 12288 + 8 * (((gpuVa - mmuTestGpuVa) >>> 12).setWidth 32).toNat
  else
    m.apertureL3.bind fun aper =>
      if sysmemGpuBase ≤ gpuVa ∧ gpuVa < sysmemGpuBase + BitVec.ofNat 64 windowBytes then
        let off := gpuVa - sysmemGpuBase
        some (aper.toNat + ((off >>> 21) <<< 12).toNat +
          8 * (((off >>> 12) &&& 0x1FF).setWidth 32).toNat)
      else none

def setPtesLoop (gpuVaStart : Word) (pte : ℕ → Word) : ℕ → ℕ → Mmu → NtStatus × Mmu
  | _, 0, m => (.success, m)
  | i, left + 1, m =>
    match resolveL3Slot m (pageVa gpuVaStart i) with
    | none => (.invalidParameter, m)
    | some slot =>
      setPtesLoop gpuVaStart pte (i + 1) left { m with mem := Function.update m.mem slot (pte i) }

def setPtes (m : Mmu) (r : Request) : NtStatus × Mmu :=
  if m.mmuScratchHeap = none ∨ m.gpuMmuAsBound = false then (.deviceNotReady, m)
  else if r.pageCount = 0 ∨ r.pageCount > windowBytes / 4096 then (.invalidParameter, m)
  else if r.gpuVaStart &&& 0xfff ≠ 0 ∨ r.firstPagePa &&& 0xfff ≠ 0 then (.invalidParameter, m)
  else setPtesLoop r.gpuVaStart r.pte 0 r.pageCount m

def mapGpuRange (m : Mmu) (gpuVaStart firstPagePa : Word) (pageCount : ℕ) (attrs : Word) :
    NtStatus × Mmu :=
  if attrs = 0 then (.invalidParameter, m)
  else setPtes m ⟨gpuVaStart, none, firstPagePa, pageCount, attrs⟩

def mapGpuPfnRange (m : Mmu) (gpuVaStart : Word) (pfns : Option (ℕ → Word)) (pageCount : ℕ)
    (attrs : Word) : NtStatus × Mmu :=
  if pfns = none ∨ attrs = 0 then (.invalidParameter, m)
  else setPtes m ⟨gpuVaStart, pfns, 0, pageCount, attrs⟩

def unmapGpuRange (m : Mmu) (gpuVaStart : Word) (pageCount : ℕ) : NtStatus × Mmu :=
  setPtes m ⟨gpuVaStart, none, 0, pageCount, 0⟩

def call (m : Mmu) : Call → NtStatus × Mmu
  | .mapGpuRange gpuVaStart firstPagePa pageCount attrs =>
    mapGpuRange m gpuVaStart firstPagePa pageCount attrs
  | .mapGpuPfnRange gpuVaStart pfns pageCount attrs =>
    mapGpuPfnRange m gpuVaStart pfns pageCount attrs
  | .unmapGpuRange gpuVaStart pageCount => unmapGpuRange m gpuVaStart pageCount

/-- Calls one after the other, all of them successful. -/
def calls : List Call → Mmu → Option Mmu
  | [], m => some m
  | c::cs, m => if (call m c).1 = .success then calls cs (call m c).2 else none

/-- The input range that the AS is configured for. -/
def vaBits (m : Mmu) : ℕ :=
  let bits := (m.mmuFeatures &&& 0xFF).toNat
  if bits < 32 ∨ bits > 48 then 48 else bits

/-- The tables as the hardware reads them: page by page, by the physical address. -/
def tables (mem : ℕ → Word) (page : Word) (i : Fin 512) : Word := mem (page.toNat + 8 * i)

/-- The leaf entry that the walk from a root ends at. -/
def walkSlot (mem : ℕ → Word) (root va : Word) : Option ℕ :=
  (next (tables mem root (index va 39))).bind fun l1 =>
    (next (tables mem l1 (index va 30))).bind fun l2 =>
      (next (tables mem l2 (index va 21))).map fun l3 => l3.toNat + 8 * index va 12

/-- The walk of address space 1: the root is what the registers hold. -/
def as1Slot (m : Mmu) (va : Word) : Option ℕ :=
  m.transtab.bind fun root => if va.toNat < 2 ^ vaBits m then walkSlot m.mem root va else none

def as1Walk (m : Mmu) (va : Word) : Option (Word × Word) :=
  m.transtab.bind fun root =>
    if va.toNat < 2 ^ vaBits m then hwWalk (tables m.mem) root va else none

/-- The two windows, as page numbers. -/
def Window (p : ℕ) : Prop := (0x400 ≤ p ∧ p < 0x600) ∨ (0x10000 ≤ p ∧ p < 0x18000)

instance (p : ℕ) : Decidable (Window p) := inferInstanceAs (Decidable (_ ∨ _))

def pageNo (va : Word) : ℕ := va.toNat / 4096

/-- The leaf entry of a page: an index into one flat table for each window. -/
def slotAt (heap aper : Word) (p : ℕ) : ℕ :=
  if p < 0x10000 then heap.toNat + 12288 + 8 * (p - 0x400) else aper.toNat + 8 * (p - 0x10000)

theorem resolve_eq {m : Mmu} {heap aper va : Word} (hheap : m.mmuScratchHeap = some heap)
    (haper : m.apertureL3 = some aper) : resolveL3Slot m va =
      if Window (pageNo va) then some (slotAt heap aper (pageNo va)) else none := by
  unfold resolveL3Slot
  rw [hheap, haper]
  simp only [test_window, aperture_window, Option.map_some, Option.bind_some]
  change _ = if Window (va.toNat / 4096) then some (slotAt heap aper (va.toNat / 4096)) else none
  split
  case isTrue h =>
    rw [if_pos (.inl h), BitVec.toNat_setWidth, test_index h.1]
    refine congrArg some ?_
    unfold slotAt
    rw [if_pos (by omega)]
    omega
  case isFalse h =>
    split
    case isTrue h' =>
      rw [if_pos (.inr h'), BitVec.toNat_setWidth, BitVec.toNat_shiftLeft, aperture_table h'.1,
        aperture_entry h'.1, Nat.shiftLeft_eq]
      refine congrArg some ?_
      unfold slotAt
      rw [if_neg (by omega)]
      omega
    case isFalse h' =>
      have hout : ¬Window (va.toNat / 4096) := not_or.mpr ⟨h, h'⟩
      rw [if_neg hout]

section Wiring

variable {l2 : ℕ} {aper : Word} {mem : ℕ → Word} {n : ℕ}

theorem scratchHeapBytes_eq : scratchHeapBytes = 262144 := by decide

theorem apertureL3Bytes_eq : apertureL3Bytes = 262144 := by decide

theorem apertureL2Idx_eq : apertureL2Idx = 128 := by decide

theorem wireAperture_at {t : ℕ} (ht : t < n) :
    wireAperture l2 aper n mem (l2 + 8 * (128 + t)) =
      (aper + (BitVec.ofNat 64 t <<< 12)) ||| 3 := by
  induction n with
  | zero => omega
  | succ n ih =>
    rw [wireAperture, apertureL2Idx_eq]
    obtain rfl | hne := eq_or_ne t n
    · rw [Function.update_self]
    · rw [Function.update_of_ne (by omega), ih (by omega)]

theorem wireAperture_other {a : ℕ} (h : ∀ t < n, a ≠ l2 + 8 * (128 + t)) :
    wireAperture l2 aper n mem a = mem a := by
  induction n with
  | zero => rfl
  | succ n ih =>
    rw [wireAperture, apertureL2Idx_eq, Function.update_of_ne (h n (by omega)),
      ih fun t ht => h t (by omega)]

end Wiring

/-- The tables as `MmuInit` has wired them: above the leaves nothing but the way to them. -/
structure Wired (m : Mmu) (heap aper : Word) : Prop where
  scratch : m.mmuScratchHeap = some heap
  aperture : m.apertureL3 = some aper
  bound : m.gpuMmuAsBound = true
  transtab : m.transtab = some heap
  heapPlaced : Placed heap scratchHeapBytes
  aperPlaced : Placed aper apertureL3Bytes
  apart : heap.toNat + scratchHeapBytes ≤ aper.toNat ∨ aper.toNat + apertureL3Bytes ≤ heap.toNat
  l0 : ∀ i < 512, m.mem (heap.toNat + 8 * i) = if i = 0 then (heap + 4096) ||| 3 else 0
  l1 : ∀ i < 512, m.mem (heap.toNat + 4096 + 8 * i) = if i = 0 then (heap + 8192) ||| 3 else 0
  l2 : ∀ i < 512, m.mem (heap.toNat + 8192 + 8 * i) =
    if i = 2 then (heap + 12288) ||| 3
    else if 128 ≤ i ∧ i < 192 then (aper + (BitVec.ofNat 64 (i - 128) <<< 12)) ||| 3
    else 0

section Init

variable {r : Replies} {m : Mmu}

theorem asDisable_frame (m : Mmu) (as : ℕ) :
    asDisable m as = { m with transtab := (asDisable m as).transtab } := by
  unfold asDisable
  split <;> rfl

theorem mmuTeardown_frame (m : Mmu) : mmuTeardown m = { m with
    transtab := (mmuTeardown m).transtab
    gpuMmuAsBound := false
    apertureL3 := none
    mmuScratchHeap := none
    dmaSegment := none } := by
  unfold mmuTeardown
  split
  · rw [asDisable_frame]
  · rfl

theorem init_success (h : (mmuInit r m).1 = .success) : ∃ heap aper dmaPa dmaBytes,
    r.scratch = some heap ∧ r.aperture = some aper ∧ (mmuInit r m).2 = { m with
      mem := wire heap aper (fill (fill (fill m.mem heap scratchHeapBytes) dmaPa dmaBytes) aper
        apertureL3Bytes)
      transtab := some heap
      mmuScratchHeap := some heap
      dmaSegment := some (dmaPa, dmaBytes)
      apertureL3 := some aper
      gpuMmuAsBound := true
      gpuMmuBringupAs := bringupAs } := by
  unfold mmuInit at h ⊢
  split at h
  · cases h
  rename_i hregs
  rw [if_neg hregs]
  cases hscratch : r.scratch with
  | none =>
    rw [hscratch] at h
    cases h
  | some heap =>
    cases hdma : dmaBlock r with
    | none =>
      simp only [hscratch, hdma] at h
      cases h
    | some dma =>
      cases haper : r.aperture with
      | none =>
        simp only [hscratch, hdma, haper] at h
        cases h
      | some aper =>
        simp only [hscratch, hdma, haper] at h
        split at h
        case isTrue hno =>
          change r.asEnable = .success at h
          rw [h] at hno
          cases hno
        case isFalse hok =>
          refine ⟨heap, aper, dma.1, dma.2, rfl, rfl, ?_⟩
          simp only [if_neg hok]
          rw [asDisable_frame, mmuTeardown_frame]

theorem wire_apply {heap aper : Word} {mem : ℕ → Word} {a : ℕ}
    (h : ∀ t < 64, a ≠ heap.toNat + 8192 + 8 * (128 + t)) : wire heap aper mem a =
      if a = heap.toNat + 12288 then makeL3PagePte (heap + 16384) pageAttrRwNx
      else if a = heap.toNat + 8192 + 16 then (heap + 12288) ||| 3
      else if a = heap.toNat + 4096 then (heap + 8192) ||| 3
      else if a = heap.toNat then (heap + 4096) ||| 3
      else if a = heap.toNat + 16384 then
        (mem (heap.toNat + 16384) &&& 0xFFFFFFFF00000000) ||| 0xA5A5A5A5
      else mem a := by
  have hcount : apertureL3Count = 64 := by decide
  unfold wire
  rw [wireAperture_other (by rwa [hcount])]
  simp only [Function.update_apply]

theorem fill_zero {mem : ℕ → Word} {pa : Word} {bytes a : ℕ}
    (h : (pa.toNat ≤ a ∧ a < pa.toNat + bytes) ∨ mem a = 0) : fill mem pa bytes a = 0 := by
  unfold fill
  split
  · rfl
  · exact h.resolve_left (by assumption)

/-- Success leaves the tables wired, and one leaf: the data page of the test window. -/
theorem init_wired (h : (mmuInit r m).1 = .success) : ∃ heap aper,
    Wired (mmuInit r m).2 heap aper ∧ ∀ p, Window p →
      (mmuInit r m).2.mem (slotAt heap aper p) =
        if p = 0x400 then makeL3PagePte (heap + 16384) pageAttrRwNx else 0 := by
  obtain ⟨heap, aper, dmaPa, dmaBytes, hscratch, haper, heq⟩ := init_success h
  have hheap := r.scratch_placed heap hscratch
  have hblock := r.aperture_placed aper haper
  have hapart := r.apart heap hscratch aper haper
  have hbytes := scratchHeapBytes_eq
  have hbytes' := apertureL3Bytes_eq
  have hcount : apertureL3Count = 64 := by decide
  have hzero : ∀ a, (heap.toNat ≤ a ∧ a < heap.toNat + 262144) ∨
      (aper.toNat ≤ a ∧ a < aper.toNat + 262144) →
      fill (fill (fill m.mem heap scratchHeapBytes) dmaPa dmaBytes) aper apertureL3Bytes a = 0 := by
    rintro a (ha | ha)
    · exact fill_zero (.inr (fill_zero (.inr (fill_zero (.inl (hbytes ▸ ha))))))
    · exact fill_zero (.inl (hbytes' ▸ ha))
  rw [hbytes, hbytes'] at hapart
  refine ⟨heap, aper, ?_, ?_⟩
  · rw [heq]
    refine ⟨rfl, rfl, rfl, rfl, hheap, hblock, r.apart heap hscratch aper haper, ?_, ?_, ?_⟩
    · intro i hi
      change wire heap aper _ _ = _
      rw [wire_apply (fun t ht => by omega), if_neg (by omega), if_neg (by omega),
        if_neg (by omega)]
      by_cases h0 : i = 0
      · rw [if_pos (by omega), if_pos h0]
      · rw [if_neg (by omega), if_neg (by omega), if_neg h0, hzero _ (.inl (by omega))]
    · intro i hi
      change wire heap aper _ _ = _
      rw [wire_apply (fun t ht => by omega), if_neg (by omega), if_neg (by omega)]
      by_cases h0 : i = 0
      · rw [if_pos (by omega), if_pos h0]
      · rw [if_neg (by omega), if_neg (by omega), if_neg (by omega), if_neg h0,
          hzero _ (.inl (by omega))]
    · intro i hi
      change wire heap aper _ _ = _
      by_cases haperture : 128 ≤ i ∧ i < 192
      · rw [if_neg (by omega), if_pos haperture]
        unfold wire
        rw [show 8 * i = 8 * (128 + (i - 128)) by omega]
        exact wireAperture_at (by omega)
      · rw [wire_apply (fun t ht => by omega), if_neg (by omega), if_neg haperture]
        by_cases h2 : i = 2
        · rw [if_pos (by omega), if_pos h2]
        · rw [if_neg (by omega), if_neg (by omega), if_neg (by omega), if_neg (by omega),
            if_neg h2, hzero _ (.inl (by omega))]
  · intro p hp
    rw [heq]
    change wire heap aper _ _ = _
    have hslot : (heap.toNat + 12288 ≤ slotAt heap aper p ∧
        slotAt heap aper p < heap.toNat + 16384 ∧
        (slotAt heap aper p = heap.toNat + 12288 ↔ p = 0x400)) ∨
        (aper.toNat ≤ slotAt heap aper p ∧ slotAt heap aper p < aper.toNat + 262144 ∧
          p ≠ 0x400) := by
      unfold Window at hp
      unfold slotAt
      split <;> omega
    rw [wire_apply (fun t ht => by omega)]
    by_cases h0 : p = 0x400
    · rw [if_pos (by omega), if_pos h0]
    · rw [if_neg (by omega), if_neg (by omega), if_neg (by omega), if_neg (by omega),
        if_neg (by omega), if_neg h0, hzero _ (by omega)]

end Init

section Walk

variable {m : Mmu} {heap aper va : Word}

theorem next_table {pa : Word} (h12 : pa.toNat % 4096 = 0) (h48 : pa.toNat < 2 ^ 48) :
    next (pa ||| 3) = some pa := by
  have hframed := framed_of_page pa h12 h48
  have hlink := next_link pa hframed
  rwa [hframed.eq] at hlink

theorem pageAfter_toNat {pa : Word} {bytes n : ℕ} (P : Placed pa bytes) (hn : n < bytes) :
    (pa + BitVec.ofNat 64 n).toNat = pa.toNat + n := by
  have hbelow := P.below
  rw [BitVec.toNat_add, BitVec.toNat_ofNat]
  omega

theorem vaBits_ge (m : Mmu) : 32 ≤ vaBits m ∧ vaBits m ≤ 48 := by
  unfold vaBits
  dsimp only
  split <;> omega

theorem hwWalk_slot (mem : ℕ → Word) (root va : Word) :
    hwWalk (tables mem) root va = (walkSlot mem root va).bind fun a => leafOf (mem a) := by
  simp only [hwWalk, walkSlot, Option.bind_assoc, Option.bind_map]
  rfl

theorem as1Walk_slot (m : Mmu) (va : Word) :
    as1Walk m va = (as1Slot m va).bind fun a => leafOf (m.mem a) := by
  unfold as1Walk as1Slot
  cases m.transtab with
  | none => rfl
  | some root =>
    rw [Option.bind_some, Option.bind_some]
    split
    · exact hwWalk_slot m.mem root va
    · rfl

/-- A page of a placed block, as the next table. -/
theorem Placed.link {pa : Word} {bytes : ℕ} (P : Placed pa bytes) {t : ℕ}
    (ht : 4096 * t < bytes) : next ((pa + BitVec.ofNat 64 (4096 * t)) ||| 3) =
      some (pa + BitVec.ofNat 64 (4096 * t)) := by
  have haligned := P.aligned
  have hbelow := P.below
  have hval := pageAfter_toNat P ht
  exact next_table (by omega) (by omega)

theorem Wired.level0 (W : Wired m heap aper) (i : Fin 512) :
    next (tables m.mem heap i) = if i.val = 0 then some (heap + 4096) else none := by
  unfold tables
  rw [W.l0 i i.isLt]
  split
  · exact W.heapPlaced.link (t := 1) (by decide)
  · exact next_zero

theorem Wired.level1 (W : Wired m heap aper) (i : Fin 512) :
    next (tables m.mem (heap + 4096) i) = if i.val = 0 then some (heap + 8192) else none := by
  have htable : (heap + 4096).toNat = heap.toNat + 4096 := pageAfter_toNat W.heapPlaced (by decide)
  unfold tables
  rw [htable, W.l1 i i.isLt]
  split
  · exact W.heapPlaced.link (t := 2) (by decide)
  · exact next_zero

theorem aperTable_eq (aper : Word) (t : ℕ) :
    aper + (BitVec.ofNat 64 t <<< 12) = aper + BitVec.ofNat 64 (4096 * t) := by
  apply BitVec.eq_of_toNat_eq
  rw [BitVec.toNat_add, BitVec.toNat_add, BitVec.toNat_shiftLeft, Nat.shiftLeft_eq,
    BitVec.toNat_ofNat, BitVec.toNat_ofNat]
  omega

theorem Wired.level2 (W : Wired m heap aper) (i : Fin 512) :
    next (tables m.mem (heap + 8192) i) =
      if i.val = 2 then some (heap + 12288)
      else if 128 ≤ i.val ∧ i.val < 192 then
        some (aper + (BitVec.ofNat 64 (i.val - 128) <<< 12))
      else none := by
  have hbytes := apertureL3Bytes_eq
  have htable : (heap + 8192).toNat = heap.toNat + 8192 := pageAfter_toNat W.heapPlaced (by decide)
  unfold tables
  rw [htable, W.l2 i i.isLt, aperTable_eq]
  split
  · exact W.heapPlaced.link (t := 3) (by decide)
  · split
    · exact W.aperPlaced.link (by omega)
    · exact next_zero

/-- The walk comes to a leaf entry exactly in the windows, and there to the flat one. -/
theorem Wired.walk_eq (W : Wired m heap aper) (hva : va.toNat < 2 ^ 48) :
    walkSlot m.mem heap va =
      if Window (pageNo va) then some (slotAt heap aper (pageNo va)) else none := by
  have hl3 : (heap + 12288).toNat = heap.toNat + 12288 :=
    pageAfter_toNat W.heapPlaced (by decide)
  unfold walkSlot
  rw [W.level0, index_val va 39]
  split
  case isFalse h0 =>
    rw [if_neg]
    · rfl
    · unfold Window pageNo
      omega
  case isTrue h0 =>
    rw [Option.bind_some, W.level1, index_val va 30]
    split
    case isFalse h1 =>
      rw [if_neg]
      · rfl
      · unfold Window pageNo
        omega
    case isTrue h1 =>
      rw [Option.bind_some, W.level2, index_val va 21]
      split
      case isTrue h2 =>
        have hwindow : Window (pageNo va) := by
          unfold Window pageNo
          omega
        rw [if_pos hwindow, Option.map_some, hl3, index_val va 12]
        refine congrArg some ?_
        unfold slotAt pageNo
        rw [if_pos (by omega)]
        omega
      case isFalse h2 =>
        split
        case isTrue h3 =>
          have hwindow : Window (pageNo va) := by
            unfold Window pageNo
            omega
          have hbytes := apertureL3Bytes_eq
          rw [if_pos hwindow, Option.map_some, aperTable_eq,
            pageAfter_toNat W.aperPlaced (by omega), index_val va 12]
          refine congrArg some ?_
          unfold slotAt pageNo
          rw [if_neg (by omega)]
          omega
        case isFalse h3 =>
          rw [if_neg]
          · rfl
          · unfold Window pageNo
            omega

/-- The resolver and the hardware agree at every address. -/
theorem Wired.slot_eq (W : Wired m heap aper) (va : Word) :
    as1Slot m va = resolveL3Slot m va ∧ as1Slot m va =
      if Window (pageNo va) then some (slotAt heap aper (pageNo va)) else none := by
  have hslot : as1Slot m va =
      if Window (pageNo va) then some (slotAt heap aper (pageNo va)) else none := by
    unfold as1Slot
    rw [W.transtab, Option.bind_some]
    obtain ⟨hmin, hmax⟩ := vaBits_ge m
    split
    case isTrue h =>
      exact W.walk_eq (Nat.lt_of_lt_of_le h (Nat.pow_le_pow_right (by decide) hmax))
    case isFalse h =>
      have hbig : 2 ^ 32 ≤ va.toNat :=
        Nat.le_trans (Nat.pow_le_pow_right (by decide) hmin) (Nat.le_of_not_lt h)
      rw [if_neg]
      unfold Window pageNo
      omega
  exact ⟨hslot.trans (resolve_eq W.scratch W.aperture).symm, hslot⟩

/-- Two pages of the windows never share an entry. -/
theorem Wired.slot_injective (W : Wired m heap aper) {p q : ℕ} (hp : Window p) (hq : Window q)
    (h : slotAt heap aper p = slotAt heap aper q) : p = q := by
  have hapart := W.apart
  have hbytes := scratchHeapBytes_eq
  have hbytes' := apertureL3Bytes_eq
  unfold Window at hp hq
  unfold slotAt at h
  split at h <;> split at h <;> omega

theorem Wired.slot_leaf (W : Wired m heap aper) {p : ℕ} (hp : Window p) :
    ∀ a, heap.toNat ≤ a → a < heap.toNat + 12288 → a ≠ slotAt heap aper p := by
  have hapart := W.apart
  have hbytes := scratchHeapBytes_eq
  have hbytes' := apertureL3Bytes_eq
  unfold Window at hp
  unfold slotAt
  intro a h1 h2
  split <;> omega

end Walk

section Loop

variable {m : Mmu} {heap aper gpuVaStart : Word} {pte : ℕ → Word}

theorem Wired.write (W : Wired m heap aper) {p : ℕ} (hp : Window p) (w : Word) :
    Wired { m with mem := Function.update m.mem (slotAt heap aper p) w } heap aper := by
  have hne := W.slot_leaf hp
  refine ⟨W.scratch, W.aperture, W.bound, W.transtab, W.heapPlaced, W.aperPlaced, W.apart,
    ?_, ?_, ?_⟩
  · intro i hi
    exact (Function.update_of_ne (hne _ (by omega) (by omega)) _ _).trans (W.l0 i hi)
  · intro i hi
    exact (Function.update_of_ne (hne _ (by omega) (by omega)) _ _).trans (W.l1 i hi)
  · intro i hi
    exact (Function.update_of_ne (hne _ (by omega) (by omega)) _ _).trans (W.l2 i hi)

theorem Wired.resolve (W : Wired m heap aper) (va : Word) : resolveL3Slot m va =
    if Window (pageNo va) then some (slotAt heap aper (pageNo va)) else none :=
  resolve_eq W.scratch W.aperture

/-- The pages of a range, from `i` on. -/
def InRange (gpuVaStart : Word) (i left p : ℕ) : Prop :=
  ∃ j, i ≤ j ∧ j < i + left ∧ pageNo (pageVa gpuVaStart j) = p

/-- What the writer's loop may change: leaf entries of its range. -/
structure Keeps (heap aper gpuVaStart : Word) (i left : ℕ) (m t : Mmu) : Prop where
  wired : Wired t heap aper
  frame : t = { m with mem := t.mem }
  upper : ∀ a, heap.toNat ≤ a → a < heap.toNat + 12288 → t.mem a = m.mem a
  other : ∀ p, Window p → ¬InRange gpuVaStart i left p →
    t.mem (slotAt heap aper p) = m.mem (slotAt heap aper p)

theorem Keeps.refl (W : Wired m heap aper) (i left : ℕ) :
    Keeps heap aper gpuVaStart i left m m :=
  ⟨W, rfl, fun _ _ _ => rfl, fun _ _ _ => rfl⟩

theorem setPtesLoop_keeps (W : Wired m heap aper) (i left : ℕ) :
    Keeps heap aper gpuVaStart i left m (setPtesLoop gpuVaStart pte i left m).2 := by
  induction left generalizing i m with
  | zero => exact Keeps.refl W i 0
  | succ left ih =>
    rw [setPtesLoop, W.resolve]
    split
    · exact Keeps.refl W i (left + 1)
    · rename_i slot hslot
      obtain ⟨hp, hslot⟩ := Option.ite_none_right_eq_some.mp hslot
      obtain rfl := Option.some.inj hslot
      have K := ih (W.write hp (pte i)) (i + 1)
      refine ⟨K.wired, K.frame, fun a h1 h2 => ?_, fun p hwindow hout => ?_⟩
      · exact (K.upper a h1 h2).trans (Function.update_of_ne (W.slot_leaf hp a h1 h2) _ _)
      · have hrest : ¬InRange gpuVaStart (i + 1) left p :=
          fun ⟨j, h1, h2, h3⟩ => hout ⟨j, by omega, by omega, h3⟩
        refine (K.other p hwindow hrest).trans (Function.update_of_ne (fun he => ?_) _ _)
        exact hout ⟨i, le_rfl, by omega, (W.slot_injective hwindow hp he).symm⟩

/-- The loop succeeds when its pages all lie in the windows, and it has then written them. -/
theorem setPtesLoop_success (W : Wired m heap aper) (i left : ℕ) :
    ((setPtesLoop gpuVaStart pte i left m).1 = .success ↔
      ∀ j, i ≤ j → j < i + left → Window (pageNo (pageVa gpuVaStart j))) ∧
    ((setPtesLoop gpuVaStart pte i left m).1 = .success → ∀ j, i ≤ j → j < i + left →
      ¬InRange gpuVaStart (j + 1) (i + left - (j + 1)) (pageNo (pageVa gpuVaStart j)) →
      (setPtesLoop gpuVaStart pte i left m).2.mem
        (slotAt heap aper (pageNo (pageVa gpuVaStart j))) = pte j) := by
  induction left generalizing i m with
  | zero => exact ⟨⟨fun _ j h1 h2 => by omega, fun _ => rfl⟩, fun _ j h1 h2 => by omega⟩
  | succ left ih =>
    rw [setPtesLoop, W.resolve]
    by_cases hp : Window (pageNo (pageVa gpuVaStart i))
    · rw [if_pos hp]
      obtain ⟨hiff, hmem⟩ := ih (W.write hp (pte i)) (i + 1)
      rw [forall_turns_succ, and_iff_right hp]
      refine ⟨hiff, fun hsucc => forall_turns_succ.mpr ⟨fun hlast => ?_, fun j h1 h2 hlast => ?_⟩⟩
      · rw [show i + (left + 1) - (i + 1) = left by omega] at hlast
        refine ((setPtesLoop_keeps (W.write hp (pte i)) (i + 1) left).other _ hp hlast).trans ?_
        exact Function.update_self _ _ _
      · rw [show i + (left + 1) - (j + 1) = i + 1 + left - (j + 1) by omega] at hlast
        exact hmem hsucc j h1 h2 hlast
    · rw [if_neg hp]
      have hfail : ¬(NtStatus.invalidParameter, m).1 = .success := by simp
      exact ⟨⟨fun h => absurd h hfail, fun h => absurd (h i le_rfl (by omega)) hp⟩,
        fun h => absurd h hfail⟩

/-- In the windows, the pages of a range are one after the other. -/
theorem pageNo_step {k : ℕ} (hpage : Window (pageNo gpuVaStart)) (hk : k ≤ windowBytes / 4096) :
    pageNo (pageVa gpuVaStart k) = pageNo gpuVaStart + k := by
  unfold Window pageNo at hpage
  unfold windowBytes at hk
  unfold pageNo
  rw [pageVa_toNat]
  omega

end Loop

section Calls

variable {m : Mmu} {heap aper : Word}

/-- The last word written to a page, after a call. -/
def record (c : Call) (ledger : ℕ → Option Word) (p : ℕ) : Option Word :=
  if pageNo c.request.gpuVaStart ≤ p ∧ p < pageNo c.request.gpuVaStart + c.request.pageCount then
    some (c.request.pte (p - pageNo c.request.gpuVaStart))
  else ledger p

def lastWrites (cs : List Call) (ledger : ℕ → Option Word) : ℕ → Option Word :=
  cs.foldl (fun l c => record c l) ledger

/-- The page that `MmuInit` maps itself. -/
def testPage (heap : Word) (p : ℕ) : Option Word :=
  if p = 0x400 then some (makeL3PagePte (heap + 16384) pageAttrRwNx) else none

/-- What is checked before the loop, of a call that means something. -/
structure Admits (c : Call) : Prop where
  meant : c.Meant
  some : c.request.pageCount ≠ 0
  fits : c.request.pageCount ≤ windowBytes / 4096
  start : c.request.gpuVaStart &&& 0xfff = 0
  frame : c.request.firstPagePa &&& 0xfff = 0

theorem call_eq (c : Call) :
    (c.Meant → call m c = setPtes m c.request) ∧
      (¬c.Meant → (call m c).1 ≠ .success ∧ (call m c).2 = m) := by
  cases c with
  | mapGpuRange start pa count attrs =>
    refine ⟨fun hm => if_neg hm, fun hm => ?_⟩
    rw [call, mapGpuRange, if_pos (not_not.mp hm)]
    exact ⟨by simp, rfl⟩
  | mapGpuPfnRange start pfns count attrs =>
    refine ⟨fun hm => if_neg (not_or.mpr hm), fun hm => ?_⟩
    have hbad : pfns = none ∨ attrs = 0 := by
      by_contra h
      exact hm (not_or.mp h)
    rw [call, mapGpuPfnRange, if_pos hbad]
    exact ⟨by simp, rfl⟩
  | unmapGpuRange start count => exact ⟨fun _ => rfl, fun hm => absurd trivial hm⟩

theorem call_admitted (W : Wired m heap aper) {c : Call} (A : Admits c) :
    call m c = setPtesLoop c.request.gpuVaStart c.request.pte 0 c.request.pageCount m := by
  rw [(call_eq c).1 A.meant, setPtes, if_neg (by simp [W.scratch, W.bound]),
    if_neg (not_or.mpr ⟨A.some, Nat.not_lt.mpr A.fits⟩),
    if_neg (not_or.mpr ⟨not_not.mpr A.start, not_not.mpr A.frame⟩)]

theorem call_refused {c : Call} (h : ¬Admits c) :
    (call m c).1 ≠ .success ∧ (call m c).2 = m := by
  by_cases hm : c.Meant
  · rw [(call_eq c).1 hm]
    unfold setPtes
    split
    · exact ⟨by simp, rfl⟩
    split
    · exact ⟨by simp, rfl⟩
    rename_i hcount
    split
    · exact ⟨by simp, rfl⟩
    · rename_i hal
      obtain ⟨hsome, hfits⟩ := not_or.mp hcount
      obtain ⟨hstart, hframe⟩ := not_or.mp hal
      exact absurd ⟨hm, hsome, Nat.not_lt.mp hfits, not_not.mp hstart, not_not.mp hframe⟩ h
  · exact (call_eq c).2 hm

theorem admits_of_success {c : Call} (h : (call m c).1 = .success) : Admits c := by
  by_contra hno
  exact (call_refused hno).1 h

/-- Whatever becomes of a call, it changes no entry but those of its range. -/
theorem call_keeps (W : Wired m heap aper) (c : Call) :
    Keeps heap aper c.request.gpuVaStart 0 c.request.pageCount m (call m c).2 := by
  by_cases A : Admits c
  · rw [call_admitted W A]
    exact setPtesLoop_keeps W 0 _
  · rw [(call_refused A).2]
    exact Keeps.refl W 0 _

/-- A call that is admitted succeeds when its pages lie in the windows. -/
theorem call_success_iff (W : Wired m heap aper) {c : Call} (A : Admits c) :
    (call m c).1 = .success ↔ ∀ k < c.request.pageCount,
      Window (pageNo c.request.gpuVaStart + k) := by
  rw [call_admitted W A, (setPtesLoop_success W 0 c.request.pageCount).1, Nat.zero_add]
  have hzero : pageNo (pageVa c.request.gpuVaStart 0) = pageNo c.request.gpuVaStart := by
    rw [pageNo, pageVa_toNat]
    unfold pageNo
    omega
  have hcount := Nat.pos_of_ne_zero A.some
  constructor
  · intro h k hk
    have hstart := h 0 le_rfl hcount
    rw [hzero] at hstart
    have hpage := h k (Nat.zero_le k) hk
    rwa [pageNo_step hstart (hk.le.trans A.fits)] at hpage
  · intro h k _ hk
    rw [pageNo_step (h 0 hcount) (hk.le.trans A.fits)]
    exact h k hk

/-- The leaf entries hold what the ledger says, and nothing else is translated. -/
def Holds (heap aper : Word) (m : Mmu) (ledger : ℕ → Option Word) : Prop :=
  ∀ p, if Window p then leafOf (m.mem (slotAt heap aper p)) = (ledger p).bind leafOf
    else ledger p = none

/-- One successful call: its pages hold its words. -/
theorem call_step (W : Wired m heap aper) {c : Call} (h : (call m c).1 = .success) :
    (∀ k < c.request.pageCount, Window (pageNo c.request.gpuVaStart + k) ∧
      (call m c).2.mem (slotAt heap aper (pageNo c.request.gpuVaStart + k)) =
        c.request.pte k) ∧
    ∀ p, InRange c.request.gpuVaStart 0 c.request.pageCount p ↔
      pageNo c.request.gpuVaStart ≤ p ∧
        p < pageNo c.request.gpuVaStart + c.request.pageCount := by
  have A := admits_of_success h
  have hwindow := (call_success_iff W A).mp h
  have hstart := hwindow 0 (Nat.pos_of_ne_zero A.some)
  have hpage : ∀ k < c.request.pageCount, pageNo (pageVa c.request.gpuVaStart k) =
      pageNo c.request.gpuVaStart + k :=
    fun k hk => pageNo_step hstart (hk.le.trans A.fits)
  rw [call_admitted W A] at h ⊢
  refine ⟨fun k hk => ⟨hwindow k hk, ?_⟩, fun p => ⟨?_, ?_⟩⟩
  · have hlast : ¬InRange c.request.gpuVaStart (k + 1) (0 + c.request.pageCount - (k + 1))
        (pageNo (pageVa c.request.gpuVaStart k)) := by
      rintro ⟨j, h1, h2, h3⟩
      rw [hpage j (by omega), hpage k hk] at h3
      omega
    rw [← hpage k hk]
    exact (setPtesLoop_success W 0 _).2 h k (Nat.zero_le k) (by omega) hlast
  · rintro ⟨j, -, h2, rfl⟩
    rw [hpage j (by omega)]
    omega
  · intro hp
    refine ⟨p - pageNo c.request.gpuVaStart, Nat.zero_le _, by omega, ?_⟩
    rw [hpage _ (by omega)]
    omega

theorem call_holds (W : Wired m heap aper) {ledger : ℕ → Option Word} {c : Call}
    (hledger : Holds heap aper m ledger) (h : (call m c).1 = .success) :
    Holds heap aper (call m c).2 (record c ledger) := by
  have K := call_keeps W c
  obtain ⟨hwrite, hrange⟩ := call_step W h
  intro p
  have hp := hledger p
  unfold record
  by_cases hin : pageNo c.request.gpuVaStart ≤ p ∧
    p < pageNo c.request.gpuVaStart + c.request.pageCount
  · obtain ⟨hwindow, hmem⟩ := hwrite (p - pageNo c.request.gpuVaStart) (by omega)
    rw [show pageNo c.request.gpuVaStart + (p - pageNo c.request.gpuVaStart) = p by omega]
      at hwindow hmem
    rw [if_pos hwindow, if_pos hin, hmem]
    rfl
  · rw [if_neg hin]
    split
    case isTrue hwindow =>
      rw [if_pos hwindow] at hp
      rw [K.other p hwindow fun hr => hin ((hrange p).mp hr)]
      exact hp
    case isFalse hwindow => rwa [if_neg hwindow] at hp

theorem walk_holds (W : Wired m heap aper) {ledger : ℕ → Option Word}
    (hledger : Holds heap aper m ledger) (va : Word) :
    as1Walk m va = (ledger (pageNo va)).bind leafOf := by
  have hp := hledger (pageNo va)
  rw [as1Walk_slot, (W.slot_eq va).2]
  split at hp
  case isTrue hwindow => rw [if_pos hwindow, Option.bind_some, hp]
  case isFalse hwindow =>
    rw [if_neg hwindow, hp]
    rfl

/-- What holds of the tables after `MmuInit` in state `m` and some successful calls. -/
structure Agrees (r : Replies) (cs : List Call) (m t : Mmu) : Prop where
  slot : ∀ va, as1Slot t va = resolveL3Slot t va
  window : ∀ va, (resolveL3Slot t va).isSome ↔ Window (pageNo va)
  unshared : ∀ va va' a, resolveL3Slot t va = some a → resolveL3Slot t va' = some a →
    pageNo va = pageNo va'
  walk : ∀ heap ∈ r.scratch, ∀ va,
    as1Walk t va = (lastWrites cs (testPage heap) (pageNo va)).bind leafOf
  upper : ∀ heap ∈ r.scratch, ∀ a, heap.toNat ≤ a → a < heap.toNat + 12288 → t.mem a = m.mem a

theorem calls_run (W : Wired m heap aper) {ledger : ℕ → Option Word}
    (hledger : Holds heap aper m ledger) (cs : List Call) {t : Mmu} (h : calls cs m = some t) :
    Wired t heap aper ∧ Holds heap aper t (lastWrites cs ledger) ∧
      ∀ a, heap.toNat ≤ a → a < heap.toNat + 12288 → t.mem a = m.mem a := by
  induction cs generalizing m ledger with
  | nil =>
    obtain rfl := Option.some.inj h
    exact ⟨W, hledger, fun _ _ _ => rfl⟩
  | cons c cs ih =>
    rw [calls] at h
    split at h
    case isTrue hc =>
      have K := call_keeps W c
      obtain ⟨hW, hL, hupper⟩ := ih K.wired (call_holds W hledger hc) h
      exact ⟨hW, hL, fun a h1 h2 => (hupper a h1 h2).trans (K.upper a h1 h2)⟩
    case isFalse hc => cases h

/-- After a successful start of the unit the resolver is the hardware walk, and stays so over
every sequence of successful calls, whose last writes the walk answers with. -/
theorem resolver_agrees (r : Replies) (m : Mmu) (hinit : (mmuInit r m).1 = .success)
    (cs : List Call) (t : Mmu) (hcs : calls cs (mmuInit r m).2 = some t) :
    Agrees r cs (mmuInit r m).2 t := by
  obtain ⟨heap, aper, W, hleaf⟩ := init_wired hinit
  have hroot : ∀ heap' ∈ r.scratch, heap' = heap := by
    intro heap' hmem
    obtain ⟨heap₀, aper₀, _, _, hscratch, -, heq⟩ := init_success hinit
    have htrans := W.transtab
    rw [heq] at htrans
    exact (Option.some.inj (hmem.symm.trans hscratch)).trans (Option.some.inj htrans)
  have hledger : Holds heap aper (mmuInit r m).2 (testPage heap) := by
    intro p
    unfold testPage
    by_cases hp : Window p
    · rw [if_pos hp, hleaf p hp]
      split
      · rfl
      · exact leafOf_zero
    · rw [if_neg hp, if_neg]
      rintro rfl
      exact hp (by decide)
  obtain ⟨hW, hL, hupper⟩ := calls_run W hledger cs hcs
  refine ⟨fun va => (hW.slot_eq va).1, fun va => ?_, fun va va' a h h' => ?_, ?_, ?_⟩
  · rw [hW.resolve]
    by_cases hp : Window (pageNo va) <;> simp [hp]
  · rw [hW.resolve] at h h'
    obtain ⟨hp, h⟩ := Option.ite_none_right_eq_some.mp h
    obtain ⟨hp', h'⟩ := Option.ite_none_right_eq_some.mp h'
    exact hW.slot_injective hp hp' (Option.some.inj (h.trans h'.symm))
  · rintro heap' hmem va
    obtain rfl := hroot heap' hmem
    exact walk_holds hW hL va
  · rintro heap' hmem
    obtain rfl := hroot heap' hmem
    exact hupper

end Calls

section Image

variable {m : Mmu} {heap aper : Word}

def slotPage : Slot → ℕ
  | .test i => 0x400 + i
  | .aperture table i => 0x10000 + 512 * table + i

/-- The state with one word for each slot, as it is read off the raw tables. -/
def image (m : Mmu) (allocations : ℕ → Option Residency) : State where
  mmuScratchHeap := m.mmuScratchHeap.isSome
  gpuMmuAsBound := m.gpuMmuAsBound
  apertureL3 := m.apertureL3.isSome
  dmaSegmentVa := m.dmaSegment.isSome
  dmaSegmentPhys := (m.dmaSegment.map Prod.fst).getD 0
  dmaSegmentBytes := (m.dmaSegment.map Prod.snd).getD 0
  ptes slot := m.mem (slotAt (m.mmuScratchHeap.getD 0) (m.apertureL3.getD 0) (slotPage slot))
  allocations := allocations

theorem resolve_image {s : State} (haper : s.apertureL3 = true) (va : Word) :
    (ApertureRoots.resolveL3Slot s va).map slotPage =
      if Window (pageNo va) then some (pageNo va) else none := by
  rw [resolve_pages]
  simp only [haper, true_and]
  change _ = if Window (va.toNat / 4096) then some (va.toNat / 4096) else none
  split
  case isTrue h =>
    rw [if_pos (.inl h), Option.map_some, slotPage]
    refine congrArg some ?_
    omega
  case isFalse h =>
    split
    case isTrue h' =>
      rw [if_pos (.inr h'), Option.map_some, slotPage]
      refine congrArg some ?_
      omega
    case isFalse h' =>
      have hout : ¬Window (va.toNat / 4096) := not_or.mpr ⟨h, h'⟩
      rw [if_neg hout]
      rfl

/-- A lookup by slots is the hardware walk of the raw tables. -/
theorem translation_image (W : Wired m heap aper) (allocations : ℕ → Option Residency)
    (va : Word) : translation (image m allocations) va = as1Walk m va := by
  have hpage := @resolve_image (image m allocations) (by simp [image, W.aperture]) va
  rw [as1Walk_slot, (W.slot_eq va).2, translation]
  cases hslot : ApertureRoots.resolveL3Slot (image m allocations) va with
  | none =>
    rw [hslot, Option.map_none] at hpage
    rw [if_neg]
    · rfl
    · intro hwindow
      rw [if_pos hwindow] at hpage
      cases hpage
  | some slot =>
    rw [hslot, Option.map_some] at hpage
    obtain ⟨hwindow, heq⟩ := Option.ite_none_right_eq_some.mp hpage.symm
    rw [if_pos hwindow, Option.some.inj heq, Option.bind_some, Option.bind_some]
    simp only [image, W.scratch, W.aperture, Option.getD_some]

end Image

/-- A machine with its tables at `0x80000000` and its leaf tables behind them. -/
def granted : Replies where
  scratch := some 0x80000000
  dma _ := some 0x90000000
  aperture := some 0x80100000
  asEnable := .success
  scratch_placed := by
    rintro pa ⟨⟩
    exact ⟨by decide, by decide⟩
  aperture_placed := by
    rintro pa ⟨⟩
    exact ⟨by decide, by decide⟩
  apart := by
    rintro pa ⟨⟩ pa' ⟨⟩
    decide

def cold : Mmu where
  gpuRegsMapped := true
  mmuFeatures := 0x2830
  mem _ := 0xFFFFFFFFFFFFFFFF
  transtab := none
  mmuScratchHeap := none
  dmaSegment := none
  apertureL3 := none
  gpuMmuAsBound := false
  gpuMmuBringupAs := 0

/-- Two pages across the end of a leaf table, and one of them taken back. -/
theorem last_write_across_tables : ∃ t,
    calls [.mapGpuRange 0x101FF000 0x40000000 2 pageAttrRwNx, .unmapGpuRange 0x101FF000 1]
      (mmuInit granted cold).2 = some t ∧
    as1Walk t 0x101FF000 = none ∧ as1Walk t 0x10200FFF = some (0x40001000, pageAttrRwNx) := by
  have hsome : (calls [.mapGpuRange 0x101FF000 0x40000000 2 pageAttrRwNx,
      .unmapGpuRange 0x101FF000 1] (mmuInit granted cold).2).isSome := by decide +kernel
  obtain ⟨t, ht⟩ := Option.isSome_iff_exists.mp hsome
  have hwalk := (resolver_agrees granted cold (by decide +kernel) _ t ht).walk 0x80000000 rfl
  refine ⟨t, ht, (hwalk _).trans ?_, (hwalk _).trans ?_⟩ <;> decide +kernel

end WinMali.ApertureWalk
