import WinMaliKmd.ContextSlots
import WinMaliKmd.VmTable

/-!
# One segment, read in two ways

The graphics kernel is told that segment 1 is an aperture: what is at an offset
is whatever frame it mapped there last. `MapApertureSegment` follows that, through
the page table of the bring-up slot. `SetRootPageTable` takes the same offset for a
distance from the start of a contiguous block.
-/

set_option autoImplicit false

namespace WinMali.ApertureRoots
open WinMali.Lpae WinMali.VmPageTable WinMali.ContextSlots WinMali.VmTable WinMali.Runs

def mmuTestGpuVa : Word := 0x400000

def windowBytes : ℕ := 128 * 1024 * 1024

/-- An entry of a level 3 table: of the test window's table, or of a table of the aperture. -/
inductive Slot
  | test (i : ℕ)
  | aperture (table i : ℕ)
deriving DecidableEq

structure Residency where
  mdl : Option (List Word)
  mdlOffset : ℕ
  pageCount : ℕ
  gpuVa : Word

/-- `allocations` has an entry for every live allocation handle. -/
structure State where
  mmuScratchHeap : Bool
  gpuMmuAsBound : Bool
  apertureL3 : Bool
  dmaSegmentVa : Bool
  dmaSegmentPhys : Word
  dmaSegmentBytes : ℕ
  ptes : Slot → Word
  allocations : ℕ → Option Residency

def resolveL3Slot (s : State) (gpuVa : Word) : Option Slot :=
  if mmuTestGpuVa ≤ gpuVa ∧ gpuVa < mmuTestGpuVa + 0x200000 then
    some (.test ((gpuVa - mmuTestGpuVa) >>> 12).toNat)
  else if s.apertureL3 = true ∧ sysmemGpuBase ≤ gpuVa ∧
      gpuVa < sysmemGpuBase + BitVec.ofNat 64 windowBytes then
    let off := gpuVa - sysmemGpuBase
    some (.aperture (off >>> 21).toNat ((off >>> 12) &&& 0x1FF).toNat)
  else none

def makeL3PagePte (physPa attrs : Word) : Word := (physPa &&& paMask) ||| attrs

def setPtesLoop (gpuVaStart : Word) (pte : ℕ → Word) : ℕ → ℕ → State → NtStatus × State
  | _, 0, s => (.success, s)
  | i, left + 1, s =>
    match resolveL3Slot s (pageVa gpuVaStart i) with
    | none => (.invalidParameter, s)
    | some slot =>
      setPtesLoop gpuVaStart pte (i + 1) left { s with ptes := Function.update s.ptes slot (pte i) }

/-- `pfns` is `none` for a contiguous run from `firstPagePa`; attributes 0 clear. -/
def setPtes (s : State) (gpuVaStart : Word) (pfns : Option (ℕ → Word)) (firstPagePa : Word)
    (pageCount : ℕ) (attrs : Word) : NtStatus × State :=
  if s.mmuScratchHeap = false ∨ s.gpuMmuAsBound = false then (.deviceNotReady, s)
  else if pageCount = 0 ∨ pageCount > windowBytes / 4096 then (.invalidParameter, s)
  else if gpuVaStart &&& 0xfff ≠ 0 ∨ firstPagePa &&& 0xfff ≠ 0 then (.invalidParameter, s)
  else
    setPtesLoop gpuVaStart (fun i =>
      if attrs = 0 then 0
      else match pfns with
        | some pfns => makeL3PagePte (pfns i <<< 12) attrs
        | none => makeL3PagePte (firstPagePa + BitVec.ofNat 64 i * 4096) attrs) 0 pageCount s

def mapGpuRange (s : State) (gpuVaStart firstPagePa : Word) (pageCount : ℕ) (attrs : Word) :
    NtStatus × State :=
  if attrs = 0 then (.invalidParameter, s)
  else setPtes s gpuVaStart none firstPagePa pageCount attrs

def mapGpuPfnRange (s : State) (gpuVaStart : Word) (pfns : Option (ℕ → Word)) (pageCount : ℕ)
    (attrs : Word) : NtStatus × State :=
  if pfns = none ∨ attrs = 0 then (.invalidParameter, s)
  else setPtes s gpuVaStart pfns 0 pageCount attrs

def unmapGpuRange (s : State) (gpuVaStart : Word) (pageCount : ℕ) : NtStatus × State :=
  setPtes s gpuVaStart none 0 pageCount 0

/-- An MDL is the list of its frames; `none` is a null pointer. -/
structure MapAperture where
  hAllocation : ℕ
  offsetInPages : ℕ
  numberOfPages : ℕ
  mdl : Option (List Word)
  mdlOffset : ℕ

def apertureVa (offsetInPages : ℕ) : Word := sysmemGpuBase + BitVec.ofNat 64 offsetInPages * 4096

def mdlFrame (mdl : List Word) (mdlOffset i : ℕ) : Word := mdl.getD (mdlOffset + i) 0

def stash (s : State) (hAllocation : ℕ) (r : Residency) : State :=
  { s with
    allocations := Function.update s.allocations hAllocation
      ((s.allocations hAllocation).map fun _ => r) }

def mapApertureSegment (s : State) (b : MapAperture) : NtStatus × State :=
  match b.mdl with
  | none => (.success, s)
  | some mdl =>
    if b.numberOfPages = 0 then (.success, s)
    else
      let pages := b.numberOfPages % 2 ^ 32
      let (st, s) := mapGpuPfnRange s (apertureVa b.offsetInPages) (some (mdlFrame mdl b.mdlOffset))
        pages pageAttrRwNx
      if !st.ok then (st, s)
      else (.success, stash s b.hAllocation ⟨b.mdl, b.mdlOffset, pages, apertureVa b.offsetInPages⟩)

def unmapApertureSegment (s : State) (hAllocation offsetInPages numberOfPages : ℕ) :
    NtStatus × State :=
  if numberOfPages = 0 then (.success, s)
  else
    unmapGpuRange (stash s hAllocation ⟨none, 0, 0, 0⟩) (apertureVa offsetInPages)
      (numberOfPages % 2 ^ 32)

structure SegmentDescriptor where
  aperture : Bool
  cacheCoherent : Bool
  cpuVisible : Bool
  applicationTarget : Bool
  baseAddress : Word
  cpuTranslatedAddress : Word
  size : ℕ
  commitLimit : ℕ
deriving DecidableEq, Repr

/-- The one segment, with the id that the list position gives it. -/
def querySegment3 (s : State) : Except NtStatus (ℕ × SegmentDescriptor) :=
  if s.dmaSegmentVa = false ∨ s.dmaSegmentBytes = 0 then .error .deviceNotReady
  else
    .ok (segmentIdSysmem,
      { aperture := true
        cacheCoherent := true
        cpuVisible := true
        applicationTarget := true
        baseAddress := sysmemGpuBase
        cpuTranslatedAddress := 0
        size := s.dmaSegmentBytes
        commitLimit := s.dmaSegmentBytes })

inductive Op
  | map (b : MapAperture)
  | unmap (hAllocation offsetInPages numberOfPages : ℕ)

def Op.apply (s : State) : Op → State
  | .map b => (mapApertureSegment s b).2
  | .unmap h offset pages => (unmapApertureSegment s h offset pages).2

def step (s : State) (op : Op) : Option State := some (op.apply s)

/-- `MmuInit` asks for the whole window, and for half of it three times over when refused. -/
def dmaSegmentSize (granted : ℕ → Bool) : Option ℕ :=
  ([0, 1, 2, 3].map fun k => windowBytes >>> k).find? granted

/-- What `MmuInit` leaves: a block for the segment, and empty tables for the window. -/
def initialized (dmaSegmentPhys : Word) (dmaSegmentBytes : ℕ) (ptes : ℕ → Word)
    (allocations : ℕ → Option Residency) : State where
  mmuScratchHeap := true
  gpuMmuAsBound := true
  apertureL3 := true
  dmaSegmentVa := true
  dmaSegmentPhys := dmaSegmentPhys
  dmaSegmentBytes := dmaSegmentBytes
  ptes := fun
    | .test i => ptes i
    | .aperture .. => 0
  allocations := allocations

/-- What the hardware finds at an address of the two windows. -/
def translation (s : State) (gpuVa : Word) : Option (Word × Word) :=
  (resolveL3Slot s gpuVa).bind fun slot => leafOf (s.ptes slot)

/-- At every offset of a segment that holds a page, the root that `SetRootPageTable` computes
for the offset is the frame that is mapped there. -/
def Agree (s : State) : Prop :=
  ∀ seg, querySegment3 s = .ok seg → ∀ o : Word, o &&& 0xfff = 0 → o.toNat < seg.2.size →
    ∀ pa attrs, translation s (seg.2.baseAddress + o) = some (pa, attrs) →
      rootPtPa s.dmaSegmentVa s.dmaSegmentPhys seg.1 o = pa

/-- The loop gets to page `k`: no page before it, nor itself, is outside the windows. -/
def Reached (s : State) (gpuVaStart : Word) (k : ℕ) : Prop :=
  ∀ j < k + 1, (resolveL3Slot s (pageVa gpuVaStart j)).isSome

def Ready (s : State) (pageCount : ℕ) : Prop :=
  s.mmuScratchHeap = true ∧ s.gpuMmuAsBound = true ∧ pageCount ≤ windowBytes / 4096

/-- Each frame that the map puts at an offset of the segment is the frame of the block at
that offset. -/
def InPlace (s : State) : Op → Prop
  | .map b => Ready s (b.numberOfPages % 2 ^ 32) → ∀ mdl ∈ b.mdl, ∀ k < b.numberOfPages % 2 ^ 32,
    Reached s (apertureVa b.offsetInPages) k →
      (pageVa (apertureVa b.offsetInPages) k - sysmemGpuBase).toNat < s.dmaSegmentBytes →
      s.dmaSegmentPhys + (pageVa (apertureVa b.offsetInPages) k - sysmemGpuBase) =
        mdlFrame mdl b.mdlOffset k <<< 12
  | .unmap .. => True

/-- Frames of an MDL lie in physical memory. -/
def MdlFramed : Op → Prop
  | .map b => ∀ mdl ∈ b.mdl, ∀ f ∈ mdl, f.toNat < 2 ^ 36
  | .unmap .. => True

theorem pageVa_toNat (gpuVa : Word) (k : ℕ) :
    (pageVa gpuVa k).toNat = (gpuVa.toNat + 4096 * k) % 2 ^ 64 := by
  have h : (4096 : Word).toNat = 4096 := by decide
  simp only [pageVa, BitVec.toNat_add, BitVec.toNat_mul, BitVec.toNat_ofNat, h]
  omega

theorem pageVa_distinct {gpuVa : Word} {j k : ℕ} (hj : j < 2 ^ 52) (hk : k < 2 ^ 52)
    (h : pageVa gpuVa j = pageVa gpuVa k) : j = k := by
  have h' := congrArg BitVec.toNat h
  rw [pageVa_toNat, pageVa_toNat] at h'
  omega

theorem aligned_iff (w : Word) : w &&& 0xfff = 0 ↔ w.toNat % 4096 = 0 := by
  have h : (0xfff : Word).toNat = 2 ^ 12 - 1 := by decide
  rw [← BitVec.toNat_inj, BitVec.toNat_and, h, Nat.and_two_pow_sub_one_eq_mod]
  rfl

theorem apertureVa_aligned (offsetInPages : ℕ) : (apertureVa offsetInPages).toNat % 4096 = 0 := by
  have h : (4096 : Word).toNat = 4096 := by decide
  have hbase : sysmemGpuBase.toNat = 0x10000000 := by decide
  simp only [apertureVa, BitVec.toNat_add, BitVec.toNat_mul, BitVec.toNat_ofNat, h, hbase]
  omega

section Windows

variable {va : Word}

theorem sysmemGpuBase_toNat : sysmemGpuBase.toNat = 0x10000000 := by decide

theorem mmuTestGpuVa_toNat : mmuTestGpuVa.toNat = 0x400000 := by decide

theorem test_window : (mmuTestGpuVa ≤ va ∧ va < mmuTestGpuVa + 0x200000) ↔
    0x400 ≤ va.toNat / 4096 ∧ va.toNat / 4096 < 0x600 := by
  have htop : (mmuTestGpuVa + 0x200000).toNat = 0x600000 := by decide
  rw [BitVec.le_def, BitVec.lt_def, mmuTestGpuVa_toNat, htop]
  omega

theorem aperture_window :
    (sysmemGpuBase ≤ va ∧ va < sysmemGpuBase + BitVec.ofNat 64 windowBytes) ↔
      0x10000 ≤ va.toNat / 4096 ∧ va.toNat / 4096 < 0x18000 := by
  have hend : (sysmemGpuBase + BitVec.ofNat 64 windowBytes).toNat = 0x18000000 := by decide
  rw [BitVec.le_def, BitVec.lt_def, sysmemGpuBase_toNat, hend]
  omega

theorem test_index (h : 0x400 ≤ va.toNat / 4096) :
    ((va - mmuTestGpuVa) >>> 12).toNat = va.toNat / 4096 - 0x400 := by
  rw [BitVec.toNat_ushiftRight, Nat.shiftRight_eq_div_pow, BitVec.toNat_sub, mmuTestGpuVa_toNat]
  omega

theorem aperture_table (h : 0x10000 ≤ va.toNat / 4096) :
    ((va - sysmemGpuBase) >>> 21).toNat = (va.toNat / 4096 - 0x10000) / 512 := by
  rw [BitVec.toNat_ushiftRight, Nat.shiftRight_eq_div_pow, BitVec.toNat_sub, sysmemGpuBase_toNat]
  omega

theorem aperture_entry (h : 0x10000 ≤ va.toNat / 4096) :
    ((va - sysmemGpuBase) >>> 12 &&& 0x1FF).toNat = (va.toNat / 4096 - 0x10000) % 512 := by
  have h9 : (0x1FF : Word).toNat = 2 ^ 9 - 1 := by decide
  rw [BitVec.toNat_and, h9, Nat.and_two_pow_sub_one_eq_mod, BitVec.toNat_ushiftRight,
    Nat.shiftRight_eq_div_pow, BitVec.toNat_sub, sysmemGpuBase_toNat]
  omega

/-- The resolver looks at the page of an address only. -/
theorem resolve_pages (s : State) (va : Word) : resolveL3Slot s va =
    if 0x400 ≤ va.toNat / 4096 ∧ va.toNat / 4096 < 0x600 then
      some (.test (va.toNat / 4096 - 0x400))
    else if s.apertureL3 = true ∧ 0x10000 ≤ va.toNat / 4096 ∧ va.toNat / 4096 < 0x18000 then
      some (.aperture ((va.toNat / 4096 - 0x10000) / 512) ((va.toNat / 4096 - 0x10000) % 512))
    else none := by
  unfold resolveL3Slot
  simp only [test_window, aperture_window]
  split
  case isTrue h => rw [test_index h.1]
  case isFalse =>
    split
    case isTrue h => rw [aperture_table h.2.1, aperture_entry h.2.1]
    case isFalse => rfl

/-- A slot belongs to one page. -/
theorem resolve_injective {s : State} {va va' : Word} {slot : Slot} (ha : va.toNat % 4096 = 0)
    (ha' : va'.toNat % 4096 = 0) (h : resolveL3Slot s va = some slot)
    (h' : resolveL3Slot s va' = some slot) : va = va' := by
  have hpage : va.toNat / 4096 = va'.toNat / 4096 := by
    rw [resolve_pages] at h h'
    split at h <;> split at h' <;> grind
  exact BitVec.eq_of_toNat_eq (by omega)

end Windows

section Loop

variable {gpuVaStart : Word} {slot : Slot} (pte : ℕ → Word)

theorem setPtesLoop_frame (gpuVaStart : Word) (i left : ℕ) (s : State) :
    (setPtesLoop gpuVaStart pte i left s).2 =
      { s with ptes := (setPtesLoop gpuVaStart pte i left s).2.ptes } := by
  induction left generalizing i s with
  | zero => rfl
  | succ left ih =>
    unfold setPtesLoop
    split
    · rfl
    · exact ih (i + 1) _

theorem setPtesLoop_other {i left : ℕ} {s : State}
    (h : ∀ j, i ≤ j → j < i + left → resolveL3Slot s (pageVa gpuVaStart j) ≠ some slot) :
    (setPtesLoop gpuVaStart pte i left s).2.ptes slot = s.ptes slot := by
  induction left generalizing i s with
  | zero => rfl
  | succ left ih =>
    unfold setPtesLoop
    split
    · rfl
    · rename_i slot₀ h₀
      have hne : slot ≠ slot₀ := fun he => h i le_rfl (by omega) (he ▸ h₀)
      have hrest := ih (i := i + 1)
        (s := { s with ptes := Function.update s.ptes slot₀ (pte i) })
        fun j hij hj => h j (by omega) (by omega)
      exact hrest.trans (by simp [hne])

/-- A slot that one page of the range has is written exactly when the loop gets that far. -/
theorem setPtesLoop_slot {i left k : ℕ} {s : State} (hik : i ≤ k) (hk : k < i + left)
    (hs : resolveL3Slot s (pageVa gpuVaStart k) = some slot)
    (huniq : ∀ j, i ≤ j → j < i + left → resolveL3Slot s (pageVa gpuVaStart j) = some slot →
      j = k) :
    ((∀ j, i ≤ j → j < k + 1 → (resolveL3Slot s (pageVa gpuVaStart j)).isSome) →
      (setPtesLoop gpuVaStart pte i left s).2.ptes slot = pte k) ∧
    ((¬∀ j, i ≤ j → j < k + 1 → (resolveL3Slot s (pageVa gpuVaStart j)).isSome) →
      (setPtesLoop gpuVaStart pte i left s).2.ptes slot = s.ptes slot) := by
  induction left generalizing i s with
  | zero => omega
  | succ left ih =>
    unfold setPtesLoop
    split
    · rename_i h₀
      refine ⟨fun hall => ?_, fun _ => rfl⟩
      have hsome := hall i le_rfl (by omega)
      rw [h₀] at hsome
      cases hsome
    · rename_i slot₀ h₀
      rcases Nat.eq_or_lt_of_le hik with rfl | hlt
      · obtain rfl : slot₀ = slot := Option.some.inj (h₀.symm.trans hs)
        refine ⟨fun _ => ?_, fun hnot => absurd (fun j hij hj => ?_) hnot⟩
        · refine (setPtesLoop_other pte fun j hij hj he => ?_).trans (by simp)
          have heq := huniq j (by omega) (by omega) he
          omega
        · obtain rfl : j = i := by omega
          simp [hs]
      · have hne : slot ≠ slot₀ := fun he => by
          have heq := huniq i le_rfl (by omega) (he ▸ h₀)
          omega
        -- page `i` is inside, so whether the loop gets to `k` is decided after it
        have hiff : (∀ j, i ≤ j → j < k + 1 → (resolveL3Slot s (pageVa gpuVaStart j)).isSome) ↔
            ∀ j, i + 1 ≤ j → j < k + 1 → (resolveL3Slot s (pageVa gpuVaStart j)).isSome := by
          constructor
          · exact fun h j hij hj => h j (by omega) hj
          · intro h j hij hj
            rcases Nat.eq_or_lt_of_le hij with rfl | hlt'
            · rw [h₀]
              rfl
            · exact h j (by omega) hj
        obtain ⟨hyes, hno⟩ := ih (i := i + 1)
          (s := { s with ptes := Function.update s.ptes slot₀ (pte i) })
          (by omega) (by omega) hs fun j hij hj => huniq j (by omega) (by omega)
        refine ⟨fun hall => hyes (hiff.mp hall), fun hnot =>
          (hno fun h => hnot (hiff.mpr h)).trans ?_⟩
        simp [hne]

end Loop

theorem setPtes_refused {s : State} {gpuVaStart : Word} {pfns : Option (ℕ → Word)} {pageCount : ℕ}
    {attrs : Word} (h : ¬Ready s pageCount ∨ pageCount = 0) :
    (setPtes s gpuVaStart pfns 0 pageCount attrs).2 = s := by
  unfold setPtes
  split
  · rfl
  rename_i hready
  simp only [not_or, Bool.not_eq_false] at hready
  split
  · rfl
  · rename_i hcount
    rcases h with h | h
    · exact absurd ⟨hready.1, hready.2, by omega⟩ h
    · omega

theorem setPtes_loop {s : State} {gpuVaStart : Word} {pfns : Option (ℕ → Word)} {pageCount : ℕ}
    {attrs : Word} (h : Ready s pageCount) (h0 : pageCount ≠ 0)
    (ha : gpuVaStart.toNat % 4096 = 0) :
    (setPtes s gpuVaStart pfns 0 pageCount attrs) =
      setPtesLoop gpuVaStart (fun i =>
        if attrs = 0 then 0
        else match pfns with
          | some pfns => makeL3PagePte (pfns i <<< 12) attrs
          | none => makeL3PagePte (0 + BitVec.ofNat 64 i * 4096) attrs) 0 pageCount s := by
  obtain ⟨hheap, hbound, hcount⟩ := h
  have hc : ¬(pageCount = 0 ∨ pageCount > windowBytes / 4096) := by omega
  have hal : ¬(gpuVaStart &&& 0xfff ≠ 0 ∨ (0 : Word) &&& 0xfff ≠ 0) := by
    rw [not_or, not_not, not_not]
    exact ⟨(aligned_iff gpuVaStart).mpr ha, by decide⟩
  rw [setPtes, if_neg (by simp [hheap, hbound]), if_neg hc, if_neg hal]

/-- The page table after a request, page by page. -/
theorem setPtes_slot {s : State} {gpuVaStart : Word} {pfns : Option (ℕ → Word)} {pageCount : ℕ}
    {attrs : Word} (ha : gpuVaStart.toNat % 4096 = 0) {va : Word} (hva : va.toNat % 4096 = 0)
    {slot : Slot} (hs : resolveL3Slot s va = some slot) :
    ((setPtes s gpuVaStart pfns 0 pageCount attrs).2.ptes slot = s.ptes slot ∧
      ∀ k < pageCount, pageVa gpuVaStart k = va → Ready s pageCount → ¬Reached s gpuVaStart k) ∨
    ∃ k < pageCount, pageVa gpuVaStart k = va ∧ Ready s pageCount ∧ Reached s gpuVaStart k ∧
      (setPtes s gpuVaStart pfns 0 pageCount attrs).2.ptes slot =
        if attrs = 0 then 0
        else match pfns with
          | some pfns => makeL3PagePte (pfns k <<< 12) attrs
          | none => makeL3PagePte (0 + BitVec.ofNat 64 k * 4096) attrs := by
  by_cases hgo : Ready s pageCount ∧ pageCount ≠ 0
  · obtain ⟨hready, h0⟩ := hgo
    rw [setPtes_loop hready h0 ha]
    have hcount : pageCount ≤ 32768 := hready.2.2
    have haligned : ∀ k, (pageVa gpuVaStart k).toNat % 4096 = 0 := by
      intro k
      rw [pageVa_toNat]
      omega
    have hpage : ∀ j, resolveL3Slot s (pageVa gpuVaStart j) = some slot →
        pageVa gpuVaStart j = va :=
      fun j hj => resolve_injective (haligned j) hva hj hs
    have hone : ∀ j k, j < pageCount → k < pageCount → pageVa gpuVaStart j = pageVa gpuVaStart k →
        j = k := fun j k hj hk => pageVa_distinct (by omega) (by omega)
    by_cases hk : ∃ k < pageCount, pageVa gpuVaStart k = va
    · obtain ⟨k, hk, rfl⟩ := hk
      obtain ⟨hyes, hno⟩ := setPtesLoop_slot (fun i =>
          if attrs = 0 then 0
          else match pfns with
            | some pfns => makeL3PagePte (pfns i <<< 12) attrs
            | none => makeL3PagePte (0 + BitVec.ofNat 64 i * 4096) attrs)
        (Nat.zero_le k) (by omega : k < 0 + pageCount) hs
        fun j _ hj he => hone j k (by omega) hk (hpage j he)
      by_cases hreach : Reached s gpuVaStart k
      · exact .inr ⟨k, hk, rfl, hready, hreach, hyes fun j _ hj => hreach j hj⟩
      · refine .inl ⟨hno fun h => hreach fun j hj => h j (Nat.zero_le j) hj, ?_⟩
        intro j hj he _
        rwa [hone j k hj hk he]
    · refine .inl ⟨setPtesLoop_other _ fun j _ hj he => hk ⟨j, by omega, hpage j he⟩, ?_⟩
      exact fun k hlt he => absurd ⟨k, hlt, he⟩ hk
  · refine .inl ⟨?_, ?_⟩
    · rw [setPtes_refused (by tauto)]
    · exact fun k hlt _ hready => absurd ⟨hready, by omega⟩ hgo

theorem setPtes_frame (s : State) (gpuVaStart : Word) (pfns : Option (ℕ → Word))
    (firstPagePa : Word) (pageCount : ℕ) (attrs : Word) :
    (setPtes s gpuVaStart pfns firstPagePa pageCount attrs).2 =
      { s with ptes := (setPtes s gpuVaStart pfns firstPagePa pageCount attrs).2.ptes } := by
  unfold setPtes
  split
  · rfl
  split
  · rfl
  split
  · rfl
  · exact setPtesLoop_frame _ gpuVaStart 0 pageCount s

section Ops

variable {s : State}

theorem map_apply (b : MapAperture) {mdl : List Word} (h : b.mdl = some mdl) :
    ∃ allocations, (Op.map b).apply s = { s with
      ptes := (setPtes s (apertureVa b.offsetInPages) (some (mdlFrame mdl b.mdlOffset)) 0
        (b.numberOfPages % 2 ^ 32) pageAttrRwNx).2.ptes
      allocations := allocations } := by
  have hattrs : pageAttrRwNx ≠ 0 := by decide
  simp only [Op.apply, mapApertureSegment, h]
  split
  · rename_i h0
    rw [setPtes_refused (.inr (by simp [h0]))]
    exact ⟨s.allocations, rfl⟩
  · have hframe := setPtes_frame s (apertureVa b.offsetInPages)
      (some (mdlFrame mdl b.mdlOffset)) 0 (b.numberOfPages % 2 ^ 32) pageAttrRwNx
    simp only [mapGpuPfnRange, reduceCtorEq, hattrs, or_self, if_false]
    split
    · exact ⟨_, hframe⟩
    · rw [hframe]
      exact ⟨_, rfl⟩

theorem unmap_apply (hAllocation offsetInPages numberOfPages : ℕ) :
    ∃ allocations, (Op.unmap hAllocation offsetInPages numberOfPages).apply s = { s with
      ptes := (setPtes { s with allocations := allocations } (apertureVa offsetInPages) none 0
        (numberOfPages % 2 ^ 32) 0).2.ptes
      allocations := allocations } := by
  simp only [Op.apply, unmapApertureSegment]
  split
  · rename_i h0
    refine ⟨s.allocations, ?_⟩
    rw [setPtes_refused (.inr (by simp [h0]))]
  · exact ⟨_, setPtes_frame (stash s hAllocation ⟨none, 0, 0, 0⟩) _ _ _ _ _⟩

structure Inv (s : State) : Prop where
  segment : s.dmaSegmentVa = true
  agree : Agree s

theorem leaf_of_frame {f : Word} (hf : f.toNat < 2 ^ 36) :
    leafOf (makeL3PagePte (f <<< 12) pageAttrRwNx) = some (f <<< 12, pageAttrRwNx) := by
  rw [makeL3PagePte, leafOf_page _ _ (by decide), framed_of_pfn f hf]

theorem mdlFrame_framed {mdl : List Word} (h : ∀ f ∈ mdl, f.toNat < 2 ^ 36) (mdlOffset k : ℕ) :
    (mdlFrame mdl mdlOffset k).toNat < 2 ^ 36 := by
  unfold mdlFrame
  by_cases hk : mdlOffset + k < mdl.length
  · refine h _ ?_
    simp [hk]
  · simp [hk]

theorem agree_iff (h : s.dmaSegmentVa = true) :
    Agree s ↔ ∀ o : Word, o.toNat % 4096 = 0 → o.toNat < s.dmaSegmentBytes → ∀ slot,
      resolveL3Slot s (sysmemGpuBase + o) = some slot → ∀ pa attrs,
        leafOf (s.ptes slot) = some (pa, attrs) → s.dmaSegmentPhys + o = pa := by
  by_cases h0 : s.dmaSegmentBytes = 0
  · simp [Agree, querySegment3, h0]
  · simp only [Agree, querySegment3, h, h0, Bool.true_eq_false, or_self, if_false,
      Except.ok.injEq, forall_eq', translation, Option.bind_eq_some_iff, rootPtPa, and_self,
      if_true, aligned_iff]
    constructor
    · exact fun A o ho hlt slot hs pa attrs hleaf => A o ho hlt pa attrs ⟨slot, hs, hleaf⟩
    · rintro A o ho hlt pa attrs ⟨slot, hs, hleaf⟩
      exact A o ho hlt slot hs pa attrs hleaf

theorem agree_update (h : s.dmaSegmentVa = true) (ptes : Slot → Word)
    (allocations : ℕ → Option Residency) :
    Agree { s with ptes := ptes, allocations := allocations } ↔
      ∀ o : Word, o.toNat % 4096 = 0 → o.toNat < s.dmaSegmentBytes → ∀ slot,
        resolveL3Slot s (sysmemGpuBase + o) = some slot → ∀ pa attrs,
          leafOf (ptes slot) = some (pa, attrs) → s.dmaSegmentPhys + o = pa :=
  agree_iff (s := { s with ptes := ptes, allocations := allocations }) h

theorem base_add_aligned {o : Word} (ho : o.toNat % 4096 = 0) :
    (sysmemGpuBase + o).toNat % 4096 = 0 := by
  rw [BitVec.toNat_add, sysmemGpuBase_toNat]
  omega

/-- A map keeps the two readings together exactly when its frames are in place. -/
theorem map_agree_iff (I : Inv s) (b : MapAperture) (hb : MdlFramed (.map b)) :
    InPlace s (.map b) ↔ Agree ((Op.map b).apply s) := by
  cases hmdl : b.mdl with
  | none =>
    have hsame : (Op.map b).apply s = s := by simp only [Op.apply, mapApertureSegment, hmdl]
    rw [hsame]
    refine ⟨fun _ => I.agree, fun _ _ mdl h => ?_⟩
    rw [hmdl] at h
    cases h
  | some mdl =>
    obtain ⟨allocations, happly⟩ := map_apply (s := s) b hmdl
    have hframed := mdlFrame_framed (hb mdl hmdl) b.mdlOffset
    have hattrs : pageAttrRwNx ≠ 0 := by decide
    have hal := apertureVa_aligned b.offsetInPages
    have hold := (agree_iff I.segment).mp I.agree
    rw [happly, agree_update I.segment]
    constructor
    · intro hplace o ho hlt slot hs pa attrs hleaf
      rcases setPtes_slot hal (base_add_aligned ho) hs with
        ⟨hsame, -⟩ | ⟨k, hk, hva, hready, hr, hw⟩
      · rw [hsame] at hleaf
        exact hold o ho hlt slot hs pa attrs hleaf
      · rw [if_neg hattrs] at hw
        rw [hw, leaf_of_frame (hframed k)] at hleaf
        have hoff : pageVa (apertureVa b.offsetInPages) k - sysmemGpuBase = o := by
          rw [hva, BitVec.add_comm, BitVec.add_sub_cancel]
        have heq := hplace hready mdl hmdl k hk hr (by rwa [hoff])
        rw [hoff] at heq
        exact heq.trans (Prod.mk.inj (Option.some.inj hleaf)).1
    · intro A hready mdl' hmdl' k hk hr hlt
      obtain rfl := Option.some.inj (hmdl.symm.trans hmdl')
      obtain ⟨slot, hs⟩ := Option.isSome_iff_exists.mp (hr k (by omega))
      have hcount : b.numberOfPages % 2 ^ 32 ≤ 32768 := hready.2.2
      have hva : (pageVa (apertureVa b.offsetInPages) k).toNat % 4096 = 0 := by
        rw [pageVa_toNat]
        omega
      have hback : sysmemGpuBase + (pageVa (apertureVa b.offsetInPages) k - sysmemGpuBase) =
          pageVa (apertureVa b.offsetInPages) k := by
        rw [BitVec.add_comm, BitVec.sub_add_cancel]
      have ho : (pageVa (apertureVa b.offsetInPages) k - sysmemGpuBase).toNat % 4096 = 0 := by
        rw [BitVec.toNat_sub, sysmemGpuBase_toNat]
        omega
      rcases setPtes_slot hal hva hs with ⟨-, hnot⟩ | ⟨j, hj, he, -, -, hw⟩
      · exact absurd hr (hnot k hk rfl hready)
      · obtain rfl : j = k := pageVa_distinct (by omega) (by omega) he
        rw [if_neg hattrs] at hw
        refine A _ ho hlt slot (hback.symm ▸ hs) _ pageAttrRwNx ?_
        exact (congrArg leafOf hw).trans (leaf_of_frame (hframed j))

theorem unmap_agree (I : Inv s) (hAllocation offsetInPages numberOfPages : ℕ) :
    Agree ((Op.unmap hAllocation offsetInPages numberOfPages).apply s) := by
  obtain ⟨allocations, happly⟩ := unmap_apply (s := s) hAllocation offsetInPages numberOfPages
  have hal := apertureVa_aligned offsetInPages
  have hold := (agree_iff I.segment).mp I.agree
  rw [happly, agree_update I.segment]
  intro o ho hlt slot hs pa attrs hleaf
  rcases setPtes_slot (s := { s with allocations := allocations }) hal (base_add_aligned ho) hs with
    ⟨hsame, -⟩ | ⟨k, hk, hva, hready, hr, hw⟩
  · rw [hsame] at hleaf
    exact hold o ho hlt slot hs pa attrs hleaf
  · rw [if_pos rfl] at hw
    rw [hw, leafOf_zero] at hleaf
    cases hleaf

theorem apply_agree_iff (I : Inv s) (op : Op) (hf : MdlFramed op) :
    InPlace s op ↔ Agree (op.apply s) := by
  cases op with
  | map b => exact map_agree_iff I b hf
  | unmap h offset pages => exact ⟨fun _ => unmap_agree I h offset pages, fun _ => trivial⟩

theorem apply_segment (op : Op) : (op.apply s).dmaSegmentVa = s.dmaSegmentVa := by
  cases op with
  | map b =>
    cases hmdl : b.mdl with
    | none => simp only [Op.apply, mapApertureSegment, hmdl]
    | some mdl =>
      obtain ⟨allocations, happly⟩ := map_apply (s := s) b hmdl
      rw [happly]
  | unmap h offset pages =>
    obtain ⟨allocations, happly⟩ := unmap_apply (s := s) h offset pages
    rw [happly]

end Ops

theorem dmaSegmentSize_le {granted : ℕ → Bool} {bytes : ℕ}
    (h : dmaSegmentSize granted = some bytes) : bytes ≤ windowBytes := by
  obtain ⟨k, -, rfl⟩ := List.mem_map.mp (List.mem_of_find?_eq_some h)
  rw [Nat.shiftRight_eq_div_pow]
  exact Nat.div_le_self _ _

/-- Offsets in the window lead to tables of the aperture. -/
theorem resolve_aperture {s : State} {o : Word} (ho : o.toNat < windowBytes) {slot : Slot}
    (hs : resolveL3Slot s (sysmemGpuBase + o) = some slot) : ∃ t i, slot = .aperture t i := by
  have hva : (sysmemGpuBase + o).toNat = 0x10000000 + o.toNat := by
    rw [BitVec.toNat_add, sysmemGpuBase_toNat]
    unfold windowBytes at ho
    omega
  rw [resolve_pages, if_neg (by omega)] at hs
  obtain ⟨-, hslot⟩ := Option.ite_none_right_eq_some.mp hs
  exact ⟨_, _, (Option.some.inj hslot).symm⟩

theorem initialized_inv (phys : Word) {bytes : ℕ} (hb : bytes ≤ windowBytes) (ptes : ℕ → Word)
    (allocations : ℕ → Option Residency) : Inv (initialized phys bytes ptes allocations) := by
  refine ⟨rfl, (agree_iff rfl).mpr ?_⟩
  intro o _ hlt slot hs pa attrs hleaf
  obtain ⟨t, i, rfl⟩ := resolve_aperture (Nat.lt_of_lt_of_le hlt hb) hs
  change leafOf 0 = some (pa, attrs) at hleaf
  rw [leafOf_zero] at hleaf
  cases hleaf

/-- Over any history of maps and unmaps: the root of every offset is the frame that is mapped
there exactly when every map of the segment puts the block's own frames in their places. -/
theorem roots_agree_iff (granted : ℕ → Bool) (phys : Word) (bytes : ℕ)
    (hb : dmaSegmentSize granted = some bytes) (ptes : ℕ → Word)
    (allocations : ℕ → Option Residency) (ops : List Op) (hf : ∀ op ∈ ops, MdlFramed op) :
    Guarded step InPlace (initialized phys bytes ptes allocations) ops ↔
      Always step (fun _ _ t => Agree t) (initialized phys bytes ptes allocations) ops := by
  refine allowed_guarded_iff_always ?_ ?_
    (initialized_inv phys (dmaSegmentSize_le hb) ptes allocations)
    ((guarded_true step _ ops).of_labels hf)
  · rintro s op t I ⟨hop, -⟩ hg ht
    obtain rfl := Option.some.inj ht
    exact ⟨(apply_segment op).trans I.segment, (apply_agree_iff I op hop).mp hg⟩
  · rintro s op t I ⟨hop, -⟩ ht
    obtain rfl := Option.some.inj ht
    exact apply_agree_iff I op hop

instance (s : State) (gpuVaStart : Word) (k : ℕ) : Decidable (Reached s gpuVaStart k) :=
  inferInstanceAs (Decidable (∀ _ < _, _))

instance (s : State) (pageCount : ℕ) : Decidable (Ready s pageCount) :=
  inferInstanceAs (Decidable (_ ∧ _))

instance (s : State) : (op : Op) → Decidable (InPlace s op)
  | .map _ => inferInstanceAs (Decidable (_ → ∀ _ ∈ _, _))
  | .unmap .. => isTrue trivial

def booted : State := initialized 0x80000000 windowBytes (fun _ => 0) fun _ => none

def mapAt (offsetInPages : ℕ) (mdl : List Word) : Op :=
  .map ⟨0, offsetInPages, mdl.length, some mdl, 0⟩

theorem block_frames_agree : Always step (fun _ _ t => Agree t) booted
    [mapAt 3 [0x80003, 0x80004], .unmap 0 3 1, mapAt 3 [0x80003]] := by
  refine (roots_agree_iff (fun _ => true) 0x80000000 windowBytes rfl (fun _ => 0) (fun _ => none) _
    ?_).mp (by decide +kernel)
  simp only [List.forall_mem_cons]
  refine ⟨?_, trivial, ?_, by simp⟩ <;> rintro mdl ⟨⟩ <;> simp

/-- The frame that is mapped at offset `0x3000` is not the one that the root points to. -/
theorem root_misses_frame : ∃ t seg, step booted (mapAt 3 [0x12345]) = some t ∧
    querySegment3 t = .ok seg ∧
    translation t (seg.2.baseAddress + 0x3000) = some (0x12345000, pageAttrRwNx) ∧
    rootPtPa t.dmaSegmentVa t.dmaSegmentPhys seg.1 0x3000 = 0x80003000 :=
  ⟨_, (1, ⟨true, true, true, true, sysmemGpuBase, 0, windowBytes, windowBytes⟩), rfl,
    by decide +kernel, by decide +kernel, by decide +kernel⟩

end WinMali.ApertureRoots
