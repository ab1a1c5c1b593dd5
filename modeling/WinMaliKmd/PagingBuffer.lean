import WinMaliKmd.ApertureAtomic
import WinMaliKmd.AsSlots

/-!
# Paging operations

`DxgkDdiBuildPagingBuffer` does the work of an operation on the CPU, and only then
looks whether the DMA buffer has room for a placeholder. An operation that is sent
back for a larger buffer is therefore done twice.
-/

set_option autoImplicit false

namespace WinMali.PagingBuffer
open WinMali.SlotMask WinMali.AsSlots WinMali.Lpae WinMali.VmPageTable WinMali.ApertureRoots
  WinMali.ApertureAtomic

inductive UpdateMode
  | cpuVirtual
  | other (mode : ℕ)
deriving DecidableEq, Repr

/-- `PageAddress` and `PageTableAddress` are one field. -/
structure DxgkPte where
  valid : Bool
  readOnly : Bool
  noExecute : Bool
  pageAddress : Word

/-- `none` is a null pointer. -/
structure UpdatePageTable where
  updateMode : UpdateMode
  cpuVirtual : Option Word
  use64KBPages : Bool
  repeatEntry : Bool
  pageTableEntries : Option (ℕ → DxgkPte)
  numPageTableEntries : ℕ
  startIndex : ℕ
  pageTableLevel : ℕ

inductive Operation
  | updatePageTable (op : UpdatePageTable)
  | flushTlb
  | mapApertureSegment (b : MapAperture)
  | unmapApertureSegment (hAllocation offsetInPages numberOfPages : ℕ)
  | writePhysical
  | transfer
  | fill
  | discardContent
  | readPhysical
  | specialLockTransfer
  | virtualTransfer
  | virtualFill
  | initContextResource
  | notifyResidency
  | updateContextAllocation
  | copyPageTableEntries
  | unknown (operation : ℕ)

structure BuildPagingBuffer where
  operation : Operation
  pDmaBuffer : Option Word
  dmaSize : BitVec 32

/-- `memory` holds the words of the page tables that the graphics kernel lends, `dma` the bytes of
its DMA buffers, and `tlbFlushes` the slots that were flushed. -/
structure Kmd where
  adapter : Adapter
  aperture : State
  memory : Word → Word
  dma : Word → BitVec 8
  tlbFlushes : List ℕ

inductive PagingStatus
  | nt (status : NtStatus)
  | graphicsInsufficientDmaBuffer
deriving DecidableEq, Repr

def encodeLpaePte (pte : DxgkPte) : Word :=
  if !pte.valid then 0
  else
    let attrs :=
      if pte.readOnly then if pte.noExecute then pageAttrRoNx else pageAttrRoEx
      else if pte.noExecute then pageAttrRwNx
      else pageAttrRwEx
    (pte.pageAddress &&& paMask) ||| attrs

def tableEntry (leaf : Bool) (pte : DxgkPte) : Word :=
  if leaf then encodeLpaePte pte
  else if pte.valid then (pte.pageAddress &&& paMask) ||| tableDesc
  else 0

def entryVa (pt : Word) (i : ℕ) : Word := pt + BitVec.ofNat 64 i * 8

def writeEntries (pt : Word) (entry : ℕ → Word) : ℕ → ℕ → (Word → Word) → Word → Word
  | _, 0, m => m
  | i, left + 1, m =>
    writeEntries pt entry (i + 1) left (Function.update m (entryVa pt i) (entry i))

def updatePageTable (m : Word → Word) (op : UpdatePageTable) : NtStatus × (Word → Word) :=
  if op.updateMode ≠ .cpuVirtual then (.notSupported, m)
  else
    match op.cpuVirtual with
    | none => (.invalidParameter, m)
    | some cpuVirtual =>
      if op.use64KBPages then (.notSupported, m)
      else
        match op.pageTableEntries with
        | none => (.success, m)
        | some pte =>
          let pt := entryVa cpuVirtual op.startIndex
          let leaf := op.pageTableLevel == 0
          (.success, writeEntries pt
            (fun i => tableEntry leaf (pte (if op.repeatEntry then 0 else i)))
            0 op.numPageTableEntries m)

/-- `reply` is what the flush of a slot comes to. -/
def flushUserAsSlots (a : Adapter) (reply : ℕ → NtStatus) : NtStatus × List ℕ :=
  if !a.gpuRegsMapped then (.deviceNotReady, [])
  else
    let slots := (List.range asSlotMax).filter fun as =>
      hasBit a.asSlotInUseMask as && as != mcuAs && as != bringupAs
    ((slots.map reply).find? (fun st => !st.ok) |>.getD .success,
      slots.filter fun as => (reply as).ok)

def perform (reply : ℕ → NtStatus) (s : Kmd) : Operation → NtStatus × Kmd
  | .updatePageTable op =>
    let (status, memory) := updatePageTable s.memory op
    (status, { s with memory := memory })
  | .flushTlb =>
    let (status, slots) := flushUserAsSlots s.adapter reply
    (status, { s with tlbFlushes := s.tlbFlushes ++ slots })
  | .mapApertureSegment b =>
    let (status, aperture) := mapApertureSegment s.aperture b
    (status, { s with aperture := aperture })
  | .unmapApertureSegment hAllocation offsetInPages numberOfPages =>
    let (status, aperture) :=
      unmapApertureSegment s.aperture hAllocation offsetInPages numberOfPages
    (status, { s with aperture := aperture })
  | .writePhysical => (.success, s)
  | .transfer | .fill | .discardContent | .readPhysical | .specialLockTransfer | .virtualTransfer
  | .virtualFill | .initContextResource | .notifyResidency | .updateContextAllocation
  | .copyPageTableEntries => (.success, s)
  | .unknown _ => (.notSupported, s)

/-- `none` is FALSE: the buffer is too small. -/
def emitNop (dma : Word → BitVec 8) (bpb : BuildPagingBuffer) :
    Option ((Word → BitVec 8) × BuildPagingBuffer) :=
  match bpb.pDmaBuffer with
  | none => none
  | some cursor =>
    if bpb.dmaSize < 8 then none
    else
      some (fun va => if (va - cursor).toNat < 8 then 0 else dma va,
        { bpb with pDmaBuffer := some (cursor + 8), dmaSize := bpb.dmaSize - 8 })

/-- `found` says whether the handle belongs to an adapter. -/
def buildPagingBuffer (reply : ℕ → NtStatus) (found : Bool) (s : Kmd) :
    Option BuildPagingBuffer → PagingStatus × Option BuildPagingBuffer × Kmd
  | none => (.nt .success, none, s)
  | some bpb =>
    if !found then (.nt .success, some bpb, s)
    else
      let (status, s) := perform reply s bpb.operation
      let status := if !status.ok then .success else status
      if bpb.pDmaBuffer ≠ none ∧ bpb.dmaSize ≠ 0 then
        match emitNop s.dma bpb with
        | none => (.graphicsInsufficientDmaBuffer, some bpb, s)
        | some (dma, bpb) => (.nt status, some bpb, { s with dma := dma })
      else (.nt status, some bpb, s)

section Entries

variable {pt : Word} {entry : ℕ → Word}

theorem writeEntries_other {va : Word} {i left : ℕ} (m : Word → Word)
    (h : ∀ j, i ≤ j → j < i + left → entryVa pt j ≠ va) :
    writeEntries pt entry i left m va = m va := by
  induction left generalizing i m with
  | zero => rfl
  | succ left ih =>
    rw [writeEntries, ih _ fun j hij hj => h j (by omega) (by omega)]
    exact Function.update_of_ne (h i le_rfl (by omega)).symm _ _

/-- A word that is written at all does not depend on what was there. -/
theorem writeEntries_written {va : Word} {i left : ℕ} (m m' : Word → Word)
    (h : ∃ j, i ≤ j ∧ j < i + left ∧ entryVa pt j = va) :
    writeEntries pt entry i left m va = writeEntries pt entry i left m' va := by
  induction left generalizing i m m' with
  | zero =>
    obtain ⟨j, hij, hj, -⟩ := h
    omega
  | succ left ih =>
    rw [writeEntries, writeEntries]
    by_cases hrest : ∃ j, i + 1 ≤ j ∧ j < i + 1 + left ∧ entryVa pt j = va
    · exact ih _ _ hrest
    · have hout : ∀ j, i + 1 ≤ j → j < i + 1 + left → entryVa pt j ≠ va :=
        fun j hij hj he => hrest ⟨j, hij, hj, he⟩
      obtain ⟨j, hij, hj, hva⟩ := h
      have hji : j = i := by
        by_contra hne
        exact hrest ⟨j, by omega, by omega, hva⟩
      subst hji
      rw [writeEntries_other _ hout, writeEntries_other _ hout, ← hva]
      simp

theorem writeEntries_again (i left : ℕ) (m : Word → Word) :
    writeEntries pt entry i left (writeEntries pt entry i left m) =
      writeEntries pt entry i left m := by
  funext va
  by_cases h : ∃ j, i ≤ j ∧ j < i + left ∧ entryVa pt j = va
  · exact writeEntries_written _ _ h
  · exact writeEntries_other _ fun j hij hj he => h ⟨j, hij, hj, he⟩

theorem updatePageTable_status (m m' : Word → Word) (op : UpdatePageTable) :
    (updatePageTable m op).1 = (updatePageTable m' op).1 := by
  unfold updatePageTable
  split
  · rfl
  split
  · rfl
  split
  · rfl
  · split <;> rfl

theorem updatePageTable_again (m : Word → Word) (op : UpdatePageTable) :
    (updatePageTable (updatePageTable m op).2 op).2 = (updatePageTable m op).2 := by
  unfold updatePageTable
  split
  · rfl
  split
  · rfl
  split
  · rfl
  split
  · rfl
  · exact writeEntries_again 0 op.numPageTableEntries m

end Entries

section Aperture

variable {s : State} {gpuVaStart : Word} {count : ℕ} (pte : ℕ → Word)

theorem setPtesLoop_status (gpuVaStart : Word) (i left : ℕ) (s : State) (ptes : Slot → Word) :
    (setPtesLoop gpuVaStart pte i left { s with ptes := ptes }).1 =
      (setPtesLoop gpuVaStart pte i left s).1 := by
  induction left generalizing i s ptes with
  | zero => rfl
  | succ left ih =>
    unfold setPtesLoop
    rw [resolve_frame]
    split
    · rfl
    · rename_i slot _
      have hwritten := ih (i + 1) s (Function.update s.ptes slot (pte i))
      exact (ih (i + 1) s _).trans hwritten.symm

/-- The loop finds in every slot that it gets to what it is about to write there. -/
theorem setPtesLoop_again (ha : gpuVaStart.toNat % 4096 = 0) (hc : count ≤ windowBytes / 4096) :
    setPtesLoop gpuVaStart pte 0 count (setPtesLoop gpuVaStart pte 0 count s).2 =
      setPtesLoop gpuVaStart pte 0 count s := by
  have hframe := setPtesLoop_frame pte gpuVaStart 0 count s
  have hreached : ∀ k, Reached (setPtesLoop gpuVaStart pte 0 count s).2 gpuVaStart k →
      Reached s gpuVaStart k := by
    intro k hk j hj
    have h := hk j hj
    rwa [hframe, resolve_frame] at h
  have hstatus : (setPtesLoop gpuVaStart pte 0 count (setPtesLoop gpuVaStart pte 0 count s).2).1 =
      (setPtesLoop gpuVaStart pte 0 count s).1 := by
    rw [hframe]
    exact setPtesLoop_status pte gpuVaStart 0 count s _
  have hptes : (setPtesLoop gpuVaStart pte 0 count
      (setPtesLoop gpuVaStart pte 0 count s).2).2.ptes =
        (setPtesLoop gpuVaStart pte 0 count s).2.ptes := by
    funext slot
    rcases loop_slot (s := (setPtesLoop gpuVaStart pte 0 count s).2) pte ha hc slot with
      ⟨k, hk, hs, hr, hw⟩ | ⟨-, hw⟩
    · rw [hframe, resolve_frame] at hs
      rcases loop_slot (s := s) pte ha hc slot with ⟨j, hj, hs', -, hw'⟩ | ⟨hnot, -⟩
      · rw [hw, hw', pages_distinct ha hc hj hk hs' hs]
      · exact absurd (hreached k hr) (hnot k hk hs)
    · exact hw
  apply Prod.ext hstatus
  rw [setPtesLoop_frame, hptes]

theorem setPtesLoop_allocations (gpuVaStart : Word) (i left : ℕ) (s : State)
    (al : ℕ → Option Residency) :
    setPtesLoop gpuVaStart pte i left { s with allocations := al } =
      ((setPtesLoop gpuVaStart pte i left s).1,
        { (setPtesLoop gpuVaStart pte i left s).2 with allocations := al }) := by
  induction left generalizing i s with
  | zero => rfl
  | succ left ih =>
    have hresolve : resolveL3Slot { s with allocations := al } (pageVa gpuVaStart i) =
        resolveL3Slot s (pageVa gpuVaStart i) := rfl
    unfold setPtesLoop
    rw [hresolve]
    split
    · rfl
    · rename_i slot _
      exact ih (i + 1) { s with ptes := Function.update s.ptes slot (pte i) }

theorem apply_frame (s : State) (c : Call) :
    (c.apply s).2 = { s with ptes := (c.apply s).2.ptes } := by
  rcases apply_eq s c with ⟨-, -, heq⟩ | ⟨-, -, heq⟩
  · rw [heq]
    exact setPtesLoop_frame _ _ _ _ _
  · rw [heq]

theorem apply_again (s : State) (c : Call) : c.apply (c.apply s).2 = c.apply s := by
  rcases apply_eq s c with ⟨hm, ha, heq⟩ | ⟨-, -, heq⟩
  · rcases apply_eq (c.apply s).2 c with ⟨-, -, heq'⟩ | ⟨hno, -⟩
    · rw [heq', heq]
      exact setPtesLoop_again _ ((aligned_iff _).mp ha.2.2.1) ha.1.2.2
    · rw [apply_frame] at hno
      exact absurd ⟨hm, ha⟩ hno
  · rw [heq]

/-- The page tables do not depend on what is stashed. -/
theorem apply_allocations (s : State) (c : Call) (al : ℕ → Option Residency) :
    c.apply { s with allocations := al } =
      ((c.apply s).1, { (c.apply s).2 with allocations := al }) := by
  have hset : ∀ start pfns pa count attrs,
      setPtes { s with allocations := al } start pfns pa count attrs =
        ((setPtes s start pfns pa count attrs).1,
          { (setPtes s start pfns pa count attrs).2 with allocations := al }) := by
    intro start pfns pa count attrs
    unfold setPtes
    split
    · rfl
    split
    · rfl
    split
    · rfl
    · exact setPtesLoop_allocations _ _ _ _ _ _
  cases c with
  | mapGpuRange start pa count attrs =>
    simp only [Call.apply, ApertureRoots.mapGpuRange]
    split
    · rfl
    · exact hset start none pa count attrs
  | mapGpuPfnRange start pfns count attrs =>
    simp only [Call.apply, ApertureRoots.mapGpuPfnRange]
    split
    · rfl
    · exact hset start pfns 0 count attrs
  | unmapGpuRange start count => exact hset start none 0 count 0

theorem stash_again (s : State) (hAllocation : ℕ) (r : Residency) :
    stash (stash s hAllocation r) hAllocation r = stash s hAllocation r := by
  unfold stash
  congr 1
  funext h
  by_cases hh : h = hAllocation
  · subst hh
    simp [Option.map_map, Function.comp_def]
  · simp [hh]

theorem mapApertureSegment_again (s : State) (b : MapAperture) :
    mapApertureSegment (mapApertureSegment s b).2 b = mapApertureSegment s b := by
  obtain ⟨hAllocation, offset, pages, mdl, mdlOffset⟩ := b
  cases mdl with
  | none => rfl
  | some mdl =>
    by_cases h0 : pages = 0
    · simp [mapApertureSegment, h0]
    let c : Call := .mapGpuPfnRange (apertureVa offset) (some (mdlFrame mdl mdlOffset))
      (pages % 2 ^ 32) pageAttrRwNx
    have hc : ∀ s, mapGpuPfnRange s (apertureVa offset) (some (mdlFrame mdl mdlOffset))
        (pages % 2 ^ 32) pageAttrRwNx = c.apply s := fun _ => rfl
    have hunfold : ∀ s, mapApertureSegment s ⟨hAllocation, offset, pages, some mdl, mdlOffset⟩ =
        if !(c.apply s).1.ok then c.apply s
        else (.success, stash (c.apply s).2 hAllocation
          ⟨some mdl, mdlOffset, pages % 2 ^ 32, apertureVa offset⟩) := by
      intro s
      simp only [mapApertureSegment, if_neg h0, hc]
    rw [hunfold s]
    split
    · rw [hunfold, apply_again, if_pos ‹_›]
    · have hagain := apply_allocations (c.apply s).2 c
        (stash (c.apply s).2 hAllocation
          ⟨some mdl, mdlOffset, pages % 2 ^ 32, apertureVa offset⟩).allocations
      rw [apply_again] at hagain
      rw [hunfold]
      change c.apply (stash (c.apply s).2 _ _) = (_, stash (c.apply s).2 _ _) at hagain
      rw [hagain, if_neg ‹_›, stash_again]

theorem unmapApertureSegment_again (s : State) (hAllocation offset pages : ℕ) :
    unmapApertureSegment (unmapApertureSegment s hAllocation offset pages).2 hAllocation offset
      pages = unmapApertureSegment s hAllocation offset pages := by
  by_cases h0 : pages = 0
  · simp [unmapApertureSegment, h0]
  let c : Call := .unmapGpuRange (apertureVa offset) (pages % 2 ^ 32)
  have hunfold : ∀ s, unmapApertureSegment s hAllocation offset pages =
      c.apply (stash s hAllocation ⟨none, 0, 0, 0⟩) := by
    intro s
    rw [unmapApertureSegment, if_neg h0]
    rfl
  have hstash : stash (c.apply (stash s hAllocation ⟨none, 0, 0, 0⟩)).2 hAllocation
      ⟨none, 0, 0, 0⟩ = (c.apply (stash s hAllocation ⟨none, 0, 0, 0⟩)).2 := by
    rw [apply_frame]
    have h := congrArg State.allocations (stash_again s hAllocation ⟨none, 0, 0, 0⟩)
    unfold stash at h ⊢
    simp only at h ⊢
    rw [h]
  rw [hunfold s, hunfold, hstash, apply_again]

end Aperture

/-- Neither the DMA buffer nor the slots that were flushed say what an operation does. -/
theorem perform_again (reply : ℕ → NtStatus) (s : Kmd) (op : Operation) :
    (perform reply (perform reply s op).2 op).1 = (perform reply s op).1 ∧
      (perform reply (perform reply s op).2 op).2.memory = (perform reply s op).2.memory ∧
      (perform reply (perform reply s op).2 op).2.aperture = (perform reply s op).2.aperture := by
  cases op with
  | updatePageTable op =>
    exact ⟨updatePageTable_status _ _ op, updatePageTable_again s.memory op, rfl⟩
  | mapApertureSegment b =>
    have h := mapApertureSegment_again s.aperture b
    exact ⟨(Prod.ext_iff.mp h).1, rfl, (Prod.ext_iff.mp h).2⟩
  | unmapApertureSegment hAllocation offset pages =>
    have h := unmapApertureSegment_again s.aperture hAllocation offset pages
    exact ⟨(Prod.ext_iff.mp h).1, rfl, (Prod.ext_iff.mp h).2⟩
  | _ => exact ⟨rfl, rfl, rfl⟩

/-- The block that comes back depends on the one that was passed, and not on the state. -/
def returned (bpb : BuildPagingBuffer) : PagingStatus × BuildPagingBuffer :=
  match bpb.pDmaBuffer with
  | none => (.nt .success, bpb)
  | some cursor =>
    if bpb.dmaSize = 0 then (.nt .success, bpb)
    else if bpb.dmaSize < 8 then (.graphicsInsufficientDmaBuffer, bpb)
    else
      (.nt .success, { bpb with pDmaBuffer := some (cursor + 8), dmaSize := bpb.dmaSize - 8 })

theorem buildPagingBuffer_spec (reply : ℕ → NtStatus) (s : Kmd) (bpb : BuildPagingBuffer) :
    ∃ dma, buildPagingBuffer reply true s (some bpb) =
      ((returned bpb).1, some (returned bpb).2,
        { (perform reply s bpb.operation).2 with dma := dma }) := by
  have hsanitized : (if !(perform reply s bpb.operation).1.ok then .success
      else (perform reply s bpb.operation).1) = NtStatus.success := by
    cases (perform reply s bpb.operation).1 <;> rfl
  obtain ⟨op, buffer, size⟩ := bpb
  cases buffer with
  | none =>
    refine ⟨(perform reply s op).2.dma, ?_⟩
    simp only [buildPagingBuffer, hsanitized, returned]
    rfl
  | some cursor =>
    by_cases h0 : size = 0
    · refine ⟨(perform reply s op).2.dma, ?_⟩
      simp only [buildPagingBuffer, hsanitized, returned, h0]
      rfl
    have hbuf : some cursor ≠ none ∧ size ≠ 0 := ⟨Option.some_ne_none _, h0⟩
    by_cases h8 : size < 8
    · refine ⟨(perform reply s op).2.dma, ?_⟩
      simp only [buildPagingBuffer, returned, emitNop, if_neg h0, if_pos h8, if_pos hbuf]
      rfl
    · refine ⟨fun va => if (va - cursor).toNat < 8 then 0 else (perform reply s op).2.dma va, ?_⟩
      simp only [buildPagingBuffer, hsanitized, returned, emitNop, if_neg h0, if_neg h8,
        if_pos hbuf]
      rfl

/-- Whatever the operation comes to, only two statuses leave, the second one for a buffer
that is too small for the placeholder, and doing the operation again for a larger buffer
changes nothing that it left. -/
theorem buildPagingBuffer_contract (reply : ℕ → NtStatus) (s : Kmd) (bpb : BuildPagingBuffer) :
    let (status, after, s₁) := buildPagingBuffer reply true s (some bpb)
    (status = .nt .success ∨ status = .graphicsInsufficientDmaBuffer) ∧
    (status = .graphicsInsufficientDmaBuffer ↔
      bpb.pDmaBuffer ≠ none ∧ 0 < bpb.dmaSize.toNat ∧ bpb.dmaSize.toNat < 8) ∧
    (∀ cursor, bpb.pDmaBuffer = some cursor → 8 ≤ bpb.dmaSize.toNat →
      status = .nt .success ∧ ∃ bpb', after = some bpb' ∧ bpb'.pDmaBuffer = some (cursor + 8) ∧
        bpb'.dmaSize.toNat = bpb.dmaSize.toNat - 8) ∧
    (status = .graphicsInsufficientDmaBuffer →
      ∀ larger : BuildPagingBuffer, larger.operation = bpb.operation →
        let (again, afterAgain, s₂) := buildPagingBuffer reply true s₁ (some larger)
        let (once, afterOnce, s') := buildPagingBuffer reply true s (some larger)
        again = once ∧ afterAgain = afterOnce ∧
          s₂.memory = s'.memory ∧ s₂.aperture = s'.aperture) := by
  obtain ⟨dma, hout⟩ := buildPagingBuffer_spec reply s bpb
  have hword : (8 : BitVec 32).toNat = 8 := rfl
  rw [hout]
  refine ⟨?_, ?_, ?_, ?_⟩
  · unfold returned
    grind
  · obtain ⟨op, buffer, size⟩ := bpb
    have hzero : size = 0 ↔ size.toNat = 0 := by rw [← BitVec.toNat_inj]; rfl
    cases buffer with
    | none => simp [returned]
    | some cursor =>
      simp only [returned, hzero, BitVec.lt_def, hword, ne_eq, reduceCtorEq, not_false_eq_true,
        true_and]
      split
      · simp [*]
      · split <;> simp <;> omega
  · intro cursor hbuf hsize
    have hlt : ¬bpb.dmaSize < 8 := by rw [BitVec.lt_def, hword]; omega
    have h0 : bpb.dmaSize ≠ 0 := by
      intro h
      rw [h] at hsize
      exact absurd hsize (by decide)
    have hsub : (bpb.dmaSize - 8).toNat = bpb.dmaSize.toNat - 8 := by
      rw [BitVec.toNat_sub, hword]
      have := bpb.dmaSize.isLt
      omega
    simp only [returned, hbuf, if_neg h0, if_neg hlt]
    exact ⟨trivial, _, rfl, rfl, hsub⟩
  · intro _ larger hop
    obtain ⟨dma₂, htwice⟩ := buildPagingBuffer_spec reply
      { (perform reply s bpb.operation).2 with dma := dma } larger
    obtain ⟨dma', honce⟩ := buildPagingBuffer_spec reply s larger
    rw [htwice, honce, hop]
    have hdma : ∀ (k : Kmd) op, (perform reply { k with dma := dma } op).2.memory =
        (perform reply k op).2.memory ∧
        (perform reply { k with dma := dma } op).2.aperture =
          (perform reply k op).2.aperture := by
      intro k op
      cases op <;> exact ⟨rfl, rfl⟩
    obtain ⟨-, hmem, hap⟩ := perform_again reply s bpb.operation
    exact ⟨rfl, rfl, (hdma _ _).1.trans hmem, (hdma _ _).2.trans hap⟩

/-- Four bytes are too few for every operation. -/
example (reply : ℕ → NtStatus) (s : Kmd) (op : Operation) :
    (buildPagingBuffer reply true s (some ⟨op, some 0x1000, 4⟩)).1 =
      .graphicsInsufficientDmaBuffer := by
  obtain ⟨dma, h⟩ := buildPagingBuffer_spec reply s ⟨op, some 0x1000, 4⟩
  rw [h]
  rfl

end WinMali.PagingBuffer
