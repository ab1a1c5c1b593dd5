import WinMaliKmd.HeapStamps

/-!
# Where the blocks of tiler heaps lie

The bump allocator of a VM lays blocks one after another. A block stands when its pages lead to
the frames of a BO that is still there and its first word is what was stamped into it.
-/

set_option autoImplicit false

namespace WinMali.HeapLayout
open WinMali.AsSlots WinMali.Lpae WinMali.RadixTree WinMali.VmPageTable WinMali.VmTable
  WinMali.VmLeafWrites WinMali.BoTable WinMali.PageBooks WinMali.HeapBlocks WinMali.HeapStamps

structure Block where
  va : Word
  size : ℕ
  link : Word

def Block.Stands (bos : List Bo) (pt : VmPt) (mem : Contents) (b : Block) : Prop :=
  ∃ bo ∈ bos, b.size / 4096 ≤ bo.pfns.length ∧ mem (pfnAt bo.pfns 0) (wordIndex 0) = b.link ∧
    ∀ k < b.size / 4096, lastLeaf pt.trace (pageOf (pageVa b.va k)) =
      some (pfnAt bo.pfns k <<< 12, pageAttrRwNx)

/-- Blocks of whole pages between `low` and the bump pointer. -/
structure Laid (low : ℕ) (bos : List Bo) (vm : Vm) (mem : Contents) (bs : List Block) : Prop where
  stands : ∀ b ∈ bs, b.Stands bos vm.pt mem
  whole : ∀ b ∈ bs, b.va.toNat % 4096 = 0 ∧ b.size % 4096 = 0 ∧ 0 < b.size
  within : ∀ b ∈ bs, low ≤ b.va.toNat ∧ b.va.toNat + b.size ≤ vm.kmdVaNext.toNat
  ordered : bs.Pairwise fun b c => b.va.toNat + b.size ≤ c.va.toNat
  next : vm.kmdVaNext.toNat % 4096 = 0 ∧ low ≤ vm.kmdVaNext.toNat ∧ vm.kmdVaNext.toNat < 2 ^ 48

section Keeping

variable {low : ℕ} {d d' : Device} {vm vm' : Vm} {mem mem' : Contents} {bs : List Block}

theorem Block.Stands.keep {b : Block} {bos bos' : List Bo} {pt pt' : VmPt}
    (h : b.Stands bos pt mem) (hsize : 0 < b.size / 4096) (hbos : ∀ bo ∈ bos, bo ∈ bos')
    (hmem : ∀ bo ∈ bos, ∀ f ∈ bo.pfns, mem' f = mem f)
    (hpt : ∀ k < b.size / 4096, lastLeaf pt'.trace (pageOf (pageVa b.va k)) =
      lastLeaf pt.trace (pageOf (pageVa b.va k))) : b.Stands bos' pt' mem' := by
  obtain ⟨bo, hbo, hlen, hlink, hleaf⟩ := h
  have hsome : 0 < bo.pfns.length := by omega
  have hfirst : pfnAt bo.pfns 0 ∈ bo.pfns := by simp [pfnAt, hsome]
  refine ⟨bo, hbos bo hbo, hlen, ?_, fun k hk => (hpt k hk).trans (hleaf k hk)⟩
  rw [hmem bo hbo _ hfirst]
  exact hlink

theorem Laid.keep (L : Laid low d.bos vm mem bs) (hbos : ∀ bo ∈ d.bos, bo ∈ d'.bos)
    (hmem : ∀ bo ∈ d.bos, ∀ f ∈ bo.pfns, mem' f = mem f) : Laid low d'.bos vm mem' bs := by
  refine ⟨fun b hb => ?_, L.whole, L.within, L.ordered, L.next⟩
  have hw := L.whole b hb
  exact (L.stands b hb).keep (by omega) hbos hmem fun _ _ => rfl

theorem Laid.advance (L : Laid low d.bos vm mem bs) (va : Word)
    (hle : vm.kmdVaNext.toNat ≤ va.toNat) (hal : va.toNat % 4096 = 0) (hlt : va.toNat < 2 ^ 48) :
    Laid low d.bos { vm with kmdVaNext := va } mem bs :=
  ⟨L.stands, L.whole, fun b hb => ⟨(L.within b hb).1, (L.within b hb).2.trans hle⟩, L.ordered,
    hal, L.next.2.1.trans hle, hlt⟩

theorem Laid.append {b : Block} (L : Laid low d.bos vm mem bs) (hs : b.Stands d.bos vm.pt mem)
    (hw : b.va.toNat % 4096 = 0 ∧ b.size % 4096 = 0 ∧ 0 < b.size)
    (hin : low ≤ b.va.toNat ∧ b.va.toNat + b.size ≤ vm.kmdVaNext.toNat)
    (hafter : ∀ c ∈ bs, c.va.toNat + c.size ≤ b.va.toNat) :
    Laid low d.bos vm mem (bs ++ [b]) := by
  refine ⟨?_, ?_, ?_, ?_, L.next⟩
  · exact List.forall_mem_append.mpr ⟨L.stands, List.forall_mem_singleton.mpr hs⟩
  · exact List.forall_mem_append.mpr ⟨L.whole, List.forall_mem_singleton.mpr hw⟩
  · exact List.forall_mem_append.mpr ⟨L.within, List.forall_mem_singleton.mpr hin⟩
  · exact List.pairwise_append.mpr ⟨L.ordered, List.pairwise_singleton .., by simpa using hafter⟩

end Keeping

section Making

variable {low proc size : ℕ} {owner : Option ℕ} {d d' : Device} {vm vm' : Vm}
  {mem mem' : Contents} {bs : List Block} {next : Option Word} {st : NtStatus} {h : ℕ}

/-- A block at the bump pointer reaches no page of the blocks below. The pages of a VM count
modulo `2 ^ 36`, and those that come round are below `low`. -/
theorem Laid.clear {b : Block} (L : Laid low d.bos vm mem bs) (hlow : 2 ^ 28 ≤ low)
    (hsize : size ≤ 2 ^ 21) (hb : b ∈ bs) {j k : ℕ} (hj : j < b.size / 4096)
    (hk : k < size / 4096) : pageOf (pageVa vm.kmdVaNext k) ≠ pageOf (pageVa b.va j) := by
  have hw := L.whole b hb
  have hin := L.within b hb
  have hn := L.next
  rw [pageOf_pageVa, pageOf_pageVa]
  omega

theorem heapAlloc_laid (V : PtSound vm.supply vm.pt)
    (hh : ∀ b ∈ d.bos, b.handle ≠ d.nextHandle % 2 ^ 32)
    (hsize : size % 4096 = 0 ∧ 0 < size ∧ size ≤ 2 ^ 21) (r : HeapReply)
    (hrun : heapAllocStamped d vm proc owner size vm.kmdVaNext next r mem =
      (st, h, d', vm', mem')) (hlow : 2 ^ 28 ≤ low) (L : Laid low d.bos vm mem bs) :
    Laid low d'.bos vm' mem' bs ∧
      (st = .success → vm.kmdVaNext.toNat + size < 2 ^ 48 →
        Laid low d'.bos { vm' with kmdVaNext := vm.kmdVaNext + BitVec.ofNat 64 size } mem'
          (bs ++ [⟨vm.kmdVaNext, size, next.getD 0⟩])) := by
  obtain ⟨hal, hpos, hle⟩ := hsize
  obtain ⟨M, hva, hpt, hok⟩ := heapAlloc_block V hh hal hpos (by omega) r hrun
  have L' : Laid low d'.bos vm' mem' bs := by
    refine ⟨fun b hb => ?_, L.whole, hva ▸ L.within, L.ordered, hva ▸ L.next⟩
    have hw := L.whole b hb
    refine (L.stands b hb).keep (by omega) M.bos M.frames fun j hj => ?_
    exact hpt _ fun k hk => L.clear hlow hle hb hj hk
  refine ⟨L', fun hst hroom => ?_⟩
  obtain ⟨bo, hn, rfl, rfl, hlen, hleaf⟩ := hok hst
  have hn := L.next
  have hto : (vm.kmdVaNext + BitVec.ofNat 64 size).toNat = vm.kmdVaNext.toNat + size := by
    rw [BitVec.toNat_add, BitVec.toNat_ofNat]
    omega
  have A := L'.advance (vm.kmdVaNext + BitVec.ofNat 64 size) (by rw [hva]; omega) (by omega)
    (by omega)
  refine A.append ⟨bo, by simp [addBo], hlen, stamp_first _ next, hleaf⟩ ⟨hn.1, hal, hpos⟩
    ⟨hn.2.1, by rw [hto]⟩ fun c hc => (L.within c hc).2

end Making

def chunkVa (base : Word) (chunkSize k : ℕ) : Word := base + BitVec.ofNat 64 (k * chunkSize)

/-- `prevChunkVa` before the `k`-th chunk. -/
def prevVa (base : Word) (chunkSize : ℕ) : ℕ → Word
  | 0 => 0
  | k + 1 => chunkVa base chunkSize k

def chunkBlock (base : Word) (chunkSize k : ℕ) : Block :=
  ⟨chunkVa base chunkSize k, chunkSize, linkValue (prevVa base chunkSize k) chunkSize⟩

theorem chunkVa_succ (base : Word) (chunkSize k : ℕ) :
    chunkVa base chunkSize k + BitVec.ofNat 64 chunkSize = chunkVa base chunkSize (k + 1) := by
  rw [chunkVa, chunkVa, BitVec.add_assoc, ← BitVec.ofNat_add, Nat.succ_mul]

theorem chunkVa_toNat {base : Word} {chunkSize k : ℕ} (h : base.toNat + k * chunkSize < 2 ^ 64) :
    (chunkVa base chunkSize k).toNat = base.toNat + k * chunkSize := by
  rw [chunkVa, BitVec.toNat_add, BitVec.toNat_ofNat]
  omega

theorem chunkVa_step {base va : Word} {chunkSize k left : ℕ}
    (hroom : base.toNat + (k + (left + 1)) * chunkSize < 2 ^ 63)
    (hva : va = chunkVa base chunkSize k) :
    va + BitVec.ofNat 64 chunkSize = chunkVa base chunkSize (k + 1) ∧
      (va + BitVec.ofNat 64 chunkSize).toNat = va.toNat + chunkSize := by
  have hnext : va + BitVec.ofNat 64 chunkSize = chunkVa base chunkSize (k + 1) := by
    rw [hva, chunkVa_succ]
  have hone : k * chunkSize + chunkSize ≤ (k + (left + 1)) * chunkSize := by
    rw [← Nat.succ_mul]
    exact Nat.mul_le_mul_right _ (by omega)
  have hnow : va.toNat = base.toNat + k * chunkSize := by
    rw [hva, chunkVa_toNat (by omega)]
  refine ⟨hnext, ?_⟩
  rw [hnext, chunkVa_toNat (by rw [Nat.succ_mul]; omega), hnow, Nat.succ_mul]
  omega

theorem nextPage_toNat {va : Word} (h : va.toNat < 2 ^ 48) :
    (va + 4096).toNat = va.toNat + 4096 := by
  have hpage : (4096 : Word).toNat = 4096 := rfl
  rw [BitVec.toNat_add, hpage]
  omega

section Chunks

variable (low : ℕ) {proc chunkSize : ℕ} {owner : Option ℕ} {mem mem' : Contents}

/-- The loop from chunk `k` on. If the bump pointer ends below `2 ^ 48`, it was there all the
time, and the blocks that were made are laid behind those from before. -/
theorem chunks_laid (hsize : ValidChunk chunkSize) (r : ℕ → HeapReply) (k left : ℕ)
    {d d' : Device} {vm vm' : Vm} {prev first : Word} {st : NtStatus}
    (V : PtSound vm.supply vm.pt)
    (hh : ∀ b ∈ d.bos, ∀ i < left, b.handle ≠ (d.nextHandle + i) % 2 ^ 32) (hleft : left < 2 ^ 32)
    (hrun : chunksStamped proc owner chunkSize r k left d vm prev mem =
      (st, first, d', vm', mem')) :
    Made d vm mem d' vm' mem' ∧ ∀ base : Word, base.toNat + (k + left) * chunkSize < 2 ^ 63 →
      vm.kmdVaNext = chunkVa base chunkSize k → prev = prevVa base chunkSize k →
      vm.kmdVaNext.toNat ≤ vm'.kmdVaNext.toNat ∧
      (st = .success → first = prevVa base chunkSize (k + left)) ∧
      (vm'.kmdVaNext.toNat < 2 ^ 48 → 2 ^ 28 ≤ low → ∀ bs, Laid low d.bos vm mem bs →
        Laid low d'.bos vm' mem' bs ∧ (st = .success → Laid low d'.bos vm' mem'
          (bs ++ (List.range' k left).map (chunkBlock base chunkSize)))) := by
  induction left generalizing k d vm prev mem with
  | zero =>
    cases hrun
    exact ⟨.refl V _ _, fun base _ _ hprev => ⟨le_rfl, fun _ => hprev,
      fun _ _ bs L => ⟨L, fun _ => by simpa using L⟩⟩⟩
  | succ left ih =>
    obtain ⟨hal, hlo, hhi⟩ := hsize
    have hnow : ∀ b ∈ d.bos, b.handle ≠ d.nextHandle % 2 ^ 32 :=
      fun b hb => by simpa using hh b hb 0 (by omega)
    rcases hblock : heapAllocStamped d vm proc owner chunkSize vm.kmdVaNext
      (some (linkValue prev chunkSize)) (r k) mem with ⟨st₁, h₁, d₁, vm₁, mem₁⟩
    obtain ⟨M, hva₁, -, hok⟩ := heapAlloc_block V hnow hal (by omega) (by omega) (r k) hblock
    have B : 2 ^ 28 ≤ low → ∀ bs, Laid low d.bos vm mem bs → _ :=
      fun hlow bs L => heapAlloc_laid V hnow ⟨hal, by omega, hhi⟩ (r k) hblock hlow L
    simp only [chunksStamped, hblock] at hrun
    by_cases hst : st₁ = .success
    · subst hst
      simp only [NtStatus.ok_success, Bool.not_true, Bool.false_eq_true, if_false] at hrun
      obtain ⟨bo, hn, rfl, -⟩ := hok rfl
      obtain ⟨M', hrest⟩ := ih (k + 1)
        (M.advance (vm.kmdVaNext + BitVec.ofNat 64 chunkSize)).pt (handles_add hn (by omega) hh)
        (by omega) hrun
      refine ⟨M.trans ⟨M'.table, M'.id, M'.pt, M'.bos, M'.frames⟩,
        fun base hroom hva hprev => ?_⟩
      obtain ⟨hnext, hto⟩ := chunkVa_step hroom hva
      obtain ⟨hle, hfirst, hlaid⟩ := hrest base (by rwa [Nat.add_right_comm, Nat.add_assoc])
        hnext hva
      rw [hto] at hle
      refine ⟨by omega, fun hst => ?_, fun hlt hlow bs L => ?_⟩
      · rw [hfirst hst, Nat.add_right_comm, Nat.add_assoc]
      obtain ⟨L₁, hmade⟩ := B hlow bs L
      have A := L₁.advance (vm.kmdVaNext + BitVec.ofNat 64 chunkSize)
        (by rw [hva₁, hto]; omega) (by have := L.next; omega) (by omega)
      refine ⟨(hlaid hlt hlow bs A).1, fun hst => ?_⟩
      have hall := (hlaid hlt hlow _ (hmade rfl (by omega))).2 hst
      rw [List.append_assoc] at hall
      rw [List.range'_succ, List.map_cons, chunkBlock, ← hva, ← hprev]
      exact hall
    · simp only [NtStatus.ok_eq_false hst, Bool.not_false, if_true] at hrun
      obtain ⟨rfl, rfl, rfl, rfl, rfl⟩ := hrun
      exact ⟨M, fun _ _ _ _ => ⟨hva₁ ▸ le_rfl, fun h => absurd h hst,
        fun _ hlow bs L => ⟨(B hlow bs L).1, fun h => absurd h hst⟩⟩⟩

def heapBlocks (ctxVa : Word) (chunkSize count : ℕ) : List Block :=
  ⟨ctxVa, 4096, 0⟩::(List.range count).map (chunkBlock (ctxVa + 4096) chunkSize)

theorem heap_laid {d d₁ d' : Device} {vm vm₁ vm' : Vm} {mem₁ : Contents} {r : HeapReply}
    {rs : ℕ → HeapReply} {count h : ℕ} {st : NtStatus} {first : Word}
    (hsize : ValidChunk chunkSize) (hcount : count ≤ 16) (V : PtSound vm.supply vm.pt)
    (hh : ∀ b ∈ d.bos, ∀ k < count + 1, b.handle ≠ (d.nextHandle + k) % 2 ^ 32)
    (hctx : heapAllocStamped d vm proc owner 4096 vm.kmdVaNext none r mem =
      (.success, h, d₁, vm₁, mem₁))
    (hrun : chunksStamped proc owner chunkSize rs 0 count d₁
      { vm₁ with kmdVaNext := vm₁.kmdVaNext + 4096 } 0 mem₁ = (st, first, d', vm', mem')) :
    Made d vm mem d' vm' mem' ∧ (vm.kmdVaNext.toNat < 2 ^ 48 →
      (st = .success → first = prevVa (vm.kmdVaNext + 4096) chunkSize count) ∧
      (vm'.kmdVaNext.toNat < 2 ^ 48 → 2 ^ 28 ≤ low → ∀ bs, Laid low d.bos vm mem bs →
        Laid low d'.bos vm' mem' bs ∧ (st = .success →
          Laid low d'.bos vm' mem' (bs ++ heapBlocks vm.kmdVaNext chunkSize count)))) := by
  have hnow : ∀ b ∈ d.bos, b.handle ≠ d.nextHandle % 2 ^ 32 :=
    fun b hb => by simpa using hh b hb 0 (by omega)
  obtain ⟨M, hva₁, -, hok⟩ := heapAlloc_block V hnow (by decide) (by decide) (by decide) r hctx
  obtain ⟨bo, hn, rfl, -⟩ := hok rfl
  obtain ⟨M', hrest⟩ := chunks_laid low hsize _ 0 count (M.advance (vm₁.kmdVaNext + 4096)).pt
    (handles_add hn (by omega) hh) (by omega) hrun
  refine ⟨M.trans ⟨M'.table, M'.id, M'.pt, M'.bos, M'.frames⟩, fun hroom => ?_⟩
  have hto := nextPage_toNat hroom
  have hchunks : (0 + count) * chunkSize ≤ 16 * 0x200000 := Nat.mul_le_mul (by omega) hsize.2.2
  obtain ⟨hle, hfirst, hlaid⟩ := hrest (vm.kmdVaNext + 4096) (by omega)
    (by simp [hva₁, chunkVa]) rfl
  change (vm₁.kmdVaNext + 4096).toNat ≤ _ at hle
  rw [hva₁, hto] at hle
  refine ⟨fun hst => by rw [hfirst hst, Nat.zero_add], fun hlt hlow bs L => ?_⟩
  obtain ⟨L₁, hmade⟩ := heapAlloc_laid V hnow (by decide) r hctx hlow L
  have hnext := L.next
  have A := L₁.advance (vm.kmdVaNext + 4096) (by rw [hva₁, hto]; omega) (by omega) (by omega)
  have hctxBlock := hmade rfl (by omega)
  rw [← hva₁] at A hctxBlock
  refine ⟨(hlaid hlt hlow bs A).1, fun hst => ?_⟩
  have hall := (hlaid hlt hlow _ hctxBlock).2 hst
  rw [List.append_assoc, ← List.range_eq_range', hva₁] at hall
  exact hall

theorem tilerHeap_cases {d : Device} (hv : ∀ vm ∈ d.vmTable.vms, PtSound vm.supply vm.pt) (c : Call)
    (mem : Contents)
    (hh : ∀ b ∈ d.bos, ∀ k < c.chunkCount + 1, b.handle ≠ (d.nextHandle + k) % 2 ^ 32) :
    tilerHeapStamped d c mem = (.invalidParameter, 0, 0, d, mem) ∨
    ∃ vm st ctxVa first d' vm' mem', vmGet d.vmTable c.vmId = some vm ∧
      tilerHeapStamped d c mem = (st, ctxVa, first, d'.putVm c.vmId vm', mem') ∧
      ValidChunk c.chunkSize ∧ 0 < c.chunkCount ∧ Made d vm mem d' vm' mem' ∧
      (st ≠ .success → ctxVa = 0 ∧ first = 0) ∧
      (vm.kmdVaNext.toNat < 2 ^ 48 →
        (st = .success → ctxVa = vm.kmdVaNext ∧
          first = prevVa (vm.kmdVaNext + 4096) c.chunkSize c.chunkCount) ∧
        (vm'.kmdVaNext.toNat < 2 ^ 48 → 2 ^ 28 ≤ low → ∀ bs, Laid low d.bos vm mem bs →
          Laid low d'.bos vm' mem' bs ∧ (st = .success → Laid low d'.bos vm' mem'
            (bs ++ heapBlocks vm.kmdVaNext c.chunkSize c.chunkCount)))) := by
  by_cases hbad : c.chunkSize % 4096 ≠ 0 ∨ c.chunkSize < 0x1000 ∨ c.chunkSize > 0x200000
  · exact .inl (by rw [tilerHeapStamped, if_pos hbad])
  by_cases hcount : c.initialChunkCount = 0
  · exact .inl (by rw [tilerHeapStamped, if_neg hbad, if_pos hcount])
  cases hvm : vmGet d.vmTable c.vmId with
  | none => exact .inl (by simp only [tilerHeapStamped, if_neg hbad, if_neg hcount, hvm])
  | some vm =>
    right
    have hsize : ValidChunk c.chunkSize := by unfold ValidChunk; omega
    have hsome : 0 < c.chunkCount := by unfold Call.chunkCount; omega
    have V := hv vm (vmGet_split hvm).1
    rcases hctx : heapAllocStamped d vm c.proc c.ownerDevice 4096 vm.kmdVaNext none (c.replies 0)
      mem with ⟨st₁, h₁, d₁, vm₁, mem₁⟩
    by_cases hst : st₁ = .success
    · subst hst
      rcases hrun : chunksStamped c.proc c.ownerDevice c.chunkSize (fun k => c.replies (k + 1)) 0
        c.chunkCount d₁ { vm₁ with kmdVaNext := vm₁.kmdVaNext + 4096 } 0 mem₁ with
        ⟨st, first, d', vm', mem'⟩
      obtain ⟨M, hrest⟩ := heap_laid low hsize (Nat.min_le_right ..) V hh hctx hrun
      refine ⟨vm, st, if st = .success then vm.kmdVaNext else 0,
        if st = .success then first else 0, d', vm', mem', rfl, ?_, hsize, hsome, M,
        fun hst => ⟨if_neg hst, if_neg hst⟩, fun hroom => ⟨fun hst => ?_, (hrest hroom).2⟩⟩
      · simp only [tilerHeapStamped, if_neg hbad, if_neg hcount, hvm, hctx, hrun,
          NtStatus.ok_success, Bool.not_true, Bool.false_eq_true, if_false]
        by_cases hst : st = .success
        · simp [hst]
        · simp [hst, NtStatus.ok_eq_false hst]
      · rw [if_pos hst, if_pos hst]
        exact ⟨rfl, (hrest hroom).1 hst⟩
    · have hnow : ∀ b ∈ d.bos, b.handle ≠ d.nextHandle % 2 ^ 32 :=
        fun b hb => by simpa using hh b hb 0 (by omega)
      have M := (heapAlloc_block V hnow (by decide) (by decide) (by decide) (c.replies 0) hctx).1
      refine ⟨vm, st₁, 0, 0, d₁, vm₁, mem₁, rfl, ?_, hsize, hsome, M, fun _ => ⟨rfl, rfl⟩,
        fun _ => ⟨fun h => absurd h hst, fun _ hlow bs L => ⟨?_, fun h => absurd h hst⟩⟩⟩
      · simp only [tilerHeapStamped, if_neg hbad, if_neg hcount, hvm, hctx,
          NtStatus.ok_eq_false hst, Bool.not_false, if_true]
      · exact (heapAlloc_laid V hnow (by decide) (c.replies 0) hctx hlow L).1

end Chunks

end WinMali.HeapLayout
