import WinMaliKmd.AllocSizes
import WinMaliKmd.HeapBlocks
import WinMaliKmd.ReservedWindows

/-!
# What is written into tiler heaps

The block of a heap is mapped for a moment when it is made: its first page is cleared, and the
first word of a chunk leads to the chunk before it. The rest of the call is that of the tables
of BOs and of VMs.
-/

set_option autoImplicit false

namespace WinMali.HeapStamps
open WinMali.AsSlots WinMali.Lpae WinMali.RadixTree WinMali.VmPageTable WinMali.VmTable
  WinMali.VmLeafWrites WinMali.BlockCover WinMali.BoTable WinMali.PageBooks WinMali.PageBinding
  WinMali.HeapBlocks WinMali.DeviceTables
open WinMali.ReservedWindows (map_keeps unmap_keeps)

/-- The words of the frames that BOs get, by frame number. -/
abbrev Contents := Word → Fin 512 → Word

/-- The place of an address in the words of its page. -/
def wordIndex (va : Word) : Fin 512 := index va 3

/-- `RtlZeroMemory` of the first page and, if `hasNext`, the link. -/
def stamp (mem : Contents) (frame : Word) (next : Option Word) : Contents :=
  match next with
  | none => zeroPage mem frame
  | some v => write (zeroPage mem frame) frame (wordIndex 0) v

/-- The block of `heapAllocMapped`, and what is written into it before it is returned. `next` is
the `nextValue` of a call with `hasNext`. -/
def heapAllocStamped (d : Device) (vm : Vm) (proc : ℕ) (ownerDevice : Option ℕ) (size : ℕ)
    (gpuVa : Word) (next : Option Word) (r : HeapReply) (mem : Contents) :
    NtStatus × ℕ × Device × Vm × Contents :=
  let (st, handle, d, vm) := heapAllocMapped d vm proc ownerDevice size gpuVa r
  if st ≠ .success then (st, handle, d, vm, mem)
  else
    match boGet d handle with
    | none => (st, handle, d, vm, mem)
    | some bo => (st, handle, d, vm, stamp mem (pfnAt bo.pfns 0) next)

def linkValue (prevChunkVa : Word) (chunkSize : ℕ) : Word :=
  if prevChunkVa ≠ 0 then
    (prevChunkVa &&& ~~~(0xFFF : Word)) ||| BitVec.ofNat 64 chunkSize >>> 12
  else 0

/-- `prev` is both `prevChunkVa` and `firstChunkVa`, which the loop sets together. -/
def chunksStamped (proc : ℕ) (ownerDevice : Option ℕ) (chunkSize : ℕ) (r : ℕ → HeapReply) :
    ℕ → ℕ → Device → Vm → Word → Contents → NtStatus × Word × Device × Vm × Contents
  | _, 0, d, vm, prev, mem => (.success, prev, d, vm, mem)
  | k, left + 1, d, vm, prev, mem =>
    let va := vm.kmdVaNext
    let (st, _, d, vm, mem) := heapAllocStamped d vm proc ownerDevice chunkSize va
      (some (linkValue prev chunkSize)) (r k) mem
    if !st.ok then (st, 0, d, vm, mem)
    else
      chunksStamped proc ownerDevice chunkSize r (k + 1) left d
        { vm with kmdVaNext := va + BitVec.ofNat 64 chunkSize } va mem

structure Call where
  proc : ℕ
  ownerDevice : Option ℕ
  vmId : ℕ
  chunkSize : ℕ
  initialChunkCount : ℕ
  replies : ℕ → HeapReply

def Call.chunkCount (c : Call) : ℕ := min c.initialChunkCount 16

def tilerHeapStamped (d : Device) (c : Call) (mem : Contents) :
    NtStatus × Word × Word × Device × Contents :=
  if c.chunkSize % 4096 ≠ 0 ∨ c.chunkSize < 0x1000 ∨ c.chunkSize > 0x200000 then
    (.invalidParameter, 0, 0, d, mem)
  else if c.initialChunkCount = 0 then (.invalidParameter, 0, 0, d, mem)
  else
    match vmGet d.vmTable c.vmId with
    | none => (.invalidParameter, 0, 0, d, mem)
    | some vm =>
      let ctxVa := vm.kmdVaNext
      let (st, _, d, vm, mem) := heapAllocStamped d vm c.proc c.ownerDevice 4096 ctxVa none
        (c.replies 0) mem
      if !st.ok then (st, 0, 0, d.putVm c.vmId vm, mem)
      else
        let (st, firstChunkVa, d, vm, mem) :=
          chunksStamped c.proc c.ownerDevice c.chunkSize (fun k => c.replies (k + 1)) 0
            c.chunkCount d { vm with kmdVaNext := vm.kmdVaNext + 4096 } 0 mem
        if !st.ok then (st, 0, 0, d.putVm c.vmId vm, mem)
        else (.success, ctxVa, firstChunkVa, d.putVm c.vmId vm, mem)

section Forget

variable {d : Device} {vm : Vm} {proc : ℕ} {owner : Option ℕ}

/-- Without the contents it is the call on the tables. -/
theorem heapAlloc_forget (size : ℕ) (gpuVa : Word) (next : Option Word) (r : HeapReply)
    (mem : Contents) {st : NtStatus} {h : ℕ} {d' : Device} {vm' : Vm} {mem' : Contents}
    (hrun : heapAllocStamped d vm proc owner size gpuVa next r mem = (st, h, d', vm', mem')) :
    heapAllocMapped d vm proc owner size gpuVa r = (st, h, d', vm') := by
  rcases hblock : heapAllocMapped d vm proc owner size gpuVa r with ⟨st₁, h₁, d₁, vm₁⟩
  simp only [heapAllocStamped, hblock] at hrun
  split at hrun
  · cases hrun
    rfl
  · split at hrun <;> cases hrun <;> rfl

theorem chunks_forget (chunkSize : ℕ) (r : ℕ → HeapReply) (k left : ℕ) (prev : Word)
    (mem : Contents) {st : NtStatus} {first : Word} {d' : Device} {vm' : Vm} {mem' : Contents}
    (hrun : chunksStamped proc owner chunkSize r k left d vm prev mem =
      (st, first, d', vm', mem')) :
    tilerChunks proc owner chunkSize r k left d vm prev = (st, first, d', vm') := by
  induction left generalizing k d vm prev mem with
  | zero =>
    cases hrun
    rfl
  | succ left ih =>
    rcases hblock : heapAllocStamped d vm proc owner chunkSize vm.kmdVaNext
      (some (linkValue prev chunkSize)) (r k) mem with ⟨st₁, h₁, d₁, vm₁, mem₁⟩
    simp only [chunksStamped, hblock] at hrun
    simp only [tilerChunks, heapAlloc_forget _ _ _ _ _ hblock]
    split at hrun
    · rename_i hst
      rw [if_pos hst]
      cases hrun
      rfl
    · rename_i hst
      rw [if_neg hst]
      exact ih (k + 1) _ _ hrun

theorem tilerHeap_forget (d : Device) (c : Call) (mem : Contents) :
    tilerHeapCreateReal d c.proc c.ownerDevice c.vmId c.chunkSize c.initialChunkCount c.replies =
      ((tilerHeapStamped d c mem).1, (tilerHeapStamped d c mem).2.1,
        (tilerHeapStamped d c mem).2.2.1, (tilerHeapStamped d c mem).2.2.2.1) := by
  unfold tilerHeapCreateReal tilerHeapStamped
  split
  · rfl
  split
  · rfl
  cases hvm : vmGet d.vmTable c.vmId with
  | none => rfl
  | some vm =>
    rcases hctx : heapAllocStamped d vm c.proc c.ownerDevice 4096 vm.kmdVaNext none (c.replies 0)
      mem with ⟨st₁, h₁, d₁, vm₁, mem₁⟩
    simp only [hctx, heapAlloc_forget _ _ _ _ _ hctx]
    split
    · rfl
    rcases hrun : chunksStamped c.proc c.ownerDevice c.chunkSize (fun k => c.replies (k + 1)) 0
      c.chunkCount d₁ { vm₁ with kmdVaNext := vm₁.kmdVaNext + 4096 } 0 mem₁ with
      ⟨st, va, d', vm', mem'⟩
    have hforget := chunks_forget _ _ _ _ _ _ hrun
    rw [Call.chunkCount] at hforget
    simp only [hforget]
    split <;> rfl

end Forget

section Blocks

variable {d : Device} {vm : Vm} {proc size : ℕ} {owner : Option ℕ} {gpuVa : Word}
  {next : Option Word} {mem : Contents}

theorem boCreate_pages {bo : Bo} {r : BoReply} (h : size % 4096 = 0) (hlt : size < 2 ^ 32)
    (hcreate : boCreate d (BitVec.ofNat 64 size) 0 0 owner r = (.ok, bo.handle, addBo d bo)) :
    heapPages bo = size / 4096 := by
  obtain ⟨bo', mdl, hbos, hsize⟩ := AllocSizes.boCreate_size (congrArg Prod.fst hcreate)
  rw [hcreate] at hbos
  obtain rfl : bo = bo' := by simpa [addBo] using hbos
  have hbytes := congrArg BitVec.toNat (AllocSizes.boCreateSize_ok hsize).2
  rw [AllocSizes.pageAligned_toNat, BitVec.toNat_ofNat] at hbytes
  unfold heapPages
  omega

/-- What making blocks in a VM leaves as it was. -/
structure Made (d : Device) (vm : Vm) (mem : Contents) (d' : Device) (vm' : Vm)
    (mem' : Contents) : Prop where
  table : d'.vmTable = d.vmTable
  id : vm'.id = vm.id
  pt : PtSound vm'.supply vm'.pt
  bos : ∀ bo ∈ d.bos, bo ∈ d'.bos
  frames : ∀ bo ∈ d.bos, ∀ f ∈ bo.pfns, mem' f = mem f

theorem Made.refl (V : PtSound vm.supply vm.pt) (d : Device) (mem : Contents) :
    Made d vm mem d vm mem :=
  ⟨rfl, rfl, V, fun _ h => h, fun _ _ _ _ => rfl⟩

theorem Made.trans {d₁ d₂ : Device} {vm₁ vm₂ : Vm} {mem₁ mem₂ : Contents}
    (M : Made d vm mem d₁ vm₁ mem₁) (M' : Made d₁ vm₁ mem₁ d₂ vm₂ mem₂) :
    Made d vm mem d₂ vm₂ mem₂ :=
  ⟨M'.table.trans M.table, M'.id.trans M.id, M'.pt, fun bo h => M'.bos bo (M.bos bo h),
    fun bo h f hf => (M'.frames bo (M.bos bo h) f hf).trans (M.frames bo h f hf)⟩

theorem Made.advance {d' : Device} {vm' : Vm} {mem' : Contents} (M : Made d vm mem d' vm' mem')
    (va : Word) : Made d vm mem d' { vm' with kmdVaNext := va } mem' :=
  ⟨M.table, M.id, M.pt, M.bos, M.frames⟩

/-- A stamp goes into a frame that no BO had. -/
theorem stamp_frames {bo new : Bo} (hn : NewBo d new) (hlen : 0 < new.pfns.length)
    (hbo : bo ∈ d.bos) {f : Word} (hf : f ∈ bo.pfns) (next : Option Word) :
    stamp mem (pfnAt new.pfns 0) next f = mem f := by
  have hmem := ((NewBo.backed hn).frame hlen).1
  have hne : f ≠ pfnAt new.pfns 0 := by
    rintro rfl
    exact hn.fresh.2.2 bo hbo _ hf hmem
  funext i
  cases next with
  | none => simp [stamp, zeroPage, hne]
  | some v => simp [stamp, zeroPage, write, hne]

theorem stamp_first (frame : Word) (next : Option Word) :
    stamp mem frame next frame (wordIndex 0) = next.getD 0 := by
  cases next with
  | none => simp [stamp, zeroPage]
  | some v => simp [stamp, write]

theorem heapAlloc_block (V : PtSound vm.supply vm.pt)
    (hh : ∀ b ∈ d.bos, b.handle ≠ d.nextHandle % 2 ^ 32) (hal : size % 4096 = 0)
    (hpos : 0 < size) (hlt : size < 2 ^ 32) (r : HeapReply) {st : NtStatus} {h : ℕ} {d' : Device}
    {vm' : Vm} {mem' : Contents}
    (hrun : heapAllocStamped d vm proc owner size gpuVa next r mem = (st, h, d', vm', mem')) :
    Made d vm mem d' vm' mem' ∧ vm'.kmdVaNext = vm.kmdVaNext ∧
      (∀ page, (∀ k < size / 4096, pageOf (pageVa gpuVa k) ≠ page) →
        lastLeaf vm'.pt.trace page = lastLeaf vm.pt.trace page) ∧
      (st = .success → ∃ bo, NewBo d bo ∧ d' = addBo d bo ∧
        mem' = stamp mem (pfnAt bo.pfns 0) next ∧ size / 4096 ≤ bo.pfns.length ∧
        ∀ k < size / 4096, lastLeaf vm'.pt.trace (pageOf (pageVa gpuVa k)) =
          some (pfnAt bo.pfns k <<< 12, pageAttrRwNx)) := by
  have hbad : ¬(size % 4096 ≠ 0 ∨ size = 0) := by omega
  simp only [heapAllocStamped, heapAllocMapped, if_neg hbad] at hrun
  rcases boCreate_cases d (BitVec.ofNat 64 size) 0 0 owner r.bo with
    ⟨part, herr, hd, -⟩ | ⟨bo, hcreate, hn⟩
  · simp only [hd, ne_eq, herr, not_false_eq_true, if_true] at hrun
    obtain ⟨rfl, -, rfl, rfl, rfl⟩ := hrun
    exact ⟨⟨rfl, rfl, V, fun _ h => h, fun _ _ _ _ => rfl⟩, rfl, fun _ _ => rfl, nofun⟩
  have hpages := boCreate_pages hal hlt hcreate
  have hb := NewBo.backed hn
  have hlen : size / 4096 ≤ bo.pfns.length := hpages ▸ heapPages_le hb.sized
  have hattrs : ValidAttrs pageAttrRwNx := by decide
  have hframes : ∀ k < size / 4096, (pfnAt bo.pfns k).toNat < 2 ^ 36 :=
    fun k hk => (hb.frame (by omega)).2
  have M := map_sound V hframes hattrs d.adapter gpuVa
  have hkeeps : ∀ page, (∀ k < size / 4096, pageOf (pageVa gpuVa k) ≠ page) →
      lastLeaf (vmMap vm.supply (some d.adapter) vm.pt gpuVa (some (pfnAt bo.pfns)) (size / 4096)
        pageAttrRwNx).2.trace page = lastLeaf vm.pt.trace page :=
    fun page hout => map_keeps V hb hlen hattrs d.adapter gpuVa
      fun k hk hpage => absurd hpage (hout k hk)
  simp only [hcreate, ne_eq, not_true_eq_false, if_false, boGet_new hn hh, boDestroy_new hn hh,
    hpages] at hrun
  by_cases hst : (vmMap vm.supply (some d.adapter) vm.pt gpuVa (some (pfnAt bo.pfns)) (size / 4096)
      pageAttrRwNx).1 = .success
  · cases hkva : r.kva with
    | false =>
      simp only [addBo, hst, hkva, NtStatus.ok_success, Bool.not_true, Bool.not_false,
        Bool.false_eq_true, if_false, if_true] at hrun
      obtain ⟨rfl, -, rfl, rfl, rfl⟩ := hrun
      refine ⟨⟨rfl, rfl, unmap_sound M d.adapter gpuVa (size / 4096), fun _ h => h,
        fun _ _ _ _ => rfl⟩, rfl, fun page hout => ?_, nofun⟩
      exact (unmap_keeps M d.adapter gpuVa (size / 4096) fun k hk hpage =>
        absurd hpage (hout k hk)).trans (hkeeps page hout)
    | true =>
      have hget := boGet_new hn hh
      simp only [addBo] at hget
      simp only [addBo, hst, hkva, NtStatus.ok_success, Bool.not_true, Bool.false_eq_true,
        if_false, not_true_eq_false, hget] at hrun
      obtain ⟨rfl, -, rfl, rfl, rfl⟩ := hrun
      have hsome : 0 < bo.pfns.length := by omega
      refine ⟨⟨rfl, rfl, M, fun b h => List.mem_append_left _ h,
        fun b h f hf => stamp_frames hn hsome h hf next⟩, rfl, hkeeps,
        fun _ => ⟨bo, hn, rfl, rfl, hlen, fun k hk => ?_⟩⟩
      obtain ⟨root, G⟩ := V.good
      obtain ⟨n, -, hlast, -, hok, -⟩ := vmMap_spec V.honest G d.adapter gpuVa (pfnAt bo.pfns)
        (size / 4096) pageAttrRwNx hattrs hframes
      obtain rfl := hok.mp hst
      rw [hlast]
      exact lastLeaf_mapEvents vm.pt.trace (by omega) hk
  · simp only [addBo, NtStatus.ok_eq_false hst, Bool.not_false, if_true, hst,
      not_false_eq_true] at hrun
    obtain ⟨rfl, -, rfl, rfl, rfl⟩ := hrun
    exact ⟨⟨rfl, rfl, M, fun _ h => h, fun _ _ _ _ => rfl⟩, rfl, hkeeps, fun h => absurd h hst⟩

end Blocks

end WinMali.HeapStamps
