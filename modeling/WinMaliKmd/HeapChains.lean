import WinMaliKmd.BindCoverage
import WinMaliKmd.BoHandles
import WinMaliKmd.HeapLayout

/-!
# The chunk lists of tiler heaps

The command stream firmware follows the list of a heap from its newest chunk through the words
in memory. Here are runs of `TilerHeapCreateReal` from any state of the tables, and what such a
run owes the firmware.
-/

set_option autoImplicit false

namespace WinMali.HeapChains
open WinMali.AsSlots WinMali.Lpae WinMali.VmPageTable WinMali.VmTable WinMali.VmLeafWrites
  WinMali.BlockCover WinMali.BoTable WinMali.PageBooks WinMali.HeapBlocks WinMali.DeviceTables
  WinMali.HeapStamps WinMali.HeapLayout WinMali.Runs
open WinMali.ReservedWindows (translation translation_eq vmGet_putVm bare csfVm onePage
  promised_calls)
open WinMali.McuPageTableMap (and_not_low and_not_page)
open WinMali.VmPageTableMap (index_val)
open WinMali.BindCoverage (exec_built userDevice userVm)
open WinMali.BoHandles (pageBo boCreate_page)

/-- `KmdVaNext` of a VM that was just created. -/
def kmdVaStart (userVaRange : Word) : Word :=
  (sysmemGpuBase + grantedRange userVaRange + 0xFFFF) &&& ~~~0xFFFF

/-- What the GPU reads from 64 aligned bits. -/
def gpuRead64 (pt : VmPt) (mem : Contents) (va : Word) : Option Word :=
  (translation pt va).map fun (pa, _) => mem (pa >>> 12) (wordIndex va)

/-- The chunks that the firmware comes by, from one chunk on. -/
inductive Chain (read : Word → Option Word) (chunkSize : ℕ) : Word → List Word → Prop
  | oldest {va : Word} (h : read va = some 0) : Chain read chunkSize va [va]
  | newer {va link : Word} {rest : List Word} (h : read va = some link) (hne : link ≠ 0)
    (hlow : (link &&& 0xFFF).toNat = chunkSize / 4096)
    (hrest : Chain read chunkSize (link &&& ~~~0xFFF) rest) : Chain read chunkSize va (va::rest)

structure Range where
  va : Word
  size : ℕ
deriving DecidableEq

def Range.Apart (r r' : Range) : Prop :=
  ∀ i < r.size, ∀ j < r'.size, r.va + BitVec.ofNat 64 i ≠ r'.va + BitVec.ofNat 64 j

/-- Every byte is readable and writable, and nothing is executed from it. -/
def MappedRwNx (pt : VmPt) (r : Range) : Prop :=
  ∀ i < r.size, ∃ pa, translation pt (r.va + BitVec.ofNat 64 i) = some (pa, pageAttrRwNx)

def userWindow (userVaRange : Word) : Range :=
  ⟨sysmemGpuBase, (grantedRange userVaRange).toNat⟩

/-- A call that has returned. -/
structure Done where
  call : Call
  status : NtStatus
  ctxVa : Word
  firstChunkVa : Word

/-- The chunks of a heap from the oldest to the newest. -/
def Done.made (e : Done) : List Word :=
  (List.range e.call.chunkCount).map (chunkVa (e.ctxVa + 4096) e.call.chunkSize)

def Done.ranges (e : Done) : List Range :=
  ⟨e.ctxVa, 4096⟩::e.made.map fun va => ⟨va, e.call.chunkSize⟩

structure State where
  device : Device
  mem : Contents
  done : List Done

def State.after (s : State) (c : Call) : State :=
  let out := tilerHeapStamped { s.device with freed := [] } c s.mem
  ⟨out.2.2.2.1, out.2.2.2.2, s.done ++ [⟨c, out.1, out.2.1, out.2.2.1⟩]⟩

def step (s : State) (c : Call) : Option State := some (s.after c)

/-- The heaps that a VM got. -/
def heaps (s : State) (vmId : ℕ) : List Done :=
  s.done.filter fun e => e.status = .success ∧ e.call.vmId = vmId

structure Chained (vmId : ℕ) (userVaRange : Word) (s : State) (pt : VmPt) : Prop where
  failed : ∀ e ∈ s.done, e.status ≠ .success → e.ctxVa = 0 ∧ e.firstChunkVa = 0
  chain : ∀ e ∈ heaps s vmId,
    Chain (gpuRead64 pt s.mem) e.call.chunkSize e.firstChunkVa e.made.reverse
  apart : (userWindow userVaRange::(heaps s vmId).flatMap Done.ranges).Pairwise Range.Apart
  mapped : ∀ e ∈ heaps s vmId, ∀ r ∈ e.ranges, MappedRwNx pt r

/-- The handles that the counter gives out next, one for each block, are not in the table. -/
def HandlesClear (d : Device) (c : Call) : Prop :=
  ∀ bo ∈ d.bos, ∀ k < c.chunkCount + 1, bo.handle ≠ (d.nextHandle + k) % 2 ^ 32

/-- The call finds the handle counter clear and leaves the bump pointer of the VM in range. -/
def Fits (vmId : ℕ) (s : State) (c : Call) : Prop :=
  HandlesClear s.device c ∧ ∀ t ∈ step s c, ∀ vm ∈ vmGet t.device.vmTable vmId,
    vm.kmdVaNext.toNat < 2 ^ 48

section Words

variable {va : Word} {chunkSize : ℕ}

theorem low_toNat (x : Word) : (x &&& 0xFFF).toNat = x.toNat % 4096 := by
  rw [BitVec.toNat_and]
  exact Nat.and_two_pow_sub_one_eq_mod x.toNat 12

theorem wordIndex_first (h : va.toNat % 4096 = 0) : wordIndex va = wordIndex 0 := by
  have hzero : (0 : Word).toNat = 0 := rfl
  apply Fin.ext
  rw [wordIndex, wordIndex, index_val, index_val]
  omega

theorem linkValue_toNat (h0 : va ≠ 0) (hal : va.toNat % 4096 = 0) (hsize : chunkSize ≤ 0x200000) :
    (linkValue va chunkSize).toNat = va.toNat + chunkSize / 4096 := by
  have hbits : (BitVec.ofNat 64 chunkSize >>> 12).toNat = chunkSize / 4096 := by
    rw [BitVec.toNat_ushiftRight, BitVec.toNat_ofNat, Nat.shiftRight_eq_div_pow]
    omega
  have hva : va.toNat / 4096 * 4096 = 2 ^ 12 * (va.toNat / 4096) := by omega
  rw [linkValue, if_pos h0, BitVec.toNat_or, and_not_page, hbits, hva,
    ← Nat.two_pow_add_eq_or_of_lt (by omega)]
  omega

variable {read : Word → Option Word}

theorem Chain.push {prev : Word} {rest : List Word} (h0 : prev ≠ 0) (hal : prev.toNat % 4096 = 0)
    (hsize : ValidChunk chunkSize) (h : read va = some (linkValue prev chunkSize))
    (hrest : Chain read chunkSize prev rest) : Chain read chunkSize va (va::rest) := by
  have hv := linkValue_toNat h0 hal hsize.2.2
  have hle := hsize.2.2
  have hprev : linkValue prev chunkSize &&& ~~~0xFFF = prev := by
    apply BitVec.eq_of_toNat_eq
    rw [and_not_page, hv]
    omega
  refine .newer h (fun hz => h0 ?_) ?_ (hprev.symm ▸ hrest)
  · rw [← hprev, hz]
    rfl
  · rw [low_toNat, hv]
    omega

/-- A block leads to the one that was made before it, and the first one leads nowhere. -/
theorem chain_blocks {base : Word} (hsize : ValidChunk chunkSize) (hal : base.toNat % 4096 = 0)
    (hpos : 0 < base.toNat) (n : ℕ) (hroom : base.toNat + n * chunkSize < 2 ^ 64)
    (h : ∀ k < n + 1, read (chunkVa base chunkSize k) =
      some (linkValue (prevVa base chunkSize k) chunkSize)) :
    Chain read chunkSize (chunkVa base chunkSize n)
      ((List.range (n + 1)).map (chunkVa base chunkSize)).reverse := by
  induction n with
  | zero => exact .oldest (h 0 (by omega))
  | succ n ih =>
    have hle : n * chunkSize ≤ (n + 1) * chunkSize := Nat.mul_le_mul_right _ (by omega)
    have hto : (chunkVa base chunkSize n).toNat = base.toNat + n * chunkSize :=
      chunkVa_toNat (by omega)
    have hpage : n * chunkSize % 4096 = 0 := by
      rw [Nat.mul_mod, hsize.1, Nat.mul_zero, Nat.zero_mod]
    have hlink : read (chunkVa base chunkSize (n + 1)) =
        some (linkValue (chunkVa base chunkSize n) chunkSize) := h (n + 1) (by omega)
    rw [List.range_succ, List.map_append, List.reverse_append]
    refine .push ?_ (by omega) hsize hlink (ih (by omega) fun k hk => h k (by omega))
    intro hz
    rw [hz] at hto
    change 0 = _ at hto
    omega

end Words

section Standing

variable {supply : ℕ → PtReply} {pt : VmPt} {bos : List Bo} {mem : Contents} {b : Block}

theorem Stands.translation (V : PtSound supply pt) (hs : b.Stands bos pt mem)
    (hal : b.va.toNat % 4096 = 0 ∧ b.size % 4096 = 0) :
    ∃ bo ∈ bos, b.size / 4096 ≤ bo.pfns.length ∧ mem (pfnAt bo.pfns 0) (wordIndex 0) = b.link ∧
      ∀ i < b.size, ReservedWindows.translation pt (b.va + BitVec.ofNat 64 i) =
        some (pfnAt bo.pfns (i / 4096) <<< 12, pageAttrRwNx) := by
  obtain ⟨bo, hbo, hlen, hlink, hleaf⟩ := hs
  refine ⟨bo, hbo, hlen, hlink, fun i hi => ?_⟩
  have hpage : pageOf (b.va + BitVec.ofNat 64 i) = pageOf (pageVa b.va (i / 4096)) := by
    rw [pageOf_pageVa, pageOf, BitVec.toNat_add, BitVec.toNat_ofNat]
    omega
  rw [translation_eq V, hpage]
  exact hleaf _ (by omega)

theorem Stands.read (V : PtSound supply pt) (hs : b.Stands bos pt mem)
    (hb : ∀ bo ∈ bos, Backed bo)
    (hw : b.va.toNat % 4096 = 0 ∧ b.size % 4096 = 0 ∧ 0 < b.size) :
    gpuRead64 pt mem b.va = some b.link := by
  obtain ⟨bo, hbo, hlen, hlink, hleaf⟩ := Stands.translation V hs ⟨hw.1, hw.2.1⟩
  have hframe : (pfnAt bo.pfns 0).toNat < 2 ^ 36 := ((hb bo hbo).frame (by omega)).2
  have hpfn : pfnAt bo.pfns 0 <<< 12 >>> 12 = pfnAt bo.pfns 0 := by
    apply BitVec.eq_of_toNat_eq
    rw [BitVec.toNat_ushiftRight, BitVec.toNat_shiftLeft, Nat.shiftLeft_eq,
      Nat.shiftRight_eq_div_pow]
    omega
  have h0 := hleaf 0 hw.2.2
  rw [BitVec.add_zero, Nat.zero_div] at h0
  rw [gpuRead64, h0, Option.map_some, ← hlink]
  dsimp only
  rw [hpfn, wordIndex_first hw.1]

theorem Stands.mapped (V : PtSound supply pt) (hs : b.Stands bos pt mem)
    (hal : b.va.toNat % 4096 = 0 ∧ b.size % 4096 = 0) : MappedRwNx pt ⟨b.va, b.size⟩ := by
  obtain ⟨bo, -, -, -, hleaf⟩ := Stands.translation V hs hal
  exact fun i hi => ⟨_, hleaf i hi⟩

theorem Range.apart_of_le {r r' : Range} (h : r.va.toNat + r.size ≤ r'.va.toNat)
    (hlt : r'.va.toNat + r'.size < 2 ^ 64) : r.Apart r' := by
  intro i hi j hj he
  have hto := congrArg BitVec.toNat he
  rw [BitVec.toNat_add, BitVec.toNat_add, BitVec.toNat_ofNat, BitVec.toNat_ofNat] at hto
  omega

theorem kmdVaStart_bounds (userVaRange : Word) :
    sysmemGpuBase.toNat + (grantedRange userVaRange).toNat ≤ (kmdVaStart userVaRange).toNat ∧
      (kmdVaStart userVaRange).toNat % 4096 = 0 ∧ (kmdVaStart userVaRange).toNat < 2 ^ 31 := by
  have hbase : sysmemGpuBase.toNat = 0x10000000 := rfl
  have hround : (0xFFFF : Word).toNat = 0xFFFF := rfl
  have hgranted : (grantedRange userVaRange).toNat ≤ 0x30000000 := by
    unfold grantedRange
    generalize (if userVaRange ≠ 0 then userVaRange else defaultUserVaRange) = granted
    dsimp only
    split
    · decide
    · rename_i h
      exact BitVec.le_def.mp (BitVec.not_lt.mp h)
  have hmask : ~~~(0xFFFF : Word) = ~~~(BitVec.ofNat 64 (2 ^ 16) - 1) := by decide
  rw [kmdVaStart, hmask, and_not_low _ (by decide), BitVec.toNat_add, BitVec.toNat_add, hbase,
    hround]
  omega

end Standing

/-- The blocks that a heap is made of. -/
def Done.blocks (e : Done) : List Block :=
  heapBlocks e.ctxVa e.call.chunkSize e.call.chunkCount

structure Inv (vmId : ℕ) (userVaRange : Word) (s : State) : Prop where
  built : WellBuilt s.device
  failed : ∀ e ∈ s.done, e.status ≠ .success → e.ctxVa = 0 ∧ e.firstChunkVa = 0
  shaped : ∀ e ∈ heaps s vmId, ValidChunk e.call.chunkSize ∧ 0 < e.call.chunkCount ∧
    e.firstChunkVa = prevVa (e.ctxVa + 4096) e.call.chunkSize e.call.chunkCount
  laid : ∃ vm, vmGet s.device.vmTable vmId = some vm ∧ Laid (kmdVaStart userVaRange).toNat
    s.device.bos vm s.mem ((heaps s vmId).flatMap Done.blocks)

def Block.range (b : Block) : Range := ⟨b.va, b.size⟩

theorem Done.blocks_ranges (e : Done) : e.blocks.map Block.range = e.ranges := by
  simp [Done.blocks, heapBlocks, Done.ranges, Done.made, Block.range, chunkBlock,
    Function.comp_def]

theorem vmCreate_start {a a' : Adapter} {tab tab' : Table} {r : VmRequest} {id : ℕ}
    (h : vmCreate a tab r = (some id, a', tab')) :
    ∃ vm, tab'.vms = tab.vms ++ [vm] ∧ vm.id = id ∧ vm.kmdVaNext = kmdVaStart r.userVaRange := by
  unfold vmCreate at h
  split at h
  · cases h
  dsimp only at h
  split at h
  · cases h
  · cases h
    exact ⟨_, rfl, rfl, rfl⟩

section Holding

variable {vmId : ℕ} {userVaRange : Word} {s : State} {vm : Vm}

theorem laid_apart {low : ℕ} {bos : List Bo} {mem : Contents} {bs : List Block}
    (L : Laid low bos vm mem bs)
    (hwin : sysmemGpuBase.toNat + (grantedRange userVaRange).toNat ≤ low) :
    (userWindow userVaRange::bs.map Block.range).Pairwise Range.Apart := by
  have htop : ∀ b ∈ bs, b.va.toNat + b.size < 2 ^ 64 := by
    intro b hb
    have hin := L.within b hb
    have hn := L.next
    omega
  refine List.pairwise_cons.mpr ⟨?_, List.pairwise_map.mpr ?_⟩
  · intro r hr
    obtain ⟨b, hb, rfl⟩ := List.mem_map.mp hr
    exact Range.apart_of_le (hwin.trans (L.within b hb).1) (htop b hb)
  · refine L.ordered.imp_of_mem fun _ hc hle => Range.apart_of_le hle (htop _ hc)

theorem Inv.chained (I : Inv vmId userVaRange s) (hvm : vmGet s.device.vmTable vmId = some vm) :
    Chained vmId userVaRange s vm.pt := by
  obtain ⟨vm', hvm', L⟩ := I.laid
  obtain rfl : vm = vm' := Option.some.inj (hvm.symm.trans hvm')
  have V := I.built.vms vm (vmGet_split hvm).1
  have hmem : ∀ e ∈ heaps s vmId, ∀ b ∈ e.blocks, b ∈ (heaps s vmId).flatMap Done.blocks :=
    fun e he b hb => List.mem_flatMap.mpr ⟨e, he, hb⟩
  refine ⟨I.failed, fun e he => ?_, ?_, fun e he r hr => ?_⟩
  · obtain ⟨hsize, hsome, hfirst⟩ := I.shaped e he
    have hcap : e.call.chunkCount ≤ 16 := Nat.min_le_right ..
    have hread : ∀ b ∈ e.blocks, gpuRead64 vm.pt s.mem b.va = some b.link := fun b hb =>
      Stands.read V (L.stands b (hmem e he b hb)) I.built.bos (L.whole b (hmem e he b hb))
    have hctx : ⟨e.ctxVa, 4096, 0⟩ ∈ (heaps s vmId).flatMap Done.blocks :=
      hmem e he _ (List.mem_cons_self ..)
    have hal : e.ctxVa.toNat % 4096 = 0 := (L.whole _ hctx).1
    have hend : e.ctxVa.toNat + 4096 ≤ vm.kmdVaNext.toNat := (L.within _ hctx).2
    have hbase : (e.ctxVa + 4096).toNat = e.ctxVa.toNat + 4096 :=
      nextPage_toNat (by have := L.next; omega)
    obtain ⟨n, hn⟩ := Nat.exists_eq_succ_of_ne_zero (Nat.pos_iff_ne_zero.mp hsome)
    have hroom : n * e.call.chunkSize ≤ 16 * 0x200000 := Nat.mul_le_mul (by omega) hsize.2.2
    have hlinks : ∀ k < n + 1, gpuRead64 vm.pt s.mem (chunkVa (e.ctxVa + 4096) e.call.chunkSize k) =
        some (linkValue (prevVa (e.ctxVa + 4096) e.call.chunkSize k) e.call.chunkSize) := by
      intro k hk
      refine hread (chunkBlock (e.ctxVa + 4096) e.call.chunkSize k) (List.mem_cons_of_mem _ ?_)
      exact List.mem_map_of_mem (List.mem_range.mpr (by omega))
    rw [hfirst, Done.made, hn]
    exact chain_blocks hsize (by omega) (by omega) n (by have := L.next; omega) hlinks
  · have hranges : (heaps s vmId).flatMap Done.ranges =
        ((heaps s vmId).flatMap Done.blocks).map Block.range := by
      simp only [List.map_flatMap, Done.blocks_ranges]
    rw [hranges]
    exact laid_apart L (kmdVaStart_bounds userVaRange).1
  · rw [← e.blocks_ranges] at hr
    obtain ⟨b, hb, rfl⟩ := List.mem_map.mp hr
    have hw := L.whole b (hmem e he b hb)
    exact Stands.mapped V (L.stands b (hmem e he b hb)) ⟨hw.1, hw.2.1⟩

theorem vmGet_putVm_ne {d : Device} {id other : ℕ} {vm vm' : Vm}
    (h : vmGet d.vmTable id = some vm) (hid : vm'.id = vm.id) (hne : id ≠ other) :
    vmGet (d.putVm id vm').vmTable other = vmGet d.vmTable other := by
  have hvm : vm.id = id := by
    simpa using List.find?_some (p := fun vm : Vm => vm.id == id) h
  obtain ⟨l, r, hvms, -, hset⟩ := find_split h
  have hfar : (vm.id == other) = false := by simpa [hvm] using hne
  have hput : (d.putVm id vm').vmTable.vms = l ++ vm'::r := hset vm'
  rw [vmGet, vmGet, hput, hvms]
  simp [List.find?_append, hid, hfar]

variable {c : Call} {t : State}

theorem heaps_push (s : State) (e : Done) (d : Device) (mem : Contents) :
    heaps ⟨d, mem, s.done ++ [e]⟩ vmId =
      heaps s vmId ++ if e.status = .success ∧ e.call.vmId = vmId then [e] else [] := by
  simp only [heaps, List.filter_append, List.filter_cons, List.filter_nil, decide_eq_true_eq]

/-- A call that gives this VM no heap. -/
theorem Inv.pass (I : Inv vmId userVaRange s) {e : Done} {d : Device} {mem : Contents}
    (W : WellBuilt d) (hzero : e.status ≠ .success → e.ctxVa = 0 ∧ e.firstChunkVa = 0)
    (hno : ¬(e.status = .success ∧ e.call.vmId = vmId))
    (hlaid : ∃ vm, vmGet d.vmTable vmId = some vm ∧ Laid (kmdVaStart userVaRange).toNat
      d.bos vm mem ((heaps s vmId).flatMap Done.blocks)) :
    Inv vmId userVaRange ⟨d, mem, s.done ++ [e]⟩ := by
  have hsame : heaps ⟨d, mem, s.done ++ [e]⟩ vmId = heaps s vmId := by
    rw [heaps_push, if_neg hno, List.append_nil]
  refine ⟨W, List.forall_mem_append.mpr ⟨I.failed, List.forall_mem_singleton.mpr hzero⟩, ?_, ?_⟩
  · rw [hsame]
    exact I.shaped
  · rw [hsame]
    exact hlaid

theorem Inv.step (I : Inv vmId userVaRange s) (hf : Fits vmId s c) (ht : step s c = some t) :
    Inv vmId userVaRange t := by
  obtain ⟨vm, hvm, L⟩ := I.laid
  have W : WellBuilt { s.device with freed := [] } := ⟨I.built.vms, I.built.bos⟩
  have hbuilt : WellBuilt (tilerHeapStamped { s.device with freed := [] } c s.mem).2.2.2.1 := by
    have B := tilerReal_built W c.proc c.ownerDevice c.vmId c.chunkSize c.initialChunkCount
      c.replies
    rwa [tilerHeap_forget _ c s.mem] at B
  have hfits := hf.2 t ht
  have hlow : 2 ^ 28 ≤ (kmdVaStart userVaRange).toNat := by
    have hbase : sysmemGpuBase.toNat = 2 ^ 28 := rfl
    have hstart := (kmdVaStart_bounds userVaRange).1
    omega
  rcases tilerHeap_cases (kmdVaStart userVaRange).toNat W.vms c s.mem hf.1 with
    hrun | ⟨vm₀, st, ctxVa, first, d', vm', mem', hvm₀, hrun, hsize, hsome, M, hzero, hrest⟩
  · rw [hrun] at hbuilt
    rw [HeapChains.step, State.after, hrun] at ht
    obtain rfl := Option.some.inj ht
    exact I.pass hbuilt (fun _ => ⟨rfl, rfl⟩) (fun h => by cases h.1) ⟨vm, hvm, L⟩
  rw [hrun] at hbuilt
  rw [HeapChains.step, State.after, hrun] at ht
  obtain rfl := Option.some.inj ht
  by_cases hid : c.vmId = vmId
  · subst hid
    obtain rfl : vm = vm₀ := Option.some.inj (hvm.symm.trans hvm₀)
    have hput : vmGet (d'.putVm c.vmId vm').vmTable c.vmId = some vm' :=
      vmGet_putVm (by rw [M.table]; exact hvm) M.id
    obtain ⟨hfirst, hlaid⟩ := hrest L.next.2.2
    have hlaid := hlaid (hfits vm' hput) hlow _ L
    by_cases hst : st = .success
    · subst hst
      obtain ⟨rfl, rfl⟩ := hfirst rfl
      refine ⟨hbuilt, List.forall_mem_append.mpr ⟨I.failed, List.forall_mem_singleton.mpr hzero⟩,
        ?_, vm', hput, ?_⟩
      · rw [heaps_push, if_pos ⟨rfl, rfl⟩]
        exact List.forall_mem_append.mpr
          ⟨I.shaped, List.forall_mem_singleton.mpr ⟨hsize, hsome, rfl⟩⟩
      · rw [heaps_push, if_pos ⟨rfl, rfl⟩, List.flatMap_append, List.flatMap_singleton]
        exact hlaid.2 rfl
    · exact I.pass hbuilt hzero (fun h => hst h.1) ⟨vm', hput, hlaid.1⟩
  · refine I.pass hbuilt hzero (fun h => hid h.2) ⟨vm, ?_, L.keep M.bos M.frames⟩
    rw [vmGet_putVm_ne (by rw [M.table]; exact hvm₀) M.id hid, M.table]
    exact hvm

end Holding

/-- Over any run of calls on a VM without heaps: its heaps are chained, apart and mapped, as long
as the handle counter of 32 bits does not come round to a BO that is still there. -/
theorem heaps_chained (a : Adapter) (setup : List Op) {d : Device}
    (hp : ∀ op ∈ setup, Promised op) (hd : exec BoTable.step (started a) setup = some d)
    {vmId : ℕ} {userVaRange : Word} {vm : Vm} (hvm : vmGet d.vmTable vmId = some vm)
    (hnext : vm.kmdVaNext = kmdVaStart userVaRange) (mem : Contents) (calls : List Call)
    (hg : Guarded step (Fits vmId) ⟨d, mem, []⟩ calls) {t : State}
    (ht : exec step ⟨d, mem, []⟩ calls = some t) :
    ∃ vm, vmGet t.device.vmTable vmId = some vm ∧ Chained vmId userVaRange t vm.pt := by
  have hbounds := kmdVaStart_bounds userVaRange
  have L : Laid (kmdVaStart userVaRange).toNat d.bos vm mem [] := by
    refine ⟨by simp, by simp, by simp, .nil, ?_⟩
    rw [hnext]
    omega
  have hstart : Inv vmId userVaRange ⟨d, mem, []⟩ :=
    ⟨(exec_built hp hd).1, by simp, by simp [heaps], vm, hvm, L⟩
  have I : Inv vmId userVaRange t :=
    exec_invariant (fun _ _ _ I hf ht => I.step hf ht) hstart hg ht
  obtain ⟨vm', hvm', -⟩ := I.laid
  exact ⟨vm', hvm', I.chained hvm'⟩

instance (vmId : ℕ) (s : State) (c : Call) : Decidable (Fits vmId s c) :=
  inferInstanceAs (Decidable ((∀ _ ∈ _, _) ∧ ∀ _ ∈ _, ∀ _ ∈ _, _))

/-- A heap of `count` chunks of two pages, with frames from `frame` on. -/
def twoPages (count : ℕ) (frame : Word) : Call :=
  ⟨7, some 1, 1, 8192, count,
    fun k => ⟨⟨true, some [frame + BitVec.ofNat 64 (2 * k), frame + BitVec.ofNat 64 (2 * k + 1)]⟩,
      true⟩⟩

theorem userVm_found : vmGet userDevice.vmTable 1 = some userVm := (Option.some_get _).symm

theorem promised_setup : ∀ op ∈ [csfVm, onePage], Promised op :=
  fun op hop => promised_calls op (by simp at hop ⊢; tauto)

theorem two_heaps_chained : ∃ t, exec step ⟨userDevice, fun _ _ => 0, []⟩
      [twoPages 3 0x90000, twoPages 20 0xA0000] = some t ∧
    (∃ vm, vmGet t.device.vmTable 1 = some vm ∧ Chained 1 0 t vm.pt) ∧
    t.done.map Done.status = [.success, .success] := by
  have hd : exec BoTable.step (started bare) [csfVm, onePage] = some userDevice := rfl
  have hnext : userVm.kmdVaNext = kmdVaStart 0 := by decide +kernel
  have hg : Guarded step (Fits 1) ⟨userDevice, fun _ _ => 0, []⟩
      [twoPages 3 0x90000, twoPages 20 0xA0000] := by decide +kernel
  exact ⟨_, rfl, heaps_chained bare _ promised_setup hd userVm_found hnext _ _ hg rfl,
    by decide +kernel⟩

section Wrap

/-- Another page is made and destroyed `n` times, and the counter goes on from `handle`. -/
def scratches : ℕ → ℕ → List Op
  | _, 0 => []
  | handle, n + 1 => .boCreate 4096 0 0 none ⟨true, some [1]⟩::.boDestroy 0 handle::
    scratches (handle + 1) n

theorem scratches_promised (handle n : ℕ) : ∀ op ∈ scratches handle n, Promised op := by
  induction n generalizing handle with
  | zero => simp [scratches]
  | succ n ih =>
    exact List.forall_mem_cons.mpr ⟨trivial, List.forall_mem_cons.mpr ⟨trivial, ih (handle + 1)⟩⟩

theorem scratches_run {d : Device} (handle n : ℕ) (hnext : d.nextHandle = handle)
    (hpage : ∀ bo ∈ d.bos, (1 : Word) ∉ bo.pfns) (hlow : ∀ bo ∈ d.bos, bo.handle < handle)
    (hlt : handle + n ≤ 2 ^ 32) : ∃ fr, exec BoTable.step d (scratches handle n) =
      some { d with nextHandle := handle + n, freed := fr } := by
  induction n generalizing handle d with
  | zero =>
    subst hnext
    exact ⟨d.freed, rfl⟩
  | succ n ih =>
    subst hnext
    have hone : (1 : Word).toNat < 2 ^ 36 := by decide
    obtain ⟨hfresh, hcreate⟩ := boCreate_page (d := { d with freed := [] }) hone hpage
    have hsize : (4096 : Word).toNat ≤ 4096 * 1 := by decide
    have hn : NewBo { d with freed := [] } (pageBo { d with freed := [] } 1) :=
      ⟨rfl, hfresh, ⟨rfl, hfresh.1, hsize, hfresh.2.1⟩, rfl⟩
    have hmod : d.nextHandle % 2 ^ 32 = d.nextHandle := Nat.mod_eq_of_lt (by omega)
    have hclear : ∀ b ∈ d.bos, b.handle ≠ d.nextHandle % 2 ^ 32 := by
      intro b hb
      rw [hmod]
      exact (hlow b hb).ne
    have hdestroy : (boDestroy (addBo { d with freed := [] } (pageBo { d with freed := [] } 1)) 0
        d.nextHandle).2 = { d with nextHandle := d.nextHandle + 1, freed := [1] } := by
      have hgone : (boDestroy (addBo _ (pageBo _ 1)) 0 _).2 = _ := boDestroy_new hn hclear
      rwa [show (pageBo { d with freed := [] } 1).handle = d.nextHandle from hmod] at hgone
    obtain ⟨fr, hrest⟩ := ih (d := { d with nextHandle := d.nextHandle + 1, freed := [1] })
      (d.nextHandle + 1) rfl hpage (fun bo hbo => (hlow bo hbo).trans (by omega)) (by omega)
    refine ⟨fr, ?_⟩
    have hcreated : BoTable.step d (.boCreate 4096 0 0 none ⟨true, some [1]⟩) =
        some (addBo { d with freed := [] } (pageBo { d with freed := [] } 1)) := by
      rw [BoTable.step, Op.apply, hcreate]
    have hdestroyed : BoTable.step (addBo { d with freed := [] } (pageBo { d with freed := [] } 1))
        (.boDestroy 0 d.nextHandle) =
        some { d with nextHandle := d.nextHandle + 1, freed := [1] } := congrArg some hdestroy
    rw [scratches, exec, hcreated, Option.bind_some, exec, hdestroyed, Option.bind_some, hrest,
      Nat.add_right_comm, Nat.add_assoc]

/-- The page of the client has handle 1, and the counter stands at `2 ^ 32`. -/
def wrapped : State := ⟨{ userDevice with nextHandle := 2 ^ 32 }, fun _ _ => 0, []⟩

theorem wrapped_reached {n : ℕ} (hn : 2 + n = 2 ^ 32) :
    ∃ fr, exec BoTable.step (started bare) ([csfVm, onePage] ++ scratches 2 n) =
      some { wrapped.device with freed := fr } := by
  have hpage : ∀ bo ∈ userDevice.bos, (1 : Word) ∉ bo.pfns := by decide +kernel
  have hlow : ∀ bo ∈ userDevice.bos, bo.handle < 2 := by decide +kernel
  obtain ⟨fr, hrun⟩ := scratches_run 2 n rfl hpage hlow hn.le
  refine ⟨fr, ?_⟩
  rw [exec_append]
  rw [hn] at hrun
  exact hrun

theorem after_freed (d : Device) (fr : List Word) (mem : Contents) (done : List Done) (c : Call) :
    State.after ⟨{ d with freed := fr }, mem, done⟩ c = State.after ⟨d, mem, done⟩ c := rfl

def intoClient : State := wrapped.after (twoPages 1 0x90000)

def intoClientVm : Vm := (vmGet intoClient.device.vmTable 1).get (by decide +kernel)

/-- The call succeeds. The chunk got the page of the client and no second one. -/
theorem chunk_in_client_page : ∃ setup d t, (∀ op ∈ setup, Promised op) ∧
    exec BoTable.step (started bare) setup = some d ∧ vmGet d.vmTable 1 = some userVm ∧
    userVm.kmdVaNext = kmdVaStart 0 ∧
    exec step ⟨d, fun _ _ => 0, []⟩ [twoPages 1 0x90000] = some t ∧
    vmGet t.device.vmTable 1 = some intoClientVm ∧ intoClientVm.kmdVaNext.toNat < 2 ^ 48 ∧
    (heaps t 1).length = 1 ∧
    translation intoClientVm.pt 0x40001000 = some (0x80000000, pageAttrRwNx) ∧
    ¬Chained 1 0 t intoClientVm.pt := by
  obtain ⟨fr, hsetup⟩ := wrapped_reached (n := 2 ^ 32 - 2) (by norm_num)
  have hpromised : ∀ op ∈ [csfVm, onePage] ++ scratches 2 (2 ^ 32 - 2), Promised op :=
    List.forall_mem_append.mpr ⟨promised_setup, scratches_promised _ _⟩
  have hcall := after_freed wrapped.device fr (fun _ _ => 0) [] (twoPages 1 0x90000)
  refine ⟨_, _, intoClient, hpromised, hsetup, userVm_found, by decide +kernel,
    congrArg some hcall, ?_, ?_, ?_, ?_, ?_⟩
  · exact (Option.some_get _).symm
  · decide +kernel
  · decide +kernel
  · decide +kernel
  · intro C
    have hchunk : ∃ e ∈ heaps intoClient 1, ⟨0x40001000, 8192⟩ ∈ e.ranges := by decide +kernel
    have hnone : translation intoClientVm.pt (0x40001000 + BitVec.ofNat 64 4096) = none := by
      decide +kernel
    obtain ⟨e, he, hr⟩ := hchunk
    obtain ⟨pa, hpa⟩ := C.mapped e he _ hr 4096 (by decide)
    rw [hnone] at hpa
    cases hpa

end Wrap

end WinMali.HeapChains
