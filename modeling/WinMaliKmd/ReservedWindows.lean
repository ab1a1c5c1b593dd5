import Mathlib.Logic.Function.Basic
import WinMaliKmd.DeviceTables
import WinMaliKmd.Runs

/-!
# What user mode can bind over

`VmBind` takes any address. The driver keeps its own pages in the same table: the
command stream pages at fixed low addresses, and the tiler heaps where the bump
allocator puts them. A bind leaves them alone as long as its own ranges do.
-/

set_option autoImplicit false

namespace WinMali.ReservedWindows
open WinMali.AsSlots WinMali.Lpae WinMali.VmPageTable WinMali.VmTable WinMali.VmLeafWrites
  WinMali.BlockCover WinMali.BoTable WinMali.PageBooks WinMali.PageBinding
  WinMali.DeviceTables WinMali.Runs
open WinMali.VmPageTableMap (Good unmapLoop_spec unmapEvent eightPages eightPages_honest)

/-- What the hardware finds at an address of the VM. -/
def translation (pt : VmPt) (va : Word) : Option (Word × Word) :=
  pt.rootVa.bind fun root => hwWalk pt.mem root va

/-- The pages that the bump allocator has gone past. -/
def bumped (before after : Word) : List ℕ :=
  (List.range ((after - before).toNat / 4096)).map fun k => pageOf (pageVa before k)

/-- `heap` holds the pages that tiler heaps got in the VM an id stands for. The driver
keeps no such list. -/
structure State where
  device : Device
  heap : ℕ → List ℕ

def heapAfter (s : State) (t : Device) : Op → ℕ → List ℕ
  | .tilerHeapCreate _ _ vmId _ _ _ =>
    match vmGet s.device.vmTable vmId, vmGet t.vmTable vmId with
    | some vm, some vm' =>
      Function.update s.heap vmId (s.heap vmId ++ bumped vm.kmdVaNext vm'.kmdVaNext)
    | _, _ => s.heap
  | .vmDestroy vmId => Function.update s.heap vmId []
  | _ => s.heap

def step (s : State) (op : Op) : Option State :=
  (BoTable.step s.device op).map fun t => ⟨t, heapAfter s t op⟩

def opened (a : Adapter) : State := ⟨started a, fun _ => []⟩

/-- Addresses count modulo `2 ^ 48`, so a page has an alias in every window of that size. -/
def Reserved (s : State) (vmId : ℕ) (va : Word) : Prop :=
  CsfPage (pageOf va) ∨ pageOf va ∈ s.heap vmId

/-- How many pages an operation asks for and what goes into each of them; `none` is an
operation that is turned away before it reaches the page table. -/
def plan (d : Device) (op : BindOp) : Option (ℕ × (ℕ → Option (Word × Word))) :=
  let opType := op.flags &&& bindOpTypeMask
  if opType = bindOpTypeMap then
    (boGet d op.boHandle).bind fun bo =>
      if (op.boOffset ≠ 0 ∨ op.size > bo.size) ∨ pageCount op.size ≠ 0 ∧ op.va &&& 0xFFF ≠ 0 then
        none
      else some (pageCount op.size, fun k => some (pfnAt bo.pfns k <<< 12, bindAttrs op.flags))
  else if opType = bindOpTypeUnmap then
    if op.va &&& 0xFFF ≠ 0 then none else some (pageCount op.size, fun _ => none)
  else if opType = bindOpTypeSyncOnly then some (0, fun _ => none)
  else none

/-- Where the operation meets a reserved page, it stores what is there already. -/
def Keeps (s : State) (vmId : ℕ) (vm : Vm) (op : BindOp) : Prop :=
  ∀ p ∈ plan s.device op, ∀ k < p.1, Reserved s vmId (pageVa op.va k) →
    p.2 k = translation vm.pt (pageVa op.va k)

/-- A batch ends at the first operation that is turned away. -/
def Clear (s : State) : Op → Prop
  | .vmBind vmId ops => ∀ vm ∈ vmGet s.device.vmTable vmId,
    ∀ op ∈ ops.takeWhile fun op => (plan s.device op).isSome, Keeps s vmId vm op
  | _ => True

def Intact (s : State) (op : Op) (t : State) : Prop :=
  match op with
  | .vmBind vmId _ => ∀ vm ∈ vmGet s.device.vmTable vmId, ∃ vm',
    vmGet t.device.vmTable vmId = some vm' ∧
      ∀ va, Reserved s vmId va → translation vm'.pt va = translation vm.pt va
  | _ => True

instance (s : State) (vmId : ℕ) (va : Word) : Decidable (Reserved s vmId va) :=
  inferInstanceAs (Decidable (_ ∨ _))

instance (s : State) (vmId : ℕ) (vm : Vm) (op : BindOp) : Decidable (Keeps s vmId vm op) :=
  inferInstanceAs (Decidable (∀ _ ∈ _, _))

instance (s : State) : (op : Op) → Decidable (Clear s op)
  | .vmBind .. => inferInstanceAs (Decidable (∀ _ ∈ _, _))
  | .boCreate .. | .boMapCpu .. | .boDestroy .. | .boRundownOwner .. | .vmCreate ..
  | .vmDestroy .. | .tilerHeapCreate .. => isTrue trivial

theorem lastLeaf_agree {es rest : List Event} {page : ℕ}
    (h : ∀ v, Event.leaf page v ∈ es → v = lastLeaf rest page) :
    lastLeaf (es ++ rest) page = lastLeaf rest page := by
  induction es with
  | nil => rfl
  | cons e es ih =>
    have hrest := ih fun v hv => h v (List.mem_cons_of_mem _ hv)
    cases e with
    | flush slot => exact hrest
    | leaf p value =>
      rw [List.cons_append, lastLeaf]
      split
      · rename_i hp
        exact h value (hp ▸ List.mem_cons_self ..)
      · exact hrest

theorem translation_eq {supply : ℕ → PtReply} {pt : VmPt} (V : PtSound supply pt) (va : Word) :
    translation pt va = lastLeaf pt.trace (pageOf va) := by
  obtain ⟨root, G⟩ := V.good
  rw [translation, G.rootVa]
  exact G.walk va

section Batch

variable {supply : ℕ → PtReply} {pt : VmPt} {d : Device} {page : ℕ}

theorem map_keeps (V : PtSound supply pt) {bo : Bo} (hb : Backed bo) {count : ℕ}
    (hcount : count ≤ bo.pfns.length) {attrs : Word} (ha : ValidAttrs attrs) (a : Adapter)
    (gpuVa : Word)
    (h : ∀ k < count, pageOf (pageVa gpuVa k) = page →
      some (pfnAt bo.pfns k <<< 12, attrs) = lastLeaf pt.trace page) :
    lastLeaf (vmMap supply (some a) pt gpuVa (some (pfnAt bo.pfns)) count attrs).2.trace page =
      lastLeaf pt.trace page := by
  obtain ⟨root, G⟩ := V.good
  obtain ⟨n, hn, hlast, -⟩ := vmMap_spec V.honest G a gpuVa (pfnAt bo.pfns) count attrs ha
    (fun k hk => (hb.frame (by omega)).2)
  rw [hlast]
  refine lastLeaf_agree fun v hv => ?_
  obtain ⟨k, hk, hpage, rfl⟩ := mem_mapEvents hv
  exact h k (by omega) hpage.symm

theorem unmap_keeps (V : PtSound supply pt) (a : Adapter) (gpuVa : Word) (count : ℕ)
    (h : ∀ k < count, pageOf (pageVa gpuVa k) = page → none = lastLeaf pt.trace page) :
    lastLeaf (vmUnmap supply (some a) pt gpuVa count).2.trace page = lastLeaf pt.trace page := by
  obtain ⟨root, G⟩ := V.good
  simp only [vmUnmap, G.rootVa]
  split
  · rfl
  split
  · rfl
  obtain ⟨ks, -, -, hks, htrace⟩ := unmapLoop_spec V.honest G gpuVa 0 count
  have hloop : lastLeaf (vmUnmapLoop supply root gpuVa 0 count pt).trace page =
      lastLeaf pt.trace page := by
    rw [htrace]
    refine lastLeaf_agree fun v hv => ?_
    obtain ⟨k, hk, he⟩ := List.mem_map.mp (List.mem_reverse.mp hv)
    obtain ⟨hpage, rfl⟩ := Event.leaf.inj he
    have hlt := List.mem_range'_1.mp (hks.subset hk)
    exact h k (by omega) hpage
  split
  · exact hloop
  · exact hloop

theorem vmBindOp_refused (V : PtSound supply pt) {op : BindOp} (h : plan d op = none) :
    (vmBindOp d supply op pt).1 ≠ .ok ∧ (vmBindOp d supply op pt).2 = pt := by
  obtain ⟨root, G⟩ := V.good
  unfold plan at h
  unfold vmBindOp
  dsimp only at h ⊢
  split at h
  · rename_i htype
    rw [if_pos htype]
    cases hg : boGet d op.boHandle with
    | none => exact ⟨by simp, rfl⟩
    | some bo =>
      rw [hg, Option.bind_some] at h
      split at h
      · rename_i hbad
        dsimp only
        by_cases hsize : op.boOffset ≠ 0 ∨ op.size > bo.size
        · rw [if_pos hsize]
          exact ⟨by simp, rfl⟩
        · obtain ⟨h0, hal⟩ := hbad.resolve_left hsize
          simp only [if_neg hsize, vmMap, G.rootVa, if_neg h0, if_pos hal]
          exact ⟨by decide, trivial⟩
      · cases h
  · rename_i hmap
    rw [if_neg hmap]
    split at h
    · rename_i htype
      rw [if_pos htype]
      split at h
      · rename_i hal
        simp only [vmUnmap, G.rootVa, if_pos hal]
        exact ⟨by decide, trivial⟩
      · cases h
    · rename_i hunmap
      rw [if_neg hunmap]
      split at h
      · cases h
      · rename_i hsync
        rw [if_neg hsync]
        exact ⟨by simp, rfl⟩

theorem vmBindOp_keeps (W : WellBuilt d) (V : PtSound supply pt) (op : BindOp)
    (h : ∀ p ∈ plan d op, ∀ k < p.1, pageOf (pageVa op.va k) = page →
      p.2 k = lastLeaf pt.trace page) :
    lastLeaf (vmBindOp d supply op pt).2.trace page = lastLeaf pt.trace page := by
  cases hplan : plan d op with
  | none => rw [(vmBindOp_refused V hplan).2]
  | some p =>
    rw [hplan] at h
    have hp := h p rfl
    unfold plan at hplan
    unfold vmBindOp
    dsimp only at hplan ⊢
    split at hplan
    · rename_i htype
      rw [if_pos htype]
      obtain ⟨bo, hg, hbo⟩ := Option.bind_eq_some_iff.mp hplan
      split at hbo
      · cases hbo
      · rename_i hgood
        obtain rfl := Option.some.inj hbo
        have hsize := (not_or.mp hgood).1
        have hb := W.bos bo (boGet_mem hg)
        simp only [hg, if_neg hsize]
        exact map_keeps V hb (pageCount_le (fun hs => hsize (.inr hs)) hb.sized)
          (bindAttrs_valid op.flags) d.adapter op.va hp
    · rename_i hmap
      rw [if_neg hmap]
      split at hplan
      · rename_i htype
        rw [if_pos htype]
        split at hplan
        · cases hplan
        · obtain rfl := Option.some.inj hplan
          exact unmap_keeps V d.adapter op.va (pageCount op.size) hp
      · rename_i hunmap
        rw [if_neg hunmap]
        split <;> rfl

/-- What each operation before the first one that is turned away keeps, the batch keeps. -/
theorem vmBindOps_planned (W : WellBuilt d) {P : VmPt → Prop} {ops : List BindOp}
    (V : PtSound supply pt) (h : P pt)
    (hop : ∀ op ∈ ops.takeWhile fun op => (plan d op).isSome,
      ∀ pt, PtSound supply pt → P pt → P (vmBindOp d supply op pt).2) :
    P (vmBindOps d supply ops pt).2 := by
  induction ops generalizing pt with
  | nil => exact h
  | cons op ops ih =>
    simp only [vmBindOps]
    cases hplan : plan d op with
    | none =>
      obtain ⟨herr, hsame⟩ := vmBindOp_refused V hplan
      split <;> rename_i heq <;> rw [heq] at herr hsame
      · exact absurd rfl herr
      · rw [hsame]
        exact h
    | some p =>
      rw [List.takeWhile_cons_of_pos (by simp [hplan])] at hop
      have hfirst := hop op (List.mem_cons_self ..) pt V h
      have V' := vmBindOp_sound W V op
      split <;> rename_i heq <;> rw [heq] at hfirst V'
      · exact ih V' hfirst fun o ho => hop o (List.mem_cons_of_mem _ ho)
      · exact hfirst

theorem vmBindOps_keeps (W : WellBuilt d) (V : PtSound supply pt) (ops : List BindOp)
    (h : ∀ op ∈ ops.takeWhile fun op => (plan d op).isSome, ∀ p ∈ plan d op, ∀ k < p.1,
      pageOf (pageVa op.va k) = page → p.2 k = lastLeaf pt.trace page) :
    lastLeaf (vmBindOps d supply ops pt).2.trace page = lastLeaf pt.trace page := by
  refine vmBindOps_planned (P := fun pt' => lastLeaf pt'.trace page = lastLeaf pt.trace page)
    W V rfl fun op hop pt' V' hsame => ?_
  refine (vmBindOp_keeps W V' op fun p hp k hk hpage => ?_).trans hsame
  rw [hsame]
  exact h op hop p hp k hk hpage

end Batch

theorem vmGet_putVm {d : Device} {id : ℕ} {vm vm' : Vm} (h : vmGet d.vmTable id = some vm)
    (hid : vm'.id = vm.id) : vmGet (d.putVm id vm').vmTable id = some vm' := by
  have hvm : (vm.id == id) = true := List.find?_some (p := fun vm : Vm => vm.id == id) h
  exact find_set h (by rw [hid]; exact hvm)

theorem vmBind_intact {s : State} (W : WellBuilt s.device) {vmId : ℕ} {ops : List BindOp}
    (hc : Clear s (.vmBind vmId ops)) {vm : Vm} (hvm : vmGet s.device.vmTable vmId = some vm) :
    ∃ vm', vmGet (vmBind s.device vmId ops).2.vmTable vmId = some vm' ∧
      ∀ va, Reserved s vmId va → translation vm'.pt va = translation vm.pt va := by
  by_cases hops : ops = []
  · rw [vmBind, if_pos hops]
    exact ⟨vm, hvm, fun _ _ => rfl⟩
  have V := W.vms vm (vmGet_split hvm).1
  have V' := vmBindOps_sound W V ops
  simp only [vmBind, if_neg hops, hvm]
  refine ⟨{ vm with pt := (vmBindOps s.device vm.supply ops vm.pt).2 }, vmGet_putVm hvm rfl, ?_⟩
  intro va hres
  rw [translation_eq V', translation_eq V]
  refine vmBindOps_keeps W V ops fun op hop p hp k hk hpage => ?_
  have hkeep := hc vm hvm op hop p hp k hk
  rw [translation_eq V, Reserved, hpage] at hkeep
  exact hkeep hres

/-- Over any run: the driver's pages are translated after a bind as before it, as long as no
operation of a batch that is carried out puts anything else into one of them. -/
theorem reserved_intact (a : Adapter) (ops : List Op) (hp : ∀ op ∈ ops, Promised op)
    (hg : Guarded step Clear (opened a) ops) : Always step Intact (opened a) ops := by
  have hstep : ∀ s op t, WellBuilt s.device → Promised op ∧ Clear s op → step s op = some t →
      WellBuilt t.device := by
    rintro s op t W ⟨hpr, -⟩ ht
    obtain ⟨d, hd, rfl⟩ := Option.map_eq_some_iff.mp ht
    obtain rfl := Option.some.inj hd
    have W' : WellBuilt { s.device with freed := [] } := ⟨W.vms, W.bos⟩
    exact step_built W' op hpr
  refine always_of_guarded hstep ?_ ?_ (hg.of_labels hp)
  · rintro s op t W ⟨-, hc⟩ ht
    obtain ⟨d, hd, rfl⟩ := Option.map_eq_some_iff.mp ht
    obtain rfl := Option.some.inj hd
    cases op with
    | vmBind vmId ops =>
      intro vm hvm
      exact vmBind_intact (s := { s with device := { s.device with freed := [] } })
        ⟨W.vms, W.bos⟩ hc hvm
    | _ => trivial
  · exact started_built a

def csfVm : Op := .vmCreate ⟨0, 1, true, eightPages, fun _ _ => 0, .success,
  some ⟨0x8000000, 0x8010000, 0x8011000⟩⟩

def onePage : Op := .boCreate 4096 0 0 (some 1) ⟨true, some [0x80000]⟩

def bindAt (va : Word) : Op := .vmBind 1 [⟨bindOpTypeMap, 1, 0, va, 4096⟩]

def oneChunk : Op := .tilerHeapCreate 7 (some 1) 1 4096 1
  fun k => ⟨⟨true, some [0x90000 + BitVec.ofNat 64 k]⟩, true⟩

def bare : Adapter := ⟨0xFF, true, 0, 0, fun _ => .zero, []⟩

theorem promised_calls : ∀ op ∈ [csfVm, onePage, oneChunk, bindAt 0x10000000, bindAt 0x410800],
    Promised op := by
  have hbelow : CsfBelow ⟨0x8000000, 0x8010000, 0x8011000⟩ := ⟨by decide, by decide, by decide⟩
  simp only [List.forall_mem_cons]
  refine ⟨⟨eightPages_honest, ?_⟩, trivial, trivial, trivial, trivial, by simp⟩
  rintro c ⟨⟩
  exact hbelow

theorem user_window_intact : Always step Intact (opened bare)
    [csfVm, onePage, oneChunk, bindAt 0x10000000, bindAt 0x410800] :=
  reserved_intact bare _ promised_calls (by decide +kernel)

/-- A page of a BO, bound where the command ring is: the GPU reads user memory as the ring. -/
theorem bind_over_ring : ∃ s t vm vm', exec step (opened bare) [csfVm, onePage] = some s ∧
    step s (bindAt 0x410000) = some t ∧ vmGet s.device.vmTable 1 = some vm ∧
    vmGet t.device.vmTable 1 = some vm' ∧
    translation vm.pt csfRingGpuVa = some (0x8000000, pageAttrRwNx) ∧
    translation vm'.pt csfRingGpuVa = some (0x80000000, pageAttrRwEx) :=
  ⟨_, _, _, _, rfl, rfl, rfl, rfl, by decide +kernel, by decide +kernel⟩

end WinMali.ReservedWindows
