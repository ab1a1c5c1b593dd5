import WinMaliKmd.HeapBlocks

/-!
# What every call leaves in order

Nothing is owed here: after any sequence of calls the page tables are trees, and
the BOs have frames for all their pages.
-/

set_option autoImplicit false

namespace WinMali.DeviceTables
open WinMali.AsSlots WinMali.Lpae WinMali.VmPageTable WinMali.VmTable WinMali.VmLeafWrites
  WinMali.BoTable WinMali.PageBooks WinMali.PageBinding WinMali.HeapBlocks
open WinMali.VmPageTableMap (vmInit_good)

structure Backed (bo : Bo) : Prop where
  sized : bo.size.toNat ≤ 4096 * bo.pfns.length
  framed : ∀ f ∈ bo.pfns, f.toNat < 2 ^ 36

structure WellBuilt (d : Device) : Prop where
  vms : ∀ vm ∈ d.vmTable.vms, PtSound vm.supply vm.pt
  bos : ∀ bo ∈ d.bos, Backed bo

theorem Backed.frame {bo : Bo} (hb : Backed bo) {k : ℕ} (hk : k < bo.pfns.length) :
    pfnAt bo.pfns k ∈ bo.pfns ∧ (pfnAt bo.pfns k).toNat < 2 ^ 36 := by
  have hmem : pfnAt bo.pfns k ∈ bo.pfns := by simp [pfnAt, hk]
  exact ⟨hmem, hb.framed _ hmem⟩

section Bind

variable {supply : ℕ → PtReply} {pt : VmPt} {d : Device}

theorem boGet_mem {handle : ℕ} {bo : Bo} (h : boGet d handle = some bo) : bo ∈ d.bos :=
  List.mem_of_find?_eq_some h

theorem vmBindOp_sound (W : WellBuilt d) (V : PtSound supply pt) (op : BindOp) :
    PtSound supply (vmBindOp d supply op pt).2 := by
  unfold vmBindOp
  dsimp only
  split
  · cases h : boGet d op.boHandle with
    | none => exact V
    | some bo =>
      have hb := W.bos bo (boGet_mem h)
      dsimp only
      split
      · exact V
      · rename_i hsize
        have hcount := pageCount_le (fun h => hsize (.inr h)) hb.sized
        exact map_sound V (fun k hk => (hb.frame (by omega)).2) (bindAttrs_valid op.flags)
          d.adapter op.va
  split
  · exact unmap_sound V d.adapter op.va (pageCount op.size)
  split <;> exact V

theorem vmBindOps_sound (W : WellBuilt d) (V : PtSound supply pt) (ops : List BindOp) :
    PtSound supply (vmBindOps d supply ops pt).2 :=
  vmBindOps_induct V fun op _ _ V => vmBindOp_sound W V op

theorem WellBuilt.putVm (W : WellBuilt d) {id : ℕ} {vm vm' : Vm}
    (h : vmGet d.vmTable id = some vm) (V : PtSound vm'.supply vm'.pt) :
    WellBuilt (d.putVm id vm') := by
  refine ⟨?_, W.bos⟩
  intro v hv
  rcases ((vmGet_split h).2 vm').2 v hv with rfl | hv
  · exact V
  · exact W.vms v hv

theorem vmBind_built (W : WellBuilt d) (vmId : ℕ) (ops : List BindOp) :
    WellBuilt (vmBind d vmId ops).2 := by
  unfold vmBind
  split
  · exact W
  cases h : vmGet d.vmTable vmId with
  | none => exact W
  | some vm =>
    have V := vmBindOps_sound W (W.vms vm (vmGet_split h).1) ops
    have hput : WellBuilt (d.putVm vmId { vm with pt := (vmBindOps d vm.supply ops vm.pt).2 }) :=
      W.putVm h V
    exact hput

end Bind

section Blocks

variable {d : Device}

theorem NewBo.backed {bo : Bo} (hn : NewBo d bo) : Backed bo := ⟨hn.sound.sized, hn.sound.framed⟩

theorem boCreate_built (W : WellBuilt d) (size : Word) (flags : BitVec 32) (vmId : ℕ)
    (owner : Option ℕ) (r : BoReply) :
    WellBuilt (boCreate d size flags vmId owner r).2.2 ∧
      (boCreate d size flags vmId owner r).2.2.vmTable = d.vmTable := by
  rcases boCreate_cases d size flags vmId owner r with ⟨part, -, hd, -⟩ | ⟨bo, hd, hn⟩
  · rw [hd]
    exact ⟨⟨W.vms, W.bos⟩, rfl⟩
  · rw [hd]
    refine ⟨⟨W.vms, ?_⟩, rfl⟩
    intro b hb
    rcases List.mem_append.mp hb with h | h
    · exact W.bos b h
    · exact List.mem_singleton.mp h ▸ NewBo.backed hn

theorem freeAll_tables (proc : ℕ) (taken : List Bo) (d : Device) :
    (taken.foldl (boFree proc) d).vmTable = d.vmTable ∧
      (taken.foldl (boFree proc) d).bos = d.bos := by
  induction taken generalizing d with
  | nil => exact ⟨rfl, rfl⟩
  | cons bo taken ih => exact ih (boFree proc d bo)

theorem boDestroy_built (W : WellBuilt d) (proc handle : ℕ) :
    WellBuilt (boDestroy d proc handle).2 ∧ (boDestroy d proc handle).2.vmTable = d.vmTable := by
  unfold boDestroy boTakeByHandle
  cases h : boGet d handle with
  | none => exact ⟨W, rfl⟩
  | some bo => exact ⟨⟨W.vms, fun b hb => W.bos b (List.mem_of_mem_eraseP hb)⟩, rfl⟩

theorem boRundown_built (W : WellBuilt d) (proc : ℕ) (owner : Option ℕ) :
    WellBuilt (boRundownOwner d proc owner).2 := by
  unfold boRundownOwner
  split
  · exact W
  · obtain ⟨hvm, hbos⟩ := freeAll_tables proc (d.bos.filter fun bo => bo.ownerDevice = owner)
      { d with bos := d.bos.filter fun bo => ¬bo.ownerDevice = owner }
    refine ⟨fun vm hv => W.vms vm (hvm ▸ hv), fun bo hbo => W.bos bo ?_⟩
    exact (List.mem_filter.mp (hbos ▸ hbo)).1

theorem boMapCpu_built (W : WellBuilt d) (proc handle : ℕ) (reply : Option Word) :
    WellBuilt (boMapCpu d proc handle reply).2.2 := by
  unfold boMapCpu
  cases h : boGet d handle with
  | none => exact W
  | some bo =>
    dsimp only
    cases bo.userVa with
    | some u =>
      dsimp only
      split <;> exact W
    | none =>
      cases reply with
      | none => exact W
      | some va =>
        have hb := W.bos bo (boGet_mem h)
        refine ⟨W.vms, fun b hb' => ?_⟩
        rcases List.mem_or_eq_of_mem_set hb' with h' | rfl
        · exact W.bos b h'
        · exact ⟨hb.sized, hb.framed⟩

theorem heapAlloc_built (W : WellBuilt d) {vm : Vm} (V : PtSound vm.supply vm.pt) (proc : ℕ)
    (owner : Option ℕ) (size : ℕ) (gpuVa : Word) (r : HeapReply) {st : NtStatus} {handle : ℕ}
    {d' : Device} {vm' : Vm}
    (h : heapAllocMapped d vm proc owner size gpuVa r = (st, handle, d', vm')) :
    WellBuilt d' ∧ d'.vmTable = d.vmTable ∧ PtSound vm'.supply vm'.pt := by
  unfold heapAllocMapped at h
  have hattrs : ValidAttrs pageAttrRwNx := by decide
  split at h
  · obtain ⟨-, -, rfl, rfl⟩ := Prod.mk.injEq .. ▸ h
    exact ⟨W, rfl, V⟩
  obtain ⟨W₁, ht₁⟩ := boCreate_built W (BitVec.ofNat 64 size) 0 0 owner r.bo
  rcases hc : boCreate d (BitVec.ofNat 64 size) 0 0 owner r.bo with ⟨err, handle₁, d₁⟩
  rw [hc] at W₁ ht₁
  simp only [hc] at h
  split at h
  · obtain ⟨-, -, rfl, rfl⟩ := Prod.mk.injEq .. ▸ h
    exact ⟨W₁, ht₁, V⟩
  obtain ⟨W₂, ht₂⟩ := boDestroy_built W₁ proc handle₁
  cases hg : boGet d₁ handle₁ with
  | none =>
    simp only [hg] at h
    obtain ⟨-, -, rfl, rfl⟩ := Prod.mk.injEq .. ▸ h
    exact ⟨W₂, ht₂.trans ht₁, V⟩
  | some bo =>
    have hb := W₁.bos bo (boGet_mem hg)
    have hpages := heapPages_le hb.sized
    have M := map_sound V (fun k (hk : k < heapPages bo) => (hb.frame (by omega)).2) hattrs
      d₁.adapter gpuVa
    simp only [hg] at h
    split at h
    · obtain ⟨-, -, rfl, rfl⟩ := Prod.mk.injEq .. ▸ h
      exact ⟨W₂, ht₂.trans ht₁, M⟩
    split at h
    · obtain ⟨-, -, rfl, rfl⟩ := Prod.mk.injEq .. ▸ h
      exact ⟨W₂, ht₂.trans ht₁, unmap_sound M d₁.adapter gpuVa (heapPages bo)⟩
    · obtain ⟨-, -, rfl, rfl⟩ := Prod.mk.injEq .. ▸ h
      exact ⟨W₁, ht₁, M⟩

theorem chunks_built (W : WellBuilt d) {vm : Vm} (V : PtSound vm.supply vm.pt) (proc : ℕ)
    (owner : Option ℕ) (chunkSize : ℕ) (r : ℕ → HeapReply) (k left : ℕ) (first : Word)
    {st : NtStatus} {va : Word} {d' : Device} {vm' : Vm}
    (h : tilerChunks proc owner chunkSize r k left d vm first = (st, va, d', vm')) :
    WellBuilt d' ∧ d'.vmTable = d.vmTable ∧ PtSound vm'.supply vm'.pt := by
  induction left generalizing k d vm first with
  | zero =>
    obtain ⟨-, -, rfl, rfl⟩ := Prod.mk.injEq .. ▸ h
    exact ⟨W, rfl, V⟩
  | succ left ih =>
    rcases hblock : heapAllocMapped d vm proc owner chunkSize vm.kmdVaNext (r k) with
      ⟨st₁, h₁, d₁, vm₁⟩
    obtain ⟨W₁, ht₁, V₁⟩ := heapAlloc_built W V proc owner chunkSize vm.kmdVaNext (r k) hblock
    simp only [tilerChunks, hblock] at h
    split at h
    · obtain ⟨-, -, rfl, rfl⟩ := Prod.mk.injEq .. ▸ h
      exact ⟨W₁, ht₁, V₁⟩
    · obtain ⟨W', ht', V'⟩ := ih W₁ (by exact V₁) (k + 1) _ h
      exact ⟨W', ht'.trans ht₁, V'⟩

theorem tilerReal_built (W : WellBuilt d) (proc : ℕ) (owner : Option ℕ)
    (vmId chunkSize count : ℕ) (r : ℕ → HeapReply) :
    WellBuilt (tilerHeapCreateReal d proc owner vmId chunkSize count r).2.2.2 := by
  unfold tilerHeapCreateReal
  split
  · exact W
  split
  · exact W
  cases hvm : vmGet d.vmTable vmId with
  | none => exact W
  | some vm =>
    rcases hctx : heapAllocMapped d vm proc owner 4096 vm.kmdVaNext (r 0) with ⟨st₁, h₁, d₁, vm₁⟩
    obtain ⟨W₁, ht₁, V₁⟩ := heapAlloc_built W (W.vms vm (vmGet_split hvm).1) proc owner 4096
      vm.kmdVaNext (r 0) hctx
    simp only [hctx]
    split
    · exact W₁.putVm (ht₁.symm ▸ hvm) V₁
    · rcases hrun : tilerChunks proc owner chunkSize (fun k => r (k + 1)) 0 (min count 16) d₁
        { vm₁ with kmdVaNext := vm₁.kmdVaNext + 4096 } 0 with ⟨st, va, d', vm'⟩
      obtain ⟨W', ht', V'⟩ := chunks_built W₁ (by exact V₁) proc owner chunkSize _ 0 _ 0 hrun
      have hvm' : vmGet d'.vmTable vmId = some vm := by rw [ht', ht₁, hvm]
      simp only
      split <;> exact W'.putVm hvm' V'

theorem tilerHeapCreate_built (W : WellBuilt d) (proc : ℕ) (owner : Option ℕ)
    (vmId chunkSize count : ℕ) (r : ℕ → HeapReply) :
    WellBuilt (tilerHeapCreate d proc owner vmId chunkSize count r).2 := by
  by_cases h : vmId = 0 ∨ count = 0
  · rw [tilerHeapCreate, if_pos h]
    exact W
  · rw [not_or] at h
    rw [tilerHeapCreate_device d proc owner vmId chunkSize count r h.1 h.2]
    exact tilerReal_built W proc owner vmId chunkSize count r

end Blocks

section VmLife

variable {d : Device}

theorem vmCreate_built (W : WellBuilt d) (r : VmRequest) (hr : Promised (.vmCreate r)) :
    WellBuilt (d.withVms (vmCreate d.adapter d.vmTable r).2) := by
  refine ⟨?_, W.bos⟩
  intro vm hv
  change vm ∈ (vmCreate d.adapter d.vmTable r).2.2.vms at hv
  rcases vmCreate_table d.adapter d.vmTable r with h | ⟨pt, a', new, hinit, hsup, hpt, h⟩
  · exact W.vms vm (h ▸ hv)
  rw [h] at hv
  rcases List.mem_append.mp hv with hold | hnew
  · exact W.vms vm hold
  obtain rfl := List.mem_singleton.mp hnew
  obtain ⟨root, G⟩ := vmInit_good hr.1 hinit
  rw [hsup, hpt]
  exact (csfMapIntoVm_writes ⟨hr.1, root, G⟩ a' hr.2).1

theorem vmDestroy_mem {a : Adapter} {tab : Table} {vmId : ℕ} {vm : Vm}
    (h : vm ∈ (vmDestroy a tab vmId).2.vms) : vm ∈ tab.vms := by
  unfold vmDestroy vmTakeById at h
  cases hf : tab.vms.find? fun vm => vm.id == vmId with
  | none =>
    rw [hf] at h
    exact h
  | some v =>
    rw [hf] at h
    exact List.mem_of_mem_eraseP h

theorem step_built (W : WellBuilt d) (op : Op) (hp : Promised op) : WellBuilt (op.apply d) := by
  cases op with
  | boCreate size flags vmId owner r => exact (boCreate_built W size flags vmId owner r).1
  | boMapCpu proc handle reply => exact boMapCpu_built W proc handle reply
  | boDestroy proc handle => exact (boDestroy_built W proc handle).1
  | boRundownOwner proc owner => exact boRundown_built W proc owner
  | vmCreate r => exact vmCreate_built W r hp
  | vmBind vmId ops => exact vmBind_built W vmId ops
  | vmDestroy vmId => exact ⟨fun vm hv => W.vms vm (vmDestroy_mem hv), W.bos⟩
  | tilerHeapCreate proc owner vmId chunkSize count r =>
    exact tilerHeapCreate_built W proc owner vmId chunkSize count r

theorem started_built (a : Adapter) : WellBuilt (started a) :=
  ⟨by simp [started], by simp [started]⟩

end VmLife

end WinMali.DeviceTables
