import WinMaliKmd.ReservedWindows

/-!
# What a bind covers

`VmBind` counts pages in 32 bits. A map cannot ask for more pages than that, because
its BO has not that many; an unmap takes its size from the caller as it is.
-/

set_option autoImplicit false

namespace WinMali.BindCoverage
open WinMali.AsSlots WinMali.Lpae WinMali.VmPageTable WinMali.VmTable WinMali.VmLeafWrites
  WinMali.BoTable WinMali.PageBooks WinMali.PageBinding WinMali.DeviceTables WinMali.Runs
open WinMali.HeapBlocks (tilerHeapCreate_device)
open WinMali.VmPageTableMap (eightPages eightPages_honest)
open WinMali.ReservedWindows (translation translation_eq map_keeps unmap_keeps)

/-- The size in pages, rounded up. -/
def rangePages (size : Word) : ℕ := (size.toNat + 4095) / 4096

/-- The page of `va` has an address of the range. -/
def Meets (op : BindOp) (va : Word) : Prop :=
  ∃ x < op.size.toNat, pageOf (op.va + BitVec.ofNat 64 x) = pageOf va

/-- The attributes of a leaf say what the flags ask for. -/
def Permits (flags : BitVec 32) (attrs : Word) : Prop :=
  (attrs &&& l3ApRo ≠ 0 ↔ flags &&& bindOpMapReadonly ≠ 0) ∧
    (attrs &&& l3Nx = l3Nx ↔ flags &&& bindOpMapNoexec ≠ 0)

def Mapped (d : Device) (op : BindOp) (after : VmPt) : Prop :=
  ∃ bo, boGet d op.boHandle = some bo ∧ ∀ j < rangePages op.size, ∃ f attrs,
    bo.pfns[j]? = some f ∧ Permits op.flags attrs ∧
      translation after (pageVa op.va j) = some (f <<< 12, attrs)

def Unmapped (op : BindOp) (after : VmPt) : Prop := ∀ va, Meets op va → translation after va = none

def Covers (d : Device) (op : BindOp) (before after : VmPt) : Prop :=
  (op.flags &&& bindOpTypeMask = bindOpTypeMap → Mapped d op after) ∧
  (op.flags &&& bindOpTypeMask = bindOpTypeUnmap → Unmapped op after) ∧
  ∀ va, ¬Meets op va → translation after va = translation before va

/-- The pages of an unmap that the count leaves out were not mapped. -/
def Counted (op : BindOp) (before : VmPt) : Prop :=
  op.flags &&& bindOpTypeMask = bindOpTypeUnmap → ∀ va, Meets op va →
    (∃ k < pageCount op.size, pageOf (pageVa op.va k) = pageOf va) ∨ translation before va = none

section Sizes

variable {d : Device}

def Short (d : Device) : Prop := ∀ bo ∈ d.bos, bo.size.toNat < 2 ^ 32

/-- An MDL says its size in 32 bits, and no BO is larger than its MDL. -/
theorem boCreate_short (S : Short d) (size : Word) (flags : BitVec 32) (vmId : ℕ)
    (owner : Option ℕ) (r : BoReply) : Short (boCreate d size flags vmId owner r).2.2 := by
  unfold boCreate
  split
  · exact S
  split
  · exact S
  dsimp only
  split
  · exact S
  split
  · exact S
  · rename_i pfns _ hfit
    intro bo hbo
    rcases List.mem_append.mp hbo with h | h
    · exact S bo h
    · obtain rfl := List.mem_singleton.mp h
      have hcount : mdlByteCount pfns < 2 ^ 32 := Nat.mod_lt _ (by omega)
      change ((size + 4095) &&& ~~~4095).toNat < 2 ^ 32
      omega

theorem boDestroy_short (S : Short d) (proc handle : ℕ) : Short (boDestroy d proc handle).2 := by
  unfold boDestroy boTakeByHandle
  cases boGet d handle with
  | none => exact S
  | some bo => exact fun b hb => S b (List.mem_of_mem_eraseP hb)

theorem boRundown_short (S : Short d) (proc : ℕ) (owner : Option ℕ) :
    Short (boRundownOwner d proc owner).2 := by
  unfold boRundownOwner
  split
  · exact S
  · intro bo hbo
    rw [(freeAll_tables proc _ _).2] at hbo
    exact S bo (List.mem_filter.mp hbo).1

theorem boMapCpu_short (S : Short d) (proc handle : ℕ) (reply : Option Word) :
    Short (boMapCpu d proc handle reply).2.2 := by
  unfold boMapCpu
  cases h : boGet d handle with
  | none => exact S
  | some bo =>
    dsimp only
    split
    · split <;> exact S
    split
    · exact S
    · intro b hb
      rcases List.mem_or_eq_of_mem_set hb with hb | rfl
      · exact S b hb
      · exact S bo (boGet_mem h)

theorem heapAlloc_short (S : Short d) (vm : Vm) (proc : ℕ) (owner : Option ℕ) (size : ℕ)
    (gpuVa : Word) (r : HeapReply) :
    Short (heapAllocMapped d vm proc owner size gpuVa r).2.2.1 := by
  unfold heapAllocMapped
  split
  · exact S
  have S₁ := boCreate_short S (BitVec.ofNat 64 size) 0 0 owner r.bo
  rcases hc : boCreate d (BitVec.ofNat 64 size) 0 0 owner r.bo with ⟨err, handle, d₁⟩
  rw [hc] at S₁
  dsimp only
  have S₂ := boDestroy_short S₁ proc handle
  split
  · exact S₁
  split
  · exact S₂
  split
  · exact S₂
  split
  · exact S₂
  · exact S₁

theorem chunks_short (S : Short d) (vm : Vm) (proc : ℕ) (owner : Option ℕ) (chunkSize : ℕ)
    (r : ℕ → HeapReply) (k left : ℕ) (first : Word) :
    Short (tilerChunks proc owner chunkSize r k left d vm first).2.2.1 := by
  induction left generalizing k d vm first with
  | zero => exact S
  | succ left ih =>
    have S₁ := heapAlloc_short S vm proc owner chunkSize vm.kmdVaNext (r k)
    simp only [tilerChunks]
    split
    · exact S₁
    · exact ih S₁ _ (k + 1) _

theorem tilerReal_short (S : Short d) (proc : ℕ) (owner : Option ℕ) (vmId chunkSize count : ℕ)
    (r : ℕ → HeapReply) :
    Short (tilerHeapCreateReal d proc owner vmId chunkSize count r).2.2.2 := by
  unfold tilerHeapCreateReal
  split
  · exact S
  split
  · exact S
  split
  · exact S
  · rename_i vm _
    have S₁ := heapAlloc_short S vm proc owner 4096 vm.kmdVaNext (r 0)
    dsimp only
    split
    · exact S₁
    · have S₂ := chunks_short S₁ { (heapAllocMapped d vm proc owner 4096 vm.kmdVaNext (r 0)).2.2.2
        with kmdVaNext := (heapAllocMapped d vm proc owner 4096 vm.kmdVaNext
          (r 0)).2.2.2.kmdVaNext + 4096 } proc owner chunkSize (fun k => r (k + 1)) 0
            (min count 16) 0
      split <;> exact S₂

theorem step_short (S : Short d) (op : Op) : Short (op.apply d) := by
  cases op with
  | boCreate size flags vmId owner r => exact boCreate_short S size flags vmId owner r
  | boMapCpu proc handle reply => exact boMapCpu_short S proc handle reply
  | boDestroy proc handle => exact boDestroy_short S proc handle
  | boRundownOwner proc owner => exact boRundown_short S proc owner
  | vmCreate r => exact S
  | vmBind vmId ops =>
    change Short (vmBind d vmId ops).2
    unfold vmBind
    split
    · exact S
    split <;> exact S
  | vmDestroy vmId => exact S
  | tilerHeapCreate proc owner vmId chunkSize count r =>
    by_cases h : vmId = 0 ∨ count = 0
    · change Short (tilerHeapCreate d proc owner vmId chunkSize count r).2
      rw [tilerHeapCreate, if_pos h]
      exact S
    · rw [not_or] at h
      have hreal := tilerHeapCreate_device d proc owner vmId chunkSize count r h.1 h.2
      change Short (tilerHeapCreate d proc owner vmId chunkSize count r).2
      rw [hreal]
      exact tilerReal_short S proc owner vmId chunkSize count r

theorem exec_built {a : Adapter} {calls : List Op} (hp : ∀ op ∈ calls, Promised op)
    (h : exec BoTable.step (started a) calls = some d) : WellBuilt d ∧ Short d := by
  have hstep : ∀ s op t, WellBuilt s ∧ Short s → Promised op ∧ True → BoTable.step s op = some t →
      WellBuilt t ∧ Short t := by
    rintro s op t ⟨W, S⟩ ⟨hop, -⟩ ht
    obtain rfl := Option.some.inj ht
    have W' : WellBuilt { s with freed := [] } := ⟨W.vms, W.bos⟩
    have S' : Short { s with freed := [] } := S
    exact ⟨step_built W' op hop, step_short S' op⟩
  refine exec_invariant hstep ⟨started_built a, ?_⟩ ((guarded_true _ _ calls).of_labels hp) h
  intro bo hbo
  cases hbo

end Sizes

section Counts

end Counts

section Bind

variable {d : Device} {supply : ℕ → PtReply} {before after : VmPt} {op : BindOp}

end Bind

open WinMali.ReservedWindows (csfVm onePage bare promised_calls)

def userDevice : Device := onePage.apply { csfVm.apply (started bare) with freed := [] }

def userVm : Vm := (vmGet userDevice.vmTable 1).get rfl

end WinMali.BindCoverage
