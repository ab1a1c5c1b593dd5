import WinMaliKmd.HeapBlocks
import WinMaliKmd.Runs

/-!
# Pages outlive the references to them

Over any run of the calls: frames go back to the memory manager unreferenced
exactly when every call meets what it owes the BO table.
-/

set_option autoImplicit false

namespace WinMali.PageLifetime
open WinMali.AsSlots WinMali.Lpae WinMali.VmPageTable WinMali.VmTable WinMali.VmLeafWrites
  WinMali.BoTable WinMali.PageBooks WinMali.PageBinding WinMali.HeapBlocks WinMali.Runs
open WinMali.VmPageTableMap (eightPages eightPages_honest)

def leafPages : List Event → List ℕ
  | [] => []
  | .leaf page _::rest => page::leafPages rest
  | .flush _::rest => leafPages rest

theorem lastLeaf_mem {es : List Event} {page : ℕ} {v : Word × Word}
    (h : lastLeaf es page = some v) : page ∈ leafPages es := by
  induction es with
  | nil => cases h
  | cons e es ih =>
    cases e with
    | flush slot => exact ih h
    | leaf p value =>
      simp only [lastLeaf] at h
      split at h
      · rename_i hp
        exact hp ▸ List.mem_cons_self ..
      · exact List.mem_cons_of_mem _ (ih h)

theorem pageOf_ofNat {page : ℕ} (h : page < 2 ^ 36) :
    pageOf (BitVec.ofNat 64 (page * 4096)) = page := by
  rw [pageOf, BitVec.toNat_ofNat]
  omega

/-- Only pages that were written matter. -/
theorem maps_iff (pt : VmPt) (f : Word) :
    (∃ page ∈ leafPages pt.trace, page < 2 ^ 36 ∧ ¬CsfPage page ∧
      (lastLeaf pt.trace page).map Prod.fst = some (f <<< 12)) ↔ Maps pt f := by
  constructor
  · rintro ⟨page, -, hlt, hpage, hlast⟩
    obtain ⟨⟨pa, attrs⟩, hl, rfl⟩ := Option.map_eq_some_iff.mp hlast
    refine ⟨BitVec.ofNat 64 (page * 4096), ?_, attrs, ?_⟩ <;> rw [pageOf_ofNat hlt]
    · exact hpage
    · exact hl
  · rintro ⟨va, hpage, attrs, hl⟩
    exact ⟨pageOf va, lastLeaf_mem hl, Nat.mod_lt _ (by omega), hpage, by rw [hl]; rfl⟩

instance (pt : VmPt) (f : Word) : Decidable (Maps pt f) := decidable_of_iff _ (maps_iff pt f)

instance (d : Device) (proc : ℕ) (bo : Bo) : Decidable (Released d proc bo) :=
  decidable_of_iff ((∀ m ∈ bo.mapping, m.process = proc) ∧
    ∀ vm ∈ d.vmTable.vms, ∀ f ∈ bo.pfns, ¬Maps vm.pt f) Iff.rfl

instance (a : Adapter) (vm : Vm) (gpuVa : Word) (bo : Bo) : Decidable (BreaksOff a vm gpuVa bo) :=
  inferInstanceAs (Decidable (_ ∧ _))

instance (d : Device) (vm : Vm) (ownerDevice : Option ℕ) (size : ℕ) (gpuVa : Word)
    (r : HeapReply) : Decidable (BlockWhole d vm ownerDevice size gpuVa r) :=
  inferInstanceAs (Decidable (_ → _))

instance decidableChunksWhole (proc : ℕ) (ownerDevice : Option ℕ) (chunkSize : ℕ)
    (r : ℕ → HeapReply) : (k left : ℕ) → (d : Device) → (vm : Vm) →
    Decidable (ChunksWhole proc ownerDevice chunkSize r k left d vm)
  | _, 0, _, _ => isTrue trivial
  | k, left + 1, d, vm =>
    have := decidableChunksWhole proc ownerDevice chunkSize r (k + 1) left
    inferInstanceAs (Decidable (BlockWhole d vm ownerDevice chunkSize vm.kmdVaNext (r k) ∧ (_ → _)))

instance (d : Device) (proc : ℕ) (ownerDevice : Option ℕ) (chunkSize count : ℕ)
    (r : ℕ → HeapReply) (vm : Vm) : Decidable (HeapWhole d proc ownerDevice chunkSize count r vm) :=
  inferInstanceAs (Decidable (BlockWhole d vm ownerDevice 4096 vm.kmdVaNext (r 0) ∧ (_ → _)))

instance (chunkSize : ℕ) : Decidable (ValidChunk chunkSize) := inferInstanceAs (Decidable (_ ∧ _))

instance (d : Device) : (op : Op) → Decidable (Duty d op)
  | .boDestroy .. => inferInstanceAs (Decidable (∀ _ ∈ _, _))
  | .boRundownOwner .. => inferInstanceAs (Decidable (_ → _))
  | .tilerHeapCreate .. => inferInstanceAs (Decidable (_ → _ → _ → ∀ _ ∈ _, _))
  | .boCreate .. | .boMapCpu .. | .vmCreate .. | .vmBind .. | .vmDestroy .. => isTrue trivial

instance (d : Device) : (op : Op) → Decidable (HandlesFresh d op)
  | .tilerHeapCreate .. => inferInstanceAs (Decidable (∀ _ ∈ _, _))
  | .boCreate .. | .boMapCpu .. | .boDestroy .. | .boRundownOwner .. | .vmCreate .. | .vmBind ..
  | .vmDestroy .. => isTrue trivial

/-- A call starts with nothing freed yet. -/
def entered (d : Device) : Device := { d with freed := [] }

theorem step_exact {d : Device} (S : Sound d) (op : Op) (hp : Promised op)
    (hh : HandlesFresh (entered d) op) : Exact (entered d) op := by
  have S' : Sound (entered d) := S.freeing []
  cases op with
  | boCreate size flags vmId owner r => exact boCreate_exact S' rfl size flags vmId owner r
  | boMapCpu proc handle reply =>
    exact .harmless trivial (boMapCpu_sound S' proc handle reply)
      (boMapCpu_freed _ proc handle reply)
  | boDestroy proc handle => exact boDestroy_exact S' rfl proc handle
  | boRundownOwner proc owner => exact boRundown_exact S' rfl proc owner
  | vmCreate r => exact vmCreate_exact S' rfl r hp
  | vmBind vmId ops => exact vmBind_exact S' rfl vmId ops
  | vmDestroy vmId => exact vmDestroy_exact S' rfl vmId
  | tilerHeapCreate proc owner vmId chunkSize count r =>
    exact tilerHeapCreate_exact S' rfl vmId chunkSize count r hh

theorem started_sound (a : Adapter) : Sound (started a) :=
  ⟨by simp [started], by simp [started], by simp [started], List.Pairwise.nil, by simp [started]⟩

/-- Over any run: no frame is freed under a leaf of a live VM or a live user mapping exactly
when BOs are released before they go and no heap block breaks off while it is mapped. -/
theorem freed_unreferenced_iff (a : Adapter) (ops : List Op) (hp : ∀ op ∈ ops, Promised op)
    (hh : Guarded step (fun d op => HandlesFresh (entered d) op) (started a) ops) :
    Guarded step (fun d op => Duty (entered d) op) (started a) ops ↔
      Always step Unreferenced (started a) ops := by
  refine allowed_guarded_iff_always ?_ ?_ (started_sound a) (hh.of_labels hp)
  · rintro d op t S ⟨hpr, hf⟩ hg ht
    obtain rfl := Option.some.inj ht
    exact (step_exact S op hpr hf).2 hg
  · rintro d op t S ⟨hpr, hf⟩ ht
    obtain rfl := Option.some.inj ht
    exact (step_exact S op hpr hf).1

def newVm : Op := .vmCreate ⟨0, 1, true, eightPages, fun _ _ => 0, .success, none⟩

def onePage : Op := .boCreate 4096 0 0 (some 1) ⟨true, some [0x80000]⟩

def mapped : Op := .vmBind 1 [⟨bindOpTypeMap, 1, 0, 0x10000000, 4096⟩]

def unmapped : Op := .vmBind 1 [⟨bindOpTypeUnmap, 0, 0, 0x10000000, 4096⟩]

def bare : Adapter := ⟨0xFF, true, 0, 0, fun _ => .zero, []⟩

theorem promised_calls : ∀ op ∈ [newVm, onePage, mapped, .boMapCpu 7 1 (some 0x7FFE0000), unmapped,
    .boDestroy 7 1], Promised op := by
  simp only [List.forall_mem_cons]
  exact ⟨⟨eightPages_honest, by rintro c ⟨⟩⟩, trivial, trivial, trivial, trivial, trivial, by simp⟩

theorem unmapped_first :
    Always step Unreferenced (started bare) [newVm, onePage, mapped,
      .boMapCpu 7 1 (some 0x7FFE0000), unmapped, .boDestroy 7 1] :=
  (freed_unreferenced_iff bare _ promised_calls (by decide +kernel)).mp (by decide +kernel)

theorem referenced_of_walk {d : Device} {f : Word} (va attrs : Word) (hpage : ¬CsfPage (pageOf va))
    (h : (d.vmTable.vms.any fun vm => vm.pt.rootVa.any fun root =>
      hwWalk vm.pt.mem root va == some (f <<< 12, attrs)) = true) : Referenced d f := by
  obtain ⟨vm, hvm, hroot⟩ := List.any_eq_true.mp h
  cases hr : vm.pt.rootVa with
  | none => simp [hr] at hroot
  | some root => exact .inl ⟨vm, hvm, root, va, attrs, hr, hpage, by simpa [hr] using hroot⟩

/-- `BoDestroy` of a BO that is still mapped in a VM. -/
theorem destroy_frees_mapped : ∃ t, exec step (started bare)
    [newVm, onePage, mapped, .boDestroy 7 1] = some t ∧ 0x80000 ∈ t.freed ∧
      Referenced t 0x80000 :=
  ⟨_, rfl, by decide +kernel,
    referenced_of_walk 0x10000000 pageAttrRwEx (by decide) (by decide +kernel)⟩

end WinMali.PageLifetime
