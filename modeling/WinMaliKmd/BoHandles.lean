import Mathlib.Data.List.Nodup
import WinMaliKmd.DeviceTables

/-!
# Handles of buffer objects

`WinMaliBo.c` gives out handles from a counter of 32 bits and promises that none is used
again. A run records which handles its calls returned and which of them were destroyed.
-/

set_option autoImplicit false

namespace WinMali.BoHandles
open WinMali.Lpae WinMali.AsSlots WinMali.VmTable WinMali.BoTable WinMali.PageBooks
open WinMali.VmPageTableMap (freshAdapter)
open WinMali.HeapBlocks (tilerHeapCreate_device)
open WinMali.DeviceTables (boGet_mem freeAll_tables)

inductive Op
  | table (op : BoTable.Op)
  | boCreateFromPfns (pfns : Option (List Word)) (flags : BitVec 32) (ownerDevice : Option ℕ)
    (r : ImportReply)

def Op.apply (d : Device) : Op → Device
  | .table op => op.apply d
  | .boCreateFromPfns pfns flags owner r => (BoTable.boCreateFromPfns d pfns flags owner r).2.2

def returned (r : Errno × ℕ × Device) : List ℕ := if r.1 = .ok then [r.2.1] else []

/-- The handle that `HeapAllocMapped` gets from `BoCreate`, whatever it does with it. -/
def heapReturned (d : Device) (ownerDevice : Option ℕ) (size : ℕ) (r : HeapReply) : List ℕ :=
  if size % 4096 ≠ 0 ∨ size = 0 then []
  else returned (boCreate d (BitVec.ofNat 64 size) 0 0 ownerDevice r.bo)

def chunksReturned (proc : ℕ) (ownerDevice : Option ℕ) (chunkSize : ℕ) (r : ℕ → HeapReply) :
    ℕ → ℕ → Device → Vm → List ℕ
  | _, 0, _, _ => []
  | k, left + 1, d, vm =>
    let (st, _, d', vm') := heapAllocMapped d vm proc ownerDevice chunkSize vm.kmdVaNext (r k)
    heapReturned d ownerDevice chunkSize (r k) ++
      if !st.ok then []
      else chunksReturned proc ownerDevice chunkSize r (k + 1) left d'
        { vm' with kmdVaNext := vm.kmdVaNext + BitVec.ofNat 64 chunkSize }

def tilerReturned (d : Device) (proc : ℕ) (ownerDevice : Option ℕ)
    (vmId chunkSize initialChunkCount : ℕ) (r : ℕ → HeapReply) : List ℕ :=
  if vmId = 0 ∨ initialChunkCount = 0 then []
  else if chunkSize % 4096 ≠ 0 ∨ chunkSize < 0x1000 ∨ chunkSize > 0x200000 then []
  else
    match vmGet d.vmTable vmId with
    | none => []
    | some vm =>
      let (st, _, d', vm') := heapAllocMapped d vm proc ownerDevice 4096 vm.kmdVaNext (r 0)
      heapReturned d ownerDevice 4096 (r 0) ++
        if !st.ok then []
        else chunksReturned proc ownerDevice chunkSize (fun k => r (k + 1)) 0
          (min initialChunkCount 16) d' { vm' with kmdVaNext := vm'.kmdVaNext + 4096 }

/-- The handles that a call returns, oldest first. -/
def issues (d : Device) : Op → List ℕ
  | .table (.boCreate size flags vmId owner r) => returned (boCreate d size flags vmId owner r)
  | .table (.tilerHeapCreate proc owner vmId chunkSize count r) =>
    tilerReturned d proc owner vmId chunkSize count r
  | .table _ => []
  | .boCreateFromPfns pfns flags owner r => returned (boCreateFromPfns d pfns flags owner r)

def handles (d : Device) : List ℕ := d.bos.map Bo.handle

/-- The handles whose BO a call destroys. A tiler heap that fails destroys the newest of its
own. -/
def destroys (d : Device) : Op → List ℕ
  | .table (.boDestroy _ handle) => if (boGet d handle).isSome then [handle] else []
  | .table (.boRundownOwner _ owner) =>
    if owner = none then [] else (d.bos.filter fun bo => bo.ownerDevice = owner).map Bo.handle
  | .table (.tilerHeapCreate proc owner vmId chunkSize count r) =>
    (tilerReturned d proc owner vmId chunkSize count r).filter
      (· ∉ handles (tilerHeapCreate d proc owner vmId chunkSize count r).2)
  | _ => []

structure State where
  device : Device
  issued : List ℕ
  destroyed : List ℕ

def step (s : State) (op : Op) : State :=
  let d := { s.device with freed := [] }
  ⟨op.apply d, s.issued ++ issues d op, s.destroyed ++ destroys d op⟩

def run (a : Adapter) (ops : List Op) : State := ops.foldl step ⟨BoTable.started a, [], []⟩

/-- No handle is returned twice, and one that was destroyed finds nothing. -/
structure NeverReused (s : State) : Prop where
  apart : s.issued.Nodup
  nonzero : 0 ∉ s.issued
  gone : ∀ h ∈ s.destroyed, boGet s.device h = none ∧
    ∀ proc, boDestroy s.device proc h = (.enoent, s.device)

/-- A call takes its handles from the counter and adds no others to the table. -/
structure Counts (d d' : Device) (given : List ℕ) : Prop where
  next : d'.nextHandle = d.nextHandle + given.length
  values : given = (List.range' d.nextHandle given.length).map (· % 2 ^ 32)
  table : (handles d').Sublist (handles d ++ given)

section Counting

variable {d d₁ d₂ : Device} {g₁ g₂ : List ℕ} {vm : Vm} {proc : ℕ} {owner : Option ℕ}

theorem boGet_handle {handle : ℕ} {bo : Bo} (h : boGet d handle = some bo) :
    bo.handle = handle := by
  have hfind : d.bos.find? (fun bo => bo.handle == handle) = some bo := h
  simpa using List.find?_some hfind

theorem Counts.none (hn : d₁.nextHandle = d.nextHandle) (ht : (handles d₁).Sublist (handles d)) :
    Counts d d₁ [] :=
  ⟨hn, rfl, by simpa using ht⟩

theorem Counts.trans (C₁ : Counts d d₁ g₁) (C₂ : Counts d₁ d₂ g₂) : Counts d d₂ (g₁ ++ g₂) where
  next := by rw [C₂.next, C₁.next, List.length_append, Nat.add_assoc]
  values := by
    rw [List.length_append, ← List.range'_append_1, List.map_append, ← C₁.values, ← C₁.next,
      ← C₂.values]
  table := by
    rw [← List.append_assoc]
    exact C₂.table.trans (C₁.table.append_right g₂)

theorem Counts.add {bo : Bo} (h : bo.handle = d.nextHandle % 2 ^ 32) :
    Counts d (addBo d bo) [bo.handle] where
  next := rfl
  values := by simp [h]
  table := by simp [handles, addBo]

theorem boCreate_counts (d : Device) (size : Word) (flags : BitVec 32) (vmId : ℕ)
    (owner : Option ℕ) (r : BoReply) : Counts d (boCreate d size flags vmId owner r).2.2
      (returned (boCreate d size flags vmId owner r)) := by
  rcases boCreate_cases d size flags vmId owner r with ⟨part, herr, hd, -⟩ | ⟨bo, hd, hn⟩
  · rw [returned, if_neg herr, hd]
    exact .none rfl (List.Sublist.refl _)
  · rw [hd]
    exact .add hn.handle

theorem boCreateFromPfns_counts (d : Device) (pfns : Option (List Word)) (flags : BitVec 32)
    (owner : Option ℕ) (r : ImportReply) : Counts d (boCreateFromPfns d pfns flags owner r).2.2
      (returned (boCreateFromPfns d pfns flags owner r)) := by
  have hsame : Counts d d [] := .none rfl (List.Sublist.refl _)
  unfold boCreateFromPfns
  cases pfns with
  | none => exact hsame
  | some pfns =>
    dsimp only
    split
    · exact hsame
    split
    · exact hsame
    split
    · exact hsame
    · exact .add rfl

theorem freeAll_next (proc : ℕ) (taken : List Bo) (d : Device) :
    (taken.foldl (boFree proc) d).nextHandle = d.nextHandle := by
  induction taken generalizing d with
  | nil => rfl
  | cons bo taken ih => exact ih (boFree proc d bo)

theorem boDestroy_counts (d : Device) (proc handle : ℕ) :
    Counts d (boDestroy d proc handle).2 [] := by
  unfold boDestroy boTakeByHandle
  cases boGet d handle with
  | none => exact .none rfl (List.Sublist.refl _)
  | some bo => exact .none rfl (List.eraseP_sublist.map _)

theorem boRundown_handles (d : Device) (proc : ℕ) {owner : Option ℕ} (h : owner ≠ none) :
    handles (boRundownOwner d proc owner).2 =
      (d.bos.filter fun bo => ¬bo.ownerDevice = owner).map Bo.handle := by
  unfold boRundownOwner
  rw [if_neg h]
  exact congrArg (List.map Bo.handle) (freeAll_tables proc _ _).2

theorem boRundown_counts (d : Device) (proc : ℕ) (owner : Option ℕ) :
    Counts d (boRundownOwner d proc owner).2 [] := by
  by_cases h : owner = none
  · rw [boRundownOwner, if_pos h]
    exact .none rfl (List.Sublist.refl _)
  · refine .none ?_ ?_
    · rw [boRundownOwner, if_neg h]
      exact freeAll_next proc _ _
    · rw [boRundown_handles d proc h]
      exact List.filter_sublist.map _

/-- Only the address of the mapping is new. -/
theorem boMapCpu_counts (d : Device) (proc handle : ℕ) (reply : Option Word) :
    Counts d (boMapCpu d proc handle reply).2.2 [] := by
  have hsame : Counts d d [] := .none rfl (List.Sublist.refl _)
  unfold boMapCpu
  cases h : boGet d handle with
  | none => exact hsame
  | some bo =>
    dsimp only
    cases bo.userVa with
    | some u =>
      dsimp only
      split <;> exact hsame
    | none =>
      cases reply with
      | none => exact hsame
      | some va =>
        have hkey : bo.handle = handle := boGet_handle h
        have hi : d.bos.findIdx (fun bo => bo.handle == handle) < d.bos.length :=
          List.findIdx_lt_length_of_exists ⟨bo, boGet_mem h, by simp [hkey]⟩
        have hat : (d.bos[d.bos.findIdx fun bo => bo.handle == handle]).handle = handle := by
          simpa using List.findIdx_getElem (w := hi)
        have hset : handles d = (handles d).set (d.bos.findIdx fun bo => bo.handle == handle)
            bo.handle := by
          have hi' : d.bos.findIdx (fun bo => bo.handle == handle) < (handles d).length := by
            simpa [handles] using hi
          rw [← List.set_getElem_self hi']
          simp [handles, hat, hkey]
        refine .none rfl ?_
        simp only [handles, List.map_set]
        exact hset ▸ List.Sublist.refl _

theorem vmBind_counts (d : Device) (vmId : ℕ) (ops : List BindOp) :
    Counts d (vmBind d vmId ops).2 [] := by
  have hsame : Counts d d [] := .none rfl (List.Sublist.refl _)
  unfold vmBind
  split
  · exact hsame
  · cases vmGet d.vmTable vmId with
    | none => exact hsame
    | some vm => exact .none rfl (List.Sublist.refl _)

theorem heapAlloc_counts (size : ℕ) (gpuVa : Word) (r : HeapReply) {st : NtStatus} {h : ℕ}
    {d' : Device} {vm' : Vm}
    (hrun : heapAllocMapped d vm proc owner size gpuVa r = (st, h, d', vm')) :
    Counts d d' (heapReturned d owner size r) := by
  unfold heapAllocMapped at hrun
  unfold heapReturned
  split at hrun
  · rename_i hbad
    obtain ⟨-, -, rfl, -⟩ := Prod.mk.injEq .. ▸ hrun
    rw [if_pos hbad]
    exact .none rfl (List.Sublist.refl _)
  rename_i hbad
  rw [if_neg hbad]
  have C := boCreate_counts d (BitVec.ofNat 64 size) 0 0 owner r.bo
  rcases hc : boCreate d (BitVec.ofNat 64 size) 0 0 owner r.bo with ⟨err, handle, d₁⟩
  rw [hc] at C
  have hgone := C.trans (boDestroy_counts d₁ proc handle)
  rw [List.append_nil] at hgone
  simp only [hc] at hrun
  split at hrun
  · obtain ⟨-, -, rfl, -⟩ := Prod.mk.injEq .. ▸ hrun
    exact C
  cases hg : boGet d₁ handle with
  | none =>
    simp only [hg] at hrun
    obtain ⟨-, -, rfl, -⟩ := Prod.mk.injEq .. ▸ hrun
    exact hgone
  | some bo =>
    simp only [hg] at hrun
    split at hrun
    · obtain ⟨-, -, rfl, -⟩ := Prod.mk.injEq .. ▸ hrun
      exact hgone
    split at hrun
    · obtain ⟨-, -, rfl, -⟩ := Prod.mk.injEq .. ▸ hrun
      exact hgone
    · obtain ⟨-, -, rfl, -⟩ := Prod.mk.injEq .. ▸ hrun
      exact C

theorem chunks_counts (chunkSize : ℕ) (r : ℕ → HeapReply) (k left : ℕ) (first : Word)
    {st : NtStatus} {va : Word} {d' : Device} {vm' : Vm}
    (hrun : tilerChunks proc owner chunkSize r k left d vm first = (st, va, d', vm')) :
    Counts d d' (chunksReturned proc owner chunkSize r k left d vm) := by
  induction left generalizing k d vm first with
  | zero =>
    obtain ⟨-, -, rfl, -⟩ := Prod.mk.injEq .. ▸ hrun
    exact .none rfl (List.Sublist.refl _)
  | succ left ih =>
    rcases hblock : heapAllocMapped d vm proc owner chunkSize vm.kmdVaNext (r k) with
      ⟨st₁, h₁, d₁, vm₁⟩
    have C := heapAlloc_counts chunkSize vm.kmdVaNext (r k) hblock
    simp only [tilerChunks, hblock] at hrun
    simp only [chunksReturned, hblock]
    split at hrun
    · rename_i hst
      obtain ⟨-, -, rfl, -⟩ := Prod.mk.injEq .. ▸ hrun
      rw [if_pos hst, List.append_nil]
      exact C
    · rename_i hst
      rw [if_neg hst]
      exact C.trans (ih (k + 1) _ hrun)

theorem Counts.put (C : Counts d d₁ g₁) (id : ℕ) (vm : Vm) : Counts d (d₁.putVm id vm) g₁ :=
  ⟨C.next, C.values, C.table⟩

theorem tilerHeapCreate_counts (d : Device) (proc : ℕ) (owner : Option ℕ)
    (vmId chunkSize count : ℕ) (r : ℕ → HeapReply) :
    Counts d (tilerHeapCreate d proc owner vmId chunkSize count r).2
      (tilerReturned d proc owner vmId chunkSize count r) := by
  have hsame : Counts d d [] := .none rfl (List.Sublist.refl _)
  by_cases h0 : vmId = 0 ∨ count = 0
  · rw [tilerHeapCreate, tilerReturned, if_pos h0, if_pos h0]
    exact hsame
  rw [tilerHeapCreate_device d proc owner vmId chunkSize count r (not_or.mp h0).1 (not_or.mp h0).2,
    tilerReturned, if_neg h0, tilerHeapCreateReal]
  split
  · exact hsame
  rw [if_neg (not_or.mp h0).2]
  cases hvm : vmGet d.vmTable vmId with
  | none => exact hsame
  | some vm =>
    rcases hctx : heapAllocMapped d vm proc owner 4096 vm.kmdVaNext (r 0) with ⟨st₁, h₁, d₁, vm₁⟩
    have C := heapAlloc_counts 4096 vm.kmdVaNext (r 0) hctx
    simp only [hctx]
    split
    · rw [List.append_nil]
      exact C.put vmId vm₁
    · rcases hrun : tilerChunks proc owner chunkSize (fun k => r (k + 1)) 0 (min count 16) d₁
        { vm₁ with kmdVaNext := vm₁.kmdVaNext + 4096 } 0 with ⟨st, va, d', vm'⟩
      have C' := C.trans (chunks_counts chunkSize _ 0 _ 0 hrun)
      simp only
      split <;> exact C'.put vmId vm'

theorem step_counts (d : Device) (op : Op) : Counts d (op.apply d) (issues d op) := by
  have hsame : Counts d d [] := .none rfl (List.Sublist.refl _)
  cases op with
  | boCreateFromPfns pfns flags owner r => exact boCreateFromPfns_counts d pfns flags owner r
  | table op =>
    cases op with
    | boCreate size flags vmId owner r => exact boCreate_counts d size flags vmId owner r
    | boMapCpu proc handle reply => exact boMapCpu_counts d proc handle reply
    | boDestroy proc handle => exact boDestroy_counts d proc handle
    | boRundownOwner proc owner => exact boRundown_counts d proc owner
    | vmCreate r => exact .none rfl (List.Sublist.refl _)
    | vmBind vmId ops => exact vmBind_counts d vmId ops
    | vmDestroy vmId => exact .none rfl (List.Sublist.refl _)
    | tilerHeapCreate proc owner vmId chunkSize count r =>
      exact tilerHeapCreate_counts d proc owner vmId chunkSize count r

end Counting

section Gone

variable {d : Device} {op : Op}

theorem handle_mem {handle : ℕ} (h : (boGet d handle).isSome = true) : handle ∈ handles d := by
  obtain ⟨bo, hbo⟩ := Option.isSome_iff_exists.mp h
  exact boGet_handle hbo ▸ List.mem_map_of_mem (boGet_mem hbo)

theorem boGet_eq_none {handle : ℕ} : boGet d handle = none ↔ handle ∉ handles d := by
  simp [boGet, handles]

theorem boDestroy_handles {proc handle : ℕ} {bo : Bo} (h : boGet d handle = some bo) :
    handles (boDestroy d proc handle).2 = (handles d).erase handle := by
  simp only [boDestroy, boTakeByHandle, h, Option.map_some]
  rw [List.erase_eq_eraseP', handles, handles, List.eraseP_map]
  rfl

theorem destroys_mem {h : ℕ} (hmem : h ∈ destroys d op) : h ∈ handles d ++ issues d op := by
  unfold destroys at hmem
  split at hmem
  · rename_i handle
    split at hmem
    · rename_i hsome
      obtain rfl := List.mem_singleton.mp hmem
      exact List.mem_append_left _ (handle_mem hsome)
    · cases hmem
  · split at hmem
    · cases hmem
    · exact List.mem_append_left _ ((List.filter_sublist.map _).subset hmem)
  · exact List.mem_append_right _ (List.mem_filter.mp hmem).1
  · cases hmem

/-- While all handles are different, a BO that is destroyed leaves none with its handle. -/
theorem destroys_gone (hn : (handles d).Nodup) {h : ℕ} (hmem : h ∈ destroys d op) :
    h ∉ handles (op.apply d) := by
  unfold destroys at hmem
  split at hmem
  · rename_i proc handle
    split at hmem
    · rename_i hsome
      obtain rfl := List.mem_singleton.mp hmem
      obtain ⟨bo, hbo⟩ := Option.isSome_iff_exists.mp hsome
      change h ∉ handles (boDestroy d proc h).2
      rw [boDestroy_handles hbo]
      exact hn.not_mem_erase
    · cases hmem
  · rename_i proc owner
    split at hmem
    · cases hmem
    · rename_i howner
      change h ∉ handles (boRundownOwner d proc owner).2
      rw [boRundown_handles d proc howner]
      intro hrest
      obtain ⟨bo, hbo, rfl⟩ := List.mem_map.mp hmem
      obtain ⟨bo', hbo', hsame⟩ := List.mem_map.mp hrest
      obtain ⟨hin, hown⟩ := List.mem_filter.mp hbo
      obtain ⟨hin', hown'⟩ := List.mem_filter.mp hbo'
      obtain rfl := List.inj_on_of_nodup_map hn hin' hin hsame
      simp_all
  · exact of_decide_eq_true (List.mem_filter.mp hmem).2
  · cases hmem

end Gone

/-- What a run leaves: the handles are the first values of the counter, and the table holds
some of them. -/
structure Counted (s : State) : Prop where
  next : s.device.nextHandle = 1 + s.issued.length
  values : s.issued = (List.range' 1 s.issued.length).map (· % 2 ^ 32)
  table : (handles s.device).Sublist s.issued
  destroyed : ∀ h ∈ s.destroyed, h ∈ s.issued
  gone : s.issued.Nodup → ∀ h ∈ s.destroyed, h ∉ handles s.device

section Runs

variable {s : State} {a : Adapter} {n : ℕ}

theorem Counted.step (C : Counted s) (op : Op) : Counted (step s op) := by
  obtain ⟨d, hd, hnext, hhandles⟩ : ∃ d, d = { s.device with freed := [] } ∧
      d.nextHandle = s.device.nextHandle ∧ handles d = handles s.device :=
    ⟨{ s.device with freed := [] }, rfl, rfl, rfl⟩
  have G := step_counts d op
  have hstep : BoHandles.step s op =
      ⟨op.apply d, s.issued ++ issues d op, s.destroyed ++ destroys d op⟩ := by rw [hd]; rfl
  have hold : (handles d).Sublist s.issued := hhandles ▸ C.table
  rw [hstep]
  refine ⟨?_, ?_, G.table.trans (hold.append_right _), ?_, ?_⟩
  · rw [G.next, hnext, C.next, List.length_append, Nat.add_assoc]
  · rw [List.length_append, ← List.range'_append_1, List.map_append, ← C.values, ← C.next, ← hnext,
      ← G.values]
  · intro h hd
    rcases List.mem_append.mp hd with hd | hd
    · exact List.mem_append_left _ (C.destroyed h hd)
    · exact (hold.append_right _).subset (destroys_mem hd)
  · intro hn h hd
    rcases List.mem_append.mp hd with hd | hd
    · -- an old handle that is not in the table is not among the new ones either
      intro hin
      rcases List.mem_append.mp (G.table.subset hin) with htable | hnew
      · exact C.gone (List.nodup_append.mp hn).1 h hd (hhandles ▸ htable)
      · exact (List.nodup_append.mp hn).2.2 h (C.destroyed h hd) h hnew rfl
    · exact destroys_gone (hold.nodup (List.nodup_append.mp hn).1) hd

theorem run_counted (a : Adapter) (ops : List Op) : Counted (run a ops) := by
  have hstart : Counted ⟨BoTable.started a, [], []⟩ :=
    ⟨rfl, rfl, List.Sublist.refl _, by simp, by simp⟩
  unfold run
  generalize (⟨BoTable.started a, [], []⟩ : State) = s at hstart
  induction ops generalizing s with
  | nil => exact hstart
  | cons op ops ih => exact ih _ (hstart.step op)

theorem values_nodup (h : n < 2 ^ 32) : ((List.range' 1 n).map (· % 2 ^ 32)).Nodup := by
  refine List.Nodup.map_on ?_ List.nodup_range'
  intro i hi j hj hij
  have hi' := List.mem_range'_1.mp hi
  have hj' := List.mem_range'_1.mp hj
  rwa [Nat.mod_eq_of_lt (by omega), Nat.mod_eq_of_lt (by omega)] at hij

theorem zero_mem_values : 0 ∈ (List.range' 1 n).map (· % 2 ^ 32) ↔ 2 ^ 32 ≤ n := by
  rw [List.mem_map]
  constructor
  · rintro ⟨i, hi, hzero⟩
    have hi' := List.mem_range'_1.mp hi
    omega
  · exact fun h => ⟨2 ^ 32, List.mem_range'_1.mpr ⟨by omega, by omega⟩, Nat.mod_self _⟩

theorem Counted.neverReused (C : Counted s) (h : s.issued.length < 2 ^ 32) : NeverReused s := by
  have hn : s.issued.Nodup := by
    rw [C.values]
    exact values_nodup h
  refine ⟨hn, ?_, ?_⟩
  · rw [C.values, zero_mem_values]
    omega
  · intro handle hd
    have hnone := boGet_eq_none.mpr (C.gone hn handle hd)
    exact ⟨hnone, fun proc => by rw [boDestroy, boTakeByHandle, hnone, Option.map_none]⟩

theorem neverReused_iff (a : Adapter) (ops : List Op) :
    NeverReused (run a ops) ↔ (run a ops).issued.length < 2 ^ 32 := by
  have C := run_counted a ops
  refine ⟨fun N => ?_, C.neverReused⟩
  by_contra h
  apply N.nonzero
  rw [C.values, zero_mem_values]
  omega

end Runs

section Wrap

def create (frame : Word) : Op := .table (.boCreate 4096 0 0 none ⟨true, some [frame]⟩)

/-- `n` BOs, each destroyed before the next is made. -/
def cycles : ℕ → List Op
  | 0 => []
  | n + 1 => cycles n ++ [create 1, .table (.boDestroy 0 (n + 1))]

/-- After `n` of them two that stay. -/
def wrapping (n : ℕ) : List Op := cycles n ++ [create 1, create 2]

variable {s : State} {a : Adapter} {n : ℕ}

/-- The BO of one page that `create` makes. -/
def pageBo (d : Device) (frame : Word) : Bo :=
  ⟨d.nextHandle % 2 ^ 32, 4096, 0, 0, [frame], false, none, none⟩

theorem boCreate_page {d : Device} {frame : Word} (hf : frame.toNat < 2 ^ 36)
    (hb : ∀ bo ∈ d.bos, frame ∉ bo.pfns) : Fresh d [frame] ∧
      boCreate d 4096 0 0 none ⟨true, some [frame]⟩ =
        (.ok, d.nextHandle % 2 ^ 32, addBo d (pageBo d frame)) := by
  have hfresh : Fresh d [frame] := by
    refine ⟨List.cons_ne_nil _ _, by simpa using hf, fun bo hbo f hfb hmem => ?_⟩
    obtain rfl := List.mem_singleton.mp hmem
    exact hb bo hbo hfb
  have hmm : mmAllocatePages d (some [frame]) = some [frame] := by
    simp [mmAllocatePages, hfresh]
  have hsize : (4096 : Word) ≠ 0 := by decide
  have hround : ((4096 : Word) + 4095) &&& ~~~4095 = 4096 := by decide
  have hlen : ¬mdlByteCount [frame] < (4096 : Word).toNat := by simp [mdlByteCount]
  refine ⟨hfresh, ?_⟩
  simp only [boCreate, if_neg hsize, hmm, hround, if_neg hlen, Bool.not_true, Bool.false_eq_true,
    if_false]
  rfl

theorem create_step (frame : Word) (hf : frame.toNat < 2 ^ 36)
    (hb : ∀ bo ∈ s.device.bos, frame ∉ bo.pfns) :
    ∃ issued, step s (create frame) =
      ⟨addBo { s.device with freed := [] } (pageBo s.device frame), issued, s.destroyed⟩ := by
  obtain ⟨-, hcreate⟩ := boCreate_page (d := { s.device with freed := [] }) hf hb
  exact ⟨s.issued ++ issues { s.device with freed := [] } (create frame), by
    simp only [step, create, Op.apply, BoTable.Op.apply, hcreate, destroys, List.append_nil]
    rfl⟩

/-- The handle finds the BO, and destroying it empties the table. -/
theorem destroy_step (bo : Bo) {handle : ℕ} (hbos : s.device.bos = [bo])
    (hh : bo.handle = handle) :
    (step s (.table (.boDestroy 0 handle))).device.bos = [] ∧
      (step s (.table (.boDestroy 0 handle))).device.nextHandle = s.device.nextHandle ∧
      (step s (.table (.boDestroy 0 handle))).destroyed = s.destroyed ++ [handle] := by
  have hget : boGet { s.device with freed := [] } handle = some bo := by simp [boGet, hbos, hh]
  simp only [step, Op.apply, BoTable.Op.apply, boDestroy, boTakeByHandle, destroys, hget]
  simp [boFree, hbos, hh]

theorem cycles_run (a : Adapter) (hn : n < 2 ^ 32) : (run a (cycles n)).device.bos = [] ∧
    (run a (cycles n)).device.nextHandle = n + 1 ∧
    ∀ k < n, k + 1 ∈ (run a (cycles n)).destroyed := by
  induction n with
  | zero => exact ⟨rfl, rfl, by simp⟩
  | succ n ih =>
    obtain ⟨hbos, hnext, hgone⟩ := ih (by omega)
    obtain ⟨issued, hcreate⟩ := create_step (s := run a (cycles n)) 1 (by decide)
      (by simp [hbos])
    have hhandle : (pageBo (run a (cycles n)).device 1).handle = n + 1 := by
      simp only [pageBo, hnext]
      omega
    obtain ⟨hbos', hnext', hgone'⟩ := destroy_step (s := step (run a (cycles n)) (create 1))
      (pageBo (run a (cycles n)).device 1)
      (by rw [hcreate]; simp only [addBo, hbos, List.nil_append]) hhandle
    have hrun : run a (cycles (n + 1)) =
        step (step (run a (cycles n)) (create 1)) (.table (.boDestroy 0 (n + 1))) := by
      simp only [run, cycles, List.foldl_append, List.foldl_cons, List.foldl_nil]
    rw [hrun]
    refine ⟨hbos', by rw [hnext', hcreate, addBo, hnext], fun k hk => ?_⟩
    rw [hgone', hcreate]
    obtain hlt | rfl := Nat.lt_succ_iff_lt_or_eq.mp hk
    · exact List.mem_append_left _ (hgone k hlt)
    · exact List.mem_append_right _ (List.mem_singleton.mpr rfl)

theorem wrapping_run (a : Adapter) (hn : n + 1 = 2 ^ 32) :
    ¬NeverReused (run a (wrapping n)) ∧ 0 ∈ (run a (wrapping n)).issued ∧
      1 ∈ (run a (wrapping n)).destroyed ∧ (boGet (run a (wrapping n)).device 1).isSome = true := by
  obtain ⟨hbos, hnext, hgone⟩ := cycles_run a (n := n) (by omega)
  obtain ⟨i₁, h₁⟩ := create_step (s := run a (cycles n)) 1 (by decide) (by simp [hbos])
  obtain ⟨i₂, h₂⟩ := create_step (s := step (run a (cycles n)) (create 1)) 2 (by decide)
    (by rw [h₁]; simp [addBo, hbos, pageBo])
  have hrun : run a (wrapping n) = step (step (run a (cycles n)) (create 1)) (create 2) := by
    simp only [run, wrapping, List.foldl_append, List.foldl_cons, List.foldl_nil]
  have C := run_counted a (wrapping n)
  have hlen : (run a (wrapping n)).issued.length = 2 ^ 32 + 1 := by
    have hcount : (run a (wrapping n)).device.nextHandle = n + 1 + 1 + 1 := by
      rw [hrun, h₂, addBo, h₁, addBo, hnext]
    have hnext' := C.next
    omega
  have hzero : 0 ∈ (run a (wrapping n)).issued := by
    rw [C.values, zero_mem_values]
    omega
  refine ⟨fun N => N.nonzero hzero, hzero, ?_, ?_⟩
  · rw [hrun, h₂, h₁]
    exact hgone 0 (by omega)
  · rw [hrun, h₂, h₁]
    simp [boGet, addBo, pageBo, hbos, hnext, hn]

/-- The handle after 2^32 - 1 is 0, and then the one of a BO that is gone leads to a new one. -/
theorem handle_one_again : ¬NeverReused (run freshAdapter (wrapping (2 ^ 32 - 1))) ∧
    0 ∈ (run freshAdapter (wrapping (2 ^ 32 - 1))).issued ∧
    1 ∈ (run freshAdapter (wrapping (2 ^ 32 - 1))).destroyed ∧
    (boGet (run freshAdapter (wrapping (2 ^ 32 - 1))).device 1).isSome = true :=
  wrapping_run freshAdapter (by norm_num)

end Wrap

end WinMali.BoHandles
