import WinMaliKmd.PageBooks

/-!
# Calls that only add references

`VmBind` maps frames of BOs that are in the table, and VMs come and go with their
leaves. None of these calls frees a frame, and none leads a leaf astray.
-/

set_option autoImplicit false

namespace WinMali.PageBinding
open WinMali.AsSlots WinMali.Lpae WinMali.VmPageTable WinMali.VmTable WinMali.VmLeafWrites
  WinMali.BlockCover WinMali.BoTable WinMali.PageBooks
open WinMali.VmPageTableMap (vmMap_good vmUnmap_good vmInit_good vmInit_trace)

section Bind

variable {supply : ℕ → PtReply} {pt : VmPt} {bos : List Bo} {a : Adapter}

theorem map_sound (V : PtSound supply pt) {pfns : List Word} {count : ℕ}
    (hp : ∀ k < count, (pfnAt pfns k).toNat < 2 ^ 36) {attrs : Word} (ha : ValidAttrs attrs)
    (a : Adapter) (gpuVa : Word) :
    PtSound supply (vmMap supply (some a) pt gpuVa (some (pfnAt pfns)) count attrs).2 := by
  obtain ⟨root, G⟩ := V.good
  refine ⟨V.honest, root, (vmMap_good V.honest G (some a) gpuVa _ count attrs ha ?_).1⟩
  rintro f ⟨⟩
  exact hp

theorem unmap_sound (V : PtSound supply pt) (a : Adapter) (gpuVa : Word) (count : ℕ) :
    PtSound supply (vmUnmap supply (some a) pt gpuVa count).2 := by
  obtain ⟨root, G⟩ := V.good
  exact ⟨V.honest, root, (vmUnmap_good V.honest G (some a) gpuVa count).1⟩

theorem map_covered (V : PtSound supply pt) (hc : Covered bos pt) {bo : Bo} (hbo : bo ∈ bos)
    (hb : BoSound bo) {count : ℕ} (hcount : count ≤ bo.pfns.length) {attrs : Word}
    (ha : ValidAttrs attrs) (gpuVa : Word) :
    PtSound supply (vmMap supply (some a) pt gpuVa (some (pfnAt bo.pfns)) count attrs).2 ∧
      Covered bos (vmMap supply (some a) pt gpuVa (some (pfnAt bo.pfns)) count attrs).2 := by
  have hmem : ∀ k, k < count → pfnAt bo.pfns k ∈ bo.pfns := by
    intro k hk
    have hlen : k < bo.pfns.length := by omega
    simp [pfnAt, hlen]
  have hp : ∀ k, k < count → (pfnAt bo.pfns k).toNat < 2 ^ 36 := fun k hk => hb.framed _ (hmem k hk)
  refine ⟨map_sound V hp ha a gpuVa, ?_⟩
  obtain ⟨root, G⟩ := V.good
  obtain ⟨n, hn, -, hw, -⟩ := vmMap_spec V.honest G a gpuVa _ count attrs ha hp
  intro va hpage pa attrs' hlast
  rcases hw.last hlast with ⟨k, hk, -, he⟩ | hold
  · exact ⟨_, ⟨bo, hbo, hmem k (by omega)⟩, he⟩
  · exact hc va hpage pa attrs' hold

theorem unmap_covered (V : PtSound supply pt) (hc : Covered bos pt) (gpuVa : Word) (count : ℕ) :
    PtSound supply (vmUnmap supply (some a) pt gpuVa count).2 ∧
      Covered bos (vmUnmap supply (some a) pt gpuVa count).2 := by
  refine ⟨unmap_sound V a gpuVa count, ?_⟩
  obtain ⟨root, G⟩ := V.good
  intro va hpage pa attrs hlast
  exact hc va hpage pa attrs
    (((vmUnmap_writes V.honest G a gpuVa count).last hlast).resolve_left id)

theorem bindAttrs_valid (flags : BitVec 32) : ValidAttrs (bindAttrs flags) := by
  apply page_attrs_valid
  unfold bindAttrs
  split <;> split <;> simp

theorem pageCount_le {size limit : Word} {len : ℕ} (hs : ¬size > limit)
    (hl : limit.toNat ≤ 4096 * len) : pageCount size ≤ len := by
  have hsize : size.toNat ≤ limit.toNat := by
    simpa [BitVec.lt_def] using hs
  have h : (4095 : Word).toNat = 4095 := by decide
  rw [pageCount, BitVec.toNat_ushiftRight, Nat.shiftRight_eq_div_pow, BitVec.toNat_add, h]
  have h1 : (size.toNat + 4095) % 2 ^ 64 ≤ size.toNat + 4095 := Nat.mod_le _ _
  have h2 : (size.toNat + 4095) % 2 ^ 64 / 2 ^ 12 % 2 ^ 32 ≤
      (size.toNat + 4095) % 2 ^ 64 / 2 ^ 12 :=
    Nat.mod_le _ _
  omega

variable {d : Device}

theorem vmBindOp_covered (S : Sound d) (V : PtSound supply pt) (hc : Covered d.bos pt)
    (op : BindOp) :
    PtSound supply (vmBindOp d supply op pt).2 ∧ Covered d.bos (vmBindOp d supply op pt).2 := by
  unfold vmBindOp
  dsimp only
  split
  · cases h : boGet d op.boHandle with
    | none => exact ⟨V, hc⟩
    | some bo =>
      have hbo : bo ∈ d.bos := List.mem_of_find?_eq_some h
      have hb := S.bos bo hbo
      dsimp only
      split
      · exact ⟨V, hc⟩
      · rename_i hsize
        exact map_covered V hc hbo hb (pageCount_le (fun h => hsize (.inr h)) hb.sized)
          (bindAttrs_valid op.flags) op.va
  split
  · exact unmap_covered V hc op.va (pageCount op.size)
  split <;> exact ⟨V, hc⟩

theorem vmBindOps_covered (S : Sound d) (V : PtSound supply pt) (hc : Covered d.bos pt)
    (ops : List BindOp) :
    PtSound supply (vmBindOps d supply ops pt).2 ∧ Covered d.bos (vmBindOps d supply ops pt).2 :=
  vmBindOps_induct (P := fun pt => PtSound supply pt ∧ Covered d.bos pt) ⟨V, hc⟩
    fun op _ _ h => vmBindOp_covered S h.1 h.2 op

theorem vmBind_exact (S : Sound d) (hf : d.freed = []) (vmId : ℕ) (ops : List BindOp) :
    Exact d (.vmBind vmId ops) := by
  have hS : Sound (vmBind d vmId ops).2 := by
    unfold vmBind
    split
    · exact S
    cases h : vmGet d.vmTable vmId with
    | none => exact S
    | some vm =>
      have hv := (vmGet_split h).1
      obtain ⟨V, hc⟩ := vmBindOps_covered S (S.vms vm hv) (S.covered vm hv) ops
      have hput : Sound (d.putVm vmId { vm with pt := (vmBindOps d vm.supply ops vm.pt).2 }) :=
        S.putVm h V hc
      exact hput
  have hfreed : (vmBind d vmId ops).2.freed = d.freed := by
    unfold vmBind
    split
    · rfl
    · split <;> rfl
  exact .harmless trivial hS (hfreed.trans hf)

end Bind

section VmLife

variable {d : Device}

theorem vmCreate_table (a : Adapter) (tab : Table) (r : VmRequest) :
    (vmCreate a tab r).2.2 = tab ∨ ∃ pt a' vm, vmInit r.supply a r.mem r.hw = (.success, pt, a') ∧
      vm.supply = r.supply ∧ vm.pt = (csfMapIntoVm r.supply a' r.csf pt).2 ∧
      (vmCreate a tab r).2.2.vms = tab.vms ++ [vm] := by
  unfold vmCreate
  cases r.pool with
  | false => exact .inl rfl
  | true =>
    simp only [Bool.not_true, Bool.false_eq_true, if_false]
    rcases h : vmInit r.supply a r.mem r.hw with ⟨st, pt, a'⟩
    by_cases hst : st = .success
    · subst hst
      exact .inr ⟨pt, a', _, rfl, rfl, rfl, rfl⟩
    · left
      simp [NtStatus.ok_eq_false hst]

theorem vmCreate_exact (S : Sound d) (hf : d.freed = []) (r : VmRequest)
    (hr : Promised (.vmCreate r)) : Exact d (.vmCreate r) := by
  refine .harmless trivial ?_ hf
  have hmem : ∀ vm ∈ (vmCreate d.adapter d.vmTable r).2.2.vms, vm ∈ d.vmTable.vms ∨
      PtSound vm.supply vm.pt ∧ Covered d.bos vm.pt := by
    intro vm hv
    rcases vmCreate_table d.adapter d.vmTable r with h | ⟨pt, a', new, hinit, hsup, hpt, h⟩
    · exact .inl (h ▸ hv)
    rw [h] at hv
    refine (List.mem_append.mp hv).imp id fun hnew => ?_
    obtain rfl := List.mem_singleton.mp hnew
    obtain ⟨root, G⟩ := vmInit_good hr.1 hinit
    obtain ⟨V, W⟩ := csfMapIntoVm_writes ⟨hr.1, root, G⟩ a' hr.2
    rw [hsup, hpt]
    refine ⟨V, ?_⟩
    intro va hpage pa attrs hlast
    rcases W.last hlast with ⟨c, -, hcsf, -⟩ | hold
    · exact absurd hcsf hpage
    · rw [vmInit_trace hinit] at hold
      cases hold
  refine ⟨?_, ?_, S.bos, S.apart, S.mappings⟩
  · intro vm hv
    exact (hmem vm hv).elim (S.vms vm) And.left
  · intro vm hv
    exact (hmem vm hv).elim (S.covered vm) And.right

theorem vmDestroy_exact (S : Sound d) (hf : d.freed = []) (vmId : ℕ) :
    Exact d (.vmDestroy vmId) := by
  refine .harmless trivial ?_ hf
  have hmem : ∀ vm ∈ (vmDestroy d.adapter d.vmTable vmId).2.vms, vm ∈ d.vmTable.vms := by
    intro vm hv
    unfold vmDestroy vmTakeById at hv
    cases h : d.vmTable.vms.find? fun vm => vm.id == vmId with
    | none =>
      rw [h] at hv
      exact hv
    | some v =>
      rw [h] at hv
      exact List.mem_of_mem_eraseP hv
  exact ⟨fun vm hv => S.vms vm (hmem vm hv), fun vm hv => S.covered vm (hmem vm hv), S.bos,
    S.apart, S.mappings⟩

end VmLife

end WinMali.PageBinding
