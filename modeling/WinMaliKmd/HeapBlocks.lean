import WinMaliKmd.PageBinding

/-!
# Blocks of the tiler heap

`HeapAllocMapped` creates a BO and maps it in one call, so it is the one place
where the driver itself has to undo a mapping. One of its two failure paths does.
-/

set_option autoImplicit false

namespace WinMali.HeapBlocks
open WinMali.AsSlots WinMali.Lpae WinMali.VmPageTable WinMali.VmTable WinMali.VmLeafWrites
  WinMali.BlockCover WinMali.BoTable WinMali.PageBooks WinMali.PageBinding
open WinMali.VmPageTableMap (vmMap_good)

section Heap

variable {d : Device} {vm : Vm} {bo : Bo} {proc : ℕ} {owner : Option ℕ} {gpuVa : Word}

theorem boGet_new (hn : NewBo d bo) (hh : ∀ b ∈ d.bos, b.handle ≠ d.nextHandle % 2 ^ 32) :
    boGet (addBo d bo) bo.handle = some bo := by
  have hnone : d.bos.find? (fun b => b.handle == bo.handle) = none := by
    refine List.find?_eq_none.mpr fun b hb => ?_
    simpa [hn.handle] using hh b hb
  unfold boGet addBo
  rw [List.find?_append, hnone]
  simp

/-- Destroying the BO just made undoes its creation, but for the counter. -/
theorem boDestroy_new (hn : NewBo d bo) (hh : ∀ b ∈ d.bos, b.handle ≠ d.nextHandle % 2 ^ 32) :
    (boDestroy (addBo d bo) proc bo.handle).2 =
      { d with nextHandle := d.nextHandle + 1, freed := d.freed ++ bo.pfns } := by
  have herase : (d.bos ++ [bo]).eraseP (fun b => b.handle == bo.handle) = d.bos := by
    rw [List.eraseP_append_right _ (fun b hb => by simpa [hn.handle] using hh b hb)]
    simp
  have hnone : bo.mapping = none := by simp [Bo.mapping, hn.unmapped]
  simp only [boDestroy, boTakeByHandle, boGet_new hn hh, Option.map_some]
  simp [boFree, addBo, herase, hnone, hn.sound.native]

/-- What an allocation leaves, with the VM still in the caller's hands. -/
structure Outcome (whole : Prop) (d d' : Device) (vm' : Vm) : Prop where
  table : d'.vmTable = d.vmTable
  sound : Sound d'
  pt : PtSound vm'.supply vm'.pt
  fresh : ∀ f ∈ d'.freed, f.toNat < 2 ^ 36 ∧ ¬Held Bo.pfns d'.bos f
  exact : whole ↔ ∀ f ∈ d'.freed, ¬Maps vm'.pt f
  covered : whole → Covered d'.bos vm'.pt

/-- Nothing that was just freed was ever mapped, and nothing else changed in the VM. -/
theorem Outcome.untouched {whole : Prop} {d' : Device} (hw : whole) (ht : d'.vmTable = d.vmTable)
    (S : Sound d') (V : PtSound vm.supply vm.pt) (hc : Covered d'.bos vm.pt)
    (hfr : ∀ f ∈ d'.freed, f.toNat < 2 ^ 36 ∧ ¬Held Bo.pfns d'.bos f) : Outcome whole d d' vm :=
  ⟨ht, S, V, hfr, ⟨fun _ f hf hm => (hfr f hf).2 (hc.held S.bos (hfr f hf).1 hm), fun _ => hw⟩,
    fun _ => hc⟩

theorem heapPages_le (h : bo.size.toNat ≤ 4096 * bo.pfns.length) :
    heapPages bo ≤ bo.pfns.length := by
  have h2 : heapPages bo ≤ bo.size.toNat / 4096 := Nat.mod_le _ _
  omega

/-- A map that breaks off leaves frames of the block behind exactly when it reached a page
outside the driver's own. -/
theorem breaksOff_iff (V : PtSound vm.supply vm.pt) (hc : Covered d.bos vm.pt) (S : Sound d)
    (hn : NewBo d bo)
    (hst : (vmMap vm.supply (some d.adapter) vm.pt gpuVa (some (pfnAt bo.pfns)) (heapPages bo)
      pageAttrRwNx).1 ≠ .success) :
    (¬BreaksOff d.adapter vm gpuVa bo ↔ ∀ f ∈ bo.pfns, ¬Maps (vmMap vm.supply (some d.adapter)
      vm.pt gpuVa (some (pfnAt bo.pfns)) (heapPages bo) pageAttrRwNx).2 f) ∧
    (¬BreaksOff d.adapter vm gpuVa bo → Covered d.bos (vmMap vm.supply (some d.adapter) vm.pt gpuVa
      (some (pfnAt bo.pfns)) (heapPages bo) pageAttrRwNx).2) := by
  have hlen := heapPages_le hn.sound.sized
  have hlt : heapPages bo < 2 ^ 32 := Nat.mod_lt _ (by omega)
  have hmem : ∀ k, k < heapPages bo → pfnAt bo.pfns k ∈ bo.pfns := by
    intro k hk
    have hk' : k < bo.pfns.length := by omega
    simp [pfnAt, hk']
  obtain ⟨root, G⟩ := V.good
  obtain ⟨n, hle, hlast, hw, -, hpre⟩ := vmMap_spec V.honest G d.adapter gpuVa (pfnAt bo.pfns)
    (heapPages bo) pageAttrRwNx (by decide) (fun k hk => hn.sound.framed _ (hmem k hk))
  have hbreak : ¬BreaksOff d.adapter vm gpuVa bo ↔
      ∀ k < n, CsfPage (pageOf (pageVa gpuVa k)) := by
    constructor
    · intro h k hk
      by_contra hpage
      exact h ⟨hst, k, by omega, (hpre k (by omega)).mpr hk, hpage⟩
    · rintro h ⟨-, k, hk, hok, hpage⟩
      exact hpage (h k ((hpre k hk).mp hok))
  -- a leaf outside the driver's range is an old one when the prefix stays inside it
  have hold : (∀ k < n, CsfPage (pageOf (pageVa gpuVa k))) → ∀ va, ¬CsfPage (pageOf va) →
      ∀ pa attrs, lastLeaf (vmMap vm.supply (some d.adapter) vm.pt gpuVa (some (pfnAt bo.pfns))
        (heapPages bo) pageAttrRwNx).2.trace (pageOf va) = some (pa, attrs) →
      lastLeaf vm.pt.trace (pageOf va) = some (pa, attrs) := by
    intro h va hpage pa attrs hl
    refine (hw.last hl).resolve_left ?_
    rintro ⟨k, hk, he, -⟩
    exact hpage (he ▸ h k hk)
  rw [hbreak]
  refine ⟨⟨?_, ?_⟩, ?_⟩
  · rintro h f hf ⟨va, hpage, attrs, hl⟩
    have hfresh := fresh_unheld hn.fresh hf
    exact hfresh.2 (hc.held S.bos hfresh.1 ⟨va, hpage, attrs, hold h va hpage _ attrs hl⟩)
  · intro h k hk
    by_contra hpage
    refine h (pfnAt bo.pfns k) (hmem k (by omega)) ⟨pageVa gpuVa k, hpage, pageAttrRwNx, ?_⟩
    rw [hlast]
    exact lastLeaf_mapEvents vm.pt.trace (by omega) hk
  · intro h va hpage pa attrs hl
    exact hc va hpage pa attrs (hold h va hpage pa attrs hl)

/-- Taking the whole block out of the page table again leaves no trace of it. -/
theorem unmapped_covered (V : PtSound vm.supply vm.pt) (hc : Covered d.bos vm.pt)
    (hn : NewBo d bo)
    (hst : (vmMap vm.supply (some d.adapter) vm.pt gpuVa (some (pfnAt bo.pfns)) (heapPages bo)
      pageAttrRwNx).1 = .success) :
    Covered d.bos (vmUnmap vm.supply (some d.adapter) (vmMap vm.supply (some d.adapter) vm.pt gpuVa
      (some (pfnAt bo.pfns)) (heapPages bo) pageAttrRwNx).2 gpuVa (heapPages bo)).2 := by
  have hlen := heapPages_le hn.sound.sized
  have hlt : heapPages bo < 2 ^ 32 := Nat.mod_lt _ (by omega)
  have hp : ∀ k, k < heapPages bo → (pfnAt bo.pfns k).toNat < 2 ^ 36 := by
    intro k hk
    have hk' : k < bo.pfns.length := by omega
    exact hn.sound.framed _ (by simp [pfnAt, hk'])
  obtain ⟨root, G⟩ := V.good
  obtain ⟨n, hle, hlast, hw, hok, -⟩ := vmMap_spec V.honest G d.adapter gpuVa (pfnAt bo.pfns)
    (heapPages bo) pageAttrRwNx (by decide) hp
  obtain rfl := hok.mp hst
  have G' := (vmMap_good V.honest G (some d.adapter) gpuVa (some (pfnAt bo.pfns)) (heapPages bo)
    pageAttrRwNx (by decide) (by rintro f ⟨⟩; exact hp)).1
  intro va hpage pa attrs hl
  have hafter :=
    ((vmUnmap_writes V.honest G' d.adapter gpuVa (heapPages bo)).last hl).resolve_left id
  rcases hw.last hafter with ⟨k, hk, he, -⟩ | hold
  · have hal := vmMap_aligned G (by omega) hst
    rw [he, vmUnmap_clears V.honest G' d.adapter hal hk] at hl
    cases hl
  · exact hc va hpage pa attrs hold

/-- One block: it fails with frames still mapped exactly when its map broke off. -/
theorem heapAlloc_spec (S : Sound d) (hf : d.freed = []) (V : PtSound vm.supply vm.pt)
    (hc : Covered d.bos vm.pt) (hh : ∀ b ∈ d.bos, b.handle ≠ d.nextHandle % 2 ^ 32) {size : ℕ}
    (hsize : size % 4096 = 0 ∧ size ≠ 0) (r : HeapReply) {st : NtStatus} {h : ℕ} {d' : Device}
    {vm' : Vm} (hrun : heapAllocMapped d vm proc owner size gpuVa r = (st, h, d', vm')) :
    Outcome (BlockWhole d vm owner size gpuVa r) d d' vm' ∧
      (st = .success → BlockWhole d vm owner size gpuVa r ∧ d'.freed = [] ∧
        ∃ bo, NewBo d bo ∧ d' = addBo d bo) := by
  have hbad : ¬(size % 4096 ≠ 0 ∨ size = 0) := by omega
  simp only [heapAllocMapped, if_neg hbad] at hrun
  rcases boCreate_cases d (BitVec.ofNat 64 size) 0 0 owner r.bo with
    ⟨part, herr, hd, hpart⟩ | ⟨bo, hcreate, hn⟩
  · simp only [hd, hf, List.nil_append, ne_eq, herr, not_false_eq_true, if_true] at hrun
    obtain ⟨rfl, -, rfl, rfl⟩ := Prod.mk.injEq .. ▸ hrun
    refine ⟨.untouched (fun hok => absurd hok herr) rfl (S.freeing part) V hc ?_, by simp⟩
    intro f hfp
    rcases hpart with rfl | hfresh
    · cases hfp
    · exact fresh_unheld hfresh hfp
  have hwhole : BlockWhole d vm owner size gpuVa r ↔ ¬BreaksOff d.adapter vm gpuVa bo := by
    unfold BlockWhole
    simp only [hcreate, boGet_new hn hh, Option.mem_def, Option.some.injEq, forall_const,
      forall_eq']
  have hgone : ∀ f ∈ bo.pfns, f.toNat < 2 ^ 36 ∧ ¬Held Bo.pfns d.bos f :=
    fun f hfb => fresh_unheld hn.fresh hfb
  simp only [hcreate, ne_eq, not_true_eq_false, if_false, boGet_new hn hh,
    boDestroy_new hn hh, hf, List.nil_append] at hrun
  have hbo : bo ∈ d.bos ++ [bo] := by simp
  have hattrs : ValidAttrs pageAttrRwNx := by decide
  have M := map_covered V (hc.append [bo]) hbo hn.sound (heapPages_le hn.sound.sized) hattrs gpuVa
    (a := d.adapter)
  by_cases hst : (vmMap vm.supply (some d.adapter) vm.pt gpuVa (some (pfnAt bo.pfns))
      (heapPages bo) pageAttrRwNx).1 = .success
  · have hw : BlockWhole d vm owner size gpuVa r := hwhole.mpr fun hb => hb.1 hst
    cases hkva : r.kva with
    | false =>
      simp only [addBo, hst, hkva, NtStatus.ok_success, Bool.not_true, Bool.not_false,
        Bool.false_eq_true, if_false, if_true] at hrun
      obtain ⟨rfl, -, rfl, rfl⟩ := Prod.mk.injEq .. ▸ hrun
      refine ⟨.untouched hw rfl ?_ ?_ (unmapped_covered (d := d) V hc hn hst) hgone, by simp⟩
      · exact ⟨S.vms, S.covered, S.bos, S.apart, S.mappings⟩
      · exact (unmap_covered M.1 M.2 gpuVa (heapPages bo)).1
    | true =>
      simp only [addBo, hst, hkva, NtStatus.ok_success, Bool.not_true,
        Bool.false_eq_true, if_false] at hrun
      obtain ⟨rfl, -, rfl, rfl⟩ := Prod.mk.injEq .. ▸ hrun
      refine ⟨.untouched hw rfl (S.add hn) M.1 M.2 ?_, fun _ => ⟨hw, hf, bo, hn, rfl⟩⟩
      intro f hfr
      rw [hf] at hfr
      cases hfr
  · simp only [addBo, NtStatus.ok_eq_false hst, Bool.not_false, if_true] at hrun
    obtain ⟨rfl, -, rfl, rfl⟩ := Prod.mk.injEq .. ▸ hrun
    have B := breaksOff_iff V hc S hn hst
    refine ⟨⟨rfl, ⟨S.vms, S.covered, S.bos, S.apart, S.mappings⟩, M.1, hgone, hwhole.trans B.1,
      fun hw => B.2 (hwhole.mp hw)⟩, fun h => absurd h hst⟩

theorem Outcome.imp {whole whole' : Prop} {d₁ d' : Device} {vm' : Vm} (O : Outcome whole d₁ d' vm')
    (ht : d₁.vmTable = d.vmTable) (hw : whole' ↔ whole) : Outcome whole' d d' vm' :=
  ⟨O.table.trans ht, O.sound, O.pt, O.fresh, hw.trans O.exact, fun h => O.covered (hw.mp h)⟩

theorem Outcome.advance {whole : Prop} {d' : Device} {vm' : Vm} (O : Outcome whole d d' vm')
    (va : Word) : Outcome whole d d' { vm' with kmdVaNext := va } :=
  ⟨O.table, O.sound, O.pt, O.fresh, O.exact, O.covered⟩

/-- Handles that later blocks will get stay clear of the one that was made. -/
theorem handles_add (hn : NewBo d bo) {left : ℕ} (hleft : left < 2 ^ 32)
    (hh : ∀ b ∈ d.bos, ∀ k < left + 1, b.handle ≠ (d.nextHandle + k) % 2 ^ 32) :
    ∀ b ∈ (addBo d bo).bos, ∀ k < left,
      b.handle ≠ ((addBo d bo).nextHandle + k) % 2 ^ 32 := by
  intro b hb k hk
  change b.handle ≠ (d.nextHandle + 1 + k) % 2 ^ 32
  rcases List.mem_append.mp hb with h | h
  · have hne := hh b h (k + 1) (by omega)
    rwa [show d.nextHandle + 1 + k = d.nextHandle + (k + 1) by omega]
  · obtain rfl := List.mem_singleton.mp h
    rw [hn.handle]
    omega

theorem chunks_spec {chunkSize : ℕ} (hsize : chunkSize % 4096 = 0 ∧ chunkSize ≠ 0)
    (r : ℕ → HeapReply) (k left : ℕ) (hleft : left < 2 ^ 32) (first : Word) (S : Sound d)
    (hf : d.freed = []) (V : PtSound vm.supply vm.pt) (hc : Covered d.bos vm.pt)
    (hh : ∀ b ∈ d.bos, ∀ k < left, b.handle ≠ (d.nextHandle + k) % 2 ^ 32) {st : NtStatus}
    {va : Word} {d' : Device} {vm' : Vm}
    (hrun : tilerChunks proc owner chunkSize r k left d vm first = (st, va, d', vm')) :
    Outcome (ChunksWhole proc owner chunkSize r k left d vm) d d' vm' := by
  induction left generalizing k d vm first with
  | zero =>
    obtain ⟨-, -, rfl, rfl⟩ := Prod.mk.injEq .. ▸ hrun
    refine .untouched trivial rfl S V hc ?_
    intro f hfr
    rw [hf] at hfr
    cases hfr
  | succ left ih =>
    rcases hblock : heapAllocMapped d vm proc owner chunkSize vm.kmdVaNext (r k) with
      ⟨st₁, h₁, d₁, vm₁⟩
    have hnow : ∀ b ∈ d.bos, b.handle ≠ d.nextHandle % 2 ^ 32 :=
      fun b hb => by simpa using hh b hb 0 (by omega)
    obtain ⟨O, hok⟩ := heapAlloc_spec S hf V hc hnow hsize (r k) hblock
    simp only [tilerChunks, hblock] at hrun
    simp only [ChunksWhole, hblock]
    by_cases hst : st₁ = .success
    · subst hst
      obtain ⟨hw, hf₁, bo, hn, rfl⟩ := hok rfl
      simp only [NtStatus.ok_success, Bool.not_true, Bool.false_eq_true, if_false] at hrun
      have O₁ := O.advance (vm.kmdVaNext + BitVec.ofNat 64 chunkSize)
      have R := ih (k + 1) (by omega) _ O.sound hf₁ O₁.pt (O₁.covered hw)
        (handles_add hn (by omega) hh) hrun
      exact R.imp O.table (by simp [hw])
    · simp only [NtStatus.ok_eq_false hst, Bool.not_false, if_true] at hrun
      obtain ⟨-, -, rfl, rfl⟩ := Prod.mk.injEq .. ▸ hrun
      exact O.imp rfl (by simp [hst])

theorem Outcome.put {whole : Prop} {d' : Device} {vm' : Vm} (O : Outcome whole d d' vm') {id : ℕ}
    (h : vmGet d.vmTable id = some vm) :
    (whole ↔ ∀ f ∈ (d'.putVm id vm').freed, ¬Referenced (d'.putVm id vm') f) ∧
      (whole → Sound (d'.putVm id vm')) := by
  rw [← O.table] at h
  have hset := (vmGet_split h).2 vm'
  have hv : ∀ v ∈ (d'.putVm id vm').vmTable.vms, PtSound v.supply v.pt := by
    intro v hv
    rcases hset.2 v hv with rfl | hv
    · exact O.pt
    · exact O.sound.vms v hv
  refine ⟨O.exact.trans ?_, fun hw => O.sound.putVm h O.pt (O.covered hw)⟩
  refine forall₂_congr fun f hf => not_congr ?_
  obtain ⟨hlt, hgone⟩ := O.fresh f hf
  rw [referenced_iff hv]
  constructor
  · exact fun hm => .inl ⟨vm', hset.1, hm⟩
  · rintro (⟨v, hmem, hm⟩ | ⟨m, hm, hfm⟩)
    · rcases hset.2 v hmem with rfl | hmem
      · exact hm
      · exact absurd ((O.sound.covered v hmem).held O.sound.bos hlt hm) hgone
    · exact absurd (O.sound.mapped hm hfm) hgone

theorem tilerReal_spec (proc : ℕ) (owner : Option ℕ) {chunkSize count vmId : ℕ}
    (hsize : ValidChunk chunkSize)
    (hcount : count ≠ 0) (r : ℕ → HeapReply) (S : Sound d) (hf : d.freed = [])
    (hvm : vmGet d.vmTable vmId = some vm)
    (hh : ∀ b ∈ d.bos, ∀ k < 17, b.handle ≠ (d.nextHandle + k) % 2 ^ 32) :
    ∃ d' vm', (tilerHeapCreateReal d proc owner vmId chunkSize count r).2.2.2 = d'.putVm vmId vm' ∧
      Outcome (HeapWhole d proc owner chunkSize count r vm) d d' vm' := by
  obtain ⟨hal, hlow, hhigh⟩ := hsize
  have hbad : ¬(chunkSize % 4096 ≠ 0 ∨ chunkSize < 0x1000 ∨ chunkSize > 0x200000) := by omega
  have hmem := (vmGet_split hvm).1
  have hnow : ∀ b ∈ d.bos, b.handle ≠ d.nextHandle % 2 ^ 32 :=
    fun b hb => by simpa using hh b hb 0 (by omega)
  rcases hctx : heapAllocMapped d vm proc owner 4096 vm.kmdVaNext (r 0) with ⟨st₁, h₁, d₁, vm₁⟩
  have hpage : 4096 % 4096 = 0 ∧ 4096 ≠ 0 := by decide
  obtain ⟨O, hok⟩ := heapAlloc_spec S hf (S.vms vm hmem) (S.covered vm hmem) hnow hpage (r 0) hctx
  simp only [tilerHeapCreateReal, if_neg hbad, if_neg hcount, hvm, hctx]
  unfold HeapWhole
  simp only [hctx]
  by_cases hst : st₁ = .success
  · subst hst
    obtain ⟨hw, hf₁, bo, hn, rfl⟩ := hok rfl
    rcases hrun : tilerChunks proc owner chunkSize (fun k => r (k + 1)) 0 (min count 16)
      (addBo d bo) { vm₁ with kmdVaNext := vm₁.kmdVaNext + 4096 } 0 with ⟨st, va, d', vm'⟩
    have O₁ := O.advance (vm₁.kmdVaNext + 4096)
    have R := chunks_spec (by omega) (fun k => r (k + 1)) 0 (min count 16) (by omega) 0 O.sound hf₁
      O₁.pt (O₁.covered hw) (handles_add hn (by omega) fun b hb k hk => hh b hb k (by omega)) hrun
    refine ⟨d', vm', ?_, R.imp O.table (by simp [hw])⟩
    simp only [NtStatus.ok_success, Bool.not_true, Bool.false_eq_true, if_false]
    split <;> rfl
  · refine ⟨d₁, vm₁, ?_, O.imp rfl (by simp [hst])⟩
    simp only [NtStatus.ok_eq_false hst, Bool.not_false, if_true]

theorem tilerHeapCreate_device (d : Device) (proc : ℕ) (owner : Option ℕ)
    (vmId chunkSize count : ℕ) (r : ℕ → HeapReply) (hv : vmId ≠ 0) (hc : count ≠ 0) :
    (tilerHeapCreate d proc owner vmId chunkSize count r).2 =
      (tilerHeapCreateReal d proc owner vmId chunkSize count r).2.2.2 := by
  simp only [tilerHeapCreate, hv, hc, or_self, if_false]
  split <;> rename_i h <;> rw [h]

theorem tilerHeapCreate_exact (S : Sound d) (hf : d.freed = []) (vmId chunkSize count : ℕ)
    (r : ℕ → HeapReply) (hh : HandlesFresh d (.tilerHeapCreate proc owner vmId chunkSize count r)) :
    Exact d (.tilerHeapCreate proc owner vmId chunkSize count r) := by
  -- a call that is refused leaves the device as it is
  have hsame : (tilerHeapCreate d proc owner vmId chunkSize count r).2 = d →
      Duty d (.tilerHeapCreate proc owner vmId chunkSize count r) →
      Exact d (.tilerHeapCreate proc owner vmId chunkSize count r) := by
    intro h hg
    have ht : (Op.tilerHeapCreate proc owner vmId chunkSize count r).apply d = d := h
    exact .harmless hg (ht.symm ▸ S) (ht.symm ▸ hf)
  by_cases hv : vmId = 0
  · exact hsame (by simp [tilerHeapCreate, hv]) fun h => absurd hv h
  by_cases hc : count = 0
  · exact hsame (by simp [tilerHeapCreate, hc]) fun _ h => absurd hc h
  have hdev := tilerHeapCreate_device d proc owner vmId chunkSize count r hv hc
  by_cases hsize : ValidChunk chunkSize
  · cases hvm : vmGet d.vmTable vmId with
    | none =>
      refine hsame ?_ fun _ _ _ vm h => ?_
      · simp only [hdev, tilerHeapCreateReal, hvm]
        split
        · rfl
        · simp only
      · rw [hvm] at h
        cases h
    | some vm =>
      obtain ⟨d', vm', ht, O⟩ := tilerReal_spec proc owner hsize hc r S hf hvm hh
      rw [← hdev] at ht
      obtain ⟨hiff, hS⟩ := O.put hvm
      have hg : Duty d (.tilerHeapCreate proc owner vmId chunkSize count r) ↔
          HeapWhole d proc owner chunkSize count r vm := by
        simp [Duty, hv, hc, hsize, hvm]
      unfold Exact Unreferenced
      rw [hg, show (Op.tilerHeapCreate proc owner vmId chunkSize count r).apply d =
        d'.putVm vmId vm' from ht]
      exact ⟨hiff, hS⟩
  · refine hsame ?_ fun _ _ h => absurd h hsize
    have hbad : chunkSize % 4096 ≠ 0 ∨ chunkSize < 0x1000 ∨ chunkSize > 0x200000 := by
      unfold ValidChunk at hsize
      omega
    rw [hdev, tilerHeapCreateReal, if_pos hbad]

end Heap

end WinMali.HeapBlocks
