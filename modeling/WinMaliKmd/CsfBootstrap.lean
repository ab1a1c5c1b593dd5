import WinMaliKmd.CsfFrees

/-!
# The bootstrap of the kernel queue

Nothing takes a page out of the microcontroller's table again. So from the first page of the
queue interface on, every error path of the bootstrap gives pages back that the firmware can
still write to.
-/

set_option autoImplicit false

namespace WinMali.CsfBootstrap
open WinMali.Lpae WinMali.FirmwareImage WinMali.McuPageTable WinMali.McuPageTableMap
open WinMali.CsfBuffers WinMali.CsfFrees
open WinMali.VmPageTable (pageVa pageOf)
open WinMali.ApertureRoots hiding step State Op Inv

variable {g : ApertureRoots.State} {s : Csf}

section Mapping

/-- The entry for page `j` of a block. -/
theorem leaf_page {pa attrs : Word} {n j : ℕ} (ha : ValidAttrs attrs)
    (haligned : pa.toNat % 4096 = 0) (hbelow : pa.toNat + 4096 * n ≤ 2 ^ 48) (hj : j < n) :
    leafOf (((pa + BitVec.ofNat 64 j * 4096) &&& paMask) ||| attrs) =
        some (pa + BitVec.ofNat 64 j * 4096, attrs) ∧
      (⟨pa, n⟩ : Block).Holds (pa + BitVec.ofNat 64 j * 4096) := by
  have hval := pageVa_toNat hj hbelow
  have hframed : Framed (pa + BitVec.ofNat 64 j * 4096) :=
    framed_of_page _ (by omega) (by omega)
  refine ⟨by rw [leafOf_page _ _ ha, hframed.eq], ?_, ?_⟩
  · change pa.toNat ≤ _
    omega
  · change _ < pa.toNat + 4096 * n
    omega

/-- Where `McuMapContiguous_` puts the first page of a buffer that is aligned to pages. -/
def firstVa (pt : FwPt) : Word := (pt.mcuDynNextVa + 4096 - 1) &&& ~~~(4096 - 1)

theorem firstVa_bounds {pt : FwPt} (hdyn : pt.mcuDynNextVa.toNat ≤ 2 ^ 40) :
    (firstVa pt).toNat % 4096 = 0 ∧ pt.mcuDynNextVa.toNat ≤ (firstVa pt).toNat ∧
      (firstVa pt).toNat ≤ pt.mcuDynNextVa.toNat + 4095 := by
  have hsum : (pt.mcuDynNextVa + 4096 - 1).toNat = pt.mcuDynNextVa.toNat + 4095 := by
    rw [BitVec.toNat_sub, BitVec.toNat_add]
    change (2 ^ 64 - 1 + (_ + 4096) % 2 ^ 64) % 2 ^ 64 = _
    omega
  have hval : (firstVa pt).toNat = (pt.mcuDynNextVa.toNat + 4095) / 4096 * 4096 := by
    rw [← hsum]
    exact and_not_page (pt.mcuDynNextVa + 4096 - 1)
  omega

/-- A page-aligned buffer of `n` pages. -/
structure PageCall (c : MapCall) (n : ℕ) : Prop where
  host : c.hostVa = true
  align : c.align = 4096
  bytes : c.bytes.toNat = 4096 * n
  pos : 0 < n
  small : n ≤ 2 ^ 20
  attrs : ValidAttrs c.attrs
  aligned : c.hostPa.toNat % 4096 = 0
  below : c.hostPa.toNat + 4096 * n ≤ 2 ^ 48

variable {pt : FwPt} {c : MapCall} {n : ℕ}

theorem PageCall.run (C : PageCall c n) : mcuMapContiguous pt c =
    match mapPages (firstVa pt) c.hostPa c.attrs 0 n pt with
    | (.success, fw) =>
      (.success, firstVa pt, { fw with mcuDynNextVa := firstVa pt + BitVec.ofNat 64 n * 4096 })
    | (status, fw) => (status, 0, fw) := by
  have hargs : ¬((!c.hostVa) = true ∨ c.bytes = 0 ∨ c.align < 4096) := by
    rw [C.host, C.align]
    simp only [Bool.not_true, Bool.false_eq_true, false_or, not_or]
    refine ⟨fun h => ?_, by decide⟩
    have hzero := C.bytes
    have := C.pos
    rw [h] at hzero
    change 0 = _ at hzero
    omega
  have hpages : (c.bytes + 4095).toNat / 4096 = n := by
    have hbytes := C.bytes
    have := C.small
    rw [BitVec.toNat_add, hbytes]
    change (_ + 4095) % 2 ^ 64 / 4096 = n
    omega
  rw [mcuMapContiguous, if_neg hargs, hpages, C.align]
  rfl

/-- What the call changes: nothing below the buffers so far, and at other addresses only the
pages of the buffer appear. -/
theorem PageCall.walk (C : PageCall c n) (hdyn : pt.mcuDynNextVa.toNat ≤ 2 ^ 40)
    (i left : ℕ) (hleft : i + left ≤ n) {fw : FwPt} (I' : Inv fw) (va : Word) :
    mcuWalk (mapPages (firstVa pt) c.hostPa c.attrs i left fw).2 va = mcuWalk fw va ∨
      (firstVa pt).toNat + 4096 * i ≤ va.toNat ∧ ∃ x,
        mcuWalk (mapPages (firstVa pt) c.hostPa c.attrs i left fw).2 va = some x ∧
          (⟨c.hostPa, n⟩ : Block).Holds x.1 := by
  obtain ⟨haligned, hlo, hhi⟩ := firstVa_bounds hdyn
  have hsmall := C.small
  by_cases hva : va.toNat < 2 ^ 48
  · rcases mapPages_walk I' (firstVa pt) c.hostPa c.attrs i left va hva with
      hsame | ⟨j, hij, hj, hpage, hleaf⟩
    · exact .inl hsame
    · have hval : (firstVa pt + BitVec.ofNat 64 j * 4096).toNat = (firstVa pt).toNat + 4096 * j :=
        pageVa_toNat (n := n) (by omega) (by omega)
      obtain ⟨hx, hold⟩ := leaf_page C.attrs C.aligned C.below (j := j) (by omega)
      rw [pageOf_small hva, pageOf_small (by omega), hval] at hpage
      exact .inr ⟨by omega, _, hleaf.trans hx, hold⟩
  · left
    rw [mcuWalk, mcuWalk, if_neg hva, if_neg hva]

/-- What becomes of the table in a call, whether it succeeds or not. -/
structure Called (pt : FwPt) (c : MapCall) (n : ℕ) (status : NtStatus) (pt' : FwPt) : Prop where
  inv : Inv pt'
  mono : pt.mcuDynNextVa.toNat ≤ pt'.mcuDynNextVa.toNat
  dyn : pt'.mcuDynNextVa.toNat ≤ pt.mcuDynNextVa.toNat + 2 ^ 33
  below : ∀ va, va.toNat < pt.mcuDynNextVa.toNat → mcuWalk pt' va = mcuWalk pt va
  leaf : ∀ va x, mcuWalk pt' va = some x →
    mcuWalk pt va = some x ∨ (⟨c.hostPa, n⟩ : Block).Holds x.1
  first : (ptMap4k pt (firstVa pt) c.hostPa c.attrs).1 = .success →
    ∃ x, mcuWalk pt' (firstVa pt) = some x ∧ (⟨c.hostPa, n⟩ : Block).Holds x.1
  stopped : (ptMap4k pt (firstVa pt) c.hostPa c.attrs).1 ≠ .success →
    status ≠ .success ∧ ∀ va, mcuWalk pt' va = mcuWalk pt va
  past : status = .success → (firstVa pt).toNat < pt'.mcuDynNextVa.toNat

theorem PageCall.pages (C : PageCall c n) (I : Inv pt)
    (hdyn : pt.mcuDynNextVa.toNat ≤ 2 ^ 40) :
    ∃ status fw, mapPages (firstVa pt) c.hostPa c.attrs 0 n pt = (status, fw) ∧ Inv fw ∧
      fw.mcuDynNextVa = pt.mcuDynNextVa ∧
      ((ptMap4k pt (firstVa pt) c.hostPa c.attrs).1 = .success →
        ∃ x, mcuWalk fw (firstVa pt) = some x ∧ (⟨c.hostPa, n⟩ : Block).Holds x.1) ∧
      ((ptMap4k pt (firstVa pt) c.hostPa c.attrs).1 ≠ .success →
        status ≠ .success ∧ ∀ va, mcuWalk fw va = mcuWalk pt va) := by
  obtain ⟨status, fw, hrun, I', -, hnext, -⟩ :=
    mapPages_spec I (firstVa pt) c.hostPa c.attrs 0 n
  refine ⟨status, fw, hrun, I', hnext, ?_⟩
  obtain ⟨haligned, hlo, hhi⟩ := firstVa_bounds hdyn
  obtain ⟨left, rfl⟩ : ∃ left, n = left + 1 := ⟨n - 1, by have := C.pos; omega⟩
  obtain ⟨st, fw₁, hone, I₁, -, -, hwalk⟩ := ptMap4k_spec I (firstVa pt) c.hostPa c.attrs
  have hzero : ∀ w : Word, w + BitVec.ofNat 64 0 * 4096 = w := fun w => by simp
  rw [mapPages, hzero, hzero, hone] at hrun
  rw [hone]
  by_cases hst : st = .success
  · subst hst
    refine ⟨fun _ => ?_, fun h => absurd rfl h⟩
    have hpage := hwalk (firstVa pt) (by omega)
    rw [if_pos ⟨rfl, rfl⟩] at hpage
    obtain ⟨hx, hold⟩ := leaf_page C.attrs C.aligned C.below (j := 0) (by omega)
    rw [hzero] at hx hold
    have hrest := C.walk hdyn 1 left (by omega) I₁ (firstVa pt)
    rw [show mapPages (firstVa pt) c.hostPa c.attrs 1 left fw₁ = (status, fw) from hrun] at hrest
    rcases hrest with hsame | ⟨hle, -⟩
    · exact ⟨_, hsame.trans (hpage.trans hx), hold⟩
    · omega
  · refine ⟨fun h => absurd h hst, fun _ => ?_⟩
    have hstop : (st, fw₁) = (status, fw) := by
      cases st with
      | success => exact absurd rfl hst
      | _ => exact hrun
    obtain ⟨rfl, rfl⟩ := Prod.mk.inj hstop
    refine ⟨hst, fun va => ?_⟩
    by_cases hva : va.toNat < 2 ^ 48
    · rw [hwalk va hva, if_neg fun h => hst h.1]
    · rw [mcuWalk, mcuWalk, if_neg hva, if_neg hva]

theorem PageCall.spec (C : PageCall c n) (I : Inv pt) (hdyn : pt.mcuDynNextVa.toNat ≤ 2 ^ 40) :
    ∃ status va pt', mcuMapContiguous pt c = (status, va, pt') ∧ Called pt c n status pt' := by
  obtain ⟨haligned, hlo, hhi⟩ := firstVa_bounds hdyn
  have hpos := C.pos
  have hsmall := C.small
  obtain ⟨status, fw, hrun, I', hnext, hfirst, hstopped⟩ := C.pages I hdyn
  have hwalk := C.walk hdyn 0 n (by omega) I
  rw [hrun] at hwalk
  have hbelow : ∀ va, va.toNat < pt.mcuDynNextVa.toNat → mcuWalk fw va = mcuWalk pt va := by
    intro va hva
    rcases hwalk va with hsame | ⟨hle, -⟩
    · exact hsame
    · omega
  have hleaf : ∀ va x, mcuWalk fw va = some x →
      mcuWalk pt va = some x ∨ (⟨c.hostPa, n⟩ : Block).Holds x.1 := by
    intro va x hx
    rcases hwalk va with hsame | ⟨-, y, hy, hold⟩
    · exact .inl (hsame ▸ hx)
    · obtain rfl := Option.some.inj (hy.symm.trans hx)
      exact .inr hold
  by_cases hst : status = .success
  · subst hst
    have hend : (firstVa pt + BitVec.ofNat 64 n * 4096).toNat = (firstVa pt).toNat + 4096 * n :=
      pageVa_toNat (n := n + 1) (by omega) (by omega)
    refine ⟨.success, firstVa pt,
      { fw with mcuDynNextVa := firstVa pt + BitVec.ofNat 64 n * 4096 }, by rw [C.run, hrun],
      I'.setDynNext _, ?_, ?_, hbelow, hleaf, hfirst, hstopped, fun _ => ?_⟩
    · change _ ≤ (firstVa pt + BitVec.ofNat 64 n * 4096).toNat
      omega
    · change (firstVa pt + BitVec.ofNat 64 n * 4096).toNat ≤ _
      omega
    · change _ < (firstVa pt + BitVec.ofNat 64 n * 4096).toNat
      omega
  · refine ⟨status, 0, fw, ?_, I', by rw [hnext], by rw [hnext]; omega, hbelow, hleaf, hfirst,
      hstopped, fun h => absurd h hst⟩
    rw [C.run, hrun]
    cases status with
    | success => exact absurd rfl hst
    | _ => rfl

end Mapping

section Boot

/-- What the memory manager promises: pages that nobody else has. -/
structure HonestEnv (g : ApertureRoots.State) (s : Csf) (env : Env) : Prop where
  aligned : ∀ h b, granted s env h = some b → b.pa.toNat % 4096 = 0
  below : ∀ h b, granted s env h = some b → b.pa.toNat + 4096 * b.pages ≤ 2 ^ 48
  foreign : ∀ h b f, granted s env h = some b → Foreign g f → ¬b.Holds f
  apart : ∀ h h' b b', granted s env h = some b → granted s env h' = some b' → h ≠ h' →
    b.Apart b'
  fresh : ∀ h h' b b', granted s env h = some b → s.blocks h' = some b' → b.Apart b'

/-- A state of the bootstrap from `s₀` in which the buffers `ks` are not allocated yet. -/
structure Booting (g : ApertureRoots.State) (s₀ : Csf) (env : Env) (ks : List Holder) (s : Csf) :
    Prop where
  good : Good g s
  table : Inv s.pt
  bound : s.gpu.gpuMmuAsBound = true
  as0 : s.as0 = s₀.as0
  sizes : s.mcuBytes = s₀.mcuBytes
  frees : s.frees = s₀.frees
  held : ∀ h b, s.blocks h = some b → s₀.blocks h = some b ∨ granted s₀ env h = some b
  waiting : ∀ h ∈ ks, s.blocks h = none

variable {s₀ : Csf} {env : Env} {ks : List Holder}

theorem apart_symm {b b' : Block} (h : b.Apart b') : b'.Apart b :=
  fun f hf => h f hf.symm

theorem Booting.pagesOf (B : Booting g s₀ env ks s) : s.pagesOf = s₀.pagesOf := by
  funext h
  cases h with
  | mcu k => simp only [Csf.pagesOf, B.sizes]
  | gpu k => rfl
  | backing i => rfl
  | ptPool => rfl

theorem Booting.alloc {h : Holder} (B : Booting g s₀ env (h :: ks) s) (H : HonestEnv g s₀ env)
    (hks : h ∉ ks) :
    (env.alloc h = none ∧ allocate env h s = (.insufficientResources, s)) ∨
      ∃ pa s', env.alloc h = some pa ∧ granted s₀ env h = some ⟨pa, s₀.pagesOf h⟩ ∧
        allocate env h s = (.success, s') ∧ Booting g s₀ env ks s' ∧ s'.pt = s.pt ∧
        s'.blocks = Function.update s.blocks h (some ⟨pa, s₀.pagesOf h⟩) := by
  have hnone : s.blocks h = none := B.waiting h List.mem_cons_self
  have hgranted : granted s env h = granted s₀ env h := by
    rw [granted, granted, B.pagesOf]
  cases halloc : env.alloc h with
  | none =>
    left
    refine ⟨rfl, ?_⟩
    have hsame : Function.update s.blocks h (granted s env h) = s.blocks := by
      rw [granted, halloc, Option.map_none, ← hnone, Function.update_eq_self]
    rw [allocate, hsame, halloc]
    rfl
  | some pa =>
    right
    have hnew : granted s₀ env h = some ⟨pa, s₀.pagesOf h⟩ := by rw [granted, halloc]; rfl
    have hkeep : ∀ {h' b'}, s.blocks h' = some b' →
        Function.update s.blocks h (granted s env h) h' = some b' := by
      intro h' b' hb'
      have hne : h' ≠ h := by
        rintro rfl
        rw [hnone] at hb'
        cases hb'
      rw [Function.update_of_ne hne, hb']
    have hfresh : ∀ {h' b'}, s.blocks h' = some b' → h' ≠ h →
        Block.Apart ⟨pa, s₀.pagesOf h⟩ b' := by
      intro h' b' hb' hne
      rcases B.held h' b' hb' with hold | hgr
      · exact H.fresh h h' _ b' hnew hold
      · exact H.apart h h' _ b' hnew hgr hne.symm
    have hcases : ∀ {h' b'}, Function.update s.blocks h (granted s env h) h' = some b' →
        (h' = h ∧ b' = ⟨pa, s₀.pagesOf h⟩) ∨ (h' ≠ h ∧ s.blocks h' = some b') := by
      intro h' b' hb'
      by_cases hne : h' = h
      · subst hne
        rw [Function.update_self, hgranted, hnew] at hb'
        exact .inl ⟨rfl, (Option.some.inj hb').symm⟩
      · rw [Function.update_of_ne hne] at hb'
        exact .inr ⟨hne, hb'⟩
    have G := B.good
    refine ⟨pa, { s with blocks := Function.update s.blocks h (granted s env h) }, rfl, hnew, ?_,
      ⟨⟨G.heap, ?_, ?_, ?_, ?_⟩, B.table, B.bound, B.as0, B.sizes, B.frees, ?_, ?_⟩, rfl,
      by rw [hgranted, hnew]⟩
    · rw [allocate, halloc]
      rfl
    · intro h₁ h₂ b₁ b₂ hb₁ hb₂ hne
      rcases hcases hb₁ with ⟨rfl, rfl⟩ | ⟨hne₁, hold₁⟩
      · rcases hcases hb₂ with ⟨rfl, -⟩ | ⟨hne₂, hold₂⟩
        · exact absurd rfl hne
        · exact hfresh hold₂ hne₂
      · rcases hcases hb₂ with ⟨rfl, rfl⟩ | ⟨-, hold₂⟩
        · exact apart_symm (hfresh hold₁ hne₁)
        · exact G.apart h₁ h₂ b₁ b₂ hold₁ hold₂ hne
    · intro h₁ b₁ f hb₁ hf
      rcases hcases hb₁ with ⟨rfl, rfl⟩ | ⟨-, hb₁⟩
      · exact H.foreign h₁ _ f hnew hf
      · exact G.foreign h₁ b₁ f hb₁ hf
    · intro hbound va x hx
      exact (G.gpuLeaf hbound va x hx).imp_right
        fun ⟨k, b, hb, hw, hold⟩ => ⟨k, b, hkeep hb, hw, hold⟩
    · intro has0 va x hx
      obtain ⟨h', b', hb', hmcu, hold⟩ := G.mcuLeaf has0 va x hx
      exact ⟨h', b', hkeep hb', hmcu, hold⟩
    · intro h' b' hb'
      rcases hcases hb' with ⟨rfl, rfl⟩ | ⟨-, hb'⟩
      · exact .inr hnew
      · exact B.held h' b' hb'
    · intro h' hh'
      have hne : h' ≠ h := fun heq => hks (heq ▸ hh')
      exact (Function.update_of_ne hne _ _).trans (B.waiting h' (List.mem_cons_of_mem _ hh'))

theorem mapGpuRange_bound {a : ApertureRoots.State} (hbound : a.gpuMmuAsBound = true)
    (hheap : a.mmuScratchHeap = true) (k : GpuBuffer) {pa : Word} (ha : pa.toNat % 4096 = 0) :
    mapGpuRange a k.va pa k.pages k.attrs = (.success, filled a k 0 k.pages fun i =>
      makeL3PagePte (pa + BitVec.ofNat 64 i * 4096) k.attrs) := by
  have hcount : ¬(k.pages = 0 ∨ k.pages > windowBytes / 4096) := by
    have := pages_le k
    unfold windowBytes
    omega
  have haligned : ¬(k.va &&& 0xfff ≠ 0 ∨ pa &&& 0xfff ≠ 0) := by
    rw [not_or, not_not, not_not]
    exact ⟨by cases k <;> decide, (aligned_iff pa).mpr ha⟩
  have hattrs : k.attrs ≠ 0 := by cases k <;> decide
  simp only [mapGpuRange, setPtes, hbound, hheap, reduceCtorEq, or_self, if_false,
    if_neg hcount, if_neg haligned, if_neg hattrs]
  exact setPtesLoop_filled k _ (by omega)

theorem Booting.maps_gpu {k : GpuBuffer} (B : Booting g s₀ env ks s) {pa : Word}
    (hb : s.blocks (.gpu k) = some ⟨pa, k.pages⟩) (ha : pa.toNat % 4096 = 0)
    (hbelow : pa.toNat + 4096 * k.pages ≤ 2 ^ 48) :
    ∃ s', mapGpu k s = (.success, s') ∧ Booting g s₀ env ks s' ∧ s'.blocks = s.blocks ∧
      s'.pt = s.pt := by
  have G := B.good
  have hattrs : ValidAttrs k.attrs := by cases k <;> decide
  refine ⟨{ s with gpu := filled s.gpu k 0 k.pages fun i =>
      makeL3PagePte (pa + BitVec.ofNat 64 i * 4096) k.attrs }, ?_,
    ⟨⟨G.heap, G.apart, G.foreign, ?_, G.mcuLeaf⟩, B.table, B.bound, B.as0, B.sizes, B.frees,
      B.held, B.waiting⟩, rfl, rfl⟩
  · simp only [CsfBuffers.mapGpu, hb, mapGpuRange_bound B.bound (G.heap B.bound) k ha]
  · intro _ va x hx
    rw [translation_filled] at hx
    split at hx
    · rename_i hw
      have hj : (va.toNat - k.va.toNat) / 4096 < k.pages := by
        unfold GpuBuffer.Window at hw
        omega
      obtain ⟨hleaf, hold⟩ := leaf_page hattrs ha hbelow hj
      obtain rfl := Option.some.inj (hleaf.symm.trans hx)
      exact .inr ⟨k, _, hb, hw, hold⟩
    · exact G.gpuLeaf B.bound va x hx

theorem suspendBytes_pages (size : Ulong) : (suspendBytes size).toNat % 4096 = 0 ∧
    0 < (suspendBytes size).toNat ∧ (suspendBytes size).toNat ≤ 2 ^ 32 := by
  have hsize := size.isLt
  have hround : ∀ bytes : Word, 0 < bytes.toNat → bytes.toNat < 2 ^ 32 →
      ((bytes + 4095) &&& ~~~4095).toNat = (bytes.toNat + 4095) / 4096 * 4096 := by
    intro bytes hpos hlt
    have hpage : (4095 : Word).toNat = 4095 := rfl
    rw [and_not_page, BitVec.toNat_add, hpage]
    omega
  unfold suspendBytes
  by_cases hzero : size = 0
  · rw [if_pos hzero]
    decide
  · have hpos : 0 < size.toNat := by
      rcases Nat.eq_zero_or_pos size.toNat with h | h
      · exact absurd (BitVec.eq_of_toNat_eq h) hzero
      · exact h
    have hwide : (size.setWidth 64 : Word).toNat = size.toNat := by
      rw [BitVec.toNat_setWidth]
      omega
    rw [if_neg hzero, hround _ (by omega) (by omega), hwide]
    omega

theorem mcuBytes_pages (s : Csf) (k : McuBuffer) : (s.mcuBytes k).toNat % 4096 = 0 ∧
    0 < (s.mcuBytes k).toNat ∧ (s.mcuBytes k).toNat ≤ 2 ^ 32 := by
  cases k with
  | queueIface =>
    change (8 * 1024 : Word).toNat % 4096 = 0 ∧ 0 < (8 * 1024 : Word).toNat ∧
      (8 * 1024 : Word).toNat ≤ 2 ^ 32
    decide
  | suspend => exact suspendBytes_pages _
  | protm => exact suspendBytes_pages _

theorem mcuCall_pages (s : Csf) (k : McuBuffer) {pa : Word} (ha : pa.toNat % 4096 = 0)
    (hbelow : pa.toNat + 4096 * s.pagesOf (.mcu k) ≤ 2 ^ 48) :
    PageCall (mcuCall s k pa) (s.pagesOf (.mcu k)) := by
  obtain ⟨hmod, hpos, hle⟩ := mcuBytes_pages s k
  have hattrs : ValidAttrs pageAttrRwNx := by decide
  refine ⟨rfl, rfl, ?_, ?_, ?_, hattrs, ha, hbelow⟩
  · change (s.mcuBytes k).toNat = 4096 * ((s.mcuBytes k).toNat / 4096)
    omega
  · change 0 < (s.mcuBytes k).toNat / 4096
    omega
  · change (s.mcuBytes k).toNat / 4096 ≤ 2 ^ 20
    omega

theorem Booting.maps_mcu {k : McuBuffer} (B : Booting g s₀ env ks s) {pa : Word}
    (hb : s.blocks (.mcu k) = some ⟨pa, s₀.pagesOf (.mcu k)⟩) (ha : pa.toNat % 4096 = 0)
    (hbelow : pa.toNat + 4096 * s₀.pagesOf (.mcu k) ≤ 2 ^ 48)
    (hdyn : s.pt.mcuDynNextVa.toNat ≤ 2 ^ 40) :
    ∃ status s' va, mapMcu k s = (status, s') ∧ Booting g s₀ env ks s' ∧ s'.blocks = s.blocks ∧
      mcuMapContiguous s.pt (mcuCall s₀ k pa) = (status, va, s'.pt) ∧
      Called s.pt (mcuCall s₀ k pa) (s₀.pagesOf (.mcu k)) status s'.pt := by
  have G := B.good
  obtain ⟨status, va, pt', hrun, C⟩ := (mcuCall_pages s₀ k ha hbelow).spec B.table hdyn
  have hcall : mcuCall s k pa = mcuCall s₀ k pa := by rw [mcuCall, B.sizes]; rfl
  refine ⟨status, { s with
      pt := pt'
      mcuVa := if status.ok then Function.update s.mcuVa k va else s.mcuVa }, va, ?_,
    ⟨⟨G.heap, G.apart, G.foreign, G.gpuLeaf, ?_⟩, C.inv, B.bound, B.as0, B.sizes, B.frees,
      B.held, B.waiting⟩, rfl, hrun, C⟩
  · simp only [CsfBuffers.mapMcu, hb, hcall, hrun]
  · intro has0 va x hx
    rcases C.leaf va x hx with hold | hnew
    · exact G.mcuLeaf has0 va x hold
    · exact ⟨.mcu k, _, hb, trivial, hnew⟩

/-- After what the bootstrap did, no page was freed while mapped exactly when `clean`, and
then the buffers that are still held are mapped for the microcontroller. -/
structure Ends (g : ApertureRoots.State) (clean : Prop) (s : Csf) : Prop where
  unmapped : FreesUnmapped s ↔ clean
  good : clean → Good g s
  held : clean → s.as0 = true → ∀ k b, s.blocks (.mcu k) = some b → McuMaps s.pt b

theorem Ends.congr {clean clean' : Prop} (E : Ends g clean s) (h : clean ↔ clean') :
    Ends g clean' s :=
  ⟨E.unmapped.trans h, fun hc => E.good (h.mpr hc), fun hc => E.held (h.mpr hc)⟩

/-- An error path clears before it frees, frees what the microcontroller's buffers have got
so far, and frees no section. -/
def errPath (ks : List Holder) (err : List Undo) : Bool :=
  covered [] err &&
    [McuBuffer.queueIface, .suspend, .protm].all (fun k =>
      ks.contains (.mcu k) || err.contains (.free (.mcu k))) &&
    err.all fun
      | .free (.backing _) => false
      | _ => true

theorem errPath_iff {ks : List Holder} {err : List Undo} (h : errPath ks err = true) :
    covered [] err = true ∧ (∀ k, Undo.free (.mcu k) ∈ err ∨ Holder.mcu k ∈ ks) ∧
      ∀ i, Undo.free (.backing i) ∉ err := by
  simp only [errPath, Bool.and_eq_true, List.all_eq_true, Bool.or_eq_true,
    List.contains_iff_mem] at h
  obtain ⟨⟨hcov, hall⟩, hbacking⟩ := h
  refine ⟨hcov, fun k => (hall k ?_).symm, fun i hi => ?_⟩
  · cases k <;> decide
  · exact absurd (hbacking _ hi) (by simp)

theorem Booting.frees_iff (B : Booting g s₀ env ks s) :
    FreesUnmapped s ↔ FreesUnmapped s₀ := by
  unfold FreesUnmapped
  rw [B.frees]

/-- An error path ends well exactly when none of the microcontroller's pages that it frees
is mapped. -/
theorem Booting.fails (B : Booting g s₀ env ks s) (hfrees : FreesUnmapped s₀) {err : List Undo}
    (hpath : errPath ks err = true) :
    Ends g (s₀.as0 = true → ∀ k, Undo.free (.mcu k) ∈ err → ∀ b, s.blocks (.mcu k) = some b →
      ¬McuMaps s.pt b) (undo err s) := by
  obtain ⟨hcov, hall, hbacking⟩ := errPath_iff hpath
  have hnone : ∀ k, (undo err s).blocks (.mcu k) = none := fun k =>
    undo_none ((hall k).imp_right (B.waiting _))
  have hfree : FreesUnmapped s := B.frees_iff.mpr hfrees
  have hiff := B.good.undo_iff (List.forall_mem_nil _) hcov hfree
  rw [B.as0] at hiff
  have hsame : (s₀.as0 = true → ∀ h, Undo.free h ∈ err → Holder.ForMcu h →
      ∀ b, s.blocks h = some b → ¬McuMaps s.pt b) ↔ (s₀.as0 = true → ∀ k,
        Undo.free (.mcu k) ∈ err → ∀ b, s.blocks (.mcu k) = some b → ¬McuMaps s.pt b) := by
    refine ⟨fun hno has0 k hk => hno has0 _ hk trivial, fun hno has0 h hh hfor => ?_⟩
    cases h with
    | mcu k => exact hno has0 k hh
    | backing i => exact absurd hh (hbacking i)
    | gpu k => exact hfor.elim
    | ptPool => exact hfor.elim
  refine ⟨hiff.trans hsame, fun hclean => ?_, ?_⟩
  · refine (B.good.undo_idle (List.forall_mem_nil _) hcov (fun h hh hfor => ?_) hfree).1
    rw [B.good.idle_mcu hfor, B.as0]
    exact fun has0 => hsame.mpr hclean has0 h hh hfor
  · intro _ _ k b hb
    rw [hnone k] at hb
    cases hb

/-- A buffer is mapped for the microcontroller, below the buffers that follow. -/
structure MappedBelow (s : Csf) (k : McuBuffer) : Prop where
  held : ∃ b va x, s.blocks (.mcu k) = some b ∧ va.toNat < s.pt.mcuDynNextVa.toNat ∧
    mcuWalk s.pt va = some x ∧ b.Holds x.1

theorem MappedBelow.maps {k : McuBuffer} (M : MappedBelow s k) :
    ∃ b, s.blocks (.mcu k) = some b ∧ McuMaps s.pt b := by
  obtain ⟨b, va, x, hb, -, hx, hold⟩ := M.held
  exact ⟨b, hb, va, x, hx, hold⟩

/-- Once the queue interface is mapped, every error path frees it under the microcontroller. -/
theorem Booting.fails_late (B : Booting g s₀ env ks s) (hfrees : FreesUnmapped s₀)
    (Q : MappedBelow s .queueIface) {err : List Undo} (hpath : errPath ks err = true)
    (hq : Undo.free (.mcu .queueIface) ∈ err) {boots : Prop} (hboots : ¬boots) :
    Ends g (s₀.as0 = true → boots) (undo err s) := by
  refine (B.fails hfrees hpath).congr ?_
  obtain ⟨b, hb, hmaps⟩ := Q.maps
  constructor
  · exact fun hno has0 => absurd hmaps (hno has0 _ hq b hb)
  · exact fun hno has0 => absurd (hno has0) hboots

theorem Booting.honest_block (H : HonestEnv g s₀ env) {h : Holder} {pa : Word} {n : ℕ}
    (hg : granted s₀ env h = some ⟨pa, n⟩) :
    pa.toNat % 4096 = 0 ∧ pa.toNat + 4096 * n ≤ 2 ^ 48 :=
  ⟨H.aligned h _ hg, H.below h _ hg⟩

theorem MappedBelow.keep {s' : Csf} {k : McuBuffer} (M : MappedBelow s k)
    (hblocks : ∀ b, s.blocks (.mcu k) = some b → s'.blocks (.mcu k) = some b)
    (hmono : s.pt.mcuDynNextVa.toNat ≤ s'.pt.mcuDynNextVa.toNat)
    (hwalk : ∀ va, va.toNat < s.pt.mcuDynNextVa.toNat → mcuWalk s'.pt va = mcuWalk s.pt va) :
    MappedBelow s' k := by
  obtain ⟨b, va, x, hb, hva, hx, hold⟩ := M.held
  exact ⟨b, va, x, hblocks b hb, by omega, (hwalk va hva).trans hx, hold⟩

theorem attempt_success {op rest : Csf → NtStatus × Csf} {err : List Undo} {s' : Csf}
    (h : op s = (.success, s')) : attempt op err rest s = rest s' := by
  simp only [attempt, h]

theorem attempt_fails {op rest : Csf → NtStatus × Csf} {err : List Undo} {status : NtStatus}
    {s' : Csf} (h : op s = (status, s')) (hst : status ≠ .success) :
    attempt op err rest s = (status, undo err s') := by
  rw [attempt, h]
  cases status with
  | success => exact absurd rfl hst
  | _ => rfl

def Boots (s : Csf) (env : Env) : Prop :=
  (∀ k, (env.alloc (.gpu k)).isSome) ∧
  (∃ q p t, env.alloc (.mcu .queueIface) = some q ∧ env.alloc (.mcu .suspend) = some p ∧
    env.alloc (.mcu .protm) = some t ∧ (mapAll [mcuCall s .queueIface q, mcuCall s .suspend p,
      mcuCall s .protm t] s.pt).isSome) ∧
  env.start = .success

/-- The bootstrap gets to the first page of the queue interface, and there are tables for it. -/
def MapsQueueIface (s : Csf) (env : Env) : Prop :=
  s.csfIfaceValid = true ∧ s.gpu.gpuMmuAsBound = true ∧ (env.alloc (.gpu .ring)).isSome ∧
    ∃ q, env.alloc (.mcu .queueIface) = some q ∧
      (ptMap4k s.pt (firstVa s.pt) q pageAttrRwNx).1 = .success

theorem mapAll_none {pt pt' : FwPt} {c : MapCall} {calls : List MapCall} {status : NtStatus}
    {va : Word} (h : mcuMapContiguous pt c = (status, va, pt')) (hst : status ≠ .success) :
    mapAll (c :: calls) pt = none := by
  rw [mapAll, h]
  cases status with
  | success => exact absurd rfl hst
  | _ => rfl

theorem mapAll_some {pt pt' : FwPt} {c : MapCall} {calls : List MapCall} {va : Word}
    (h : mcuMapContiguous pt c = (.success, va, pt')) :
    (mapAll (c :: calls) pt).isSome = (mapAll calls pt').isSome := by
  rw [mapAll, h, Option.isSome_map]

/-- The steps of another buffer leave this one in place. -/
theorem MappedBelow.keep_gpu {s' : Csf} {k : McuBuffer} (M : MappedBelow s k) {h : Holder}
    {b : Block} (hne : Holder.mcu k ≠ h) (hpt : s'.pt = s.pt)
    (hblocks : s'.blocks = Function.update s.blocks h (some b)) : MappedBelow s' k := by
  refine M.keep (fun b' hb' => ?_) (by rw [hpt]) (fun va _ => by rw [hpt])
  rw [hblocks, Function.update_of_ne hne, hb']

theorem MappedBelow.keep_mcu {s' : Csf} {k : McuBuffer} (M : MappedBelow s k) {h : Holder}
    {b : Block} (hne : Holder.mcu k ≠ h)
    (hblocks : s'.blocks = Function.update s.blocks h (some b)) {c : MapCall} {n : ℕ}
    {status : NtStatus} (C : Called s.pt c n status s'.pt) : MappedBelow s' k := by
  refine M.keep (fun b' hb' => ?_) C.mono C.below
  rw [hblocks, Function.update_of_ne hne, hb']

/-- What is mapped first in a call that succeeds is found afterwards. -/
theorem Called.maps {pt pt' : FwPt} {c : MapCall} {n : ℕ} {status : NtStatus}
    (C : Called pt c n status pt') (hst : status = .success) : ∃ va x,
      va.toNat < pt'.mcuDynNextVa.toNat ∧ mcuWalk pt' va = some x ∧
        (⟨c.hostPa, n⟩ : Block).Holds x.1 := by
  have hfirst : (ptMap4k pt (firstVa pt) c.hostPa c.attrs).1 = .success := by
    by_contra hno
    exact (C.stopped hno).1 hst
  obtain ⟨x, hx, hold⟩ := C.first hfirst
  exact ⟨firstVa pt, x, C.past hst, hx, hold⟩

theorem MappedBelow.new {s' : Csf} {k : McuBuffer} {pa : Word} {pt : FwPt} {n : ℕ}
    {status : NtStatus} (C : Called pt (mcuCall s₀ k pa) n status s'.pt)
    (hst : status = .success)
    (hblocks : s'.blocks = Function.update s.blocks (.mcu k) (some ⟨pa, n⟩)) :
    MappedBelow s' k := by
  obtain ⟨va, x, hva, hx, hold⟩ := C.maps hst
  exact ⟨⟨pa, n⟩, va, x, by rw [hblocks, Function.update_self], hva, hx, hold⟩

/-- Allocating and mapping a buffer of the driver's address space fails in the first step
or not at all. -/
theorem Booting.gpu_steps {k : GpuBuffer} (B : Booting g s₀ env (.gpu k :: ks) s)
    (H : HonestEnv g s₀ env) (hks : Holder.gpu k ∉ ks) :
    (env.alloc (.gpu k) = none ∧ ∀ err err' rest,
      attempt (allocate env (.gpu k)) err (attempt (mapGpu k) err' rest) s =
        (.insufficientResources, undo err s)) ∨
    ∃ b s', (env.alloc (.gpu k)).isSome ∧ Booting g s₀ env ks s' ∧ s'.pt = s.pt ∧
      s'.blocks = Function.update s.blocks (.gpu k) (some b) ∧ ∀ err err' rest,
        attempt (allocate env (.gpu k)) err (attempt (mapGpu k) err' rest) s = rest s' := by
  rcases B.alloc H hks with ⟨hnone, hrun⟩ | ⟨pa, s₁, hsome, hg, hrun, B₁, hpt, hblocks⟩
  · exact .inl ⟨hnone, fun err err' rest => attempt_fails hrun (by decide)⟩
  · have hpage : s₀.pagesOf (.gpu k) = k.pages := rfl
    obtain ⟨ha, hbelow⟩ := Booting.honest_block H hg
    rw [hpage] at hbelow hblocks
    have hb : s₁.blocks (.gpu k) = some ⟨pa, k.pages⟩ := by rw [hblocks, Function.update_self]
    obtain ⟨s₂, hrun₂, B₂, hblocks₂, hpt₂⟩ := B₁.maps_gpu hb ha hbelow
    refine .inr ⟨⟨pa, k.pages⟩, s₂, by rw [hsome]; rfl, B₂, hpt₂.trans hpt,
      hblocks₂.trans hblocks, ?_⟩
    intro err err' rest
    rw [attempt_success hrun, attempt_success hrun₂]

theorem Booting.mcu_steps {k : McuBuffer} (B : Booting g s₀ env (.mcu k :: ks) s)
    (H : HonestEnv g s₀ env) (hks : Holder.mcu k ∉ ks)
    (hdyn : s.pt.mcuDynNextVa.toNat ≤ 2 ^ 40) :
    (env.alloc (.mcu k) = none ∧ ∀ err err' rest,
      attempt (allocate env (.mcu k)) err (attempt (mapMcu k) err' rest) s =
        (.insufficientResources, undo err s)) ∨
    ∃ pa status va s', env.alloc (.mcu k) = some pa ∧ Booting g s₀ env ks s' ∧
      s'.blocks = Function.update s.blocks (.mcu k) (some ⟨pa, s₀.pagesOf (.mcu k)⟩) ∧
      mcuMapContiguous s.pt (mcuCall s₀ k pa) = (status, va, s'.pt) ∧
      Called s.pt (mcuCall s₀ k pa) (s₀.pagesOf (.mcu k)) status s'.pt ∧
      (status = .success → ∀ err err' rest,
        attempt (allocate env (.mcu k)) err (attempt (mapMcu k) err' rest) s = rest s') ∧
      (status ≠ .success → ∀ err err' rest,
        attempt (allocate env (.mcu k)) err (attempt (mapMcu k) err' rest) s =
          (status, undo err' s')) := by
  rcases B.alloc H hks with ⟨hnone, hrun⟩ | ⟨pa, s₁, hsome, hg, hrun, B₁, hpt, hblocks⟩
  · exact .inl ⟨hnone, fun err err' rest => attempt_fails hrun (by decide)⟩
  · obtain ⟨ha, hbelow⟩ := Booting.honest_block H hg
    have hb : s₁.blocks (.mcu k) = some ⟨pa, s₀.pagesOf (.mcu k)⟩ := by
      rw [hblocks, Function.update_self]
    rw [← hpt] at hdyn
    obtain ⟨status, s₂, va, hrun₂, B₂, hblocks₂, hcall, C⟩ := B₁.maps_mcu hb ha hbelow hdyn
    rw [hpt] at hcall C
    refine .inr ⟨pa, status, va, s₂, hsome, B₂, hblocks₂.trans hblocks, hcall, C, ?_, ?_⟩
    · rintro rfl err err' rest
      rw [attempt_success hrun, attempt_success hrun₂]
    · intro hst err err' rest
      rw [attempt_success hrun, attempt_fails hrun₂ hst]

theorem bootRest_ends (B : Booting g s₀ env
      [.gpu .sync, .mcu .suspend, .mcu .protm, .gpu .shader] s)
    (H : HonestEnv g s₀ env) (hfrees : FreesUnmapped s₀) (Q : MappedBelow s .queueIface)
    (hdyn : s.pt.mcuDynNextVa.toNat ≤ 2 ^ 35) {q va : Word}
    (hq : env.alloc (.mcu .queueIface) = some q)
    (hcall : mcuMapContiguous s₀.pt (mcuCall s₀ .queueIface q) = (.success, va, s.pt))
    (hring : (env.alloc (.gpu .ring)).isSome) :
    Ends g (s₀.as0 = true → Boots s₀ env) (bootRest env s).2 := by
  unfold bootRest
  -- the sync page
  rcases B.gpu_steps H (by decide) with ⟨hnone, hrun⟩ | ⟨b₁, s₁, hsync, B₁, hpt₁, hblk₁, hrun⟩
  · rw [hrun]
    refine B.fails_late hfrees Q (by decide) (by decide) fun hb => ?_
    have := hb.1 .sync
    rw [hnone] at this
    cases this
  rw [hrun]
  have Q₁ := Q.keep_gpu (by decide) hpt₁ hblk₁
  rw [← hpt₁] at hcall hdyn
  -- the suspend buffer
  rcases B₁.mcu_steps H (by decide) (by omega) with
    ⟨hnone, hrun⟩ | ⟨p, st₂, va₂, s₂, hsusp, B₂, hblk₂, hcall₂, C₂, hgo₂, hstop₂⟩
  · rw [hrun]
    refine B₁.fails_late hfrees Q₁ (by decide) (by decide) ?_
    rintro ⟨-, ⟨_, _, _, -, hp, -⟩, -⟩
    rw [hnone] at hp
    cases hp
  have Q₂ := Q₁.keep_mcu (by decide) hblk₂ C₂
  by_cases hst₂ : st₂ = .success
  case neg =>
    rw [hstop₂ hst₂]
    refine B₂.fails_late hfrees Q₂ (by decide) (by decide) ?_
    rintro ⟨-, ⟨q', p', t', hq', hp', -, hall⟩, -⟩
    obtain rfl := Option.some.inj (hq.symm.trans hq')
    obtain rfl := Option.some.inj (hsusp.symm.trans hp')
    rw [mapAll_some hcall, mapAll_none hcall₂ hst₂] at hall
    cases hall
  rw [hgo₂ hst₂]
  have P₂ := MappedBelow.new C₂ hst₂ hblk₂
  -- the buffer for protected mode
  have hdyn₂ := C₂.dyn
  rcases B₂.mcu_steps H (by decide) (by omega) with
    ⟨hnone, hrun⟩ | ⟨t, st₃, va₃, s₃, hprotm, B₃, hblk₃, hcall₃, C₃, hgo₃, hstop₃⟩
  · rw [hrun]
    refine B₂.fails_late hfrees Q₂ (by decide) (by decide) ?_
    rintro ⟨-, ⟨_, _, _, -, -, ht, -⟩, -⟩
    rw [hnone] at ht
    cases ht
  have Q₃ := Q₂.keep_mcu (by decide) hblk₃ C₃
  subst hst₂
  by_cases hst₃ : st₃ = .success
  case neg =>
    rw [hstop₃ hst₃]
    refine B₃.fails_late hfrees Q₃ (by decide) (by decide) ?_
    rintro ⟨-, ⟨q', p', t', hq', hp', ht', hall⟩, -⟩
    obtain rfl := Option.some.inj (hq.symm.trans hq')
    obtain rfl := Option.some.inj (hsusp.symm.trans hp')
    obtain rfl := Option.some.inj (hprotm.symm.trans ht')
    rw [mapAll_some hcall, mapAll_some hcall₂, mapAll_none hcall₃ hst₃] at hall
    cases hall
  rw [hgo₃ hst₃]
  have P₃ := P₂.keep_mcu (by decide) hblk₃ C₃
  have T₃ := MappedBelow.new C₃ hst₃ hblk₃
  subst hst₃
  -- the shader page
  rcases B₃.gpu_steps H (by decide) with ⟨hnone, hrun⟩ | ⟨b₄, s₄, hshader, B₄, hpt₄, hblk₄, hrun⟩
  · rw [hrun]
    refine B₃.fails_late hfrees Q₃ (by decide) (by decide) fun hb => ?_
    have := hb.1 .shader
    rw [hnone] at this
    cases this
  rw [hrun]
  have Q₄ := Q₃.keep_gpu (by decide) hpt₄ hblk₄
  by_cases hstart : env.start = .success
  case neg =>
    rw [attempt_fails rfl hstart]
    exact B₄.fails_late hfrees Q₄ (by decide) (by decide) fun hb => hstart hb.2.2
  have hboots : Boots s₀ env := by
    refine ⟨fun k => ?_, ⟨q, p, t, hq, hsusp, hprotm, ?_⟩, hstart⟩
    · cases k with
      | ring => exact hring
      | sync => exact hsync
      | shader => exact hshader
    · rw [mapAll_some hcall, mapAll_some hcall₂, mapAll_some hcall₃]
      rfl
  rw [attempt_success (show (env.start, s₄) = (.success, s₄) by rw [hstart])]
  refine ⟨iff_of_true (B₄.frees_iff.mpr hfrees) fun _ => hboots, fun _ => ?_, fun _ _ k b hb => ?_⟩
  · have G := B₄.good
    exact ⟨G.heap, G.apart, G.foreign, G.gpuLeaf, G.mcuLeaf⟩
  · have hmapped : MappedBelow s₄ k := by
      cases k with
      | queueIface => exact Q₄
      | suspend => exact P₃.keep_gpu (by decide) hpt₄ hblk₄
      | protm => exact T₃.keep_gpu (by decide) hpt₄ hblk₄
    obtain ⟨b', hb', hmaps⟩ := hmapped.maps
    obtain rfl := Option.some.inj (hb'.symm.trans hb)
    exact hmaps

theorem bootSteps_ends (B : Booting g s₀ env [.gpu .ring, .mcu .queueIface, .gpu .sync,
      .mcu .suspend, .mcu .protm, .gpu .shader] s₀)
    (H : HonestEnv g s₀ env) (hfrees : FreesUnmapped s₀)
    (hdyn : s₀.pt.mcuDynNextVa.toNat ≤ 2 ^ 33) (hvalid : s₀.csfIfaceValid = true) :
    Ends g (s₀.as0 = true → MapsQueueIface s₀ env → Boots s₀ env) (bootSteps env s₀).2 := by
  unfold bootSteps
  -- the ring
  rcases B.gpu_steps H (by decide) with ⟨hnone, hrun⟩ | ⟨b₁, s₁, hring, B₁, hpt₁, hblk₁, hrun⟩
  · rw [hrun]
    refine (B.fails hfrees (by decide)).congr ?_
    refine iff_of_true (fun _ k hk => absurd hk (by simp)) fun _ hmaps => ?_
    have := hmaps.2.2.1
    rw [hnone] at this
    cases this
  rw [hrun]
  -- the queue interface
  rcases B₁.mcu_steps H (by decide) (by rw [hpt₁]; omega) with
    ⟨hnone, hrun⟩ | ⟨q, st₂, va₂, s₂, hq, B₂, hblk₂, hcall₂, C₂, hgo₂, hstop₂⟩
  · rw [hrun]
    refine (B₁.fails hfrees (by decide)).congr ?_
    refine iff_of_true (fun _ k hk => absurd hk ?_) ?_
    · cases k <;> decide
    · rintro - ⟨-, -, -, q, hq, -⟩
      rw [hnone] at hq
      cases hq
  have hmaps : MapsQueueIface s₀ env ↔ (ptMap4k s₁.pt (firstVa s₁.pt) q pageAttrRwNx).1 =
      .success := by
    rw [hpt₁]
    constructor
    · rintro ⟨-, -, -, q', hq', hfirst⟩
      obtain rfl := Option.some.inj (hq.symm.trans hq')
      exact hfirst
    · exact fun hfirst => ⟨hvalid, B.bound, hring, q, hq, hfirst⟩
  by_cases hst₂ : st₂ = .success
  case neg =>
    rw [hstop₂ hst₂]
    have hboots : ¬Boots s₀ env := by
      rintro ⟨-, ⟨q', p', t', hq', -, -, hall⟩, -⟩
      obtain rfl := Option.some.inj (hq.symm.trans hq')
      rw [hpt₁] at hcall₂
      rw [mapAll_none hcall₂ hst₂] at hall
      cases hall
    refine (B₂.fails hfrees (by decide)).congr ?_
    have hb : s₂.blocks (.mcu .queueIface) = some ⟨q, s₀.pagesOf (.mcu .queueIface)⟩ := by
      rw [hblk₂, Function.update_self]
    constructor
    · intro hno has0 hm
      obtain ⟨x, hx, hold⟩ := C₂.first (hmaps.mp hm)
      exact absurd ⟨_, x, hx, hold⟩ (hno has0 .queueIface (by decide) _ hb)
    · rintro hno has0 k hk b hb' ⟨va, x, hx, hold⟩
      obtain rfl : k = .queueIface := by
        cases k with
        | queueIface => rfl
        | suspend => exact absurd hk (by decide)
        | protm => exact absurd hk (by decide)
      -- the table is as before, so that its leaves belong to older blocks
      rw [(C₂.stopped fun hfirst => hboots (hno has0 (hmaps.mpr hfirst))).2 va] at hx
      rw [← B₁.as0] at has0
      obtain ⟨h, b₀, hb₀, -, hold₀⟩ := B₁.good.mcuLeaf has0 va x hx
      have hne : h ≠ .mcu .queueIface := by
        rintro rfl
        rw [B₁.waiting _ List.mem_cons_self] at hb₀
        cases hb₀
      have hb₂ : s₂.blocks h = some b₀ := by rw [hblk₂, Function.update_of_ne hne, hb₀]
      exact B₂.good.apart h _ b₀ b hb₂ hb' hne x.1 ⟨hold₀, hold⟩
  rw [hgo₂ hst₂]
  have Q₂ := MappedBelow.new C₂ hst₂ hblk₂
  have hdyn₂ := C₂.dyn
  have hfirst : MapsQueueIface s₀ env := by
    rw [hmaps]
    by_contra hno
    exact (C₂.stopped hno).1 hst₂
  subst hst₂
  rw [hpt₁] at hcall₂ hdyn₂
  refine (bootRest_ends B₂ H hfrees Q₂ (by omega) hq hcall₂ hring).congr ?_
  exact ⟨fun h has0 _ => h has0, fun h has0 => h has0 hfirst⟩

end Boot

end WinMali.CsfBootstrap
