import WinMaliKmd.VmPageTableMap
import WinMaliKmd.VmTable

/-!
# What the page-table calls write

`VmMap` and `VmUnmap` seen through the record of leaf writes alone. A caller that
keeps books about frames needs no more of them than what is proved here.
-/

set_option autoImplicit false

namespace WinMali.VmLeafWrites
open WinMali.AsSlots WinMali.Lpae WinMali.RadixTree WinMali.VmPageTable WinMali.VmPageTableMap
  WinMali.VmTable

/-- Later leaf writes; each one that stores a frame satisfies `P`. -/
def Writes (P : ℕ → Word → Prop) (pt pt' : VmPt) : Prop :=
  ∃ es, pt'.trace = es ++ pt.trace ∧
    ∀ page pa attrs, Event.leaf page (some (pa, attrs)) ∈ es → P page pa

theorem lastLeaf_append {es rest : List Event} {page : ℕ} {v : Word × Word}
    (h : lastLeaf (es ++ rest) page = some v) :
    Event.leaf page (some v) ∈ es ∨ lastLeaf rest page = some v := by
  induction es with
  | nil => exact .inr h
  | cons e es ih =>
    cases e with
    | flush slot => exact (ih h).imp (List.mem_cons_of_mem _) id
    | leaf p value =>
      simp only [List.cons_append, lastLeaf] at h
      split at h
      · rename_i hp
        left
        rw [hp, h]
        exact List.mem_cons_self ..
      · exact (ih h).imp (List.mem_cons_of_mem _) id

section Writes

variable {P Q : ℕ → Word → Prop} {a b c : VmPt}

theorem Writes.rfl : Writes P a a := ⟨[], by simp, by simp⟩

theorem Writes.trans (h : Writes P a b) (h' : Writes P b c) : Writes P a c := by
  obtain ⟨es, ht, hP⟩ := h
  obtain ⟨es', ht', hP'⟩ := h'
  refine ⟨es' ++ es, by rw [ht', ht, List.append_assoc], ?_⟩
  intro page pa attrs hmem
  exact (List.mem_append.mp hmem).elim (hP' page pa attrs) (hP page pa attrs)

theorem Writes.mono (h : Writes P a b) (hPQ : ∀ page pa, P page pa → Q page pa) :
    Writes Q a b := by
  obtain ⟨es, ht, hP⟩ := h
  exact ⟨es, ht, fun page pa attrs hmem => hPQ page pa (hP page pa attrs hmem)⟩

theorem Writes.flush : Writes P a (asFlushMem a) :=
  ⟨[.flush a.asSlot], by simp [asFlushMem], by simp⟩

theorem Writes.last (h : Writes P a b) {page : ℕ} {pa attrs : Word}
    (hl : lastLeaf b.trace page = some (pa, attrs)) :
    P page pa ∨ lastLeaf a.trace page = some (pa, attrs) := by
  obtain ⟨es, ht, hP⟩ := h
  rw [ht] at hl
  exact (lastLeaf_append hl).imp (hP page pa attrs) id

end Writes

theorem pageOf_pageVa (gpuVa : Word) (k : ℕ) :
    pageOf (pageVa gpuVa k) = (gpuVa.toNat / 4096 + k) % 2 ^ 36 := by
  have h : (4096 : Word).toNat = 4096 := by decide
  simp only [pageOf, pageVa, BitVec.toNat_add, BitVec.toNat_mul, BitVec.toNat_ofNat, h]
  omega

theorem pageVa_injective {gpuVa : Word} {j k : ℕ} (hj : j < 2 ^ 36) (hk : k < 2 ^ 36)
    (h : pageOf (pageVa gpuVa j) = pageOf (pageVa gpuVa k)) : j = k := by
  rw [pageOf_pageVa, pageOf_pageVa] at h
  omega

variable {supply : ℕ → PtReply} {root : Word} {pt : VmPt}

def mapEvents (gpuVa : Word) (pfns : ℕ → Word) (attrs : Word) (n : ℕ) : List Event :=
  ((List.range n).map (mapEvent gpuVa pfns attrs)).reverse

theorem mem_mapEvents {gpuVa : Word} {pfns : ℕ → Word} {attrs : Word} {n page : ℕ}
    {v : Option (Word × Word)} (h : Event.leaf page v ∈ mapEvents gpuVa pfns attrs n) :
    ∃ k < n, page = pageOf (pageVa gpuVa k) ∧ v = some (pfns k <<< 12, attrs) := by
  obtain ⟨k, hk, he⟩ := List.mem_map.mp (List.mem_reverse.mp h)
  obtain ⟨rfl, rfl⟩ := Event.leaf.inj he
  exact ⟨k, List.mem_range.mp hk, rfl, rfl⟩

/-- In a range that does not wrap, every page keeps the frame written to it. -/
theorem lastLeaf_mapEvents {gpuVa : Word} {pfns : ℕ → Word} {attrs : Word} {n k : ℕ}
    (rest : List Event) (hn : n ≤ 2 ^ 36) (hk : k < n) :
    lastLeaf (mapEvents gpuVa pfns attrs n ++ rest) (pageOf (pageVa gpuVa k)) =
      some (pfns k <<< 12, attrs) := by
  induction n with
  | zero => omega
  | succ n ih =>
    have hstep : mapEvents gpuVa pfns attrs (n + 1) =
        mapEvent gpuVa pfns attrs n::mapEvents gpuVa pfns attrs n := by
      simp [mapEvents, List.range_succ]
    rw [hstep, List.cons_append, mapEvent, lastLeaf]
    by_cases h : k = n
    · rw [h, if_pos rfl]
    · have hne : ¬pageOf (pageVa gpuVa k) = pageOf (pageVa gpuVa n) :=
        fun hp => h (pageVa_injective (by omega) (by omega) hp)
      rw [if_neg hne]
      exact ih (by omega) (by omega)

/-- One number says what a map did: how many pages of the range were written. -/
theorem vmMap_spec (hs : Honest supply) (G : Good supply root pt) (a : Adapter) (gpuVa : Word)
    (pfns : ℕ → Word) (count : ℕ) (attrs : Word) (ha : ValidAttrs attrs)
    (hp : ∀ k, k < count → (pfns k).toNat < 2 ^ 36) :
    ∃ n ≤ count,
      (∀ page, lastLeaf (vmMap supply (some a) pt gpuVa (some pfns) count attrs).2.trace page =
        lastLeaf (mapEvents gpuVa pfns attrs n ++ pt.trace) page) ∧
      Writes (fun page pa => ∃ k < n, page = pageOf (pageVa gpuVa k) ∧ pa = pfns k <<< 12) pt
        (vmMap supply (some a) pt gpuVa (some pfns) count attrs).2 ∧
      ((vmMap supply (some a) pt gpuVa (some pfns) count attrs).1 = .success ↔ n = count) ∧
      ∀ k < count,
        ((vmMap supply (some a) pt gpuVa (some pfns) (k + 1) attrs).1 = .success ↔ k < n) := by
  simp only [vmMap, G.rootVa]
  by_cases h0 : count = 0
  · subst h0
    exact ⟨0, le_rfl, fun _ => rfl, Writes.rfl, by simp, by simp⟩
  by_cases hv : gpuVa &&& 0xFFF ≠ 0
  · simp only [if_neg h0, if_pos hv]
    refine ⟨0, by omega, fun _ => rfl, Writes.rfl, ?_, ?_⟩
    · simp only [reduceCtorEq, false_iff]
      omega
    · intro k _
      simp
  obtain ⟨st, pt', n, hrun, -, -, htrace, hn, hst, hpre⟩ :=
    mapLoop_spec hs G gpuVa pfns attrs ha 0 count (fun k hk => hp k (by omega))
  have htrace' : pt'.trace = mapEvents gpuVa pfns attrs n ++ pt.trace := by
    rw [htrace, mapEvents, List.range_eq_range']
  have hwrites : Writes (fun page pa => ∃ k < n, page = pageOf (pageVa gpuVa k) ∧
      pa = pfns k <<< 12) pt pt' := by
    refine ⟨_, htrace', ?_⟩
    intro page pa attrs' hmem
    obtain ⟨k, hk, hpage, hval⟩ := mem_mapEvents hmem
    exact ⟨k, hk, hpage, (Prod.ext_iff.mp (Option.some.inj hval)).1⟩
  simp only [if_neg h0, if_neg hv, hrun]
  refine ⟨n, hn, ?_, ?_, ?_, ?_⟩
  · intro page
    rw [← htrace']
    split <;> rfl
  · split
    · exact hwrites.trans Writes.flush
    · exact hwrites
  · rcases hst with ⟨rfl, h⟩ | ⟨rfl, h⟩
    · simp [h]
    · simp only [reduceCtorEq, false_iff]
      omega
  · intro k hk
    simp only [Nat.add_eq_zero_iff, one_ne_zero, and_false, if_false]
    exact hpre (k + 1) (by omega)

theorem unmapLoop_writes (hs : Honest supply) (G : Good supply root pt) (gpuVa : Word)
    (i left : ℕ) : Writes (fun _ _ => False) pt (vmUnmapLoop supply root gpuVa i left pt) := by
  obtain ⟨ks, -, -, -, htrace⟩ := unmapLoop_spec hs G gpuVa i left
  refine ⟨_, htrace, ?_⟩
  intro page pa attrs hmem
  obtain ⟨k, -, he⟩ := List.mem_map.mp (List.mem_reverse.mp hmem)
  simp [unmapEvent] at he

theorem vmUnmap_writes (hs : Honest supply) (G : Good supply root pt) (a : Adapter)
    (gpuVa : Word) (count : ℕ) :
    Writes (fun _ _ => False) pt (vmUnmap supply (some a) pt gpuVa count).2 := by
  simp only [vmUnmap, G.rootVa]
  split
  · exact Writes.rfl
  split
  · exact Writes.rfl
  have hwrites := unmapLoop_writes hs G gpuVa 0 count
  dsimp only
  split
  · exact hwrites.trans Writes.flush
  · exact hwrites

/-- A page that has a leaf is reached without an allocation. -/
theorem walk_known (G : Good supply root pt) {va : Word} {v : Word × Word}
    (h : lastLeaf pt.trace (pageOf va) = some v) :
    ∃ l3, ptWalkToLeaf supply pt root va = (.ok l3, pt) ∧
      follow next pt.mem root (path va) = some l3 := by
  have hw := (G.walk va).trans h
  simp only [hwWalk, Option.bind_eq_some_iff] at hw
  obtain ⟨l1, h1, l2, h2, l3, h3, -⟩ := hw
  have f1 : follow next pt.mem root [index va 39] = some l1 := by
    rw [follow, h1]
    rfl
  have f2 : follow next pt.mem root [index va 39, index va 30] = some l2 := by
    rw [follow, h1]
    change follow next pt.mem l1 [index va 30] = some l2
    rw [follow, h2]
    rfl
  have f3 : follow next pt.mem root (path va) = some l3 := by
    rw [path, follow, h1]
    change follow next pt.mem l1 [index va 30, index va 21] = some l3
    rw [follow, h2]
    change follow next pt.mem l2 [index va 21] = some l3
    rw [follow, h3]
    rfl
  refine ⟨l3, ?_, f3⟩
  have d1 : ptDescend supply pt root (index va 39) = (.ok l1, pt) :=
    descend_known G (p := []) (by simp) rfl h1
  have d2 : ptDescend supply pt l1 (index va 30) = (.ok l2, pt) :=
    descend_known G (by simp) f1 h2
  have d3 : ptDescend supply pt l2 (index va 21) = (.ok l3, pt) :=
    descend_known G (by simp) f2 h3
  simp only [ptWalkToLeaf, d1, d2, d3]

/-- A page that is cleared once stays clear. -/
theorem unmapLoop_stays (hs : Honest supply) (G : Good supply root pt) (gpuVa : Word)
    (i left : ℕ) {page : ℕ} (h : lastLeaf pt.trace page = none) :
    lastLeaf (vmUnmapLoop supply root gpuVa i left pt).trace page = none := by
  cases hl : lastLeaf (vmUnmapLoop supply root gpuVa i left pt).trace page with
  | none => rfl
  | some v =>
    have hold := ((unmapLoop_writes hs G gpuVa i left).last hl).resolve_left id
    rw [h] at hold
    cases hold

/-- No page of the range is left: a page that cannot be reached has no leaf. -/
theorem unmapLoop_clears (hs : Honest supply) (G : Good supply root pt) {gpuVa : Word}
    {i left k : ℕ} (hik : i ≤ k) (hk : k < i + left) :
    lastLeaf (vmUnmapLoop supply root gpuVa i left pt).trace (pageOf (pageVa gpuVa k)) = none := by
  induction left generalizing i pt with
  | zero => omega
  | succ left ih =>
    obtain ⟨reply, pt1, hw, G1, g1, ok1, -⟩ := walk_spec hs G (pageVa gpuVa i)
    simp only [vmUnmapLoop, hw]
    cases reply with
    | error st =>
      rcases Nat.eq_or_lt_of_le hik with rfl | hlt
      · refine unmapLoop_stays hs G1 gpuVa (i + 1) left ?_
        rw [g1.trace]
        cases hl : lastLeaf pt.trace (pageOf (pageVa gpuVa i)) with
        | none => rfl
        | some v =>
          obtain ⟨l3, hknown, -⟩ := walk_known G hl
          rw [hw] at hknown
          cases hknown
      · exact ih G1 hlt (by omega)
    | ok l3 =>
      have G2 := G1.setLeaf (ok1 l3 rfl) 0
      rw [leafOf_zero] at G2
      rcases Nat.eq_or_lt_of_le hik with rfl | hlt
      · refine unmapLoop_stays hs G2 gpuVa (i + 1) left ?_
        simp [setLeaf, lastLeaf]
      · exact ih G2 hlt (by omega)

theorem vmUnmap_clears (hs : Honest supply) (G : Good supply root pt) (a : Adapter)
    {gpuVa : Word} {count : ℕ} (hal : gpuVa &&& 0xFFF = 0) {k : ℕ} (hk : k < count) :
    lastLeaf (vmUnmap supply (some a) pt gpuVa count).2.trace (pageOf (pageVa gpuVa k)) = none := by
  have h : lastLeaf (vmUnmapLoop supply root gpuVa 0 count pt).trace
      (pageOf (pageVa gpuVa k)) = none := unmapLoop_clears hs G (Nat.zero_le k) (by omega)
  have hal' : ¬gpuVa &&& 0xFFF ≠ 0 := not_not.mpr hal
  have h0 : ¬count = 0 := by omega
  simp only [vmUnmap, G.rootVa, if_neg hal', if_neg h0]
  split <;> exact h

theorem vmMap_aligned (G : Good supply root pt) {a : Adapter} {gpuVa : Word} {pfns : ℕ → Word}
    {count : ℕ} {attrs : Word} (h0 : count ≠ 0)
    (h : (vmMap supply (some a) pt gpuVa (some pfns) count attrs).1 = .success) :
    gpuVa &&& 0xFFF = 0 := by
  by_contra hal
  have hal' : gpuVa &&& 0xFFF ≠ 0 := hal
  simp only [vmMap, G.rootVa, if_neg h0, if_pos hal', reduceCtorEq] at h

/-- The pages of a VM that the driver keeps for its own ring, sync and shader pages. -/
def CsfPage (page : ℕ) : Prop :=
  pageOf csfRingGpuVa ≤ page ∧ page < pageOf csfRingGpuVa + csfRingBytes / 4096 ∨
    page = pageOf csfSyncGpuVa ∨ page = pageOf csfShaderGpuVa

instance (page : ℕ) : Decidable (CsfPage page) := inferInstanceAs (Decidable (_ ∨ _))

structure PtSound (supply : ℕ → PtReply) (pt : VmPt) : Prop where
  honest : Honest supply
  good : ∃ root, Good supply root pt

def CsfBelow (c : CsfPages) : Prop :=
  c.ringPa.toNat + csfRingBytes ≤ 2 ^ 48 ∧ c.syncPa.toNat < 2 ^ 48 ∧ c.shaderPa.toNat < 2 ^ 48

/-- The driver's own frames: ring, sync page and shader page. -/
def csfFrames (c : CsfPages) : List Word :=
  (List.range (csfRingBytes / 4096)).map (fun i => (c.ringPa >>> 12) + BitVec.ofNat 64 i) ++
    [c.syncPa >>> 12, c.shaderPa >>> 12]

theorem csfFrames_below {c : CsfPages} (h : CsfBelow c) {f : Word} (hf : f ∈ csfFrames c) :
    f.toNat < 2 ^ 36 := by
  obtain ⟨hring, hsync, hshader⟩ := h
  have hpage : ∀ pa : Word, pa.toNat < 2 ^ 48 → (pa >>> 12).toNat < 2 ^ 36 := by
    intro pa h
    rw [BitVec.toNat_ushiftRight, Nat.shiftRight_eq_div_pow]
    omega
  rcases List.mem_append.mp hf with h | h
  · obtain ⟨k, hk, rfl⟩ := List.mem_map.mp h
    have hk := List.mem_range.mp hk
    rw [BitVec.toNat_add, BitVec.toNat_ushiftRight, Nat.shiftRight_eq_div_pow, BitVec.toNat_ofNat]
    unfold csfRingBytes at hk hring
    omega
  · simp only [List.mem_cons, List.not_mem_nil, or_false] at h
    rcases h with rfl | rfl
    · exact hpage _ hsync
    · exact hpage _ hshader

/-- What the cross mapping of the ring, sync and shader pages stores. -/
def CsfLeaf (c : CsfPages) (page : ℕ) (pa : Word) : Prop :=
  CsfPage page ∧ ∃ f ∈ csfFrames c, pa = f <<< 12

/-- A map of the driver's frames inside its own range is no business of a BO. -/
theorem csfMap_writes {supply : ℕ → PtReply} {pt : VmPt} (V : PtSound supply pt) (a : Adapter)
    {c : CsfPages} (hc : CsfBelow c) {gpuVa : Word} {pfns : ℕ → Word} {count : ℕ} {attrs : Word}
    (ha : ValidAttrs attrs) (hp : ∀ k, k < count → pfns k ∈ csfFrames c)
    (hcsf : ∀ k, k < count → CsfPage (pageOf (pageVa gpuVa k))) :
    PtSound supply (vmMap supply (some a) pt gpuVa (some pfns) count attrs).2 ∧
      Writes (CsfLeaf c) pt (vmMap supply (some a) pt gpuVa (some pfns) count attrs).2 := by
  have hframed : ∀ k, k < count → (pfns k).toNat < 2 ^ 36 :=
    fun k hk => csfFrames_below hc (hp k hk)
  obtain ⟨root, G⟩ := V.good
  refine ⟨⟨V.honest, root, (vmMap_good V.honest G (some a) gpuVa _ count attrs ha ?_).1⟩, ?_⟩
  · rintro f ⟨⟩
    exact hframed
  · obtain ⟨n, hn, -, hw, -⟩ := vmMap_spec V.honest G a gpuVa pfns count attrs ha hframed
    refine hw.mono ?_
    rintro page pa ⟨k, hk, rfl, rfl⟩
    exact ⟨hcsf k (by omega), pfns k, hp k (by omega), rfl⟩

theorem csfMapIntoVm_writes {supply : ℕ → PtReply} {pt : VmPt} (V : PtSound supply pt)
    (a : Adapter) {csf : Option CsfPages} (hb : ∀ c ∈ csf, CsfBelow c) :
    PtSound supply (csfMapIntoVm supply a csf pt).2 ∧
      Writes (fun page pa => ∃ c ∈ csf, CsfLeaf c page pa) pt (csfMapIntoVm supply a csf pt).2 := by
  cases csf with
  | none => exact ⟨V, Writes.rfl⟩
  | some c =>
    have hbelow := hb c rfl
    have hsome : ∀ page pa, CsfLeaf c page pa → ∃ c' ∈ some c, CsfLeaf c' page pa :=
      fun page pa h => ⟨c, rfl, h⟩
    have hrw : ValidAttrs pageAttrRwNx := by decide
    have hrx : ValidAttrs pageAttrRwEx := by decide
    have hringPfn : ∀ k, k < csfRingBytes / 4096 →
        (c.ringPa >>> 12) + BitVec.ofNat 64 k ∈ csfFrames c := by
      intro k hk
      exact List.mem_append_left _ (List.mem_map.mpr ⟨k, List.mem_range.mpr hk, rfl⟩)
    have hsyncPfn : ∀ k, k < 1 → (fun _ : ℕ => c.syncPa >>> 12) k ∈ csfFrames c :=
      fun _ _ => by simp [csfFrames]
    have hshaderPfn : ∀ k, k < 1 → (fun _ : ℕ => c.shaderPa >>> 12) k ∈ csfFrames c :=
      fun _ _ => by simp [csfFrames]
    have hringCsf : ∀ k, k < csfRingBytes / 4096 → CsfPage (pageOf (pageVa csfRingGpuVa k)) := by
      intro k hk
      left
      have h : csfRingGpuVa.toNat = 0x410000 := by decide
      rw [pageOf_pageVa, pageOf, h]
      unfold csfRingBytes at hk ⊢
      omega
    obtain ⟨V1, W1⟩ := csfMap_writes V a hbelow hrw hringPfn hringCsf
    have hsyncCsf : ∀ k, k < 1 → CsfPage (pageOf (pageVa csfSyncGpuVa k)) := by
      intro k hk
      obtain rfl : k = 0 := by omega
      decide
    have hshaderCsf : ∀ k, k < 1 → CsfPage (pageOf (pageVa csfShaderGpuVa k)) := by
      intro k hk
      obtain rfl : k = 0 := by omega
      decide
    unfold csfMapIntoVm
    dsimp only
    split
    · exact ⟨V1, W1.mono hsome⟩
    obtain ⟨V2, W2⟩ := csfMap_writes V1 a hbelow hrw hsyncPfn hsyncCsf
    split
    · exact ⟨V2, (W1.trans W2).mono hsome⟩
    obtain ⟨V3, W3⟩ := csfMap_writes V2 a hbelow hrx hshaderPfn hshaderCsf
    split <;> exact ⟨V3, ((W1.trans W2).trans W3).mono hsome⟩

end WinMali.VmLeafWrites
