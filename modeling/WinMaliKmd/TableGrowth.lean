import Mathlib.Data.Finset.Card
import WinMaliKmd.VmLeafWrites

/-!
# The tables that a walk adds

A descent through an empty entry asks the memory manager for a page. Which tables a
range lacks is known before the first page of it is walked, and so is the number of
requests that will be made for them.
-/

set_option autoImplicit false

namespace WinMali.TableGrowth
open WinMali.Lpae WinMali.RadixTree WinMali.VmPageTable WinMali.VmPageTableMap

/-- Both allocations behind a table page succeed. -/
def Granted (r : PtReply) : Prop := r.contiguous.isSome ∧ r.pool = true

instance (r : PtReply) : Decidable (Granted r) := inferInstanceAs (Decidable (_ ∧ _))

/-- A table is named by the indices that lead to it. -/
abbrev Path := List (Fin 512)

def Linked (pt : VmPt) (root : Word) (p : Path) : Prop := (follow next pt.mem root p).isSome

instance (pt : VmPt) (root : Word) (p : Path) : Decidable (Linked pt root p) :=
  inferInstanceAs (Decidable (_ = true))

/-- The tables of an address below the root. -/
def tables (va : Word) : Finset Path :=
  {[index va 39]} ∪ ({[index va 39, index va 30]} ∪ {path va})

def tablesOf (gpuVa : Word) : ℕ → ℕ → Finset Path
  | _, 0 => ∅
  | i, n + 1 => tables (pageVa gpuVa i) ∪ tablesOf gpuVa (i + 1) n

def lacking (pt : VmPt) (root : Word) (ps : Finset Path) : Finset Path :=
  ps.filter fun p => ¬Linked pt root p

/-- The memory manager grants every table that is lacking. -/
def Supplied (supply : ℕ → PtReply) (root : Word) (pt : VmPt) (ps : Finset Path) : Prop :=
  ∀ j < (lacking pt root ps).card, Granted (supply (pt.calls + j))

instance (supply : ℕ → PtReply) (root : Word) (pt : VmPt) (ps : Finset Path) :
    Decidable (Supplied supply root pt ps) := inferInstanceAs (Decidable (∀ _ < _, _))

/-- From `pt` to `pt'` the tables of `ps` were linked, with one request for each that lacked. -/
structure Grew (root : Word) (pt pt' : VmPt) (ps : Finset Path) : Prop where
  calls : pt'.calls = pt.calls + (lacking pt root ps).card
  linked : ∀ q : Path, q.length ≤ 3 → (Linked pt' root q ↔ Linked pt root q ∨ q ∈ ps)

/-- No path has changed, and no table was added. -/
structure Kept (root : Word) (pt pt' : VmPt) : Prop where
  follow : ∀ q : Path, q.length ≤ 3 → follow next pt'.mem root q = follow next pt.mem root q
  allocatedPages : pt'.allocatedPages = pt.allocatedPages

variable {supply : ℕ → PtReply} {root : Word} {pt pt' pt'' : VmPt} {ps qs : Finset Path}

theorem Kept.rfl : Kept root pt pt := ⟨fun _ _ => Eq.refl _, Eq.refl _⟩

theorem Kept.trans (h : Kept root pt pt') (h' : Kept root pt' pt'') : Kept root pt pt'' :=
  ⟨fun q hq => (h'.follow q hq).trans (h.follow q hq), h'.allocatedPages.trans h.allocatedPages⟩

theorem Kept.linked (h : Kept root pt pt') (q : Path) (hq : q.length ≤ 3) :
    Linked pt' root q ↔ Linked pt root q := by
  rw [Linked, Linked, h.follow q hq]

theorem lacking_union (h : Grew root pt pt' ps) (hq : ∀ q ∈ qs, q.length ≤ 3) :
    (lacking pt root (ps ∪ qs)).card = (lacking pt root ps).card + (lacking pt' root qs).card := by
  have hsplit : lacking pt root (ps ∪ qs) = lacking pt root ps ∪ lacking pt' root qs := by
    ext q
    simp only [lacking, Finset.mem_filter, Finset.mem_union]
    constructor
    · rintro ⟨hq', hno⟩
      by_cases hp : q ∈ ps
      · exact .inl ⟨hp, hno⟩
      · have hmem := hq'.resolve_left hp
        refine .inr ⟨hmem, fun hlink => ?_⟩
        exact ((h.linked q (hq q hmem)).mp hlink).elim hno hp
    · rintro (⟨hp, hno⟩ | ⟨hmem, hno⟩)
      · exact ⟨.inl hp, hno⟩
      · exact ⟨.inr hmem, fun hlink => hno ((h.linked q (hq q hmem)).mpr (.inl hlink))⟩
  rw [hsplit]
  apply Finset.card_union_of_disjoint
  rw [Finset.disjoint_left]
  intro q hp hmem
  have hp := Finset.mem_filter.mp hp
  have hmem := Finset.mem_filter.mp hmem
  exact hmem.2 ((h.linked q (hq q hmem.1)).mpr (.inr hp.1))

theorem Grew.trans (h : Grew root pt pt' ps) (h' : Grew root pt' pt'' qs)
    (hq : ∀ q ∈ qs, q.length ≤ 3) : Grew root pt pt'' (ps ∪ qs) := by
  constructor
  · rw [h'.calls, h.calls, lacking_union h hq, Nat.add_assoc]
  · intro q hlen
    rw [h'.linked q hlen, h.linked q hlen, Finset.mem_union, or_assoc]

/-- The replies for some tables, then the replies for the ones that are still lacking. -/
theorem supplied_union (h : Grew root pt pt' ps) (hq : ∀ q ∈ qs, q.length ≤ 3) :
    Supplied supply root pt (ps ∪ qs) ↔
      Supplied supply root pt ps ∧ Supplied supply root pt' qs := by
  unfold Supplied
  rw [lacking_union h hq]
  constructor
  · intro hall
    refine ⟨fun j hj => hall j (by omega), fun j hj => ?_⟩
    rw [h.calls, Nat.add_assoc]
    exact hall _ (by omega)
  · rintro ⟨hp, hrest⟩ j hj
    by_cases hlt : j < (lacking pt root ps).card
    · exact hp j hlt
    · have hj' := hrest (j - (lacking pt root ps).card) (by omega)
      rw [h.calls, Nat.add_assoc] at hj'
      rwa [Nat.add_sub_cancel' (by omega)] at hj'

theorem supplied_left (h : Supplied supply root pt (ps ∪ qs)) : Supplied supply root pt ps := by
  have hle : (lacking pt root ps).card ≤ (lacking pt root (ps ∪ qs)).card :=
    Finset.card_le_card (Finset.filter_subset_filter _ Finset.subset_union_left)
  exact fun j hj => h j (by omega)

theorem lacking_linked {p : Path} (h : Linked pt root p) : lacking pt root {p} = ∅ := by
  simp [lacking, Finset.filter_singleton, h]

theorem lacking_single {p : Path} (h : ¬Linked pt root p) : lacking pt root {p} = {p} := by
  simp [lacking, Finset.filter_singleton, h]

theorem supplied_single {p : Path} (h : ¬Linked pt root p) :
    Supplied supply root pt {p} ↔ Granted (supply pt.calls) := by
  unfold Supplied
  rw [lacking_single h, Finset.card_singleton]
  constructor
  · exact fun hall => hall 0 (by omega)
  · intro hg j hj
    obtain rfl : j = 0 := by omega
    exact hg

section Descend

variable {p : Path} {l : Word} {i : Fin 512}

theorem alloc_refused (hs : Honest supply) (G : Good supply root pt)
    (hr : ¬Granted (supply pt.calls)) :
    ∃ pt', ptAllocPage supply pt = (none, pt') ∧ Good supply root pt' ∧ Kept root pt pt' ∧
      Grown pt pt' ∧ pt'.calls = pt.calls + 1 := by
  obtain ⟨reply, pt', ha, G', g, hpages, hkeep, -⟩ := allocPage_spec hs G
  have hfollow : ∀ q : Path, q.length ≤ 3 →
      follow next pt'.mem root q = follow next pt.mem root q :=
    fun q hq => G.tree.follow_agree (fun n hn j => congrFun (hkeep n hn) j) q hq
  have hreply : reply = none ∧ pt'.calls = pt.calls + 1 := by
    unfold ptAllocPage at ha
    unfold Granted at hr
    cases hc : (supply pt.calls).contiguous with
    | none =>
      simp only [hc, Prod.mk.injEq] at ha
      exact ⟨ha.1.symm, ha.2 ▸ rfl⟩
    | some pa =>
      have hp : (supply pt.calls).pool = false := by simpa [hc] using hr
      simp only [hc, hp, Bool.false_eq_true, if_false, Prod.mk.injEq] at ha
      exact ⟨ha.1.symm, ha.2 ▸ rfl⟩
  obtain ⟨rfl, hcalls⟩ := hreply
  exact ⟨pt', ha, G', ⟨hfollow, hpages⟩, g, hcalls⟩

/-- What an empty entry does to a descent, with a page for it and without. -/
theorem descend_absent (hs : Honest supply) (G : Good supply root pt) (hp : p.length < 3)
    (hf : follow next pt.mem root p = some l) (hno : ¬Linked pt root (p ++ [i])) :
    (Granted (supply pt.calls) → ∃ k pt', ptDescend supply pt l i = (.ok k, pt') ∧
      Good supply root pt' ∧ Grew root pt pt' {p ++ [i]} ∧
      follow next pt'.mem root (p ++ [i]) = some k ∧
      pt'.allocatedPages = pt.allocatedPages ++ [k]) ∧
    (¬Granted (supply pt.calls) → ∃ pt', ptDescend supply pt l i =
      (.error .insufficientResources, pt') ∧ Good supply root pt' ∧ Kept root pt pt' ∧
      Grown pt pt' ∧ pt'.calls = pt.calls + 1) := by
  have he : next (pt.mem l i) = none := by
    unfold Linked at hno
    rw [follow_snoc, hf] at hno
    simpa using hno
  have hd : ¬pt.mem l i &&& 3 = tableDesc := by
    intro h
    rw [next, if_pos h] at he
    cases he
  constructor
  · rintro ⟨hc, hpool⟩
    obtain ⟨pa, hpa⟩ := Option.isSome_iff_exists.mp hc
    obtain ⟨reply, pt', ha, G', g, hpages, hkeep, hblank⟩ := allocPage_spec hs G
    have hreply : reply = some pa ∧ pt'.calls = pt.calls + 1 := by
      unfold ptAllocPage at ha
      simp only [hpa, hpool, if_true, Prod.mk.injEq] at ha
      exact ⟨ha.1.symm, ha.2 ▸ rfl⟩
    obtain ⟨rfl, hcalls⟩ := hreply
    have hfollow : ∀ q : Path, q.length ≤ 3 →
        follow next pt'.mem root q = follow next pt.mem root q :=
      fun q hq => G.tree.follow_agree (fun n hn j => congrFun (hkeep n hn) j) q hq
    have hf' : follow next pt'.mem root p = some l := (hfollow p (by omega)).trans hf
    have he' : next (pt'.mem l i) = none := by
      rw [hkeep l (G.tree.owned p l (by omega) hf)]
      exact he
    have B := hblank pa rfl
    obtain ⟨G'', hlast⟩ := G'.link hp hf' he' B
    refine ⟨pa, _, by simp only [ptDescend, if_neg hd, ha], G'', ⟨?_, ?_⟩, hlast, ?_⟩
    · rw [lacking_single hno]
      exact hcalls
    · intro q hq
      have hlink := G'.tree.link_follow hp hf' he' B.free
        (fun j => by rw [B.zero j, next_zero]) (next_link pa B.framed) q hq
      unfold Linked
      rw [Finset.mem_singleton, hlink, ← hfollow q hq]
      by_cases h : q = p ++ [i] <;> simp [h]
    · change pt'.allocatedPages ++ [pa] = pt.allocatedPages ++ [pa]
      rw [hpages]
  · intro hr
    obtain ⟨pt', ha, G', K, g, hcalls⟩ := alloc_refused hs G hr
    exact ⟨pt', by simp only [ptDescend, if_neg hd, ha], G', K, g, hcalls⟩

theorem descend_linked (G : Good supply root pt) (hp : p.length < 3)
    (hf : follow next pt.mem root p = some l) (hlink : Linked pt root (p ++ [i])) :
    ∃ k, ptDescend supply pt l i = (.ok k, pt) ∧ follow next pt.mem root (p ++ [i]) = some k := by
  obtain ⟨k, hk⟩ := Option.isSome_iff_exists.mp hlink
  have hn : next (pt.mem l i) = some k := by
    rw [follow_snoc, hf] at hk
    exact hk
  exact ⟨k, descend_known G hp hf hn, hk⟩

theorem Grew.same {p : Path} (h : Linked pt root p) : Grew root pt pt {p} := by
  refine ⟨by simp [lacking_linked h], fun q _ => ?_⟩
  rw [Finset.mem_singleton]
  exact ⟨.inl, fun hq => hq.elim id fun hq => hq ▸ h⟩

/-- A descent succeeds exactly when its table is there or is granted. -/
theorem descend_supplied (hs : Honest supply) (G : Good supply root pt) (hp : p.length < 3)
    (hf : follow next pt.mem root p = some l) (i : Fin 512) :
    (Supplied supply root pt {p ++ [i]} ∧ ∃ k pt', ptDescend supply pt l i = (.ok k, pt') ∧
      Good supply root pt' ∧ Grew root pt pt' {p ++ [i]} ∧
      follow next pt'.mem root (p ++ [i]) = some k) ∨
    (¬Supplied supply root pt {p ++ [i]} ∧ ∃ pt', ptDescend supply pt l i =
      (.error .insufficientResources, pt')) := by
  by_cases hlink : Linked pt root (p ++ [i])
  · obtain ⟨k, hd, hk⟩ := descend_linked G hp hf hlink
    refine .inl ⟨?_, k, pt, hd, G, Grew.same hlink, hk⟩
    intro j hj
    simp [lacking_linked hlink] at hj
  · obtain ⟨hyes, hno⟩ := descend_absent hs G hp hf hlink
    rw [supplied_single hlink]
    by_cases hg : Granted (supply pt.calls)
    · obtain ⟨k, pt', hd, G', hgrew, hk, -⟩ := hyes hg
      exact .inl ⟨hg, k, pt', hd, G', hgrew, hk⟩
    · obtain ⟨pt', hd, -⟩ := hno hg
      exact .inr ⟨hg, pt', hd⟩

end Descend

theorem walk_supplied (hs : Honest supply) (G : Good supply root pt) (va : Word) :
    (Supplied supply root pt (tables va) ∧ ∃ l3 pt', ptWalkToLeaf supply pt root va =
      (.ok l3, pt') ∧ Good supply root pt' ∧ Grew root pt pt' (tables va) ∧
      follow next pt'.mem root (path va) = some l3) ∨
    (¬Supplied supply root pt (tables va) ∧ ∃ pt', ptWalkToLeaf supply pt root va =
      (.error .insufficientResources, pt')) := by
  have hlen : ∀ q ∈ ({[index va 39, index va 30]} ∪ {path va} : Finset Path), q.length ≤ 3 := by
    simp [path]
  have hlen3 : ∀ q ∈ ({path va} : Finset Path), q.length ≤ 3 := by simp [path]
  rcases descend_supplied hs G (p := []) (by simp) rfl (index va 39) with
    ⟨h0, l1, pt0, hd0, G0, g0, hf0⟩ | ⟨h0, pt0, hd0⟩
  · rcases descend_supplied hs G0 (by simp) hf0 (index va 30) with
      ⟨h1, l2, pt1, hd1, G1, g1, hf1⟩ | ⟨h1, pt1, hd1⟩
    · rcases descend_supplied hs G1 (by simp) hf1 (index va 21) with
        ⟨h2, l3, pt2, hd2, G2, g2, hf2⟩ | ⟨h2, pt2, hd2⟩
      · left
        have g12 := g1.trans g2 hlen3
        refine ⟨(supplied_union g0 hlen).mpr ⟨h0, (supplied_union g1 hlen3).mpr ⟨h1, h2⟩⟩, l3, pt2,
          by simp only [ptWalkToLeaf, hd0, hd1, hd2], G2, g0.trans g12 hlen, hf2⟩
      · right
        refine ⟨fun h => h2 ?_, pt2, by simp only [ptWalkToLeaf, hd0, hd1, hd2]⟩
        exact ((supplied_union g1 hlen3).mp ((supplied_union g0 hlen).mp h).2).2
    · right
      refine ⟨fun h => h1 ?_, pt1, by simp only [ptWalkToLeaf, hd0, hd1]⟩
      exact supplied_left ((supplied_union g0 hlen).mp h).2
  · exact .inr ⟨fun h => h0 (supplied_left h), pt0, by simp only [ptWalkToLeaf, hd0]⟩

theorem mem_tables {va : Word} {q : Path} (h : q ∈ tables va) : q.length ≤ 3 := by
  simp only [tables, Finset.mem_union, Finset.mem_singleton] at h
  rcases h with rfl | rfl | rfl <;> simp [path]

theorem mem_tablesOf {gpuVa : Word} {i n : ℕ} {q : Path} (h : q ∈ tablesOf gpuVa i n) :
    q.length ≤ 3 := by
  induction n generalizing i with
  | zero => cases h
  | succ n ih =>
    rcases Finset.mem_union.mp h with h | h
    · exact mem_tables h
    · exact ih h

theorem Grew.setLeaf (h : Grew root pt pt' ps) (G : Good supply root pt') {va l3 w : Word}
    (hf : follow next pt'.mem root (path va) = some l3) (value : Option (Word × Word)) :
    Grew root pt (setLeaf pt' l3 va w value) ps := by
  refine ⟨h.calls, fun q hq => ?_⟩
  rw [← h.linked q hq]
  unfold Linked
  rw [← G.tree.leaf_follow rfl hf (index va 12) w q hq]
  rfl

/-- A map succeeds exactly when every table that its range lacks is granted. -/
theorem mapLoop_supplied (hs : Honest supply) (G : Good supply root pt) (gpuVa : Word)
    (pfns : ℕ → Word) (attrs : Word) (ha : ValidAttrs attrs) (i n : ℕ)
    (hp : ∀ k, k < i + n → (pfns k).toNat < 2 ^ 36) :
    (vmMapLoop supply root gpuVa pfns attrs i n pt).1 = .success ↔
      Supplied supply root pt (tablesOf gpuVa i n) := by
  induction n generalizing i pt with
  | zero =>
    refine ⟨fun _ j hj => ?_, fun _ => rfl⟩
    simp [lacking, tablesOf] at hj
  | succ n ih =>
    rcases walk_supplied hs G (pageVa gpuVa i) with
      ⟨hsup, l3, pt1, hw, G1, g1, hf⟩ | ⟨hsup, pt1, hw⟩
    · have hleaf := leafOf_page (pfns i <<< 12) attrs ha
      have hpfn : Framed (pfns i <<< 12) := framed_of_pfn _ (hp i (by omega))
      have G2 := G1.setLeaf hf ((pfns i <<< 12 &&& paMask) ||| attrs)
      rw [hleaf, hpfn.eq] at G2
      have g2 := g1.setLeaf G1 hf (w := (pfns i <<< 12) ||| attrs) (some (pfns i <<< 12, attrs))
      simp only [vmMapLoop, hw, hpfn.eq, tablesOf]
      rw [ih G2 (i + 1) fun k hk => hp k (by omega), supplied_union g2 fun q => mem_tablesOf]
      exact ⟨fun h => ⟨hsup, h⟩, fun h => h.2⟩
    · simp only [vmMapLoop, hw, reduceCtorEq, false_iff, tablesOf]
      exact fun h => hsup (supplied_left h)

end WinMali.TableGrowth
