import Mathlib.Tactic.NormNum
import WinMaliKmd.VmPageTable

/-!
# A per-VM page table refines a map

The abstract view of a page table is the last leaf write to each page. The
invariant ties it to the words in memory: the tables form a tree of owned
pages, later allocations are fresh, and the hardware walk answers the map.
-/

set_option autoImplicit false

namespace WinMali.VmPageTableMap
open WinMali.AsSlots WinMali.Lpae WinMali.RadixTree WinMali.VmPageTable

/-- What the memory manager promises: aligned pages in 48 bits, and a page that was
handed out and kept is not handed out again. -/
structure Honest (supply : ℕ → PtReply) : Prop where
  aligned : ∀ k pa, (supply k).contiguous = some pa → pa.toNat % 4096 = 0
  below : ∀ k pa, (supply k).contiguous = some pa → pa.toNat < 2 ^ 48
  distinct : ∀ j k pa, j < k → (supply j).contiguous = some pa → (supply j).pool = true →
    (supply k).contiguous ≠ some pa

def path (va : Word) : List (Fin 512) := [index va 39, index va 30, index va 21]

theorem hwWalk_translate (mem : Word → Fin 512 → Word) (root va : Word) :
    hwWalk mem root va = translate next leafOf mem root (path va) (index va 12) := by
  simp [hwWalk, RadixTree.translate, path, follow, Option.bind_assoc]

theorem index_val (va : Word) (s : ℕ) : (index va s).val = va.toNat / 2 ^ s % 512 := by
  have h : (0x1FF : Word).toNat = 2 ^ 9 - 1 := by decide
  rw [index, Fin.ofNat, BitVec.toNat_and, h, Nat.and_two_pow_sub_one_eq_mod,
    BitVec.toNat_ushiftRight, Nat.shiftRight_eq_div_pow]
  exact Nat.mod_mod _ _

/-- The four indices together are the page number. -/
theorem position_iff (va va' : Word) :
    path va = path va' ∧ index va 12 = index va' 12 ↔ pageOf va = pageOf va' := by
  simp only [path, List.cons.injEq, and_true, Fin.ext_iff, index_val, pageOf]
  norm_num
  omega

structure Good (supply : ℕ → PtReply) (root : Word) (pt : VmPt) : Prop where
  rootVa : pt.rootVa = some root
  tree : Tree next pt.mem root 3 pt.allocatedPages
  framed : ∀ n ∈ pt.allocatedPages, Framed n
  fresh : ∀ k pa, pt.calls ≤ k → (supply k).contiguous = some pa → pa ∉ pt.allocatedPages
  walk : ∀ va, hwWalk pt.mem root va = lastLeaf pt.trace (pageOf va)

/-- `pt'` differs from `pt` in its table pages only. -/
structure Grown (pt pt' : VmPt) : Prop where
  asSlot : pt'.asSlot = pt.asSlot
  trace : pt'.trace = pt.trace

theorem Grown.rfl {pt : VmPt} : Grown pt pt := ⟨Eq.refl _, Eq.refl _⟩

theorem Grown.trans {a b c : VmPt} (h : Grown a b) (h' : Grown b c) : Grown a c :=
  ⟨h'.asSlot.trans h.asSlot, h'.trace.trans h.trace⟩

variable {supply : ℕ → PtReply} {root : Word} {pt : VmPt}

theorem Good.call (G : Good supply root pt) : Good supply root { pt with calls := pt.calls + 1 } :=
  ⟨G.rootVa, G.tree, G.framed, fun k pa hk => G.fresh k pa (by simp at hk; omega), G.walk⟩

theorem Good.zero (G : Good supply root pt) (pa : Word) (hpa : pa ∉ pt.allocatedPages) :
    Good supply root { pt with mem := zeroPage pt.mem pa } := by
  have ha : ∀ n ∈ pt.allocatedPages, ∀ i, zeroPage pt.mem pa n i = pt.mem n i := by
    intro n hn i
    have hne : n ≠ pa := fun h => hpa (h ▸ hn)
    simp [zeroPage, hne]
  refine ⟨G.rootVa, G.tree.agree ha, G.framed, G.fresh, ?_⟩
  intro va
  rw [← G.walk va, hwWalk_translate, hwWalk_translate]
  exact G.tree.translate_agree ha (path va) (index va 12) (by simp [path])

/-- A table page that was allocated but is not linked yet. -/
structure Blank (supply : ℕ → PtReply) (pt : VmPt) (pa : Word) : Prop where
  free : pa ∉ pt.allocatedPages
  framed : Framed pa
  zero : ∀ i, pt.mem pa i = 0
  kept : ∀ k, pt.calls ≤ k → (supply k).contiguous ≠ some pa

theorem allocPage_spec (hs : Honest supply) (G : Good supply root pt) :
    ∃ reply pt', ptAllocPage supply pt = (reply, pt') ∧ Good supply root pt' ∧ Grown pt pt' ∧
      pt'.allocatedPages = pt.allocatedPages ∧
      (∀ l ∈ pt.allocatedPages, pt'.mem l = pt.mem l) ∧
      ∀ pa, reply = some pa → Blank supply pt' pa := by
  cases hc : (supply pt.calls).contiguous with
  | none =>
    refine ⟨none, _, ?_, G.call, ⟨rfl, rfl⟩, rfl, fun _ _ => rfl, by simp⟩
    simp [ptAllocPage, hc]
  | some pa =>
    have hfree : pa ∉ pt.allocatedPages := G.fresh pt.calls pa le_rfl hc
    have hkeep : ∀ l ∈ pt.allocatedPages, zeroPage pt.mem pa l = pt.mem l := by
      intro l hl
      have hne : l ≠ pa := fun h => hfree (h ▸ hl)
      funext i
      simp [zeroPage, hne]
    cases hp : (supply pt.calls).pool with
    | false =>
      refine ⟨none, _, ?_, G.call.zero pa hfree, ⟨rfl, rfl⟩, rfl, hkeep, by simp⟩
      simp [ptAllocPage, hc, hp]
    | true =>
      refine ⟨some pa, _, ?_, G.call.zero pa hfree, ⟨rfl, rfl⟩, rfl, hkeep, ?_⟩
      · simp [ptAllocPage, hc, hp]
      · rintro q ⟨⟩
        refine ⟨hfree, framed_of_page pa (hs.aligned _ _ hc) (hs.below _ _ hc), ?_, ?_⟩
        · intro i
          simp [zeroPage]
        · intro k hk
          exact hs.distinct pt.calls k pa hk hc hp

/-- Linking a blank page below `l[i]`. -/
theorem Good.link (G : Good supply root pt) {p : List (Fin 512)} {l pa : Word} {i : Fin 512}
    (hp : p.length < 3) (hf : follow next pt.mem root p = some l) (he : next (pt.mem l i) = none)
    (B : Blank supply pt pa) :
    let pt' := { pt with
      allocatedPages := pt.allocatedPages ++ [pa]
      mem := write pt.mem l i ((pa &&& paMask) ||| tableDesc) }
    Good supply root pt' ∧ follow next pt'.mem root (p ++ [i]) = some pa := by
  have hlink := next_link pa B.framed
  have hblank : ∀ j, next (pt.mem pa j) = none := fun j => by rw [B.zero j, next_zero]
  have hleaf : ∀ j, leafOf (pt.mem pa j) = none := fun j => by rw [B.zero j, leafOf_zero]
  have T := G.tree
  refine ⟨⟨G.rootVa, T.link_tree hp hf he B.free hblank hlink, ?_, ?_, ?_⟩, ?_⟩
  · intro n hn
    rcases List.mem_append.mp hn with h | h
    · exact G.framed n h
    · exact List.mem_singleton.mp h ▸ B.framed
  · intro k q hk hq hmem
    rcases List.mem_append.mp hmem with h | h
    · exact G.fresh k q hk hq h
    · exact B.kept k hk (List.mem_singleton.mp h ▸ hq)
  · intro va
    rw [← G.walk va, hwWalk_translate, hwWalk_translate]
    exact T.link_translate hp hf he B.free hblank hleaf hlink (path va) (index va 12) rfl
  · exact (T.link_follow hp hf he B.free hblank hlink (p ++ [i]) (by simp; omega)).trans
      (if_pos rfl)

/-- A known table is found again without an allocation. -/
theorem descend_known (G : Good supply root pt) {p : List (Fin 512)} {l k : Word}
    (hp : p.length < 3) (hf : follow next pt.mem root p = some l) {i : Fin 512}
    (hn : next (pt.mem l i) = some k) : ptDescend supply pt l i = (.ok k, pt) := by
  have hmem : k ∈ pt.allocatedPages := by
    refine G.tree.owned (p ++ [i]) k (by simp; omega) ?_
    rw [follow_snoc, hf]
    exact hn
  unfold next at hn
  split at hn
  · rename_i hd
    obtain rfl := Option.some.inj hn
    have hfind : pt.allocatedPages.find? (fun pa => pa == pt.mem l i &&& paMask) =
        some (pt.mem l i &&& paMask) := by
      cases h : pt.allocatedPages.find? (fun pa => pa == pt.mem l i &&& paMask) with
      | none => simpa using List.find?_eq_none.mp h _ hmem
      | some q => simpa using List.find?_some h
    simp only [ptDescend, if_pos hd, hfind]
  · cases hn

theorem descend_spec (hs : Honest supply) (G : Good supply root pt) {p : List (Fin 512)}
    {l : Word} (hp : p.length < 3) (hf : follow next pt.mem root p = some l) (i : Fin 512) :
    ∃ reply pt', ptDescend supply pt l i = (reply, pt') ∧ Good supply root pt' ∧ Grown pt pt' ∧
      (∀ k, reply = .ok k → follow next pt'.mem root (p ++ [i]) = some k) ∧
      ∀ st, reply = .error st → st = .insufficientResources := by
  cases he : next (pt.mem l i) with
  | some q =>
    refine ⟨.ok q, pt, descend_known G hp hf he, G, Grown.rfl, ?_, by simp⟩
    rintro k ⟨⟩
    rw [follow_snoc, hf]
    exact he
  | none =>
    have hd : ¬pt.mem l i &&& 3 = tableDesc := by
      intro h
      rw [next, if_pos h] at he
      cases he
    have hl : l ∈ pt.allocatedPages := G.tree.owned p l (by omega) hf
    obtain ⟨reply, pt', ha, G', g, -, hkeep, hblank⟩ := allocPage_spec hs G
    cases reply with
    | none =>
      refine ⟨.error .insufficientResources, pt', ?_, G', g, by simp, ?_⟩
      · simp only [ptDescend, if_neg hd, ha]
      · rintro st ⟨⟩
        rfl
    | some pa =>
      have hf' : follow next pt'.mem root p = some l := by
        rw [← hf]
        exact G.tree.follow_agree (fun n hn j => congrFun (hkeep n hn) j) p (by omega)
      have he' : next (pt'.mem l i) = none := by
        rw [hkeep l hl]
        exact he
      obtain ⟨G'', hlast⟩ := G'.link hp hf' he' (hblank pa rfl)
      refine ⟨.ok pa, _, by simp only [ptDescend, if_neg hd, ha], G'', ⟨g.asSlot, g.trace⟩, ?_,
        by simp⟩
      rintro k ⟨⟩
      exact hlast

theorem walk_spec (hs : Honest supply) (G : Good supply root pt) (va : Word) :
    ∃ reply pt', ptWalkToLeaf supply pt root va = (reply, pt') ∧ Good supply root pt' ∧
      Grown pt pt' ∧ (∀ l3, reply = .ok l3 → follow next pt'.mem root (path va) = some l3) ∧
      ∀ st, reply = .error st → st = .insufficientResources := by
  obtain ⟨r0, pt0, h0, G0, g0, ok0, er0⟩ :=
    descend_spec hs G (p := []) (by simp) rfl (index va 39)
  cases r0 with
  | error st =>
    exact ⟨.error st, pt0, by simp only [ptWalkToLeaf, h0], G0, g0, by simp, er0⟩
  | ok l1 =>
    obtain ⟨r1, pt1, h1, G1, g1, ok1, er1⟩ :=
      descend_spec hs G0 (by simp) (ok0 l1 rfl) (index va 30)
    cases r1 with
    | error st =>
      exact ⟨.error st, pt1, by simp only [ptWalkToLeaf, h0, h1], G1, g0.trans g1, by simp, er1⟩
    | ok l2 =>
      obtain ⟨r2, pt2, h2, G2, g2, ok2, er2⟩ :=
        descend_spec hs G1 (by simp) (ok1 l2 rfl) (index va 21)
      exact ⟨r2, pt2, by simp only [ptWalkToLeaf, h0, h1, h2], G2, (g0.trans g1).trans g2, ok2, er2⟩

theorem Good.setLeaf (G : Good supply root pt) {va l3 : Word}
    (hf : follow next pt.mem root (path va) = some l3) (w : Word) :
    Good supply root (setLeaf pt l3 va w (leafOf w)) := by
  refine ⟨G.rootVa, G.tree.leaf_tree rfl hf (index va 12) w, G.framed, G.fresh, ?_⟩
  intro va'
  have h := G.walk va'
  rw [hwWalk_translate] at h ⊢
  change translate next leafOf (write pt.mem l3 (index va 12) w) root _ _ =
    if pageOf va' = pageOf va then leafOf w else lastLeaf pt.trace (pageOf va')
  rw [G.tree.leaf_translate rfl hf (index va 12) w (path va') (index va' 12) rfl, h]
  simp only [position_iff]

def mapEvent (gpuVa : Word) (pfns : ℕ → Word) (attrs : Word) (k : ℕ) : Event :=
  .leaf (pageOf (pageVa gpuVa k)) (some (pfns k <<< 12, attrs))

def unmapEvent (gpuVa : Word) (k : ℕ) : Event := .leaf (pageOf (pageVa gpuVa k)) none

/-- The loop writes a prefix of the range, all of it exactly when it succeeds, and a
shorter range succeeds exactly within that prefix. -/
theorem mapLoop_spec (hs : Honest supply) (G : Good supply root pt) (gpuVa : Word)
    (pfns : ℕ → Word) (attrs : Word) (ha : ValidAttrs attrs) (i left : ℕ)
    (hp : ∀ k, k < i + left → (pfns k).toNat < 2 ^ 36) :
    ∃ st pt' n, vmMapLoop supply root gpuVa pfns attrs i left pt = (st, pt') ∧
      Good supply root pt' ∧ pt'.asSlot = pt.asSlot ∧
      pt'.trace = ((List.range' i n).map (mapEvent gpuVa pfns attrs)).reverse ++ pt.trace ∧
      n ≤ left ∧ (st = .success ∧ n = left ∨ st = .insufficientResources ∧ n < left) ∧
      ∀ k, k ≤ left →
        ((vmMapLoop supply root gpuVa pfns attrs i k pt).1 = .success ↔ k ≤ n) := by
  induction left generalizing i pt with
  | zero =>
    refine ⟨.success, pt, 0, rfl, G, rfl, by simp, le_rfl, .inl ⟨rfl, rfl⟩, ?_⟩
    intro k hk
    obtain rfl : k = 0 := by omega
    simp [vmMapLoop]
  | succ left ih =>
    obtain ⟨reply, pt1, hw, G1, g1, ok1, er1⟩ := walk_spec hs G (pageVa gpuVa i)
    cases reply with
    | error st =>
      obtain rfl := er1 st rfl
      refine ⟨_, pt1, 0, by simp only [vmMapLoop, hw], G1, g1.asSlot, ?_, by omega,
        .inr ⟨rfl, by omega⟩, ?_⟩
      · simpa using g1.trace
      · intro k _
        cases k with
        | zero => simp [vmMapLoop]
        | succ k => simp [vmMapLoop, hw]
    | ok l3 =>
      have hpfn : Framed (pfns i <<< 12) := framed_of_pfn _ (hp i (by omega))
      have hleaf := leafOf_page (pfns i <<< 12) attrs ha
      rw [hpfn] at hleaf
      have G2 := G1.setLeaf (ok1 l3 rfl) ((pfns i <<< 12) ||| attrs)
      rw [hleaf] at G2
      obtain ⟨st, pt', n, hrun, G', hslot, htrace, hn, hst, hpre⟩ :=
        ih G2 (i + 1) (fun k hk => hp k (by omega))
      refine ⟨st, pt', n + 1, ?_, G', hslot.trans g1.asSlot, ?_, by omega, ?_, ?_⟩
      · simp only [vmMapLoop, hw, hpfn.eq]
        exact hrun
      · rw [htrace, List.range'_succ, List.map_cons, List.reverse_cons, List.append_assoc]
        simp [setLeaf, mapEvent, g1.trace]
      · exact hst.imp (fun h => ⟨h.1, by omega⟩) (fun h => ⟨h.1, by omega⟩)
      · intro k hk
        cases k with
        | zero => simp [vmMapLoop]
        | succ k =>
          simp only [vmMapLoop, hw, hpfn.eq]
          exact (hpre k (by omega)).trans (by omega)

/-- A page whose walk fails is skipped, so the cleared pages are a sublist of the range. -/
theorem unmapLoop_spec (hs : Honest supply) (G : Good supply root pt) (gpuVa : Word)
    (i left : ℕ) :
    ∃ ks : List ℕ, Good supply root (vmUnmapLoop supply root gpuVa i left pt) ∧
      (vmUnmapLoop supply root gpuVa i left pt).asSlot = pt.asSlot ∧
      ks.Sublist (List.range' i left) ∧
      (vmUnmapLoop supply root gpuVa i left pt).trace =
        (ks.map (unmapEvent gpuVa)).reverse ++ pt.trace := by
  induction left generalizing i pt with
  | zero => exact ⟨[], G, rfl, List.Sublist.refl _, by simp [vmUnmapLoop]⟩
  | succ left ih =>
    obtain ⟨reply, pt1, hw, G1, g1, ok1, -⟩ := walk_spec hs G (pageVa gpuVa i)
    rw [List.range'_succ]
    cases reply with
    | error st =>
      obtain ⟨ks, G', hslot, hks, htrace⟩ := ih G1 (i + 1)
      refine ⟨ks, ?_⟩
      simp only [vmUnmapLoop, hw]
      exact ⟨G', hslot.trans g1.asSlot, hks.cons _, htrace.trans (by rw [g1.trace])⟩
    | ok l3 =>
      have G2 := G1.setLeaf (ok1 l3 rfl) 0
      rw [leafOf_zero] at G2
      obtain ⟨ks, G', hslot, hks, htrace⟩ := ih G2 (i + 1)
      refine ⟨i::ks, ?_⟩
      simp only [vmUnmapLoop, hw]
      refine ⟨G', hslot.trans g1.asSlot, hks.cons_cons _, htrace.trans ?_⟩
      simp [setLeaf, unmapEvent, g1.trace]

theorem Good.flush (G : Good supply root pt) : Good supply root (asFlushMem pt) :=
  ⟨G.rootVa, G.tree, G.framed, G.fresh, G.walk⟩

theorem vmMap_good (hs : Honest supply) (G : Good supply root pt) (adapter : Option Adapter)
    (gpuVa : Word) (pfns : Option (ℕ → Word)) (count : ℕ) (attrs : Word) (ha : ValidAttrs attrs)
    (hp : ∀ f, pfns = some f → ∀ k, k < count → (f k).toNat < 2 ^ 36) :
    Good supply root (vmMap supply adapter pt gpuVa pfns count attrs).2 ∧
      (vmMap supply adapter pt gpuVa pfns count attrs).1 ≠ .invalidDeviceState := by
  unfold vmMap
  rw [G.rootVa]
  cases adapter with
  | none => exact ⟨G, by simp⟩
  | some a =>
    cases pfns with
    | none => exact ⟨G, by simp⟩
    | some f =>
      by_cases h0 : count = 0
      · simp only [if_pos h0]
        exact ⟨G, by simp⟩
      by_cases hv : gpuVa &&& 0xFFF ≠ 0
      · simp only [if_neg h0, if_pos hv]
        exact ⟨G, by simp⟩
      obtain ⟨st, pt', n, hrun, G', -, -, -, hst, -⟩ :=
        mapLoop_spec hs G gpuVa f attrs ha 0 count (fun k hk => hp f rfl k (by omega))
      simp only [if_neg h0, if_neg hv, hrun]
      refine ⟨?_, by rcases hst with ⟨rfl, -⟩ | ⟨rfl, -⟩ <;> simp⟩
      split
      · exact G'.flush
      · exact G'

theorem vmUnmap_good (hs : Honest supply) (G : Good supply root pt) (adapter : Option Adapter)
    (gpuVa : Word) (count : ℕ) :
    Good supply root (vmUnmap supply adapter pt gpuVa count).2 ∧
      (vmUnmap supply adapter pt gpuVa count).1 ≠ .invalidDeviceState := by
  unfold vmUnmap
  rw [G.rootVa]
  cases adapter with
  | none => exact ⟨G, by simp⟩
  | some a =>
    by_cases hv : gpuVa &&& 0xFFF ≠ 0
    · simp only [if_pos hv]
      exact ⟨G, by simp⟩
    by_cases h0 : count = 0
    · simp only [if_neg hv, if_pos h0]
      exact ⟨G, by simp⟩
    obtain ⟨ks, G', -⟩ := unmapLoop_spec hs G gpuVa 0 count
    simp only [if_neg hv, if_neg h0]
    refine ⟨?_, by simp⟩
    split
    · exact G'.flush
    · exact G'

theorem vmInit_good (hs : Honest supply) {a a' : Adapter} {mem : Word → Fin 512 → Word}
    {hw : NtStatus} (h : vmInit supply a mem hw = (.success, pt, a')) :
    ∃ root, Good supply root pt := by
  have hroot : ∀ q, (supply 0).contiguous = some q → (supply 0).pool = true →
      Good supply q ⟨some q, [q], pt.asSlot, zeroPage mem q, 1, []⟩ := by
    intro q hq hpool
    have hblank : ∀ i, next (zeroPage mem q q i) = none := by
      intro i
      rw [zeroPage, if_pos rfl, next_zero]
    refine ⟨rfl, tree_single _ _ _ _ hblank, ?_, ?_, ?_⟩
    · intro n hn
      obtain rfl := List.mem_singleton.mp hn
      exact framed_of_page n (hs.aligned _ _ hq) (hs.below _ _ hq)
    · intro k pa hk hpa hmem
      exact hs.distinct 0 k q (by simp at hk; omega) hq hpool (List.mem_singleton.mp hmem ▸ hpa)
    · intro va
      simp [hwWalk, hblank, lastLeaf]
  unfold vmInit ptAllocPage at h
  cases hregs : a.gpuRegsMapped with
  | false => simp [hregs] at h
  | true =>
    cases hq : (supply 0).contiguous with
    | none => simp [hregs, hq] at h
    | some q =>
      cases hpool : (supply 0).pool with
      | false => simp [hregs, hq, hpool] at h
      | true =>
        have G := hroot q hq hpool
        simp only [hregs, hq, hpool, Bool.not_true, Bool.false_eq_true, if_false, if_true] at h
        split at h
        · simp at h
        · split at h
          · rename_i hok
            simp only [Prod.mk.injEq] at h
            simp [h.1] at hok
          · obtain ⟨-, rfl, -⟩ := Prod.mk.injEq .. ▸ h
            exact ⟨q, G⟩

inductive Op
  | map (adapter : Option Adapter) (gpuVa : Word) (pfns : Option (ℕ → Word)) (pageCount : ℕ)
    (attrs : Word)
  | unmap (adapter : Option Adapter) (gpuVa : Word) (pageCount : ℕ)

/-- Frames below `2^36` and attributes that are page attributes; addresses and counts
are arbitrary. -/
def Op.Valid : Op → Prop
  | .map _ _ pfns count attrs =>
    ValidAttrs attrs ∧ ∀ f, pfns = some f → ∀ k, k < count → (f k).toNat < 2 ^ 36
  | .unmap .. => True

def Op.apply (supply : ℕ → PtReply) (pt : VmPt) : Op → NtStatus × VmPt
  | .map adapter gpuVa pfns count attrs => vmMap supply adapter pt gpuVa pfns count attrs
  | .unmap adapter gpuVa count => vmUnmap supply adapter pt gpuVa count

def run (supply : ℕ → PtReply) : List Op → VmPt → List NtStatus × VmPt
  | [], pt => ([], pt)
  | op::ops, pt =>
    ((op.apply supply pt).1::(run supply ops (op.apply supply pt).2).1,
      (run supply ops (op.apply supply pt).2).2)

/-- The leaves that a call writes, the latest first: a map those of the first pages of its range,
of all of them when it succeeds, and an unmap those of some pages of its range. -/
def Op.Leaves : Op → NtStatus → List Event → Prop
  | .map _ _ none _ _, _, es => es = []
  | .map _ gpuVa (some pfns) count attrs, st, es => ∃ n ≤ count, (st = .success → n = count) ∧
    es = ((List.range n).map (mapEvent gpuVa pfns attrs)).reverse
  | .unmap _ gpuVa count, _, es => ∃ ks : List ℕ, ks.Sublist (List.range count) ∧
    es = (ks.map (unmapEvent gpuVa)).reverse

/-- The events of the calls, those of a later call in front, each with at most a flush last. -/
def History : List Op → List NtStatus → List Event → Prop
  | [], [], es => es = []
  | op::ops, st::sts, es => ∃ late flush leaves, es = late ++ (flush ++ leaves) ∧
    (flush = [] ∨ ∃ slot, flush = [.flush slot]) ∧ op.Leaves st leaves ∧ History ops sts late
  | _, _, _ => False

/-- A call keeps the slot and adds its leaves to the trace, with at most a flush on top. -/
theorem apply_leaves (hs : Honest supply) (G : Good supply root pt) (op : Op) (hv : op.Valid) :
    (op.apply supply pt).2.asSlot = pt.asSlot ∧
    ∃ flush es, (op.apply supply pt).2.trace = flush ++ (es ++ pt.trace) ∧
      (flush = [] ∨ flush = [.flush pt.asSlot]) ∧ op.Leaves (op.apply supply pt).1 es := by
  have hrefused {gpuVa : Word} {pfns : Option (ℕ → Word)} {adapter : Option Adapter} {count : ℕ}
      {attrs : Word} {st : NtStatus} (h : st = .success → 0 = count) :
      (Op.map adapter gpuVa pfns count attrs).Leaves st [] := by
    cases pfns with
    | none => rfl
    | some f => exact ⟨0, Nat.zero_le _, h, rfl⟩
  cases op with
  | map adapter gpuVa pfns count attrs =>
    simp only [Op.apply, vmMap, G.rootVa]
    cases adapter with
    | none => exact ⟨rfl, [], [], rfl, .inl rfl, hrefused nofun⟩
    | some a =>
      cases pfns with
      | none => exact ⟨rfl, [], [], rfl, .inl rfl, hrefused nofun⟩
      | some f =>
        by_cases h0 : count = 0
        · simp only [if_pos h0]
          exact ⟨trivial, [], [], rfl, .inl rfl, hrefused fun _ => h0.symm⟩
        by_cases hal : gpuVa &&& 0xFFF ≠ 0
        · simp only [if_neg h0, if_pos hal]
          exact ⟨trivial, [], [], rfl, .inl rfl, hrefused nofun⟩
        obtain ⟨st, pt', n, hrun, -, hslot, htrace, hn, hst, -⟩ :=
          mapLoop_spec hs G gpuVa f attrs hv.1 0 count fun k hk => hv.2 f rfl k (by omega)
        have hleaves : (Op.map (some a) gpuVa (some f) count attrs).Leaves st
            ((List.range' 0 n).map (mapEvent gpuVa f attrs)).reverse := by
          refine ⟨n, hn, fun h => ?_, by rw [List.range_eq_range']⟩
          rcases hst with ⟨-, hn⟩ | ⟨hst, -⟩
          · exact hn
          · rw [h] at hst
            cases hst
        simp only [if_neg h0, if_neg hal, hrun]
        split
        · refine ⟨hslot, [.flush pt.asSlot], _, ?_, .inr rfl, hleaves⟩
          simp [asFlushMem, htrace, hslot]
        · exact ⟨hslot, [], _, htrace, .inl rfl, hleaves⟩
  | unmap adapter gpuVa count =>
    simp only [Op.apply, vmUnmap, G.rootVa]
    have hnone {st : NtStatus} : (Op.unmap adapter gpuVa count).Leaves st [] :=
      ⟨[], List.nil_sublist _, rfl⟩
    cases adapter with
    | none => exact ⟨rfl, [], [], rfl, .inl rfl, hnone⟩
    | some a =>
      by_cases hal : gpuVa &&& 0xFFF ≠ 0
      · simp only [if_pos hal]
        exact ⟨trivial, [], [], rfl, .inl rfl, hnone⟩
      by_cases h0 : count = 0
      · simp only [if_neg hal, if_pos h0]
        exact ⟨trivial, [], [], rfl, .inl rfl, hnone⟩
      obtain ⟨ks, -, hslot, hks, htrace⟩ := unmapLoop_spec hs G gpuVa 0 count
      have hleaves : (Op.unmap (some a) gpuVa count).Leaves .success
          (ks.map (unmapEvent gpuVa)).reverse :=
        ⟨ks, List.range_eq_range' ▸ hks, rfl⟩
      simp only [if_neg hal, if_neg h0]
      split
      · refine ⟨hslot, [.flush pt.asSlot], _, ?_, .inr rfl, hleaves⟩
        simp [asFlushMem, htrace, hslot]
      · exact ⟨hslot, [], _, htrace, .inl rfl, hleaves⟩

theorem apply_good (hs : Honest supply) (G : Good supply root pt) (op : Op) (hv : op.Valid) :
    Good supply root (op.apply supply pt).2 ∧
      (op.apply supply pt).1 ≠ .invalidDeviceState := by
  cases op with
  | map adapter gpuVa pfns count attrs =>
    exact vmMap_good hs G adapter gpuVa pfns count attrs hv.1 hv.2
  | unmap adapter gpuVa count => exact vmUnmap_good hs G adapter gpuVa count

theorem run_good (hs : Honest supply) (ops : List Op) (hv : ∀ op ∈ ops, op.Valid)
    (G : Good supply root pt) :
    Good supply root (run supply ops pt).2 ∧
      ∀ st ∈ (run supply ops pt).1, st ≠ .invalidDeviceState := by
  induction ops generalizing pt with
  | nil => exact ⟨G, by simp [run]⟩
  | cons op ops ih =>
    obtain ⟨G', hst⟩ := apply_good hs G op (hv op (by simp))
    obtain ⟨G'', hrest⟩ := ih (fun o ho => hv o (by simp [ho])) G'
    refine ⟨G'', ?_⟩
    intro st hmem
    rcases List.mem_cons.mp hmem with rfl | h
    · exact hst
    · exact hrest st h

theorem run_history (hs : Honest supply) (ops : List Op) (hv : ∀ op ∈ ops, op.Valid)
    (G : Good supply root pt) : ∃ es, (run supply ops pt).2.trace = es ++ pt.trace ∧
      History ops (run supply ops pt).1 es := by
  induction ops generalizing pt with
  | nil => exact ⟨[], rfl, rfl⟩
  | cons op ops ih =>
    have hop : op.Valid := hv op (by simp)
    obtain ⟨late, htrace, hlate⟩ :=
      ih (fun o ho => hv o (by simp [ho])) (apply_good hs G op hop).1
    obtain ⟨-, flush, leaves, hfirst, hflush, hleaves⟩ := apply_leaves hs G op hop
    refine ⟨late ++ (flush ++ leaves), ?_, late, flush, leaves, rfl, ?_, hleaves, hlate⟩
    · simp only [run, htrace, hfirst, List.append_assoc]
    · exact hflush.imp_right fun h => ⟨_, h⟩

/-- `d` is a table descriptor of the tree (path of its table, index in it) that points at `k`. -/
def Descriptor (pt : VmPt) (root : Word) (d : List (Fin 512) × Fin 512) (k : Word) : Prop :=
  d.1.length < 3 ∧ ∃ n, follow next pt.mem root d.1 = some n ∧ next (pt.mem n d.2) = some k

theorem Good.descriptor_owned (G : Good supply root pt) {d : List (Fin 512) × Fin 512} {k : Word}
    (h : Descriptor pt root d k) : k ∈ pt.allocatedPages := by
  obtain ⟨hp, n, hn, hk⟩ := h
  refine G.tree.owned (d.1 ++ [d.2]) k (by simp; omega) ?_
  rw [follow_snoc, hn]
  exact hk

theorem Good.descriptor_unique (G : Good supply root pt) {k : Word} (hk : k ∈ pt.allocatedPages)
    (hr : k ≠ root) : ∃! d, Descriptor pt root d k := by
  obtain ⟨p, i, n, hp, hn, he, huniq⟩ := G.tree.parent_unique k hk hr
  refine ⟨(p, i), ⟨hp, n, hn, he⟩, ?_⟩
  rintro ⟨q, j⟩ ⟨hq, n', hn', he'⟩
  obtain ⟨rfl, rfl⟩ := huniq q j n' hq hn' he'
  rfl

theorem vmInit_trace {supply : ℕ → PtReply} {a a' : Adapter} {mem : Word → Fin 512 → Word}
    {hw : NtStatus} {pt : VmPt} (h : vmInit supply a mem hw = (.success, pt, a')) :
    pt.trace = [] := by
  have halloc : (ptAllocPage supply ⟨none, [], asSlotMax, mem, 0, []⟩).2.trace = [] := by
    unfold ptAllocPage
    dsimp only
    split
    · rfl
    · split <;> rfl
  unfold vmInit at h
  rcases hp : ptAllocPage supply ⟨none, [], asSlotMax, mem, 0, []⟩ with ⟨reply, pt0⟩
  rw [hp] at halloc
  simp only [hp] at h
  split at h
  · cases h
  · cases reply with
    | none => cases h
    | some root =>
      dsimp only at h
      split at h
      · cases h
      · split at h
        · rename_i hst
          obtain ⟨rfl, -⟩ := Prod.mk.injEq .. ▸ h
          simp [(Prod.mk.injEq .. ▸ h).1] at hst
        · obtain ⟨-, rfl, -⟩ := Prod.mk.injEq .. ▸ h
          exact halloc

/-- Every history of maps and unmaps leaves a tree of owned tables whose hardware walk
is the map of last leaf writes, which are those of the calls. -/
theorem page_table_refines_map (supply : ℕ → PtReply) (hs : Honest supply) (a a' : Adapter)
    (mem : Word → Fin 512 → Word) (hw : NtStatus) (pt : VmPt)
    (hinit : vmInit supply a mem hw = (.success, pt, a')) (ops : List Op)
    (hv : ∀ op ∈ ops, op.Valid) :
    ∃ root, (run supply ops pt).2.rootVa = some root ∧
      (∀ d k, Descriptor (run supply ops pt).2 root d k →
        k ∈ (run supply ops pt).2.allocatedPages) ∧
      (∀ k ∈ (run supply ops pt).2.allocatedPages, k ≠ root →
        ∃! d, Descriptor (run supply ops pt).2 root d k) ∧
      (∀ va, hwWalk (run supply ops pt).2.mem root va =
        lastLeaf (run supply ops pt).2.trace (pageOf va)) ∧
      (∀ st ∈ (run supply ops pt).1, st ≠ .invalidDeviceState) ∧
      History ops (run supply ops pt).1 (run supply ops pt).2.trace := by
  obtain ⟨root, G⟩ := vmInit_good hs hinit
  obtain ⟨G', hst⟩ := run_good hs ops hv G
  obtain ⟨es, htrace, hhistory⟩ := run_history hs ops hv G
  rw [vmInit_trace hinit, List.append_nil] at htrace
  exact ⟨root, G'.rootVa, fun _ _ h => G'.descriptor_owned h,
    fun _ hk hr => G'.descriptor_unique hk hr, G'.walk, hst, htrace ▸ hhistory⟩

/-- A memory manager with eight pages left. -/
def eightPages (k : ℕ) : PtReply :=
  if k < 8 then ⟨some (BitVec.ofNat 64 (4096 * (k + 1))), true⟩ else ⟨none, false⟩

theorem eightPages_spec {k : ℕ} {pa : Word} (h : (eightPages k).contiguous = some pa) :
    k < 8 ∧ pa.toNat = 4096 * (k + 1) := by
  unfold eightPages at h
  split at h
  · rename_i hk
    obtain rfl := Option.some.inj h
    exact ⟨hk, by rw [BitVec.toNat_ofNat]; omega⟩
  · simp at h

theorem eightPages_honest : Honest eightPages := by
  refine ⟨?_, ?_, ?_⟩
  · intro k pa h
    have := (eightPages_spec h).2
    omega
  · intro k pa h
    have := eightPages_spec h
    omega
  · intro j k pa hjk h _ h'
    have := (eightPages_spec h).2
    have := (eightPages_spec h').2
    omega

def freshAdapter : Adapter := initAsAllocator ⟨0xFF, true, 0, 0, fun _ => .zero, []⟩

def freshVm : NtStatus × VmPt × Adapter :=
  vmInit eightPages freshAdapter (fun _ _ => 0) .success

def twoMapsOneUnmap : List Op :=
  [.map (some freshAdapter) 0x1000000 (some fun k => BitVec.ofNat 64 (5 + k)) 2 pageAttrRwNx,
    .map (some freshAdapter) 0x1001000 (some fun _ => 9) 1 pageAttrRoEx,
    .unmap (some freshAdapter) 0x1000000 1]

theorem twoMapsOneUnmap_walk : ∃ root,
    hwWalk (run eightPages twoMapsOneUnmap freshVm.2.1).2.mem root 0x1001000 =
        some (0x9000, pageAttrRoEx) ∧
      hwWalk (run eightPages twoMapsOneUnmap freshVm.2.1).2.mem root 0x1000000 = none := by
  have hv : ∀ op ∈ twoMapsOneUnmap, op.Valid := by
    have h1 : ValidAttrs pageAttrRwNx := by decide
    have h2 : ValidAttrs pageAttrRoEx := by decide
    simp only [twoMapsOneUnmap, List.forall_mem_cons, Op.Valid]
    refine ⟨⟨h1, ?_⟩, ⟨h2, ?_⟩, trivial, by simp⟩
    · rintro f ⟨⟩ k hk
      rw [BitVec.toNat_ofNat]
      omega
    · rintro f ⟨⟩ k -
      change (9 : Word).toNat < 2 ^ 36
      decide
  obtain ⟨root, -, -, -, hwalk, -⟩ := page_table_refines_map eightPages eightPages_honest
    freshAdapter freshVm.2.2 (fun _ _ => 0) .success freshVm.2.1 rfl twoMapsOneUnmap hv
  refine ⟨root, ?_, ?_⟩
  · rw [hwalk]
    decide
  · rw [hwalk]
    decide

end WinMali.VmPageTableMap
