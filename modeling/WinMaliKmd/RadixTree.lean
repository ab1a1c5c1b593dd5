import Mathlib.Data.List.Induction

/-!
# Radix trees in a raw store

A store gives every node its entries. An entry either points at a child or it
does not; nothing in the store itself prevents two entries from pointing at
one node, or a data entry of the last level from looking like a pointer. The
tree invariant therefore speaks about the paths of bounded length from the
root, and two operations are proved to keep it: linking a blank node under an
empty entry, and writing an entry of the last level.
-/

set_option autoImplicit false

namespace WinMali.RadixTree

variable {N I E F : Type*}

def follow (next : E → Option N) (m : N → I → E) : N → List I → Option N
  | n, [] => some n
  | n, i::is => (next (m n i)).bind fun k => follow next m k is

/-- The leaf that the entry `i` of the node at `path` holds. -/
def translate (next : E → Option N) (leaf : E → Option F) (m : N → I → E) (root : N)
    (path : List I) (i : I) : Option F :=
  (follow next m root path).bind fun n => leaf (m n i)

theorem follow_append (next : E → Option N) (m : N → I → E) (n : N) (p q : List I) :
    follow next m n (p ++ q) = (follow next m n p).bind fun k => follow next m k q := by
  induction p generalizing n with
  | nil => rfl
  | cons i p ih =>
    simp only [List.cons_append, follow, Option.bind_assoc]
    congr 1
    funext k
    exact ih k

theorem follow_snoc (next : E → Option N) (m : N → I → E) (n : N) (p : List I) (i : I) :
    follow next m n (p ++ [i]) = (follow next m n p).bind fun k => next (m k i) := by
  rw [follow_append]
  congr 1
  funext k
  simp [follow]

/-- Every path of at most `depth` steps stays among the owned nodes, every owned
node lies on such a path, and no two of them meet. -/
structure Tree (next : E → Option N) (m : N → I → E) (root : N) (depth : ℕ) (own : List N) :
    Prop where
  nodup : own.Nodup
  owned : ∀ p n, p.length ≤ depth → follow next m root p = some n → n ∈ own
  reached : ∀ n ∈ own, ∃ p, p.length ≤ depth ∧ follow next m root p = some n
  unique : ∀ p q n, p.length ≤ depth → q.length ≤ depth →
    follow next m root p = some n → follow next m root q = some n → p = q

theorem tree_single (next : E → Option N) (m : N → I → E) (root : N) (depth : ℕ)
    (hb : ∀ i, next (m root i) = none) : Tree next m root depth [root] := by
  have hf : ∀ p n, follow next m root p = some n → p = [] ∧ n = root := by
    intro p n h
    cases p with
    | nil => exact ⟨rfl, (Option.some.inj h).symm⟩
    | cons i p => simp [follow, hb i] at h
  refine ⟨by simp, ?_, ?_, ?_⟩
  · intro p n _ h
    simp [(hf p n h).2]
  · intro n hn
    exact ⟨[], by simp, by simp [follow, List.mem_singleton.mp hn]⟩
  · intro p q n _ _ hp hq
    rw [(hf p n hp).1, (hf q n hq).1]

/-- In a tree a node other than the root hangs under exactly one entry. -/
theorem Tree.parent_unique {next : E → Option N} {m : N → I → E} {root : N} {depth : ℕ}
    {own : List N} (T : Tree next m root depth own) (k : N) (hk : k ∈ own) (hr : k ≠ root) :
    ∃ p i n, p.length < depth ∧ follow next m root p = some n ∧ next (m n i) = some k ∧
      ∀ q j n', q.length < depth → follow next m root q = some n' → next (m n' j) = some k →
        q = p ∧ j = i := by
  obtain ⟨p', hp', hf⟩ := T.reached k hk
  rcases List.eq_nil_or_concat p' with rfl | ⟨p, i, rfl⟩
  · exact absurd (Option.some.inj hf).symm hr
  rw [List.concat_eq_append] at hf hp'
  rw [follow_snoc] at hf
  obtain ⟨n, hn, he⟩ := Option.bind_eq_some_iff.mp hf
  rw [List.length_append, List.length_singleton] at hp'
  refine ⟨p, i, n, by omega, hn, he, ?_⟩
  intro q j n' hq hn' he'
  have h1 : follow next m root (p ++ [i]) = some k := by rw [follow_snoc, hn]; exact he
  have h2 : follow next m root (q ++ [j]) = some k := by rw [follow_snoc, hn']; exact he'
  have heq := T.unique (q ++ [j]) (p ++ [i]) k (by simp; omega) (by simp; omega) h2 h1
  have := List.append_inj' heq rfl
  exact ⟨this.1, List.singleton_inj.mp this.2⟩

/-- Paths of two lengths end at two nodes. -/
theorem Tree.ne_of_length {next : E → Option N} {m : N → I → E} {root : N} {depth : ℕ}
    {own : List N} (T : Tree next m root depth own) {p q : List I} {n n' : N}
    (hp : p.length ≤ depth) (hq : q.length ≤ depth) (hlen : p.length ≠ q.length)
    (hf : follow next m root p = some n) (hn : follow next m root q = some n') : n' ≠ n := by
  rintro rfl
  exact hlen (congrArg List.length (T.unique p q n' hp hq hf hn))

section Write

variable [DecidableEq N] [DecidableEq I]

def write (m : N → I → E) (n : N) (i : I) (e : E) : N → I → E :=
  fun n' j => if n' = n ∧ j = i then e else m n' j

@[simp] theorem write_same (m : N → I → E) (n : N) (i : I) (e : E) :
    write m n i e n i = e := by simp [write]

theorem write_other (m : N → I → E) (n n' : N) (i j : I) (e : E) (h : ¬(n' = n ∧ j = i)) :
    write m n i e n' j = m n' j := by simp [write, h]

variable {next : E → Option N} {leaf : E → Option F} {m : N → I → E} {root : N} {depth : ℕ}
  {own : List N}

/-- An entry of the last level is on no path of the tree. -/
theorem Tree.leaf_follow (T : Tree next m root depth own) {p : List I} {n : N}
    (hp : p.length = depth) (hf : follow next m root p = some n) (i : I) (e : E) (q : List I)
    (hq : q.length ≤ depth) :
    follow next (write m n i e) root q = follow next m root q := by
  induction q using List.reverseRecOn with
  | nil => rfl
  | append_singleton q j ih =>
    rw [List.length_append, List.length_singleton] at hq
    rw [follow_snoc, follow_snoc, ih (by omega)]
    cases hn : follow next m root q with
    | none => rfl
    | some n' =>
      -- the node of a shorter path is not the node of the last level
      have hne : n' ≠ n := T.ne_of_length (by omega) (by omega) (by omega) hf hn
      simp [write, hne]

theorem Tree.leaf_tree (T : Tree next m root depth own) {p : List I} {n : N}
    (hp : p.length = depth) (hf : follow next m root p = some n) (i : I) (e : E) :
    Tree next (write m n i e) root depth own := by
  have hw := fun q hq => T.leaf_follow hp hf i e q hq
  refine ⟨T.nodup, ?_, ?_, ?_⟩
  · intro q n' hq h
    exact T.owned q n' hq (hw q hq ▸ h)
  · intro n' hn'
    obtain ⟨q, hq, h⟩ := T.reached n' hn'
    exact ⟨q, hq, (hw q hq).trans h⟩
  · intro q r n' hq hr h1 h2
    exact T.unique q r n' hq hr (hw q hq ▸ h1) (hw r hr ▸ h2)

/-- A write at the last level changes the translation of its own position only. -/
theorem Tree.leaf_translate [DecidableEq (List I)] (T : Tree next m root depth own)
    {p : List I} {n : N} (hp : p.length = depth) (hf : follow next m root p = some n)
    (i : I) (e : E) (q : List I) (j : I) (hq : q.length = depth) :
    translate next leaf (write m n i e) root q j =
      if q = p ∧ j = i then leaf e else translate next leaf m root q j := by
  unfold translate
  rw [T.leaf_follow hp hf i e q (by omega)]
  by_cases hpq : q = p
  · subst hpq
    by_cases hij : j = i <;> simp [hf, hij, write]
  · rw [if_neg (by simp [hpq])]
    cases hn : follow next m root q with
    | none => rfl
    | some n' =>
      have hne : n' ≠ n := by
        rintro rfl
        exact hpq (T.unique q p n' (by omega) (by omega) hn hf)
      simp [write, hne]

/-- Linking a blank node `k` under an empty entry adds one path and no other. -/
theorem Tree.link_follow [DecidableEq (List I)] (T : Tree next m root depth own) {p : List I}
    {n k : N} {i : I} {e : E} (hp : p.length < depth) (hf : follow next m root p = some n)
    (he : next (m n i) = none) (hk : k ∉ own) (hblank : ∀ j, next (m k j) = none)
    (hlink : next e = some k) (q : List I) (hq : q.length ≤ depth) :
    follow next (write m n i e) root q =
      if q = p ++ [i] then some k else follow next m root q := by
  have hnk : n ≠ k := fun h => hk (h ▸ T.owned p n (by omega) hf)
  induction q using List.reverseRecOn with
  | nil => simp [follow]
  | append_singleton q j ih =>
    rw [List.length_append, List.length_singleton] at hq
    rw [follow_snoc, follow_snoc, ih (by omega)]
    by_cases hqp : q = p ++ [i]
    · -- below the new node nothing is linked, neither before nor after
      subst hqp
      have hold : follow next m root (p ++ [i]) = none := by rw [follow_snoc, hf]; exact he
      have hkn : write m n i e k j = m k j := write_other _ _ _ _ _ _ (fun h => hnk h.1.symm)
      simp [hold, hkn, hblank]
    · simp only [if_neg hqp]
      cases hn : follow next m root q with
      | none =>
        have : q ++ [j] ≠ p ++ [i] := by
          intro h
          have := (List.append_inj' h rfl).1
          simp [this, hf] at hn
        simp [this]
      | some n' =>
        by_cases hij : n' = n ∧ j = i
        · obtain ⟨rfl, rfl⟩ := hij
          have : q = p := T.unique q p n' (by omega) (by omega) hn hf
          simp [this, hlink]
        · have : q ++ [j] ≠ p ++ [i] := by
            intro h
            have h' := List.append_inj' h rfl
            rw [h'.1, hf] at hn
            exact hij ⟨(Option.some.inj hn).symm, List.singleton_inj.mp h'.2⟩
          simp [this, write_other _ _ _ _ _ _ hij]

theorem Tree.link_tree [DecidableEq (List I)] (T : Tree next m root depth own) {p : List I}
    {n k : N} {i : I} {e : E} (hp : p.length < depth) (hf : follow next m root p = some n)
    (he : next (m n i) = none) (hk : k ∉ own) (hblank : ∀ j, next (m k j) = none)
    (hlink : next e = some k) : Tree next (write m n i e) root depth (own ++ [k]) := by
  have hw := fun q hq => T.link_follow hp hf he hk hblank hlink q hq
  have hold : follow next m root (p ++ [i]) = none := by rw [follow_snoc, hf]; exact he
  have hlen : (p ++ [i]).length ≤ depth := by simp; omega
  refine ⟨?_, ?_, ?_, ?_⟩
  · refine List.nodup_append.mpr ⟨T.nodup, by simp, ?_⟩
    intro a ha b hb hab
    exact hk (List.mem_singleton.mp hb ▸ hab ▸ ha)
  · intro q n' hq h
    rw [hw q hq] at h
    split at h
    · simp [← Option.some.inj h]
    · simp [T.owned q n' hq h]
  · intro n' hn'
    rcases List.mem_append.mp hn' with h | h
    · obtain ⟨q, hq, hfq⟩ := T.reached n' h
      have : q ≠ p ++ [i] := by rintro rfl; simp [hold] at hfq
      exact ⟨q, hq, by rw [hw q hq, if_neg this, hfq]⟩
    · exact ⟨p ++ [i], hlen, by rw [hw _ hlen, if_pos rfl, List.mem_singleton.mp h]⟩
  · intro q r n' hq hr h1 h2
    rw [hw q hq] at h1
    rw [hw r hr] at h2
    split at h1 <;> split at h2
    · simp_all
    · exact absurd (T.owned r n' hr h2) (Option.some.inj h1 ▸ hk)
    · exact absurd (T.owned q n' hq h1) (Option.some.inj h2 ▸ hk)
    · exact T.unique q r n' hq hr h1 h2

theorem Tree.link_translate [DecidableEq (List I)] (T : Tree next m root depth own)
    {p : List I} {n k : N} {i : I} {e : E} (hp : p.length < depth)
    (hf : follow next m root p = some n) (he : next (m n i) = none) (hk : k ∉ own)
    (hblank : ∀ j, next (m k j) = none) (hleaf : ∀ j, leaf (m k j) = none)
    (hlink : next e = some k) (q : List I) (j : I) (hq : q.length = depth) :
    translate next leaf (write m n i e) root q j = translate next leaf m root q j := by
  have hnk : k ≠ n := fun h => hk (h ▸ T.owned p n (by omega) hf)
  unfold translate
  rw [T.link_follow hp hf he hk hblank hlink q (by omega)]
  by_cases hqp : q = p ++ [i]
  · subst hqp
    have hold : follow next m root (p ++ [i]) = none := by rw [follow_snoc, hf]; exact he
    simp [hold, write, hnk, hleaf]
  · rw [if_neg hqp]
    cases hn : follow next m root q with
    | none => rfl
    | some n' =>
      -- `n` is at the end of the shorter path `p`, so it is not this node
      have hne : n' ≠ n := T.ne_of_length (by omega) (by omega) (by omega) hf hn
      simp [write, hne]

end Write

section Agree

variable {next : E → Option N} {m m' : N → I → E} {root : N} {depth : ℕ} {own : List N}

/-- Nodes outside the tree may be rewritten freely. -/
theorem Tree.follow_agree (T : Tree next m root depth own)
    (ha : ∀ n ∈ own, ∀ i, m' n i = m n i) (q : List I) (hq : q.length ≤ depth) :
    follow next m' root q = follow next m root q := by
  induction q using List.reverseRecOn with
  | nil => rfl
  | append_singleton q j ih =>
    rw [List.length_append, List.length_singleton] at hq
    rw [follow_snoc, follow_snoc, ih (by omega)]
    cases hn : follow next m root q with
    | none => rfl
    | some n =>
      have := ha n (T.owned q n (by omega) hn) j
      simp [this]

theorem Tree.translate_agree {leaf : E → Option F} (T : Tree next m root depth own)
    (ha : ∀ n ∈ own, ∀ i, m' n i = m n i) (q : List I) (j : I) (hq : q.length ≤ depth) :
    translate next leaf m' root q j = translate next leaf m root q j := by
  unfold translate
  rw [T.follow_agree ha q hq]
  cases hn : follow next m root q with
  | none => rfl
  | some n => simp [ha n (T.owned q n hq hn) j]

theorem Tree.agree (T : Tree next m root depth own) (ha : ∀ n ∈ own, ∀ i, m' n i = m n i) :
    Tree next m' root depth own := by
  have hw := fun q hq => T.follow_agree ha q hq
  refine ⟨T.nodup, ?_, ?_, ?_⟩
  · intro q n hq h
    exact T.owned q n hq (hw q hq ▸ h)
  · intro n hn
    obtain ⟨q, hq, h⟩ := T.reached n hn
    exact ⟨q, hq, (hw q hq).trans h⟩
  · intro q r n hq hr h1 h2
    exact T.unique q r n hq hr (hw q hq ▸ h1) (hw r hr ▸ h2)

end Agree

end WinMali.RadixTree
