import Mathlib.Data.List.Chain
import Mathlib.Data.List.Nodup
import Mathlib.Logic.Function.Basic

/-!
# Circular lists of embedded links

A list head and the entries carry a forward and a backward link. A head and a
sequence of entries form a ring when the links lead through them in both
directions. The four list routines keep rings, and so do the three loops that
walk a list, sift a list into another, and drain one.
-/

set_option autoImplicit false

namespace WinMali.IntrusiveList

structure Links (α : Type*) where
  flink : α → α
  blink : α → α

variable {α σ : Type*} [DecidableEq α]

def Links.setFlink (m : Links α) (x y : α) : Links α :=
  { m with flink := Function.update m.flink x y }

def Links.setBlink (m : Links α) (x y : α) : Links α :=
  { m with blink := Function.update m.blink x y }

def initializeListHead (m : Links α) (h : α) : Links α := (m.setFlink h h).setBlink h h

def isListEmpty (m : Links α) (h : α) : Bool := decide (m.flink h = h)

def removeEntryList (m : Links α) (e : α) : Links α :=
  (m.setFlink (m.blink e) (m.flink e)).setBlink (m.flink e) (m.blink e)

def insertTailList (m : Links α) (h e : α) : Links α :=
  (((m.setFlink e h).setBlink e (m.blink h)).setFlink (m.blink h) e).setBlink h e

def removeHeadList (m : Links α) (h : α) : α × Links α :=
  (m.flink h, (m.setFlink h (m.flink (m.flink h))).setBlink (m.flink (m.flink h)) h)

def Linked (m : Links α) (x y : α) : Prop := m.flink x = y ∧ m.blink y = x

/-- The links lead from `h` through `l` back to `h`, both ways. -/
structure Ring (m : Links α) (h : α) (l : List α) : Prop where
  nodup : (h :: l).Nodup
  chain : (h :: l ++ [h]).IsChain (Linked m)

section Updates

variable (m : Links α) (x y z : α)

@[simp] theorem flink_setFlink :
    (m.setFlink x y).flink z = if z = x then y else m.flink z := by
  simp [Links.setFlink, Function.update_apply]

@[simp] theorem blink_setFlink : (m.setFlink x y).blink z = m.blink z := rfl

@[simp] theorem blink_setBlink :
    (m.setBlink x y).blink z = if z = x then y else m.blink z := by
  simp [Links.setBlink, Function.update_apply]

@[simp] theorem flink_setBlink : (m.setBlink x y).flink z = m.flink z := rfl

end Updates

variable {m m' : Links α} {h f e x y : α} {l r k : List α}

omit [DecidableEq α] in
/-- A chain reads the forward links of all its entries but the last and the backward links of
all but the first. -/
theorem chain_of_agree (hf : ∀ x ∈ l.dropLast, m'.flink x = m.flink x)
    (hb : ∀ y ∈ l.tail, m'.blink y = m.blink y) (hl : l.IsChain (Linked m)) :
    l.IsChain (Linked m') := by
  induction l with
  | nil => exact .nil
  | cons x l ih =>
    cases l with
    | nil => exact .singleton x
    | cons y l =>
      obtain ⟨hxy, hl⟩ := List.isChain_cons_cons.mp hl
      refine List.isChain_cons_cons.mpr ⟨⟨?_, ?_⟩, ih ?_ ?_ hl⟩
      · rw [hf x (by simp), hxy.1]
      · rw [hb y (by simp), hxy.2]
      · exact fun z hz => hf z (by simp [hz])
      · exact fun z hz => hb z (List.mem_of_mem_tail hz)

omit [DecidableEq α] in
/-- Writes elsewhere keep a ring. -/
theorem Ring.of_agree (hr : Ring m h l) (ha : ∀ x ∈ h :: l, m'.flink x = m.flink x ∧
    m'.blink x = m.blink x) : Ring m' h l := by
  refine ⟨hr.nodup, chain_of_agree (fun x hx => (ha x ?_).1) (fun y hy => (ha y ?_).2) hr.chain⟩
  · simpa only [List.dropLast_concat] using hx
  · simpa [or_comm] using hy

theorem initializeListHead_ring (m : Links α) (h : α) : Ring (initializeListHead m h) h [] :=
  ⟨List.nodup_singleton h, by simp [initializeListHead, Linked]⟩

theorem initializeListHead_frame (hr : Ring m h l) (hf : f ∉ h :: l) :
    Ring (initializeListHead m f) h l := by
  refine hr.of_agree fun x hx => ?_
  have hne : x ≠ f := fun heq => hf (heq ▸ hx)
  simp [initializeListHead, hne]

omit [DecidableEq α] in
/-- The neighbours of an entry, and the chains before and after it. -/
theorem Ring.split (hr : Ring m h (l ++ x :: r)) : ∃ p q pre post,
    h :: l = pre ++ [p] ∧ r ++ [h] = q :: post ∧ m.blink x = p ∧ m.flink x = q ∧
      (pre ++ [p]).IsChain (Linked m) ∧ (q :: post).IsChain (Linked m) := by
  obtain ⟨pre, p, hp⟩ : ∃ pre p, h :: l = pre ++ [p] :=
    ⟨_, _, (List.dropLast_append_getLast (List.cons_ne_nil h l)).symm⟩
  obtain ⟨q, post, hq⟩ : ∃ q post, r ++ [h] = q :: post :=
    List.exists_cons_of_ne_nil (by simp)
  have hshape : h :: (l ++ x :: r) ++ [h] = (h :: l) ++ x :: (r ++ [h]) := by simp
  have hc := hr.chain
  rw [hshape, hp, hq, List.append_assoc, List.singleton_append,
    List.isChain_append_cons_cons] at hc
  obtain ⟨hpre, hpx, hxq, hpost⟩ := hc.imp_right (And.imp_right List.isChain_cons_cons.mp)
  exact ⟨p, q, pre, post, hp, hq, hpx.2, hxq.1, hpre, hpost⟩

omit [DecidableEq α] in
/-- Two chains that share no inner entry, closed at a new seam. -/
theorem chain_relink {p q : α} {pre post : List α} (hpre : (pre ++ [p]).IsChain (Linked m))
    (hpost : (q :: post).IsChain (Linked m))
    (hf : ∀ x ∈ pre ++ (q :: post).dropLast, m'.flink x = m.flink x)
    (hb : ∀ y ∈ (pre ++ [p]).tail ++ post, m'.blink y = m.blink y) (hs : Linked m' p q) :
    (pre ++ p :: q :: post).IsChain (Linked m') := by
  refine List.isChain_append_cons_cons.mpr
    ⟨chain_of_agree ?_ ?_ hpre, hs, chain_of_agree ?_ ?_ hpost⟩
  · intro x hx
    rw [List.dropLast_concat] at hx
    exact hf x (List.mem_append_left _ hx)
  · exact fun y hy => hb y (List.mem_append_left _ hy)
  · exact fun x hx => hf x (List.mem_append_right _ hx)
  · exact fun y hy => hb y (List.mem_append_right _ hy)

theorem Ring.removeEntryList (hr : Ring m h (l ++ x :: r)) :
    Ring (removeEntryList m x) h (l ++ r) := by
  obtain ⟨p, q, pre, post, hp, hq, hbx, hfx, hpre, hpost⟩ := hr.split
  have hnd : (h :: (l ++ r)).Nodup :=
    hr.nodup.sublist (((List.sublist_append_right [x] r).append_left l).cons_cons h)
  have hinner : (q :: post).dropLast = r := by rw [← hq, List.dropLast_concat]
  have htail : (pre ++ [p]).tail = l := by rw [← hp, List.tail_cons]
  -- the forward link is written at `p` only, the backward link at `q` only
  have hpnew : p ∉ pre ++ r := by
    rw [← List.cons_append, hp, List.append_assoc, List.singleton_append] at hnd
    exact (List.nodup_cons.mp (List.nodup_middle.mp hnd)).1
  have hqnew : q ∉ l ++ post := by
    have hrot : (l ++ q :: post).Nodup := by
      rw [← hq, ← List.append_assoc]
      exact List.nodup_append_comm.mp hnd
    exact (List.nodup_cons.mp (List.nodup_middle.mp hrot)).1
  have hshape : h :: (l ++ r) ++ [h] = (h :: l) ++ (r ++ [h]) := by simp
  refine ⟨hnd, ?_⟩
  rw [hshape, hp, hq, List.append_assoc, List.singleton_append]
  refine chain_relink hpre hpost (fun y hy => ?_) (fun y hy => ?_) ?_
  · rw [hinner] at hy
    have hne : y ≠ p := fun heq => hpnew (heq ▸ hy)
    simp [IntrusiveList.removeEntryList, hbx, hfx, hne]
  · rw [htail] at hy
    have hne : y ≠ q := fun heq => hqnew (heq ▸ hy)
    simp [IntrusiveList.removeEntryList, hbx, hfx, hne]
  · simp [Linked, IntrusiveList.removeEntryList, hbx, hfx]

/-- The neighbours of an entry of a ring are in the ring. -/
theorem Ring.removeEntryList_frame (hr : Ring m h (l ++ x :: r)) (hk : Ring m f k)
    (hd : (h :: (l ++ x :: r)).Disjoint (f :: k)) :
    Ring (IntrusiveList.removeEntryList m x) f k := by
  obtain ⟨p, q, pre, post, hp, hq, hbx, hfx, -, -⟩ := hr.split
  have hpm : p ∈ h :: (l ++ x :: r) := by
    have hmem : p ∈ h :: l := hp ▸ List.mem_append_right _ (List.mem_singleton_self p)
    exact (List.sublist_append_left l _).cons_cons h |>.subset hmem
  have hqm : q ∈ h :: (l ++ x :: r) := by
    have hmem : q ∈ r ++ [h] := hq ▸ List.mem_cons_self
    rcases List.mem_append.mp hmem with hmem | hmem
    · simp [hmem]
    · simp [List.mem_singleton.mp hmem]
  refine hk.of_agree fun y hy => ?_
  have hyp : y ≠ p := fun heq => hd (heq ▸ hpm) hy
  have hyq : y ≠ q := fun heq => hd (heq ▸ hqm) hy
  simp [IntrusiveList.removeEntryList, hbx, hfx, hyp, hyq]

omit [DecidableEq α] in
/-- The last entry is behind the head. -/
theorem Ring.last (hr : Ring m h l) : ∃ p pre, h :: l = pre ++ [p] ∧ m.blink h = p ∧
    (pre ++ [p]).IsChain (Linked m) := by
  obtain ⟨pre, p, hp⟩ : ∃ pre p, h :: l = pre ++ [p] :=
    ⟨_, _, (List.dropLast_append_getLast (List.cons_ne_nil h l)).symm⟩
  have hc := hr.chain
  rw [hp, List.append_assoc, List.singleton_append, List.isChain_append_cons_cons] at hc
  exact ⟨p, pre, hp, hc.2.1.2, hc.1⟩

theorem Ring.insertTailList (hr : Ring m h l) (he : e ∉ h :: l) :
    Ring (insertTailList m h e) h (l ++ [e]) := by
  obtain ⟨p, pre, hp, hbh, hpre⟩ := hr.last
  have hnd : (h :: (l ++ [e])).Nodup := by
    rw [← List.cons_append]
    exact List.nodup_append_comm.mp (List.nodup_cons.mpr ⟨he, hr.nodup⟩)
  have hshape : h :: (l ++ [e]) ++ [h] = (h :: l) ++ [e, h] := by simp
  have hhe : h ≠ e := fun heq => he (heq ▸ List.mem_cons_self)
  have hpe : p ≠ e := fun heq => he (heq ▸ hp ▸ List.mem_append_right _ (List.mem_singleton_self p))
  have hpnew : p ∉ pre := by
    have hrot := hr.nodup
    rw [hp] at hrot
    exact (List.nodup_cons.mp (List.nodup_append_comm.mp hrot)).1
  refine ⟨hnd, ?_⟩
  rw [hshape, hp, List.append_assoc, List.singleton_append]
  refine List.isChain_append_cons_cons.mpr ⟨chain_of_agree (fun y hy => ?_) (fun y hy => ?_) hpre,
    ?_, List.isChain_cons_cons.mpr ⟨?_, .singleton h⟩⟩
  · rw [List.dropLast_concat] at hy
    have hyp : y ≠ p := fun heq => hpnew (heq ▸ hy)
    have hye : y ≠ e := fun heq => he (hp ▸ List.mem_append_left _ (heq ▸ hy))
    simp [IntrusiveList.insertTailList, hbh, hyp, hye]
  · rw [← hp, List.tail_cons] at hy
    have hyh : y ≠ h := fun heq => (List.nodup_cons.mp hr.nodup).1 (heq ▸ hy)
    have hye : y ≠ e := fun heq => he (List.mem_cons_of_mem _ (heq ▸ hy))
    simp [IntrusiveList.insertTailList, hyh, hye]
  · simp [Linked, IntrusiveList.insertTailList, hbh, Ne.symm hhe]
  · simp [Linked, IntrusiveList.insertTailList, hbh, Ne.symm hpe]

theorem Ring.insertTailList_frame (hr : Ring m h l) (hk : Ring m f k)
    (hd : (h :: l).Disjoint (f :: k)) (he : e ∉ f :: k) :
    Ring (IntrusiveList.insertTailList m h e) f k := by
  obtain ⟨p, pre, hp, hbh, -⟩ := hr.last
  have hpm : p ∈ h :: l := hp ▸ List.mem_append_right _ (List.mem_singleton_self p)
  refine hk.of_agree fun y hy => ?_
  have hyp : y ≠ p := fun heq => hd (heq ▸ hpm) hy
  have hyh : y ≠ h := fun heq => hd (heq ▸ List.mem_cons_self) hy
  have hye : y ≠ e := fun heq => he (heq ▸ hy)
  simp [IntrusiveList.insertTailList, hbh, hyp, hyh, hye]

omit [DecidableEq α] in
theorem Ring.first (hr : Ring m h (x :: l)) : m.flink h = x ∧ m.blink x = h :=
  (List.isChain_cons_cons.mp hr.chain).1

omit [DecidableEq α] in
theorem Ring.flink_nil (hr : Ring m h []) : m.flink h = h :=
  (List.isChain_cons_cons.mp hr.chain).1.1

omit [DecidableEq α] in
/-- The walk starts at the first entry, or at the head. -/
theorem Ring.flink_head (hr : Ring m h l) : m.flink h = l.headD h := by
  cases l with
  | nil => exact hr.flink_nil
  | cons x l => exact hr.first.1

omit [DecidableEq α] in
/-- From an entry the walk goes on to the next one, or to the head. -/
theorem Ring.flink_entry (hr : Ring m h (l ++ x :: r)) : m.flink x = r.headD h := by
  obtain ⟨p, q, pre, post, -, hq, -, hfx, -, -⟩ := hr.split
  cases r with
  | nil => simpa [hfx] using (List.cons.inj hq).1.symm
  | cons y r => simpa [hfx] using (List.cons.inj hq).1.symm

theorem Ring.isListEmpty (hr : Ring m h l) : isListEmpty m h = l.isEmpty := by
  cases l with
  | nil => simp [IntrusiveList.isListEmpty, hr.flink_nil]
  | cons x l =>
    have hne : x ≠ h := fun heq => (List.nodup_cons.mp hr.nodup).1 (heq ▸ List.mem_cons_self)
    simp [IntrusiveList.isListEmpty, hr.first.1, hne]

/-- The first entry is taken out like any other. -/
theorem Ring.removeHeadList (hr : Ring m h (x :: l)) :
    removeHeadList m h = (x, IntrusiveList.removeEntryList m x) := by
  obtain ⟨hf, hb⟩ := hr.first
  simp [IntrusiveList.removeHeadList, IntrusiveList.removeEntryList, hf, hb]

section Loops

/-- Walk from `e` to the head and stop at the first entry that `p` accepts. Reading an entry may
fault, and so does a walk of more than `n` rounds. -/
def scan (p : α → Option Bool) (m : Links α) (h : α) : ℕ → α → Option (Option α)
  | 0, _ => none
  | n + 1, e =>
    if e = h then some none
    else (p e).bind fun b => if b then some (some e) else scan p m h n (m.flink e)

/-- Walk from `e` to the head of `h` and move what `own` accepts to the tail of `f`. The next
entry is read before the move. The number is that of the entries moved. -/
def sift (own : α → Option Bool) (h f : α) : ℕ → Links α → α → Option (ℕ × Links α)
  | 0, _, _ => none
  | n + 1, m, e =>
    if e = h then some (0, m)
    else (own e).bind fun b =>
      let next := m.flink e
      if b then
        (sift own h f n (insertTailList (removeEntryList m e) f e) next).map fun r => (r.1 + 1, r.2)
      else sift own h f n m next

/-- Take the first entry off the list until it is empty. -/
def drain (free : σ → α → Option σ) (f : α) : ℕ → Links α → σ → Option (Links α × σ)
  | 0, _, _ => none
  | n + 1, m, s =>
    if isListEmpty m f then some (m, s)
    else
      let (e, m) := removeHeadList m f
      (free s e).bind fun s => drain free f n m s

variable {p : α → Option Bool} {b : α → Bool} {n : ℕ} {pre rest moved : List α}

omit [DecidableEq α] in
theorem Ring.entry_ne (hr : Ring m h (pre ++ x :: rest)) : x ≠ h := fun heq =>
  (List.nodup_cons.mp hr.nodup).1 (heq ▸ List.mem_append_right _ List.mem_cons_self)

theorem scan_spec (hr : Ring m h (pre ++ rest)) (hp : ∀ x ∈ rest, p x = some (b x))
    (hn : rest.length < n) : scan p m h n (rest.headD h) = some (rest.find? b) := by
  induction rest generalizing pre n with
  | nil =>
    obtain ⟨n, rfl⟩ := Nat.exists_eq_add_of_lt hn
    simp [scan]
  | cons x rest ih =>
    obtain ⟨n, rfl⟩ : ∃ k, n = k + 1 := ⟨n - 1, by omega⟩
    have hrest : Ring m h ((pre ++ [x]) ++ rest) := by simpa using hr
    have hnext :=
      ih hrest (fun y hy => hp y (List.mem_cons_of_mem x hy)) (Nat.lt_of_succ_lt_succ hn)
    rw [List.headD_cons, scan, if_neg hr.entry_ne, hp x List.mem_cons_self, Option.bind_some,
      hr.flink_entry, hnext, List.find?_cons]
    cases b x <;> rfl

theorem sift_spec (hr : Ring m h (pre ++ rest)) (hf : Ring m f moved)
    (hd : (h :: (pre ++ rest)).Disjoint (f :: moved)) (hp : ∀ x ∈ rest, p x = some (b x))
    (hn : rest.length < n) : ∃ m', sift p h f n m (rest.headD h) =
      some ((rest.filter b).length, m') ∧ Ring m' h (pre ++ rest.filter fun x => !b x) ∧
      Ring m' f (moved ++ rest.filter b) ∧
      (f :: (moved ++ rest.filter b)).Disjoint (h :: (pre ++ rest.filter fun x => !b x)) := by
  induction rest generalizing m pre moved n with
  | nil =>
    obtain ⟨n, rfl⟩ := Nat.exists_eq_add_of_lt hn
    exact ⟨m, by simp [sift], by simpa using hr, by simpa using hf,
      by simpa using List.disjoint_symm hd⟩
  | cons x rest ih =>
    obtain ⟨n, rfl⟩ : ∃ k, n = k + 1 := ⟨n - 1, by omega⟩
    have hp' : ∀ y ∈ rest, p y = some (b y) := fun y hy => hp y (List.mem_cons_of_mem x hy)
    have hn' : rest.length < n := Nat.lt_of_succ_lt_succ hn
    rw [List.headD_cons, sift, if_neg hr.entry_ne, hp x List.mem_cons_self, Option.bind_some]
    cases hb : b x with
    | true =>
      have hxf : x ∉ f :: moved := fun hx => hd (by simp) hx
      -- the entry leaves the one ring, then it joins the other
      have hout := hr.removeEntryList
      have hfout := hr.removeEntryList_frame hf hd
      have hnd := hr.nodup
      have hxh : x ∉ h :: (pre ++ rest) := by
        rw [← List.cons_append] at hnd ⊢
        exact (List.nodup_cons.mp (List.nodup_middle.mp hnd)).1
      have hd' : (f :: moved).Disjoint (h :: (pre ++ rest)) := fun y hy hy' => hd
        (((List.sublist_append_right [x] rest).append_left pre).cons_cons h |>.subset hy') hy
      have hin := hfout.insertTailList hxf
      have hhin := hfout.insertTailList_frame hout hd' hxh
      have hdnew : (h :: (pre ++ rest)).Disjoint (f :: (moved ++ [x])) := by
        intro y hy hy'
        rcases List.mem_append.mp (List.cons_append ▸ hy' : y ∈ (f :: moved) ++ [x]) with hy' | hy'
        · exact hd' hy' hy
        · exact hxh (List.mem_singleton.mp hy' ▸ hy)
      obtain ⟨m', hm', hh', hf', hdis⟩ := ih hhin hin hdnew hp' hn'
      refine ⟨m', ?_, by simpa [hb] using hh', by simpa [hb] using hf', by simpa [hb] using hdis⟩
      rw [hr.flink_entry]
      simp only [if_true, hm', Option.map_some, List.filter_cons_of_pos hb, List.length_cons]
    | false =>
      have hkeep : Ring m h ((pre ++ [x]) ++ rest) := by simpa using hr
      obtain ⟨m', hm', hh', hf', hdis⟩ := ih hkeep hf (by simpa using hd) hp' hn'
      refine ⟨m', ?_, by simpa [hb] using hh', by simpa [hb] using hf', by simpa [hb] using hdis⟩
      rw [hr.flink_entry, List.filter_cons_of_neg (by simp [hb])]
      simpa using hm'

theorem drain_spec {free : σ → α → Option σ} {s t : σ} (hr : Ring m f l) (hk : Ring m h k)
    (hd : (f :: l).Disjoint (h :: k)) (hs : l.foldlM free s = some t) (hn : l.length < n) :
    ∃ m', drain free f n m s = some (m', t) ∧ Ring m' f [] ∧ Ring m' h k := by
  induction l generalizing m n s with
  | nil =>
    obtain ⟨n, rfl⟩ := Nat.exists_eq_add_of_lt hn
    obtain rfl := Option.some.inj hs
    exact ⟨m, by simp [drain, hr.isListEmpty], hr, hk⟩
  | cons x l ih =>
    obtain ⟨n, rfl⟩ : ∃ k, n = k + 1 := ⟨n - 1, by omega⟩
    rw [List.foldlM_cons] at hs
    obtain ⟨u, hu, hs⟩ := Option.bind_eq_some_iff.mp hs
    have hx : Ring m f ([] ++ x :: l) := hr
    have hd' : (f :: l).Disjoint (h :: k) := fun y hy => hd
      ((List.sublist_cons_self x l).cons_cons f |>.subset hy)
    obtain ⟨m', hm', hf', hh'⟩ := ih hx.removeEntryList (hx.removeEntryList_frame hk hd) hd' hs
      (Nat.lt_of_succ_lt_succ hn)
    refine ⟨m', ?_, hf', hh'⟩
    rw [drain, hr.isListEmpty, hr.removeHeadList]
    simpa [hu] using hm'

end Loops

end WinMali.IntrusiveList
