import Mathlib.Data.List.Range
import Mathlib.Logic.Function.Basic

/-!
# Circular buffers

A ring of `d` slots with a head and a tail index holds at most `d - 1` entries:
equal indices mean that it is empty. Two ways to add an entry are proved
against the queue it stands for, one that refuses when the ring is full and one
that gives up the oldest entry.
-/

set_option autoImplicit false

namespace WinMali.FifoRing

variable {α : Type*} {d : ℕ}

structure Ring (α : Type*) (d : ℕ) where
  slots : ℕ → α
  head : ℕ
  tail : ℕ
  head_lt : head < d
  tail_lt : tail < d

namespace Ring

def count (r : Ring α d) : ℕ := if r.head ≤ r.tail then r.tail - r.head else r.tail + d - r.head

/-- The queue, oldest entry first. -/
def pending (r : Ring α d) : List α :=
  (List.range r.count).map fun k => r.slots ((r.head + k) % d)

def isFull (r : Ring α d) : Prop := (r.tail + 1) % d = r.head

instance (r : Ring α d) : Decidable r.isFull := inferInstanceAs (Decidable (_ = _))

def put (r : Ring α d) (x : α) : Ring α d :=
  { r with
    slots := Function.update r.slots r.tail x
    tail := (r.tail + 1) % d
    tail_lt := Nat.mod_lt _ (by have := r.head_lt; omega) }

def advance (r : Ring α d) : Ring α d :=
  { r with
    head := (r.head + 1) % d
    head_lt := Nat.mod_lt _ (by have := r.head_lt; omega) }

def pushIfRoom (r : Ring α d) (x : α) : Option (Ring α d) :=
  if r.isFull then none else some (r.put x)

def pushDropOldest (r : Ring α d) (x : α) : Ring α d :=
  (if r.isFull then r.advance else r).put x

def pop (r : Ring α d) : Option (α × Ring α d) :=
  if r.head = r.tail then none else some (r.slots r.head, r.advance)

end Ring

theorem mod_wrap {i : ℕ} (h : i < 2 * d) : i % d = if i < d then i else i - d := by
  split
  · rename_i hlt
    exact Nat.mod_eq_of_lt hlt
  · rename_i hge
    rw [Nat.mod_eq_sub_mod (by omega), Nat.mod_eq_of_lt (by omega)]

namespace Ring

theorem count_lt (r : Ring α d) : r.count < d := by
  have := r.head_lt
  have := r.tail_lt
  unfold count
  split <;> omega

theorem tail_eq (r : Ring α d) : (r.head + r.count) % d = r.tail := by
  have := r.head_lt
  have := r.tail_lt
  unfold count
  split
  · rw [Nat.add_sub_cancel' (by assumption), Nat.mod_eq_of_lt r.tail_lt]
  · rw [mod_wrap (by omega)]
    split <;> omega

theorem isFull_iff (r : Ring α d) : r.isFull ↔ r.count + 1 = d := by
  have := r.head_lt
  have := r.tail_lt
  unfold isFull count
  rw [mod_wrap (by omega)]
  split <;> split <;> omega

@[simp] theorem pending_length (r : Ring α d) : r.pending.length = r.count := by
  simp [pending]

theorem pending_eq_nil (r : Ring α d) : r.pending = [] ↔ r.head = r.tail := by
  have := r.head_lt
  have := r.tail_lt
  rw [← List.length_eq_zero_iff, pending_length]
  unfold count
  split <;> omega

theorem put_count (r : Ring α d) (x : α) (h : ¬r.isFull) : (r.put x).count = r.count + 1 := by
  have := r.head_lt
  have := r.tail_lt
  have hhead : (r.put x).head = r.head := rfl
  have htail : (r.put x).tail = if r.tail + 1 < d then r.tail + 1 else r.tail + 1 - d :=
    mod_wrap (by omega)
  rw [isFull_iff] at h
  unfold count at h ⊢
  rw [hhead, htail]
  split at h <;> split <;> split <;> omega

theorem pending_put (r : Ring α d) (x : α) (h : ¬r.isFull) :
    (r.put x).pending = r.pending ++ [x] := by
  have hlt := r.count_lt
  unfold pending
  rw [put_count r x h, List.range_succ, List.map_append]
  congr 1
  · apply List.map_congr_left
    intro k hk
    have hk := List.mem_range.mp hk
    -- the written slot is the first one past the entries
    have hne : (r.head + k) % d ≠ r.tail := by
      rw [← r.tail_eq]
      have := r.head_lt
      rw [mod_wrap (by omega), mod_wrap (by omega)]
      split <;> split <;> omega
    exact Function.update_of_ne hne x r.slots
  · simp [put, r.tail_eq]

theorem pending_pushIfRoom {r r' : Ring α d} {x : α} (h : r.pushIfRoom x = some r') :
    r'.pending = r.pending ++ [x] := by
  unfold pushIfRoom at h
  split at h
  · cases h
  · obtain rfl := Option.some.inj h
    exact pending_put r x (by assumption)

theorem advance_count (r : Ring α d) (h : r.head ≠ r.tail) : r.advance.count + 1 = r.count := by
  have := r.head_lt
  have := r.tail_lt
  have htail : r.advance.tail = r.tail := rfl
  have hhead : r.advance.head = if r.head + 1 < d then r.head + 1 else r.head + 1 - d :=
    mod_wrap (by omega)
  unfold count
  rw [hhead, htail]
  split <;> split <;> split <;> omega

theorem pending_advance (r : Ring α d) (h : r.head ≠ r.tail) :
    r.pending = r.slots r.head :: r.advance.pending := by
  unfold pending
  rw [← advance_count r h, List.range_succ_eq_map, List.map_cons, List.map_map, Nat.add_zero,
    Nat.mod_eq_of_lt r.head_lt]
  congr 1
  apply List.map_congr_left
  intro k _
  simp only [Function.comp_apply, advance, Nat.mod_add_mod]
  congr 2
  omega

theorem pop_some {r r' : Ring α d} {x : α} (h : r.pop = some (x, r')) :
    r.pending = x :: r'.pending := by
  unfold pop at h
  split at h
  · cases h
  · obtain ⟨rfl, rfl⟩ := Prod.mk.inj (Option.some.inj h)
    exact pending_advance r (by assumption)

theorem pop_none {r : Ring α d} (h : r.pop = none) : r.pending = [] := by
  unfold pop at h
  split at h
  · exact r.pending_eq_nil.mpr (by assumption)
  · cases h

theorem pending_pushDropOldest (r : Ring α d) (x : α) (hd : 1 < d) :
    (r.pushDropOldest x).pending = (if r.isFull then r.pending.tail else r.pending) ++ [x] := by
  unfold pushDropOldest
  split
  · rename_i hfull
    rw [isFull_iff] at hfull
    have hne : r.head ≠ r.tail := by
      intro heq
      have : r.count = 0 := by simp [count, heq]
      omega
    have hroom : ¬r.advance.isFull := by
      rw [isFull_iff]
      have := advance_count r hne
      omega
    rw [pending_put _ _ hroom, pending_advance r hne, List.tail_cons]
  · exact pending_put r x (by assumption)

end Ring

def empty (x : α) (hd : 0 < d) : Ring α d := ⟨fun _ => x, 0, 0, hd, hd⟩

theorem pending_empty (x : α) (hd : 0 < d) : (empty x hd).pending = [] :=
  (Ring.pending_eq_nil _).mpr rfl

end WinMali.FifoRing
