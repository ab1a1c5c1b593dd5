import Mathlib.Data.List.Nodup
import Mathlib.Logic.Function.Basic

/-!
# Who holds what was allocated

Handles come from an allocator and are kept in named fields. A field is written without a look
at what it held, and a free takes whatever the field names, so that handles can be lost or
freed twice; the balance says that neither has happened.
-/

set_option autoImplicit false

namespace WinMali.Ledger

/-- `live` is what the allocator has out, `wild` what was freed while it was not out. -/
structure Accounts (K : Type*) where
  field : K → Option ℕ
  live : List ℕ
  next : ℕ
  wild : List ℕ

variable {K : Type*} [DecidableEq K]

def empty {K : Type*} : Accounts K := ⟨fun _ => none, [], 0, []⟩

/-- The field gets what the allocator returns, nothing when it refuses. -/
def take (k : K) (granted : Bool) (l : Accounts K) : Accounts K :=
  if granted then
    { l with
      field := Function.update l.field k (some l.next)
      live := l.next :: l.live
      next := l.next + 1 }
  else { l with field := Function.update l.field k none }

/-- The free of a field that is not null, which it is from then on. -/
def give (k : K) (l : Accounts K) : Accounts K :=
  match l.field k with
  | none => l
  | some h =>
    { l with
      field := Function.update l.field k none
      live := l.live.erase h
      wild := if h ∈ l.live then l.wild else h :: l.wild }

def held {K : Type*} (l : Accounts K) (k : K) : Bool := (l.field k).isSome

def giveAll (ks : List K) (l : Accounts K) : Accounts K := ks.foldl (fun l k => give k l) l

/-- The fields of an object that goes away; what they hold goes to nobody. -/
def wipe {K : Type*} (p : K → Bool) (l : Accounts K) : Accounts K :=
  { l with field := fun k => if p k then none else l.field k }

/-- Every handle that is out is in exactly one field, and none was freed twice. -/
structure Balanced {K : Type*} (l : Accounts K) : Prop where
  out : ∀ h, h ∈ l.live ↔ ∃ k, l.field k = some h
  one : ∀ k k' h, l.field k = some h → l.field k' = some h → k = k'
  nodup : l.live.Nodup
  fresh : ∀ h ∈ l.live, h < l.next
  once : l.wild = []

section Facts

variable {l : Accounts K} {k k' : K} {granted : Bool}

@[simp] theorem held_take_self : held (take k granted l) k = granted := by
  cases granted <;> simp [held, take]

theorem held_take_ne (h : k' ≠ k) : held (take k granted l) k' = held l k' := by
  cases granted <;> simp [held, take, h]

@[simp] theorem held_give_self : held (give k l) k = false := by
  unfold give
  cases h : l.field k <;> simp [held, h]

theorem held_give_ne (h : k' ≠ k) : held (give k l) k' = held l k' := by
  unfold give
  cases hk : l.field k <;> simp [held, h]

theorem held_give (l : Accounts K) (k k' : K) :
    held (give k l) k' = (held l k' && decide (k' ≠ k)) := by
  by_cases h : k' = k
  · subst h
    simp
  · simp [held_give_ne h, h]

theorem held_giveAll (ks : List K) (l : Accounts K) (k : K) :
    held (giveAll ks l) k = (held l k && decide (k ∉ ks)) := by
  induction ks generalizing l with
  | nil => simp [giveAll]
  | cons j ks ih =>
    rw [giveAll, List.foldl_cons]
    refine (ih (give j l)).trans ?_
    rw [held_give]
    by_cases hj : k = j <;> simp [hj]

omit [DecidableEq K] in
theorem held_wipe (p : K → Bool) (l : Accounts K) (k : K) :
    held (wipe p l) k = (held l k && !p k) := by
  unfold held wipe
  cases hp : p k <;> simp [hp]

omit [DecidableEq K] in
theorem Balanced.wipe {p : K → Bool} (B : Balanced l) (h : ∀ k, p k = true → held l k = false) :
    Balanced (wipe p l) := by
  have hfield : (Ledger.wipe p l).field = l.field := by
    funext k
    simp only [Ledger.wipe]
    split
    · rename_i hp
      have hnone : l.field k = none := by simpa [held] using h k hp
      exact hnone.symm
    · rfl
  exact ⟨fun x => by rw [hfield]; exact B.out x, fun k k' x => by rw [hfield]; exact B.one k k' x,
    B.nodup, B.fresh, B.once⟩

omit [DecidableEq K] in
theorem balanced_empty : Balanced (empty : Accounts K) := by
  refine ⟨fun h => ?_, fun k k' h hk => ?_, List.nodup_nil, fun h hh => ?_, rfl⟩
  · simp [empty]
  · cases hk
  · cases hh

/-- An allocation loses nothing when its field is free. -/
theorem Balanced.take (B : Balanced l) (hk : held l k = false) : Balanced (take k granted l) := by
  have hnone : l.field k = none := by simpa [held] using hk
  cases granted with
  | false =>
    have hfield : Function.update l.field k none = l.field := by
      rw [← hnone, Function.update_eq_self]
    simp only [Ledger.take, hfield]
    exact B
  | true =>
    have hfield (j : K) (h : ℕ) : Function.update l.field k (some l.next) j = some h ↔
        j = k ∧ h = l.next ∨ l.field j = some h := by
      by_cases hj : j = k
      · subst hj
        simp [hnone, eq_comm]
      · simp [hj]
    have hold (j : K) (h : ℕ) (hj : l.field j = some h) : h < l.next :=
      B.fresh h ((B.out h).mpr ⟨j, hj⟩)
    simp only [Ledger.take, if_true]
    refine ⟨fun h => ?_, fun j j' h hj hj' => ?_, ?_, fun h hh => ?_, B.once⟩
    · simp only [hfield, List.mem_cons, B.out h]
      constructor
      · rintro (rfl | ⟨j, hj⟩)
        · exact ⟨k, .inl ⟨rfl, rfl⟩⟩
        · exact ⟨j, .inr hj⟩
      · rintro ⟨j, ⟨-, rfl⟩ | hj⟩
        · exact .inl rfl
        · exact .inr ⟨j, hj⟩
    · rcases (hfield j h).mp hj with ⟨hjk, hh⟩ | hj
      · rcases (hfield j' h).mp hj' with ⟨hjk', -⟩ | hj'
        · exact hjk.trans hjk'.symm
        · exact absurd (hh ▸ hold j' h hj') (Nat.lt_irrefl _)
      · rcases (hfield j' h).mp hj' with ⟨-, hh⟩ | hj'
        · exact absurd (hh ▸ hold j h hj) (Nat.lt_irrefl _)
        · exact B.one j j' h hj hj'
    · exact List.nodup_cons.mpr ⟨fun h => absurd (B.fresh _ h) (Nat.lt_irrefl _), B.nodup⟩
    · rcases List.mem_cons.mp hh with rfl | hh
      · exact Nat.lt_succ_self _
      · exact Nat.lt_succ_of_lt (B.fresh h hh)

theorem Balanced.give (B : Balanced l) (k : K) : Balanced (give k l) := by
  unfold Ledger.give
  cases hk : l.field k with
  | none => exact B
  | some h =>
    have hlive : h ∈ l.live := (B.out h).mpr ⟨k, hk⟩
    have hfield (j : K) (x : ℕ) : Function.update l.field k none j = some x ↔
        l.field j = some x ∧ x ≠ h := by
      by_cases hj : j = k
      · subst hj
        simp only [Function.update_self, hk, Option.some.injEq, reduceCtorEq, false_iff, not_and,
          not_not]
        exact fun hx => hx.symm
      · simp only [Function.update_of_ne hj]
        refine ⟨fun hx => ⟨hx, ?_⟩, And.left⟩
        rintro rfl
        exact hj (B.one j k x hx hk)
    refine ⟨fun x => ?_, fun j j' x hj hj' => ?_, B.nodup.erase h, fun x hx => ?_, ?_⟩
    · simp only [hfield, B.nodup.mem_erase_iff, B.out x]
      constructor
      · rintro ⟨hne, j, hj⟩
        exact ⟨j, hj, hne⟩
      · rintro ⟨j, hj, hne⟩
        exact ⟨hne, j, hj⟩
    · exact B.one j j' x ((hfield j x).mp hj).1 ((hfield j' x).mp hj').1
    · exact B.fresh x (List.mem_of_mem_erase hx)
    · simp only [hlive, if_true]
      exact B.once

theorem Balanced.giveAll (B : Balanced l) (ks : List K) : Balanced (giveAll ks l) := by
  induction ks generalizing l with
  | nil => exact B
  | cons k ks ih => exact ih (B.give k)

omit [DecidableEq K] in
/-- Nothing is out when no field holds anything. -/
theorem Balanced.nothing_out (B : Balanced l) (h : ∀ k, held l k = false) : l.live = [] := by
  refine List.eq_nil_iff_forall_not_mem.mpr fun x hx => ?_
  obtain ⟨k, hk⟩ := (B.out x).mp hx
  have hfree := h k
  rw [held, hk] at hfree
  cases hfree

end Facts

end WinMali.Ledger
