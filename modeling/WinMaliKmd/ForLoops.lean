import Mathlib.Data.Nat.Basic

/-!
# Counting loops that may return

A `for` loop whose body may return from the function around it. What holds after the loop is
put together from the turns that it comes to: turn `j` is run when the turns before it let
the loop go on.
-/

set_option autoImplicit false

namespace WinMali.ForLoops

variable {S E : Type*}

/-- `left` more turns, from turn `i` on. A turn returns `some e`, or goes on with `none`. -/
def forLoop (turn : ℕ → S → Option E × S) : ℕ → ℕ → S → Option E × S
  | 0, _, s => (none, s)
  | left + 1, i, s =>
    match turn i s with
    | (none, s') => forLoop turn left (i + 1) s'
    | out => out

/-- One turn, for a loop invariant `inv`: it goes on when `good` holds of its index, and it
adds `ok` to what is known by `holds`. -/
structure Turns (turn : ℕ → S → Option E × S) (inv : ℕ → S → Prop) (good ok : ℕ → Prop)
    (holds : S → Prop) : Prop where
  goes : ∀ {i s}, inv i s → ((turn i s).1 = none ↔ good i)
  keeps : ∀ {i s}, inv i s → good i → inv (i + 1) (turn i s).2
  adds : ∀ {i s}, inv i s → (holds (turn i s).2 ↔ holds s ∧ ok i)

variable {turn : ℕ → S → Option E × S} {inv : ℕ → S → Prop} {good ok : ℕ → Prop}
  {holds : S → Prop} {i left : ℕ} {s : S}

theorem forLoop_goes (h : (turn i s).1 = none) :
    forLoop turn (left + 1) i s = forLoop turn left (i + 1) (turn i s).2 := by
  rcases ht : turn i s with ⟨out, s'⟩
  rw [ht] at h
  obtain rfl : out = none := h
  rw [forLoop, ht]

theorem forLoop_stops (h : (turn i s).1 ≠ none) :
    forLoop turn (left + 1) i s = turn i s := by
  rcases ht : turn i s with ⟨out, s'⟩
  rw [ht] at h
  cases out with
  | none => exact absurd rfl h
  | some e => rw [forLoop, ht]

section Range

variable {P : ℕ → Prop}

theorem forall_turns_succ : (∀ j, i ≤ j → j < i + (left + 1) → P j) ↔
    P i ∧ ∀ j, i + 1 ≤ j → j < i + 1 + left → P j := by
  constructor
  · exact fun h => ⟨h i le_rfl (by omega), fun j h1 h2 => h j (by omega) (by omega)⟩
  · rintro ⟨hfirst, hrest⟩ j h1 h2
    obtain rfl | h1 := Nat.eq_or_lt_of_le h1
    · exact hfirst
    · exact hrest j h1 (by omega)

theorem exists_turns_succ : (∃ j, i ≤ j ∧ j < i + (left + 1) ∧ P j) ↔
    P i ∨ ∃ j, i + 1 ≤ j ∧ j < i + 1 + left ∧ P j := by
  constructor
  · rintro ⟨j, h1, h2, hj⟩
    obtain rfl | h1 := Nat.eq_or_lt_of_le h1
    · exact .inl hj
    · exact .inr ⟨j, h1, by omega, hj⟩
  · rintro (hfirst | ⟨j, h1, h2, hj⟩)
    · exact ⟨i, le_rfl, by omega, hfirst⟩
    · exact ⟨j, by omega, by omega, hj⟩

end Range

/-- The loop comes to its end when every turn is good. -/
theorem Turns.goes_iff (T : Turns turn inv good ok holds) (hi : inv i s) :
    (forLoop turn left i s).1 = none ↔ ∀ j, i ≤ j → j < i + left → good j := by
  induction left generalizing i s with
  | zero => exact ⟨fun _ j h1 h2 => absurd h2 (by omega), fun _ => rfl⟩
  | succ left ih =>
    by_cases hg : good i
    · rw [forLoop_goes ((T.goes hi).mpr hg), ih (T.keeps hi hg), forall_turns_succ]
      exact (and_iff_right hg).symm
    · have hs : (turn i s).1 ≠ none := fun h => hg ((T.goes hi).mp h)
      rw [forLoop_stops hs]
      exact ⟨fun h => absurd h hs, fun h => absurd (h i le_rfl (by omega)) hg⟩

theorem Turns.keeps_all (T : Turns turn inv good ok holds) (hi : inv i s)
    (h : ∀ j, i ≤ j → j < i + left → good j) : inv (i + left) (forLoop turn left i s).2 := by
  induction left generalizing i s with
  | zero => exact hi
  | succ left ih =>
    obtain ⟨hg, hrest⟩ := forall_turns_succ.mp h
    rw [forLoop_goes ((T.goes hi).mpr hg), show i + (left + 1) = i + 1 + left by omega]
    exact ih (T.keeps hi hg) hrest

/-- What the loop adds is what each turn adds that it comes to. -/
theorem Turns.adds_iff (T : Turns turn inv good ok holds) (hi : inv i s) :
    holds (forLoop turn left i s).2 ↔
      holds s ∧ ∀ j, i ≤ j → j < i + left → (∀ k, i ≤ k → k < j → good k) → ok j := by
  induction left generalizing i s with
  | zero => exact ⟨fun h => ⟨h, fun j h1 h2 => absurd h2 (by omega)⟩, fun h => h.1⟩
  | succ left ih =>
    have hfirst (h : ∀ j, i ≤ j → j < i + (left + 1) → (∀ k, i ≤ k → k < j → good k) → ok j) :
        ok i := h i le_rfl (by omega) fun k h1 h2 => absurd h2 (by omega)
    by_cases hg : good i
    · rw [forLoop_goes ((T.goes hi).mpr hg), ih (T.keeps hi hg), T.adds hi, and_assoc]
      refine and_congr_right fun _ => ⟨?_, fun h => ⟨hfirst h, ?_⟩⟩
      · rintro ⟨hok, h⟩ j h1 h2 hbefore
        obtain rfl | h1 := Nat.eq_or_lt_of_le h1
        · exact hok
        · exact h j h1 (by omega) fun k h3 h4 => hbefore k (by omega) h4
      · intro j h1 h2 hbefore
        refine h j (by omega) (by omega) fun k h3 h4 => ?_
        obtain rfl | h3 := Nat.eq_or_lt_of_le h3
        · exact hg
        · exact hbefore k h3 h4
    · rw [forLoop_stops fun h => hg ((T.goes hi).mp h), T.adds hi]
      refine and_congr_right fun _ => ⟨fun hok j h1 h2 hbefore => ?_, hfirst⟩
      obtain rfl | h1 := Nat.eq_or_lt_of_le h1
      · exact hok
      · exact absurd (hbefore i le_rfl h1) hg

section FromZero

variable {n : ℕ}

theorem Turns.goes_all (T : Turns turn inv good ok holds) (hi : inv 0 s) :
    (forLoop turn n 0 s).1 = none ↔ ∀ j < n, good j := by
  rw [T.goes_iff hi, Nat.zero_add]
  exact forall_congr' fun j => ⟨fun h => h (Nat.zero_le j), fun h _ => h⟩

theorem Turns.adds_all (T : Turns turn inv good ok holds) (hi : inv 0 s) :
    holds (forLoop turn n 0 s).2 ↔ holds s ∧ ∀ j < n, (∀ k < j, good k) → ok j := by
  rw [T.adds_iff hi, Nat.zero_add]
  refine and_congr_right fun _ => forall_congr' fun j => ?_
  constructor
  · exact fun h hj hbefore => h (Nat.zero_le j) hj fun k _ => hbefore k
  · exact fun h _ hj hbefore => h hj fun k => hbefore k (Nat.zero_le k)

end FromZero

end WinMali.ForLoops
