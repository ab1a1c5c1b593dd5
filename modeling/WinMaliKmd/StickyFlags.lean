import Mathlib.Data.Nat.Notation

/-!
# Sticky flags with handlers

A word whose bits rise by themselves and stay until a write of ones takes them down. A handler
reads the word at one moment and takes down at a later one what it has read. A bit is unseen
from its rise until a handler reads it, and wiped when it was taken down by one that is no
handler, until it rises again.
-/

set_option autoImplicit false

namespace WinMali.StickyFlags

variable {w : ℕ} {ι : Type*}

structure Flags (w : ℕ) where
  raw : BitVec w
  unseen : BitVec w
  wiped : BitVec w
deriving DecidableEq, Repr

namespace Flags

def raise (v : BitVec w) (f : Flags w) : Flags w :=
  ⟨f.raw ||| v, f.unseen ||| (v &&& ~~~f.raw), f.wiped &&& ~~~v⟩

/-- The word is read by a handler. -/
def see (f : Flags w) : Flags w := { f with unseen := f.unseen &&& ~~~f.raw }

def clear (v : BitVec w) (f : Flags w) : Flags w := { f with raw := f.raw &&& ~~~v }

/-- Bits are taken down that nobody need have read. -/
def discard (v : BitVec w) (f : Flags w) : Flags w :=
  ⟨f.raw &&& ~~~v, f.unseen, f.wiped ||| (f.raw &&& v)⟩

end Flags

@[simp] theorem clear_zero (f : Flags w) : f.clear 0 = f := by
  have hraw : f.raw &&& ~~~0 = f.raw := by simp
  simp only [Flags.clear, hraw]

/-- What each handler has read and not taken down yet. -/
def hold [DecidableEq ι] (held : ι → BitVec w) (h : ι) (v : BitVec w) : ι → BitVec w :=
  fun i => if i = h then v else held i

/-- A bit that stands has not been read since it rose, or a handler is about to take it down. -/
def Attended (f : Flags w) (held : ι → BitVec w) : Prop :=
  ∀ i, f.raw.getLsbD i = true → f.unseen.getLsbD i = true ∨ ∃ h, (held h).getLsbD i = true

/-- No handler takes down an unseen bit: it stands or was wiped, and no handler holds it. -/
structure Kept (f : Flags w) (held : ι → BitVec w) : Prop where
  stands : ∀ i, f.unseen.getLsbD i = true → f.raw.getLsbD i = true ∨ f.wiped.getLsbD i = true
  held : ∀ h i, (held h).getLsbD i = true → f.raw.getLsbD i = true ∧ f.unseen.getLsbD i = false

/-- What an access of the handler `h` does: nothing to this word, or it reads it, or in its turn
it takes down what it holds. -/
inductive Handled [DecidableEq ι] (f : Flags w) (held : ι → BitVec w) (h : ι) (turn : Prop)
    (f' : Flags w) (held' : ι → BitVec w) : Prop
  | quiet (hf : f' = f) (hheld : held' = held)
  | read (hf : f' = f.see) (hheld : held' = hold held h f.raw)
  | ack (hturn : turn) (hf : f' = f.clear (held h)) (hheld : held' = hold held h 0)

variable {f f' : Flags w} {held held' : ι → BitVec w}

theorem Attended.raise (A : Attended f held) (v : BitVec w) : Attended (f.raise v) held := by
  intro i hi
  simp only [Flags.raise, BitVec.getLsbD_or, BitVec.getLsbD_and, BitVec.getLsbD_not,
    Bool.or_eq_true, Bool.and_eq_true] at hi ⊢
  cases hraw : f.raw.getLsbD i with
  | true => exact (A i hraw).imp_left .inl
  | false =>
    rw [hraw] at hi
    have hv : v.getLsbD i = true := hi.resolve_left Bool.false_ne_true
    exact .inl (.inr ⟨hv, decide_eq_true (BitVec.lt_of_getLsbD hv), rfl⟩)

theorem Attended.discard (A : Attended f held) (v : BitVec w) :
    Attended (f.discard v) held := by
  intro i hi
  simp only [Flags.discard, BitVec.getLsbD_and, Bool.and_eq_true] at hi
  exact A i hi.1

theorem Kept.raise (K : Kept f held) (v : BitVec w) : Kept (f.raise v) held := by
  constructor
  · intro i hi
    simp only [Flags.raise, BitVec.getLsbD_or, BitVec.getLsbD_and, BitVec.getLsbD_not,
      Bool.or_eq_true, Bool.and_eq_true] at hi ⊢
    cases hv : v.getLsbD i with
    | true => exact .inl (.inr rfl)
    | false =>
      rw [hv] at hi
      have hunseen := hi.resolve_right fun h => Bool.false_ne_true h.1
      refine (K.stands i hunseen).imp .inl fun hwiped => ⟨hwiped, ?_⟩
      simp [BitVec.lt_of_getLsbD hwiped]
  · intro h i hi
    obtain ⟨hraw, hunseen⟩ := K.held h i hi
    simp [Flags.raise, hraw, hunseen]

theorem Kept.discard (K : Kept f held) (v : BitVec w) (hfree : ∀ h, held h = 0) :
    Kept (f.discard v) held := by
  constructor
  · intro i hi
    have hi : f.unseen.getLsbD i = true := hi
    simp only [Flags.discard, BitVec.getLsbD_or, BitVec.getLsbD_and, BitVec.getLsbD_not,
      Bool.or_eq_true, Bool.and_eq_true]
    rcases K.stands i hi with hraw | hwiped
    · cases hv : v.getLsbD i with
      | true => exact .inr (.inr ⟨hraw, rfl⟩)
      | false => exact .inl ⟨hraw, by simp [BitVec.lt_of_getLsbD hraw]⟩
    · exact .inr (.inl hwiped)
  · intro h i hi
    rw [hfree h] at hi
    simp at hi

variable [DecidableEq ι]

theorem hold_same (held : ι → BitVec w) (h : ι) (v : BitVec w) : hold held h v h = v :=
  if_pos rfl

theorem hold_other {h i : ι} (hi : i ≠ h) (v : BitVec w) : hold held h v i = held i := if_neg hi

/-- Once a handler has read the word, it holds all that stands. -/
theorem attended_see (f : Flags w) (held : ι → BitVec w) (h : ι) :
    Attended f.see (hold held h f.raw) :=
  fun _ hi => .inr ⟨h, (hold_same held h f.raw).symm ▸ hi⟩

theorem Attended.clear (A : Attended f held) (h : ι) :
    Attended (f.clear (held h)) (hold held h 0) := by
  intro i hi
  simp only [Flags.clear, BitVec.getLsbD_and, BitVec.getLsbD_not, Bool.and_eq_true] at hi
  rcases A i hi.1 with hunseen | ⟨j, hj⟩
  · exact .inl hunseen
  · refine .inr ⟨j, ?_⟩
    rw [hold_other _ 0]
    · exact hj
    · rintro rfl
      simp [hj] at hi

theorem Kept.see (K : Kept f held) (h : ι) : Kept f.see (hold held h f.raw) := by
  constructor
  · intro i hi
    simp only [Flags.see, BitVec.getLsbD_and, Bool.and_eq_true] at hi
    exact K.stands i hi.1
  · intro j i hi
    by_cases hj : j = h
    · rw [hj, hold_same] at hi
      simp [Flags.see, hi]
    · rw [hold_other hj] at hi
      obtain ⟨hraw, hunseen⟩ := K.held j i hi
      simp [Flags.see, hraw, hunseen]

/-- With one handler at a time, what it takes down is what it has read. -/
theorem Kept.clear (K : Kept f held) (h : ι) (halone : ∀ j, j ≠ h → held j = 0) :
    Kept (f.clear (held h)) (hold held h 0) := by
  constructor
  · intro i hi
    have hheld : (held h).getLsbD i = false := by
      cases hc : (held h).getLsbD i with
      | false => rfl
      | true => exact absurd hi (by simp [(K.held h i hc).2, Flags.clear])
    refine (K.stands i hi).imp_left fun hraw => ?_
    have hlt : i < w := BitVec.lt_of_getLsbD hraw
    simp only [Flags.clear, BitVec.getLsbD_and, BitVec.getLsbD_not, hraw, hheld, hlt]
    rfl
  · intro j i hi
    by_cases hj : j = h
    · rw [hj, hold_same] at hi
      simp at hi
    · rw [hold_other hj, halone j hj] at hi
      simp at hi

theorem hold_self (held : ι → BitVec w) (h : ι) : hold held h (held h) = held := by
  funext i
  by_cases hi : i = h
  · rw [hi, hold_same]
  · exact hold_other hi _

theorem Attended.handled (A : Attended f held) {h : ι} {turn : Prop}
    (H : Handled f held h turn f' held') : Attended f' held' := by
  cases H with
  | quiet hf hheld => exact hf ▸ hheld ▸ A
  | read hf hheld => exact hf ▸ hheld ▸ attended_see f held h
  | ack _ hf hheld => exact hf ▸ hheld ▸ A.clear h

theorem Kept.handled (K : Kept f held) {h : ι} {turn : Prop}
    (H : Handled f held h turn f' held') (halone : turn → ∀ j, j ≠ h → held j = 0) :
    Kept f' held' := by
  cases H with
  | quiet hf hheld => exact hf ▸ hheld ▸ K
  | read hf hheld => exact hf ▸ hheld ▸ K.see h
  | ack hturn hf hheld => exact hf ▸ hheld ▸ K.clear h (halone hturn)

theorem Handled.raw {h : ι} {turn : Prop} (H : Handled f held h turn f' held') {i : ℕ}
    (hi : f'.raw.getLsbD i = true) : f.raw.getLsbD i = true := by
  cases H with
  | quiet hf _ => exact hf ▸ hi
  | read hf _ =>
    rw [hf] at hi
    exact hi
  | ack _ hf _ =>
    rw [hf, Flags.clear, BitVec.getLsbD_and, Bool.and_eq_true] at hi
    exact hi.1

end WinMali.StickyFlags
