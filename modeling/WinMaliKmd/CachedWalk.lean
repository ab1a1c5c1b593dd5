import Mathlib.Data.List.Basic
import Mathlib.Data.Nat.Notation

/-!
# Caches of a map under change

A writer stores entries of a map one after another, and a reader keeps answers that it
looked up at moments of its own choice. A flush that is taken empties the cache; one that
is not taken does nothing. Histories have their newest event first.
-/

set_option autoImplicit false

namespace WinMali.CachedWalk

variable {A V : Type*}

inductive Event (A V : Type*)
  | store (a : A) (value : Option V)
  | flush (taken : Bool)

section Defs

variable [DecidableEq A]

def mapping : List (Event A V) → A → Option V
  | [], _ => none
  | .store a value::es, b => if b = a then value else mapping es b
  | .flush _::es, b => mapping es b

/-- An address without an answer leaves no entry. -/
def fill (m : A → Option V) (looks : List A) (cache : List (A × V)) : List (A × V) :=
  looks.filterMap (fun a => (m a).map fun v => (a, v)) ++ cache

/-- `looks k` is what the reader looks up between the events `k` and `k + 1`. -/
def cache (looks : ℕ → List A) : List (Event A V) → List (A × V)
  | [] => []
  | .store a value::es =>
    fill (mapping (.store a value::es)) (looks (es.length + 1)) (cache looks es)
  | .flush taken::es =>
    fill (mapping es) (looks (es.length + 1)) (if taken then [] else cache looks es)

end Defs

/-- The addresses stored to since the last flush that was taken. -/
def unflushed : List (Event A V) → List A
  | [] => []
  | .store a _::es => a::unflushed es
  | .flush taken::es => if taken then [] else unflushed es

/-- `v` was an answer for `a` at some moment since the last flush that was taken. -/
def Answered [DecidableEq A] (es : List (Event A V)) (a : A) (v : V) : Prop :=
  ∃ recent older, es = recent ++ older ∧ .flush true ∉ recent ∧ mapping older a = some v

theorem mem_fill {m : A → Option V} {looks : List A} {c : List (A × V)} {a : A}
    {v : V} :
    (a, v) ∈ fill m looks c ↔ a ∈ looks ∧ m a = some v ∨ (a, v) ∈ c := by
  simp only [fill, List.mem_append, List.mem_filterMap, Option.map_eq_some_iff, Prod.mk.injEq]
  constructor
  · rintro (⟨b, hb, w, hw, rfl, rfl⟩ | h)
    · exact .inl ⟨hb, hw⟩
    · exact .inr h
  · rintro (⟨hb, hw⟩ | h)
    · exact .inl ⟨a, hb, v, hw, rfl, rfl⟩
    · exact .inr h

section Facts

variable [DecidableEq A] {es : List (Event A V)} {a : A} {v : V}

theorem Answered.now (h : mapping es a = some v) : Answered es a v := ⟨[], es, rfl, by simp, h⟩

theorem Answered.cons {e : Event A V} (h : Answered es a v) (he : e ≠ .flush true) :
    Answered (e::es) a v := by
  obtain ⟨recent, older, rfl, hrecent, hv⟩ := h
  refine ⟨e::recent, older, rfl, ?_, hv⟩
  rw [List.mem_cons, not_or]
  exact ⟨he.symm, hrecent⟩

theorem answered_of_mem (looks : ℕ → List A) (h : (a, v) ∈ cache looks es) :
    Answered es a v := by
  induction es with
  | nil => cases h
  | cons e es ih =>
    cases e with
    | store b value =>
      rcases mem_fill.mp h with ⟨-, hv⟩ | h
      · exact .now hv
      · exact (ih h).cons (by simp)
    | flush taken =>
      rcases mem_fill.mp h with ⟨-, hv⟩ | h
      · exact .now hv
      · cases taken with
        | true => simp at h
        | false => exact (ih h).cons (by simp)

/-- An answer that is no longer right is one for an address stored to since. -/
theorem Answered.current_or_unflushed (h : Answered es a v) :
    mapping es a = some v ∨ a ∈ unflushed es := by
  obtain ⟨recent, older, rfl, hrecent, hv⟩ := h
  induction recent with
  | nil => exact .inl hv
  | cons e recent ih =>
    rw [List.mem_cons, not_or] at hrecent
    have h := ih hrecent.2
    cases e with
    | store b value =>
      by_cases hb : a = b
      · exact .inr (by simp [unflushed, hb])
      · refine h.imp (fun hm => ?_) fun hu => ?_
        · simpa [mapping, hb] using hm
        · simp [unflushed, hu]
    | flush taken =>
      cases taken with
      | true => exact absurd rfl hrecent.1
      | false => exact h.imp id fun hu => by simpa [unflushed] using hu

end Facts

end WinMali.CachedWalk
