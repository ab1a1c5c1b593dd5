import Mathlib.Data.Nat.Notation

/-!
# A bell of two bits

A caller rings by making a request bit differ from an answer bit, and a listener answers by
copying the request. The listener reads the request at one moment and answers at a later one,
and so does the caller with the answer. Times are those of a clock that moves on with every
step, so two events of one side are in the order of their times.
-/

set_option autoImplicit false

namespace WinMali.ToggleBell

/-- `hand` is the request that the listener has read and not answered, `due` that it has
answered a ring and not served it. -/
structure Bell where
  req : Bool
  ack : Bool
  hand : Option Bool
  due : Bool
  looked : ℕ
  served : ℕ
deriving DecidableEq, Repr

namespace Bell

def look (now : ℕ) (b : Bell) : Bell := { b with hand := some b.req, looked := now }

def answer (b : Bell) : Bell :=
  match b.hand with
  | none => b
  | some r => { b with ack := r, due := b.due || (b.ack ^^ r), hand := none }

def serve (now : ℕ) (b : Bell) : Bell := { b with due := false, served := now }

def write (v : Bool) (b : Bell) : Bell := { b with req := v }

end Bell

variable {b : Bell} {t t' u now : ℕ} {o : Bool}

/-- A caller that has read the answer `o` at time `t` and has not written yet. -/
def Ringing (b : Bell) (t : ℕ) (o : Bool) : Prop := b.ack ≠ o → b.due = true ∨ t ≤ b.served

/-- A ring whose caller read the answer at time `t` and wrote at time `t'`. -/
structure Rung (b : Bell) (t t' : ℕ) : Prop where
  shown : b.served < t → b.req ≠ b.ack ∨ b.due = true
  noticed : t' ≤ b.looked → b.served < t → b.due = true ∨ ∃ r, b.hand = some r ∧ r ≠ b.ack

theorem Ringing.begin (b : Bell) (t : ℕ) : Ringing b t b.ack := fun h => absurd rfl h

theorem Ringing.look (R : Ringing b t o) (now : ℕ) : Ringing (b.look now) t o := R

theorem Ringing.answer (R : Ringing b t o) : Ringing b.answer t o := by
  unfold Bell.answer
  cases hhand : b.hand with
  | none => exact R
  | some r =>
    intro hr
    by_cases ho : b.ack = o
    · refine .inl ?_
      have hflip : (b.ack ^^ r) = true := by
        rw [ho]
        revert hr
        cases o <;> cases r <;> simp
      simp [hflip]
    · rcases R ho with hdue | hserved
      · exact .inl (by simp [hdue])
      · exact .inr hserved

theorem Ringing.serve (ht : t ≤ now) : Ringing (b.serve now) t o := fun _ => .inr ht

theorem Ringing.write (R : Ringing b t o) (v : Bool) : Ringing (b.write v) t o := R

theorem Rung.look (R : Rung b t t') (now : ℕ) : Rung (b.look now) t t' := by
  refine ⟨R.shown, fun _ hserved => ?_⟩
  rcases R.shown hserved with hne | hdue
  · exact .inr ⟨b.req, rfl, hne⟩
  · exact .inl hdue

theorem Rung.answer (R : Rung b t t') : Rung b.answer t t' := by
  unfold Bell.answer
  cases hhand : b.hand with
  | none => exact R
  | some r =>
    have hdue (h : b.ack ≠ r) : (b.due || (b.ack ^^ r)) = true := by
      revert h
      cases b.ack <;> cases r <;> simp
    constructor
    · intro hserved
      by_cases hr : b.ack = r
      · rcases R.shown hserved with hne | hd
        · exact .inl (hr ▸ hne)
        · exact .inr (by simp [hd])
      · exact .inr (hdue hr)
    · intro hlooked hserved
      rcases R.noticed hlooked hserved with hd | ⟨r', hr', hne⟩
      · exact .inl (by simp [hd])
      · obtain rfl := Option.some.inj (hhand.symm.trans hr')
        exact .inl (hdue hne.symm)

theorem Rung.serve (ht : t ≤ now) : Rung (b.serve now) t t' :=
  ⟨fun h => absurd ht (Nat.not_le.mpr h), fun _ h => absurd ht (Nat.not_le.mpr h)⟩

/-- A later caller's write hides no ring: it read the answer after that ring was written. -/
theorem Rung.write (R : Rung b t t') (ht : t ≤ u) (hring : Ringing b u o) :
    Rung (b.write (!o)) t t' := by
  refine ⟨fun hserved => ?_, R.noticed⟩
  by_cases ho : b.ack = o
  · exact .inl (by cases o <;> simp [Bell.write, ho])
  · rcases hring ho with hdue | hu
    · exact .inr hdue
    · exact absurd hserved (Nat.not_lt.mpr (Nat.le_trans ht hu))

theorem Ringing.rung (R : Ringing b t o) (hlooked : b.looked < t') :
    Rung (b.write (!o)) t t' := by
  refine ⟨fun hserved => ?_, fun h => absurd hlooked (Nat.not_lt.mpr h)⟩
  by_cases ho : b.ack = o
  · exact .inl (by cases o <;> simp [Bell.write, ho])
  · rcases R ho with hdue | ht
    · exact .inr hdue
    · exact absurd hserved (Nat.not_lt.mpr ht)

/-- No ring is lost: a listener that has looked since, and is done, has served it. -/
theorem Rung.heard (R : Rung b t t') (hlooked : t' ≤ b.looked) (hhand : b.hand = none)
    (hdue : b.due = false) : t ≤ b.served := by
  refine Nat.not_lt.mp fun hserved => ?_
  rcases R.noticed hlooked hserved with h | ⟨r, hr, -⟩
  · rw [hdue] at h
    cases h
  · rw [hhand] at hr
    cases hr

end WinMali.ToggleBell
