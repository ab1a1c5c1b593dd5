import Mathlib.Data.List.Basic

/-!
# Traces of events

What a program does, in the order in which it does it. A rule on a trace says of
each event that it may come after the events before it.
-/

set_option autoImplicit false

namespace WinMali.Traces

variable {E : Type*} {R S : List E → E → Prop} {seen es fs : List E}

/-- Every event of the trace may come after `seen` and the events before it. -/
def Each (R : List E → E → Prop) : List E → List E → Prop
  | _, [] => True
  | seen, e::es => R seen e ∧ Each R (seen ++ [e]) es

theorem each_append : Each R seen (es ++ fs) ↔ Each R seen es ∧ Each R (seen ++ es) fs := by
  induction es generalizing seen with
  | nil => simp [Each]
  | cons e es ih =>
    simp only [List.cons_append, Each, ih, and_assoc]
    rw [show seen ++ [e] ++ es = seen ++ e::es by simp]

/-- The rule holds wherever the trace is cut. -/
theorem Each.cut {e : E} {before after : List E} (h : Each R [] (before ++ e::after)) :
    R before e :=
  (each_append.mp h).2.1

end WinMali.Traces
