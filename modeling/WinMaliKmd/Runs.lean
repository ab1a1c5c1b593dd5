import Mathlib.Data.Nat.Notation

/-!
# Runs of a partial step function

A label carries every choice that a step makes, so a step is a function and
`none` means that the label is not enabled. Invariants are carried along a
run whose steps satisfy a guard; the guard is checked in the state the step
starts from, so it can exclude a step without changing the system.
-/

set_option autoImplicit false

namespace WinMali.Runs

variable {S L : Type*}

def exec (step : S → L → Option S) : S → List L → Option S
  | s, [] => some s
  | s, l::ls => (step s l).bind fun t => exec step t ls

/-- Every step of the run starts in a state where the guard holds of its label. -/
def Guarded (step : S → L → Option S) (guard : S → L → Prop) : S → List L → Prop
  | _, [] => True
  | s, l::ls => ∀ t, step s l = some t → guard s l ∧ Guarded step guard t ls

/-- Every step of the run satisfies `Q`. -/
def Always (step : S → L → Option S) (Q : S → L → S → Prop) : S → List L → Prop
  | _, [] => True
  | s, l::ls => ∀ t, step s l = some t → Q s l t ∧ Always step Q t ls

variable {step : S → L → Option S} {guard : S → L → Prop} {Inv : S → Prop}
  {Q : S → L → S → Prop}

instance decidableGuarded [∀ s l, Decidable (guard s l)] : (s : S) → (ls : List L) →
    Decidable (Guarded step guard s ls)
  | _, [] => isTrue trivial
  | s, l::ls =>
    match h : step s l with
    | none => isTrue fun t ht => by rw [h] at ht; cases ht
    | some u =>
      have := decidableGuarded u ls
      decidable_of_iff (guard s l ∧ Guarded step guard u ls)
        ⟨fun hu t ht => by rw [h] at ht; exact Option.some.inj ht ▸ hu, fun hg => hg u h⟩

theorem exec_cons (step : S → L → Option S) (s t : S) (l : L) (ls : List L) :
    exec step s (l::ls) = some t ↔ ∃ u, step s l = some u ∧ exec step u ls = some t := by
  simp [exec, Option.bind_eq_some_iff]

theorem exec_append (step : S → L → Option S) (s : S) (ls rest : List L) :
    exec step s (ls ++ rest) = (exec step s ls).bind fun t => exec step t rest := by
  induction ls generalizing s with
  | nil => rfl
  | cons l ls ih =>
    simp only [List.cons_append, exec, Option.bind_assoc]
    congr 1
    funext t
    exact ih t

/-- What one guarded step preserves, a guarded run preserves. -/
theorem exec_invariant (hstep : ∀ s l t, Inv s → guard s l → step s l = some t → Inv t)
    {ls : List L} {s t : S} (hs : Inv s) (hg : Guarded step guard s ls)
    (h : exec step s ls = some t) : Inv t := by
  induction ls generalizing s with
  | nil =>
    cases h
    exact hs
  | cons l ls ih =>
    obtain ⟨u, hu, ht⟩ := (exec_cons step s t l ls).mp h
    obtain ⟨hl, hg⟩ := hg u hu
    exact ih (hstep s l u hs hl hu) hg ht

/-- When the guard of an allowed step is exactly what its effect needs, a run of allowed
steps is guarded exactly when all its steps have the effect. -/
theorem allowed_guarded_iff_always {allowed : S → L → Prop}
    (hstep : ∀ s l t, Inv s → allowed s l → guard s l → step s l = some t → Inv t)
    (heffect : ∀ s l t, Inv s → allowed s l → step s l = some t → (guard s l ↔ Q s l t))
    {ls : List L} {s : S} (hs : Inv s) (ha : Guarded step allowed s ls) :
    Guarded step guard s ls ↔ Always step Q s ls := by
  induction ls generalizing s with
  | nil => exact Iff.rfl
  | cons l ls ih =>
    constructor
    · intro hg t ht
      obtain ⟨hal, harest⟩ := ha t ht
      obtain ⟨hl, hrest⟩ := hg t ht
      exact ⟨(heffect s l t hs hal ht).mp hl, (ih (hstep s l t hs hal hl ht) harest).mp hrest⟩
    · intro hq t ht
      obtain ⟨hal, harest⟩ := ha t ht
      obtain ⟨hql, hrest⟩ := hq t ht
      have hl := (heffect s l t hs hal ht).mpr hql
      exact ⟨hl, (ih (hstep s l t hs hal hl ht) harest).mpr hrest⟩

theorem Guarded.of_labels {P : L → Prop} {ls : List L} {s : S} (hP : ∀ l ∈ ls, P l)
    (hg : Guarded step guard s ls) : Guarded step (fun s l => P l ∧ guard s l) s ls := by
  induction ls generalizing s with
  | nil => trivial
  | cons l ls ih =>
    intro t ht
    obtain ⟨hl, hrest⟩ := hg t ht
    exact ⟨⟨hP l (by simp), hl⟩, ih (fun l' h => hP l' (by simp [h])) hrest⟩

theorem guarded_true (step : S → L → Option S) (s : S) (ls : List L) :
    Guarded step (fun _ _ => True) s ls := by
  induction ls generalizing s with
  | nil => trivial
  | cons l ls ih => exact fun t _ => ⟨trivial, ih t⟩

theorem guarded_iff_always (hstep : ∀ s l t, Inv s → guard s l → step s l = some t → Inv t)
    (heffect : ∀ s l t, Inv s → step s l = some t → (guard s l ↔ Q s l t)) {ls : List L} {s : S}
    (hs : Inv s) : Guarded step guard s ls ↔ Always step Q s ls :=
  allowed_guarded_iff_always (fun s l t hs _ => hstep s l t hs) (fun s l t hs _ => heffect s l t hs)
    hs (guarded_true step s ls)

/-- The invariant and the effect of the last step, for every prefix of a guarded run. -/
theorem always_of_guarded (hstep : ∀ s l t, Inv s → guard s l → step s l = some t → Inv t)
    (heffect : ∀ s l t, Inv s → guard s l → step s l = some t → Q s l t) {ls : List L} {s : S}
    (hs : Inv s) (hg : Guarded step guard s ls) : Always step Q s ls := by
  induction ls generalizing s with
  | nil => trivial
  | cons l ls ih =>
    intro t ht
    obtain ⟨hl, hrest⟩ := hg t ht
    exact ⟨heffect s l t hs hl ht, ih (hstep s l t hs hl ht) hrest⟩

/-- What the guard says of the states of a run can be said of them by another guard. -/
theorem Guarded.imp {guard' : S → L → Prop}
    (hstep : ∀ s l t, Inv s → guard s l → step s l = some t → Inv t)
    (himp : ∀ s l, Inv s → guard s l → guard' s l) {ls : List L} {s : S} (hs : Inv s)
    (hg : Guarded step guard s ls) : Guarded step guard' s ls := by
  induction ls generalizing s with
  | nil => trivial
  | cons l ls ih =>
    intro t ht
    obtain ⟨hl, hrest⟩ := hg t ht
    exact ⟨himp s l hs hl, ih (hstep s l t hs hl ht) hrest⟩

/-- Steps that use up some of what is left to do come to an end. -/
theorem exec_work (work : S → ℕ)
    (hdec : ∀ s l t, guard s l → step s l = some t → work t < work s) {ls : List L} {s t : S}
    (hg : Guarded step guard s ls) (h : exec step s ls = some t) :
    work t + ls.length ≤ work s := by
  induction ls generalizing s with
  | nil =>
    cases h
    exact Nat.le_refl _
  | cons l ls ih =>
    obtain ⟨u, hu, ht⟩ := (exec_cons step s t l ls).mp h
    obtain ⟨hl, hg⟩ := hg u hu
    have hlt := hdec s l u hl hu
    have hle := ih hg ht
    rw [List.length_cons]
    omega

end WinMali.Runs
