import Mathlib.Data.List.Count
import Mathlib.Data.List.Perm.Basic

/-!
# What the threads of a list hold

Threads are the entries of a list and each holds some items. A step replaces one
entry, and the items of the others stay as they are.
-/

set_option autoImplicit false

namespace WinMali.ThreadPools

variable {α β : Type*} {g : α → List β} {l : List α} {i : ℕ} {p q : α} {x : β}

theorem flatMap_set_perm (h : l[i]? = some p) (g : α → List β) (q : α) :
    ((l.set i q).flatMap g ++ g p).Perm (l.flatMap g ++ g q) := by
  induction l generalizing i with
  | nil => simp at h
  | cons r l ih =>
    cases i with
    | zero =>
      obtain rfl := Option.some.inj h
      simp only [List.set_cons_zero, List.flatMap_cons]
      refine List.perm_append_comm.trans ?_
      rw [List.append_assoc]
      exact List.perm_append_comm.append_left (g r)
    | succ i => simpa using (ih (by simpa using h)).append_left (g r)

theorem count_flatMap_set [BEq β] (h : l[i]? = some p) (g : α → List β) (q : α) (x : β) :
    ((l.set i q).flatMap g).count x + (g p).count x = (l.flatMap g).count x + (g q).count x := by
  simpa only [List.count_append] using (flatMap_set_perm h g q).count_eq x

/-- A thread that moves on and holds the same items. -/
theorem flatMap_set (g : α → List β) (q : α) (h : l[i]? = some p) (hg : g q = g p) :
    (l.set i q).flatMap g = l.flatMap g := by
  induction l generalizing i with
  | nil => simp at h
  | cons r l ih =>
    cases i with
    | zero =>
      obtain rfl := Option.some.inj h
      simp [hg]
    | succ i => simp [ih (by simpa using h)]

/-- A thread that gives one item up. -/
theorem flatMap_set_drop (h : l[i]? = some p) (hg : (g p).Perm (x :: g q)) :
    (l.flatMap g).Perm (x :: (l.set i q).flatMap g) := by
  have hset := flatMap_set_perm h g q
  have hx : ((l.set i q).flatMap g ++ g p).Perm (x :: (l.set i q).flatMap g ++ g q) :=
    (hg.append_left _).trans List.perm_middle
  exact ((List.perm_append_right_iff _).mp (hx.symm.trans hset)).symm

/-- A thread that gets one item more. -/
theorem flatMap_set_gain (h : l[i]? = some p) (hg : (g q).Perm (x :: g p)) :
    ((l.set i q).flatMap g).Perm (x :: l.flatMap g) := by
  have hset := flatMap_set_perm h g q
  have hx : (l.flatMap g ++ g q).Perm (x :: l.flatMap g ++ g p) :=
    (hg.append_left _).trans List.perm_middle
  exact (List.perm_append_right_iff _).mp (hset.trans hx)

theorem mem_flatMap_self (h : l[i]? = some p) (hx : x ∈ g p) : x ∈ l.flatMap g :=
  List.mem_flatMap.mpr ⟨p, List.mem_of_getElem? h, hx⟩

theorem mem_flatMap_set (hx : x ∈ (l.set i q).flatMap g) :
    x ∈ (l.eraseIdx i).flatMap g ∨ x ∈ g q := by
  induction l generalizing i with
  | nil => simp at hx
  | cons r l ih =>
    cases i with
    | zero => simpa [or_comm] using hx
    | succ i =>
      simp only [List.set_cons_succ, List.eraseIdx_cons_succ, List.flatMap_cons,
        List.mem_append] at hx ⊢
      rcases hx with hx | hx
      · exact .inl (.inl hx)
      · exact (ih hx).imp_left .inr

theorem mem_of_mem_eraseIdx (hx : x ∈ (l.eraseIdx i).flatMap g) : x ∈ l.flatMap g := by
  obtain ⟨r, hr, hx⟩ := List.mem_flatMap.mp hx
  exact List.mem_flatMap.mpr ⟨r, List.mem_of_mem_eraseIdx hr, hx⟩

/-- An entry that is found and then erased. -/
theorem perm_cons_eraseP {f : α → Bool} (h : l.find? f = some p) : l.Perm (p :: l.eraseP f) := by
  induction l with
  | nil => cases h
  | cons r l ih =>
    cases hr : f r with
    | true =>
      rw [List.find?_cons_of_pos hr] at h
      obtain rfl := Option.some.inj h
      rw [List.eraseP_cons_of_pos hr]
    | false =>
      rw [List.find?_cons_of_neg (by simp [hr])] at h
      rw [List.eraseP_cons_of_neg (by simp [hr])]
      exact ((ih h).cons r).trans (List.Perm.swap p r _)

end WinMali.ThreadPools
