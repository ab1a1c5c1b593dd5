import WinMaliKmd.ObjectTableOnce

/-!
# References and the freed objects

`Get` counts a reference that `Put` gives back, and nothing that frees an object
looks at the count. The counts are right all the same, so they say exactly
which objects are in use.
-/

set_option autoImplicit false

namespace WinMali.ObjectTableRefs
open WinMali.ObjectTable WinMali.ObjectTableOnce WinMali.Runs

/-- No thread holds a reference to a freed object. -/
def Protected (s : State) : Prop := ∀ uid ∈ s.held, uid ∉ s.freed

/-- An object is given back to the pool while its reference count is the one of `Create`. -/
def unused (s : State) (l : Label) : Prop :=
  ∀ uid ∈ freeing s l, s.refCounts[uid]? = some 1

instance (s : State) (l : Label) : Decidable (unused s l) :=
  inferInstanceAs (Decidable (∀ uid ∈ freeing s l, _))

instance (s : State) : Decidable (Protected s) :=
  inferInstanceAs (Decidable (∀ uid ∈ s.held, uid ∉ s.freed))

structure Inv (s : State) : Prop where
  places : Places s
  refs : ∀ uid < s.created, s.refCounts[uid]? = some (1 + (s.held.count uid : ℤ))
  born : ∀ uid ∈ s.held, uid < s.created
  safe : Protected s

theorem tableInit_inv : Inv tableInit :=
  ⟨tableInit_places, by simp [tableInit, State.created], by simp [tableInit, State.held],
    by simp [Protected, tableInit, State.held]⟩

theorem Inv.not_held {s : State} {uid : ℕ} (h : Inv s) (hb : uid < s.created)
    (h1 : s.refCounts[uid]? = some 1) : uid ∉ s.held := by
  have hcount := h.refs uid hb
  rw [h1, Option.some_inj] at hcount
  exact List.count_eq_zero.mp (by omega)

theorem effect_inv {s t : State} {l : Label} (h : Inv s) (hg : unused s l)
    (he : Effect s l t) : Inv t := by
  have hplaces := effect_places h.places he
  cases he with
  | stay th hp hh | unlink taken rest d th hd hs ht hp hh =>
    refine ⟨hplaces, fun uid hb => ?_, fun uid hu => h.born uid (hh.subset hu),
      fun uid hu => h.safe uid (hh.subset hu)⟩
    rw [State.held, hh.count_eq]
    exact h.refs uid hb
  | lend => exact ⟨hplaces, h.refs, h.born, h.safe⟩
  | insert ownerDevice th hl hp hh =>
    have hborn (uid) (hu : uid ∈ th.flatMap ObjectTable.refs) := h.born uid (hh.subset hu)
    refine ⟨hplaces, fun uid hb => ?_, fun uid hu => ?_, fun uid hu => h.safe uid (hh.subset hu)⟩
    · rw [State.held, hh.count_eq]
      rcases Nat.lt_succ_iff_lt_or_eq.mp (by simpa [State.created, createInsert] using hb) with
        hb | rfl
      · rw [createInsert, List.getElem?_append_left hb]
        exact h.refs uid hb
      · -- nobody has a reference to the new object yet
        have hnone : s.held.count s.refCounts.length = 0 :=
          List.count_eq_zero.mpr fun hu => lt_irrefl _ (h.born _ hu)
        rw [hnone]
        simp [createInsert]
    · have hlt := hborn uid hu
      simp only [State.created, createInsert, List.length_append] at hlt ⊢
      omega
  | free uid th hl hp hh =>
    have hpend : uid ∈ s.pending := hp.symm.subset List.mem_cons_self
    have hfree := h.not_held (h.places.pending_born hpend) (hg uid hl)
    refine ⟨hplaces, fun uid hb => ?_, fun uid hu => h.born uid (hh.subset hu),
      fun uid' hu hmem => ?_⟩
    · rw [State.held, hh.count_eq]
      exact h.refs uid hb
    · rcases List.mem_append.mp hmem with hmem | hmem
      · exact h.safe uid' (hh.subset hu) hmem
      · exact hfree (List.mem_singleton.mp hmem ▸ hh.subset hu)
  | get uid th hl hp hh =>
    obtain ⟨hb, hnf⟩ := h.places.linked_born hl
    refine ⟨hplaces, fun uid' hb' => ?_, fun uid' hu => ?_, fun uid' hu => ?_⟩
    · simp only [State.created, List.length_modify] at hb'
      rw [State.held, hh.count_eq, List.getElem?_modify, h.refs uid' hb', List.count_cons]
      by_cases heq : uid = uid'
      · simp [heq]
        omega
      · simp [heq]
    · simp only [State.created, List.length_modify]
      rcases List.mem_cons.mp (hh.subset hu) with rfl | hu
      · exact hb
      · exact h.born uid' hu
    · rcases List.mem_cons.mp (hh.subset hu) with rfl | hu
      · exact hnf
      · exact h.safe uid' hu
  | put uid th hp hh =>
    have hsub (uid') (hu : uid' ∈ th.flatMap ObjectTable.refs) : uid' ∈ s.held :=
      hh.symm.subset (List.mem_cons_of_mem _ hu)
    refine ⟨hplaces, fun uid' hb' => ?_, fun uid' hu => ?_, fun uid' hu => h.safe _ (hsub _ hu)⟩
    · simp only [State.created, List.length_modify] at hb'
      have hcount := hh.count_eq uid'
      rw [List.count_cons] at hcount
      rw [State.held, List.getElem?_modify, h.refs uid' hb', hcount]
      by_cases heq : uid = uid'
      · simp [heq]
        omega
      · simp [heq]
    · simp only [State.created, List.length_modify]
      exact h.born uid' (hsub _ hu)

/-- What a step that frees an object does. -/
theorem step_freeing {k : Kind} {s t : State} {l : Label} {uid : ℕ}
    (hf : freeing s l = some uid) (hs : step k s l = some t) :
    uid ∈ s.pending ∧ uid ∈ t.freed ∧ t.held.Perm s.held := by
  cases l with
  | run i =>
    simp only [freeing] at hf
    split at hf
    · rename_i uids r hp
      obtain rfl := Option.some.inj hf
      simp only [step, hp] at hs
      obtain rfl := Option.some.inj hs
      exact ⟨ThreadPools.mem_flatMap_self hp List.mem_cons_self,
        List.mem_append_right _ (List.mem_singleton_self _),
        held_set hp rfl⟩
    · cases hf
  | _ => cases hf

theorem unused_iff {k : Kind} {s t : State} {l : Label} (h : Inv s) (hs : step k s l = some t) :
    unused s l ↔ Protected t := by
  constructor
  · intro hg
    exact (effect_inv h hg (step_effect h.places.count hs)).safe
  · intro hsafe uid hf
    obtain ⟨hpend, hfreed, hheld⟩ := step_freeing hf hs
    have hcount : s.held.count uid = 0 :=
      List.count_eq_zero.mpr fun hu => hsafe uid (hheld.symm.subset hu) hfreed
    rw [h.refs uid (h.places.pending_born hpend), hcount]
    rfl

/-- In every run of every table, a freed object is in use exactly when some object was freed
with a count other than one. -/
theorem references_protect_iff (k : Kind) (ls : List Label) :
    Guarded (step k) unused tableInit ls ↔
      Always (step k) (fun _ _ t => Protected t) tableInit ls :=
  guarded_iff_always (fun _ _ _ h hg hs => effect_inv h hg (step_effect h.places.count hs))
    (fun _ _ _ h hs => unused_iff h hs) tableInit_inv

/-- A thread looks an object up, another destroys it. -/
def destroyInUse : List Label :=
  [.create 5, .run 0, .enter, .get 1 1, .destroy 1, .run 2, .run 2]

theorem destroy_frees_in_use :
    ∃ s, exec (step .bo) tableInit destroyInUse = some s ∧ ¬Protected s :=
  ⟨⟨[], 2, 0, [2], [.returned (.handle 1), .user [0], .free [] (.err 0)], [0], [1], 1⟩, by decide,
    by decide⟩

end WinMali.ObjectTableRefs
