import WinMaliKmd.ObjectTable

/-!
# Every object is freed once

An object is linked, in the hands of one thread that will free it, or freed,
whatever the calls and their order. That a handle is not destroyed twice needs
a counter of handles that has not come round.
-/

set_option autoImplicit false

namespace WinMali.ObjectTableOnce
open WinMali.ObjectTable WinMali.Runs

/-- Every object that was created is linked, unlinked by a thread or freed, in one of these and
once, and the count is right. -/
structure FreedOnce (s : State) : Prop where
  once : ∀ uid < s.created, s.linked.count uid + s.pending.count uid + s.freed.count uid = 1
  count : s.count = s.head.length
  destroyed : s.destroyed.Nodup

/-- A `Create` comes before the counter of handles has gone round. -/
def guard (s : State) (l : Label) : Prop := creating s l = true → s.given < 2 ^ 32

instance (s : State) (l : Label) : Decidable (guard s l) :=
  inferInstanceAs (Decidable (creating s l = true → s.given < 2 ^ 32))

/-- The part that no order of calls can break. -/
structure Places (s : State) : Prop where
  once : ∀ uid, s.linked.count uid + s.pending.count uid + s.freed.count uid =
    (List.range s.created).count uid
  count : s.count = s.head.length

theorem tableInit_places : Places tableInit :=
  ⟨fun uid => by simp [tableInit, State.linked, State.pending, State.created], rfl⟩

theorem effect_places {s t : State} {l : Label} (h : Places s) (he : Effect s l t) :
    Places t := by
  obtain ⟨hold, hcount⟩ := h
  simp only [State.linked, State.pending, State.created] at hold
  cases he with
  | stay th hp hh =>
    refine ⟨fun uid => ?_, hcount⟩
    have hpend := hp.count_eq uid
    simp only [State.linked, State.pending, State.created] at hpend ⊢
    rw [hpend, hold uid]
  | lend => exact ⟨hold, hcount⟩
  | insert ownerDevice th hl hp hh =>
    refine ⟨fun uid => ?_, by simp [createInsert, hcount]⟩
    have hpend := hp.count_eq uid
    have hone := hold uid
    simp only [State.linked, State.pending, State.created, createInsert, List.map_append,
      List.map_cons, List.map_nil, List.count_append, List.length_append, List.length_singleton,
      List.range_succ] at hpend ⊢
    omega
  | unlink taken rest d th hd hs ht hp hh =>
    refine ⟨fun uid => ?_, ?_⟩
    · have hone := hold uid
      have hpend := hp.count_eq uid
      have hlink := (ht.map Obj.uid).count_eq uid
      simp only [State.linked, State.pending, State.created, List.map_append,
        List.count_append] at hpend hlink ⊢
      omega
    · have hlen := ht.length_eq
      simp only [List.length_append] at hlen ⊢
      omega
  | free uid th hl hp hh =>
    refine ⟨fun uid' => ?_, hcount⟩
    have hone := hold uid'
    have hpend := hp.count_eq uid'
    simp only [State.linked, State.pending, State.created, List.count_append, List.count_cons,
      List.count_nil] at hpend ⊢
    omega
  | get uid th hl hp hh =>
    refine ⟨fun uid' => ?_, hcount⟩
    have hpend := hp.count_eq uid'
    simp only [State.linked, State.pending, State.created, List.length_modify] at hpend ⊢
    rw [hpend, hold uid']
  | put uid th hp hh =>
    refine ⟨fun uid' => ?_, hcount⟩
    have hpend := hp.count_eq uid'
    simp only [State.linked, State.pending, State.created, List.length_modify] at hpend ⊢
    rw [hpend, hold uid']

theorem step_places (k : Kind) (s : State) (l : Label) (t : State) (h : Places s)
    (hs : step k s l = some t) : Places t :=
  effect_places h (step_effect h.count hs)

/-- Whatever the calls and their order. -/
theorem run_places {k : Kind} {ls : List Label} {s : State}
    (hs : exec (step k) tableInit ls = some s) : Places s :=
  exec_invariant (fun s l t h _ => step_places k s l t h) tableInit_places
    (guarded_true (step k) tableInit ls) hs

theorem Places.linked_born {s : State} (h : Places s) {uid : ℕ} (hl : uid ∈ s.linked) :
    uid < s.created ∧ uid ∉ s.freed := by
  have hone := h.once uid
  have hpos := List.count_pos_iff.mpr hl
  have hle := List.nodup_iff_count_le_one.mp (List.nodup_range (n := s.created)) uid
  refine ⟨List.mem_range.mp (List.count_pos_iff.mp (by omega)), ?_⟩
  exact List.count_eq_zero.mp (by omega)

theorem Places.pending_born {s : State} (h : Places s) {uid : ℕ} (hl : uid ∈ s.pending) :
    uid < s.created := by
  have hone := h.once uid
  have hpos := List.count_pos_iff.mpr hl
  exact List.mem_range.mp (List.count_pos_iff.mp (by omega))

/-- The handles that were given out, as places of the counter. -/
def handles (s : State) : List Handle := s.destroyed ++ s.head.map Obj.handle

structure Fresh (s : State) : Prop where
  next : s.nextHandle = BitVec.ofNat 32 (s.given + 1)
  seen : ∀ h ∈ handles s, (h - 1).toNat < s.given
  nodup : (handles s).Nodup

theorem tableInit_fresh : Fresh tableInit :=
  ⟨rfl, by simp [handles, tableInit], by simp [handles, tableInit]⟩

theorem place_of_handle {n : ℕ} (hn : n < 2 ^ 32) : (BitVec.ofNat 32 (n + 1) - 1).toNat = n := by
  have hsub : BitVec.ofNat 32 (n + 1) - 1 = BitVec.ofNat 32 n := by
    rw [BitVec.ofNat_add]
    exact BitVec.add_sub_cancel _ _
  rw [hsub, BitVec.toNat_ofNat, Nat.mod_eq_of_lt hn]

theorem ofNat_succ (n : ℕ) : BitVec.ofNat 32 n + 1 = BitVec.ofNat 32 (n + 1) :=
  (BitVec.ofNat_add n 1).symm

theorem Fresh.next_succ {s : State} (h : Fresh s) :
    s.nextHandle + 1 = BitVec.ofNat 32 (s.given + 1 + 1) := by
  rw [h.next, ofNat_succ]

/-- Fewer handles of the same table. -/
theorem Fresh.sub {s t : State} (h : Fresh s) (hn : t.nextHandle = s.nextHandle)
    (hg : t.given = s.given) (hs : (handles t).Subperm (handles s)) : Fresh t := by
  refine ⟨by rw [hn, hg, h.next], fun hd hmem => ?_, ?_⟩
  · rw [hg]
    exact h.seen hd (hs.subset hmem)
  · obtain ⟨l, hl, hsub⟩ := hs
    exact hl.nodup_iff.mp (hsub.nodup h.nodup)

theorem effect_fresh {s t : State} {l : Label} (h : Fresh s) (hg : guard s l)
    (he : Effect s l t) : Fresh t := by
  cases he with
  | stay th hp hh => exact h.sub rfl rfl (List.Subperm.refl _)
  | lend => exact ⟨h.next_succ, fun hd hmem => (h.seen hd hmem).trans (Nat.lt_succ_self _), h.nodup⟩
  | insert ownerDevice th hl hp hh =>
    have hnew : (s.nextHandle - 1).toNat = s.given := by
      rw [h.next, place_of_handle (hg hl)]
    have hhandles : handles { createInsert s ownerDevice with threads := th } =
        handles s ++ [s.nextHandle] := by
      simp [handles, createInsert]
    refine ⟨h.next_succ, fun hd hmem => ?_, ?_⟩
    · rw [hhandles] at hmem
      rcases List.mem_append.mp hmem with hmem | hmem
      · exact (h.seen hd hmem).trans (Nat.lt_succ_self _)
      · rw [List.mem_singleton.mp hmem, hnew]
        exact Nat.lt_succ_self _
    · rw [hhandles]
      refine List.nodup_append.mpr ⟨h.nodup, List.nodup_singleton _, fun a ha b hb => ?_⟩
      rintro rfl
      have hlt := h.seen a ha
      rw [List.mem_singleton.mp hb, hnew] at hlt
      exact lt_irrefl _ hlt
  | unlink taken rest d th hd hs ht hp hh =>
    refine h.sub rfl rfl ?_
    rcases hd with rfl | ⟨o, rfl, rfl⟩
    · rw [handles, List.append_nil]
      exact ((hs.map _).append_left _).subperm
    · have hhead := (ht.map Obj.handle).append_left s.destroyed
      rw [handles, List.append_assoc]
      exact hhead.symm.subperm
  | free uid th hl hp hh => exact h.sub rfl rfl (List.Subperm.refl _)
  | get uid th hl hp hh => exact h.sub rfl rfl (List.Subperm.refl _)
  | put uid th hp hh => exact h.sub rfl rfl (List.Subperm.refl _)

theorem tables_free_once (k : Kind) (ls : List Label) (s : State)
    (hg : Guarded (step k) guard tableInit ls) (hs : exec (step k) tableInit ls = some s) :
    FreedOnce s := by
  have hplaces := run_places hs
  have hboth := exec_invariant (fun s l t (h : Places s ∧ Fresh s) hg hst =>
    ⟨step_places k s l t h.1 hst, effect_fresh h.2 hg (step_effect h.1.count hst)⟩)
    ⟨tableInit_places, tableInit_fresh⟩ hg hs
  refine ⟨fun uid huid => ?_, hplaces.count, (List.nodup_append.mp hboth.2.nodup).1⟩
  rw [hplaces.once uid, List.count_eq_one_of_mem List.nodup_range (List.mem_range.mpr huid)]

/-- Two objects, one destroyed by its handle and one by the rundown of its owner. -/
def destroyAndRundown : List Label :=
  [.create 5, .create 6, .run 0, .run 1, .destroy 1, .rundownOwner 6, .destroy 1, .run 3, .run 2,
    .run 4, .run 3, .run 2]

theorem destroy_and_rundown :
    FreedOnce ⟨[], 3, 0, [1, 1],
      [.returned (.handle 1), .returned (.handle 2), .free [] (.err 0), .free [] (.freed 1),
        .returned (.err (-2))], [1, 0], [1], 2⟩ :=
  tables_free_once .bo destroyAndRundown _ (by decide) (by decide)

/-- Create an object and destroy it, after `n` such calls. -/
def cycle (n : ℕ) : List Label :=
  [.create 0, .run (2 * n), .destroy (BitVec.ofNat 32 (n + 1)), .run (2 * n + 1), .run (2 * n + 1),
    .run (2 * n + 1)]

def cycles : ℕ → List Label
  | 0 => []
  | n + 1 => cycles n ++ cycle n

/-- The table after `n` objects have been created and destroyed. -/
structure Cycled (s : State) (n : ℕ) : Prop where
  threads : s.threads.length = 2 * n
  head : s.head = []
  next : s.nextHandle = BitVec.ofNat 32 (n + 1)
  destroyed : s.destroyed = (List.range n).map fun m => BitVec.ofNat 32 (m + 1)

theorem cycle_runs {s : State} {n : ℕ} (k : Kind) (h : Cycled s n) :
    ∃ t, exec (step k) s (cycle n) = some t ∧ Cycled t (n + 1) := by
  refine ⟨{ s with
    threads := s.threads ++ [.returned (.handle s.nextHandle), .returned (.err wmerrOk)]
    nextHandle := s.nextHandle + 1
    count := s.count + 1 - 1
    refCounts := s.refCounts ++ [1]
    freed := s.freed ++ [s.created]
    destroyed := s.destroyed ++ [s.nextHandle]
    given := s.given + 1 }, ?_, ?_⟩
  · simp [cycle, exec, step, State.spawn, stepPc, createInsert, State.goto, takeByHandle,
      State.created, List.getElem?_append, List.set_append, h.threads, h.head, h.next, Result.count]
  · refine ⟨by simp [h.threads]; omega, h.head, ?_, ?_⟩
    · rw [h.next, ofNat_succ]
    · rw [h.destroyed, h.next, List.range_succ, List.map_append]
      rfl

theorem cycles_run (k : Kind) (n : ℕ) :
    ∃ t, exec (step k) tableInit (cycles n) = some t ∧ Cycled t n := by
  induction n with
  | zero => exact ⟨tableInit, rfl, rfl, rfl, rfl, rfl⟩
  | succ n ih =>
    obtain ⟨s, hs, hc⟩ := ih
    obtain ⟨t, ht, hc⟩ := cycle_runs k hc
    exact ⟨t, by rw [cycles, exec_append, hs]; exact ht, hc⟩

/-- After 2^32 objects the first handle is given and destroyed again. -/
theorem handle_destroyed_twice :
    ∃ t, exec (step .bo) tableInit (cycles (2 ^ 32 + 1)) = some t ∧ ¬FreedOnce t := by
  obtain ⟨t, ht, hc⟩ := cycles_run .bo (2 ^ 32 + 1)
  refine ⟨t, ht, fun hbooks => ?_⟩
  have hnodup := hbooks.destroyed
  rw [hc.destroyed] at hnodup
  have hinj := List.inj_on_of_nodup_map hnodup (x := 0) (by simp) (y := 2 ^ 32) (by simp)
  exact absurd (hinj (by decide)) (by decide)

end WinMali.ObjectTableOnce
