import WinMaliKmd.CsfBuffers

/-!
# Freeing pages that are mapped

What a list of undo actions frees, and which of it the hardware can still get to. The pages of
the driver's own address space are always cleared first; for those of the microcontroller its
table decides.
-/

set_option autoImplicit false

namespace WinMali.CsfFrees
open WinMali.Lpae WinMali.FirmwareImage WinMali.McuPageTable WinMali.McuPageTableMap
open WinMali.CsfBuffers WinMali.Runs
open WinMali.VmPageTable (pageVa pageOf)
open WinMali.ApertureRoots hiding step State Op Inv

/-- The pages that the driver's address space maps before the bootstrap are someone else's. -/
def Foreign (g : ApertureRoots.State) (f : Word) : Prop :=
  ∃ va x, translation g va = some x ∧ x.1 = f

structure Good (g : ApertureRoots.State) (s : Csf) : Prop where
  heap : s.gpu.gpuMmuAsBound = true → s.gpu.mmuScratchHeap = true
  apart : ∀ h h' b b', s.blocks h = some b → s.blocks h' = some b' → h ≠ h' → b.Apart b'
  foreign : ∀ h b f, s.blocks h = some b → Foreign g f → ¬b.Holds f
  gpuLeaf : s.gpu.gpuMmuAsBound = true → ∀ va x, translation s.gpu va = some x →
    Foreign g x.1 ∨ ∃ k b, s.blocks (.gpu k) = some b ∧ k.Window va ∧ b.Holds x.1
  mcuLeaf : s.as0 = true → ∀ va x, mcuWalk s.pt va = some x →
    ∃ h b, s.blocks h = some b ∧ Holder.ForMcu h ∧ b.Holds x.1

/-- Whatever the pointer owns may be freed now. -/
def Idle (s : Csf) (h : Holder) : Prop := ∀ b, s.blocks h = some b → ¬s.tables.Maps b

variable {g : ApertureRoots.State} {s : Csf}

theorem maps_iff (s : Csf) (b : Block) : s.tables.Maps b ↔
    (s.as0 = true ∧ McuMaps s.pt b) ∨ (s.gpu.gpuMmuAsBound = true ∧ GpuMaps s.gpu b) := by
  unfold Tables.Maps Csf.tables
  cases s.as0 <;> cases s.gpu.gpuMmuAsBound <;> simp

theorem Good.not_mcuMaps (G : Good g s) (has0 : s.as0 = true) {h : Holder} {b : Block}
    (hb : s.blocks h = some b) (hh : ¬Holder.ForMcu h) : ¬McuMaps s.pt b := by
  rintro ⟨va, x, hx, hold⟩
  obtain ⟨h', b', hb', hmcu, hold'⟩ := G.mcuLeaf has0 va x hx
  have hne : h ≠ h' := fun heq => hh (heq ▸ hmcu)
  exact G.apart h h' b b' hb hb' hne x.1 ⟨hold, hold'⟩

theorem Good.gpuMaps_window (G : Good g s) (hbound : s.gpu.gpuMmuAsBound = true) {h : Holder}
    {b : Block} (hb : s.blocks h = some b) {va : Word} {x : Word × Word}
    (hx : translation s.gpu va = some x) (hold : b.Holds x.1) :
    ∃ k : GpuBuffer, h = .gpu k ∧ k.Window va := by
  rcases G.gpuLeaf hbound va x hx with hf | ⟨k, b', hb', hw, hold'⟩
  · exact absurd hold (G.foreign h b x.1 hb hf)
  · by_cases hne : h = .gpu k
    · exact ⟨k, hne, hw⟩
    · exact absurd ⟨hold, hold'⟩ (G.apart h (.gpu k) b b' hb hb' hne x.1)

/-- For the pages of the microcontroller its own table decides. -/
theorem Good.idle_mcu (G : Good g s) {h : Holder} (hh : Holder.ForMcu h) :
    Idle s h ↔ (s.as0 = true → ∀ b, s.blocks h = some b → ¬McuMaps s.pt b) := by
  unfold Idle
  constructor
  · intro hidle has0 b hb hmaps
    exact hidle b hb ((maps_iff s b).mpr (.inl ⟨has0, hmaps⟩))
  · intro hno b hb hmaps
    rcases (maps_iff s b).mp hmaps with ⟨has0, hmcu⟩ | ⟨hbound, va, x, hx, hold⟩
    · exact hno has0 b hb hmcu
    · obtain ⟨k, rfl, -⟩ := G.gpuMaps_window hbound hb hx hold
      exact hh

theorem Good.idle_pool (G : Good g s) : Idle s .ptPool := by
  intro b hb hmaps
  rcases (maps_iff s b).mp hmaps with ⟨has0, hmcu⟩ | ⟨hbound, va, x, hx, hold⟩
  · exact G.not_mcuMaps has0 hb (fun h => h) hmcu
  · obtain ⟨k, hk, -⟩ := G.gpuMaps_window hbound hb hx hold
    cases hk

theorem free_none {h : Holder} (hb : s.blocks h = none) : s.free h = s := by
  simp only [Csf.free, hb]

theorem free_some {h : Holder} {b : Block} (hb : s.blocks h = some b) : s.free h =
    { s with blocks := Function.update s.blocks h none, frees := (b, s.tables) :: s.frees } := by
  simp only [Csf.free, hb]

theorem free_blocks (s : Csf) (h : Holder) :
    (s.free h).blocks = Function.update s.blocks h none := by
  cases hb : s.blocks h with
  | none => rw [free_none hb, ← hb, Function.update_eq_self]
  | some b => rw [free_some hb]

theorem free_tables (s : Csf) (h : Holder) : (s.free h).tables = s.tables := by
  cases hb : s.blocks h with
  | none => rw [free_none hb]
  | some b => rw [free_some hb]; rfl

theorem free_unmapped_iff (s : Csf) (h : Holder) :
    FreesUnmapped (s.free h) ↔ Idle s h ∧ FreesUnmapped s := by
  unfold Idle
  cases hb : s.blocks h with
  | none => rw [free_none hb]; simp
  | some b =>
    rw [free_some hb]
    unfold FreesUnmapped
    simp

theorem blocks_free {h h' : Holder} {b : Block} (hb : (s.free h).blocks h' = some b) :
    h' ≠ h ∧ s.blocks h' = some b := by
  rw [free_blocks] at hb
  by_cases hne : h' = h
  · subst hne
    simp at hb
  · rw [Function.update_of_ne hne] at hb
    exact ⟨hne, hb⟩

theorem Idle.after_free {h h' : Holder} (hidle : Idle s h') : Idle (s.free h) h' := by
  intro b hb
  rw [free_tables]
  exact hidle b (blocks_free hb).2

theorem Good.free (G : Good g s) {h : Holder} (hidle : Idle s h) : Good g (s.free h) := by
  cases hb : s.blocks h with
  | none => rwa [free_none hb]
  | some b =>
    have hkeep : ∀ {h' b'}, s.blocks h' = some b' → h' ≠ h → (s.free h).blocks h' = some b' := by
      intro h' b' hb' hne
      rw [free_blocks, Function.update_of_ne hne, hb']
    have hno := hidle b hb
    rw [maps_iff, not_or] at hno
    have hsome := free_some hb
    refine ⟨?_, ?_, ?_, ?_, ?_⟩
    · rw [hsome]
      exact G.heap
    · intro h₁ h₂ b₁ b₂ hb₁ hb₂ hne
      exact G.apart h₁ h₂ b₁ b₂ (blocks_free hb₁).2 (blocks_free hb₂).2 hne
    · intro h₁ b₁ f hb₁
      exact G.foreign h₁ b₁ f (blocks_free hb₁).2
    · intro hbound va x hx
      rw [hsome] at hbound hx
      rcases G.gpuLeaf hbound va x hx with hf | ⟨k, b', hb', hw, hold⟩
      · exact .inl hf
      · refine .inr ⟨k, b', hkeep hb' ?_, hw, hold⟩
        rintro rfl
        obtain rfl := Option.some.inj (hb.symm.trans hb')
        exact hno.2 ⟨hbound, va, x, hx, hold⟩
    · intro has0 va x hx
      rw [hsome] at has0 hx
      obtain ⟨h', b', hb', hmcu, hold⟩ := G.mcuLeaf has0 va x hx
      refine ⟨h', b', hkeep hb' ?_, hmcu, hold⟩
      rintro rfl
      obtain rfl := Option.some.inj (hb.symm.trans hb')
      exact hno.1 ⟨has0, va, x, hx, hold⟩

/-- Clearing the entries of a buffer, in an address space that is in use. -/
theorem unmapGpuRange_bound {a : ApertureRoots.State} (hbound : a.gpuMmuAsBound = true)
    (hheap : a.mmuScratchHeap = true) (k : GpuBuffer) :
    unmapGpuRange a k.va k.pages = (.success, filled a k 0 k.pages fun _ => 0) := by
  have hcount : ¬(k.pages = 0 ∨ k.pages > windowBytes / 4096) := by
    have := pages_le k
    unfold windowBytes
    omega
  have haligned : ¬(k.va &&& 0xfff ≠ 0 ∨ (0 : Word) &&& 0xfff ≠ 0) := by
    cases k <;> decide
  simp only [unmapGpuRange, setPtes, hbound, hheap, reduceCtorEq, or_self, if_false,
    if_neg hcount, if_neg haligned, if_true]
  exact setPtesLoop_filled k _ (by omega)

theorem unmapGpuRange_unbound {a : ApertureRoots.State} (hbound : a.gpuMmuAsBound = false)
    (k : GpuBuffer) : (unmapGpuRange a k.va k.pages).2 = a := by
  simp [unmapGpuRange, setPtes, hbound]

theorem Good.unmap_gpu (G : Good g s) (k : GpuBuffer) :
    ((Undo.unmap k).apply s).gpu.gpuMmuAsBound = s.gpu.gpuMmuAsBound ∧
      ((Undo.unmap k).apply s).gpu.mmuScratchHeap = s.gpu.mmuScratchHeap ∧
      (s.gpu.gpuMmuAsBound = true → ∀ va, translation ((Undo.unmap k).apply s).gpu va =
        if k.Window va then none else translation s.gpu va) := by
  cases hbound : s.gpu.gpuMmuAsBound with
  | false =>
    have hsame : ((Undo.unmap k).apply s).gpu = s.gpu := unmapGpuRange_unbound hbound k
    rw [hsame]
    exact ⟨hbound, rfl, by simp⟩
  | true =>
    have hfilled : ((Undo.unmap k).apply s).gpu = filled s.gpu k 0 k.pages fun _ => 0 :=
      congrArg Prod.snd (unmapGpuRange_bound hbound (G.heap hbound) k)
    rw [hfilled]
    refine ⟨hbound, rfl, fun _ va => ?_⟩
    rw [translation_filled, leafOf_zero]

theorem Good.unmap (G : Good g s) (k : GpuBuffer) : Good g ((Undo.unmap k).apply s) := by
  obtain ⟨hbound, hheap, htrans⟩ := G.unmap_gpu k
  refine ⟨?_, G.apart, G.foreign, ?_, G.mcuLeaf⟩
  · rw [hbound, hheap]
    exact G.heap
  · intro h va x hx
    rw [hbound] at h
    rw [htrans h] at hx
    split at hx
    · cases hx
    · exact G.gpuLeaf h va x hx

theorem Good.idle_unmap (G : Good g s) {h : Holder} (k : GpuBuffer) (hidle : Idle s h) :
    Idle ((Undo.unmap k).apply s) h := by
  obtain ⟨hbound, -, htrans⟩ := G.unmap_gpu k
  intro b hb hmaps
  apply hidle b hb
  rw [maps_iff] at hmaps ⊢
  refine hmaps.imp_right ?_
  rintro ⟨hon, va, x, hx, hold⟩
  rw [hbound] at hon
  rw [htrans hon] at hx
  split at hx
  · cases hx
  · exact ⟨hon, va, x, hx, hold⟩

/-- A buffer may be freed once its entries are cleared. -/
theorem Good.idle_unmapped (G : Good g s) (k : GpuBuffer) :
    Idle ((Undo.unmap k).apply s) (.gpu k) := by
  obtain ⟨hbound, -, htrans⟩ := G.unmap_gpu k
  intro b hb hmaps
  rcases (maps_iff _ b).mp hmaps with ⟨has0, hmcu⟩ | ⟨hon, va, x, hx, hold⟩
  · exact G.not_mcuMaps has0 hb (fun h => h) hmcu
  · rw [hbound] at hon
    rw [htrans hon] at hx
    split at hx
    · cases hx
    · rename_i hw
      obtain ⟨k', hk, hw'⟩ := G.gpuMaps_window hon hb hx hold
      cases hk
      exact hw hw'

/-- Every buffer of the driver's address space that the actions free is one of `ks`, or is
cleared by an earlier action. -/
def covered : List GpuBuffer → List Undo → Bool
  | _, [] => true
  | ks, .unmap k :: us => covered (k :: ks) us
  | ks, .free (.gpu k) :: us => ks.contains k && covered ks us
  | ks, .free _ :: us => covered ks us

theorem covered_free {ks : List GpuBuffer} {h : Holder} {us : List Undo}
    (hcov : covered ks (.free h :: us) = true) :
    (∀ k, h = .gpu k → k ∈ ks) ∧ covered ks us = true := by
  cases h with
  | gpu k =>
    obtain ⟨hk, hrest⟩ := Bool.and_eq_true_iff.mp hcov
    refine ⟨?_, hrest⟩
    rintro k' ⟨⟩
    exact List.contains_iff_mem.mp hk
  | mcu k => exact ⟨by simp, hcov⟩
  | backing i => exact ⟨by simp, hcov⟩
  | ptPool => exact ⟨by simp, hcov⟩

/-- Actions that free no page of the microcontroller that it still has. -/
theorem Good.undo_idle (G : Good g s) {ks : List GpuBuffer} (hks : ∀ k ∈ ks, Idle s (.gpu k))
    {us : List Undo} (hcov : covered ks us = true)
    (hmcu : ∀ h, Undo.free h ∈ us → Holder.ForMcu h → Idle s h) (hfrees : FreesUnmapped s) :
    Good g (undo us s) ∧ FreesUnmapped (undo us s) := by
  induction us generalizing s ks with
  | nil => exact ⟨G, hfrees⟩
  | cons u us ih =>
    cases u with
    | unmap k =>
      refine ih (G.unmap k) (?_ : ∀ k' ∈ k :: ks, _) hcov ?_ hfrees
      · intro k' hk'
        rcases List.mem_cons.mp hk' with rfl | hold
        · exact G.idle_unmapped k'
        · exact G.idle_unmap k (hks k' hold)
      · exact fun h hh hfor => G.idle_unmap k (hmcu h (List.mem_cons_of_mem _ hh) hfor)
    | free h =>
      obtain ⟨hin, hrest⟩ := covered_free hcov
      have hidle : Idle s h := by
        cases h with
        | gpu k => exact hks k (hin k rfl)
        | mcu k => exact hmcu _ List.mem_cons_self trivial
        | backing i => exact hmcu _ List.mem_cons_self trivial
        | ptPool => exact G.idle_pool
      refine ih (G.free hidle) (fun k hk => (hks k hk).after_free) hrest ?_
        ((free_unmapped_iff s h).mpr ⟨hidle, hfrees⟩)
      exact fun h' hh' hfor => (hmcu h' (List.mem_cons_of_mem _ hh') hfor).after_free

/-- An action takes no free back, and gives nobody a block. -/
theorem apply_frame (s : Csf) (u : Undo) : (FreesUnmapped (u.apply s) → FreesUnmapped s) ∧
    ∀ h, (u.apply s).blocks h = none ∨ (u.apply s).blocks h = s.blocks h := by
  cases u with
  | unmap k => exact ⟨id, fun h => .inr rfl⟩
  | free h =>
    refine ⟨fun hf => ((free_unmapped_iff s h).mp hf).2, fun h' => ?_⟩
    change (s.free h).blocks h' = none ∨ (s.free h).blocks h' = s.blocks h'
    rw [free_blocks]
    by_cases hne : h' = h
    · exact .inl (by rw [hne, Function.update_self])
    · exact .inr (Function.update_of_ne hne _ _)

theorem undo_frees (us : List Undo) (hf : FreesUnmapped (undo us s)) : FreesUnmapped s := by
  induction us generalizing s with
  | nil => exact hf
  | cons u us ih => exact (apply_frame s u).1 (ih hf)

theorem apply_fields (s : Csf) (u : Undo) : ∃ gpu blocks frees,
    u.apply s = { s with gpu := gpu, blocks := blocks, frees := frees } := by
  cases u with
  | unmap k => exact ⟨_, s.blocks, s.frees, rfl⟩
  | free h =>
    change ∃ gpu blocks frees, s.free h = { s with gpu := gpu, blocks := blocks, frees := frees }
    cases hb : s.blocks h with
    | none => exact ⟨s.gpu, s.blocks, s.frees, free_none hb⟩
    | some b => exact ⟨s.gpu, _, _, free_some hb⟩

theorem undo_fields (us : List Undo) (s : Csf) : ∃ gpu blocks frees,
    undo us s = { s with gpu := gpu, blocks := blocks, frees := frees } := by
  induction us generalizing s with
  | nil => exact ⟨s.gpu, s.blocks, s.frees, rfl⟩
  | cons u us ih =>
    obtain ⟨gpu, blocks, frees, hu⟩ := apply_fields s u
    obtain ⟨gpu', blocks', frees', hus⟩ := ih (u.apply s)
    exact ⟨gpu', blocks', frees', hus.trans (by rw [hu])⟩

theorem undo_keeps {us : List Undo} {h : Holder} (hh : Undo.free h ∉ us) :
    (undo us s).blocks h = s.blocks h := by
  induction us generalizing s with
  | nil => rfl
  | cons u us ih =>
    obtain ⟨hu, hrest⟩ := not_or.mp (mt List.mem_cons.mpr hh)
    refine (ih hrest).trans ?_
    cases u with
    | unmap k => rfl
    | free h' =>
      change (s.free h').blocks h = s.blocks h
      rw [free_blocks, Function.update_of_ne fun heq => hu (by rw [heq])]

/-- A page of the microcontroller that the actions free while it is mapped. -/
theorem undo_mapped {us : List Undo} {h : Holder} (hh : Undo.free h ∈ us) {b : Block}
    (hb : s.blocks h = some b) (has0 : s.as0 = true) (hmaps : McuMaps s.pt b) :
    ¬FreesUnmapped (undo us s) := by
  induction us generalizing s with
  | nil => cases hh
  | cons u us ih =>
    obtain ⟨gpu, blocks, frees, hfields⟩ := apply_fields s u
    have has0' : (u.apply s).as0 = s.as0 := by rw [hfields]
    have hpt : (u.apply s).pt = s.pt := by rw [hfields]
    by_cases hu : u = .free h
    · subst hu
      intro hf
      have hidle := ((free_unmapped_iff s h).mp (undo_frees us hf)).1
      exact hidle b hb ((maps_iff s b).mpr (.inl ⟨has0, hmaps⟩))
    · have hrest : Undo.free h ∈ us := by
        rcases List.mem_cons.mp hh with heq | hrest
        · exact absurd heq.symm hu
        · exact hrest
      refine ih hrest ?_ (has0'.trans has0) (by rwa [hpt])
      cases u with
      | unmap k => exact hb
      | free h' =>
        change (s.free h').blocks h = some b
        rw [free_blocks, Function.update_of_ne fun heq => hu (by rw [heq]), hb]

theorem undo_none {us : List Undo} {h : Holder} (hh : Undo.free h ∈ us ∨ s.blocks h = none) :
    (undo us s).blocks h = none := by
  induction us generalizing s with
  | nil => exact hh.resolve_left (by simp)
  | cons u us ih =>
    apply ih
    rcases hh with hmem | hnone
    · rcases List.mem_cons.mp hmem with rfl | hrest
      · right
        change (s.free h).blocks h = none
        rw [free_blocks, Function.update_self]
      · exact .inl hrest
    · right
      rcases (apply_frame s u).2 h with hn | hsame
      · exact hn
      · exact hsame.trans hnone

theorem Good.undo_iff (G : Good g s) {ks : List GpuBuffer} (hks : ∀ k ∈ ks, Idle s (.gpu k))
    {us : List Undo} (hcov : covered ks us = true) (hfrees : FreesUnmapped s) :
    FreesUnmapped (undo us s) ↔ (s.as0 = true → ∀ h, Undo.free h ∈ us → Holder.ForMcu h →
      ∀ b, s.blocks h = some b → ¬McuMaps s.pt b) := by
  constructor
  · intro hf has0 h hh hfor b hb hmaps
    exact undo_mapped hh hb has0 hmaps hf
  · intro hno
    refine (G.undo_idle hks hcov (fun h hh hfor => ?_) hfrees).2
    exact (G.idle_mcu hfor).mpr fun has0 => hno has0 h hh hfor

end WinMali.CsfFrees
