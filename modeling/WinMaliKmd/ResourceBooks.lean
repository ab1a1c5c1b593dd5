import WinMaliKmd.ApertureWalk
import WinMaliKmd.DeviceResources

/-!
# The books and the memory

The start is modelled twice: by what it allocates and frees, and, for the MMU and for the kernel
queue, by what it writes where. Both come to the same end, with the same blocks held.
-/

set_option autoImplicit false

namespace WinMali.ResourceBooks
open WinMali.CsfBuffers (Csf Holder Undo allocate attempt granted mapGpu mapMcu)
open WinMali.DeviceResources

section Walk

variable {d : Dev} {m : ApertureWalk.Mmu}

/-- The books hold the blocks that the driver has pointers to. -/
structure Pointed (m : ApertureWalk.Mmu) (d : Dev) : Prop where
  regs : d.gpuRegsMapped = m.gpuRegsMapped
  bound : d.gpuMmuAsBound = m.gpuMmuAsBound
  heap : d.holds .mmuScratchHeap = m.mmuScratchHeap.isSome
  segment : d.holds .dmaSegment = m.dmaSegment.isSome
  aperture : d.holds .apertureL3 = m.apertureL3.isSome

/-- What the allocator answers, as `ApertureWalk` has it and as the books do. -/
structure SameReplies (r : ApertureWalk.Replies) (e : MmuEnv) : Prop where
  heap : e.heap = r.scratch.isSome
  dma : ∀ k < 4, e.dma (mib 128 >>> k) = (r.dma k).isSome
  aperture : e.aperture = r.aperture.isSome
  asEnable : e.asEnable = r.asEnable.ok

theorem shrink_window (granted : ℕ → Bool) (turns : ℕ) :
    shrink granted (mib 16) (turns + 5) (mib 128) = [0, 1, 2, 3].findSome? fun k =>
      if granted (mib 128 >>> k) then some (mib 128 >>> k) else none := by
  have h0 : ¬mib 128 < mib 16 := by decide
  have h1 : ¬mib 128 >>> 1 < mib 16 := by decide
  have h2 : ¬mib 128 >>> 2 < mib 16 := by decide
  have h3 : ¬mib 128 >>> 3 < mib 16 := by decide
  have h4 : mib 128 >>> 4 < mib 16 := by decide
  simp only [shrink, ← Nat.shiftRight_add, Nat.reduceAdd, if_neg h0, if_neg h1, if_neg h2,
    if_neg h3, if_pos h4, List.findSome?, Nat.shiftRight_zero]
  cases granted (mib 128) <;> cases granted (mib 128 >>> 1) <;> cases granted (mib 128 >>> 2) <;>
    cases granted (mib 128 >>> 3) <;> rfl

theorem shrink_dmaBlock {r : ApertureWalk.Replies} {e : MmuEnv} (h : SameReplies r e) :
    shrink e.dma (mib 16) 64 (mib 128) = (ApertureWalk.dmaBlock r).map Prod.snd := by
  refine (shrink_window e.dma 59).trans ?_
  have hwindow : ApertureRoots.windowBytes = mib 128 := by decide
  simp only [ApertureWalk.dmaBlock, List.findSome?, h.dma 0 (by decide), h.dma 1 (by decide),
    h.dma 2 (by decide), h.dma 3 (by decide), hwindow]
  cases r.dma 0 <;> cases r.dma 1 <;> cases r.dma 2 <;> cases r.dma 3 <;> rfl

theorem Pointed.teardown (P : Pointed m d) :
    Pointed (ApertureWalk.mmuTeardown m) (mmuTeardown d) := by
  have hregs : (ApertureWalk.mmuTeardown m).gpuRegsMapped = m.gpuRegsMapped := by
    rw [ApertureWalk.mmuTeardown_frame]
  refine ⟨?_, freeDmaSegment_flags.2, ?_, ?_, ?_⟩
  · rw [hregs, ← P.regs]
    exact MmuStep.mmuTeardown.regs
  · rw [holds_mmuTeardown]
    simp [Res.ofMmu, ApertureWalk.mmuTeardown]
  · rw [holds_mmuTeardown]
    simp [Res.ofMmu, ApertureWalk.mmuTeardown]
  · rw [holds_mmuTeardown]
    simp [Res.ofMmu, ApertureWalk.mmuTeardown]

/-- What a start of the MMU leaves in memory is what it leaves in the books. -/
theorem mmuInit_pointed {r : ApertureWalk.Replies} {e : MmuEnv} (h : SameReplies r e)
    (P : Pointed m d) : Pointed (ApertureWalk.mmuInit r m).2 (mmuInit e d) := by
  unfold ApertureWalk.mmuInit mmuInit
  rw [P.regs]
  cases hregs : m.gpuRegsMapped with
  | false => exact P
  | true =>
    have T := P.teardown
    have hoff : (ApertureWalk.mmuTeardown m).mmuScratchHeap = none ∧
        (ApertureWalk.mmuTeardown m).dmaSegment = none ∧
        (ApertureWalk.mmuTeardown m).apertureL3 = none := ⟨rfl, rfl, rfl⟩
    generalize ApertureWalk.mmuTeardown m = m₀ at T hoff ⊢
    generalize mmuTeardown d = d₀ at T ⊢
    simp only [Bool.not_true, Bool.false_eq_true, if_false, h.heap, h.aperture, h.asEnable,
      shrink_dmaBlock h]
    cases r.scratch with
    | none =>
      refine ⟨T.regs, T.bound, ?_, ?_, ?_⟩
      · simp [holds_take, hoff.1]
      · simpa [holds_take] using T.segment
      · simpa [holds_take] using T.aperture
    | some rootPa =>
      cases ApertureWalk.dmaBlock r with
      | none =>
        refine ⟨T.regs, T.bound, ?_, ?_, ?_⟩
        · simp [holds_give, hoff.1]
        · simpa [holds_take, holds_give] using T.segment
        · simpa [holds_take, holds_give] using T.aperture
      | some block =>
        cases r.aperture with
        | none =>
          refine ⟨?_, ?_, ?_, ?_, ?_⟩
          · exact MmuStep.freeDmaSegment.regs.trans T.regs
          · exact freeDmaSegment_flags.2.trans T.bound
          · simp [holds_give, hoff.1]
          · simp [holds_give, holds_freeDmaSegment, hoff.2.1]
          · simpa [holds_give, holds_freeDmaSegment, holds_takeDmaSegment, holds_take]
              using T.aperture
        | some aperPa =>
          have hset {mem : ℕ → BitVec 64} : Pointed (ApertureWalk.asDisable
              { m₀ with
                mem := mem
                mmuScratchHeap := some rootPa
                dmaSegment := some block
                apertureL3 := some aperPa } AsSlots.bringupAs)
              ((takeDmaSegment block.2 (d₀.take .mmuScratchHeap true)).take .apertureL3 true) := by
            rw [ApertureWalk.asDisable_frame]
            refine ⟨T.regs, T.bound, ?_, ?_, ?_⟩
            · simp [holds_takeDmaSegment, holds_take]
            · simp [holds_takeDmaSegment, holds_take]
            · simp [holds_take]
          dsimp only [Option.isSome_some, Option.map_some]
          cases r.asEnable.ok with
          | false => exact hset.teardown
          | true => exact ⟨hset.regs, rfl, hset.heap, hset.segment, hset.aperture⟩

end Walk

section Buffers

/-- A step of the bootstrap in `CsfBuffers`. -/
def stepOnBuffers (env : CsfBuffers.Env) : CsfStep → Csf → NtStatus × Csf
  | .alloc h => allocate env h
  | .map (.gpu k) => mapGpu k
  | .map (.mcu k) => mapMcu k
  | .map _ => fun s => (.success, s)
  | .start => fun s => (env.start, s)

def onBuffers (env : CsfBuffers.Env) : List (CsfStep × List Undo) → Csf → NtStatus × Csf
  | [] => fun s => (.success, { s with csfBootValid := true })
  | (c, err)::cs => attempt (stepOnBuffers env c) err (onBuffers env cs)

theorem bootSteps_onBuffers (env : CsfBuffers.Env) :
    CsfBuffers.bootSteps env = onBuffers env bootSteps := rfl

/-- The books hold the blocks of the kernel queue. -/
def Booked (s : Csf) (d : Dev) : Prop := ∀ h, d.holds (.fw h) = (s.blocks h).isSome

variable {s : Csf} {d : Dev} {env : CsfBuffers.Env}

theorem undo_blocks (us : List Undo) (s : Csf) (h : Holder) :
    (CsfBuffers.undo us s).blocks h = if .fw h ∈ frees us then none else s.blocks h := by
  induction us generalizing s with
  | nil => rfl
  | cons u us ih =>
    refine (ih (u.apply s)).trans ?_
    cases u with
    | unmap k => rfl
    | free h' =>
      have hfree : (s.free h').blocks h = if h = h' then none else s.blocks h := by
        unfold Csf.free
        by_cases hh : h = h'
        · subst hh
          cases hb : s.blocks h <;> simp [hb]
        · cases hb : s.blocks h' <;> simp [hh]
      change (if _ then none else (s.free h').blocks h) = _
      rw [hfree]
      by_cases hh : h = h'
      · simp [frees, hh]
      · by_cases hmem : Res.fw h ∈ frees us <;> simp_all [frees]

theorem Booked.undo (B : Booked s d) (us : List Undo) :
    Booked (CsfBuffers.undo us s) (undo us d) := by
  intro h
  refine (holds_giveAll d (frees us) (.fw h)).trans ?_
  rw [undo_blocks, B h]
  by_cases hmem : Res.fw h ∈ frees us <;> simp [hmem]

def mapped (cs : List (CsfStep × List Undo)) : List Holder :=
  cs.filterMap fun
    | (.map h, _) => some h
    | _ => none

/-- The answers of the books are those of the buffers' bootstrap. -/
structure Answers (env : CsfBuffers.Env) (e : CsfEnv) : Prop where
  alloc : ∀ h, e.alloc h = (env.alloc h).isSome
  start : e.start = decide (env.start = .success)

/-- The two bootstraps have come to the same end. -/
def Alike (a : NtStatus × Csf) (b : Bool × Dev) : Prop :=
  (b.1 = true ↔ a.1 = .success) ∧ Booked a.2 b.2

theorem attempt_eq (op rest : Csf → NtStatus × Csf) (err : List Undo) (s : Csf) :
    attempt op err rest s = if (op s).1 = .success then rest (op s).2
      else ((op s).1, CsfBuffers.undo err (op s).2) := by
  unfold attempt
  rcases op s with ⟨st, s'⟩
  cases st <;> rfl

theorem step_alike {e : CsfEnv} {c : CsfStep} {err : List Undo} {cs : List (CsfStep × List Undo)}
    (hstep : Alike (stepOnBuffers env c s) (c.run e d))
    (hrest : (stepOnBuffers env c s).1 = .success →
      Alike (onBuffers env cs (stepOnBuffers env c s).2) (runSteps e cs (c.run e d).2)) :
    Alike (onBuffers env ((c, err)::cs) s) (runSteps e ((c, err)::cs) d) := by
  rw [onBuffers, attempt_eq, runSteps_cons]
  by_cases hok : (stepOnBuffers env c s).1 = .success
  · rw [if_pos hok, if_pos (hstep.1.mpr hok)]
    exact hrest hok
  · rw [if_neg hok, if_neg fun h => hok (hstep.1.mp h)]
    exact ⟨⟨nofun, fun h => absurd h hok⟩, hstep.2.undo err⟩

theorem alloc_alike (B : Booked s d) {e : CsfEnv} (A : Answers env e) (h : Holder) :
    Alike (stepOnBuffers env (.alloc h) s) ((CsfStep.alloc h).run e d) := by
  refine ⟨?_, fun h' => ?_⟩
  · change e.alloc h = true ↔ (if _ then _ else _) = _
    rw [A.alloc h]
    cases env.alloc h <;> simp
  · change (d.take (.fw h) (e.alloc h)).holds (.fw h') =
      (Function.update s.blocks h (granted s env h) h').isSome
    rw [holds_take, A.alloc h]
    by_cases hh : h' = h
    · subst hh
      simp [granted]
    · simp [hh, B h']

theorem map_blocks (h : Holder) (s : Csf) :
    (stepOnBuffers env (.map h) s).2.blocks = s.blocks := by
  cases h with
  | gpu k =>
    change (mapGpu k s).2.blocks = _
    unfold mapGpu
    split <;> rfl
  | mcu k =>
    change (mapMcu k s).2.blocks = _
    unfold mapMcu
    split <;> rfl
  | backing i => rfl
  | ptPool => rfl

/-- For the memory and the replies that the buffers' bootstrap sees there are answers that lead
the books to the same end. -/
theorem onBuffers_alike (env : CsfBuffers.Env) (ready : Bool) {cs : List (CsfStep × List Undo)}
    (hnodup : (mapped cs).Nodup) (B : Booked s d) : ∃ e, Answers env e ∧ e.ready = ready ∧
      (∀ h ∉ mapped cs, e.map h = true) ∧ Alike (onBuffers env cs s) (runSteps e cs d) := by
  have hall : Answers env
      ⟨ready, fun h => (env.alloc h).isSome, fun _ => true, decide (env.start = .success)⟩ :=
    ⟨fun _ => rfl, rfl⟩
  induction cs generalizing s d with
  | nil => exact ⟨_, hall, rfl, fun _ _ => rfl, ⟨fun _ => rfl, fun _ => rfl⟩, B⟩
  | cons head cs ih =>
    obtain ⟨c, err⟩ := head
    cases c with
    | alloc h =>
      obtain ⟨e, A, hready, hmap, hrest⟩ := ih hnodup (alloc_alike B hall h).2
      have hd : ((CsfStep.alloc h).run e d).2 = d.take (.fw h) (env.alloc h).isSome := by
        rw [← A.alloc h]
        rfl
      exact ⟨e, A, hready, hmap, step_alike (alloc_alike B A h) fun _ => hd ▸ hrest⟩
    | map h =>
      have hnew := List.nodup_cons.mp hnodup
      have B' : Booked (stepOnBuffers env (.map h) s).2 d := fun h' => by
        rw [map_blocks, B h']
      by_cases hok : (stepOnBuffers env (.map h) s).1 = .success
      · obtain ⟨e, A, hready, hmap, hrest⟩ := ih hnew.2 B'
        refine ⟨e, A, hready, fun h' hh => hmap h' fun hm => hh (List.mem_cons_of_mem _ hm),
          step_alike ⟨iff_of_true (hmap h hnew.1) hok, B'⟩ fun _ => hrest⟩
      · refine ⟨⟨ready, fun h => (env.alloc h).isSome, fun h' => decide (h' ≠ h),
          decide (env.start = .success)⟩, ⟨fun _ => rfl, rfl⟩, rfl, fun h' hh => ?_,
          step_alike ⟨iff_of_false ?_ hok, B'⟩ fun h => absurd h hok⟩
        · exact decide_eq_true fun he => hh (he ▸ List.mem_cons_self)
        · simp [CsfStep.run]
    | start =>
      obtain ⟨e, A, hready, hmap, hrest⟩ := ih hnodup B
      refine ⟨e, A, hready, hmap, step_alike ⟨?_, B⟩ fun _ => hrest⟩
      change e.start = true ↔ env.start = .success
      rw [A.start, decide_eq_true_iff]

/-- Every bootstrap of the kernel queue in `CsfBuffers` is one of the books. -/
theorem csfBootstrap_books (env : CsfBuffers.Env) (B : Booked s d) : ∃ e, Answers env e ∧
    e.ready = (s.csfIfaceValid && s.gpu.gpuMmuAsBound) ∧
      Alike (CsfBuffers.bootstrap env s) (csfBootstrap e d) := by
  have hnodup : (mapped bootSteps).Nodup := by decide
  obtain ⟨e, A, hready, -, hrun⟩ :=
    onBuffers_alike env (s.csfIfaceValid && s.gpu.gpuMmuAsBound) hnodup B
  refine ⟨e, A, hready, ?_⟩
  rw [← bootSteps_onBuffers] at hrun
  unfold CsfBuffers.bootstrap csfBootstrap
  rw [hready]
  cases s.csfIfaceValid with
  | false => exact ⟨⟨nofun, nofun⟩, B⟩
  | true =>
    cases s.gpu.gpuMmuAsBound with
    | false => exact ⟨⟨nofun, nofun⟩, B⟩
    | true => exact hrun

end Buffers

end WinMali.ResourceBooks
