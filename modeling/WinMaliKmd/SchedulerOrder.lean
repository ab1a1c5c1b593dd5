import Mathlib.Order.Nat
import WinMaliKmd.FencePipeline
import WinMaliKmd.Scheduler
import WinMaliKmd.ThreadPools

/-!
# Fences complete in order

Three paths complete fences, and the rings and the hands of threads between
them are the pools of a pipeline. Each step of the scheduler is a move of that
pipeline, provided that no step lets a fence overtake an older one.
-/

set_option autoImplicit false

namespace WinMali.SchedulerOrder
open WinMali.FencePipeline WinMali.FifoRing WinMali.Runs WinMali.Scheduler WinMali.ThreadPools

section Pools

variable (pc : Pc)

def uncompleted : List ℕ :=
  match pc with
  | .enqueue e => submitFences [e]
  | .insert e => submitFences [e]
  | .exchange e _ => [e.fenceId]
  | _ => []

def unpushed : List ℕ :=
  match pc with
  | .push f _ => fences [f]
  | _ => []

def unannounced : List ℕ :=
  match pc with
  | .dpcNotify f => fences [f]
  | _ => []

def unstored : List ℕ :=
  match pc with
  | .dpcStore f => [f.submissionFenceId]
  | _ => []

end Pools

def view (s : State) : Pipeline ℕ where
  accepted := s.accepted
  uncompleted := submitFences s.submitQueue.pending ++ s.threads.flatMap uncompleted
  unpushed := s.threads.flatMap unpushed
  fenceQueue := fences s.fenceQueue.pending
  unannounced := s.threads.flatMap unannounced
  notified := fences s.notified
  unstored := s.threads.flatMap unstored
  last := s.schedLastCompletedFence
  stored := s.gpuCompletedFence

/-- The fence that a step completes, pushes, announces or stores is older than those that
other threads hold before the same point. -/
def guardPc (s : State) (i : ℕ) : Pc → Prop
  | .exchange e _ =>
    ∀ x ∈ submitFences s.submitQueue.pending ++ (s.threads.eraseIdx i).flatMap uncompleted,
      e.fenceId < x
  | .push f _ =>
    f.isPreempt = true ∨ ∀ x ∈ (s.threads.eraseIdx i).flatMap unpushed, f.submissionFenceId < x
  | .dpcNotify f =>
    f.isPreempt = true ∨ ∀ x ∈ (s.threads.eraseIdx i).flatMap unannounced, f.submissionFenceId < x
  | .dpcStore f => ∀ x ∈ (s.threads.eraseIdx i).flatMap unstored, f.submissionFenceId < x
  | _ => True

/-- Fence ids increase, and no thread overtakes an older fence. -/
def guard (s : State) : Label → Prop
  | .submit f _ _ => ∀ a ∈ s.accepted, a < f
  | .run i => ∀ p ∈ s.threads[i]?, guardPc s i p
  | _ => True

instance (s : State) (i : ℕ) : (p : Pc) → Decidable (guardPc s i p)
  | .exchange _ _ => inferInstanceAs (Decidable (∀ x ∈ _ ++ _, _))
  | .push _ _ => inferInstanceAs (Decidable (_ ∨ ∀ x ∈ _, _))
  | .dpcNotify _ => inferInstanceAs (Decidable (_ ∨ ∀ x ∈ _, _))
  | .dpcStore _ => inferInstanceAs (Decidable (∀ x ∈ _, _))
  | .wait | .testStop | .dequeue _ | .readLast _ _ | .exited | .enqueue _ | .insert _ | .signal
  | .dpcDequeue | .stopSet | .stopSignal | .join | .clearThread | .done => isTrue trivial

instance (s : State) : (l : Label) → Decidable (guard s l)
  | .submit _ _ _ => inferInstanceAs (Decidable (∀ a ∈ _, _))
  | .run _ => inferInstanceAs (Decidable (∀ p ∈ (_ : Option Pc), _))
  | .preempt _ _ _ | .reset | .dpc | .teardown => isTrue trivial

section Threads

variable {g : Pc → List ℕ} {l : List Pc} {i : ℕ} {p q : Pc}

/-- A thread that steps takes its fences out of a pool or adds new ones. -/
theorem tookIn_set (l : List Pc) (i : ℕ) (q : Pc) :
    TookIn (l.flatMap g) (g q) ((l.set i q).flatMap g) :=
  fun _ hx => (mem_flatMap_set hx).imp_left mem_of_mem_eraseIdx

theorem letGo_set (h : l[i]? = some p) {f : ℕ} (hf : f ∈ g p) (hq : g q = [])
    (oldest : ∀ x ∈ (l.eraseIdx i).flatMap g, f < x) :
    LetGo (l.flatMap g) f ((l.set i q).flatMap g) := by
  refine ⟨mem_flatMap_self h hf, fun x hx => ?_⟩
  have hx := (mem_flatMap_set hx).resolve_right (by simp [hq])
  exact ⟨mem_of_mem_eraseIdx hx, oldest x hx⟩

end Threads

section Steps

variable {s t : State} {i : ℕ} {p q : Pc}

theorem uncompleted_handle (e : SubmitEntry) (k : Cont) :
    uncompleted (handle e k) = submitFences [e] := by
  rcases handle_cases e k with ⟨hpre, h | h⟩ | ⟨hpre, h⟩ <;>
    simp [h, uncompleted, submitFences_cons, hpre]

theorem fences_kept_sublist (s : State) :
    (fences (kept s)).Sublist (fences s.fenceQueue.pending) := by
  unfold kept
  split
  · exact ((List.tail_sublist _).filter _).map _
  · exact List.Sublist.refl _

/-- A step that completes, announces and stores nothing. -/
theorem shuffle_move (hpc : s.threads[i]? = some p) (hthreads : t.threads = s.threads.set i q)
    (hacc : t.accepted = s.accepted) (hlast : t.schedLastCompletedFence = s.schedLastCompletedFence)
    (hstored : t.gpuCompletedFence = s.gpuCompletedFence)
    (hnotified : fences t.notified = fences s.notified)
    (hq : (fences t.fenceQueue.pending).Sublist (fences s.fenceQueue.pending))
    (hpools : unpushed q = unpushed p ∧ unannounced q = unannounced p ∧ unstored q = unstored p)
    (hunc : ∀ x ∈ submitFences t.submitQueue.pending ++ uncompleted q,
      x ∈ submitFences s.submitQueue.pending ++ uncompleted p) : Move (view s) (view t) := by
  have hview : view t = { view s with
      uncompleted := submitFences t.submitQueue.pending ++ t.threads.flatMap uncompleted
      fenceQueue := fences t.fenceQueue.pending } := by
    simp only [view, hacc, hlast, hstored, hnotified, hthreads, flatMap_set unpushed q hpc hpools.1,
      flatMap_set unannounced q hpc hpools.2.1, flatMap_set unstored q hpc hpools.2.2]
  rw [hview, hthreads]
  refine .shuffle (view s) _ ?_ _ hq
  intro x hx
  left
  have hp : x ∈ submitFences t.submitQueue.pending ++ uncompleted q → x ∈ (view s).uncompleted := by
    intro hx
    rcases List.mem_append.mp (hunc x hx) with hx | hx
    · exact List.mem_append_left _ hx
    · exact List.mem_append_right _ (mem_flatMap_self hpc hx)
  rcases List.mem_append.mp hx with hx | hx
  · exact hp (List.mem_append_left _ hx)
  · rcases mem_flatMap_set hx with hx | hx
    · exact List.mem_append_right _ (mem_of_mem_eraseIdx hx)
    · exact hp (List.mem_append_right _ hx)

/-- A thread moves on and holds the same fences as before. -/
theorem goto_move (hpc : s.threads[i]? = some p) (hthreads : t.threads = s.threads.set i q)
    (same : SameBooks s t) (hunc : uncompleted q = uncompleted p)
    (hpools : unpushed q = unpushed p ∧ unannounced q = unannounced p ∧ unstored q = unstored p) :
    Move (view s) (view t) := by
  refine shuffle_move hpc hthreads same.accepted same.schedLastCompletedFence
    same.gpuCompletedFence (by rw [same.notified]) (by rw [same.fenceQueue]) hpools ?_
  rw [same.submitQueue, hunc]
  exact fun _ hx => hx

theorem idle_pools (h : p.idle = true) : uncompleted p = [] ∧ unpushed p = [] ∧
    unannounced p = [] ∧ unstored p = [] := by
  cases p <;> first | exact ⟨rfl, rfl, rfl, rfl⟩ | cases h

theorem handle_pools (e : SubmitEntry) (k : Cont) : unpushed (handle e k) = [] ∧
    unannounced (handle e k) = [] ∧ unstored (handle e k) = [] := by
  rcases handle_cases e k with ⟨-, h | h⟩ | ⟨-, h⟩ <;> rw [h] <;> exact ⟨rfl, rfl, rfl⟩

theorem exchange_move {e : SubmitEntry} {k : Cont} (hpc : s.threads[i]? = some (.exchange e k))
    (hg : guardPc s i (.exchange e k)) : Move (view s)
      (view ({ s with schedLastCompletedFence := e.fenceId }.goto i (.push (completed e) k))) := by
  have hview : view ({ s with schedLastCompletedFence := e.fenceId }.goto i
      (.push (completed e) k)) = { view s with
        uncompleted := submitFences s.submitQueue.pending ++
          (s.threads.set i (.push (completed e) k)).flatMap uncompleted
        unpushed := (s.threads.set i (.push (completed e) k)).flatMap unpushed
        last := e.fenceId } := by
    simp only [view, State.goto, flatMap_set unannounced (.push (completed e) k) hpc rfl,
      flatMap_set unstored (.push (completed e) k) hpc rfl]
  rw [hview]
  have hpool : LetGo (s.threads.flatMap uncompleted) e.fenceId
      ((s.threads.set i (.push (completed e) k)).flatMap uncompleted) :=
    letGo_set hpc (by simp [uncompleted]) rfl fun x hx => hg x (List.mem_append_right _ hx)
  refine .complete (view s) e.fenceId _ _ ⟨List.mem_append_right _ hpool.1, ?_⟩
    (tookIn_set s.threads i (.push (completed e) k))
  intro x hx
  rcases List.mem_append.mp hx with hx | hx
  · exact ⟨List.mem_append_left _ hx, hg x (List.mem_append_left _ hx)⟩
  · exact (hpool.2 x hx).imp_left (List.mem_append_right _)

theorem push_move {f : FenceEntry} {k : Cont} (hpc : s.threads[i]? = some (.push f k))
    (hg : guardPc s i (.push f k)) : Move (view s)
      (view ({ s with fenceQueue := s.fenceQueue.pushDropOldest f }.goto i k.next)) := by
  have hnext : uncompleted k.next = [] ∧ unpushed k.next = [] ∧ unannounced k.next = [] ∧
      unstored k.next = [] := by
    cases k <;> exact ⟨rfl, rfl, rfl, rfl⟩
  cases hpre : f.isPreempt with
  | true =>
    -- a marker only pushes fences out
    refine shuffle_move hpc rfl rfl rfl rfl rfl ?_ ?_ ?_
    · simp only [State.goto, pending_push, fences_append, fences_cons, hpre, if_true, fences_nil,
        List.append_nil]
      exact fences_kept_sublist s
    · have hf : unpushed (.push f k) = [] := by simp [unpushed, fences_cons, hpre]
      rw [hf]
      exact hnext.2
    · rw [hnext.1]
      exact fun _ hx => hx
  | false =>
    have hview : view ({ s with fenceQueue := s.fenceQueue.pushDropOldest f }.goto i k.next) =
        { view s with
          unpushed := (s.threads.set i k.next).flatMap unpushed
          fenceQueue := fences (kept s) ++ [f.submissionFenceId] } := by
      simp only [view, State.goto, pending_push, fences_append, fences_cons, hpre, fences_nil,
        flatMap_set uncompleted k.next hpc hnext.1,
        flatMap_set unannounced k.next hpc hnext.2.2.1,
        flatMap_set unstored k.next hpc hnext.2.2.2]
      simp
    rw [hview]
    refine .push (view s) _ _ _ (letGo_set hpc ?_ hnext.2.1 ?_) (fences_kept_sublist s)
    · simp [unpushed, fences_cons, hpre]
    · exact hg.resolve_left (by simp [hpre])

theorem dpcTake_move {f : FenceEntry} {r : Ring FenceEntry fenceQueueDepth}
    (hpc : s.threads[i]? = some .dpcDequeue) (hpop : s.fenceQueue.pop = some (f, r)) :
    Move (view s) (view ({ s with fenceQueue := r }.goto i (.dpcNotify f))) := by
  have hpending := Ring.pop_some hpop
  cases hpre : f.isPreempt with
  | true =>
    have hrest : fences s.fenceQueue.pending = fences r.pending := by
      simp [hpending, fences_cons, hpre]
    refine shuffle_move hpc rfl rfl rfl rfl rfl ?_ ⟨rfl, ?_, rfl⟩ ?_
    · rw [hrest]
      exact List.Sublist.refl _
    · simp [unannounced, fences_cons, hpre]
    · exact fun _ hx => hx
  | false =>
    have hview : view ({ s with fenceQueue := r }.goto i (.dpcNotify f)) = { view s with
        fenceQueue := fences r.pending
        unannounced := (s.threads.set i (.dpcNotify f)).flatMap unannounced } := by
      simp only [view, State.goto, flatMap_set uncompleted (.dpcNotify f) hpc rfl,
        flatMap_set unpushed (.dpcNotify f) hpc rfl, flatMap_set unstored (.dpcNotify f) hpc rfl]
    rw [hview]
    refine .pop (view s) f.submissionFenceId _ _ ?_ ?_
    · simp [view, hpending, fences_cons, hpre]
    · have hf : [f.submissionFenceId] = unannounced (.dpcNotify f) := by
        simp [unannounced, fences_cons, hpre]
      rw [hf]
      exact tookIn_set s.threads i (.dpcNotify f)

theorem dpcNotify_move {f : FenceEntry} (hpc : s.threads[i]? = some (.dpcNotify f))
    (hg : guardPc s i (.dpcNotify f)) : Move (view s)
      (view ({ s with notified := s.notified ++ [f] }.goto i
        (if f.isPreempt then .dpcDequeue else .dpcStore f))) := by
  cases hpre : f.isPreempt with
  | true =>
    refine shuffle_move (q := .dpcDequeue) hpc ?_ rfl rfl rfl ?_ (List.Sublist.refl _) ?_ ?_
    · simp [State.goto]
    · simp [State.goto, fences_append, fences_cons, hpre]
    · simp [unpushed, unannounced, unstored, fences_cons, hpre]
    · exact fun _ hx => hx
  | false =>
    have hview : view ({ s with notified := s.notified ++ [f] }.goto i (.dpcStore f)) =
        { view s with
          unannounced := (s.threads.set i (.dpcStore f)).flatMap unannounced
          notified := fences s.notified ++ [f.submissionFenceId]
          unstored := (s.threads.set i (.dpcStore f)).flatMap unstored } := by
      simp only [view, State.goto, flatMap_set uncompleted (.dpcStore f) hpc rfl,
        flatMap_set unpushed (.dpcStore f) hpc rfl, fences_append, fences_cons, hpre, fences_nil]
      simp
    simp only [if_neg Bool.false_ne_true]
    rw [hview]
    refine .announce (view s) _ _ _ (letGo_set hpc ?_ rfl (hg.resolve_left (by simp [hpre]))) ?_
    · simp [unannounced, fences_cons, hpre]
    · exact tookIn_set s.threads i (.dpcStore f)

theorem dpcStore_move {f : FenceEntry} (hpc : s.threads[i]? = some (.dpcStore f))
    (hg : guardPc s i (.dpcStore f)) : Move (view s)
      (view ({ s with gpuCompletedFence := f.submissionFenceId }.goto i .dpcDequeue)) := by
  have hview : view ({ s with gpuCompletedFence := f.submissionFenceId }.goto i .dpcDequeue) =
      { view s with
        unstored := (s.threads.set i .dpcDequeue).flatMap unstored
        stored := f.submissionFenceId } := by
    simp only [view, State.goto, flatMap_set uncompleted .dpcDequeue hpc rfl,
      flatMap_set unpushed .dpcDequeue hpc rfl, flatMap_set unannounced .dpcDequeue hpc rfl]
  rw [hview]
  exact .store (view s) _ _ (letGo_set hpc (by simp [unstored]) rfl hg)

theorem take_move {e : SubmitEntry} {r : Ring SubmitEntry submitQueueDepth} {k : Cont}
    (hpc : s.threads[i]? = some (.dequeue k)) (hpop : s.submitQueue.pop = some (e, r)) :
    Move (view s) (view ({ s with submitQueue := r }.goto i (handle e k))) := by
  refine shuffle_move hpc rfl rfl rfl rfl rfl (List.Sublist.refl _) (handle_pools e k) ?_
  intro x hx
  rw [uncompleted_handle] at hx
  simp only [State.goto, submitFences_pop hpop, List.mem_append] at hx ⊢
  tauto

theorem insert_move {e : SubmitEntry} {r : Ring SubmitEntry submitQueueDepth}
    (hpc : s.threads[i]? = some (.insert e)) (hput : s.submitQueue.pushIfRoom e = some r) :
    Move (view s) (view ({ s with submitQueue := r }.goto i .signal)) := by
  refine shuffle_move hpc rfl rfl rfl rfl rfl (List.Sublist.refl _) ⟨rfl, rfl, rfl⟩ ?_
  intro x hx
  simpa [State.goto, Ring.pending_pushIfRoom hput, submitFences_append, uncompleted] using hx

theorem run_move (hpc : s.threads[i]? = some p) (hg : guardPc s i p)
    (h : stepPc s i p = some t) : Move (view s) (view t) := by
  cases turn_cases h with
  | idle hp hq hthreads same =>
    obtain ⟨hunc, hpools⟩ := idle_pools hp
    obtain ⟨hunc', hpools'⟩ := idle_pools hq
    refine goto_move hpc hthreads same (hunc'.trans hunc.symm) ?_
    rw [hpools.1, hpools.2.1, hpools.2.2]
    exact hpools'
  | stop hstop => exact goto_move hpc rfl (sameBooks_goto s i _) rfl ⟨rfl, rfl, rfl⟩
  | take k hpop => exact take_move hpc hpop
  | readLast e k =>
    refine goto_move hpc rfl (sameBooks_goto s i _) rfl ⟨?_, rfl, rfl⟩
    simp [unpushed, preempted, fences_cons]
  | exchange e k => exact exchange_move hpc hg
  | push f k => exact push_move hpc hg
  | inline e =>
    exact goto_move hpc rfl (sameBooks_goto s i _) (uncompleted_handle e .inline)
      (handle_pools e .inline)
  | queue e => exact goto_move hpc rfl (sameBooks_goto s i _) rfl ⟨rfl, rfl, rfl⟩
  | full e =>
    exact goto_move hpc rfl (sameBooks_goto s i _) (uncompleted_handle e .inline)
      (handle_pools e .inline)
  | insert e hput => exact insert_move hpc hput
  | dpcTake hpop => exact dpcTake_move hpc hpop
  | dpcNotify f => exact dpcNotify_move hpc hg
  | dpcStore f => exact dpcStore_move hpc hg

theorem view_spawn (s : State) (p : Pc) : view (s.spawn p) = { view s with
    uncompleted := (view s).uncompleted ++ uncompleted p
    unpushed := (view s).unpushed ++ unpushed p
    unannounced := (view s).unannounced ++ unannounced p
    unstored := (view s).unstored ++ unstored p } := by
  simp [view, State.spawn]

theorem step_move (l : Label) (hg : guard s l) (h : step s l = some t) :
    Move (view s) (view t) := by
  have hquiet : ∀ p, uncompleted p = [] → unpushed p = [] → unannounced p = [] →
      unstored p = [] → Move (view s) (view (s.spawn p)) := by
    intro p hu hp ha hs
    rw [view_spawn, hu, hp, ha, hs]
    simp only [List.append_nil]
    exact .shuffle (view s) _ (fun _ hx => .inl hx) _ (List.Sublist.refl _)
  cases l with
  | submit f n e =>
    obtain rfl := Option.some.inj h
    rw [view_spawn]
    simp only [uncompleted, unpushed, unannounced, unstored, List.append_nil]
    exact .accept (view s) f _ hg fun _ hx => List.mem_append.mp hx
  | preempt f n e =>
    obtain rfl := Option.some.inj h
    exact hquiet _ rfl rfl rfl rfl
  | reset =>
    obtain rfl := Option.some.inj h
    exact hquiet _ rfl rfl rfl rfl
  | dpc =>
    obtain rfl := Option.some.inj h
    exact hquiet _ rfl rfl rfl rfl
  | teardown =>
    obtain rfl := Option.some.inj h
    split
    · exact hquiet _ rfl rfl rfl rfl
    · exact hquiet _ rfl rfl rfl rfl
  | run i =>
    obtain ⟨p, hpc, hrun⟩ := Option.bind_eq_some_iff.mp h
    exact run_move hpc (hg p hpc) hrun

end Steps

theorem schedInit_inLine (o : InitOutcome) : InLine (view (schedInit o)) := by
  cases o <;> exact ⟨List.Pairwise.nil, List.Pairwise.nil, by decide⟩

theorem schedInit_recorded (o : InitOutcome) : Recorded (view (schedInit o)) := by
  cases o <;> exact ⟨by decide, by decide, by decide, .inl rfl, by decide, by decide, by decide⟩

/-- Fences are announced in order, and the two recorded fences never decrease, in every run
that lets no fence overtake an older one. -/
theorem fences_in_order (o : InitOutcome) (ls : List Label)
    (hg : Guarded step guard (schedInit o) ls) :
    Always step (fun s _ t => (fences t.notified).Pairwise (· < ·) ∧
      s.schedLastCompletedFence ≤ t.schedLastCompletedFence ∧
      s.gpuCompletedFence ≤ t.gpuCompletedFence) (schedInit o) ls := by
  have hstep : ∀ s l t, InLine (view s) ∧ Recorded (view s) → guard s l → step s l = some t →
      InLine (view t) ∧ Recorded (view t) := by
    rintro s l t ⟨O, R⟩ hl h
    have m := step_move l hl h
    exact ⟨m.inLine O R, m.recorded O R⟩
  refine always_of_guarded hstep ?_ ⟨schedInit_inLine o, schedInit_recorded o⟩ hg
  rintro s l t ⟨O, R⟩ hl h
  have m := step_move l hl h
  exact ⟨(m.inLine O R).notified, m.monotone R⟩

/-- One fence through the worker and the DPC. -/
theorem worker_completes_fence :
    Always step (fun s _ t => (fences t.notified).Pairwise (· < ·) ∧
      s.schedLastCompletedFence ≤ t.schedLastCompletedFence ∧
      s.gpuCompletedFence ≤ t.gpuCompletedFence) (schedInit .up)
      [.submit 1 0 0, .run 1, .run 1, .run 1, .run 0, .run 0, .run 0, .run 0, .run 0, .dpc,
        .run 2, .run 2, .run 2] :=
  fences_in_order .up _ (by decide)

/-- The worker has taken the first fence when a reset takes and completes the second one. -/
theorem reset_overtakes_worker : ∃ t,
    exec step (schedInit .up)
      [.submit 1 0 0, .run 1, .run 1, .run 1, .run 0, .run 0, .run 0, .submit 2 0 0, .run 2,
        .run 2, .reset, .run 3, .run 3, .run 3, .run 0, .run 0, .dpc, .run 4, .run 4, .run 4,
        .run 4, .run 4] = some t ∧ fences t.notified = [2, 1] ∧ t.schedLastCompletedFence = 1 :=
  ⟨_, rfl, by decide, by decide⟩

end WinMali.SchedulerOrder
