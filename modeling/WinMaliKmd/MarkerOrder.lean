import WinMaliKmd.SubmitFifo
import WinMaliKmd.ThreadPools

/-!
# Preemption markers

A preempt request goes through the queue of submits as a marker, or is answered at once. What
keeps a marker behind the older fences of its node is the queue: a marker that got into it after
them comes out of it after them.
-/

set_option autoImplicit false

namespace WinMali.MarkerOrder
open WinMali.FifoRing WinMali.Runs WinMali.Scheduler WinMali.SubmitFifo WinMali.ThreadPools

/-- `calls` lists the submit and preempt calls in their order, `exchanged` the fences in the order
of their exchanges, and `pushed` what was put into the queue of fences; the driver keeps none of
them. -/
structure State where
  sched : Scheduler.State
  calls : List SubmitEntry
  exchanged : List SubmitEntry
  pushed : List FenceEntry

def called : Label → List SubmitEntry
  | .submit f n e => [⟨f, n, e, false⟩]
  | .preempt f n e => [⟨f, n, e, true⟩]
  | _ => []

/-- Where the thread is that takes its turn. -/
def turn (s : State) : Label → List Pc
  | .run i => s.sched.threads[i]?.toList
  | _ => []

section Pools

variable (pc : Pc)

def exchanging : List SubmitEntry :=
  match pc with
  | .exchange e _ => [e]
  | _ => []

def pushing : List FenceEntry :=
  match pc with
  | .push f _ => [f]
  | _ => []

/-- A request whose call has not come to the queue of submits. -/
def coming : List SubmitEntry :=
  match pc with
  | .enqueue e | .insert e => [e]
  | _ => []

def entryOf (f : FenceEntry) : SubmitEntry :=
  ⟨f.submissionFenceId, f.nodeOrdinal, f.engineOrdinal, f.isPreempt⟩

/-- A fence that a thread completes and that is not in the queue of fences. -/
def completing : List SubmitEntry :=
  match pc with
  | .exchange e _ => [{ e with isPreempt := false }]
  | .push f _ => if f.isPreempt then [] else [entryOf f]
  | _ => []

/-- A marker that was taken from the queue of submits or did not get in. -/
def raised : List SubmitEntry :=
  match pc with
  | .readLast e _ => [{ e with isPreempt := true }]
  | .push f _ => if f.isPreempt then [entryOf f] else []
  | _ => []

/-- Markers that carry their boundary already. -/
def marked : List FenceEntry :=
  match pc with
  | .push f _ => if f.isPreempt then [f] else []
  | _ => []

def unannounced : List FenceEntry :=
  match pc with
  | .dpcNotify f => [f]
  | _ => []

end Pools

def step (s : State) (l : Label) : Option State :=
  (Scheduler.step s.sched l).map fun t =>
    ⟨t, s.calls ++ called l, s.exchanged ++ (turn s l).flatMap exchanging,
      s.pushed ++ (turn s l).flatMap pushing⟩

def ofNode (n : ℕ) (l : List FenceEntry) : List FenceEntry := l.filter fun f => f.nodeOrdinal = n

/-- The last completed fence of the node in a list of notifications. -/
def lastCompleted (n : ℕ) (l : List FenceEntry) : Option FenceEntry :=
  ((ofNode n l).filter fun f => !f.isPreempt).getLast?

def Before (calls : List SubmitEntry) (a b : SubmitEntry) : Prop := [a, b].Sublist calls

/-- The second may come after the first: it is no fence of a marker's node that was submitted
before the marker was asked for. -/
def MayFollow (calls : List SubmitEntry) (m x : SubmitEntry) : Prop :=
  m.isPreempt = true → x.isPreempt = false → x.nodeOrdinal = m.nodeOrdinal → ¬Before calls x m

def comingOf (s : State) : List SubmitEntry := s.sched.threads.flatMap coming

/-- A full queue of fences gives up a marker. No other thread completes an older fence of a
marker's node when the marker goes in, and a completed fence does not go in between a marker's
read and the marker. -/
def guardPush (s : State) (f : FenceEntry) : Prop :=
  (s.sched.fenceQueue.isFull → ∀ g ∈ s.sched.fenceQueue.pending.head?, g.isPreempt = true) ∧
    if f.isPreempt then
      ∀ x ∈ s.sched.threads.flatMap completing, MayFollow s.calls (entryOf f) x
    else ∀ p ∈ s.sched.threads.flatMap marked, p.nodeOrdinal ≠ f.nodeOrdinal

/-- A marker gets into the queue of submits after the older fences of its node, or none of them
is left to overtake. When it reads the last fence, the last exchange was of its node's last fence
in the queue of fences. -/
def guardPc (s : State) : Pc → Prop
  | .enqueue e => e.isPreempt = true → Up s.sched ∨
    ∀ x ∈ s.sched.submitQueue.pending ++ comingOf s, MayFollow s.calls e x
  | .insert e => e.isPreempt = true →
    (∀ x ∈ comingOf s, MayFollow s.calls e x) ∧ (s.sched.submitQueue.isFull →
      ∀ x ∈ s.sched.submitQueue.pending, MayFollow s.calls e x)
  | .readLast e _ => ∀ c ∈ s.exchanged.getLast?,
    lastCompleted e.nodeOrdinal s.pushed = some (completed c)
  | .push f _ => guardPush s f
  | .dpcDequeue => ∀ f ∈ s.sched.fenceQueue.pending.head?,
    ∀ u ∈ s.sched.threads.flatMap unannounced, u.nodeOrdinal ≠ f.nodeOrdinal
  | _ => True

/-- The fences of a node increase and its preemption fences are distinct. -/
def guard (s : State) : Label → Prop
  | .submit f n _ => ∀ c ∈ s.calls, c.isPreempt = false → c.nodeOrdinal = n → c.fenceId < f
  | .preempt f n _ => ∀ c ∈ s.calls, c.isPreempt = true → c.nodeOrdinal = n → c.fenceId ≠ f
  | .run i => ∀ p ∈ s.sched.threads[i]?, guardPc s p
  | _ => True

instance (calls : List SubmitEntry) (a b : SubmitEntry) : Decidable (Before calls a b) :=
  inferInstanceAs (Decidable ([a, b].Sublist calls))

instance (calls : List SubmitEntry) (m x : SubmitEntry) : Decidable (MayFollow calls m x) :=
  inferInstanceAs (Decidable (_ = _ → _ = _ → _ = _ → ¬_))

instance (s : State) (f : FenceEntry) : Decidable (guardPush s f) :=
  inferInstanceAs (Decidable ((s.sched.fenceQueue.isFull →
    ∀ g ∈ s.sched.fenceQueue.pending.head?, g.isPreempt = true) ∧
    if f.isPreempt then
      ∀ x ∈ s.sched.threads.flatMap completing, MayFollow s.calls (entryOf f) x
    else ∀ p ∈ s.sched.threads.flatMap marked, p.nodeOrdinal ≠ f.nodeOrdinal))

instance (s : State) : (p : Pc) → Decidable (guardPc s p)
  | .enqueue _ => inferInstanceAs (Decidable (_ = _ → _ ∨ ∀ x ∈ (_ : List SubmitEntry), _))
  | .insert _ => inferInstanceAs (Decidable (_ = _ → (∀ x ∈ (_ : List SubmitEntry), _) ∧
      (_ → ∀ x ∈ (_ : List SubmitEntry), _)))
  | .readLast _ _ => inferInstanceAs (Decidable (∀ c ∈ (_ : Option SubmitEntry), _ = _))
  | .push f _ => inferInstanceAs (Decidable (guardPush s f))
  | .dpcDequeue => inferInstanceAs (Decidable (∀ f ∈ (_ : Option FenceEntry), ∀ u ∈ _, _))
  | .wait | .testStop | .dequeue _ | .exchange _ _ | .exited | .signal | .dpcNotify _ | .dpcStore _
  | .stopSet | .stopSignal | .join | .clearThread | .done => isTrue trivial

instance (s : State) : (l : Label) → Decidable (guard s l)
  | .submit f n _ => inferInstanceAs (Decidable (∀ c ∈ s.calls, c.isPreempt = false →
      c.nodeOrdinal = n → c.fenceId < f))
  | .preempt f n _ => inferInstanceAs (Decidable (∀ c ∈ s.calls, c.isPreempt = true →
      c.nodeOrdinal = n → c.fenceId ≠ f))
  | .run _ => inferInstanceAs (Decidable (∀ p ∈ (_ : Option Pc), _))
  | .reset | .dpc | .teardown => isTrue trivial

section Calls

variable {calls : List SubmitEntry} {a b c m x : SubmitEntry}

theorem before_snoc (h : Before (calls ++ [c]) a b) : Before calls a b ∨ b = c := by
  obtain ⟨l, r, hlr, hl, hr⟩ := List.sublist_append_iff.mp h
  rcases List.sublist_singleton.mp hr with rfl | rfl
  · rw [List.append_nil] at hlr
    exact .inl (by rw [Before, hlr]; exact hl)
  · right
    have hlast := congrArg List.getLast? hlr
    simpa using hlast

theorem Before.left (h : Before calls a b) : a ∈ calls := h.subset (by simp)

theorem MayFollow.snoc (h : MayFollow calls m x) (hm : m ∈ calls) (hc : c ∉ calls) :
    MayFollow (calls ++ [c]) m x := by
  intro hpre hx hnode hbefore
  rcases before_snoc hbefore with hbefore | rfl
  · exact h hpre hx hnode hbefore
  · exact hc hm

theorem mayFollow_submit (hm : m.isPreempt = false) : MayFollow calls m x :=
  fun hpre => absurd (hm.symm.trans hpre) Bool.false_ne_true

end Calls

/-- The requests on the way to the queue of fences, but for the fences that are being
completed. -/
structure Line where
  queue : List SubmitEntry
  coming : List SubmitEntry
  raised : List SubmitEntry
  calls : List SubmitEntry

/-- No marker has an older fence of its node behind it. -/
structure Ordered (b : Line) : Prop where
  behind : b.queue.Pairwise (MayFollow b.calls)
  waiting : ∀ m ∈ b.queue, ∀ x ∈ b.coming, MayFollow b.calls m x
  raised : ∀ m ∈ b.raised, ∀ x ∈ b.queue ++ b.coming, MayFollow b.calls m x
  known : ∀ x, x ∈ b.queue ∨ x ∈ b.coming ∨ x ∈ b.raised → x ∈ b.calls

namespace Ordered

variable {b : Line} {e c : SubmitEntry} {queue cs rs : List SubmitEntry}

theorem less (B : Ordered b) (hcs : cs ⊆ b.coming) (hrs : rs ⊆ b.raised) :
    Ordered { b with coming := cs, raised := rs } where
  behind := B.behind
  waiting m hm x hx := B.waiting m hm x (hcs hx)
  raised m hm x hx := B.raised m (hrs hm) x
    ((List.mem_append.mp hx).elim (List.mem_append_left _) fun h => List.mem_append_right _ (hcs h))
  known x hx := B.known x (hx.imp_right (Or.imp (@hcs x) (@hrs x)))

/-- The oldest request comes out of the queue. -/
theorem take (B : Ordered b) (hqueue : b.queue = e::queue) (hcs : cs ⊆ b.coming)
    (hrs : ∀ m ∈ rs, m ∈ b.raised ∨ m = e) :
    Ordered { b with queue := queue, coming := cs, raised := rs } := by
  have hbehind := List.pairwise_cons.mp (hqueue ▸ B.behind)
  have hmem : ∀ x ∈ queue, x ∈ b.queue := fun x hx => hqueue ▸ List.mem_cons_of_mem e hx
  have he : e ∈ b.queue := hqueue ▸ List.mem_cons_self
  refine ⟨hbehind.2, fun m hm x hx => B.waiting m (hmem m hm) x (hcs hx), fun m hm x hx => ?_,
    fun x hx => B.known x ?_⟩
  · rcases hrs m hm with hm | rfl <;> rcases List.mem_append.mp hx with hx | hx
    · exact B.raised m hm x (List.mem_append_left _ (hmem x hx))
    · exact B.raised m hm x (List.mem_append_right _ (hcs hx))
    · exact hbehind.1 x hx
    · exact B.waiting m he x (hcs hx)
  · rcases hx with hx | hx | hx
    · exact .inl (hmem x hx)
    · exact .inr (.inl (hcs hx))
    · rcases hrs x hx with hx | rfl
      · exact .inr (.inr hx)
      · exact .inl he

/-- A request gets into the queue. -/
theorem insert (B : Ordered b) (he : e ∈ b.coming) (hcs : cs ⊆ b.coming) (hrs : rs ⊆ b.raised)
    (hg : ∀ x ∈ b.coming, MayFollow b.calls e x) :
    Ordered { b with queue := b.queue ++ [e], coming := cs, raised := rs } := by
  refine ⟨List.pairwise_append.mpr ⟨B.behind, List.pairwise_singleton _ _, ?_⟩,
    fun m hm x hx => ?_, fun m hm x hx => ?_, fun x hx => B.known x ?_⟩
  · intro m hm x hx
    obtain rfl := List.mem_singleton.mp hx
    exact B.waiting m hm x he
  · rcases List.mem_append.mp hm with hm | hm
    · exact B.waiting m hm x (hcs hx)
    · obtain rfl := List.mem_singleton.mp hm
      exact hg x (hcs hx)
  · refine B.raised m (hrs hm) x ?_
    rcases List.mem_append.mp hx with hx | hx
    · rcases List.mem_append.mp hx with hx | hx
      · exact List.mem_append_left _ hx
      · obtain rfl := List.mem_singleton.mp hx
        exact List.mem_append_right _ he
    · exact List.mem_append_right _ (hcs hx)
  · rcases hx with hx | hx | hx
    · rcases List.mem_append.mp hx with hx | hx
      · exact .inl hx
      · obtain rfl := List.mem_singleton.mp hx
        exact .inr (.inl he)
    · exact .inr (.inl (hcs hx))
    · exact .inr (.inr (hrs hx))

/-- A request does not get into the queue. -/
theorem inline (B : Ordered b) (he : e ∈ b.coming) (hcs : cs ⊆ b.coming)
    (hrs : ∀ m ∈ rs, m ∈ b.raised ∨ m = e)
    (hg : ∀ x ∈ b.queue ++ b.coming, MayFollow b.calls e x) :
    Ordered { b with coming := cs, raised := rs } := by
  refine ⟨B.behind, fun m hm x hx => B.waiting m hm x (hcs hx), fun m hm x hx => ?_,
    fun x hx => B.known x ?_⟩
  · have hx : x ∈ b.queue ++ b.coming :=
      (List.mem_append.mp hx).elim (List.mem_append_left _) fun h => List.mem_append_right _ (hcs h)
    rcases hrs m hm with hm | rfl
    · exact B.raised m hm x hx
    · exact hg x hx
  · rcases hx with hx | hx | hx
    · exact .inl hx
    · exact .inr (.inl (hcs hx))
    · rcases hrs x hx with hx | rfl
      · exact .inr (.inr hx)
      · exact .inr (.inl he)

theorem call (B : Ordered b) (hc : c ∉ b.calls) (hcs : ∀ x ∈ cs, x ∈ b.coming ∨ x = c) :
    Ordered { b with coming := cs, calls := b.calls ++ [c] } := by
  have hnew : ∀ m ∈ b.calls, MayFollow (b.calls ++ [c]) m c := by
    intro m hm _ _ _ hbefore
    rcases before_snoc hbefore with hbefore | rfl
    · exact hc hbefore.left
    · exact hc hm
  have hkeep : ∀ m ∈ b.calls, ∀ x, MayFollow b.calls m x ∨ x = c → MayFollow (b.calls ++ [c]) m x := by
    rintro m hm x (h | rfl)
    · exact h.snoc hm hc
    · exact hnew m hm
  have hqueue : ∀ m ∈ b.queue, m ∈ b.calls := fun m hm => B.known m (.inl hm)
  have hraised : ∀ m ∈ b.raised, m ∈ b.calls := fun m hm => B.known m (.inr (.inr hm))
  refine ⟨B.behind.imp_of_mem fun hm _ h => hkeep _ (hqueue _ hm) _ (.inl h), fun m hm x hx => ?_,
    fun m hm x hx => ?_, fun x hx => ?_⟩
  · exact hkeep m (hqueue m hm) x ((hcs x hx).imp_left (B.waiting m hm x))
  · refine hkeep m (hraised m hm) x ?_
    rcases List.mem_append.mp hx with hx | hx
    · exact .inl (B.raised m hm x (List.mem_append_left _ hx))
    · exact (hcs x hx).imp_left fun hx => B.raised m hm x (List.mem_append_right _ hx)
  · rcases hx with hx | hx | hx
    · exact List.mem_append_left _ (hqueue x hx)
    · rcases hcs x hx with hx | rfl
      · exact List.mem_append_left _ (B.known x (.inr (.inl hx)))
      · exact List.mem_append_right _ (List.mem_singleton_self x)
    · exact List.mem_append_left _ (hraised x hx)

end Ordered

def line (s : Scheduler.State) (calls : List SubmitEntry) : Line where
  queue := s.submitQueue.pending
  coming := s.threads.flatMap coming
  raised := s.threads.flatMap raised
  calls := calls

section Steps

variable {s t : Scheduler.State} {calls : List SubmitEntry} {i : ℕ} {p q : Pc} {e : SubmitEntry}

theorem handle_pools (e : SubmitEntry) (k : Cont) :
    coming (handle e k) = [] ∧ ∀ m ∈ raised (handle e k), m = e := by
  obtain ⟨f, n, en, pre⟩ := e
  rcases handle_cases ⟨f, n, en, pre⟩ k with ⟨rfl, h | h⟩ | ⟨rfl, h⟩ <;> simp [h, coming, raised]

theorem idle_pools (h : p.idle = true) : coming p = [] ∧ raised p = [] := by
  cases p <;> first | exact ⟨rfl, rfl⟩ | cases h

/-- What a pool has after the turn of one thread. -/
theorem pool_less {g : Pc → List SubmitEntry} (hpc : s.threads[i]? = some p) (hg : g q ⊆ g p) :
    (s.threads.set i q).flatMap g ⊆ s.threads.flatMap g := by
  intro x hx
  rcases mem_flatMap_set hx with hx | hx
  · exact mem_of_mem_eraseIdx hx
  · exact mem_flatMap_self hpc (hg hx)

theorem pool_more {g : Pc → List SubmitEntry} (hg : ∀ x ∈ g q, x = e) :
    ∀ x ∈ (s.threads.set i q).flatMap g, x ∈ s.threads.flatMap g ∨ x = e := by
  intro x hx
  exact (mem_flatMap_set hx).imp mem_of_mem_eraseIdx (hg x)

theorem goto_ordered (B : Ordered (line s calls)) (hpc : s.threads[i]? = some p)
    (hthreads : t.threads = s.threads.set i q) (hqueue : t.submitQueue = s.submitQueue)
    (hcoming : coming q ⊆ coming p) (hraised : raised q ⊆ raised p) :
    Ordered (line t calls) := by
  have hline : line t calls = { line s calls with
      coming := (s.threads.set i q).flatMap coming
      raised := (s.threads.set i q).flatMap raised } := by
    simp only [line, hthreads, hqueue]
  rw [hline]
  exact B.less (pool_less hpc hcoming) (pool_less hpc hraised)

/-- The call answers the request itself, or goes on to the queue. -/
theorem inline_ordered (B : Ordered (line s calls)) (hpc : s.threads[i]? = some p)
    (he : coming p = [e])
    (hg : e.isPreempt = true → ∀ x ∈ (line s calls).queue ++ (line s calls).coming,
      MayFollow calls e x) :
    Ordered (line (s.goto i (handle e .inline)) calls) := by
  have hpools := handle_pools e .inline
  refine B.inline (e := e) (mem_flatMap_self hpc (by simp [he]))
    (pool_less hpc (by simp [hpools.1])) (pool_more hpools.2) ?_
  cases hpre : e.isPreempt with
  | true => exact hg hpre
  | false => exact fun x _ => mayFollow_submit hpre

theorem enqueue_ordered (B : Ordered (line s calls)) (hpc : s.threads[i]? = some (.enqueue e))
    (hg : e.isPreempt = true → Up s ∨
      ∀ x ∈ (line s calls).queue ++ (line s calls).coming, MayFollow calls e x)
    (h : stepPc s i (.enqueue e) = some t) : Ordered (line t calls) := by
  obtain rfl := Option.some.inj h
  split
  · next hdown =>
    refine inline_ordered B hpc rfl fun hpre => (hg hpre).resolve_left fun hup => ?_
    rw [hup.1, hup.2] at hdown
    cases hdown
  · exact goto_ordered B hpc rfl rfl (List.Subset.refl _) (List.Subset.refl _)

theorem insert_ordered (B : Ordered (line s calls)) (hpc : s.threads[i]? = some (.insert e))
    (hg : e.isPreempt = true → (∀ x ∈ (line s calls).coming, MayFollow calls e x) ∧
      (s.submitQueue.isFull → ∀ x ∈ (line s calls).queue, MayFollow calls e x))
    (h : stepPc s i (.insert e) = some t) : Ordered (line t calls) := by
  simp only [stepPc, Ring.pushIfRoom] at h
  by_cases hfull : s.submitQueue.isFull
  · rw [if_pos hfull] at h
    obtain rfl := Option.some.inj h
    refine inline_ordered B hpc rfl fun hpre x hx => ?_
    rcases List.mem_append.mp hx with hx | hx
    · exact (hg hpre).2 hfull x hx
    · exact (hg hpre).1 x hx
  · rw [if_neg hfull] at h
    obtain rfl := Option.some.inj h
    have hline : line ({ s with submitQueue := s.submitQueue.put e }.goto i .signal) calls =
        { line s calls with
          queue := s.submitQueue.pending ++ [e]
          coming := (s.threads.set i .signal).flatMap coming
          raised := (s.threads.set i .signal).flatMap raised } := by
      simp only [line, State.goto, Ring.pending_put _ _ hfull]
    rw [hline]
    refine B.insert (mem_flatMap_self hpc (by simp [coming])) (pool_less hpc (by simp [coming]))
      (pool_less hpc (by simp [raised])) ?_
    cases hpre : e.isPreempt with
    | true => exact (hg hpre).1
    | false => exact fun x _ => mayFollow_submit hpre

theorem take_ordered {r : Ring SubmitEntry submitQueueDepth} {k : Cont}
    (B : Ordered (line s calls)) (hpc : s.threads[i]? = some (.dequeue k))
    (hpop : s.submitQueue.pop = some (e, r)) :
    Ordered (line ({ s with submitQueue := r }.goto i (handle e k)) calls) := by
  have hpools := handle_pools e k
  exact B.take (Ring.pop_some hpop) (pool_less hpc (by simp [hpools.1])) (pool_more hpools.2)

end Steps

theorem run_ordered {s : State} {t : Scheduler.State} {i : ℕ} {p : Pc}
    (B : Ordered (line s.sched s.calls)) (hpc : s.sched.threads[i]? = some p) (hg : guardPc s p)
    (h : stepPc s.sched i p = some t) : Ordered (line t s.calls) := by
  cases turn_cases h with
  | idle hp hq hthreads same =>
    obtain ⟨hcoming, hraised⟩ := idle_pools hq
    exact goto_ordered B hpc hthreads same.submitQueue (by simp [hcoming]) (by simp [hraised])
  | stop => exact goto_ordered B hpc rfl rfl (by simp [coming]) (by simp [raised])
  | take k hpop => exact take_ordered B hpc hpop
  | readLast e k => exact goto_ordered B hpc rfl rfl (by simp [coming]) (List.Subset.refl _)
  | exchange e k => exact goto_ordered B hpc rfl rfl (by simp [coming]) (by simp [raised, completed])
  | push f k =>
    exact goto_ordered B hpc rfl rfl (by cases k <;> simp [Cont.next, coming])
      (by cases k <;> simp [Cont.next, raised])
  | inline e | queue e => exact enqueue_ordered B hpc hg h
  | full e | insert e => exact insert_ordered B hpc hg h
  | dpcTake => exact goto_ordered B hpc rfl rfl (by simp [coming]) (by simp [raised])
  | dpcNotify f =>
    exact goto_ordered B hpc rfl rfl (by split <;> simp [coming]) (by split <;> simp [raised])
  | dpcStore f => exact goto_ordered B hpc rfl rfl (by simp [coming]) (by simp [raised])

theorem spawn_ordered {s : Scheduler.State} {calls : List SubmitEntry} {p : Pc}
    (B : Ordered (line s calls)) (hp : coming p = [] ∧ raised p = []) :
    Ordered (line (s.spawn p) calls) := by
  have hline : line (s.spawn p) calls = line s calls := by
    simp [line, State.spawn, hp.1, hp.2]
  rw [hline]
  exact B

/-- A call comes in. -/
theorem call_ordered {s u : Scheduler.State} {calls : List SubmitEntry} {c : SubmitEntry}
    (B : Ordered (line s calls)) (hc : c ∉ calls) (hu : line u calls = line s calls) :
    Ordered (line (u.spawn (.enqueue c)) (calls ++ [c])) := by
  have hline : line (u.spawn (.enqueue c)) (calls ++ [c]) = { line s calls with
      coming := (line s calls).coming ++ [c]
      calls := calls ++ [c] } := by
    rw [← hu]
    simp [line, State.spawn, coming, raised]
  rw [hline]
  exact B.call hc fun x hx => (List.mem_append.mp hx).imp_right List.mem_singleton.mp

theorem new_call {s : State} {l : Label} (hg : guard s l) : ∀ c ∈ called l, c ∉ s.calls := by
  cases l with
  | submit f n e =>
    intro c hc hmem
    obtain rfl := List.mem_singleton.mp hc
    exact Nat.lt_irrefl f (hg _ hmem rfl rfl)
  | preempt f n e =>
    intro c hc hmem
    obtain rfl := List.mem_singleton.mp hc
    exact hg _ hmem rfl rfl rfl
  | _ => exact fun c hc => nomatch hc

theorem step_ordered {s t : State} {l : Label} (B : Ordered (line s.sched s.calls))
    (hg : guard s l) (h : step s l = some t) : Ordered (line t.sched t.calls) := by
  obtain ⟨u, hu, rfl⟩ := Option.map_eq_some_iff.mp h
  cases l with
  | submit | preempt =>
    obtain rfl := Option.some.inj hu
    exact call_ordered B (new_call hg _ (List.mem_singleton_self _)) rfl
  | reset | dpc =>
    obtain rfl := Option.some.inj hu
    simpa [called] using spawn_ordered B ⟨rfl, rfl⟩
  | teardown =>
    obtain rfl := Option.some.inj hu
    simp only [called, List.append_nil]
    refine spawn_ordered B ?_
    split <;> exact ⟨rfl, rfl⟩
  | run i =>
    obtain ⟨p, hpc, hrun⟩ := Option.bind_eq_some_iff.mp hu
    simpa [called] using run_ordered B hpc (hg p hpc) hrun

def schedInit (o : InitOutcome) : State := ⟨Scheduler.schedInit o, [], [], []⟩

/-- The driver's last fence is the one that was exchanged last, and completed fences are exchanged
before they are put into the queue of fences. -/
structure Recorded (s : State) : Prop where
  last : s.sched.schedLastCompletedFence = s.exchanged.getLast?.elim 0 SubmitEntry.fenceId
  first : s.exchanged = [] → ∀ f ∈ s.pushed ++ s.sched.threads.flatMap pushing, f.isPreempt = true

section Histories

variable {s : State} {t : Scheduler.State} {i : ℕ} {p q : Pc}

theorem Recorded.keep (R : Recorded s) (hpc : s.sched.threads[i]? = some p)
    (hthreads : t.threads = s.sched.threads.set i q)
    (hlast : t.schedLastCompletedFence = s.sched.schedLastCompletedFence)
    (hp : exchanging p = []) (hq : ∀ f ∈ pushing q, f ∈ pushing p ∨ f.isPreempt = true) :
    Recorded ⟨t, s.calls, s.exchanged ++ exchanging p, s.pushed ++ pushing p⟩ := by
  refine ⟨?_, fun hnil f hf => ?_⟩
  · rw [hlast, hp, List.append_nil]
    exact R.last
  · have hall := R.first (by simpa [hp] using hnil)
    have hmine : ∀ g ∈ pushing p, g.isPreempt = true := fun g hg =>
      hall g (List.mem_append_right _ (mem_flatMap_self hpc hg))
    rw [hthreads] at hf
    rcases List.mem_append.mp hf with hf | hf
    · rcases List.mem_append.mp hf with hf | hf
      · exact hall f (List.mem_append_left _ hf)
      · exact hmine f hf
    · rcases mem_flatMap_set hf with hf | hf
      · exact hall f (List.mem_append_right _ (mem_of_mem_eraseIdx hf))
      · exact (hq f hf).elim (hmine f) id

theorem handle_pushing (e : SubmitEntry) (k : Cont) : pushing (handle e k) = [] := by
  rcases handle_cases e k with ⟨-, h | h⟩ | ⟨-, h⟩ <;> rw [h] <;> rfl

theorem idle_books (h : p.idle = true) : exchanging p = [] ∧ pushing p = [] := by
  cases p <;> first | exact ⟨rfl, rfl⟩ | cases h

theorem run_recorded (R : Recorded s) (hpc : s.sched.threads[i]? = some p)
    (h : stepPc s.sched i p = some t) :
    Recorded ⟨t, s.calls, s.exchanged ++ exchanging p, s.pushed ++ pushing p⟩ := by
  cases turn_cases h with
  | idle hp hq hthreads same =>
    exact R.keep hpc hthreads same.schedLastCompletedFence (idle_books hp).1
      (by simp [(idle_books hq).2])
  | exchange e k =>
    exact ⟨by simp [exchanging, State.goto], fun hnil => absurd hnil (by simp [exchanging])⟩
  | push f k => exact R.keep hpc rfl rfl rfl (by cases k <;> simp [Cont.next, pushing])
  | readLast e k => exact R.keep hpc rfl rfl rfl (by simp [pushing, preempted])
  | take k | inline | full => exact R.keep hpc rfl rfl rfl (by simp [handle_pushing])
  | dpcNotify f => exact R.keep hpc rfl rfl rfl (by split <;> simp [pushing])
  | stop | queue | insert | dpcTake | dpcStore => exact R.keep hpc rfl rfl rfl (by simp [pushing])

theorem spawn_recorded (R : Recorded s) {u : Scheduler.State} {calls : List SubmitEntry}
    (hthreads : u.threads = s.sched.threads ++ [p]) (hp : pushing p = [])
    (hlast : u.schedLastCompletedFence = s.sched.schedLastCompletedFence) :
    Recorded ⟨u, calls, s.exchanged, s.pushed⟩ := by
  refine ⟨hlast.trans R.last, fun hnil f hf => R.first hnil f ?_⟩
  rw [hthreads] at hf
  simpa [hp] using hf

theorem step_recorded {t : State} {l : Label} (R : Recorded s) (h : step s l = some t) :
    Recorded t := by
  obtain ⟨u, hu, rfl⟩ := Option.map_eq_some_iff.mp h
  cases l with
  | submit | preempt =>
    obtain rfl := Option.some.inj hu
    simp only [turn, List.flatMap_nil, List.append_nil]
    exact spawn_recorded R rfl (p := .enqueue _) rfl rfl
  | reset =>
    obtain rfl := Option.some.inj hu
    simp only [turn, List.flatMap_nil, List.append_nil]
    exact spawn_recorded R rfl (p := .dequeue .reset) rfl rfl
  | dpc =>
    obtain rfl := Option.some.inj hu
    simp only [turn, List.flatMap_nil, List.append_nil]
    exact spawn_recorded R rfl (p := .dpcDequeue) rfl rfl
  | teardown =>
    obtain rfl := Option.some.inj hu
    simp only [turn, List.flatMap_nil, List.append_nil]
    refine spawn_recorded R rfl ?_ rfl
    split <;> rfl
  | run i =>
    obtain ⟨p, hpc, hrun⟩ := Option.bind_eq_some_iff.mp hu
    simpa [turn, called, hpc] using run_recorded R hpc hrun

end Histories

theorem schedInit_recorded (o : InitOutcome) : Recorded (schedInit o) := by
  cases o <;> exact ⟨rfl, fun _ => by decide⟩

theorem schedInit_ordered (o : InitOutcome) :
    Ordered (line (schedInit o).sched (schedInit o).calls) := by
  have hline : line (schedInit o).sched (schedInit o).calls = ⟨[], [], [], []⟩ := by
    cases o <;> rfl
  rw [hline]
  constructor <;> simp

end WinMali.MarkerOrder
