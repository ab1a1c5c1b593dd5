import WinMaliKmd.MarkerOrder

/-!
# What a preemption reports

A preempt request is answered per node: the last completed fence of the node, and
nothing older after it. The driver keeps one last fence and one queue for all
nodes, and completes fences on several paths.
-/

set_option autoImplicit false

namespace WinMali.PreemptBoundary
open WinMali.FifoRing WinMali.Runs WinMali.ThreadPools WinMali.MarkerOrder
open WinMali.Scheduler hiding State step schedInit

/-- The completed fence that is last after a list of notifications. -/
def lastOf : ℕ → List FenceEntry → ℕ
  | last, [] => last
  | last, f::fs => lastOf (if f.isPreempt then last else f.submissionFenceId) fs

/-- Each preemption reports the completed fence that is last before it. -/
def Reports : ℕ → List FenceEntry → Prop
  | _, [] => True
  | last, f::fs => (f.isPreempt = true → f.lastCompletedFenceId = last) ∧
    Reports (if f.isPreempt then last else f.submissionFenceId) fs

/-- No completed fence comes after a preemption that was asked for later. -/
def Closed (calls : List SubmitEntry) (l : List FenceEntry) : Prop :=
  l.Pairwise fun p f => p.isPreempt = true → f.isPreempt = false →
    ¬Before calls (entryOf f) (entryOf p)

def Preempts (s : State) : Prop :=
  ∀ n, Reports 0 (ofNode n s.sched.notified) ∧ Closed s.calls (ofNode n s.sched.notified)

section Pools

variable (pc : Pc)

/-- Requests that a thread has in hand before they reach the queue of fences. -/
def held : List SubmitEntry :=
  match pc with
  | .enqueue e => [e]
  | .insert e => [e]
  | .exchange e _ => [{ e with isPreempt := false }]
  | .readLast e _ => [{ e with isPreempt := true }]
  | .push f _ => [entryOf f]
  | _ => []

end Pools

structure Books where
  notified : List FenceEntry
  unannounced : List FenceEntry
  pending : List FenceEntry
  marked : List FenceEntry
  onTheWay : List SubmitEntry
  calls : List SubmitEntry
  pushed : List FenceEntry

/-- The notifications for a node, made and to be made. -/
def Books.stream (b : Books) (n : ℕ) : List FenceEntry :=
  ofNode n b.notified ++ ofNode n b.unannounced ++ ofNode n b.pending

def view (s : Scheduler.State) (calls : List SubmitEntry) (pushed : List FenceEntry) : Books where
  notified := s.notified
  unannounced := s.threads.flatMap unannounced
  pending := s.fenceQueue.pending
  marked := s.threads.flatMap marked
  onTheWay := s.submitQueue.pending ++ s.threads.flatMap held
  calls := calls
  pushed := pushed

/-- A full queue drops a marker. A marker goes in after the older fences of its node, and a
completed fence not between a marker's boundary and the marker. -/
def FitsPush (b : Books) (full : Bool) (f : FenceEntry) : Prop :=
  (full = true → ∀ g ∈ b.pending.head?, g.isPreempt = true) ∧
    if f.isPreempt then
      ∀ x ∈ b.onTheWay, x.isPreempt = false → x.nodeOrdinal = f.nodeOrdinal →
        ¬Before b.calls x (entryOf f)
    else ∀ p ∈ b.marked, p.nodeOrdinal ≠ f.nodeOrdinal

/-- What a turn needs so that the notifications stay right. -/
def Fits (s : Scheduler.State) (b : Books) : Pc → Prop
  | .readLast e _ => s.schedLastCompletedFence = lastOf 0 (b.stream e.nodeOrdinal)
  | .push f _ => FitsPush b s.fenceQueue.isFull f
  | .dpcDequeue => ∀ f ∈ b.pending.head?, ∀ u ∈ b.unannounced, u.nodeOrdinal ≠ f.nodeOrdinal
  | _ => True

section Lists

variable {last : ℕ} {f : FenceEntry}

theorem lastOf_append (last : ℕ) (l r : List FenceEntry) :
    lastOf last (l ++ r) = lastOf (lastOf last l) r := by
  induction l generalizing last with
  | nil => rfl
  | cons f l ih => exact ih _

theorem reports_append (last : ℕ) (l r : List FenceEntry) :
    Reports last (l ++ r) ↔ Reports last l ∧ Reports (lastOf last l) r := by
  induction l generalizing last with
  | nil => simp [Reports, lastOf]
  | cons f l ih => simp [Reports, lastOf, ih, and_assoc]

theorem lastOf_drop (last : ℕ) (l r : List FenceEntry) (hf : f.isPreempt = true) :
    lastOf last (l ++ f::r) = lastOf last (l ++ r) := by
  simp [lastOf_append, lastOf, hf]

theorem reports_drop {l r : List FenceEntry} (hf : f.isPreempt = true)
    (h : Reports last (l ++ f::r)) : Reports last (l ++ r) := by
  rw [reports_append] at h ⊢
  simp only [Reports, hf, if_true] at h
  exact ⟨h.1, h.2.2⟩

@[simp] theorem ofNode_nil (n : ℕ) : ofNode n [] = [] := rfl

theorem ofNode_append (n : ℕ) (l r : List FenceEntry) :
    ofNode n (l ++ r) = ofNode n l ++ ofNode n r := List.filter_append ..

theorem ofNode_cons_self (f : FenceEntry) (l : List FenceEntry) :
    ofNode f.nodeOrdinal (f::l) = f::ofNode f.nodeOrdinal l := by simp [ofNode]

theorem ofNode_cons_ne {n : ℕ} (h : f.nodeOrdinal ≠ n) (l : List FenceEntry) :
    ofNode n (f::l) = ofNode n l := by simp [ofNode, h]

theorem eq_of_perm_of_short {l l' : List FenceEntry} (h : l.Perm l') (hl : l.length ≤ 1) :
    l = l' := by
  match l, hl with
  | [], _ => exact (List.nil_perm.mp h).symm
  | [f], _ => exact List.singleton_perm.mp h

end Lists

structure Inv (b : Books) : Prop where
  reports : ∀ n, Reports 0 (b.stream n)
  marked : ∀ f ∈ b.marked, f.lastCompletedFenceId = lastOf 0 (b.stream f.nodeOrdinal)
  alone : ∀ n, (ofNode n b.unannounced).length ≤ 1
  closed : ∀ n, Closed b.calls (b.stream n)
  passed : ∀ n, ∀ p ∈ b.stream n, p.isPreempt = true → ∀ x ∈ b.onTheWay, x.isPreempt = false →
    x.nodeOrdinal = n → ¬Before b.calls x (entryOf p)
  known : ∀ x ∈ b.onTheWay, x ∈ b.calls
  last : ∀ n, lastOf 0 (b.stream n) = lastOf 0 (ofNode n b.pushed)
  recorded : ∀ n, ∀ f ∈ b.stream n, entryOf f ∈ b.calls

namespace Inv

variable {b b' : Books} {f : FenceEntry} {c : SubmitEntry}

/-- The notifications of each node stay the same, wherever they are. -/
theorem restream (B : Inv b) (hstream : ∀ n, b'.stream n = b.stream n)
    (halone : ∀ n, (ofNode n b'.unannounced).length ≤ 1) (hmarked : ∀ g ∈ b'.marked, g ∈ b.marked)
    (hway : ∀ x ∈ b'.onTheWay, x ∈ b.onTheWay) (hcalls : b'.calls = b.calls)
    (hpushed : b'.pushed = b.pushed) : Inv b' where
  reports n := by
    rw [hstream]
    exact B.reports n
  marked g hg := by
    rw [hstream]
    exact B.marked g (hmarked g hg)
  alone := halone
  closed n := by
    rw [hstream, hcalls]
    exact B.closed n
  passed n p hp hpre x hx := by
    rw [hcalls]
    exact B.passed n p (hstream n ▸ hp) hpre x (hway x hx)
  known x hx := by
    rw [hcalls]
    exact B.known x (hway x hx)
  last n := by
    rw [hstream, hpushed]
    exact B.last n
  recorded n g hg := by
    rw [hcalls]
    exact B.recorded n g (hstream n ▸ hg)

theorem pop (B : Inv b) {l un : List FenceEntry} (hpending : b.pending = f::l)
    (hun : un.Perm (f::b.unannounced))
    (halone : ∀ u ∈ b.unannounced, u.nodeOrdinal ≠ f.nodeOrdinal) :
    Inv { b with pending := l, unannounced := un } := by
  have hnone : ofNode f.nodeOrdinal b.unannounced = [] := by
    simpa [ofNode, List.filter_eq_nil_iff] using halone
  have hnode : ∀ n, (ofNode n un).Perm (ofNode n (f::b.unannounced)) := fun n => hun.filter _
  have hshort : ∀ n, (ofNode n un).length ≤ 1 := by
    intro n
    rw [(hnode n).length_eq]
    by_cases hn : f.nodeOrdinal = n
    · subst hn
      simp [ofNode_cons_self, hnone]
    · rw [ofNode_cons_ne hn]
      exact B.alone n
  refine B.restream (fun n => ?_) hshort (fun _ hg => hg) (fun _ hx => hx) rfl rfl
  simp only [Books.stream, hpending, eq_of_perm_of_short (hnode n) (hshort n)]
  by_cases hn : f.nodeOrdinal = n
  · subst hn
    simp [ofNode_cons_self, hnone]
  · simp [ofNode_cons_ne hn]

theorem announce (B : Inv b) {un : List FenceEntry} (hun : b.unannounced.Perm (f::un)) :
    Inv { b with notified := b.notified ++ [f], unannounced := un } := by
  have hnode : ∀ n, (ofNode n b.unannounced).Perm (ofNode n (f::un)) := fun n => hun.filter _
  have heq : ∀ n, ofNode n b.unannounced = ofNode n (f::un) :=
    fun n => eq_of_perm_of_short (hnode n) (B.alone n)
  have hshort : ∀ n, (ofNode n un).length ≤ 1 := by
    intro n
    refine le_trans ?_ (heq n ▸ B.alone n)
    exact ((List.sublist_cons_self f un).filter _).length_le
  refine B.restream (fun n => ?_) hshort (fun _ hg => hg) (fun _ hx => hx) rfl rfl
  simp only [Books.stream, heq, ofNode_append]
  by_cases hn : f.nodeOrdinal = n
  · subst hn
    have hnil : ofNode f.nodeOrdinal un = [] := by
      have hlen := heq f.nodeOrdinal ▸ B.alone f.nodeOrdinal
      rw [ofNode_cons_self] at hlen
      exact List.eq_nil_of_length_eq_zero (by simpa using hlen)
    simp [ofNode_cons_self, hnil]
  · simp [ofNode_cons_ne hn]

/-- The queue is full and its oldest entry, a marker, is lost. -/
theorem drop (B : Inv b) {l : List FenceEntry} (hpending : b.pending = f::l)
    (hpre : f.isPreempt = true) : Inv { b with pending := l } := by
  have hother : ∀ n, f.nodeOrdinal ≠ n → Books.stream { b with pending := l } n = b.stream n := by
    intro n hn
    simp [Books.stream, hpending, ofNode_cons_ne hn]
  have hself : b.stream f.nodeOrdinal = ofNode f.nodeOrdinal b.notified ++
      ofNode f.nodeOrdinal b.unannounced ++ f::ofNode f.nodeOrdinal l := by
    rw [Books.stream, hpending, ofNode_cons_self]
  have hsub : ∀ n, (Books.stream { b with pending := l } n).Sublist (b.stream n) := by
    intro n
    simp only [Books.stream, hpending]
    exact ((List.sublist_cons_self f l).filter _).append_left _
  refine ⟨fun n => ?_, fun g hg => ?_, B.alone, fun n => (B.closed n).sublist (hsub n),
    fun n p hp => B.passed n p ((hsub n).subset hp), B.known, fun n => ?_,
    fun n g hg => B.recorded n g ((hsub n).subset hg)⟩
  · by_cases hn : f.nodeOrdinal = n
    · subst hn
      exact reports_drop hpre (hself ▸ B.reports f.nodeOrdinal)
    · rw [hother n hn]
      exact B.reports n
  · by_cases hn : f.nodeOrdinal = g.nodeOrdinal
    · rw [B.marked g hg, ← hn, hself]
      exact lastOf_drop _ _ _ hpre
    · rw [hother _ hn]
      exact B.marked g hg
  · by_cases hn : f.nodeOrdinal = n
    · subst hn
      rw [← B.last, hself]
      exact (lastOf_drop _ _ _ hpre).symm
    · rw [hother n hn]
      exact B.last n

theorem push (B : Inv b) (hf : entryOf f ∈ b.onTheWay) (hg : FitsPush b false f)
    (hmark : f.isPreempt = true → f ∈ b.marked) :
    Inv { b with pending := b.pending ++ [f], pushed := b.pushed ++ [f] } := by
  have hother : ∀ n, f.nodeOrdinal ≠ n → Books.stream
      { b with pending := b.pending ++ [f], pushed := b.pushed ++ [f] } n = b.stream n := by
    intro n hn
    simp [Books.stream, ofNode_append, ofNode_cons_ne hn]
  have hself : Books.stream { b with pending := b.pending ++ [f], pushed := b.pushed ++ [f] }
      f.nodeOrdinal = b.stream f.nodeOrdinal ++ [f] := by
    simp [Books.stream, ofNode_append, ofNode_cons_self]
  have hmem : ∀ n, ∀ g ∈ Books.stream
      { b with pending := b.pending ++ [f], pushed := b.pushed ++ [f] } n,
      g ∈ b.stream n ∨ g = f ∧ n = f.nodeOrdinal := by
    intro n g hgn
    by_cases hn : f.nodeOrdinal = n
    · subst hn
      rw [hself] at hgn
      exact (List.mem_append.mp hgn).imp_right fun h => ⟨List.mem_singleton.mp h, rfl⟩
    · exact .inl (hother n hn ▸ hgn)
  refine ⟨fun n => ?_, fun g hgm => ?_, B.alone, fun n => ?_, fun n p hp hpre x hx => ?_, B.known,
    fun n => ?_, fun n g hgn => ?_⟩
  · by_cases hn : f.nodeOrdinal = n
    · subst hn
      rw [hself, reports_append]
      exact ⟨B.reports _, fun hpre => B.marked f (hmark hpre), trivial⟩
    · rw [hother n hn]
      exact B.reports n
  · by_cases hn : f.nodeOrdinal = g.nodeOrdinal
    · -- the guard: no marker waits behind a completed fence of its node
      have hpre : f.isPreempt = true := by
        by_contra hpre
        exact (if_neg hpre ▸ hg.2) g hgm hn.symm
      rw [← hn, hself, lastOf_append, B.marked g hgm, ← hn]
      simp [lastOf, hpre]
    · rw [hother _ hn]
      exact B.marked g hgm
  · by_cases hn : f.nodeOrdinal = n
    · subst hn
      rw [hself]
      refine List.pairwise_append.mpr ⟨B.closed _, List.pairwise_singleton _ _, ?_⟩
      intro p hp g hgf hpre hgpre
      obtain rfl := List.mem_singleton.mp hgf
      exact B.passed _ p hp hpre (entryOf g) hf hgpre rfl
    · rw [hother n hn]
      exact B.closed n
  · rcases hmem n p hp with hp | ⟨rfl, rfl⟩
    · exact B.passed n p hp hpre x hx
    · exact (if_pos hpre ▸ hg.2) x hx
  · by_cases hn : f.nodeOrdinal = n
    · subst hn
      rw [hself, ofNode_append, ofNode_cons_self, ofNode_nil, lastOf_append, lastOf_append, B.last]
    · rw [hother n hn, ofNode_append, ofNode_cons_ne hn, ofNode_nil, List.append_nil]
      exact B.last n
  · rcases hmem n g hgn with hgn | ⟨rfl, -⟩
    · exact B.recorded n g hgn
    · exact B.known _ hf

/-- A marker gets its boundary. -/
theorem read (B : Inv b) {mk : List FenceEntry} (hmk : ∀ g ∈ mk, g ∈ b.marked ∨ g = f)
    (hf : f.lastCompletedFenceId = lastOf 0 (b.stream f.nodeOrdinal)) :
    Inv { b with marked := mk } where
  reports := B.reports
  marked g hg := by
    rcases hmk g hg with hg | rfl
    · exact B.marked g hg
    · exact hf
  alone := B.alone
  closed := B.closed
  passed := B.passed
  known := B.known
  last := B.last
  recorded := B.recorded

theorem call (B : Inv b) (hc : c ∉ b.calls) {way : List SubmitEntry}
    (hway : ∀ x ∈ way, x ∈ b.onTheWay ∨ x = c) :
    Inv { b with onTheWay := way, calls := b.calls ++ [c] } := by
  have hold : ∀ n, ∀ p ∈ b.stream n, ∀ x, Before (b.calls ++ [c]) x (entryOf p) →
      Before b.calls x (entryOf p) := by
    intro n p hp x hx
    refine (before_snoc hx).resolve_right ?_
    rintro rfl
    exact hc (B.recorded n p hp)
  refine ⟨B.reports, B.marked, B.alone, fun n => ?_, fun n p hp hpre x hx hxpre hxn hbefore => ?_,
    fun x hx => ?_, B.last, fun n f hf => List.mem_append_left _ (B.recorded n f hf)⟩
  · refine (B.closed n).imp_of_mem ?_
    intro p f hp _ hpf hpre hfpre hbefore
    exact hpf hpre hfpre (hold n p hp _ hbefore)
  · have hearlier := hold n p hp x hbefore
    rcases hway x hx with hx | rfl
    · exact B.passed n p hp hpre x hx hxpre hxn hearlier
    · exact hc hearlier.left
  · rcases hway x hx with hx | rfl
    · exact List.mem_append_left _ (B.known x hx)
    · simp

/-- Before each marker of a node is its last completed fence, and after it none that was
submitted earlier. -/
theorem notified (B : Inv b) (n : ℕ) :
    Reports 0 (ofNode n b.notified) ∧ Closed b.calls (ofNode n b.notified) := by
  have hreports := B.reports n
  have hclosed := B.closed n
  rw [Books.stream, List.append_assoc] at hreports hclosed
  exact ⟨((reports_append _ _ _).mp hreports).1, (List.pairwise_append.mp hclosed).1⟩

end Inv

section Steps

variable {s t : Scheduler.State} {calls : List SubmitEntry} {pushed : List FenceEntry} {i : ℕ}
  {p q : Pc}

theorem quiet (B : Inv (view s calls pushed)) (hpc : s.threads[i]? = some p)
    (hthreads : t.threads = s.threads.set i q) (hnotified : t.notified = s.notified)
    (hpending : t.fenceQueue = s.fenceQueue) (hun : unannounced q = unannounced p)
    (hmarked : marked q = marked p)
    (hway : ∀ x ∈ t.submitQueue.pending ++ held q, x ∈ s.submitQueue.pending ++ held p) :
    Inv (view t calls pushed) := by
  have hview : view t calls pushed = { view s calls pushed with
      onTheWay := t.submitQueue.pending ++ (s.threads.set i q).flatMap held } := by
    simp only [view, hthreads, hnotified, hpending, flatMap_set unannounced q hpc hun,
      flatMap_set marked q hpc hmarked]
  rw [hview]
  refine B.restream (fun _ => rfl) B.alone (fun _ hg => hg) ?_ rfl rfl
  have hp : ∀ x ∈ t.submitQueue.pending ++ held q, x ∈ (view s calls pushed).onTheWay := by
    intro x hx
    rcases List.mem_append.mp (hway x hx) with hx | hx
    · exact List.mem_append_left _ hx
    · exact List.mem_append_right _ (mem_flatMap_self hpc hx)
  intro x hx
  rcases List.mem_append.mp hx with hx | hx
  · exact hp x (List.mem_append_left _ hx)
  · rcases mem_flatMap_set hx with hx | hx
    · exact List.mem_append_right _ (mem_of_mem_eraseIdx hx)
    · exact hp x (List.mem_append_right _ hx)

/-- The same with no change but to what one thread holds. -/
theorem goto_quiet (B : Inv (view s calls pushed)) (hpc : s.threads[i]? = some p)
    (hthreads : t.threads = s.threads.set i q) (same : t.submitQueue = s.submitQueue ∧
      t.fenceQueue = s.fenceQueue ∧ t.notified = s.notified)
    (hpools : unannounced q = unannounced p ∧ marked q = marked p) (hheld : held q ⊆ held p) :
    Inv (view t calls pushed) := by
  refine quiet B hpc hthreads same.2.2 same.2.1 hpools.1 hpools.2 ?_
  rw [same.1]
  exact fun x hx => (List.mem_append.mp hx).elim (List.mem_append_left _)
    fun hx => List.mem_append_right _ (hheld hx)

theorem held_handle (e : SubmitEntry) (k : Cont) : held (handle e k) ⊆ [e] := by
  obtain ⟨f, n, en, pre⟩ := e
  rcases handle_cases ⟨f, n, en, pre⟩ k with ⟨rfl, h | h⟩ | ⟨rfl, h⟩ <;> simp [h, held]

theorem handle_told (e : SubmitEntry) (k : Cont) :
    unannounced (handle e k) = [] ∧ marked (handle e k) = [] := by
  rcases handle_cases e k with ⟨-, h | h⟩ | ⟨-, h⟩ <;> rw [h] <;> exact ⟨rfl, rfl⟩

theorem readLast_inv {e : SubmitEntry} {k : Cont} (B : Inv (view s calls pushed))
    (hpc : s.threads[i]? = some (.readLast e k))
    (hg : Fits s (view s calls pushed) (.readLast e k)) :
    Inv (view (s.goto i (.push (preempted e s.schedLastCompletedFence) k)) calls pushed) := by
  have hview : view (s.goto i (.push (preempted e s.schedLastCompletedFence) k)) calls pushed =
      { view s calls pushed with marked :=
        (s.threads.set i (.push (preempted e s.schedLastCompletedFence) k)).flatMap marked } := by
    simp only [view, Scheduler.State.goto, flatMap_set unannounced
      (.push (preempted e s.schedLastCompletedFence) k) hpc rfl,
      flatMap_set held (.push (preempted e s.schedLastCompletedFence) k) hpc rfl]
  rw [hview]
  refine B.read (f := preempted e s.schedLastCompletedFence) (fun g hgm => ?_) hg
  rcases mem_flatMap_set hgm with hgm | hgm
  · exact .inl (mem_of_mem_eraseIdx hgm)
  · exact .inr (by simpa [marked, preempted] using hgm)

theorem push_inv {f : FenceEntry} {k : Cont} (B : Inv (view s calls pushed))
    (hpc : s.threads[i]? = some (.push f k))
    (hg : Fits s (view s calls pushed) (.push f k)) :
    Inv (view ({ s with fenceQueue := s.fenceQueue.pushDropOldest f }.goto i k.next) calls
      (pushed ++ [f])) := by
  have hnext : held k.next = [] ∧ unannounced k.next = [] ∧ marked k.next = [] := by
    cases k <;> exact ⟨rfl, rfl, rfl⟩
  have hkept : Inv { view s calls pushed with pending := kept s } := by
    unfold kept
    split
    · rename_i hfull
      cases hpending : s.fenceQueue.pending with
      | nil =>
        refine B.restream (fun n => ?_) B.alone (fun _ hg => hg) (fun _ hx => hx) rfl rfl
        simp [Books.stream, view, hpending]
      | cons g l => exact B.drop hpending (hg.1 (by simpa using hfull) g (by simp [view, hpending]))
    · exact B
  have hpushed : Inv { view s calls pushed with
      pending := kept s ++ [f], pushed := pushed ++ [f] } := by
    refine hkept.push ?_ ⟨by simp, hg.2⟩ ?_
    · exact List.mem_append_right _ (mem_flatMap_self hpc (by simp [held]))
    · intro hpre
      exact mem_flatMap_self hpc (by simp [marked, hpre])
  have hview : view ({ s with fenceQueue := s.fenceQueue.pushDropOldest f }.goto i k.next) calls
      (pushed ++ [f]) = { view s calls pushed with
        pending := kept s ++ [f]
        pushed := pushed ++ [f]
        marked := (s.threads.set i k.next).flatMap marked
        onTheWay := s.submitQueue.pending ++
          (s.threads.set i k.next).flatMap held } := by
    simp only [view, Scheduler.State.goto, pending_push, flatMap_set unannounced k.next hpc hnext.2.1]
  rw [hview]
  refine hpushed.restream (fun _ => rfl) B.alone (fun g hgm => ?_) (fun x hx => ?_) rfl rfl
  · have hgm := (mem_flatMap_set hgm).resolve_right (by simp [hnext.2.2])
    exact mem_of_mem_eraseIdx hgm
  · rcases List.mem_append.mp hx with hx | hx
    · exact List.mem_append_left _ hx
    · have hx := (mem_flatMap_set hx).resolve_right (by simp [hnext.1])
      exact List.mem_append_right _ (mem_of_mem_eraseIdx hx)

theorem dpcTake_inv {f : FenceEntry} {r : Ring FenceEntry fenceQueueDepth}
    (B : Inv (view s calls pushed)) (hpc : s.threads[i]? = some .dpcDequeue)
    (hg : Fits s (view s calls pushed) .dpcDequeue)
    (hpop : s.fenceQueue.pop = some (f, r)) :
    Inv (view ({ s with fenceQueue := r }.goto i (.dpcNotify f)) calls pushed) := by
  have hpending := Ring.pop_some hpop
  have hview : view ({ s with fenceQueue := r }.goto i (.dpcNotify f)) calls pushed =
      { view s calls pushed with
        pending := r.pending
        unannounced := (s.threads.set i (.dpcNotify f)).flatMap unannounced } := by
    simp only [view, Scheduler.State.goto, flatMap_set held (.dpcNotify f) hpc rfl,
      flatMap_set marked (.dpcNotify f) hpc rfl]
  rw [hview]
  exact B.pop hpending (flatMap_set_gain hpc (List.Perm.refl _))
    (hg f (by simp [view, hpending]))

theorem dpcNotify_inv {f : FenceEntry} (B : Inv (view s calls pushed))
    (hpc : s.threads[i]? = some (.dpcNotify f)) :
    Inv (view ({ s with notified := s.notified ++ [f] }.goto i
      (if f.isPreempt then .dpcDequeue else .dpcStore f)) calls pushed) := by
  generalize hq : (if f.isPreempt = true then Pc.dpcDequeue else .dpcStore f) = q
  have hpools : held q = [] ∧ unannounced q = [] ∧ marked q = [] := by
    subst hq
    split <;> exact ⟨rfl, rfl, rfl⟩
  have hview : view ({ s with notified := s.notified ++ [f] }.goto i q) calls pushed =
      { view s calls pushed with
        notified := s.notified ++ [f]
        unannounced := (s.threads.set i q).flatMap unannounced } := by
    simp only [view, Scheduler.State.goto, flatMap_set held q hpc hpools.1,
      flatMap_set marked q hpc hpools.2.2]
  rw [hview]
  refine B.announce (flatMap_set_drop hpc ?_)
  rw [hpools.2.1]
  exact List.Perm.refl _

theorem idle_held (h : p.idle = true) :
    held p = [] ∧ unannounced p = [] ∧ marked p = [] := by
  cases p <;> first | exact ⟨rfl, rfl, rfl⟩ | cases h

theorem run_inv (B : Inv (view s calls pushed)) (hpc : s.threads[i]? = some p)
    (hg : Fits s (view s calls pushed) p) (h : stepPc s i p = some t) :
    Inv (view t calls (pushed ++ pushing p)) := by
  by_cases hpush : ∃ f k, p = .push f k
  · obtain ⟨f, k, rfl⟩ := hpush
    obtain rfl := Option.some.inj h
    exact push_inv B hpc hg
  have hnone : pushing p = [] := by
    cases p <;> first | rfl | exact absurd ⟨_, _, rfl⟩ hpush
  rw [hnone, List.append_nil]
  cases turn_cases h with
  | push f k => exact absurd ⟨f, k, rfl⟩ hpush
  | idle hp hq hthreads same =>
    obtain ⟨hheld, hun, hmarked⟩ := idle_held hp
    obtain ⟨hheld', hun', hmarked'⟩ := idle_held hq
    refine goto_quiet B hpc hthreads ⟨same.submitQueue, same.fenceQueue, same.notified⟩
      ⟨hun'.trans hun.symm, hmarked'.trans hmarked.symm⟩ ?_
    rw [hheld']
    exact List.nil_subset _
  | stop hstop => exact goto_quiet B hpc rfl ⟨rfl, rfl, rfl⟩ ⟨rfl, rfl⟩ (List.Subset.refl _)
  | @take e r k hpop =>
    have hpools := handle_told e k
    refine quiet B hpc rfl rfl rfl hpools.1 hpools.2 (fun x hx => ?_)
    have hx : x ∈ r.pending ∨ x = e :=
      (List.mem_append.mp hx).imp_right fun hx => List.mem_singleton.mp (held_handle e k hx)
    simpa [Ring.pop_some hpop, held, or_comm] using hx
  | readLast e k => exact readLast_inv B hpc hg
  | exchange e k => exact goto_quiet B hpc rfl ⟨rfl, rfl, rfl⟩ ⟨rfl, rfl⟩ (List.Subset.refl _)
  | inline e =>
    exact goto_quiet B hpc rfl ⟨rfl, rfl, rfl⟩ (handle_told e .inline) (held_handle e .inline)
  | queue e => exact goto_quiet B hpc rfl ⟨rfl, rfl, rfl⟩ ⟨rfl, rfl⟩ (List.Subset.refl _)
  | full e =>
    exact goto_quiet B hpc rfl ⟨rfl, rfl, rfl⟩ (handle_told e .inline) (held_handle e .inline)
  | insert e hput =>
    refine quiet B hpc rfl rfl rfl rfl rfl (fun x hx => ?_)
    simpa [Scheduler.State.goto, Ring.pending_pushIfRoom hput, held] using hx
  | dpcTake hpop => exact dpcTake_inv B hpc hg hpop
  | dpcNotify f => exact dpcNotify_inv B hpc
  | dpcStore f => exact goto_quiet B hpc rfl ⟨rfl, rfl, rfl⟩ ⟨rfl, rfl⟩ (List.Subset.refl _)

theorem call_inv (B : Inv (view s calls pushed)) {c : SubmitEntry} (hc : c ∉ calls)
    {u : Scheduler.State} (hu : view u calls pushed = view s calls pushed) :
    Inv (view (u.spawn (.enqueue c)) (calls ++ [c]) pushed) := by
  have hview : view (u.spawn (.enqueue c)) (calls ++ [c]) pushed = { view s calls pushed with
      onTheWay := (view s calls pushed).onTheWay ++ [c]
      calls := calls ++ [c] } := by
    rw [← hu]
    simp [view, Scheduler.State.spawn, held, marked, unannounced]
  rw [hview]
  exact B.call hc fun x hx => (List.mem_append.mp hx).imp_right List.mem_singleton.mp

theorem spawn_inv (B : Inv (view s calls pushed)) {p : Pc}
    (hp : held p = [] ∧ marked p = [] ∧ unannounced p = []) :
    Inv (view (s.spawn p) calls pushed) := by
  have hview : view (s.spawn p) calls pushed = view s calls pushed := by
    simp [view, Scheduler.State.spawn, hp.1, hp.2.1, hp.2.2]
  rw [hview]
  exact B

end Steps

/-- What holds in every state of a guarded run. -/
structure Kept (s : State) : Prop where
  inv : Inv (view s.sched s.calls s.pushed)
  ordered : Ordered (line s.sched s.calls)
  recorded : Recorded s

section Guard

variable {s t : State}

theorem lastOf_eq (last : ℕ) (l : List FenceEntry) : lastOf last l =
    ((l.filter fun f => !f.isPreempt).getLast?).elim last FenceEntry.submissionFenceId := by
  induction l generalizing last with
  | nil => rfl
  | cons f l ih =>
    rw [lastOf, ih]
    cases hpre : f.isPreempt with
    | true => simp [hpre]
    | false =>
      rw [List.filter_cons_of_pos (by simp [hpre]), List.getLast?_cons]
      cases (l.filter fun f => !f.isPreempt).getLast? <;> rfl

/-- The value that a marker reads is its node's last completed fence: the exchange stored the
fence that was exchanged last, and the notifications end with the ones that were pushed. -/
theorem boundary_fits (K : Kept s) {e : SubmitEntry} {k : Cont}
    (hg : guardPc s (.readLast e k)) :
    Fits s.sched (view s.sched s.calls s.pushed) (.readLast e k) := by
  have hstream := K.inv.last e.nodeOrdinal
  have hlast := K.recorded.last
  change s.sched.schedLastCompletedFence = lastOf 0 _
  rw [hstream, hlast, lastOf_eq]
  cases hex : s.exchanged.getLast? with
  | none =>
    have hnil := List.getLast?_eq_none_iff.mp hex
    have hmarkers := K.recorded.first hnil
    have hnone : (ofNode e.nodeOrdinal s.pushed).filter (fun f => !f.isPreempt) = [] := by
      refine List.filter_eq_nil_iff.mpr fun f hf => ?_
      simp [hmarkers f (List.mem_append_left _ (List.mem_of_mem_filter hf))]
    change 0 = Option.elim ((ofNode e.nodeOrdinal s.pushed).filter _).getLast? 0 _
    rw [hnone]
    rfl
  | some c =>
    have hc : lastCompleted e.nodeOrdinal s.pushed = some (completed c) := hg c hex
    exact (congrArg (fun o => Option.elim o 0 FenceEntry.submissionFenceId) hc).symm

theorem held_fence {p : Pc} {x : SubmitEntry} (hx : x ∈ held p) (hpre : x.isPreempt = false) :
    x ∈ coming p ∨ x ∈ completing p := by
  cases p with
  | enqueue | insert => exact .inl hx
  | exchange => exact .inr hx
  | readLast =>
    obtain rfl := List.mem_singleton.mp hx
    cases hpre
  | push f k =>
    obtain rfl := List.mem_singleton.mp hx
    refine .inr ?_
    have hf : f.isPreempt = false := hpre
    simp [completing, hf]
  | _ => cases hx

/-- Older fences of the node are not behind the marker, and by the guard they are not being
completed, so they are in the queue of fences. -/
theorem push_fits (K : Kept s) {f : FenceEntry} {k : Cont} {i : ℕ}
    (hpc : s.sched.threads[i]? = some (.push f k)) (hg : guardPc s (.push f k)) :
    Fits s.sched (view s.sched s.calls s.pushed) (.push f k) := by
  obtain ⟨hfull, hplace⟩ := hg
  refine ⟨fun h => hfull (of_decide_eq_true h), ?_⟩
  cases hpre : f.isPreempt with
  | false =>
    rw [hpre] at hplace
    exact hplace
  | true =>
    rw [hpre] at hplace
    intro x hx hxpre hnode
    have hraised : entryOf f ∈ s.sched.threads.flatMap raised :=
      mem_flatMap_self hpc (by simp [raised, hpre])
    have hqueue := K.ordered.raised (entryOf f) hraised x
    rcases List.mem_append.mp hx with hx | hx
    · exact hqueue (List.mem_append_left _ hx) hpre hxpre hnode
    · obtain ⟨p, hp, hx⟩ := List.mem_flatMap.mp hx
      rcases held_fence hx hxpre with hx | hx
      · exact hqueue (List.mem_append_right _ (List.mem_flatMap.mpr ⟨p, hp, hx⟩)) hpre hxpre hnode
      · exact hplace x (List.mem_flatMap.mpr ⟨p, hp, hx⟩) hpre hxpre hnode

theorem guard_fits (K : Kept s) {i : ℕ} {p : Pc} (hpc : s.sched.threads[i]? = some p)
    (hg : guardPc s p) : Fits s.sched (view s.sched s.calls s.pushed) p := by
  cases p with
  | readLast => exact boundary_fits K hg
  | push => exact push_fits K hpc hg
  | dpcDequeue => exact hg
  | _ => trivial

theorem step_inv {l : Label} (K : Kept s) (hg : guard s l) (h : step s l = some t) :
    Inv (view t.sched t.calls t.pushed) := by
  obtain ⟨u, hu, rfl⟩ := Option.map_eq_some_iff.mp h
  cases l with
  | submit | preempt =>
    obtain rfl := Option.some.inj hu
    simp only [turn, List.flatMap_nil, List.append_nil]
    exact call_inv K.inv (new_call hg _ (List.mem_singleton_self _)) rfl
  | reset | dpc =>
    obtain rfl := Option.some.inj hu
    simpa [called, turn] using spawn_inv K.inv ⟨rfl, rfl, rfl⟩
  | teardown =>
    obtain rfl := Option.some.inj hu
    simp only [called, turn, List.flatMap_nil, List.append_nil]
    refine spawn_inv K.inv ?_
    split <;> exact ⟨rfl, rfl, rfl⟩
  | run i =>
    obtain ⟨p, hpc, hrun⟩ := Option.bind_eq_some_iff.mp hu
    simpa [called, turn, hpc] using run_inv K.inv hpc (guard_fits K hpc (hg p hpc)) hrun

theorem step_kept {l : Label} (K : Kept s) (hg : guard s l) (h : step s l = some t) : Kept t :=
  ⟨step_inv K hg h, step_ordered K.ordered hg h, step_recorded K.recorded h⟩

end Guard

theorem schedInit_inv (o : InitOutcome) :
    Inv (view (schedInit o).sched (schedInit o).calls (schedInit o).pushed) := by
  have hview : view (schedInit o).sched (schedInit o).calls (schedInit o).pushed =
      ⟨[], [], [], [], [], [], []⟩ := by
    cases o <;> rfl
  rw [hview]
  constructor <;> simp [Books.stream, Reports, Closed]

theorem schedInit_kept (o : InitOutcome) : Kept (schedInit o) :=
  ⟨schedInit_inv o, schedInit_ordered o, schedInit_recorded o⟩

/-- Each preemption is reported at its node's last completed fence, and no fence submitted
earlier completes after it, in every run whose markers find the boundary of their own node
and keep their place. -/
theorem preempts_at_boundary (o : InitOutcome) (ls : List Label)
    (hg : Guarded step guard (schedInit o) ls) :
    Always step (fun _ _ t => Preempts t) (schedInit o) ls := by
  refine always_of_guarded (fun s l t => step_kept) ?_ (schedInit_kept o) hg
  intro s l t K hl h n
  exact (step_inv K hl h).notified n

/-- A fence and then a preemption of one node, through the worker and the DPC. -/
theorem preempt_after_fence :
    Always step (fun _ _ t => Preempts t) (schedInit .up)
      [.submit 5 0 0, .run 1, .run 1, .run 1, .run 0, .run 0, .run 0, .run 0, .run 0,
        .preempt 6 0 0, .run 2, .run 2, .run 0, .run 0, .run 0, .dpc, .run 3, .run 3, .run 3,
        .run 3, .run 3] :=
  preempts_at_boundary .up _ (by decide)

/-- A preemption of node 1, where no fence was submitted, is reported at the fence of node 0. -/
theorem other_node_reported : ∃ t,
    exec step (schedInit .up)
      [.submit 5 0 0, .run 1, .run 1, .run 1, .run 0, .run 0, .run 0, .run 0, .run 0,
        .preempt 6 1 0, .run 2, .run 2, .run 0, .run 0, .run 0, .dpc, .run 3, .run 3, .run 3,
        .run 3, .run 3] = some t ∧ ofNode 1 t.sched.notified = [⟨6, 1, 0, true, 5⟩] ∧
      ¬Preempts t :=
  ⟨_, rfl, by decide, fun h => absurd ((h 1).1.1 rfl) (by decide)⟩

end WinMali.PreemptBoundary
