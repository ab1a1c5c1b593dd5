import Mathlib.Data.List.Basic
import Mathlib.Order.BoundedOrder.Lattice

/-!
# A pipeline of fences

What the scheduler is for: fences are accepted in order, completed, queued,
announced and stored. Between two of these a fence is in a pool, from which it
can leave in any order. The announcements are in order when every fence leaves
each pool as the oldest one there.
-/

set_option autoImplicit false

namespace WinMali.FencePipeline

variable {τ : Type*}

/-- `last` is the fence completed last and `stored` the one stored last. -/
structure Pipeline (τ : Type*) where
  accepted : List τ
  uncompleted : List τ
  unpushed : List τ
  fenceQueue : List τ
  unannounced : List τ
  notified : List τ
  unstored : List τ
  last : τ
  stored : τ

/-- What a pool holds after it took in some fences: nothing else, possibly less. -/
def TookIn (pool added pool' : List τ) : Prop := ∀ x ∈ pool', x ∈ pool ∨ x ∈ added

variable [LinearOrder τ]

/-- What a pool holds after its oldest fence left. -/
def LetGo (pool : List τ) (f : τ) (pool' : List τ) : Prop :=
  f ∈ pool ∧ ∀ x ∈ pool', x ∈ pool ∧ f < x

def Before (a b : List τ) : Prop := ∀ x ∈ a, ∀ y ∈ b, x < y

instance (a b : List τ) : Decidable (Before a b) := inferInstanceAs (Decidable (∀ x ∈ a, _))

inductive Move : Pipeline τ → Pipeline τ → Prop
  | shuffle (v : Pipeline τ) (pool' : List τ) (took : TookIn v.uncompleted [] pool')
    (kept : List τ) (sub : kept.Sublist v.fenceQueue) :
    Move v { v with uncompleted := pool', fenceQueue := kept }
  | accept (v : Pipeline τ) (f : τ) (pool' : List τ) (newer : ∀ a ∈ v.accepted, a < f)
    (took : TookIn v.uncompleted [f] pool') :
    Move v { v with accepted := v.accepted ++ [f], uncompleted := pool' }
  | complete (v : Pipeline τ) (f : τ) (pool' next' : List τ) (left : LetGo v.uncompleted f pool')
    (took : TookIn v.unpushed [f] next') :
    Move v { v with uncompleted := pool', unpushed := next', last := f }
  | push (v : Pipeline τ) (f : τ) (pool' kept : List τ) (left : LetGo v.unpushed f pool')
    (sub : kept.Sublist v.fenceQueue) :
    Move v { v with unpushed := pool', fenceQueue := kept ++ [f] }
  | pop (v : Pipeline τ) (f : τ) (queue' next' : List τ) (head : v.fenceQueue = f :: queue')
    (took : TookIn v.unannounced [f] next') :
    Move v { v with fenceQueue := queue', unannounced := next' }
  | announce (v : Pipeline τ) (f : τ) (pool' next' : List τ) (left : LetGo v.unannounced f pool')
    (took : TookIn v.unstored [f] next') :
    Move v { v with unannounced := pool', notified := v.notified ++ [f], unstored := next' }
  | store (v : Pipeline τ) (f : τ) (pool' : List τ) (left : LetGo v.unstored f pool') :
    Move v { v with unstored := pool', stored := f }

/-- The places a fence passes, the last one first. -/
def Pipeline.places (v : Pipeline τ) : List (List τ) :=
  [v.notified, v.unannounced, v.fenceQueue, v.unpushed, v.uncompleted]

structure InLine (v : Pipeline τ) : Prop where
  notified : v.notified.Pairwise (· < ·)
  queue : v.fenceQueue.Pairwise (· < ·)
  places : v.places.Pairwise Before

def Pipeline.completed (v : Pipeline τ) : List τ :=
  v.notified ++ v.unannounced ++ v.fenceQueue ++ v.unpushed

def Pipeline.unreported (v : Pipeline τ) : List τ :=
  v.unstored ++ v.unannounced ++ v.fenceQueue ++ v.unpushed

structure Recorded [OrderBot τ] (v : Pipeline τ) : Prop where
  known : ∀ x ∈ v.completed ++ v.uncompleted, x ∈ v.accepted
  le_last : ∀ x ∈ v.completed, x ≤ v.last
  last_le : ∀ x ∈ v.uncompleted, v.last ≤ x
  last_known : v.last = ⊥ ∨ v.last ∈ v.accepted
  unstored : v.unstored ⊆ v.notified
  stored_le_last : v.stored ≤ v.last
  stored_le : ∀ x ∈ v.unreported, v.stored ≤ x

section Places

variable {l r : List (List τ)} {p p' q q' : List τ} {f : τ}

theorem Before.mono {a a' b b' : List τ} (h : Before a b) (ha : a' ⊆ a) (hb : b' ⊆ b) :
    Before a' b' :=
  fun x hx y hy => h x (ha hx) y (hb hy)

/-- A place can lose fences. -/
theorem pairwise_subset (h : (l ++ p :: r).Pairwise Before) (hp : p' ⊆ p) :
    (l ++ p' :: r).Pairwise Before := by
  obtain ⟨hl, hr, hlr⟩ := List.pairwise_append.mp h
  obtain ⟨hpr, hr⟩ := List.pairwise_cons.mp hr
  refine List.pairwise_append.mpr ⟨hl, List.pairwise_cons.mpr ⟨?_, hr⟩, ?_⟩
  · exact fun b hb => (hpr b hb).mono hp (List.Subset.refl b)
  · intro a ha b hb
    rcases List.mem_cons.mp hb with rfl | hb
    · exact (hlr a ha p List.mem_cons_self).mono (List.Subset.refl a) hp
    · exact hlr a ha b (List.mem_cons_of_mem _ hb)

/-- The oldest fence of a place can pass to the next place. -/
theorem pairwise_pass (h : (l ++ q :: p :: r).Pairwise Before) (left : LetGo p f p')
    (took : TookIn q [f] q') : (l ++ q' :: p' :: r).Pairwise Before := by
  obtain ⟨hl, hr, hlr⟩ := List.pairwise_append.mp h
  obtain ⟨hq, hr⟩ := List.pairwise_cons.mp hr
  obtain ⟨hp, hr⟩ := List.pairwise_cons.mp hr
  have hsub : p' ⊆ p := fun x hx => (left.2 x hx).1
  have hqp : Before q p := hq p List.mem_cons_self
  -- what the next place holds now was there, or is the fence that passed
  have hq' : ∀ x ∈ q', x ∈ q ∨ x = f := fun x hx => (took x hx).imp_right List.mem_singleton.mp
  refine List.pairwise_append.mpr
    ⟨hl, List.pairwise_cons.mpr ⟨?_, List.pairwise_cons.mpr ⟨?_, hr⟩⟩, ?_⟩
  · intro b hb x hx y hy
    rcases List.mem_cons.mp hb with rfl | hb
    · rcases hq' x hx with hx | rfl
      · exact hqp x hx y (hsub hy)
      · exact (left.2 y hy).2
    · rcases hq' x hx with hx | rfl
      · exact hq b (List.mem_cons_of_mem _ hb) x hx y hy
      · exact hp b hb x left.1 y hy
  · exact fun b hb => (hp b hb).mono hsub (List.Subset.refl b)
  · intro a ha b hb x hx y hy
    rcases List.mem_cons.mp hb with rfl | hb
    · rcases hq' y hy with hy | rfl
      · exact hlr a ha q List.mem_cons_self x hx y hy
      · exact hlr a ha p (by simp) x hx y left.1
    · rcases List.mem_cons.mp hb with rfl | hb
      · exact hlr a ha p (by simp) x hx y (hsub hy)
      · exact hlr a ha b (by simp [hb]) x hx y hy

/-- Fences that are newer than all others can enter the last place. -/
theorem pairwise_enter (h : (l ++ [p]).Pairwise Before) (newer : ∀ a ∈ l, ∀ x ∈ a, x < f)
    (took : TookIn p [f] p') : (l ++ [p']).Pairwise Before := by
  obtain ⟨hl, _, hlp⟩ := List.pairwise_append.mp h
  refine List.pairwise_append.mpr ⟨hl, List.pairwise_singleton _ _, ?_⟩
  intro a ha b hb x hx y hy
  obtain rfl := List.mem_singleton.mp hb
  rcases took y hy with hy | hy
  · exact hlp a ha p (by simp) x hx y hy
  · exact List.mem_singleton.mp hy ▸ newer a ha x hx

theorem pairwise_lt_snoc {a : List τ} (ha : a.Pairwise (· < ·)) (h : ∀ x ∈ a, x < f) :
    (a ++ [f]).Pairwise (· < ·) :=
  List.pairwise_append.mpr ⟨ha, by simp, fun x hx y hy => List.mem_singleton.mp hy ▸ h x hx⟩

theorem letGo_head {a : List τ} (h : (f :: a).Pairwise (· < ·)) : LetGo (f :: a) f a :=
  ⟨List.mem_cons_self, fun x hx => ⟨List.mem_cons_of_mem _ hx, (List.pairwise_cons.mp h).1 x hx⟩⟩

end Places

section Moves

variable {v w : Pipeline τ}

theorem InLine.before_unpushed (O : InLine v) : Before v.fenceQueue v.unpushed := by
  have h := O.places
  simp only [Pipeline.places, List.pairwise_cons, List.mem_cons] at h
  exact h.2.2.1 _ (.inl rfl)

theorem InLine.notified_before (O : InLine v) : Before v.notified v.unannounced := by
  have h := O.places
  simp only [Pipeline.places, List.pairwise_cons, List.mem_cons] at h
  exact h.1 _ (.inl rfl)

/-- What is announced is older than all that is not. -/
theorem InLine.notified_lt (O : InLine v) {x y : τ} (hx : x ∈ v.notified)
    (hy : y ∈ v.unannounced ++ v.fenceQueue ++ v.unpushed) : x < y := by
  have h := O.places
  simp only [Pipeline.places, List.pairwise_cons, List.mem_cons] at h
  rw [List.mem_append, List.mem_append] at hy
  rcases hy with (hy | hy) | hy
  · exact h.1 _ (.inl rfl) x hx y hy
  · exact h.1 _ (.inr (.inl rfl)) x hx y hy
  · exact h.1 _ (.inr (.inr (.inl rfl))) x hx y hy

theorem Move.inLine [OrderBot τ] (m : Move v w) (O : InLine v) (R : Recorded v) : InLine w := by
  obtain ⟨notified, queue, places⟩ := O
  cases m with
  | shuffle pool' took kept sub =>
    refine ⟨notified, queue.sublist sub, ?_⟩
    have hkept : [v.notified, v.unannounced, kept, v.unpushed, v.uncompleted].Pairwise Before :=
      pairwise_subset (l := [_, _]) places sub.subset
    exact pairwise_subset (l := [_, _, _, _]) hkept fun x hx => by simpa using took x hx
  | accept f pool' newer took =>
    refine ⟨notified, queue, pairwise_enter (l := v.places.dropLast) places ?_ took⟩
    intro p hp x hx
    apply newer x (R.known x (List.mem_append_left _ _))
    simp only [Pipeline.places, List.dropLast, List.mem_cons, List.not_mem_nil, or_false] at hp
    rcases hp with rfl | rfl | rfl | rfl <;> simp [Pipeline.completed, hx]
  | complete f pool' next' left took =>
    exact ⟨notified, queue, pairwise_pass (l := [_, _, _]) places left took⟩
  | push f pool' kept left sub =>
    refine ⟨notified, pairwise_lt_snoc (queue.sublist sub) ?_, ?_⟩
    · exact fun x hx => InLine.before_unpushed ⟨notified, queue, places⟩ x (sub.subset hx) f left.1
    · have hkept : [v.notified, v.unannounced, kept, v.unpushed, v.uncompleted].Pairwise Before :=
        pairwise_subset (l := [_, _]) places sub.subset
      exact pairwise_pass (l := [_, _]) hkept left fun _ hx => List.mem_append.mp hx
  | pop f queue' next' head took =>
    rw [head] at queue
    refine ⟨notified, (List.pairwise_cons.mp queue).2, ?_⟩
    rw [Pipeline.places, head] at places
    exact pairwise_pass (l := [_]) places (letGo_head queue) took
  | announce f pool' next' left took =>
    refine ⟨pairwise_lt_snoc notified ?_, queue, ?_⟩
    · exact fun x hx => InLine.notified_before ⟨notified, queue, places⟩ x hx f left.1
    · exact pairwise_pass (l := []) places left fun _ hx => List.mem_append.mp hx
  | store f pool' left => exact ⟨notified, queue, places⟩

variable [OrderBot τ]

/-- A step that completes and stores nothing. -/
theorem Recorded.of_subset (R : Recorded v) (hacc : v.accepted ⊆ w.accepted)
    (hlast : w.last = v.last) (hstored : w.stored = v.stored) (hcomp : w.completed ⊆ v.completed)
    (hunc : ∀ x ∈ w.uncompleted, x ∈ v.uncompleted ∨ x ∈ w.accepted ∧ w.last ≤ x)
    (hrep : w.unreported ⊆ v.unreported) (hunst : w.unstored ⊆ w.notified) : Recorded w := by
  refine ⟨?_, ?_, ?_, ?_, hunst, ?_, ?_⟩
  · intro x hx
    rcases List.mem_append.mp hx with hx | hx
    · exact hacc (R.known x (List.mem_append_left _ (hcomp hx)))
    · rcases hunc x hx with hx | hx
      · exact hacc (R.known x (List.mem_append_right _ hx))
      · exact hx.1
  · exact fun x hx => hlast ▸ R.le_last x (hcomp hx)
  · intro x hx
    rcases hunc x hx with hx | hx
    · exact hlast ▸ R.last_le x hx
    · exact hx.2
  · rw [hlast]
    exact R.last_known.imp_right fun h => hacc h
  · rw [hlast, hstored]
    exact R.stored_le_last
  · exact fun x hx => hstored ▸ R.stored_le x (hrep hx)

theorem Recorded.complete (R : Recorded v) {f : τ} {pool' next' : List τ}
    (left : LetGo v.uncompleted f pool') (took : TookIn v.unpushed [f] next') :
    Recorded { v with uncompleted := pool', unpushed := next', last := f } := by
  have hf := R.last_le f left.1
  have hknown : f ∈ v.accepted := R.known f (List.mem_append_right _ left.1)
  -- what is completed now was, or is the fence itself
  have hcomp : ∀ x ∈ v.notified ++ v.unannounced ++ v.fenceQueue ++ next',
      x ∈ v.completed ∨ x = f := by
    intro x hx
    rcases List.mem_append.mp hx with hx | hx
    · exact .inl (List.mem_append_left _ hx)
    · exact (took x hx).imp (List.mem_append_right _) List.mem_singleton.mp
  refine ⟨?_, ?_, fun x hx => (left.2 x hx).2.le, .inr hknown, R.unstored,
    R.stored_le_last.trans hf, ?_⟩
  · intro x hx
    rcases List.mem_append.mp hx with hx | hx
    · rcases hcomp x hx with hx | rfl
      · exact R.known x (List.mem_append_left _ hx)
      · exact hknown
    · exact R.known x (List.mem_append_right _ (left.2 x hx).1)
  · intro x hx
    rcases hcomp x hx with hx | rfl
    · exact (R.le_last x hx).trans hf
    · exact le_rfl
  · intro x hx
    rcases List.mem_append.mp hx with hx | hx
    · exact R.stored_le x (List.mem_append_left _ hx)
    · rcases took x hx with hx | hx
      · exact R.stored_le x (List.mem_append_right _ hx)
      · exact (R.stored_le_last.trans hf).trans_eq (List.mem_singleton.mp hx).symm

theorem Recorded.store (O : InLine v) (R : Recorded v) {f : τ} {pool' : List τ}
    (left : LetGo v.unstored f pool') : Recorded { v with unstored := pool', stored := f } := by
  have hnotified := R.unstored left.1
  refine ⟨R.known, R.le_last, R.last_le, R.last_known, ?_, ?_, ?_⟩
  · exact fun x hx => R.unstored (left.2 x hx).1
  · exact R.le_last f (by simp [Pipeline.completed, hnotified])
  · intro x hx
    simp only [Pipeline.unreported, List.append_assoc] at hx
    rcases List.mem_append.mp hx with hx | hx
    · exact (left.2 x hx).2.le
    · exact (O.notified_lt hnotified (by simpa using hx)).le

theorem Move.recorded (m : Move v w) (O : InLine v) (R : Recorded v) : Recorded w := by
  cases m with
  | shuffle pool' took kept sub =>
    refine R.of_subset (List.Subset.refl _) rfl rfl ?_ ?_ ?_ R.unstored
    · intro x hx
      have hkept : x ∈ kept → x ∈ v.fenceQueue := fun h => sub.subset h
      simp only [Pipeline.completed, List.mem_append] at hx ⊢
      tauto
    · exact fun x hx => .inl (by simpa using took x hx)
    · intro x hx
      have hkept : x ∈ kept → x ∈ v.fenceQueue := fun h => sub.subset h
      simp only [Pipeline.unreported, List.mem_append] at hx ⊢
      tauto
  | accept f pool' newer took =>
    refine R.of_subset (List.subset_append_left _ _) rfl rfl (List.Subset.refl _) ?_
      (List.Subset.refl _) R.unstored
    intro x hx
    refine (took x hx).imp_right fun hx => ?_
    obtain rfl := List.mem_singleton.mp hx
    refine ⟨by simp, ?_⟩
    rcases R.last_known with h | h
    · exact h ▸ bot_le
    · exact (newer _ h).le
  | complete f pool' next' left took => exact R.complete left took
  | push f pool' kept left sub =>
    refine R.of_subset (List.Subset.refl _) rfl rfl ?_ (fun x hx => .inl hx) ?_ R.unstored
    · intro x hx
      have hkept : x ∈ kept → x ∈ v.fenceQueue := fun h => sub.subset h
      have := left.1
      have := left.2 x
      simp only [Pipeline.completed, List.mem_append, List.mem_singleton] at hx ⊢
      grind
    · intro x hx
      have hkept : x ∈ kept → x ∈ v.fenceQueue := fun h => sub.subset h
      have := left.1
      have := left.2 x
      simp only [Pipeline.unreported, List.mem_append, List.mem_singleton] at hx ⊢
      grind
  | pop f queue' next' head took =>
    refine R.of_subset (List.Subset.refl _) rfl rfl ?_ (fun x hx => .inl hx) ?_ R.unstored
    · intro x hx
      have := took x
      simp only [Pipeline.completed, head, List.mem_append, List.mem_cons, List.not_mem_nil] at *
      tauto
    · intro x hx
      have := took x
      simp only [Pipeline.unreported, head, List.mem_append, List.mem_cons, List.not_mem_nil] at *
      tauto
  | announce f pool' next' left took =>
    refine R.of_subset (List.Subset.refl _) rfl rfl ?_ (fun x hx => .inl hx) ?_ ?_
    · intro x hx
      have := left.1
      have := left.2 x
      simp only [Pipeline.completed, List.mem_append, List.mem_singleton] at hx ⊢
      grind
    · intro x hx
      have := left.1
      have := left.2 x
      have := took x
      simp only [Pipeline.unreported, List.mem_append, List.mem_singleton] at *
      grind
    · intro x hx
      rcases took x hx with hx | hx
      · exact List.mem_append_left _ (R.unstored hx)
      · exact List.mem_append_right _ hx
  | store f pool' left => exact R.store O left

/-- The two recorded fences never decrease. -/
theorem Move.monotone (m : Move v w) (R : Recorded v) : v.last ≤ w.last ∧ v.stored ≤ w.stored := by
  cases m with
  | complete f _ _ left => exact ⟨R.last_le f left.1, le_rfl⟩
  | store f _ left => exact ⟨le_rfl, R.stored_le f (by simp [Pipeline.unreported, left.1])⟩
  | _ => exact ⟨le_rfl, le_rfl⟩

end Moves

end WinMali.FencePipeline
