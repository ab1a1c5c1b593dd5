import WinMaliKmd.FifoRing
import WinMaliKmd.Runs

/-!
# Bounded queues

The queue that a ring stands for, by what its users see: an entry that is offered is accepted as
long as there is room, and entries are taken in the order in which they were accepted.
-/

set_option autoImplicit false

namespace WinMali.BoundedFifo
open WinMali.FifoRing WinMali.Runs

variable {α : Type*}

inductive Act (α : Type*)
  | put (x : α) (accepted : Bool)
  | take (x : Option α)
  | other

inductive Fifo (capacity : ℕ) : List α → Act α → List α → Prop
  | accept {q : List α} (x : α) (h : q.length < capacity) :
      Fifo capacity q (.put x true) (q ++ [x])
  | refuse {q : List α} (x : α) (h : ¬q.length < capacity) : Fifo capacity q (.put x false) q
  | take (x : α) (q : List α) : Fifo capacity (x::q) (.take (some x)) q
  | nothing : Fifo capacity [] (.take none) []
  | other (q : List α) : Fifo capacity q .other q

inductive FifoRun (capacity : ℕ) : List α → List (Act α) → List α → Prop
  | nil (q : List α) : FifoRun capacity q [] q
  | cons {q q' r : List α} {a : Act α} {as : List (Act α)} (first : Fifo capacity q a q')
      (rest : FifoRun capacity q' as r) : FifoRun capacity q (a::as) r

def Act.puts : Act α → List α
  | .put x true => [x]
  | _ => []

def Act.takes : Act α → List α
  | .take (some x) => [x]
  | _ => []

section Queues

variable {capacity : ℕ} {q q' r : List α} {a : Act α} {as : List (Act α)}

theorem Fifo.order (h : Fifo capacity q a q') : q ++ a.puts = a.takes ++ q' := by
  cases h <;> simp [Act.puts, Act.takes]

/-- Nothing is lost, nothing comes twice, and nothing overtakes. -/
theorem FifoRun.order (h : FifoRun capacity q as r) :
    q ++ as.flatMap Act.puts = as.flatMap Act.takes ++ r := by
  induction h with
  | nil q => simp
  | cons first rest ih =>
    rw [List.flatMap_cons, List.flatMap_cons, ← List.append_assoc, first.order, List.append_assoc,
      ih, List.append_assoc]

theorem FifoRun.length_le (h : FifoRun capacity q as r) (hq : q.length ≤ capacity) :
    r.length ≤ capacity := by
  induction h with
  | nil q => exact hq
  | cons first rest ih =>
    refine ih ?_
    cases first with
    | accept x hlt =>
      rw [List.length_append]
      exact hlt
    | refuse x => exact hq
    | take x q =>
      rw [List.length_cons] at hq
      omega
    | nothing => exact hq
    | other q => exact hq

end Queues

section Rings

variable {d : ℕ} {r r' : Ring α d} {x : α}

theorem isFull_iff_length (r : Ring α d) : r.isFull ↔ ¬r.pending.length < d - 1 := by
  have hlt := r.count_lt
  rw [Ring.isFull_iff, Ring.pending_length]
  omega

theorem put_fifo (h : r.pushIfRoom x = some r') :
    Fifo (d - 1) r.pending (.put x true) r'.pending := by
  rw [Ring.pending_pushIfRoom h]
  refine .accept x (not_not.mp fun hno => ?_)
  rw [Ring.pushIfRoom, if_pos ((isFull_iff_length r).mpr hno)] at h
  cases h

theorem refused_fifo (h : r.pushIfRoom x = none) :
    Fifo (d - 1) r.pending (.put x false) r.pending := by
  refine .refuse x ((isFull_iff_length r).mp ?_)
  by_contra hroom
  rw [Ring.pushIfRoom, if_neg hroom] at h
  cases h

theorem pop_fifo (capacity : ℕ) (h : r.pop = some (x, r')) :
    Fifo capacity r.pending (.take (some x)) r'.pending := by
  rw [Ring.pop_some h]
  exact .take x r'.pending

theorem empty_fifo (capacity : ℕ) (h : r.pop = none) :
    Fifo capacity r.pending (.take none) r.pending := by
  have hnil : r.pending = [] := by
    rw [Ring.pending_eq_nil]
    by_contra hne
    rw [Ring.pop, if_neg hne] at h
    cases h
  rw [hnil]
  exact .nothing

end Rings

section Systems

variable {S L : Type*} {step : S → L → Option S} {guard : S → L → Prop}
  {act : S → L → S → Act α} {capacity : ℕ}

/-- What a run does to a queue. -/
def acts (step : S → L → Option S) (act : S → L → S → Act α) : S → List L → List (Act α)
  | _, [] => []
  | s, l::ls =>
    match step s l with
    | none => []
    | some t => act s l t :: acts step act t ls

/-- When each step is one of the queue, a run is one. -/
theorem fifoRun_of_steps (view : S → List α)
    (hstep : ∀ s l t, guard s l → step s l = some t → Fifo capacity (view s) (act s l t) (view t))
    {ls : List L} {s t : S} (hg : Guarded step guard s ls) (h : exec step s ls = some t) :
    FifoRun capacity (view s) (acts step act s ls) (view t) := by
  induction ls generalizing s with
  | nil =>
    obtain rfl := Option.some.inj h
    exact .nil (view s)
  | cons l ls ih =>
    obtain ⟨u, hu, hrest⟩ := (exec_cons step s t l ls).mp h
    obtain ⟨hl, hgrest⟩ := hg u hu
    rw [acts, hu]
    exact .cons (hstep s l u hl hu) (ih hgrest hrest)

end Systems

end WinMali.BoundedFifo
