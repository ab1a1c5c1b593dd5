import Mathlib.Data.BitVec
import Mathlib.Data.List.Perm.Basic
import WinMaliKmd.Runs
import WinMaliKmd.ThreadPools

/-!
# The handle tables

Buffer objects, VMs, sync objects and groups are kept in four tables of one
make: a list under a spin lock, a counter that gives the handles and a count of
the linked objects. Every call is a thread and one step is one locked section
or the release of one object; what a call does before and after touches no
table. An object is known by the order of its creation.
-/

set_option autoImplicit false

namespace WinMali.ObjectTable
open WinMali.ThreadPools

abbrev Handle := BitVec 32

inductive Kind
  | bo
  | vm
  | syncObj
  | group
deriving DecidableEq, Repr

/-- The tables with a `Get` that returns a reference. -/
def Kind.hasGet : Kind → Bool
  | .bo | .vm | .syncObj => true
  | .group => false

/-- `TilerHeapCreate` takes its handles from the counter of the groups. -/
def Kind.lendsHandles : Kind → Bool
  | .bo | .vm | .syncObj => false
  | .group => true

structure Obj where
  uid : ℕ
  handle : Handle
  ownerDevice : ℕ
deriving DecidableEq, Repr

def wmerrOk : ℤ := 0

def wmerrEnoent : ℤ := -2

inductive Result
  | handle (h : Handle)
  | err (e : ℤ)
  | freed (n : ℕ)
  | done
deriving DecidableEq, Repr

/-- The rundown counts what it frees. -/
def Result.count : Result → Result
  | .freed n => .freed (n + 1)
  | r => r

/-- `free` holds what a thread has unlinked, `user` the references that `Get` gave it. -/
inductive Pc
  | insert (ownerDevice : ℕ)
  | take (h : Handle)
  | unlinkOwner (ownerDevice : ℕ)
  | unlinkAll
  | free (uids : List ℕ) (r : Result)
  | user (refs : List ℕ)
  | returned (r : Result)
deriving DecidableEq, Repr

/-- `refCounts` has an entry for every object that was ever created. In the driver these counts
and `count` have 32 bits, and they do not wrap: `count` objects take up memory of their own, and
a reference is held by a call that is under way. The driver does not keep `freed`, `destroyed`,
the handles that a `Destroy` found, and `given`, how often the counter of handles was moved on. -/
structure State where
  head : List Obj
  nextHandle : Handle
  count : ℤ
  refCounts : List ℤ
  threads : List Pc
  freed : List ℕ
  destroyed : List Handle
  given : ℕ
deriving DecidableEq, Repr

def tableInit : State where
  head := []
  nextHandle := 1
  count := 0
  refCounts := []
  threads := []
  freed := []
  destroyed := []
  given := 0

def State.created (s : State) : ℕ := s.refCounts.length

def State.goto (s : State) (i : ℕ) (pc : Pc) : State := { s with threads := s.threads.set i pc }

def State.spawn (s : State) (pc : Pc) : State := { s with threads := s.threads ++ [pc] }

/-- The locked section at the end of `Create`. -/
def createInsert (s : State) (ownerDevice : ℕ) : State :=
  { s with
    head := s.head ++ [⟨s.created, s.nextHandle, ownerDevice⟩]
    nextHandle := s.nextHandle + 1
    count := s.count + 1
    refCounts := s.refCounts ++ [1]
    given := s.given + 1 }

/-- `TakeByHandle_`, and `VmTakeById_`. -/
def takeByHandle (s : State) (h : Handle) : Option Obj × State :=
  match s.head.find? fun o => o.handle == h with
  | none => (none, s)
  | some o =>
    (some o, { s with
      head := s.head.eraseP fun o => o.handle == h
      count := s.count - 1
      destroyed := s.destroyed ++ [h] })

/-- The locked section of `RundownOwner`. -/
def unlinkOwner (s : State) (ownerDevice : ℕ) : List Obj × State :=
  let own := s.head.filter fun o => o.ownerDevice == ownerDevice
  (own, { s with
    head := s.head.filter fun o => !(o.ownerDevice == ownerDevice)
    count := s.count - own.length })

/-- The locked section of `TableTeardown`. -/
def unlinkAll (s : State) : List Obj × State := (s.head, { s with head := [], count := 0 })

/-- `Get`, for the tables that have one. -/
def tableGet (s : State) (h : Handle) : Option Obj × State :=
  match s.head.find? fun o => o.handle == h with
  | none => (none, s)
  | some o => (some o, { s with refCounts := s.refCounts.modify o.uid (· + 1) })

def tablePut (s : State) (uid : ℕ) : State :=
  { s with refCounts := s.refCounts.modify uid (· - 1) }

def stepPc (s : State) (i : ℕ) : Pc → Option State
  | .insert ownerDevice =>
    some ((createInsert s ownerDevice).goto i (.returned (.handle s.nextHandle)))
  | .take h =>
    match takeByHandle s h with
    | (none, s) => some (s.goto i (.returned (.err wmerrEnoent)))
    | (some o, s) => some (s.goto i (.free [o.uid] (.err wmerrOk)))
  | .unlinkOwner ownerDevice =>
    let (own, s) := unlinkOwner s ownerDevice
    some (s.goto i (.free (own.map Obj.uid) (.freed 0)))
  | .unlinkAll =>
    let (all, s) := unlinkAll s
    some (s.goto i (.free (all.map Obj.uid) .done))
  | .free [] r => some (s.goto i (.returned r))
  | .free (uid::uids) r =>
    some ({ s with freed := s.freed ++ [uid] }.goto i (.free uids r.count))
  | .user _ => none
  | .returned _ => none

/-- `enter` is a call that looks objects up. -/
inductive Label
  | create (ownerDevice : ℕ)
  | destroy (h : Handle)
  | rundownOwner (ownerDevice : ℕ)
  | tableTeardown
  | enter
  | lend
  | run (i : ℕ)
  | get (i : ℕ) (h : Handle)
  | use (i uid : ℕ)
  | put (i uid : ℕ)
deriving DecidableEq, Repr

def step (k : Kind) (s : State) : Label → Option State
  | .create ownerDevice => some (s.spawn (.insert ownerDevice))
  | .destroy h => some (s.spawn (.take h))
  | .rundownOwner ownerDevice =>
    some (s.spawn (if ownerDevice = 0 then .returned (.freed 0) else .unlinkOwner ownerDevice))
  | .tableTeardown => some (s.spawn .unlinkAll)
  | .enter => some (s.spawn (.user []))
  | .lend =>
    if k.lendsHandles then
      some { s with nextHandle := s.nextHandle + 1, given := s.given + 1 }
    else none
  | .run i => (s.threads[i]?).bind (stepPc s i)
  | .get i h =>
    if k.hasGet then
      match s.threads[i]? with
      | some (.user refs) =>
        match tableGet s h with
        | (none, s) => some s
        | (some o, s) => some (s.goto i (.user (o.uid :: refs)))
      | _ => none
    else none
  | .use i uid =>
    match s.threads[i]? with
    | some (.user refs) => if uid ∈ refs then some s else none
    | _ => none
  | .put i uid =>
    match s.threads[i]? with
    | some (.user refs) =>
      if uid ∈ refs then some ((tablePut s uid).goto i (.user (refs.erase uid))) else none
    | _ => none

/-- What a thread has unlinked and will free. -/
def unlinked : Pc → List ℕ
  | .free uids _ => uids
  | _ => []

/-- The references that a thread holds. -/
def refs : Pc → List ℕ
  | .user refs => refs
  | _ => []

def State.linked (s : State) : List ℕ := s.head.map Obj.uid

def State.pending (s : State) : List ℕ := s.threads.flatMap unlinked

def State.held (s : State) : List ℕ := s.threads.flatMap refs

/-- The object that the step gives back to the pool. -/
def freeing (s : State) : Label → Option ℕ
  | .run i =>
    match s.threads[i]? with
    | some (.free (uid::_) _) => some uid
    | _ => none
  | _ => none

/-- The step is the locked section of a `Create`. -/
def creating (s : State) : Label → Bool
  | .run i =>
    match s.threads[i]? with
    | some (.insert _) => true
    | _ => false
  | _ => false

/-- What a step can do. The threads of the new state are `th`. -/
inductive Effect (s : State) (l : Label) : State → Prop
  | stay (th : List Pc) (hp : (th.flatMap unlinked).Perm s.pending)
      (hh : (th.flatMap refs).Perm s.held) : Effect s l { s with threads := th }
  | lend : Effect s l { s with nextHandle := s.nextHandle + 1, given := s.given + 1 }
  | insert (ownerDevice : ℕ) (th : List Pc) (hl : creating s l = true)
      (hp : (th.flatMap unlinked).Perm s.pending) (hh : (th.flatMap refs).Perm s.held) :
      Effect s l { createInsert s ownerDevice with threads := th }
  | unlink (taken rest : List Obj) (d : List Handle) (th : List Pc)
      (hd : d = [] ∨ ∃ o, taken = [o] ∧ d = [o.handle]) (hs : rest.Sublist s.head)
      (ht : s.head.Perm (taken ++ rest))
      (hp : (th.flatMap unlinked).Perm (taken.map Obj.uid ++ s.pending))
      (hh : (th.flatMap refs).Perm s.held) :
      Effect s l { s with
        head := rest
        count := s.count - taken.length
        destroyed := s.destroyed ++ d
        threads := th }
  | free (uid : ℕ) (th : List Pc) (hl : freeing s l = some uid)
      (hp : s.pending.Perm (uid :: th.flatMap unlinked)) (hh : (th.flatMap refs).Perm s.held) :
      Effect s l { s with freed := s.freed ++ [uid], threads := th }
  | get (uid : ℕ) (th : List Pc) (hl : uid ∈ s.linked)
      (hp : (th.flatMap unlinked).Perm s.pending) (hh : (th.flatMap refs).Perm (uid :: s.held)) :
      Effect s l { s with refCounts := s.refCounts.modify uid (· + 1), threads := th }
  | put (uid : ℕ) (th : List Pc) (hp : (th.flatMap unlinked).Perm s.pending)
      (hh : s.held.Perm (uid :: th.flatMap refs)) :
      Effect s l { s with refCounts := s.refCounts.modify uid (· - 1), threads := th }

section Threads

variable {s : State} {i : ℕ} {p q : Pc}

theorem pending_set (h : s.threads[i]? = some p) (hq : unlinked q = unlinked p) :
    ((s.threads.set i q).flatMap unlinked).Perm s.pending :=
  .of_eq (flatMap_set unlinked q h hq)

theorem held_set (h : s.threads[i]? = some p) (hq : refs q = refs p) :
    ((s.threads.set i q).flatMap refs).Perm s.held :=
  .of_eq (flatMap_set refs q h hq)

/-- A thread that held nothing unlinks some objects. -/
theorem pending_take (h : s.threads[i]? = some p) (hp : unlinked p = []) :
    ((s.threads.set i q).flatMap unlinked).Perm (unlinked q ++ s.pending) := by
  have hperm := flatMap_set_perm h unlinked q
  rw [hp, List.append_nil] at hperm
  exact hperm.trans List.perm_append_comm

theorem pending_spawn (hq : unlinked q = []) :
    ((s.threads ++ [q]).flatMap unlinked).Perm s.pending := by
  simp [State.pending, hq]

theorem held_spawn (hq : refs q = []) : ((s.threads ++ [q]).flatMap refs).Perm s.held := by
  simp [State.held, hq]

end Threads

/-- `takeByHandle` finds an object with the handle it was asked for. -/
theorem takeByHandle_some {s : State} {h : Handle} {o : Obj}
    (hf : (s.head.find? fun o => o.handle == h) = some o) :
    o.handle = h ∧ s.head.Perm ([o] ++ s.head.eraseP fun o => o.handle == h) := by
  have ho := List.find?_some hf
  exact ⟨by simpa using ho, perm_cons_eraseP hf⟩

theorem stepPc_effect {s t : State} {i : ℕ} {p : Pc} (hc : s.count = s.head.length)
    (hp : s.threads[i]? = some p) (h : stepPc s i p = some t) : Effect s (.run i) t := by
  cases p with
  | insert ownerDevice =>
    obtain rfl := Option.some.inj h
    exact .insert ownerDevice _ (by simp [creating, hp]) (pending_set hp rfl) (held_set hp rfl)
  | take hd =>
    simp only [stepPc, takeByHandle] at h
    cases hf : s.head.find? fun o => o.handle == hd with
    | none =>
      rw [hf] at h
      obtain rfl := Option.some.inj h
      exact .stay _ (pending_set hp rfl) (held_set hp rfl)
    | some o =>
      rw [hf] at h
      obtain rfl := Option.some.inj h
      obtain ⟨rfl, hperm⟩ := takeByHandle_some hf
      exact .unlink [o] _ [o.handle] _ (.inr ⟨o, rfl, rfl⟩) List.eraseP_sublist hperm
        (pending_take hp rfl) (held_set hp rfl)
  | unlinkOwner ownerDevice =>
    obtain rfl := Option.some.inj h
    have hperm := List.filter_append_perm (fun o : Obj => o.ownerDevice == ownerDevice) s.head
    have hu := Effect.unlink (s := s) (l := .run i) _ _ [] _ (.inl rfl) List.filter_sublist
      hperm.symm (pending_take hp rfl) (held_set (q := .free _ (.freed 0)) hp rfl)
    rwa [List.append_nil] at hu
  | unlinkAll =>
    obtain rfl := Option.some.inj h
    have hu := Effect.unlink (s := s) (l := .run i) s.head [] [] _ (.inl rfl)
      (List.nil_sublist _) (by simp) (pending_take hp rfl) (held_set (q := .free _ .done) hp rfl)
    rwa [List.append_nil, hc, sub_self] at hu
  | free uids r =>
    cases uids with
    | nil =>
      obtain rfl := Option.some.inj h
      exact .stay _ (pending_set hp rfl) (held_set hp rfl)
    | cons uid uids =>
      obtain rfl := Option.some.inj h
      exact .free uid _ (by simp [freeing, hp]) (flatMap_set_drop hp (.refl _)) (held_set hp rfl)
  | user refs => cases h
  | returned r => cases h

theorem step_effect {k : Kind} {s t : State} {l : Label} (hc : s.count = s.head.length)
    (h : step k s l = some t) : Effect s l t := by
  cases l with
  | create ownerDevice =>
    obtain rfl := Option.some.inj h
    exact .stay _ (pending_spawn rfl) (held_spawn rfl)
  | destroy hd =>
    obtain rfl := Option.some.inj h
    exact .stay _ (pending_spawn rfl) (held_spawn rfl)
  | rundownOwner ownerDevice =>
    obtain rfl := Option.some.inj h
    by_cases hnull : ownerDevice = 0
    · exact .stay _ (pending_spawn (by simp [hnull, unlinked])) (held_spawn (by simp [hnull, refs]))
    · exact .stay _ (pending_spawn (by simp [hnull, unlinked])) (held_spawn (by simp [hnull, refs]))
  | tableTeardown =>
    obtain rfl := Option.some.inj h
    exact .stay _ (pending_spawn rfl) (held_spawn rfl)
  | enter =>
    obtain rfl := Option.some.inj h
    exact .stay _ (pending_spawn rfl) (held_spawn rfl)
  | lend =>
    simp only [step] at h
    split at h
    · obtain rfl := Option.some.inj h
      exact .lend
    · cases h
  | run i =>
    obtain ⟨p, hp, hs⟩ := Option.bind_eq_some_iff.mp h
    exact stepPc_effect hc hp hs
  | get i hd =>
    simp only [step] at h
    split at h
    · split at h
      · rename_i us hp
        simp only [tableGet] at h
        cases hf : s.head.find? fun o => o.handle == hd with
        | none =>
          rw [hf] at h
          obtain rfl := Option.some.inj h
          exact .stay _ (.refl _) (.refl _)
        | some o =>
          rw [hf] at h
          obtain rfl := Option.some.inj h
          exact .get o.uid _ (List.mem_map_of_mem (List.mem_of_find?_eq_some hf))
            (pending_set hp rfl) (flatMap_set_gain hp (.refl _))
      · cases h
    · cases h
  | use i uid =>
    simp only [step] at h
    split at h
    · split at h
      · obtain rfl := Option.some.inj h
        exact .stay _ (.refl _) (.refl _)
      · cases h
    · cases h
  | put i uid =>
    simp only [step] at h
    split at h
    · rename_i us hp
      split at h
      · rename_i hmem
        obtain rfl := Option.some.inj h
        exact .put uid _ (pending_set hp rfl) (flatMap_set_drop hp (List.perm_cons_erase hmem))
      · cases h
    · cases h

end WinMali.ObjectTable
