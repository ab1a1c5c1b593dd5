import WinMaliKmd.CsfSubmit
import WinMaliKmd.ThreadPools

/-!
# One command stream group for all VMs

`GroupSubmit` of `WinMaliEscape.c`, the NOP job, `VmCreate` and `VmDestroy` as
threads. One step is one locked section of the slot, VM or group table, one
hardware request, or one stage of a submit under `SubmitLock`. Cache flushes and
sync objects touch none of this state, and a call that is refused before it
reads any of it has no thread.
-/

set_option autoImplicit false

namespace WinMali.CsgLease
open WinMali.AsSlots WinMali.CsfSubmit WinMali.VmTable

/-- `uid` is the thread that created the VM. -/
structure Vm where
  uid : ℕ
  id : ℕ
  asSlot : ℕ
deriving DecidableEq, Repr

/-- A queue submit, with what its stages will meet. -/
structure Request where
  streamAddr : Word
  streamSize : BitVec 32
  reply : Reply
  recover : Reply
deriving DecidableEq, Repr

/-- A job for the group: `owner` is the VM that its slot was read from. -/
structure Job where
  owner : Option ℕ
  call : StreamCall
  reply : Reply
  recover : Option Reply
  vmId : ℕ
  rest : List Request
deriving DecidableEq, Repr

inductive Pc
  | createPick (hw : NtStatus)
  | createEnable (slot : ℕ) (hw : NtStatus)
  | createInsert (slot : ℕ)
  | createRelease (slot : ℕ)
  | destroyTake (id : ℕ)
  | destroyDisable (vm : Vm)
  | destroyRelease (vm : Vm)
  | submitRead (vmId : ℕ) (requests : List Request)
  | lock (j : Job)
  | terminate (j : Job)
  | start (j : Job)
  | ring (j : Job)
  | wait (j : Job)
  | recoverTerminate (r : Reply)
  | recoverStart (r : Reply)
  | unlock (vmId : ℕ) (requests : List Request)
  | done
deriving DecidableEq, Repr

/-- `lease` and `boundFor` record which VM a slot was last given to and which VM the group was
last started for; the driver keeps neither. -/
structure State where
  adapter : Adapter
  vms : List Vm
  nextId : ℕ
  groups : ℕ → Option ℕ
  csfJobs : Bool
  fw : FwCtx
  submitLock : Option ℕ
  threads : List Pc
  lease : ℕ → Option ℕ
  boundFor : Option ℕ

def State.goto (s : State) (i : ℕ) (pc : Pc) : State := { s with threads := s.threads.set i pc }

def State.spawn (s : State) (pc : Pc) : State := { s with threads := s.threads ++ [pc] }

def State.pick (s : State) (i : ℕ) : State :=
  { s with
    adapter := (vmPickAs s.adapter).2
    lease := Function.update s.lease (vmPickAs s.adapter).1 (some i) }

def State.giveBack (s : State) (slot : ℕ) : State :=
  { s with
    adapter := vmReleaseAs s.adapter slot
    lease := Function.update s.lease slot none }

def State.startFor (s : State) (owner : Option ℕ) (slot : ℕ) (r : Reply) : State :=
  { s with
    fw := (programAndStartCsg s.fw slot r).2
    boundFor := if (programAndStartCsg s.fw slot r).1.ok then owner else s.boundFor }

/-- A failed group submit resets the slot to the bring-up address space. -/
def Job.failed (j : Job) : Pc :=
  match j.recover with
  | none => .unlock 0 []
  | some r => .recoverTerminate r

def stepPc (s : State) (i : ℕ) : Pc → Option State
  | .createPick hw =>
    if !s.adapter.gpuRegsMapped || (vmPickAs s.adapter).1 ≥ asSlotMax then some (s.goto i .done)
    else some ((s.pick i).goto i (.createEnable (vmPickAs s.adapter).1 hw))
  | .createEnable slot hw =>
    some ({ s with adapter := (asEnable s.adapter slot 0 hw).2 }.goto i
      (if hw.ok then .createInsert slot else .createRelease slot))
  | .createInsert slot =>
    some ({ s with vms := s.vms ++ [Vm.mk i s.nextId slot], nextId := s.nextId + 1 }.goto i .done)
  | .createRelease slot => some ((s.giveBack slot).goto i .done)
  | .destroyTake id =>
    match s.vms.find? (·.id == id) with
    | none => some (s.goto i .done)
    | some vm =>
      some ({ s with vms := s.vms.eraseP (·.id == id) }.goto i (.destroyDisable vm))
  | .destroyDisable vm =>
    some ({ s with adapter := asDisable s.adapter vm.asSlot }.goto i (.destroyRelease vm))
  | .destroyRelease vm => some ((s.giveBack vm.asSlot).goto i .done)
  | .submitRead _ [] => some (s.goto i .done)
  | .submitRead vmId (q :: rest) =>
    match s.vms.find? (·.id == vmId) with
    | none => some (s.goto i .done)
    | some vm =>
      if vm.asSlot ≥ asSlotMax || q.streamAddr == 0 || q.streamSize == 0 || !s.csfJobs then
        some (s.goto i .done)
      else
        some (s.goto i (.lock ⟨some vm.uid, ⟨q.streamAddr, q.streamSize, 0, vm.asSlot, 500⟩,
          q.reply, some q.recover, vmId, rest⟩))
  | .lock j =>
    if s.submitLock = none then some ({ s with submitLock := some i }.goto i (.terminate j))
    else none
  | .terminate j =>
    if !submitFlags s.fw || !s.fw.csg0 then some (s.goto i j.failed)
    else some ({ s with fw := (terminateCsg s.fw j.reply).2 }.goto i (.start j))
  | .start j =>
    some ((s.startFor j.owner j.call.csgAsSlot j.reply).goto i
      (if (programAndStartCsg s.fw j.call.csgAsSlot j.reply).1.ok then .ring j else j.failed))
  | .ring j =>
    let fw := ({ s.fw with kqJobSeq := (s.fw.kqJobSeq + 1) % 2 ^ 64 } : FwCtx).consume
      j.reply.beforeRing
    match publish fw j.call with
    | none => some ({ s with fw := fw }.goto i j.failed)
    | some fw => some ({ s with fw := fw }.goto i (.wait j))
  | .wait j =>
    some ({ s with fw := (waitJob s.fw j.call j.reply).2 }.goto i
      (if (waitJob s.fw j.call j.reply).1.ok then .unlock j.vmId j.rest else j.failed))
  | .recoverTerminate r =>
    if !s.fw.csg0 then some (s.goto i (.unlock 0 []))
    else some ({ s with fw := (terminateCsg s.fw r).2 }.goto i (.recoverStart r))
  | .recoverStart r => some ((s.startFor none bringupAs r).goto i (.unlock 0 []))
  | .unlock vmId rest => some ({ s with submitLock := none }.goto i (.submitRead vmId rest))
  | .done => none

inductive Label
  | vmCreate (hw : NtStatus)
  | vmDestroy (id : ℕ)
  | groupSubmit (handle : ℕ) (requests : List Request)
  | nopJob (timeoutMs : ℕ) (r : Reply)
  | run (i : ℕ)
deriving DecidableEq, Repr

def nopJob (timeoutMs : ℕ) (r : Reply) : Job :=
  ⟨none, ⟨csfShaderGpuVa, shaderNopBytes, 0, bringupAs, timeoutMs⟩, r, none, 0, []⟩

def step (s : State) : Label → Option State
  | .vmCreate hw => some (s.spawn (.createPick hw))
  | .vmDestroy id => some (s.spawn (.destroyTake id))
  | .groupSubmit handle requests =>
    match s.groups handle with
    | none => some (s.spawn .done)
    | some vmId => some (s.spawn (.submitRead vmId requests))
  | .nopJob timeoutMs r =>
    some (s.spawn (if s.csfJobs then .lock (nopJob timeoutMs r) else .done))
  | .run i => (s.threads[i]?).bind (stepPc s i)

/-- The state after the bring-up of a device: no VM, the group in the bring-up slot. -/
def broughtUp (hwAsPresent : SlotMask.Mask) (gpuRegsMapped csfJobs : Bool) (groups : ℕ → Option ℕ)
    (csRegCount csUnpreservedRegCount : Word) (sbSlotCount : ℕ) : State where
  adapter := initAsAllocator ⟨hwAsPresent, gpuRegsMapped, 0, 0, fun _ => .zero, []⟩
  vms := []
  nextId := 1
  groups := groups
  csfJobs := csfJobs
  fw := bootstrapped csRegCount csUnpreservedRegCount sbSlotCount bringupAs
  submitLock := none
  threads := []
  lease := fun _ => none
  boundFor := none

section Stages

variable {s : State} {i : ℕ}

theorem step_run {pc : Pc} (h : s.threads[i]? = some pc) : step s (.run i) = stepPc s i pc := by
  simp [step, h]

theorem getElem?_goto {pc : Pc} (h : s.threads[i]? = some pc) (s' : State)
    (hs' : s'.threads = s.threads) (q : Pc) : (s'.goto i q).threads[i]? = some q := by
  have hlt := (List.getElem?_eq_some_iff.mp h).1
  simp [State.goto, hs', hlt]

/-- The state of the firmware context at the ring write of a job. -/
def atRing (fw : FwCtx) (r : Reply) : FwCtx :=
  ({ fw with kqJobSeq := (fw.kqJobSeq + 1) % 2 ^ 64 } : FwCtx).consume r.beforeRing

theorem submit_success {fw fw' : FwCtx} {c : StreamCall} {r : Reply}
    (hslot : c.csgAsSlot < asSlotMax) (h : submitStreamCall fw c r = (.success, fw')) :
    submitFlags fw = true ∧ fw.csg0 = true ∧ ∃ u v,
      programAndStartCsg (terminateCsg fw r).2 c.csgAsSlot r = (.success, u) ∧
      publish (atRing u r) c = some v ∧ waitJob v c r = (.success, fw') := by
  rcases hprog : programAndStartCsg (terminateCsg fw r).2 c.csgAsSlot r with ⟨st, u⟩
  simp only [submitStreamCall, prepare, rebindCsgAs, hprog, Nat.not_le_of_lt hslot,
    if_false] at h
  have hmissing : (!fw.csfBootValid || !fw.hostRingVa || !fw.qRing || !fw.cs00Input) =
      !submitFlags fw := by
    simp [submitFlags, Bool.not_and]
  rw [hmissing] at h
  cases hflags : submitFlags fw with
  | false => simp [hflags, NtStatus.ok] at h
  | true =>
    rw [hflags, Bool.not_true, if_neg Bool.false_ne_true] at h
    cases hcsg : fw.csg0 with
    | false => simp [hcsg, NtStatus.ok] at h
    | true =>
      rw [hcsg, Bool.not_true, if_neg Bool.false_ne_true] at h
      by_cases hst : st = .success
      · subst hst
        simp only [NtStatus.ok_success, Bool.not_true, Bool.false_eq_true, if_false] at h
        cases hpub : publish (atRing u r) c with
        | none =>
          rw [atRing] at hpub
          rw [hpub] at h
          simp at h
        | some v =>
          refine ⟨rfl, rfl, u, v, rfl, hpub, ?_⟩
          rw [atRing] at hpub
          rw [hpub] at h
          exact h
      · simp [NtStatus.ok_eq_false hst, hst] at h

/-- One stage: the firmware context it leaves and the stage that follows. -/
theorem stage {pc q : Pc} {t : State} (hpc : s.threads[i]? = some pc)
    (h : stepPc s i pc = some (t.goto i q)) (ht : t.threads = s.threads) :
    ∃ u, step s (.run i) = some u ∧ u.fw = t.fw ∧ u.threads[i]? = some q :=
  ⟨t.goto i q, (step_run hpc).trans h, rfl, getElem?_goto hpc t ht q⟩

/-- The stages of a job that succeeds, one after the other, are `submitStreamCall`. -/
theorem stages_eq_submit {j : Job} {fw : FwCtx} (hpc : s.threads[i]? = some (.terminate j))
    (hslot : j.call.csgAsSlot < asSlotMax)
    (h : submitStreamCall s.fw j.call j.reply = (.success, fw)) :
    ∃ t, Runs.exec step s [.run i, .run i, .run i, .run i] = some t ∧ t.fw = fw ∧
      t.threads[i]? = some (.unlock j.vmId j.rest) := by
  obtain ⟨hflags, hcsg, u, v, hprog, hpub, hwait⟩ := submit_success hslot h
  obtain ⟨s1, h1, hfw1, hpc1⟩ := stage (q := .start j)
    (t := { s with fw := (terminateCsg s.fw j.reply).2 }) hpc (by simp [stepPc, hflags, hcsg]) rfl
  rw [← show s1.fw = (terminateCsg s.fw j.reply).2 from hfw1] at hprog
  obtain ⟨s2, h2, hfw2, hpc2⟩ := stage (q := .ring j)
    (t := s1.startFor j.owner j.call.csgAsSlot j.reply) hpc1 (by simp [stepPc, hprog]) rfl
  have hu : s2.fw = u := hfw2.trans (congrArg Prod.snd hprog)
  rw [← hu] at hpub
  obtain ⟨s3, h3, hfw3, hpc3⟩ := stage (q := .wait j) (t := { s2 with fw := v }) hpc2
    (by rw [atRing] at hpub; simp only [stepPc, hpub]) rfl
  rw [← show s3.fw = v from hfw3] at hwait
  obtain ⟨s4, h4, hfw4, hpc4⟩ := stage (q := .unlock j.vmId j.rest)
    (t := { s3 with fw := (waitJob s3.fw j.call j.reply).2 }) hpc3 (by simp [stepPc, hwait]) rfl
  refine ⟨s4, ?_, hfw4.trans (congrArg Prod.snd hwait), hpc4⟩
  simp [Runs.exec, h1, h2, h3, h4]

end Stages

end WinMali.CsgLease
