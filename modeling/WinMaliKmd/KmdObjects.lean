import WinMaliKmd.AllocSizes
import WinMaliKmd.ApertureRoots
import WinMaliKmd.ContextSlots
import WinMaliKmd.ObjectPool

/-!
# Processes, devices, contexts and allocations

Create and destroy calls of `WinMaliDdi.c` and the allocation calls of `WinMaliAlloc.c`. A handle
is where an object is in pool memory, and a call that looks at memory which is not an object's
any more has no result. What `DestroyContext` does to the slots, and `DestroyDevice` to the
escape tables, is modelled beside this.
-/

set_option autoImplicit false

namespace WinMali.KmdObjects
open WinMali.Lpae WinMali.ObjectPool WinMali.Runs
open WinMali.AllocSizes (AllocationInfo record)
open WinMali.ContextSlots (Context ContextInfo contextInfo)

structure KmdProcess where
  hDxgkProcess : ℕ
  flags : BitVec 32
  pasid : BitVec 32
  deviceCount : ℤ

structure KmdDevice where
  ownerProcess : Option ℕ
  hRtDevice : ℕ
  flags : BitVec 32
  pasid : BitVec 32
  contextCount : ℤ

structure KmdAllocation where
  ka : AllocSizes.KmdAllocation
  hResource : ℕ
  residency : ApertureRoots.Residency
  openCount : ℤ

/-- An object tells its kind by its magic. -/
inductive Object
  | process (p : KmdProcess)
  | device (d : KmdDevice)
  | context (c : Context)
  | allocation (a : KmdAllocation)

def Object.asProcess : Object → Option KmdProcess
  | .process p => some p
  | _ => none

def Object.asDevice : Object → Option KmdDevice
  | .device d => some d
  | _ => none

def Object.asContext : Object → Option Context
  | .context c => some c
  | _ => none

def Object.asAllocation : Object → Option KmdAllocation
  | .allocation a => some a
  | _ => none

def Object.parent : Object → Option ℕ
  | .device d => d.ownerProcess
  | .context c => some c.ownerDevice
  | _ => none

def Object.wards : Object → Option ℤ
  | .process p => some p.deviceCount
  | .device d => some d.contextCount
  | _ => none

/-- An interlocked change of `DeviceCount` or `ContextCount`. -/
def Object.bump (k : ℤ) : Object → Object
  | .process p => .process { p with deviceCount := p.deviceCount + k }
  | .device d => .device { d with contextCount := d.contextCount + k }
  | x => x

def Object.addOpens (k : ℤ) : Object → Object
  | .allocation a => .allocation { a with openCount := a.openCount + k }
  | x => x

/-- Processes own devices and devices own contexts. -/
def Object.fits : Object → Object → Prop
  | .device _, .process _ => True
  | .context _, .device _ => True
  | _, _ => False

def family : Family Object where
  parent := Object.parent
  wards := Object.wards
  fits := Object.fits
  bump := Object.bump
  parent_bump := by
    intro k x
    cases x <;> rfl
  wards_bump := by
    intro k x
    cases x <;> rfl
  fits_bump_ward := by
    intro k x y
    cases x <;> cases y <;> rfl
  fits_bump := by
    intro k x y
    cases x <;> cases y <;> rfl
  counts := by
    intro x y h
    cases x <;> cases y <;> first | rfl | exact absurd h id

/-- `leaks` is what the warnings of the destroy calls said, and `opens` has every
device-specific handle that was given out and not closed; the driver keeps neither. -/
structure State where
  pool : Pool Object
  leaks : List (ℕ × ℤ)
  opens : List ℕ

/-- The magic check of a handle: `none` when it leads to memory that is not an object's, and
`some none` when it is null or the object is of another kind. -/
def resolve {β : Type} (as : Object → Option β) (p : Pool Object) :
    Option ℕ → Option (Option (ℕ × β))
  | none => some none
  | some a => (read p a).map fun x => (as x).map fun b => (a, b)

/-- A count of an owner that is not looked at before. -/
def countAt (owns : Object → Bool) (k : ℤ) (q : ℕ) (p : Pool Object) : Option (Pool Object) :=
  (read p q).bind fun x => if owns x then some (modify p q (Object.bump k)) else none

def isProcess (x : Object) : Bool := x.asProcess.isSome

def isDevice (x : Object) : Bool := x.asDevice.isSome

/-- The warning of a destroy call. -/
def warn (a : ℕ) (count : ℤ) (leaks : List (ℕ × ℤ)) : List (ℕ × ℤ) :=
  if count ≠ 0 then leaks ++ [(a, count)] else leaks

inductive DdiStatus
  | nt (status : NtStatus)
  | accessDenied
deriving DecidableEq, Repr

structure ProcessArgs where
  hDxgkProcess : ℕ
  flags : BitVec 32
  numPasid : ℕ
  pPasid : Option (BitVec 32)

structure DeviceArgs where
  hDevice : ℕ
  hKmdProcess : Option ℕ
  flags : BitVec 32
  pasid : BitVec 32

def createProcess (s : State) (adapter : Bool) (pCreateProcess : Option ProcessArgs)
    (reply : Option ℕ) : NtStatus × Option ℕ × State :=
  match pCreateProcess with
  | none => (.invalidParameter, none, s)
  | some args =>
    if !adapter then (.invalidHandle, none, s)
    else
      match reply with
      | none => (.insufficientResources, none, s)
      | some a =>
        let proc : KmdProcess :=
          { hDxgkProcess := args.hDxgkProcess
            flags := args.flags
            pasid := if args.numPasid > 0 then args.pPasid.getD 0 else 0
            deviceCount := 0 }
        (.success, some a, { s with pool := place s.pool a (.process proc) })

def destroyProcess (s : State) (hKmdProcess : Option ℕ) : Option (NtStatus × State) :=
  (resolve Object.asProcess s.pool hKmdProcess).map fun
    | none => (.invalidHandle, s)
    | some (a, p) =>
      (.success, { s with pool := release s.pool a, leaks := warn a p.deviceCount s.leaks })

/-- `blocked` is a caller that is the window manager while that is not allowed. -/
def createDevice (s : State) (adapter blocked : Bool) (pCreateDevice : Option DeviceArgs)
    (reply : Option ℕ) : Option (DdiStatus × Option ℕ × State) :=
  match pCreateDevice with
  | none => some (.nt .invalidParameter, none, s)
  | some args =>
    if !adapter then some (.nt .invalidHandle, none, s)
    else if blocked then some (.accessDenied, none, s)
    else
      (resolve Object.asProcess s.pool args.hKmdProcess).bind fun owner =>
        match reply with
        | none => some (.nt .insufficientResources, none, s)
        | some a =>
          let dev : KmdDevice :=
            { ownerProcess := owner.map Prod.fst
              hRtDevice := args.hDevice
              flags := args.flags
              pasid := args.pasid
              contextCount := 0 }
          let pool := place s.pool a (.device dev)
          (match owner with
            | none => some pool
            | some (q, _) => countAt isProcess 1 q pool).map fun pool =>
              (.nt .success, some a, { s with pool := pool })

def destroyDevice (s : State) (hDevice : Option ℕ) : Option (NtStatus × State) :=
  (resolve Object.asDevice s.pool hDevice).bind fun
    | none => some (.invalidHandle, s)
    | some (a, d) =>
      (match d.ownerProcess with
        | none => some s.pool
        | some q => countAt isProcess (-1) q s.pool).map fun pool =>
          (.success, { s with pool := release pool a, leaks := warn a d.contextCount s.leaks })

def createContext (s : State) (hDevice : Option ℕ)
    (pCreateContext : Option ContextSlots.CreateArgs) (reply : Option ℕ) :
    Option (NtStatus × Option (ℕ × ContextInfo) × State) :=
  match pCreateContext with
  | none => some (.invalidParameter, none, s)
  | some args =>
    (resolve Object.asDevice s.pool hDevice).bind fun
      | none => some (.invalidHandle, none, s)
      | some (dev, _) =>
        if args.systemContext = false ∧ args.nodeOrdinal > 1 then
          some (.invalidParameter, none, s)
        else
          match reply with
          | none => some (.insufficientResources, none, s)
          | some ctx =>
            let c : Context :=
              { handle := ctx
                ownerDevice := dev
                hRtContext := args.hContext
                nodeOrdinal := args.nodeOrdinal
                engineAffinity := args.engineAffinity
                flags := args.flags }
            (countAt isDevice 1 dev (place s.pool ctx (.context c))).map fun pool =>
              (.success, some (ctx, contextInfo args.systemContext), { s with pool := pool })

def destroyContext (s : State) (hContext : Option ℕ) : Option (NtStatus × State) :=
  (resolve Object.asContext s.pool hContext).bind fun
    | none => some (.invalidHandle, s)
    | some (a, c) =>
      (countAt isDevice (-1) c.ownerDevice s.pool).map fun pool =>
        (.success, { s with pool := release pool a })

def newAllocation (hResource : ℕ) (info : AllocationInfo) : KmdAllocation :=
  ⟨record info, hResource, ⟨none, 0, 0, 0⟩, 0⟩

/-- The loop that takes back what the turns before filled in. -/
def rollBack (placed : List ℕ) (p : Pool Object) : Pool Object :=
  placed.reverse.foldl release p

def createLoop (hResource : ℕ) (replies : ℕ → Option ℕ) :
    List AllocationInfo → List ℕ → Pool Object → NtStatus × List ℕ × Pool Object
  | [], placed, p => (.success, placed, p)
  | info::infos, placed, p =>
    match replies placed.length with
    | none => (.insufficientResources, [], rollBack placed p)
    | some a =>
      createLoop hResource replies infos (placed ++ [a])
        (place p a (.allocation (newAllocation hResource info)))

def createAllocation (s : State) (adapter : Bool) (hResource : ℕ)
    (pAllocationInfo : Option (List AllocationInfo)) (replies : ℕ → Option ℕ) :
    NtStatus × List ℕ × State :=
  match pAllocationInfo with
  | none => (.invalidParameter, [], s)
  | some infos =>
    if !adapter then (.invalidHandle, [], s)
    else
      let (status, placed, pool) := createLoop hResource replies infos [] s.pool
      (status, placed, { s with pool := pool })

def destroyLoop : List (Option ℕ) → State → Option State
  | [], s => some s
  | h::hs, s =>
    (resolve Object.asAllocation s.pool h).bind fun
      | none => destroyLoop hs s
      | some (a, ka) =>
        destroyLoop hs
          { s with pool := release s.pool a, leaks := warn a ka.openCount s.leaks }

def destroyAllocation (s : State) (pAllocationList : Option (List (Option ℕ))) :
    Option (NtStatus × State) :=
  match pAllocationList with
  | none => some (.invalidParameter, s)
  | some hs => (destroyLoop hs s).map fun t => (.success, t)

/-- A turn has what `DxgkCbGetHandleData` makes of the handle, null if there is no adapter to
ask, and fills in the device-specific handle. -/
def openLoop (adapter : Bool) : List (Option ℕ) → State → Option (List (Option ℕ) × State)
  | [], s => some ([], s)
  | h::hs, s =>
    (resolve Object.asAllocation s.pool (if adapter then h else none)).bind fun
      | none => (openLoop adapter hs s).map fun (filled, t) => (none :: filled, t)
      | some (a, _) =>
        (openLoop adapter hs { s with
          pool := modify s.pool a (Object.addOpens 1), opens := a :: s.opens }).map
            fun (filled, t) => (some a :: filled, t)

def openAllocation (s : State) (hDevice : Option ℕ)
    (pOpenAllocation : Option (List (Option ℕ))) :
    Option (NtStatus × List (Option ℕ) × State) :=
  match pOpenAllocation with
  | none => some (.invalidParameter, [], s)
  | some hs =>
    (resolve Object.asDevice s.pool hDevice).bind fun dev =>
      (openLoop dev.isSome hs s).map fun (filled, t) => (.success, filled, t)

def closeLoop : List (Option ℕ) → State → Option State
  | [], s => some s
  | h::hs, s =>
    (resolve Object.asAllocation s.pool h).bind fun
      | none => closeLoop hs s
      | some (a, _) =>
        closeLoop hs { s with
          pool := modify s.pool a (Object.addOpens (-1)), opens := s.opens.erase a }

def closeAllocation (s : State) (pOpenHandleList : Option (List (Option ℕ))) :
    Option (NtStatus × State) :=
  match pOpenHandleList with
  | none => some (.invalidParameter, s)
  | some hs => (closeLoop hs s).map fun t => (.success, t)

inductive Call
  | createProcess (adapter : Bool) (args : Option ProcessArgs) (reply : Option ℕ)
  | destroyProcess (hKmdProcess : Option ℕ)
  | createDevice (adapter blocked : Bool) (args : Option DeviceArgs) (reply : Option ℕ)
  | destroyDevice (hDevice : Option ℕ)
  | createContext (hDevice : Option ℕ) (args : Option ContextSlots.CreateArgs)
      (reply : Option ℕ)
  | destroyContext (hContext : Option ℕ)
  | createAllocation (adapter : Bool) (hResource : ℕ) (infos : Option (List AllocationInfo))
      (replies : ℕ → Option ℕ)
  | destroyAllocation (handles : Option (List (Option ℕ)))
  | openAllocation (hDevice : Option ℕ) (handles : Option (List (Option ℕ)))
  | closeAllocation (handles : Option (List (Option ℕ)))

/-- `none` is a call that looks at memory which is not an object's. -/
def step (s : State) : Call → Option State
  | .createProcess adapter args reply => some (createProcess s adapter args reply).2.2
  | .destroyProcess h => (destroyProcess s h).map Prod.snd
  | .createDevice adapter blocked args reply =>
    (createDevice s adapter blocked args reply).map fun r => r.2.2
  | .destroyDevice h => (destroyDevice s h).map Prod.snd
  | .createContext dev args reply => (createContext s dev args reply).map fun r => r.2.2
  | .destroyContext h => (destroyContext s h).map Prod.snd
  | .createAllocation adapter res infos replies =>
    some (createAllocation s adapter res infos replies).2.2
  | .destroyAllocation hs => (destroyAllocation s hs).map Prod.snd
  | .openAllocation dev hs => (openAllocation s dev hs).map fun r => r.2.2
  | .closeAllocation hs => (closeAllocation s hs).map Prod.snd

def start (cell : ℕ → Object) : State := ⟨⟨∅, cell⟩, [], []⟩

/-- A handle that is not null leads to an object. -/
def Leads (p : Pool Object) (h : Option ℕ) : Prop := ∀ a ∈ h, a ∈ p.live

/-- The pool gives free memory. The graphics kernel names what it was given and has not
destroyed, destroys nothing twice in one call, and closes what was opened. -/
def Promised (s : State) : Call → Prop
  | .createProcess _ _ reply => ∀ a ∈ reply, a ∉ s.pool.live
  | .createDevice _ _ args reply =>
    (∀ a ∈ reply, a ∉ s.pool.live) ∧ ∀ r ∈ args, Leads s.pool r.hKmdProcess
  | .createContext dev _ reply => (∀ a ∈ reply, a ∉ s.pool.live) ∧ Leads s.pool dev
  | .createAllocation _ _ _ replies =>
    (∀ i, ∀ a ∈ replies i, a ∉ s.pool.live) ∧
      ∀ i j, ∀ a ∈ replies i, a ∈ replies j → i = j
  | .destroyProcess h | .destroyDevice h | .destroyContext h => Leads s.pool h
  | .destroyAllocation hs =>
    ∀ l ∈ hs, (∀ h ∈ l, Leads s.pool h) ∧ (l.filterMap id).Nodup
  | .openAllocation dev hs => Leads s.pool dev ∧ ∀ l ∈ hs, ∀ h ∈ l, Leads s.pool h
  | .closeAllocation hs => ∀ l ∈ hs, (l.filterMap id).Subperm s.opens

end WinMali.KmdObjects
