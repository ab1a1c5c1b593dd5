import WinMaliKmd.BoTable
import WinMaliKmd.EscapeBuffer

/-!
# The escape handlers

`WinMaliKmdEscape` and its handlers, as the accesses that they make through the
buffer. An access to a struct counts as one to the whole of it. The tables of the
driver and the hardware are behind a kernel that may give any answer.
-/

set_option autoImplicit false

namespace WinMali.EscapeHandlers
open WinMali.AsSlots WinMali.BoTable WinMali.EscapeBuffer

def escapeMagic : BitVec 32 := 0x73654D57

def abiMajor : BitVec 16 := 1

def escapeHeaderSize : ℕ := 36

def boLabelMax : ℕ := 4096

/-- `sizeof(bo->Label)`. -/
def boLabelBytes : ℕ := 64

def debugLogMax : ℕ := 480

def groupMaxQueues : ℕ := 16

def maximumWaitObjects : ℕ := 64

def syncOpSignal : BitVec 32 := 1 <<< 31

def vmBindOpBytes : ℕ := 40

def queueCreateBytes : ℕ := 8

def queueSubmitBytes : ℕ := 32

def syncOpBytes : ℕ := 16

/-- What a handler asks of the rest of the driver, once. -/
inductive KernelCall
  | boCreate (size : BitVec 64) (flags exclusiveVmId : BitVec 32)
  | boFromAllocation (allocationHandle flags : BitVec 32)
  | boDestroy (handle : BitVec 32)
  | boGet (handle : BitVec 32)
  | boMapCpu (handle prot : BitVec 32)
  | syncObjCreate (flags initialState : BitVec 32)
  | syncObjDestroy (handle : BitVec 32)
  | syncObjSignal (handle : BitVec 32) (point : BitVec 64)
  | vmCreate (flags : BitVec 32) (userVaRange : BitVec 64)
  | vmDestroy (id : BitVec 32)
  | vmGetState (vmId : BitVec 32)
  | groupCreate (vmId queuesCount : BitVec 32)
  | groupDestroy (groupHandle : BitVec 32)
  | groupGetState (groupHandle : BitVec 32)
  | tilerHeapCreate (vmId chunkSize initialChunkCount : BitVec 32)
deriving DecidableEq, Repr

structure VmBindOp where
  flags : BitVec 32
  boHandle : BitVec 32
  boOffset : BitVec 64
  va : BitVec 64
  size : BitVec 64
deriving DecidableEq, Repr

/-- The answers; those within a loop may depend on the turn. -/
structure Kernel where
  adapter : Bool
  call : KernelCall → Errno
  /-- the VM, and whether `PtInitialized` -/
  vm : BitVec 32 → Option Bool
  bo : ℕ → BitVec 32 → Option (BitVec 64)
  pfnArray : ℕ → Bool
  vmMap : ℕ → VmBindOp → NtStatus
  vmUnmap : ℕ → VmBindOp → NtStatus
  /-- the group, and whether it is `FATAL_FAULT` -/
  group : BitVec 32 → Option Bool
  groupAsSlot : ℕ → ℕ
  submitGroupStream : ℕ → NtStatus
  syncSignal : ℕ → ℕ → Errno
  syncWait : ℕ → ℕ → Errno
  /-- the sync object, and whether it is a timeline -/
  syncObj : ℕ → BitVec 32 → Option Bool
  wait : Errno

variable (b : Buffer) (k : Kernel)

abbrev Outcome := Errno × List Access

/-- A handler begins with its argument struct. -/
def withArgs (size : ℕ) (body : ℕ → Outcome) : Outcome :=
  match escapeAt b (ulong escapeHeaderSize) (ulong size) with
  | none => (.einval, [])
  | some args => ((body args).1, ⟨args, size⟩ :: (body args).2)

def escapeOpenDevice : Outcome :=
  withArgs b 48 fun args => (if b.u16 args ≠ abiMajor then .einval else .ok, [])

/-- The four query types differ in the size of their info struct. -/
def devQueryInfo (args infoSize : ℕ) : Outcome :=
  if b.u64 (args + 8) > 0xFFFFFFFF then (.einval, [])
  else if b.u32 (args + 4) = 0 then (.ok, [])
  else if (b.u32 (args + 4)).toNat < infoSize then (.einval, [])
  else
    match escapeAt b ((b.u64 (args + 8)).setWidth 32) (ulong infoSize) with
    | none => (.einval, [])
    | some dst => (.ok, [⟨dst, infoSize⟩])

def escapeDevQuery : Outcome :=
  withArgs b 16 fun args =>
    match (b.u32 args).toNat with
    | 0 => devQueryInfo b args 184
    | 1 => devQueryInfo b args 24
    | 2 => devQueryInfo b args 24
    | 3 => devQueryInfo b args 4
    | _ => (.einval, [])

def escapeBoCreate : Outcome :=
  withArgs b 24 fun args =>
    (k.call (.boCreate (b.u64 args) (b.u32 (args + 8)) (b.u32 (args + 12))), [])

def escapeBoFromAllocation : Outcome :=
  withArgs b 40 fun args =>
    (if b.u32 args = 0 then .einval
      else k.call (.boFromAllocation (b.u32 args) (b.u32 (args + 4))), [])

def escapeBoDestroy : Outcome :=
  withArgs b 8 fun args => (k.call (.boDestroy (b.u32 args)), [])

def escapeBoQueryInfo : Outcome := withArgs b 24 fun args => (k.call (.boGet (b.u32 args)), [])

/-- `WinMaliBoSetLabel` copies no more than fits its label. -/
def escapeBoSetLabel : Outcome :=
  withArgs b 16 fun args =>
    let labelLen := (b.u32 (args + 4)).toNat
    if labelLen > boLabelMax then (.einval, [])
    else
      match escapeAt b (b.u32 (args + 8)) (ulong labelLen) with
      | none => (.einval, [])
      | some label =>
        let st := k.call (.boGet (b.u32 args))
        let copy := min labelLen (boLabelBytes - 1)
        (st, if st = .ok ∧ 0 < copy then [⟨label, copy⟩] else [])

def escapeBoMapCpu : Outcome :=
  withArgs b 16 fun args => (k.call (.boMapCpu (b.u32 args) (b.u32 (args + 4))), [])

def escapeDebugLog : Outcome :=
  withArgs b 8 fun args =>
    let len := min (b.u32 args).toNat debugLogMax
    match escapeAt b (b.u32 (args + 4)) (ulong len) with
    | none => (.einval, [])
    | some text => (.ok, if 0 < len then [⟨text, len⟩] else [])

def escapeSyncObjCreate : Outcome :=
  withArgs b 16 fun args => (k.call (.syncObjCreate (b.u32 args) (b.u32 (args + 4))), [])

def escapeSyncObjDestroy : Outcome :=
  withArgs b 8 fun args => (k.call (.syncObjDestroy (b.u32 args)), [])

def escapeSyncObjSignal : Outcome :=
  withArgs b 16 fun args => (k.call (.syncObjSignal (b.u32 args) (b.u64 (args + 8))), [])

def escapeVmCreate : Outcome :=
  withArgs b 16 fun args => (k.call (.vmCreate (b.u32 args) (b.u64 (args + 8))), [])

def escapeVmDestroy : Outcome :=
  withArgs b 8 fun args => (k.call (.vmDestroy (b.u32 args)), [])

def escapeVmGetState : Outcome :=
  withArgs b 8 fun args => (k.call (.vmGetState (b.u32 args)), [])

def vmBindOpAt (o : ℕ) : VmBindOp where
  flags := b.u32 o
  boHandle := b.u32 (o + 4)
  boOffset := b.u64 (o + 8)
  va := b.u64 (o + 16)
  size := b.u64 (o + 24)

def vmBindOp (i : ℕ) (op : VmBindOp) : Errno :=
  let opType := op.flags &&& bindOpTypeMask
  if opType = bindOpTypeMap then
    match k.bo i op.boHandle with
    | none => .enoent
    | some boSize =>
      if op.boOffset ≠ 0 ∨ op.size > boSize then .einval
      else if !k.pfnArray i then .einval
      else if !(k.vmMap i op).ok then
        if k.vmMap i op = .insufficientResources then .enomem else .einval
      else .ok
  else if opType = bindOpTypeUnmap then
    if !(k.vmUnmap i op).ok then .einval else .ok
  else if opType = bindOpTypeSyncOnly then .ok
  else .einval

def vmBindLoop (ops : ℕ) : ℕ → ℕ → Outcome
  | _, 0 => (.ok, [])
  | i, left + 1 =>
    let o := ops + vmBindOpBytes * i
    let err := vmBindOp k i (vmBindOpAt b o)
    let rest := if err = .ok then vmBindLoop ops (i + 1) left else (err, [])
    (rest.1, ⟨o, vmBindOpBytes⟩ :: rest.2)

def escapeVmBind : Outcome :=
  withArgs b 16 fun args =>
    let opsCount := b.u32 (args + 8)
    if opsCount = 0 then (.ok, [])
    else
      match escapeAt b (b.u32 (args + 12)) (ulong (opsCount.toNat * vmBindOpBytes)) with
      | none => (.einval, [])
      | some ops =>
        match k.vm (b.u32 args) with
        | none => (.enoent, [])
        | some ptInitialized =>
          if !ptInitialized then (.einval, []) else vmBindLoop b k ops 0 opsCount.toNat

def escapeGroupCreate : Outcome :=
  withArgs b 48 fun args =>
    let queuesCount := b.u32 args
    if queuesCount = 0 ∨ queuesCount.toNat > groupMaxQueues then (.einval, [])
    else
      match escapeAt b (b.u32 (args + 4)) (ulong (queuesCount.toNat * queueCreateBytes)) with
      | none => (.einval, [])
      | some queues =>
        if b.u32 (args + 40) = 0 then (.einval, [])
        else
          let st := k.call (.groupCreate (b.u32 (args + 40)) queuesCount)
          (st, if st = .ok then [⟨queues, queuesCount.toNat * queueCreateBytes⟩] else [])

def escapeGroupDestroy : Outcome :=
  withArgs b 8 fun args => (k.call (.groupDestroy (b.u32 args)), [])

def escapeGroupGetState : Outcome :=
  withArgs b 16 fun args => (k.call (.groupGetState (b.u32 args)), [])

/-- `reply` answers the signals, or the waits, of one queue submit. -/
def escapeProcessSyncOps (reply : ℕ → Errno) (ops : ℕ) (isSignal : Bool) :
    ℕ → ℕ → Errno → Outcome
  | _, 0, err => (err, [])
  | i, left + 1, err =>
    let o := ops + syncOpBytes * i
    let opIsSignal := b.u32 o &&& syncOpSignal != 0
    let rest :=
      if opIsSignal != isSignal then escapeProcessSyncOps reply ops isSignal (i + 1) left err
      else if isSignal then
        escapeProcessSyncOps reply ops isSignal (i + 1) left
          (if reply i ≠ .ok ∧ err = .ok then reply i else err)
      else if reply i ≠ .ok then (reply i, [])
      else escapeProcessSyncOps reply ops isSignal (i + 1) left err
    (rest.1, ⟨o, syncOpBytes⟩ :: rest.2)

structure QueueSubmit where
  streamSize : BitVec 32
  streamAddr : BitVec 64
  syncsCount : BitVec 32
  syncsOffset : BitVec 32
deriving DecidableEq, Repr

def queueSubmitAt (o : ℕ) : QueueSubmit where
  streamSize := b.u32 (o + 4)
  streamAddr := b.u64 (o + 8)
  syncsCount := b.u32 (o + 16)
  syncsOffset := b.u32 (o + 20)

/-- The check of a submit's sync array. An empty one is not looked at. -/
def syncsRefused (qs : QueueSubmit) : Bool :=
  qs.syncsCount != 0 &&
    !escapeRangeOk b qs.syncsOffset (ulong (qs.syncsCount.toNat * syncOpBytes))

def syncPass (qs : QueueSubmit) (reply : ℕ → Errno) (isSignal : Bool) (err : Errno) : Outcome :=
  if qs.syncsCount = 0 then (err, [])
  else escapeProcessSyncOps b reply qs.syncsOffset.toNat isSignal 0 qs.syncsCount.toNat .ok

/-- One turn of the loop: whether it goes on, the error so far, and the accesses. -/
def queueSubmit (i : ℕ) (qs : QueueSubmit) (err : Errno) : Bool × Errno × List Access :=
  if syncsRefused b qs then (false, .einval, [])
  else
    let waited := syncPass b qs (k.syncWait i) false err
    if qs.syncsCount ≠ 0 ∧ waited.1 ≠ .ok then (false, waited)
    else if k.groupAsSlot i ≥ asSlotMax ∨ qs.streamAddr = 0 ∨ qs.streamSize = 0 then
      (false, .einval, waited.2)
    else if !(k.submitGroupStream i).ok then
      (false, if k.submitGroupStream i = .deviceNotReady then .einval else .eio, waited.2)
    else
      let signalled := syncPass b qs (k.syncSignal i) true .ok
      (true, if signalled.1 ≠ .ok ∧ waited.1 = .ok then signalled.1 else waited.1,
        waited.2 ++ signalled.2)

def submitLoop (submits : ℕ) : ℕ → ℕ → Errno → Outcome
  | _, 0, err => (err, [])
  | i, left + 1, err =>
    let o := submits + queueSubmitBytes * i
    let turn := queueSubmit b k i (queueSubmitAt b o) err
    let rest := if turn.1 then submitLoop submits (i + 1) left turn.2.1 else (turn.2.1, [])
    (rest.1, ⟨o, queueSubmitBytes⟩ :: turn.2.2 ++ rest.2)

def escapeGroupSubmit : Outcome :=
  withArgs b 24 fun args =>
    let queueSubmitsCount := b.u32 (args + 4)
    if queueSubmitsCount = 0 then (.ok, [])
    else
      match escapeAt b (b.u32 (args + 8))
        (ulong (queueSubmitsCount.toNat * queueSubmitBytes)) with
      | none => (.einval, [])
      | some submits =>
        match k.group (b.u32 args) with
        | none => (.enoent, [])
        | some fatal =>
          if fatal then (.einval, []) else submitLoop b k submits 0 queueSubmitsCount.toNat .ok

/-- The loop of `WinMaliSyncObjWait` over two handles or more. -/
def waitHandles (handles : ℕ) : ℕ → ℕ → Outcome
  | _, 0 => (k.wait, [])
  | i, left + 1 =>
    let o := handles + 4 * i
    let rest : Outcome :=
      match k.syncObj i (b.u32 o) with
      | none => (.enoent, [])
      | some isTimeline => if isTimeline then (.einval, []) else waitHandles handles (i + 1) left
    (rest.1, ⟨o, 4⟩ :: rest.2)

def syncObjWait (count handles : ℕ) (points : Option ℕ) : Outcome :=
  if count = 1 then
    match k.syncObj 0 (b.u32 handles) with
    | none => (.enoent, [⟨handles, 4⟩])
    | some isTimeline =>
      (k.wait, ⟨handles, 4⟩ :: if isTimeline then points.toList.map fun p => ⟨p, 8⟩ else [])
  else if count > maximumWaitObjects then (.einval, [])
  else waitHandles b k handles 0 count

def escapeSyncObjWait : Outcome :=
  withArgs b 24 fun args =>
    let count := b.u32 (args + 4)
    let pointsOffset := b.u32 (args + 12)
    if count = 0 then (.einval, [])
    else
      match escapeAt b (b.u32 (args + 8)) (ulong (count.toNat * 4)) with
      | none => (.einval, [])
      | some handles =>
        if pointsOffset = 0 then syncObjWait b k count.toNat handles none
        else
          match escapeAt b pointsOffset (ulong (count.toNat * 8)) with
          | none => (.einval, [])
          | some points => syncObjWait b k count.toNat handles (some points)

def escapeTilerHeapCreate : Outcome :=
  withArgs b 40 fun args =>
    (if b.u32 args = 0 ∨ b.u32 (args + 8) = 0 then .einval
      else k.call (.tilerHeapCreate (b.u32 args) (b.u32 (args + 4)) (b.u32 (args + 8))), [])

def escapeTilerHeapDestroy : Outcome := withArgs b 8 fun _ => (.ok, [])

def escapeBoMmapOffset : Outcome := withArgs b 16 fun args => (k.call (.boGet (b.u32 args)), [])

def escapeGetFlushId : Outcome := withArgs b 8 fun _ => (.ok, [])

def opVmBind : ℕ := 3

def opGroupSubmit : ℕ := 9

/-- The switch on `hdr->Op`. `BoSync` and `PresentToHdc` have no arguments that are read. -/
def dispatch (op : ℕ) : Outcome :=
  match op with
  | 0x80 => escapeOpenDevice b
  | 0 => escapeDevQuery b
  | 5 => escapeBoCreate b k
  | 14 => escapeBoDestroy b k
  | 16 => escapeBoQueryInfo b k
  | 13 => escapeBoSetLabel b k
  | 0x86 => escapeBoMapCpu b k
  | 0x8F => escapeDebugLog b
  | 0x82 => escapeSyncObjCreate b k
  | 0x83 => escapeSyncObjDestroy b k
  | 0x91 => escapeSyncObjSignal b k
  | 0x84 => escapeSyncObjWait b k
  | 1 => escapeVmCreate b k
  | 2 => escapeVmDestroy b k
  | 4 => escapeVmGetState b k
  | 3 => escapeVmBind b k
  | 7 => escapeGroupCreate b k
  | 8 => escapeGroupDestroy b k
  | 10 => escapeGroupGetState b k
  | 9 => escapeGroupSubmit b k
  | 11 => escapeTilerHeapCreate b k
  | 12 => escapeTilerHeapDestroy b
  | 6 => escapeBoMmapOffset b k
  | 15 => (.ok, [])
  | 0x85 => escapeGetFlushId b
  | 0x81 => escapeBoFromAllocation b k
  | _ => (.eopnotsupp, [])

/-- What the header has to say for the switch to be reached. -/
structure Accepted : Prop where
  size : escapeHeaderSize ≤ b.privateDriverDataSize.toNat
  magic : b.u32 0 = escapeMagic
  abi : b.u16 4 = abiMajor
  payload : (b.u32 12).toNat ≤ b.privateDriverDataSize.toNat

/-- The status, what goes into `hdr->Status`, and the accesses. -/
def kmdEscape : NtStatus × Option Errno × List Access :=
  let header : Access := ⟨0, escapeHeaderSize⟩
  if b.privateDriverDataSize.toNat < escapeHeaderSize then (.invalidParameter, none, [])
  else if !k.adapter then (.invalidHandle, none, [])
  else if b.u32 0 ≠ escapeMagic then (.invalidParameter, none, [header])
  else if b.u16 4 ≠ abiMajor then (.success, some .einval, [header])
  else if (b.u32 12).toNat > b.privateDriverDataSize.toNat then
    (.success, some .einval, [header])
  else
    let out := dispatch b k (b.u32 8).toNat
    (.success, some out.1, header :: out.2)

end WinMali.EscapeHandlers
