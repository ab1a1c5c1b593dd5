import WinMaliKmd.VmTable

/-!
# Buffer objects and what maps them

`WinMaliBo.c` with the escape handlers that put the pages of a BO into a VM:
`VmBind` and the tiler heap. The memory manager answers each allocation; the
current process is part of a call, since `BoFree_` looks at it.
-/

set_option autoImplicit false

namespace WinMali.BoTable
open WinMali.AsSlots WinMali.Lpae WinMali.VmPageTable WinMali.VmTable

inductive Errno
  | ok
  | einval
  | enomem
  | enoent
  | ebusy
  | eio
  | eagain
  | eopnotsupp
  | etimedout
deriving DecidableEq, Repr

/-- A view of the frames of an MDL in the address space of a process. -/
structure UserMapping where
  process : ℕ
  va : Word
  pfns : List Word
deriving DecidableEq, Repr

structure Bo where
  handle : ℕ
  size : Word
  flags : BitVec 32
  exclusiveVmId : ℕ
  pfns : List Word
  pagesImported : Bool
  userVa : Option (ℕ × Word)
  ownerDevice : Option ℕ
deriving DecidableEq, Repr

/-- `freed` holds what the running call gave to `MmFreePagesFromMdl`. -/
structure Device where
  adapter : Adapter
  vmTable : Table
  bos : List Bo
  nextHandle : ℕ
  userMappings : List UserMapping
  freed : List Word

structure BoReply where
  pool : Bool
  mdl : Option (List Word)

/-- Frames that no BO has. An MDL describes at least one. -/
def Fresh (d : Device) (pfns : List Word) : Prop :=
  pfns ≠ [] ∧ (∀ f ∈ pfns, f.toNat < 2 ^ 36) ∧ ∀ bo ∈ d.bos, ∀ f ∈ bo.pfns, f ∉ pfns

/-- Without it the search would run over all words. -/
instance (priority := 2000) decidableFrames (pfns : List Word) (p : Word → Prop)
    [DecidablePred p] : Decidable (∀ f ∈ pfns, p f) := List.decidableBAll p pfns

instance (d : Device) (pfns : List Word) : Decidable (Fresh d pfns) :=
  inferInstanceAs (Decidable (_ ∧ _))

/-- The memory manager hands out free frames, so a list that is not fresh is no answer. -/
def mmAllocatePages (d : Device) (reply : Option (List Word)) : Option (List Word) :=
  reply.filter fun pfns => decide (Fresh d pfns)

def mdlByteCount (pfns : List Word) : ℕ := pfns.length * 4096 % 2 ^ 32

def boCreate (d : Device) (size : Word) (flags : BitVec 32) (exclusiveVmId : ℕ)
    (ownerDevice : Option ℕ) (r : BoReply) : Errno × ℕ × Device :=
  if size = 0 then (.einval, 0, d)
  else if !r.pool then (.enomem, 0, d)
  else
    let pageAligned := (size + 4095) &&& ~~~4095
    match mmAllocatePages d r.mdl with
    | none => (.enomem, 0, d)
    | some pfns =>
      if mdlByteCount pfns < pageAligned.toNat then
        (.enomem, 0, { d with freed := d.freed ++ pfns })
      else
        let bo : Bo :=
          { handle := d.nextHandle % 2 ^ 32
            size := pageAligned
            flags := flags
            exclusiveVmId := exclusiveVmId
            pfns := pfns
            pagesImported := false
            userVa := none
            ownerDevice := ownerDevice }
        (.ok, bo.handle, { d with bos := d.bos ++ [bo], nextHandle := d.nextHandle + 1 })

structure ImportReply where
  boPool : Bool
  mdlPool : Bool

/-- A BO over frames that VidMm owns. -/
def boCreateFromPfns (d : Device) (pfns : Option (List Word)) (flags : BitVec 32)
    (ownerDevice : Option ℕ) (r : ImportReply) : Errno × ℕ × Device :=
  match pfns with
  | none => (.einval, 0, d)
  | some pfns =>
    if pfns.length = 0 then (.einval, 0, d)
    else if !r.boPool then (.enomem, 0, d)
    else if !r.mdlPool then (.enomem, 0, d)
    else
      let bo : Bo :=
        { handle := d.nextHandle % 2 ^ 32
          size := BitVec.ofNat 64 pfns.length <<< 12
          flags := flags
          exclusiveVmId := 0
          pfns := pfns
          pagesImported := true
          userVa := none
          ownerDevice := ownerDevice }
      (.ok, bo.handle, { d with bos := d.bos ++ [bo], nextHandle := d.nextHandle + 1 })

def boGet (d : Device) (handle : ℕ) : Option Bo := d.bos.find? fun bo => bo.handle == handle

def Bo.mapping (bo : Bo) : Option UserMapping := bo.userVa.map fun u => ⟨u.1, u.2, bo.pfns⟩

/-- The BO has left the table. A mapping of another process is left behind. -/
def boFree (proc : ℕ) (d : Device) (bo : Bo) : Device :=
  { d with
    userMappings := match bo.mapping with
      | some m => if proc = m.process then d.userMappings.filter (· ≠ m) else d.userMappings
      | none => d.userMappings
    freed := if bo.pagesImported then d.freed else d.freed ++ bo.pfns }

def boTakeByHandle (d : Device) (handle : ℕ) : Option (Bo × Device) :=
  (boGet d handle).map fun bo => (bo, { d with bos := d.bos.eraseP fun bo => bo.handle == handle })

def boDestroy (d : Device) (proc handle : ℕ) : Errno × Device :=
  match boTakeByHandle d handle with
  | none => (.enoent, d)
  | some (bo, d) => (.ok, boFree proc d bo)

def boRundownOwner (d : Device) (proc : ℕ) (ownerDevice : Option ℕ) : ℕ × Device :=
  if ownerDevice = none then (0, d)
  else
    let taken := d.bos.filter fun bo => bo.ownerDevice = ownerDevice
    let rest := d.bos.filter fun bo => ¬bo.ownerDevice = ownerDevice
    (taken.length, taken.foldl (boFree proc) { d with bos := rest })

/-- `reply` is where the memory manager puts the mapping. -/
def boMapCpu (d : Device) (proc handle : ℕ) (reply : Option Word) : Errno × Word × Device :=
  match boGet d handle with
  | none => (.enoent, 0, d)
  | some bo =>
    match bo.userVa with
    | some (p, va) => if p = proc then (.ok, va, d) else (.ebusy, 0, d)
    | none =>
      match reply with
      | none => (.enomem, 0, d)
      | some va =>
        (.ok, va, { d with
          bos := d.bos.set (d.bos.findIdx fun bo => bo.handle == handle)
            { bo with userVa := some (proc, va) }
          userMappings := d.userMappings ++ [⟨proc, va, bo.pfns⟩] })

def vmGet (tab : Table) (id : ℕ) : Option Vm := tab.vms.find? fun vm => vm.id == id

/-- A call works on the VM that `vmGet` found. -/
def Device.putVm (d : Device) (id : ℕ) (vm : Vm) : Device :=
  { d with
    vmTable := { d.vmTable with
      vms := d.vmTable.vms.set (d.vmTable.vms.findIdx fun vm => vm.id == id) vm } }

structure BindOp where
  flags : BitVec 32
  boHandle : ℕ
  boOffset : Word
  va : Word
  size : Word

def bindOpMapReadonly : BitVec 32 := 1 <<< 0

def bindOpMapNoexec : BitVec 32 := 1 <<< 1

def bindOpTypeMask : BitVec 32 := 0xf <<< 28

def bindOpTypeMap : BitVec 32 := 0 <<< 28

def bindOpTypeUnmap : BitVec 32 := 1 <<< 28

def bindOpTypeSyncOnly : BitVec 32 := 2 <<< 28

def bindAttrs (flags : BitVec 32) : Word :=
  if flags &&& bindOpMapReadonly ≠ 0 then
    if flags &&& bindOpMapNoexec ≠ 0 then pageAttrRoNx else pageAttrRoEx
  else if flags &&& bindOpMapNoexec ≠ 0 then pageAttrRwNx
  else pageAttrRwEx

def pageCount (size : Word) : ℕ := ((size + 4095) >>> 12).toNat % 2 ^ 32

def pfnAt (pfns : List Word) (k : ℕ) : Word := pfns.getD k 0

/-- A VM of the table always has its page table; the tables of BOs and of VMs stay as they are. -/
def vmBindOp (d : Device) (supply : ℕ → PtReply) (op : BindOp) (pt : VmPt) : Errno × VmPt :=
  let opType := op.flags &&& bindOpTypeMask
  if opType = bindOpTypeMap then
    match boGet d op.boHandle with
    | none => (.enoent, pt)
    | some bo =>
      if op.boOffset ≠ 0 ∨ op.size > bo.size then (.einval, pt)
      else
        let (st, pt) := vmMap supply (some d.adapter) pt op.va (some (pfnAt bo.pfns))
          (pageCount op.size) (bindAttrs op.flags)
        (if st.ok then .ok else if st = .insufficientResources then .enomem else .einval, pt)
  else if opType = bindOpTypeUnmap then
    let (st, pt) := vmUnmap supply (some d.adapter) pt op.va (pageCount op.size)
    (if st.ok then .ok else .einval, pt)
  else if opType = bindOpTypeSyncOnly then (.ok, pt)
  else (.einval, pt)

def vmBindOps (d : Device) (supply : ℕ → PtReply) : List BindOp → VmPt → Errno × VmPt
  | [], pt => (.ok, pt)
  | op::ops, pt =>
    match vmBindOp d supply op pt with
    | (.ok, pt) => vmBindOps d supply ops pt
    | (err, pt) => (err, pt)

/-- What each operation of a batch keeps, the batch keeps. -/
theorem vmBindOps_induct {d : Device} {supply : ℕ → PtReply} {P : VmPt → Prop}
    {ops : List BindOp} {pt : VmPt} (h : P pt)
    (hop : ∀ op ∈ ops, ∀ pt, P pt → P (vmBindOp d supply op pt).2) :
    P (vmBindOps d supply ops pt).2 := by
  induction ops generalizing pt with
  | nil => exact h
  | cons op ops ih =>
    have hfirst := hop op (List.mem_cons_self ..) pt h
    simp only [vmBindOps]
    split <;> rename_i heq <;> rw [heq] at hfirst
    · exact ih hfirst fun o ho => hop o (List.mem_cons_of_mem _ ho)
    · exact hfirst

def vmBind (d : Device) (vmId : ℕ) (ops : List BindOp) : Errno × Device :=
  if ops = [] then (.ok, d)
  else
    match vmGet d.vmTable vmId with
    | none => (.enoent, d)
    | some vm =>
      let (err, pt) := vmBindOps d vm.supply ops vm.pt
      (err, d.putVm vmId { vm with pt := pt })

structure HeapReply where
  bo : BoReply
  kva : Bool

/-- The page counts of a block, as the code computes it from the BO it finds. -/
def heapPages (bo : Bo) : ℕ := bo.size.toNat / 4096 % 2 ^ 32

/-- The VM is in the caller's hands. What is written into the block is left out. -/
def heapAllocMapped (d : Device) (vm : Vm) (proc : ℕ) (ownerDevice : Option ℕ) (size : ℕ)
    (gpuVa : Word) (r : HeapReply) : NtStatus × ℕ × Device × Vm :=
  if size % 4096 ≠ 0 ∨ size = 0 then (.invalidParameter, 0, d, vm)
  else
    let (err, handle, d) := boCreate d (BitVec.ofNat 64 size) 0 0 ownerDevice r.bo
    if err ≠ .ok then (.insufficientResources, 0, d, vm)
    else
      match boGet d handle with
      | none => (.unsuccessful, 0, (boDestroy d proc handle).2, vm)
      | some bo =>
        let (st, pt) := vmMap vm.supply (some d.adapter) vm.pt gpuVa (some (pfnAt bo.pfns))
          (heapPages bo) pageAttrRwNx
        if !st.ok then (st, 0, (boDestroy d proc handle).2, { vm with pt := pt })
        else if !r.kva then
          (.insufficientResources, 0, (boDestroy d proc handle).2,
            { vm with pt := (vmUnmap vm.supply (some d.adapter) pt gpuVa (heapPages bo)).2 })
        else (.success, handle, d, { vm with pt := pt })

/-- `k` counts the chunks that are done; the result holds the newest chunk's address. -/
def tilerChunks (proc : ℕ) (ownerDevice : Option ℕ) (chunkSize : ℕ) (r : ℕ → HeapReply) :
    ℕ → ℕ → Device → Vm → Word → NtStatus × Word × Device × Vm
  | _, 0, d, vm, first => (.success, first, d, vm)
  | k, left + 1, d, vm, _ =>
    let va := vm.kmdVaNext
    let (st, _, d, vm) := heapAllocMapped d vm proc ownerDevice chunkSize va (r k)
    if !st.ok then (st, 0, d, vm)
    else
      tilerChunks proc ownerDevice chunkSize r (k + 1) left d
        { vm with kmdVaNext := va + BitVec.ofNat 64 chunkSize } va

/-- `r 0` answers the context page, `r (k + 1)` chunk `k`. -/
def tilerHeapCreateReal (d : Device) (proc : ℕ) (ownerDevice : Option ℕ)
    (vmId chunkSize initialChunkCount : ℕ) (r : ℕ → HeapReply) :
    NtStatus × Word × Word × Device :=
  if chunkSize % 4096 ≠ 0 ∨ chunkSize < 0x1000 ∨ chunkSize > 0x200000 then
    (.invalidParameter, 0, 0, d)
  else if initialChunkCount = 0 then (.invalidParameter, 0, 0, d)
  else
    match vmGet d.vmTable vmId with
    | none => (.invalidParameter, 0, 0, d)
    | some vm =>
      let ctxVa := vm.kmdVaNext
      let (st, _, d, vm) := heapAllocMapped d vm proc ownerDevice 4096 ctxVa (r 0)
      if !st.ok then (st, 0, 0, d.putVm vmId vm)
      else
        let (st, firstChunkVa, d, vm) :=
          tilerChunks proc ownerDevice chunkSize (fun k => r (k + 1)) 0 (min initialChunkCount 16)
            d { vm with kmdVaNext := vm.kmdVaNext + 4096 } 0
        if !st.ok then (st, 0, 0, d.putVm vmId vm)
        else (.success, ctxVa, firstChunkVa, d.putVm vmId vm)

def tilerHeapCreate (d : Device) (proc : ℕ) (ownerDevice : Option ℕ)
    (vmId chunkSize initialChunkCount : ℕ) (r : ℕ → HeapReply) : Errno × Device :=
  if vmId = 0 ∨ initialChunkCount = 0 then (.einval, d)
  else
    match tilerHeapCreateReal d proc ownerDevice vmId chunkSize initialChunkCount r with
    | (.success, _, _, d) => (.ok, d)
    | (.insufficientResources, _, _, d) => (.enomem, d)
    | (_, _, _, d) => (.einval, d)

inductive Op
  | boCreate (size : Word) (flags : BitVec 32) (exclusiveVmId : ℕ) (ownerDevice : Option ℕ)
    (r : BoReply)
  | boMapCpu (proc handle : ℕ) (reply : Option Word)
  | boDestroy (proc handle : ℕ)
  | boRundownOwner (proc : ℕ) (ownerDevice : Option ℕ)
  | vmCreate (r : VmRequest)
  | vmBind (vmId : ℕ) (ops : List BindOp)
  | vmDestroy (vmId : ℕ)
  | tilerHeapCreate (proc : ℕ) (ownerDevice : Option ℕ) (vmId chunkSize initialChunkCount : ℕ)
    (r : ℕ → HeapReply)

def Device.withVms (d : Device) (r : Adapter × Table) : Device :=
  { d with adapter := r.1, vmTable := r.2 }

def Op.apply (d : Device) : Op → Device
  | .boCreate size flags vmId owner r => (BoTable.boCreate d size flags vmId owner r).2.2
  | .boMapCpu proc handle reply => (BoTable.boMapCpu d proc handle reply).2.2
  | .boDestroy proc handle => (BoTable.boDestroy d proc handle).2
  | .boRundownOwner proc owner => (BoTable.boRundownOwner d proc owner).2
  | .vmCreate r => d.withVms (VmTable.vmCreate d.adapter d.vmTable r).2
  | .vmBind vmId ops => (BoTable.vmBind d vmId ops).2
  | .vmDestroy vmId => d.withVms (VmTable.vmDestroy d.adapter d.vmTable vmId)
  | .tilerHeapCreate proc owner vmId chunkSize count r =>
    (BoTable.tilerHeapCreate d proc owner vmId chunkSize count r).2

def step (d : Device) (op : Op) : Option Device := some (op.apply { d with freed := [] })

def started (a : Adapter) : Device := ⟨initAsAllocator a, ⟨[], 1⟩, [], 1, [], []⟩

end WinMali.BoTable
