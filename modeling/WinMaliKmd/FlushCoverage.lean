import WinMaliKmd.ReservedWindows

/-!
# Cache maintenance around a stream

The GPU is not coherent, so a group submit flushes BOs before and after the
stream. Which BOs it flushes is read off the tag that `BoCreate` gave them; which
BOs the stream can reach is decided by `VmBind`, which does not read the tag.
-/

set_option autoImplicit false

namespace WinMali.FlushCoverage
open WinMali.AsSlots WinMali.Lpae WinMali.VmPageTable WinMali.VmTable WinMali.VmLeafWrites
  WinMali.BoTable WinMali.PageBooks WinMali.PageBinding WinMali.DeviceTables
  WinMali.ReservedWindows WinMali.Runs
open WinMali.VmPageTableMap (Honest Good vmInit_good vmInit_trace eightPages eightPages_honest)

structure Group where
  handle : ℕ
  vmId : ℕ
  stateFlags : BitVec 32
  fatalQueueMask : BitVec 32

structure State where
  device : Device
  groups : List Group
  nextGroup : ℕ

def groupMaxQueues : ℕ := 16

def groupStateFatalFault : BitVec 32 := 1 <<< 1

/-- Frames of a dxgk allocation, counted by a `ULONG`. A frame that a BO allocated for
itself is in none. -/
def Foreign (d : Device) (pfns : List Word) : Prop :=
  pfns.length < 2 ^ 32 ∧ (∀ f ∈ pfns, f.toNat < 2 ^ 36) ∧
    ∀ bo ∈ d.bos, bo.pagesImported = false → ∀ f ∈ bo.pfns, f ∉ pfns

instance (d : Device) (pfns : List Word) : Decidable (Foreign d pfns) :=
  inferInstanceAs (Decidable (_ ∧ _))

/-- `BoFromAllocation` passes the frames of such an allocation only. -/
def importedPfns (d : Device) (reply : Option (List Word)) : Option (List Word) :=
  reply.filter fun pfns => decide (Foreign d pfns)

def groupCreate (s : State) (vmId queueCount : ℕ) (pool : Bool) : Errno × ℕ × State :=
  if queueCount = 0 ∨ queueCount > groupMaxQueues then (.einval, 0, s)
  else if vmId = 0 then (.einval, 0, s)
  else if !pool then (.enomem, 0, s)
  else
    let group : Group := ⟨s.nextGroup % 2 ^ 32, vmId, 0, 0⟩
    (.ok, group.handle, { s with groups := s.groups ++ [group], nextGroup := s.nextGroup + 1 })

def groupFind (s : State) (handle : ℕ) : Option Group :=
  s.groups.find? fun g => g.handle == handle

def groupMarkFatalQueue (s : State) (handle queueIndex : ℕ) : State :=
  match groupFind s handle with
  | none => s
  | some g => { s with
    groups := s.groups.set (s.groups.findIdx fun g => g.handle == handle)
      { g with fatalQueueMask := g.fatalQueueMask ||| 1 <<< (queueIndex % 32) } }

/-- The BOs that go to `KeFlushIoBuffers`, with its `ReadOperation`. -/
def boFlushVm (d : Device) (vmId : ℕ) (clean : Bool) : List (Bo × Bool) :=
  (d.bos.filter fun bo => bo.exclusiveVmId = vmId ∨ bo.exclusiveVmId = 0).map fun bo => (bo, !clean)

/-- `reply` is what the sync object answers to a wait or a signal. -/
structure SyncOp where
  signal : Bool
  reply : Errno

/-- The first answer that is not a success; waits stop there and signals go on. -/
def processSyncOps (ops : List SyncOp) (isSignal : Bool) : Errno :=
  ((ops.filter fun op => op.signal = isSignal).find? fun op => op.reply ≠ .ok).elim .ok (·.reply)

/-- `syncs` is `none` for an array that is not in the buffer. -/
structure QueueSubmit where
  queueIndex : ℕ
  streamSize : ℕ
  streamAddr : Word
  syncs : Option (List SyncOp)

/-- A stream that ran, with what was flushed before it and after it. -/
structure StreamRun where
  vmId : ℕ
  before : List (Bo × Bool)
  after : List (Bo × Bool)

/-- `csf i` is the status of stream `i`. -/
def submitLoop (handle : ℕ) (csf : ℕ → NtStatus) :
    ℕ → Errno → List QueueSubmit → State → Errno × List StreamRun × State
  | _, err, [], s => (err, [], s)
  | i, err, qs::rest, s =>
    match qs.syncs with
    | none => (.einval, [], s)
    | some syncs =>
      let err := if syncs = [] then err else processSyncOps syncs false
      if syncs ≠ [] ∧ err ≠ .ok then (err, [], s)
      else
        let vmId := ((groupFind s handle).map Group.vmId).getD 0
        let asSlot := (((groupFind s handle).map Group.vmId).bind
          (vmGet s.device.vmTable)).elim asSlotMax fun vm => vm.pt.asSlot
        if asSlot ≥ asSlotMax ∨ qs.streamAddr = 0 ∨ qs.streamSize = 0 then (.einval, [], s)
        else
          let run : StreamRun := ⟨vmId, boFlushVm s.device vmId true, boFlushVm s.device vmId false⟩
          if !(csf i).ok then
            (if csf i = .deviceNotReady then .einval else .eio, [run],
              groupMarkFatalQueue s handle qs.queueIndex)
          else
            let e := if syncs = [] then .ok else processSyncOps syncs true
            let (err, runs, s) := submitLoop handle csf (i + 1)
              (if e ≠ .ok ∧ err = .ok then e else err) rest s
            (err, run::runs, s)

/-- `submits` is `none` for an array that is not in the buffer. -/
def groupSubmit (s : State) (handle : ℕ) (submits : Option (List QueueSubmit))
    (csf : ℕ → NtStatus) : Errno × List StreamRun × State :=
  match submits with
  | some [] => (.ok, [], s)
  | none => (.einval, [], s)
  | some submits =>
    match groupFind s handle with
    | none => (.enoent, [], s)
    | some g =>
      if g.stateFlags &&& groupStateFatalFault ≠ 0 then (.einval, [], s)
      else submitLoop handle csf 0 .ok submits s

inductive Call
  | boCreate (size : Word) (flags : BitVec 32) (exclusiveVmId : ℕ) (ownerDevice : Option ℕ)
    (r : BoReply)
  | boCreateFromPfns (reply : Option (List Word)) (flags : BitVec 32) (ownerDevice : Option ℕ)
    (r : ImportReply)
  | vmCreate (r : VmRequest)
  | vmDestroy (vmId : ℕ)
  | vmBind (vmId : ℕ) (ops : List BindOp)
  | groupCreate (vmId queueCount : ℕ) (pool : Bool)
  | groupSubmit (handle : ℕ) (submits : Option (List QueueSubmit)) (csf : ℕ → NtStatus)

def Call.apply (s : State) : Call → State
  | .boCreate size flags vmId owner r =>
    { s with device := (BoTable.boCreate s.device size flags vmId owner r).2.2 }
  | .boCreateFromPfns reply flags owner r =>
    { s with
      device := (BoTable.boCreateFromPfns s.device (importedPfns s.device reply) flags owner r).2.2 }
  | .vmCreate r =>
    { s with device := s.device.withVms (VmTable.vmCreate s.device.adapter s.device.vmTable r).2 }
  | .vmDestroy vmId =>
    { s with device := s.device.withVms (VmTable.vmDestroy s.device.adapter s.device.vmTable vmId) }
  | .vmBind vmId ops => { s with device := (BoTable.vmBind s.device vmId ops).2 }
  | .groupCreate vmId queueCount pool => (FlushCoverage.groupCreate s vmId queueCount pool).2.2
  | .groupSubmit handle submits csf => (FlushCoverage.groupSubmit s handle submits csf).2.2

def step (s : State) (c : Call) : Option State := some (c.apply s)

def powered (a : Adapter) : State := ⟨started a, [], 1⟩

/-- The page table of the VM leads to a frame of the BO. -/
def MappedIn (d : Device) (vmId : ℕ) (bo : Bo) : Prop :=
  ∃ vm, vmGet d.vmTable vmId = some vm ∧
    ∃ va, ∃ f ∈ bo.pfns, ∃ attrs, translation vm.pt va = some (f <<< 12, attrs)

/-- Each stream finds every BO that its VM can reach cleaned before and invalidated after. -/
def Covers (s : State) (c : Call) (_ : State) : Prop :=
  match c with
  | .groupSubmit handle submits csf =>
    ∀ run ∈ (groupSubmit s handle submits csf).2.1, ∀ bo ∈ s.device.bos,
      MappedIn s.device run.vmId bo → (bo, false) ∈ run.before ∧ (bo, true) ∈ run.after
  | _ => True

/-- The BO whose frames an operation puts into the table. -/
def bound (d : Device) (op : BindOp) : Option Bo :=
  if op.flags &&& bindOpTypeMask = bindOpTypeMap ∧ pageCount op.size ≠ 0 then
    boGet d op.boHandle
  else none

/-- A BO that belongs to one VM is bound in no other. -/
def Shareable (s : State) : Call → Prop
  | .vmBind vmId ops => ∀ op ∈ ops.takeWhile fun op => (plan s.device op).isSome,
    ∀ bo ∈ bound s.device op, bo.exclusiveVmId = vmId ∨ bo.exclusiveVmId = 0
  | _ => True

instance (s : State) : (c : Call) → Decidable (Shareable s c)
  | .vmBind .. => inferInstanceAs (Decidable (∀ _ ∈ _, _))
  | .boCreate .. | .boCreateFromPfns .. | .vmCreate .. | .vmDestroy .. | .groupCreate ..
  | .groupSubmit .. => isTrue trivial

/-- What the memory manager promises: `driver` holds the frames of the firmware's ring,
sync and shader pages, and no BO gets one of them. -/
def Promised (driver : List Word) : Call → Prop
  | .boCreate _ _ _ _ r => ∀ pfns ∈ r.mdl, ∀ f ∈ pfns, f ∉ driver
  | .boCreateFromPfns reply _ _ _ => ∀ pfns ∈ reply, ∀ f ∈ pfns, f ∉ driver
  | .vmCreate r => Honest r.supply ∧ ∀ c ∈ r.csf, CsfBelow c ∧ ∀ f ∈ csfFrames c, f ∈ driver
  | _ => True

/-- The flush of the VM reaches the BO. -/
def Tagged (vmId : ℕ) (bo : Bo) : Prop := bo.exclusiveVmId = vmId ∨ bo.exclusiveVmId = 0

/-- The address is a frame of the driver, or of a BO that the flush of the VM reaches. -/
def Leads (driver : List Word) (bos : List Bo) (vmId : ℕ) (pa : Word) : Prop :=
  (∃ f ∈ driver, f.toNat < 2 ^ 36 ∧ pa = f <<< 12) ∨
    ∃ bo ∈ bos, Tagged vmId bo ∧ ∃ f ∈ bo.pfns, pa = f <<< 12

def Led (driver : List Word) (bos : List Bo) (vmId : ℕ) (pt : VmPt) : Prop :=
  ∀ page pa attrs, lastLeaf pt.trace page = some (pa, attrs) → Leads driver bos vmId pa

structure Inv (driver : List Word) (s : State) : Prop where
  built : WellBuilt s.device
  led : ∀ vm ∈ s.device.vmTable.vms, Led driver s.device.bos vm.id vm.pt
  imported : ∀ bo ∈ s.device.bos, bo.pagesImported = true → bo.exclusiveVmId = 0
  shared : ∀ bo ∈ s.device.bos, ∀ bo' ∈ s.device.bos, ∀ f ∈ bo.pfns, f ∈ bo'.pfns →
    bo.exclusiveVmId = bo'.exclusiveVmId
  clear : ∀ bo ∈ s.device.bos, ∀ f ∈ bo.pfns, f ∉ driver

section Leaves

variable {driver : List Word} {bos : List Bo} {vmId : ℕ} {a b pt : VmPt}

theorem Led.writes {P : ℕ → Word → Prop} (h : Led driver bos vmId a) (hw : Writes P a b)
    (hP : ∀ page pa, P page pa → Leads driver bos vmId pa) : Led driver bos vmId b := by
  intro page pa attrs hlast
  rcases hw.last hlast with hnew | hold
  · exact hP page pa hnew
  · exact h page pa attrs hold

theorem Led.append (h : Led driver bos vmId pt) (new : List Bo) :
    Led driver (bos ++ new) vmId pt := by
  intro page pa attrs hlast
  refine (h page pa attrs hlast).imp id ?_
  rintro ⟨bo, hbo, hrest⟩
  exact ⟨bo, List.mem_append_left _ hbo, hrest⟩

theorem vmBindOp_led {d : Device} {supply : ℕ → PtReply} (W : WellBuilt d)
    (V : PtSound supply pt) (hl : Led driver d.bos vmId pt) (op : BindOp)
    (h : ∀ bo ∈ bound d op, Tagged vmId bo) :
    Led driver d.bos vmId (vmBindOp d supply op pt).2 := by
  obtain ⟨root, G⟩ := V.good
  unfold vmBindOp
  dsimp only
  split
  · rename_i htype
    cases hg : boGet d op.boHandle with
    | none => exact hl
    | some bo =>
      have hbo := boGet_mem hg
      have hb := W.bos bo hbo
      dsimp only
      split
      · exact hl
      · rename_i hsize
        have hcount := pageCount_le (fun hs => hsize (.inr hs)) hb.sized
        obtain ⟨n, hn, -, hw, -⟩ := vmMap_spec V.honest G d.adapter op.va (pfnAt bo.pfns)
          (pageCount op.size) (bindAttrs op.flags) (bindAttrs_valid op.flags)
          (fun k hk => (hb.frame (by omega)).2)
        refine hl.writes hw ?_
        rintro page pa ⟨k, hk, -, rfl⟩
        have hcount0 : pageCount op.size ≠ 0 := by omega
        have hbound : bound d op = some bo := by rw [bound, if_pos ⟨htype, hcount0⟩, hg]
        exact .inr ⟨bo, hbo, h bo hbound, _, (hb.frame (by omega)).1, rfl⟩
  split
  · exact hl.writes (vmUnmap_writes V.honest G d.adapter op.va (pageCount op.size)) (by simp)
  split <;> exact hl

theorem vmBindOps_led {d : Device} {supply : ℕ → PtReply} (W : WellBuilt d)
    (V : PtSound supply pt) (hl : Led driver d.bos vmId pt) (ops : List BindOp)
    (h : ∀ op ∈ ops.takeWhile fun op => (plan d op).isSome, ∀ bo ∈ bound d op, Tagged vmId bo) :
    Led driver d.bos vmId (vmBindOps d supply ops pt).2 :=
  vmBindOps_planned W V hl fun op hop _ V hl => vmBindOp_led W V hl op (h op hop)

end Leaves

section Steps

variable {driver : List Word} {s : State}

/-- What the hardware reaches, the flush reaches. -/
theorem Inv.tagged (I : Inv driver s) {vmId : ℕ} {bo : Bo} (hbo : bo ∈ s.device.bos)
    (h : MappedIn s.device vmId bo) : Tagged vmId bo := by
  obtain ⟨vm, hvm, va, f, hf, attrs, htrans⟩ := h
  have hmem := (vmGet_split hvm).1
  have hid : (vm.id == vmId) = true := List.find?_some (p := fun vm : Vm => vm.id == vmId) hvm
  have hlt := (I.built.bos bo hbo).framed f hf
  rw [translation_eq (I.built.vms vm hmem)] at htrans
  rcases I.led vm hmem _ _ _ htrans with ⟨g, hg, hglt, he⟩ | ⟨bo', hbo', htag, g, hg, he⟩
  · obtain rfl := frame_injective hlt hglt he
    exact absurd hg (I.clear bo hbo f hf)
  · obtain rfl := frame_injective hlt ((I.built.bos bo' hbo').framed g hg) he
    rw [← beq_iff_eq.mp hid, Tagged, I.shared bo hbo bo' hbo' f hf hg]
    exact htag

theorem Inv.add (I : Inv driver s) {bo : Bo} (hb : Backed bo) (hclear : ∀ f ∈ bo.pfns, f ∉ driver)
    (himp : bo.pagesImported = true → bo.exclusiveVmId = 0)
    (hshared : ∀ bo' ∈ s.device.bos, ∀ f ∈ bo.pfns, f ∈ bo'.pfns →
      bo.exclusiveVmId = bo'.exclusiveVmId) :
    Inv driver { s with device := addBo s.device bo } := by
  have hmem : ∀ b ∈ s.device.bos ++ [bo], b ∈ s.device.bos ∨ b = bo := by
    intro b h
    simpa using h
  refine ⟨⟨I.built.vms, ?_⟩, fun vm hv => (I.led vm hv).append [bo], ?_, ?_, ?_⟩
  · intro b h
    rcases hmem b h with h | rfl
    · exact I.built.bos b h
    · exact hb
  · intro b h
    rcases hmem b h with h | rfl
    · exact I.imported b h
    · exact himp
  · intro b h b' h' f hf hf'
    rcases hmem b h with hold | rfl <;> rcases hmem b' h' with hold' | rfl
    · exact I.shared b hold b' hold' f hf hf'
    · exact (hshared b hold f hf' hf).symm
    · exact hshared b' hold' f hf hf'
    · rfl
  · intro b h
    rcases hmem b h with h | rfl
    · exact I.clear b h
    · exact hclear

theorem Inv.freeing (I : Inv driver s) (fr : List Word) :
    Inv driver { s with device := { s.device with freed := fr } } :=
  ⟨⟨I.built.vms, I.built.bos⟩, I.led, I.imported, I.shared, I.clear⟩

theorem boCreate_reply {d : Device} {size : Word} {flags : BitVec 32} {vmId : ℕ}
    {owner : Option ℕ} {r : BoReply} {bo : Bo}
    (h : bo ∈ (boCreate d size flags vmId owner r).2.2.bos) :
    bo ∈ d.bos ∨ r.mdl = some bo.pfns := by
  unfold boCreate at h
  split at h
  · exact .inl h
  split at h
  · exact .inl h
  split at h
  · exact .inl h
  · rename_i pfns hreply
    have hmdl := (Option.filter_eq_some_iff.mp hreply).1
    dsimp only at h
    split at h
    · exact .inl h
    · rcases List.mem_append.mp h with hold | hnew
      · exact .inl hold
      · rw [List.mem_singleton.mp hnew]
        exact .inr hmdl

theorem boCreate_inv (I : Inv driver s) (size : Word) (flags : BitVec 32) (vmId : ℕ)
    (owner : Option ℕ) (r : BoReply)
    (hp : Promised driver (.boCreate size flags vmId owner r)) :
    Inv driver ((Call.boCreate size flags vmId owner r).apply s) := by
  rcases boCreate_cases s.device size flags vmId owner r with ⟨part, -, hd, -⟩ | ⟨bo, hd, hn⟩
  · rw [Call.apply, hd]
    exact I.freeing _
  · have hreply : bo ∈ s.device.bos ∨ r.mdl = some bo.pfns :=
      boCreate_reply (d := s.device) (by rw [hd]; exact List.mem_append_right _ (by simp))
    rw [Call.apply, hd]
    refine I.add (NewBo.backed hn) ?_ (by simp [hn.sound.native]) ?_
    · rcases hreply with hold | hmdl
      · exact I.clear bo hold
      · exact hp bo.pfns hmdl
    · exact fun bo' hbo' f hf hf' => absurd hf (hn.fresh.2.2 bo' hbo' f hf')

theorem boCreateFromPfns_inv (I : Inv driver s) (reply : Option (List Word)) (flags : BitVec 32)
    (owner : Option ℕ) (r : ImportReply)
    (hp : Promised driver (.boCreateFromPfns reply flags owner r)) :
    Inv driver ((Call.boCreateFromPfns reply flags owner r).apply s) := by
  unfold Call.apply boCreateFromPfns importedPfns
  dsimp only
  split
  · exact I
  · rename_i pfns hreply
    obtain ⟨hpfns, hf⟩ := Option.filter_eq_some_iff.mp hreply
    obtain ⟨hlen, hframed, hforeign⟩ := of_decide_eq_true hf
    split
    · exact I
    split
    · exact I
    split
    · exact I
    refine I.add ⟨?_, hframed⟩ (hp pfns hpfns) (fun _ => rfl) ?_
    · rw [BitVec.toNat_shiftLeft, BitVec.toNat_ofNat, Nat.shiftLeft_eq]
      dsimp only
      omega
    · intro bo' hbo' f hf hf'
      cases himp : bo'.pagesImported with
      | false => exact absurd hf (hforeign bo' hbo' himp f hf')
      | true => exact (I.imported bo' hbo' himp).symm

theorem vmCreate_inv (I : Inv driver s) (r : VmRequest) (hp : Promised driver (.vmCreate r)) :
    Inv driver ((Call.vmCreate r).apply s) := by
  obtain ⟨hhonest, hcsf⟩ := hp
  refine ⟨vmCreate_built I.built r ⟨hhonest, fun c hc => (hcsf c hc).1⟩, ?_, I.imported, I.shared,
    I.clear⟩
  intro vm hv
  change vm ∈ (vmCreate s.device.adapter s.device.vmTable r).2.2.vms at hv
  rcases vmCreate_table s.device.adapter s.device.vmTable r with
    h | ⟨pt, a', new, hinit, hsup, hpt, h⟩
  · exact I.led vm (h ▸ hv)
  rw [h] at hv
  rcases List.mem_append.mp hv with hold | hnew
  · exact I.led vm hold
  obtain rfl := List.mem_singleton.mp hnew
  obtain ⟨root, G⟩ := vmInit_good hhonest hinit
  obtain ⟨-, hw⟩ := csfMapIntoVm_writes ⟨hhonest, root, G⟩ a' fun c hc => (hcsf c hc).1
  have hblank : Led driver s.device.bos vm.id pt := by
    intro page pa attrs hlast
    rw [vmInit_trace hinit] at hlast
    cases hlast
  rw [hpt]
  refine hblank.writes hw ?_
  rintro page pa ⟨c, hc, -, f, hf, rfl⟩
  exact .inl ⟨f, (hcsf c hc).2 f hf, csfFrames_below (hcsf c hc).1 hf, rfl⟩

theorem vmBind_inv (I : Inv driver s) (vmId : ℕ) (ops : List BindOp)
    (hg : Shareable s (.vmBind vmId ops)) : Inv driver ((Call.vmBind vmId ops).apply s) := by
  have hbuilt := vmBind_built I.built vmId ops
  unfold Call.apply
  dsimp only
  unfold vmBind at hbuilt ⊢
  split at hbuilt
  · rename_i hops
    rw [if_pos hops]
    exact I
  · rename_i hops
    rw [if_neg hops]
    cases hvm : vmGet s.device.vmTable vmId with
    | none => exact I
    | some vm =>
      rw [hvm] at hbuilt
      obtain ⟨hmem, hset⟩ := vmGet_split hvm
      have hid : (vm.id == vmId) = true := List.find?_some (p := fun vm : Vm => vm.id == vmId) hvm
      have hled := I.led vm hmem
      rw [beq_iff_eq.mp hid] at hled
      refine ⟨hbuilt, ?_, I.imported, I.shared, I.clear⟩
      intro v hv
      rcases (hset _).2 v hv with rfl | hold
      · have hl := vmBindOps_led I.built (I.built.vms vm hmem) hled ops hg
        rw [← beq_iff_eq.mp hid] at hl
        exact hl
      · exact I.led v hold

theorem markFatal_device (s : State) (handle queueIndex : ℕ) :
    (groupMarkFatalQueue s handle queueIndex).device = s.device := by
  unfold groupMarkFatalQueue
  split <;> rfl

/-- Every stream of a submit is flushed by the tables that the submit found. -/
theorem submitLoop_spec (handle : ℕ) (csf : ℕ → NtStatus) (i : ℕ) (err : Errno)
    (submits : List QueueSubmit) (s : State) :
    (submitLoop handle csf i err submits s).2.2.device = s.device ∧
      ∀ run ∈ (submitLoop handle csf i err submits s).2.1,
        run.before = boFlushVm s.device run.vmId true ∧
          run.after = boFlushVm s.device run.vmId false := by
  induction submits generalizing i err with
  | nil => exact ⟨rfl, by simp [submitLoop]⟩
  | cons qs rest ih =>
    unfold submitLoop
    split
    · exact ⟨rfl, by simp⟩
    rename_i syncs _
    dsimp only
    generalize (if syncs = [] then err else processSyncOps syncs false) = err
    split
    · exact ⟨rfl, by simp⟩
    split
    · exact ⟨rfl, by simp⟩
    split
    · refine ⟨markFatal_device s handle qs.queueIndex, ?_⟩
      intro run hrun
      rw [List.mem_singleton.mp hrun]
      exact ⟨rfl, rfl⟩
    · obtain ⟨hdev, hruns⟩ := ih (i + 1) _
      refine ⟨hdev, ?_⟩
      intro run hrun
      rcases List.mem_cons.mp hrun with rfl | hrest
      · exact ⟨rfl, rfl⟩
      · exact hruns run hrest

theorem groupSubmit_spec (s : State) (handle : ℕ) (submits : Option (List QueueSubmit))
    (csf : ℕ → NtStatus) :
    (groupSubmit s handle submits csf).2.2.device = s.device ∧
      ∀ run ∈ (groupSubmit s handle submits csf).2.1,
        run.before = boFlushVm s.device run.vmId true ∧
          run.after = boFlushVm s.device run.vmId false := by
  unfold groupSubmit
  split
  · exact ⟨rfl, by simp⟩
  · exact ⟨rfl, by simp⟩
  split
  · exact ⟨rfl, by simp⟩
  split
  · exact ⟨rfl, by simp⟩
  · exact submitLoop_spec handle csf 0 .ok _ s

theorem Inv.device {t : State} (I : Inv driver s) (h : t.device = s.device) : Inv driver t :=
  ⟨h ▸ I.built, h ▸ I.led, h ▸ I.imported, h ▸ I.shared, h ▸ I.clear⟩

theorem groupCreate_device (s : State) (vmId queueCount : ℕ) (pool : Bool) :
    (groupCreate s vmId queueCount pool).2.2.device = s.device := by
  unfold groupCreate
  split
  · rfl
  split
  · rfl
  split <;> rfl

theorem apply_inv (I : Inv driver s) (c : Call) (hp : Promised driver c) (hg : Shareable s c) :
    Inv driver (c.apply s) := by
  cases c with
  | boCreate size flags vmId owner r => exact boCreate_inv I size flags vmId owner r hp
  | boCreateFromPfns pfns flags owner r => exact boCreateFromPfns_inv I pfns flags owner r hp
  | vmCreate r => exact vmCreate_inv I r hp
  | vmDestroy vmId =>
    exact ⟨⟨fun vm hv => I.built.vms vm (vmDestroy_mem hv), I.built.bos⟩,
      fun vm hv => I.led vm (vmDestroy_mem hv), I.imported, I.shared, I.clear⟩
  | vmBind vmId ops => exact vmBind_inv I vmId ops hg
  | groupCreate vmId queueCount pool => exact I.device (groupCreate_device s vmId queueCount pool)
  | groupSubmit handle submits csf => exact I.device (groupSubmit_spec s handle submits csf).1

theorem flushed_of_tagged {d : Device} {vmId : ℕ} {bo : Bo} (hbo : bo ∈ d.bos)
    (h : Tagged vmId bo) (clean : Bool) : (bo, !clean) ∈ boFlushVm d vmId clean :=
  List.mem_map.mpr ⟨bo, List.mem_filter.mpr ⟨hbo, by simpa [Tagged] using h⟩, rfl⟩

theorem apply_covers (I : Inv driver s) (c : Call) : Covers s c (c.apply s) := by
  cases c with
  | groupSubmit handle submits csf =>
    intro run hrun bo hbo hmapped
    obtain ⟨hbefore, hafter⟩ := (groupSubmit_spec s handle submits csf).2 run hrun
    have htag := I.tagged hbo hmapped
    rw [hbefore, hafter]
    exact ⟨flushed_of_tagged hbo htag true, flushed_of_tagged hbo htag false⟩
  | _ => trivial

end Steps

/-- Over any run: what a stream can reach is flushed around it, as long as no BO that belongs
to one VM is bound in another. -/
theorem streams_flushed (a : Adapter) (driver : List Word) (calls : List Call)
    (hp : ∀ c ∈ calls, Promised driver c) (hg : Guarded step Shareable (powered a) calls) :
    Always step Covers (powered a) calls := by
  have hstep : ∀ s c t, Inv driver s → Promised driver c ∧ Shareable s c → step s c = some t →
      Inv driver t := by
    rintro s c t I ⟨hpr, hsh⟩ ht
    obtain rfl := Option.some.inj ht
    exact apply_inv I c hpr hsh
  refine always_of_guarded hstep ?_ ?_ (hg.of_labels hp)
  · rintro s c t I - ht
    obtain rfl := Option.some.inj ht
    exact apply_covers I c
  · exact ⟨started_built a, by simp [powered, started], by simp [powered, started],
      by simp [powered, started], by simp [powered, started]⟩

def newVm : Call := .vmCreate ⟨0, 1, true, eightPages, fun _ _ => 0, .success,
  some ⟨0x8000000, 0x8010000, 0x8011000⟩⟩

def pageOfVm (vmId : ℕ) (f : Word) : Call := .boCreate 4096 0 vmId (some 1) ⟨true, some [f]⟩

def bindPage (boHandle : ℕ) (va : Word) : Call :=
  .vmBind 1 [⟨bindOpTypeMap, boHandle, 0, va, 4096⟩]

def runStream : Call := .groupSubmit 1 (some [⟨0, 64, 0x10000000, some []⟩]) fun _ => .success

def bare : Adapter := ⟨0xFF, true, 0, 0, fun _ => .zero, []⟩

def firmware : List Word := csfFrames ⟨0x8000000, 0x8010000, 0x8011000⟩

def ownAndShared : List Call :=
  [newVm, pageOfVm 1 0x80000, .boCreateFromPfns (some [0x90000]) 0 none ⟨true, true⟩,
    bindPage 1 0x10000000, bindPage 2 0x10001000, .groupCreate 1 1 true, runStream]

theorem ownAndShared_promised : ∀ c ∈ ownAndShared, Promised firmware c := by
  have hbelow : CsfBelow ⟨0x8000000, 0x8010000, 0x8011000⟩ := ⟨by decide, by decide, by decide⟩
  have hfree : ∀ f ∈ [(0x80000 : Word), 0x90000], f ∉ firmware := by decide +kernel
  simp only [ownAndShared, List.forall_mem_cons]
  refine ⟨⟨eightPages_honest, ?_⟩, ?_, ?_, trivial, trivial, trivial, trivial, by simp⟩
  · rintro c ⟨⟩
    exact ⟨hbelow, fun f hf => hf⟩
  · rintro pfns ⟨⟩ f hf
    exact hfree f (by simp_all)
  · rintro pfns ⟨⟩ f hf
    exact hfree f (by simp_all)

theorem ownAndShared_flushed : Always step Covers (powered bare) ownAndShared :=
  streams_flushed bare firmware _ ownAndShared_promised (by decide +kernel)

/-- The BO belongs to VM 2; VM 1 maps it and runs a stream, and nobody flushes it. -/
theorem foreign_bo_not_flushed : ∃ s bo run,
    exec step (powered bare) [newVm, pageOfVm 2 0x80000, bindPage 1 0x10000000,
      .groupCreate 1 1 true] = some s ∧
    s.device.bos = [bo] ∧
    (groupSubmit s 1 (some [⟨0, 64, 0x10000000, some []⟩]) fun _ => .success).2.1 = [run] ∧
    run.vmId = 1 ∧ MappedIn s.device 1 bo ∧ run.before = [] ∧ run.after = [] :=
  ⟨_, _, _, rfl, rfl, rfl, rfl,
    ⟨_, rfl, 0x10000000, 0x80000, by decide, pageAttrRwEx, by decide +kernel⟩, by decide +kernel,
    by decide +kernel⟩

end WinMali.FlushCoverage
