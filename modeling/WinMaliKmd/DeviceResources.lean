import WinMaliKmd.CsfBuffers
import WinMaliKmd.FirmwareImage
import WinMaliKmd.Ledger
import WinMaliKmd.Runs

/-!
# What a started device holds

`StartDevice` and `StopDevice` as far as they acquire and give up: the register mapping, the
memory of the MMU and of the firmware, the segment, the worker thread, and the handles that
are open meanwhile. Every acquisition may be refused, and every step of the firmware's bring-up
may fail.
-/

set_option autoImplicit false

namespace WinMali.DeviceResources
open WinMali.CsfBuffers hiding step Op Env bootstrap csfTeardown fwTeardown undo
open WinMali.FirmwareImage (Image FwSection parseImage)
open WinMali.Ledger WinMali.Runs

/-- The pointers and handles that own something. `thread` and `file` are variables of
`WinMaliSchedInit` and `WinMaliFwReadFileImage_`; `image` and `fw` are in the firmware context. -/
inductive Res
  | gpuRegs
  | mmuScratchHeap
  | dmaSegment
  | apertureL3
  | submitWorkerThread
  | thread
  | fwCtx
  | file
  | image
  | fw (h : Holder)
deriving DecidableEq

def Res.inFwCtx : Res → Bool
  | .image | .fw _ => true
  | _ => false

structure Dev where
  acc : Accounts Res
  gpuRegsMapped : Bool
  gpuMmuAsBound : Bool
  fwMcuAsBound : Bool
  mmuReady : Bool
  mcuAlive : Bool
  csfJobs : Bool
  sectionCount : ℕ
  dmaSegmentBytes : ℕ

def Dev.take (d : Dev) (r : Res) (granted : Bool) : Dev :=
  { d with acc := Ledger.take r granted d.acc }

def Dev.give (d : Dev) (r : Res) : Dev := { d with acc := Ledger.give r d.acc }

def Dev.holds (d : Dev) (r : Res) : Bool := held d.acc r

def mib (n : ℕ) : ℕ := n * 1024 * 1024

/-- `for (bytes = …; bytes >= least; bytes >>= 1)`, with the size of the first block that is
granted. 64 turns use up the counter. -/
def shrink (granted : ℕ → Bool) (least : ℕ) : ℕ → ℕ → Option ℕ
  | 0, _ => none
  | turns + 1, bytes =>
    if bytes < least then none
    else if granted bytes then some bytes
    else shrink granted least turns (bytes >>> 1)

def takeDmaSegment (bytes : ℕ) (d : Dev) : Dev :=
  { d.take .dmaSegment true with dmaSegmentBytes := bytes }

def freeDmaSegment (d : Dev) : Dev :=
  if d.holds .dmaSegment then { d.give .dmaSegment with dmaSegmentBytes := 0 } else d

def mmuTeardown (d : Dev) : Dev :=
  let d := { d with gpuMmuAsBound := false, mmuReady := false }
  freeDmaSegment ((d.give .apertureL3).give .mmuScratchHeap)

structure MmuEnv where
  heap : Bool
  dma : ℕ → Bool
  aperture : Bool
  asEnable : Bool

def mmuInit (e : MmuEnv) (d : Dev) : Dev :=
  if !d.gpuRegsMapped then d
  else
    let d := (mmuTeardown d).take .mmuScratchHeap e.heap
    if !e.heap then d
    else
      match shrink e.dma (mib 16) 64 (mib 128) with
      | none => d.give .mmuScratchHeap
      | some bytes =>
        let d := takeDmaSegment bytes d
        if !e.aperture then (freeDmaSegment d).give .mmuScratchHeap
        else
          let d := d.take .apertureL3 true
          if !e.asEnable then mmuTeardown d
          else { d with gpuMmuAsBound := true, mmuReady := true }

def vidmmAllocateSegment (granted : ℕ → Bool) (d : Dev) : Dev :=
  if d.holds .dmaSegment then d
  else
    match shrink granted (mib 64) 64 (mib 256) with
    | none => d
    | some bytes => takeDmaSegment bytes d

structure SchedEnv where
  create : Bool
  reference : Bool

/-- A thread that gets no reference is told to stop; the handle is closed in any case. -/
def schedInit (e : SchedEnv) (d : Dev) : Dev :=
  if d.holds .submitWorkerThread then d
  else
    let d := d.take .thread e.create
    if !e.create then d else (d.take .submitWorkerThread e.reference).give .thread

def schedTeardown (d : Dev) : Dev := d.give .submitWorkerThread

structure FileEnv where
  opened : Bool
  queried : Bool
  size : ℕ
  pool : Bool
  read : Bool

def fwImageMaxBytes : ℕ := 4 * 1024 * 1024

def readFileImage (e : FileEnv) (d : Dev) : Bool × Dev :=
  let d := d.take .file e.opened
  if !e.opened then (false, d)
  else if !e.queried then (false, d.give .file)
  else if e.size = 0 ∨ e.size > fwImageMaxBytes then (false, d.give .file)
  else
    let d := d.take .image e.pool
    if !e.pool then (false, d.give .file)
    else if !e.read then (false, (d.give .image).give .file)
    else (true, d.give .file)

/-- The backings that `WinMaliFwLoadSectionEntry_` has allocated, from section `i` on. -/
def takeSections : List FwSection → ℕ → Dev → Dev
  | [], i, d => { d with sectionCount := i }
  | sec::secs, i, d =>
    takeSections secs (i + 1)
      (if sec.backingPa.isSome then d.take (.fw (.backing i)) true else d)

inductive CsfStep
  | alloc (h : Holder)
  | map (h : Holder)
  | start

structure CsfEnv where
  ready : Bool
  alloc : Holder → Bool
  map : Holder → Bool
  start : Bool

/-- The steps of `WinMaliCsfBootstrap_`, each with what the label behind it undoes. -/
def bootSteps : List (CsfStep × List Undo) :=
  [(.alloc (.gpu .ring), []), (.map (.gpu .ring), errRing),
    (.alloc (.mcu .queueIface), errRingUnmap), (.map (.mcu .queueIface), errQifUnmap),
    (.alloc (.gpu .sync), errQifUnmap), (.map (.gpu .sync), errSync),
    (.alloc (.mcu .suspend), errSyncUnmap), (.map (.mcu .suspend), errFreeSusp),
    (.alloc (.mcu .protm), errFreeSusp), (.map (.mcu .protm), errFreeProtm),
    (.alloc (.gpu .shader), errFreeProtm), (.map (.gpu .shader), errShader),
    (.start, errShaderUnmap)]

/-- What a list of actions frees. -/
def frees (us : List Undo) : List Res :=
  us.filterMap fun
    | .free h => some (.fw h)
    | .unmap _ => none

def undo (us : List Undo) (d : Dev) : Dev := { d with acc := giveAll (frees us) d.acc }

def CsfStep.run (e : CsfEnv) (d : Dev) : CsfStep → Bool × Dev
  | .alloc h => (e.alloc h, d.take (.fw h) (e.alloc h))
  | .map h => (e.map h, d)
  | .start => (e.start, d)

def runSteps (e : CsfEnv) : List (CsfStep × List Undo) → Dev → Bool × Dev
  | [], d => (true, d)
  | (c, err)::cs, d =>
    let (ok, d) := c.run e d
    if ok then runSteps e cs d else (false, undo err d)

def csfBootstrap (e : CsfEnv) (d : Dev) : Bool × Dev :=
  if !e.ready then (false, d) else runSteps e bootSteps d

def csfTeardown (d : Dev) : Dev := { undo csfTeardownActions d with csfJobs := false }

def releaseResources (d : Dev) : Dev :=
  let backings := (List.range d.sectionCount).map fun i => Res.fw (.backing i)
  let d := { d with acc := giveAll backings d.acc }
  (d.give (.fw .ptPool)).give .image

/-- The context is new, and zeroed. -/
def takeFwCtx (granted : Bool) (d : Dev) : Dev :=
  { d.take .fwCtx granted with sectionCount := 0 }

/-- `ExFreePoolWithTag` of the context. -/
def freeFwCtx (d : Dev) : Dev :=
  let d := d.give .fwCtx
  { d with acc := wipe Res.inFwCtx d.acc }

structure FwEnv where
  pool : Bool
  l2On : Bool
  file : FileEnv
  img : Image
  backing : ℕ → Option (BitVec 64)
  ptPool : Bool
  root : Bool
  tables : Bool
  asEnable : Bool
  booted : Bool
  version : Bool
  glbIface : Bool
  csfIfaces : Bool
  csf : CsfEnv
  nop : Bool

/-- What `WinMaliFwInit` does when a step fails behind the image. -/
def fwFail (d : Dev) : Dev := freeFwCtx (releaseResources d)

def startKernelQueue (e : CsfEnv) (d : Dev) : Dev :=
  if !d.gpuMmuAsBound then d
  else
    match csfBootstrap e d with
    | (true, d) => { d with csfJobs := true }
    | (false, d) => csfTeardown d

/-- What is left once the firmware runs and its interfaces are found. -/
def fwUp (e : FwEnv) (d : Dev) : Dev :=
  let d := { startKernelQueue e.csf d with mcuAlive := true }
  if d.csfJobs && !e.nop then { d with csfJobs := false } else d

def fwBoot (e : FwEnv) (d : Dev) : Bool × Dev :=
  if !e.asEnable then (false, fwFail d)
  else
    let d := { d with fwMcuAsBound := true }
    if !e.booted || !e.version || !e.glbIface || !e.csfIfaces then
      (false, fwFail { d with fwMcuAsBound := false })
    else (true, fwUp e d)

def fwInit (e : FwEnv) (d : Dev) : Bool × Dev :=
  if !d.gpuRegsMapped then (false, d)
  else if d.holds .fwCtx then (true, d)
  else
    let d := takeFwCtx e.pool d
    if !e.pool then (false, d)
    else if !e.l2On then (false, freeFwCtx d)
    else
      let (ok, d) := readFileImage e.file d
      if !ok then (false, freeFwCtx d)
      else
        let (status, ctx) := parseImage e.img e.backing
        let d := takeSections ctx.sections 0 d
        if status ≠ .success then (false, fwFail d)
        else
          let d := d.take (.fw .ptPool) e.ptPool
          if !e.ptPool || !e.root || !e.tables then (false, fwFail d) else fwBoot e d

def fwTeardown (d : Dev) : Dev :=
  if !d.holds .fwCtx then d
  else
    let d := csfTeardown d
    freeFwCtx (releaseResources { d with fwMcuAsBound := false, mcuAlive := false })

structure StartEnv where
  resources : Bool
  regs : Bool
  hw : Bool
  mmu : MmuEnv
  segment : ℕ → Bool
  fw : FwEnv
  sched : SchedEnv

def bringupHardware (e : StartEnv) (d : Dev) : Bool × Dev :=
  if d.holds .gpuRegs then (true, d)
  else
    let d := d.take .gpuRegs e.regs
    if !e.regs then (false, d) else (e.hw, { d with gpuRegsMapped := true })

def startDevice (e : StartEnv) (d : Dev) : Dev :=
  if !e.resources then d
  else
    let (ok, d) := bringupHardware e d
    if !ok then d
    else
      let d := if d.gpuRegsMapped then mmuInit e.mmu d else d
      let d := vidmmAllocateSegment e.segment d
      let d := if d.gpuRegsMapped then (fwInit e.fw d).2 else d
      schedInit e.sched d

def teardownHardware (d : Dev) : Dev :=
  if d.holds .gpuRegs then { d.give .gpuRegs with gpuRegsMapped := false } else d

def stopDevice (d : Dev) : Dev :=
  teardownHardware (freeDmaSegment (mmuTeardown (fwTeardown (schedTeardown d))))

inductive Op
  | startDevice (e : StartEnv)
  | stopDevice

def step (d : Dev) : Op → Option Dev
  | .startDevice e => some (startDevice e d)
  | .stopDevice => some (stopDevice d)

/-- After `AddDevice`. -/
def added : Dev := ⟨empty, false, false, false, false, false, false, 0, 0⟩

section Holding

variable {d : Dev} {r r' : Res} {granted : Bool}

theorem holds_take : (d.take r granted).holds r' = if r' = r then granted else d.holds r' := by
  by_cases h : r' = r
  · subst h
    simp [Dev.take, Dev.holds]
  · simp [Dev.take, Dev.holds, held_take_ne h, h]

theorem holds_give : (d.give r).holds r' = (d.holds r' && decide (r' ≠ r)) := held_give _ _ _

theorem take_balanced (granted : Bool) (B : Balanced d.acc) (h : d.holds r = false) :
    Balanced (d.take r granted).acc := B.take h

theorem give_balanced (B : Balanced d.acc) : Balanced (d.give r).acc := B.give r

theorem holds_takeDmaSegment {bytes : ℕ} :
    (takeDmaSegment bytes d).holds r = (decide (r = .dmaSegment) || d.holds r) := by
  change (d.take .dmaSegment true).holds r = _
  rw [holds_take]
  by_cases h : r = .dmaSegment <;> simp [h]

theorem takeDmaSegment_balanced {bytes : ℕ} (B : Balanced d.acc) (h : d.holds .dmaSegment = false) :
    Balanced (takeDmaSegment bytes d).acc := by
  change Balanced (d.take .dmaSegment true).acc
  exact take_balanced _ B h

theorem holds_freeDmaSegment :
    (freeDmaSegment d).holds r = (d.holds r && decide (r ≠ .dmaSegment)) := by
  unfold freeDmaSegment
  split
  · exact holds_give
  · rename_i h
    by_cases hr : r = .dmaSegment
    · subst hr
      simp [h]
    · simp [hr]

theorem freeDmaSegment_balanced (B : Balanced d.acc) : Balanced (freeDmaSegment d).acc := by
  unfold freeDmaSegment
  split
  · exact give_balanced B
  · exact B

/-- The memory that `WinMaliMmuTeardown` frees. -/
def Res.ofMmu : Res → Bool
  | .mmuScratchHeap | .dmaSegment | .apertureL3 => true
  | _ => false

theorem holds_mmuTeardown : (mmuTeardown d).holds r = (d.holds r && !r.ofMmu) := by
  unfold mmuTeardown
  rw [holds_freeDmaSegment, holds_give, holds_give]
  change (((d.holds r && _) && _) && _) = _
  cases r <;> simp [Res.ofMmu]

theorem mmuTeardown_balanced (B : Balanced d.acc) : Balanced (mmuTeardown d).acc :=
  freeDmaSegment_balanced (give_balanced (give_balanced B))

end Holding

/-- The MMU's tables are there exactly when its address space is bound, and the segment is then
no larger than the window of the aperture. -/
structure MmuOk (d : Dev) : Prop where
  heap : d.holds .mmuScratchHeap = d.mmuReady
  aperture : d.holds .apertureL3 = d.mmuReady
  bound : d.gpuMmuAsBound = d.mmuReady
  segment : d.mmuReady = true → d.holds .dmaSegment = true ∧ d.dmaSegmentBytes ≤ mib 128
  bytes : d.holds .dmaSegment = true ↔ 0 < d.dmaSegmentBytes

/-- The buffers of the kernel queue. -/
def Res.ofQueue : Res → Bool
  | .fw (.gpu _) | .fw (.mcu _) => true
  | _ => false

structure FwOk (d : Dev) : Prop where
  alive : d.mcuAlive = d.holds .fwCtx
  bound : d.fwMcuAsBound = d.holds .fwCtx
  fields : d.holds .fwCtx = false → ∀ r, r.inFwCtx = true → d.holds r = false
  sections : ∀ i, d.sectionCount ≤ i → d.holds (.fw (.backing i)) = false
  jobs : d.csfJobs = true → d.holds .fwCtx = true ∧
    ∀ r, r.ofQueue = true → d.holds r = true

structure Inv (d : Dev) : Prop where
  balanced : Balanced d.acc
  regs : d.holds .gpuRegs = d.gpuRegsMapped
  thread : d.holds .thread = false
  file : d.holds .file = false
  mmu : MmuOk d
  fw : FwOk d

section Mmu

variable {d : Dev}

theorem shrink_spec {granted : ℕ → Bool} {least turns bytes n : ℕ}
    (h : shrink granted least turns bytes = some n) : least ≤ n ∧ n ≤ bytes := by
  induction turns generalizing bytes with
  | zero => cases h
  | succ turns ih =>
    simp only [shrink] at h
    split at h
    · cases h
    · split at h
      · obtain rfl := Option.some.inj h
        omega
      · have hn := ih h
        rw [Nat.shiftRight_one] at hn
        omega

/-- The state that a teardown of the MMU leaves, also that of a failed start. -/
structure MmuOff (d : Dev) : Prop where
  heap : d.holds .mmuScratchHeap = false
  aperture : d.holds .apertureL3 = false
  segment : d.holds .dmaSegment = false
  ready : d.mmuReady = false
  bound : d.gpuMmuAsBound = false
  bytes : d.dmaSegmentBytes = 0

theorem MmuOff.ok (O : MmuOff d) : MmuOk d := by
  refine ⟨O.heap.trans O.ready.symm, O.aperture.trans O.ready.symm, O.bound.trans O.ready.symm,
    fun h => ?_, ?_⟩
  · rw [O.ready] at h
    cases h
  · simp [O.segment, O.bytes]

theorem freeDmaSegment_bytes (h : d.holds .dmaSegment = true ↔ 0 < d.dmaSegmentBytes) :
    (freeDmaSegment d).dmaSegmentBytes = 0 := by
  unfold freeDmaSegment
  split
  · rfl
  · rename_i hd
    exact Nat.le_zero.mp (Nat.not_lt.mp fun hpos => hd (h.mpr hpos))

theorem freeDmaSegment_flags : (freeDmaSegment d).mmuReady = d.mmuReady ∧
    (freeDmaSegment d).gpuMmuAsBound = d.gpuMmuAsBound := by
  unfold freeDmaSegment
  split <;> exact ⟨rfl, rfl⟩

theorem mmuTeardown_off (h : d.holds .dmaSegment = true ↔ 0 < d.dmaSegmentBytes) :
    MmuOff (mmuTeardown d) := by
  refine ⟨?_, ?_, ?_, freeDmaSegment_flags.1, freeDmaSegment_flags.2, freeDmaSegment_bytes ?_⟩
  · simp [holds_mmuTeardown, Res.ofMmu]
  · simp [holds_mmuTeardown, Res.ofMmu]
  · simp [holds_mmuTeardown, Res.ofMmu]
  · rw [holds_give, holds_give]
    simp only [ne_eq, reduceCtorEq, not_false_eq_true, decide_true, Bool.and_true]
    exact h

/-- A step that leaves everything but the memory of the MMU. -/
structure MmuStep (d d' : Dev) : Prop where
  regs : d'.gpuRegsMapped = d.gpuRegsMapped
  alive : d'.mcuAlive = d.mcuAlive
  bound : d'.fwMcuAsBound = d.fwMcuAsBound
  jobs : d'.csfJobs = d.csfJobs
  sections : d'.sectionCount = d.sectionCount
  holds : ∀ r, r.ofMmu = false → d'.holds r = d.holds r

theorem MmuStep.refl (d : Dev) : MmuStep d d := ⟨rfl, rfl, rfl, rfl, rfl, fun _ _ => rfl⟩

theorem MmuStep.trans {d' d'' : Dev} (h : MmuStep d d') (h' : MmuStep d' d'') : MmuStep d d'' :=
  ⟨h'.regs.trans h.regs, h'.alive.trans h.alive, h'.bound.trans h.bound, h'.jobs.trans h.jobs,
    h'.sections.trans h.sections, fun r hr => (h'.holds r hr).trans (h.holds r hr)⟩

theorem MmuStep.take {r : Res} (hr : r.ofMmu = true) (granted : Bool) :
    MmuStep d (d.take r granted) := by
  refine ⟨rfl, rfl, rfl, rfl, rfl, fun r' hr' => ?_⟩
  rw [holds_take, if_neg]
  rintro rfl
  rw [hr] at hr'
  cases hr'

theorem MmuStep.give {r : Res} (hr : r.ofMmu = true) : MmuStep d (d.give r) := by
  refine ⟨rfl, rfl, rfl, rfl, rfl, fun r' hr' => ?_⟩
  rw [holds_give, decide_eq_true, Bool.and_true]
  rintro rfl
  rw [hr] at hr'
  cases hr'

theorem MmuStep.freeDmaSegment : MmuStep d (freeDmaSegment d) := by
  unfold DeviceResources.freeDmaSegment
  split
  · obtain ⟨h₁, h₂, h₃, h₄, h₅, h₆⟩ := MmuStep.give (d := d) (r := .dmaSegment) rfl
    exact ⟨h₁, h₂, h₃, h₄, h₅, h₆⟩
  · exact ⟨rfl, rfl, rfl, rfl, rfl, fun _ _ => rfl⟩

theorem MmuStep.flags (bound ready : Bool) (bytes : ℕ) :
    MmuStep d { d with gpuMmuAsBound := bound, mmuReady := ready, dmaSegmentBytes := bytes } :=
  ⟨rfl, rfl, rfl, rfl, rfl, fun _ _ => rfl⟩

theorem MmuStep.mmuTeardown : MmuStep d (mmuTeardown d) :=
  (MmuStep.flags false false d.dmaSegmentBytes).trans
    (((MmuStep.give rfl).trans (MmuStep.give rfl)).trans MmuStep.freeDmaSegment)

theorem mmuInit_spec (e : MmuEnv) (B : Balanced d.acc) (M : MmuOk d) :
    MmuStep d (mmuInit e d) ∧ Balanced (mmuInit e d).acc ∧ MmuOk (mmuInit e d) := by
  unfold mmuInit
  split
  · exact ⟨MmuStep.refl d, B, M⟩
  have O := mmuTeardown_off M.bytes
  have F : MmuStep d (mmuTeardown d) := MmuStep.mmuTeardown
  have B' := mmuTeardown_balanced B
  generalize mmuTeardown d = t at O F B'
  have Bheap := take_balanced e.heap B' O.heap
  have Fheap := F.trans (MmuStep.take (r := .mmuScratchHeap) rfl e.heap)
  dsimp only
  split
  · rename_i hheap
    refine ⟨Fheap, Bheap, MmuOff.ok ⟨?_, ?_, ?_, O.ready, O.bound, O.bytes⟩⟩
    · simpa [holds_take] using hheap
    · simpa [holds_take] using O.aperture
    · simpa [holds_take] using O.segment
  rename_i hheap
  split
  · refine ⟨Fheap.trans (MmuStep.give rfl), give_balanced Bheap,
      MmuOff.ok ⟨?_, ?_, ?_, O.ready, O.bound, O.bytes⟩⟩
    · simp [holds_give]
    · simpa [holds_take, holds_give] using O.aperture
    · simpa [holds_take, holds_give] using O.segment
  · rename_i bytes hbytes
    have hbounds := shrink_spec hbytes
    have Bseg : Balanced (takeDmaSegment bytes (t.take .mmuScratchHeap e.heap)).acc :=
      takeDmaSegment_balanced Bheap (by simpa [holds_take] using O.segment)
    have Fseg : MmuStep d (takeDmaSegment bytes (t.take .mmuScratchHeap e.heap)) :=
      (Fheap.trans (MmuStep.take rfl true)).trans (MmuStep.flags _ _ bytes)
    have hseg : (takeDmaSegment bytes (t.take .mmuScratchHeap e.heap)).holds .dmaSegment =
        true := by
      simp [holds_takeDmaSegment]
    have haper : (takeDmaSegment bytes (t.take .mmuScratchHeap e.heap)).holds .apertureL3 =
        false := by
      simpa [holds_takeDmaSegment, holds_take] using O.aperture
    have hheap' : (takeDmaSegment bytes (t.take .mmuScratchHeap e.heap)).holds .mmuScratchHeap =
        true := by
      simpa [holds_takeDmaSegment, holds_take] using hheap
    have hpos : 0 < bytes := Nat.lt_of_lt_of_le (by decide) hbounds.1
    have hready : (takeDmaSegment bytes (t.take .mmuScratchHeap e.heap)).mmuReady = false := O.ready
    have hbound : (takeDmaSegment bytes (t.take .mmuScratchHeap e.heap)).gpuMmuAsBound = false :=
      O.bound
    have hbytes : (takeDmaSegment bytes (t.take .mmuScratchHeap e.heap)).dmaSegmentBytes = bytes :=
      rfl
    generalize takeDmaSegment bytes (t.take .mmuScratchHeap e.heap) = u at *
    split
    · refine ⟨(Fseg.trans MmuStep.freeDmaSegment).trans (MmuStep.give rfl),
        give_balanced (freeDmaSegment_balanced Bseg), MmuOff.ok ⟨?_, ?_, ?_, ?_, ?_, ?_⟩⟩
      · simp [holds_give]
      · simp [holds_give, holds_freeDmaSegment, haper]
      · simp [holds_give, holds_freeDmaSegment]
      · exact freeDmaSegment_flags.1.trans hready
      · exact freeDmaSegment_flags.2.trans hbound
      · exact freeDmaSegment_bytes (by simp [hseg, hbytes, hpos])
    · have Baper := take_balanced true Bseg haper
      have Faper := Fseg.trans (MmuStep.take (r := .apertureL3) rfl true)
      have hsegment : (u.take .apertureL3 true).holds .dmaSegment = true := by
        simpa [holds_take] using hseg
      have hpos' : 0 < (u.take .apertureL3 true).dmaSegmentBytes := by
        change 0 < u.dmaSegmentBytes
        rw [hbytes]
        exact hpos
      split
      · exact ⟨Faper.trans MmuStep.mmuTeardown, mmuTeardown_balanced Baper,
          (mmuTeardown_off (by simp [hsegment, hpos'])).ok⟩
      · refine ⟨Faper.trans (MmuStep.flags true true _), Baper, ?_, ?_, rfl, fun _ => ⟨?_, ?_⟩, ?_⟩
        · change (u.take .apertureL3 true).holds .mmuScratchHeap = true
          simpa [holds_take] using hheap'
        · change (u.take .apertureL3 true).holds .apertureL3 = true
          simp [holds_take]
        · exact hsegment
        · change u.dmaSegmentBytes ≤ _
          rw [hbytes]
          exact hbounds.2
        · exact ⟨fun _ => hpos', fun _ => hsegment⟩

end Mmu

section Firmware

variable {d d₀ : Dev} {b : Bool}

/-- The context of the firmware, what is in it, and the file it is read from. -/
def Res.ofFw : Res → Bool
  | .fwCtx | .file | .image | .fw _ => true
  | _ => false

theorem ofFw_cases {r : Res} (hr : r.ofFw = true) :
    r = .fwCtx ∨ r = .file ∨ r.inFwCtx = true := by
  cases r <;> simp [Res.ofFw, Res.inFwCtx] at hr ⊢

theorem not_ofFw {r : Res} (hr : r.ofFw = false) :
    r ≠ .fwCtx ∧ r ≠ .file ∧ r.inFwCtx = false := by
  cases r <;> simp [Res.ofFw, Res.inFwCtx] at hr ⊢

/-- The firmware is on its way up, and what else the device holds is as in `d₀`. -/
structure Loading (b : Bool) (d₀ d : Dev) : Prop where
  balanced : Balanced d.acc
  ctx : d.holds .fwCtx = true
  file : d.holds .file = false
  rest : ∀ r, r.ofFw = false → d.holds r = d₀.holds r
  queue : ∀ r, r.ofQueue = true → d.holds r = false
  sections : ∀ i, d.sectionCount ≤ i → d.holds (.fw (.backing i)) = false
  flags : d = { d₀ with acc := d.acc, sectionCount := d.sectionCount, fwMcuAsBound := b }

/-- The firmware is not there, and the rest is as in `d₀`. -/
structure Unloaded (d₀ d : Dev) : Prop where
  balanced : Balanced d.acc
  gone : ∀ r, r.ofFw = true → d.holds r = false
  rest : ∀ r, r.ofFw = false → d.holds r = d₀.holds r
  flags : d = { d₀ with acc := d.acc, sectionCount := d.sectionCount, fwMcuAsBound := false }

theorem holds_giveAll (d : Dev) (rs : List Res) (r : Res) :
    ({ d with acc := giveAll rs d.acc } : Dev).holds r = (d.holds r && decide (r ∉ rs)) :=
  held_giveAll rs d.acc r

theorem holds_release {r : Res} (hr : r.inFwCtx = false) :
    (releaseResources d).holds r = d.holds r := by
  unfold releaseResources
  rw [holds_give, holds_give, holds_giveAll]
  have hback : r ∉ (List.range d.sectionCount).map (fun i => Res.fw (.backing i)) := by
    intro h
    obtain ⟨i, -, rfl⟩ := List.mem_map.mp h
    cases hr
  cases r <;> simp_all [Res.inFwCtx]

theorem release_gone (hqueue : ∀ r, r.ofQueue = true → d.holds r = false)
    (hsections : ∀ i, d.sectionCount ≤ i → d.holds (.fw (.backing i)) = false) {r : Res}
    (hr : r.inFwCtx = true) : (releaseResources d).holds r = false := by
  unfold releaseResources
  rw [holds_give, holds_give, holds_giveAll]
  cases r with
  | image => simp
  | fw h =>
    cases h with
    | gpu k => simp [hqueue (.fw (.gpu k)) rfl]
    | mcu k => simp [hqueue (.fw (.mcu k)) rfl]
    | ptPool => simp
    | backing i =>
      rcases Nat.lt_or_ge i d.sectionCount with hi | hi
      · simp [hi]
      · simp [hsections i hi]
  | _ => cases hr

theorem release_balanced (B : Balanced d.acc) : Balanced (releaseResources d).acc :=
  give_balanced (give_balanced (B.giveAll _))

theorem holds_freeFwCtx {r : Res} : (freeFwCtx d).holds r =
    (d.holds r && decide (r ≠ .fwCtx) && !r.inFwCtx) := by
  unfold freeFwCtx
  rw [← holds_give]
  exact held_wipe _ _ _

/-- The context can go when its fields hold nothing. -/
theorem freeFwCtx_balanced (B : Balanced d.acc)
    (hfields : ∀ r, r.inFwCtx = true → d.holds r = false) : Balanced (freeFwCtx d).acc := by
  refine (give_balanced B).wipe fun r hr => ?_
  change (d.give .fwCtx).holds r = false
  rw [holds_give, hfields r hr]
  rfl

theorem freeFwCtx_unloaded (B : Balanced d.acc) (hfile : d.holds .file = false)
    (hfields : ∀ r, r.inFwCtx = true → d.holds r = false)
    (hrest : ∀ r, r.ofFw = false → d.holds r = d₀.holds r)
    (hflags : d = { d₀ with
      acc := d.acc, sectionCount := d.sectionCount, fwMcuAsBound := false }) :
    Unloaded d₀ (freeFwCtx d) := by
  refine ⟨freeFwCtx_balanced B hfields, fun r hr => ?_, fun r hr => ?_, ?_⟩
  · rw [holds_freeFwCtx]
    rcases ofFw_cases hr with rfl | rfl | hin
    · simp
    · simp [hfile]
    · simp [hin]
  · obtain ⟨hctx, -, hin⟩ := not_ofFw hr
    simp [holds_freeFwCtx, hrest r hr, hctx, hin]
  · conv_lhs => unfold freeFwCtx Dev.give
    rw [hflags]
    rfl

theorem Loading.fail (L : Loading false d₀ d) : Unloaded d₀ (fwFail d) := by
  refine freeFwCtx_unloaded (release_balanced L.balanced) ?_
    (fun r hr => release_gone L.queue L.sections hr) (fun r hr => ?_) ?_
  · rw [holds_release rfl, L.file]
  · rw [holds_release (not_ofFw hr).2.2, L.rest r hr]
  · conv_lhs => unfold releaseResources Dev.give
    rw [L.flags]
    rfl

theorem readFileImage_spec (e : FileEnv) (B : Balanced d.acc) (hfile : d.holds .file = false)
    (himage : d.holds .image = false) :
    Balanced (readFileImage e d).2.acc ∧ (readFileImage e d).2.holds .file = false ∧
      (readFileImage e d).2.holds .image = (readFileImage e d).1 ∧
      (∀ r, r ≠ .file → r ≠ .image →
        (readFileImage e d).2.holds r = d.holds r) ∧
      (readFileImage e d).2 = { d with acc := (readFileImage e d).2.acc } := by
  have Bfile := take_balanced e.opened B hfile
  have himage' : (d.take .file e.opened).holds .image = false := by
    simpa [holds_take] using himage
  have Bpool := take_balanced e.pool Bfile himage'
  unfold readFileImage
  dsimp only
  split
  · rename_i ho
    refine ⟨Bfile, ?_, himage', fun r hr _ => ?_, rfl⟩
    · simpa [holds_take] using ho
    · simp [holds_take, hr]
  split
  · refine ⟨give_balanced Bfile, ?_, ?_, fun r hr _ => ?_, rfl⟩
    · simp [holds_give]
    · simpa [holds_give, holds_take] using himage
    · simp [holds_give, holds_take, hr]
  split
  · refine ⟨give_balanced Bfile, ?_, ?_, fun r hr _ => ?_, rfl⟩
    · simp [holds_give]
    · simpa [holds_give, holds_take] using himage
    · simp [holds_give, holds_take, hr]
  split
  · rename_i hp
    refine ⟨give_balanced Bpool, ?_, ?_, fun r hr hr' => ?_, rfl⟩
    · simp [holds_give]
    · simpa [holds_give, holds_take] using hp
    · simp [holds_give, holds_take, hr, hr']
  rename_i hp
  split
  · refine ⟨give_balanced (give_balanced Bpool), ?_, ?_, fun r hr hr' => ?_, rfl⟩
    · simp [holds_give]
    · simp [holds_give]
    · simp [holds_give, holds_take, hr, hr']
  · refine ⟨give_balanced Bpool, ?_, ?_, fun r hr hr' => ?_, rfl⟩
    · simp [holds_give]
    · simpa [holds_give, holds_take] using hp
    · simp [holds_give, holds_take, hr, hr']

theorem takeSections_spec (secs : List FwSection) (i : ℕ) (B : Balanced d.acc)
    (hfree : ∀ j, i ≤ j → d.holds (.fw (.backing j)) = false) :
    Balanced (takeSections secs i d).acc ∧
      (∀ j, (takeSections secs i d).sectionCount ≤ j →
        (takeSections secs i d).holds (.fw (.backing j)) = false) ∧
      (∀ r, (∀ j, r ≠ .fw (.backing j)) → (takeSections secs i d).holds r = d.holds r) ∧
      takeSections secs i d = { d with
        acc := (takeSections secs i d).acc
        sectionCount := (takeSections secs i d).sectionCount } := by
  induction secs generalizing i d with
  | nil => exact ⟨B, hfree, fun _ _ => rfl, rfl⟩
  | cons sec secs ih =>
    unfold takeSections
    split
    · obtain ⟨hB, hs, hr, hd⟩ := ih (i + 1)
        (take_balanced (r := .fw (.backing i)) true B (hfree i le_rfl))
        fun j hj => by
          rw [holds_take, if_neg (by simp only [Res.fw.injEq, Holder.backing.injEq]; omega)]
          exact hfree j (by omega)
      refine ⟨hB, hs, fun r hne => ?_, hd⟩
      rw [hr r hne, holds_take, if_neg (hne i)]
    · exact ih (i + 1) B fun j hj => hfree j (by omega)

/-- `taken` is held before the steps: nothing is taken twice, and every error path gives back
what is held there. -/
def covers : List Res → List (CsfStep × List Undo) → Bool
  | _, [] => true
  | taken, (c, err)::cs =>
    taken.all (fun r => decide (r ∈ frees err)) && (frees err).all Res.ofQueue &&
      match c with
      | .alloc h => Res.ofQueue (.fw h) && decide (.fw h ∉ taken) && covers (.fw h::taken) cs
      | _ => covers taken cs

def allocs (cs : List (CsfStep × List Undo)) : List Res :=
  cs.filterMap fun
    | (.alloc h, _) => some (.fw h)
    | _ => none

/-- What a run of the bootstrap's steps leaves: all of the buffers, or none of them. -/
structure Stepped (held : List Res) (d : Dev) (res : Bool × Dev) : Prop where
  balanced : Balanced res.2.acc
  queue : ∀ r, r.ofQueue = true → res.2.holds r = (res.1 && decide (r ∈ held))
  rest : ∀ r, r.ofQueue = false → res.2.holds r = d.holds r
  flags : res.2 = { d with acc := res.2.acc }

theorem undo_stepped {taken held : List Res} {us : List Undo} (B : Balanced d.acc)
    (hheld : ∀ r, r.ofQueue = true → d.holds r = decide (r ∈ taken))
    (hcov : ∀ r ∈ taken, r ∈ frees us) (hq : ∀ r ∈ frees us, r.ofQueue = true) :
    Stepped held d (false, undo us d) := by
  refine ⟨B.giveAll _, fun r hr => ?_, fun r hr => ?_, rfl⟩
  · refine (holds_giveAll d (frees us) r).trans ?_
    by_cases hmem : r ∈ taken
    · simp [hcov r hmem]
    · simp [hheld r hr, hmem]
  · refine (holds_giveAll d (frees us) r).trans ?_
    have hne : r ∉ frees us := by
      intro hmem
      rw [hq r hmem] at hr
      cases hr
    simp [hne]

theorem runSteps_cons (e : CsfEnv) (c : CsfStep) (err : List Undo) (cs : List (CsfStep × List Undo))
    (d : Dev) : runSteps e ((c, err)::cs) d =
      if (c.run e d).1 = true then runSteps e cs (c.run e d).2
      else (false, undo err (c.run e d).2) := rfl

theorem runSteps_spec (e : CsfEnv) {cs : List (CsfStep × List Undo)} {taken : List Res}
    (hcov : covers taken cs = true) (B : Balanced d.acc)
    (hheld : ∀ r, r.ofQueue = true → d.holds r = decide (r ∈ taken)) :
    Stepped (taken ++ allocs cs) d (runSteps e cs d) := by
  induction cs generalizing taken d with
  | nil =>
    refine ⟨B, fun r hr => ?_, fun _ _ => rfl, rfl⟩
    simp [runSteps, allocs, hheld r hr]
  | cons head cs ih =>
    obtain ⟨c, err⟩ := head
    simp only [covers, Bool.and_eq_true, List.all_eq_true, decide_eq_true_eq] at hcov
    obtain ⟨⟨herr, hq⟩, hcov⟩ := hcov
    cases c with
    | alloc h =>
      simp only [Bool.and_eq_true, decide_eq_true_eq] at hcov
      obtain ⟨⟨hof, hnew⟩, hcov⟩ := hcov
      have hfree : d.holds (.fw h) = false := by simp [hheld _ hof, hnew]
      have B' := take_balanced (e.alloc h) B hfree
      have hrest : ∀ r, r.ofQueue = false →
          (d.take (.fw h) (e.alloc h)).holds r = d.holds r := by
        intro r hr
        rw [holds_take, if_neg]
        rintro rfl
        rw [hof] at hr
        cases hr
      rw [runSteps_cons]
      by_cases hok : (CsfStep.run e d (.alloc h)).1 = true
      · rw [if_pos hok]
        change e.alloc h = true at hok
        have S := ih hcov B' fun r hr => by
          rw [holds_take, hheld r hr, hok]
          by_cases hrh : r = .fw h <;> simp [hrh]
        refine ⟨S.balanced, fun r hr => ?_, fun r hr => (S.rest r hr).trans (hrest r hr),
          S.flags⟩
        refine (S.queue r hr).trans ?_
        have hiff : r ∈ .fw h :: taken ++ allocs cs ↔
            r ∈ taken ++ allocs ((.alloc h, err)::cs) := by
          simp only [allocs, List.filterMap_cons, List.mem_append, List.mem_cons]
          tauto
        simp only [hiff]
        rfl
      · rw [if_neg hok]
        change ¬e.alloc h = true at hok
        have S : Stepped (taken ++ allocs ((.alloc h, err)::cs)) (d.take (.fw h) (e.alloc h))
            (false, undo err (d.take (.fw h) (e.alloc h))) := by
          refine undo_stepped B' (fun r hr => ?_) herr hq
          rw [holds_take, hheld r hr]
          split
          · rename_i hrh
            simp [hrh, hnew, hok]
          · rfl
        exact ⟨S.balanced, S.queue, fun r hr => (S.rest r hr).trans (hrest r hr), S.flags⟩
    | map h =>
      rw [runSteps_cons]
      by_cases hok : (CsfStep.run e d (.map h)).1 = true
      · rw [if_pos hok]
        exact ih hcov B hheld
      · rw [if_neg hok]
        exact undo_stepped B hheld herr hq
    | start =>
      rw [runSteps_cons]
      by_cases hok : (CsfStep.run e d .start).1 = true
      · rw [if_pos hok]
        exact ih hcov B hheld
      · rw [if_neg hok]
        exact undo_stepped B hheld herr hq

theorem csfBootstrap_stepped (e : CsfEnv) (B : Balanced d.acc)
    (hqueue : ∀ r, r.ofQueue = true → d.holds r = false) :
    Stepped (allocs bootSteps) d (csfBootstrap e d) := by
  have hcov : covers [] bootSteps = true := by decide
  unfold csfBootstrap
  split
  · exact ⟨B, fun r hr => by simp [hqueue r hr], fun _ _ => rfl, rfl⟩
  · exact runSteps_spec e hcov B fun r hr => by simp [hqueue r hr]

theorem allocs_bootSteps {r : Res} (hr : r.ofQueue = true) : r ∈ allocs bootSteps := by
  cases r with
  | fw h =>
    cases h with
    | gpu k => cases k <;> decide
    | mcu k => cases k <;> decide
    | _ => cases hr
  | _ => cases hr

theorem mem_csfTeardown {r : Res} : r ∈ frees csfTeardownActions ↔ r.ofQueue = true := by
  constructor
  · revert r
    decide
  · intro hr
    cases r with
    | fw h =>
      cases h with
      | gpu k => cases k <;> decide
      | mcu k => cases k <;> decide
      | _ => cases hr
    | _ => cases hr

theorem holds_csfTeardown {r : Res} :
    (csfTeardown d).holds r = (d.holds r && !r.ofQueue) := by
  refine (holds_giveAll d (frees csfTeardownActions) r).trans ?_
  simp only [mem_csfTeardown]
  cases r.ofQueue <;> simp

/-- A start or a stop of the firmware is over. -/
structure FwDone (d₀ d : Dev) : Prop where
  balanced : Balanced d.acc
  file : d.holds .file = false
  rest : ∀ r, r.ofFw = false → d.holds r = d₀.holds r
  fw : FwOk d
  regs : d.gpuRegsMapped = d₀.gpuRegsMapped
  mmuBound : d.gpuMmuAsBound = d₀.gpuMmuAsBound
  ready : d.mmuReady = d₀.mmuReady
  bytes : d.dmaSegmentBytes = d₀.dmaSegmentBytes

theorem Unloaded.done (U : Unloaded d₀ d) (halive : d₀.mcuAlive = false)
    (hjobs : d₀.csfJobs = false) : FwDone d₀ d := by
  have hctx := U.gone .fwCtx rfl
  have hgone (r : Res) (hr : r.inFwCtx = true) : d.holds r = false := by
    cases r with
    | image => exact U.gone .image rfl
    | fw h => exact U.gone (.fw h) rfl
    | _ => cases hr
  refine ⟨U.balanced, U.gone .file rfl, U.rest, ⟨?_, ?_, fun _ => hgone, fun i _ => hgone _ rfl,
    fun h => ?_⟩, ?_, ?_, ?_, ?_⟩
  · rw [hctx, U.flags]
    exact halive
  · rw [hctx, U.flags]
  · rw [U.flags] at h
    rw [hjobs] at h
    cases h
  all_goals rw [U.flags]

theorem ofQueue_not {r : Res} (hr : r.ofFw = false) : r.ofQueue = false := by
  cases r <;> simp [Res.ofFw, Res.ofQueue] at hr ⊢

theorem startKernelQueue_spec (e : CsfEnv) (B : Balanced d.acc) (hjobs : d.csfJobs = false)
    (hqueue : ∀ r, r.ofQueue = true → d.holds r = false) :
    Balanced (startKernelQueue e d).acc ∧
      (∀ r, r.ofQueue = false → (startKernelQueue e d).holds r = d.holds r) ∧
      ((startKernelQueue e d).csfJobs = true →
        ∀ r, r.ofQueue = true → (startKernelQueue e d).holds r = true) ∧
      startKernelQueue e d = { d with
        acc := (startKernelQueue e d).acc
        csfJobs := (startKernelQueue e d).csfJobs } := by
  unfold startKernelQueue
  split
  · refine ⟨B, fun _ _ => rfl, fun h => ?_, rfl⟩
    rw [hjobs] at h
    cases h
  have S := csfBootstrap_stepped e B hqueue
  split
  · rename_i u hu
    rw [hu] at S
    have hflags : u = { d with acc := u.acc } := S.flags
    refine ⟨S.balanced, S.rest, fun _ r hr => ?_, ?_⟩
    · refine (S.queue r hr).trans ?_
      simp [allocs_bootSteps hr]
    · conv_lhs => rw [hflags]
  · rename_i u hu
    rw [hu] at S
    have hflags : u = { d with acc := u.acc } := S.flags
    refine ⟨S.balanced.giveAll _, fun r hr => ?_, fun h => ?_, ?_⟩
    · rw [holds_csfTeardown, hr]
      simpa using S.rest r hr
    · cases h
    · conv_lhs => unfold csfTeardown undo; rw [hflags]
      rfl

theorem Loading.up (L : Loading true d₀ d) (e : FwEnv) (hjobs : d₀.csfJobs = false) :
    FwDone d₀ (fwUp e d) := by
  have hdjobs : d.csfJobs = false := by
    rw [L.flags]
    exact hjobs
  obtain ⟨B, hrest, hqueue, hflags⟩ := startKernelQueue_spec e.csf L.balanced hdjobs L.queue
  unfold fwUp
  generalize startKernelQueue e.csf d = q at B hrest hqueue hflags
  have hctx : q.holds .fwCtx = true := (hrest .fwCtx rfl).trans L.ctx
  have hbound : q.fwMcuAsBound = true := by rw [hflags, L.flags]
  have hsections (i : ℕ) (hi : q.sectionCount ≤ i) : q.holds (.fw (.backing i)) = false := by
    rw [hflags] at hi
    exact (hrest _ rfl).trans (L.sections i hi)
  have hdone {u : Dev} (hacc : u.acc = q.acc) (hsec : u.sectionCount = q.sectionCount)
      (halive : u.mcuAlive = true) (hb : u.fwMcuAsBound = q.fwMcuAsBound)
      (hj : u.csfJobs = true → q.csfJobs = true)
      (h₁ : u.gpuRegsMapped = q.gpuRegsMapped) (h₂ : u.gpuMmuAsBound = q.gpuMmuAsBound)
      (h₃ : u.mmuReady = q.mmuReady) (h₄ : u.dmaSegmentBytes = q.dmaSegmentBytes) :
      FwDone d₀ u := by
    have hu (r : Res) : u.holds r = q.holds r := by
      unfold Dev.holds
      rw [hacc]
    refine ⟨hacc ▸ B, ?_, fun r hr => ?_, ⟨?_, ?_, fun h => ?_, fun i hi => ?_, fun h => ?_⟩,
      ?_, ?_, ?_, ?_⟩
    · rw [hu, hrest .file rfl]
      exact L.file
    · rw [hu, hrest r (ofQueue_not hr)]
      exact L.rest r hr
    · rw [halive, hu, hctx]
    · rw [hb, hu, hctx, hbound]
    · rw [hu, hctx] at h
      cases h
    · rw [hu]
      exact hsections i (hsec ▸ hi)
    · exact ⟨(hu _).trans hctx, fun r hr => (hu r).trans (hqueue (hj h) r hr)⟩
    · rw [h₁, hflags, L.flags]
    · rw [h₂, hflags, L.flags]
    · rw [h₃, hflags, L.flags]
    · rw [h₄, hflags, L.flags]
  dsimp only
  split
  · exact hdone rfl rfl rfl rfl (fun h => by cases h) rfl rfl rfl rfl
  · exact hdone rfl rfl rfl rfl id rfl rfl rfl rfl

theorem Loading.mark (L : Loading b d₀ d) (b' : Bool) :
    Loading b' d₀ { d with fwMcuAsBound := b' } := by
  refine ⟨L.balanced, L.ctx, L.file, L.rest, L.queue, L.sections, ?_⟩
  conv_lhs => rw [L.flags]

theorem Loading.boot (L : Loading false d₀ d) (e : FwEnv) (halive : d₀.mcuAlive = false)
    (hjobs : d₀.csfJobs = false) : FwDone d₀ (fwBoot e d).2 := by
  unfold fwBoot
  split
  · exact L.fail.done halive hjobs
  · dsimp only
    split
    · exact (((L.mark true).mark false).fail).done halive hjobs
    · exact (L.mark true).up e hjobs

theorem Inv.done (I : Inv d) : FwDone d d :=
  ⟨I.balanced, I.file, fun _ _ => rfl, I.fw, rfl, rfl, rfl, rfl⟩

theorem FwOk.unloaded (F : FwOk d) (hctx : d.holds .fwCtx = false) :
    d.mcuAlive = false ∧ d.csfJobs = false ∧ d.fwMcuAsBound = false := by
  refine ⟨F.alive.trans hctx, ?_, F.bound.trans hctx⟩
  refine Bool.eq_false_iff.mpr fun h => ?_
  have hheld := (F.jobs h).1
  rw [hctx] at hheld
  cases hheld

theorem queue_inFwCtx {r : Res} (hr : r.ofQueue = true) : r.inFwCtx = true := by
  cases r <;> simp [Res.inFwCtx, Res.ofQueue] at hr ⊢

theorem holds_takeFwCtx {granted : Bool} {r : Res} :
    (takeFwCtx granted d).holds r = if r = .fwCtx then granted else d.holds r := by
  change (d.take .fwCtx granted).holds r = _
  exact holds_take

theorem takeFwCtx_balanced {granted : Bool} (B : Balanced d.acc) (h : d.holds .fwCtx = false) :
    Balanced (takeFwCtx granted d).acc := by
  change Balanced (d.take .fwCtx granted).acc
  exact take_balanced _ B h

theorem takeFwCtx_empty {granted : Bool} (I : Inv d) (hctx : d.holds .fwCtx = false) {r : Res}
    (hr : r.inFwCtx = true) : (takeFwCtx granted d).holds r = false := by
  rw [holds_takeFwCtx, if_neg (by rintro rfl; cases hr)]
  exact I.fw.fields hctx r hr

theorem takeFwCtx_refused (I : Inv d) (hctx : d.holds .fwCtx = false) :
    FwDone d (takeFwCtx false d) := by
  obtain ⟨halive, hjobs, hbound⟩ := I.fw.unloaded hctx
  refine ⟨takeFwCtx_balanced I.balanced hctx, ?_, fun r hr => ?_, ⟨?_, ?_,
    fun _ r hr => takeFwCtx_empty I hctx hr, fun i _ => takeFwCtx_empty I hctx rfl, fun h => ?_⟩,
    rfl, rfl, rfl, rfl⟩
  · rw [holds_takeFwCtx, if_neg (by simp)]
    exact I.file
  · rw [holds_takeFwCtx, if_neg (not_ofFw hr).1]
  · rw [holds_takeFwCtx, if_pos rfl]
    exact halive
  · rw [holds_takeFwCtx, if_pos rfl]
    exact hbound
  · change d.csfJobs = true at h
    rw [hjobs] at h
    cases h

theorem loading_start (I : Inv d) (hctx : d.holds .fwCtx = false) :
    Loading false d (takeFwCtx true d) := by
  refine ⟨takeFwCtx_balanced I.balanced hctx, ?_, ?_, fun r hr => ?_,
    fun r hr => takeFwCtx_empty I hctx (queue_inFwCtx hr),
    fun i _ => takeFwCtx_empty I hctx rfl, ?_⟩
  · rw [holds_takeFwCtx, if_pos rfl]
  · rw [holds_takeFwCtx, if_neg (by simp)]
    exact I.file
  · rw [holds_takeFwCtx, if_neg (not_ofFw hr).1]
  · have hbound := (I.fw.unloaded hctx).2.2
    conv_rhs => rw [← hbound]
    rfl

theorem Loading.empty_fail (L : Loading false d₀ d)
    (hnone : ∀ r, r.inFwCtx = true → d.holds r = false) : Unloaded d₀ (freeFwCtx d) :=
  freeFwCtx_unloaded L.balanced L.file hnone L.rest L.flags

theorem Loading.readFile (L : Loading false d₀ d) (e : FileEnv) (himage : d.holds .image = false) :
    Loading false d₀ (readFileImage e d).2 := by
  obtain ⟨B, hfile, -, hrest, hflags⟩ := readFileImage_spec e L.balanced L.file himage
  generalize (readFileImage e d).2 = u at *
  refine ⟨B, (hrest _ (by simp) (by simp)).trans L.ctx, hfile, fun r hr => ?_, fun r hr => ?_,
    fun i hi => ?_, ?_⟩
  · have hne := not_ofFw hr
    rw [hrest r hne.2.1 (by rintro rfl; cases hr), L.rest r hr]
  · rw [hrest r (by rintro rfl; cases hr) (by rintro rfl; cases hr), L.queue r hr]
  · rw [hflags] at hi
    rw [hrest _ (by simp) (by simp), L.sections i hi]
  · rw [hflags, L.flags]

theorem Loading.takeSections (L : Loading false d₀ d) (secs : List FwSection)
    (hback : ∀ i, d.holds (.fw (.backing i)) = false) :
    Loading false d₀ (takeSections secs 0 d) := by
  obtain ⟨B, hsections, hrest, hflags⟩ := takeSections_spec secs 0 L.balanced fun j _ => hback j
  generalize DeviceResources.takeSections secs 0 d = u at *
  refine ⟨B, (hrest _ (by simp)).trans L.ctx, (hrest _ (by simp)).trans L.file, fun r hr => ?_,
    fun r hr => ?_, hsections, ?_⟩
  · rw [hrest r (by rintro j rfl; cases hr), L.rest r hr]
  · rw [hrest r (by rintro j rfl; cases hr), L.queue r hr]
  · rw [hflags, L.flags]

theorem Loading.takePool (L : Loading false d₀ d) (granted : Bool)
    (hpool : d.holds (.fw .ptPool) = false) :
    Loading false d₀ (d.take (.fw .ptPool) granted) := by
  refine ⟨take_balanced granted L.balanced hpool, ?_, ?_, fun r hr => ?_, fun r hr => ?_,
    fun i hi => ?_, ?_⟩
  · simp [holds_take, L.ctx]
  · simp [holds_take, L.file]
  · rw [holds_take, if_neg (by rintro rfl; cases hr), L.rest r hr]
  · rw [holds_take, if_neg (by rintro rfl; cases hr), L.queue r hr]
  · rw [holds_take, if_neg (by simp)]
    exact L.sections i hi
  · conv_lhs => unfold Dev.take; rw [L.flags]
    rfl

theorem fwInit_done (e : FwEnv) (I : Inv d) : FwDone d (fwInit e d).2 := by
  unfold fwInit
  split
  · exact I.done
  split
  · exact I.done
  rename_i hheld
  have hctx : d.holds .fwCtx = false := by simpa using hheld
  obtain ⟨halive, hjobs, -⟩ := I.fw.unloaded hctx
  dsimp only
  by_cases hpool : e.pool = true
  swap
  · rw [Bool.not_eq_true] at hpool
    rw [hpool]
    exact takeFwCtx_refused I hctx
  rw [hpool, if_neg (by simp)]
  have L := loading_start I hctx
  have hnone {r : Res} (hr : r.inFwCtx = true) : (takeFwCtx true d).holds r = false :=
    takeFwCtx_empty I hctx hr
  split
  · exact (L.empty_fail fun r hr => hnone hr).done halive hjobs
  have R := L.readFile e.file (hnone rfl)
  obtain ⟨-, -, hread, hrest, -⟩ := readFileImage_spec e.file L.balanced L.file (hnone rfl)
  have hfw (h : Holder) : (readFileImage e.file (takeFwCtx true d)).2.holds (.fw h) = false :=
    (hrest _ (by simp) (by simp)).trans (hnone rfl)
  split
  · rename_i hno
    refine (R.empty_fail fun r hr => ?_).done halive hjobs
    cases r with
    | image => simpa [hread] using hno
    | fw h => exact hfw h
    | _ => cases hr
  have T := R.takeSections (parseImage e.img e.backing).2.sections fun i => hfw _
  split
  · exact T.fail.done halive hjobs
  have hpt := (takeSections_spec (parseImage e.img e.backing).2.sections 0 R.balanced
    fun j _ => hfw _).2.2.1 (.fw .ptPool) (by simp)
  have P := T.takePool e.ptPool (hpt.trans (hfw _))
  split
  · exact P.fail.done halive hjobs
  · exact P.boot e halive hjobs

theorem fwTeardown_done (I : Inv d) : FwDone d (fwTeardown d) ∧
    ∀ r, r.ofFw = true → (fwTeardown d).holds r = false := by
  unfold fwTeardown
  split
  · rename_i hheld
    have hctx : d.holds .fwCtx = false := by simpa using hheld
    refine ⟨I.done, fun r hr => ?_⟩
    rcases ofFw_cases hr with rfl | rfl | hin
    · exact hctx
    · exact I.file
    · exact I.fw.fields hctx r hin
  · dsimp only
    have hc (r : Res) : ({ csfTeardown d with fwMcuAsBound := false, mcuAlive := false } :
        Dev).holds r = (d.holds r && !r.ofQueue) := holds_csfTeardown
    have hB : Balanced ({ csfTeardown d with fwMcuAsBound := false, mcuAlive := false } :
        Dev).acc := I.balanced.giveAll _
    have U : Unloaded { d with mcuAlive := false, csfJobs := false } (freeFwCtx (releaseResources
        { csfTeardown d with fwMcuAsBound := false, mcuAlive := false })) := by
      refine freeFwCtx_unloaded (release_balanced hB) ?_ (fun r hr => ?_) (fun r hr => ?_) rfl
      · rw [holds_release rfl, hc, I.file]
        rfl
      · refine release_gone (fun r hr => ?_) (fun i hi => ?_) hr
        · rw [hc, hr]
          simp
        · rw [hc, I.fw.sections i hi]
          rfl
      · rw [holds_release (not_ofFw hr).2.2, hc, ofQueue_not hr]
        simp [Dev.holds]
    have D := U.done rfl rfl
    exact ⟨⟨D.balanced, D.file, D.rest, D.fw, D.regs, D.mmuBound, D.ready, D.bytes⟩, U.gone⟩

end Firmware

section Device

variable {d d' : Dev}

theorem MmuOk.congr (M : MmuOk d) (h : ∀ r, r.ofMmu = true → d'.holds r = d.holds r)
    (hready : d'.mmuReady = d.mmuReady) (hbound : d'.gpuMmuAsBound = d.gpuMmuAsBound)
    (hbytes : d'.dmaSegmentBytes = d.dmaSegmentBytes) : MmuOk d' := by
  obtain ⟨h₁, h₂, h₃, h₄, h₅⟩ := M
  rw [← h _ rfl, ← hready] at h₁ h₂
  rw [← hbound, ← hready] at h₃
  rw [← hready, ← hbytes, ← h _ rfl] at h₄
  rw [← hbytes, ← h _ rfl] at h₅
  exact ⟨h₁, h₂, h₃, h₄, h₅⟩

theorem FwOk.congr (F : FwOk d) (h : ∀ r, r.ofFw = true → d'.holds r = d.holds r)
    (halive : d'.mcuAlive = d.mcuAlive) (hbound : d'.fwMcuAsBound = d.fwMcuAsBound)
    (hjobs : d'.csfJobs = d.csfJobs) (hsections : d'.sectionCount = d.sectionCount) : FwOk d' := by
  have hctx := h .fwCtx rfl
  refine ⟨?_, ?_, fun hno r hr => ?_, fun i hi => ?_, fun hj => ?_⟩
  · rw [halive, hctx, F.alive]
  · rw [hbound, hctx, F.bound]
  · rw [h r (by cases r <;> simp [Res.inFwCtx, Res.ofFw] at hr ⊢)]
    exact F.fields (hctx ▸ hno) r hr
  · rw [h _ rfl]
    exact F.sections i (hsections ▸ hi)
  · obtain ⟨hheld, hq⟩ := F.jobs (hjobs ▸ hj)
    refine ⟨hctx.trans hheld, fun r hr => ?_⟩
    rw [h r (by cases r <;> simp [Res.ofQueue, Res.ofFw] at hr ⊢)]
    exact hq r hr

theorem FwDone.inv (D : FwDone d d') (I : Inv d) : Inv d' := by
  have hmmu (r : Res) (hr : r.ofMmu = true) : r.ofFw = false := by
    cases r <;> simp [Res.ofMmu, Res.ofFw] at hr ⊢
  refine ⟨D.balanced, ?_, ?_, D.file, ?_, D.fw⟩
  · rw [D.rest _ rfl, D.regs, I.regs]
  · rw [D.rest _ rfl, I.thread]
  · exact I.mmu.congr (fun r hr => D.rest r (hmmu r hr)) D.ready D.mmuBound D.bytes

theorem MmuStep.inv (F : MmuStep d d') (I : Inv d) (B : Balanced d'.acc) (M : MmuOk d') :
    Inv d' := by
  have hfw (r : Res) (hr : r.ofFw = true) : r.ofMmu = false := by
    cases r <;> simp [Res.ofMmu, Res.ofFw] at hr ⊢
  refine ⟨B, ?_, ?_, ?_, M, ?_⟩
  · rw [F.holds _ rfl, F.regs, I.regs]
  · rw [F.holds _ rfl, I.thread]
  · rw [F.holds _ rfl, I.file]
  · exact I.fw.congr (fun r hr => F.holds r (hfw r hr)) F.alive F.bound F.jobs F.sections

/-- A step that touches none of the memory of the MMU and of the firmware. -/
theorem Inv.other (I : Inv d) {acc : Accounts Res} (regs : Bool) (B : Balanced acc)
    (h : ∀ r, r.ofMmu = true ∨ r.ofFw = true → held acc r = d.holds r)
    (hregs : held acc .gpuRegs = regs) (hthread : held acc .thread = false) :
    Inv { d with acc := acc, gpuRegsMapped := regs } :=
  ⟨B, hregs, hthread, (h _ (.inr rfl)).trans I.file,
    I.mmu.congr (fun r hr => h r (.inl hr)) rfl rfl rfl,
    I.fw.congr (fun r hr => h r (.inr hr)) rfl rfl rfl rfl⟩

theorem vidmm_inv (granted : ℕ → Bool) (I : Inv d) : Inv (vidmmAllocateSegment granted d) := by
  unfold vidmmAllocateSegment
  split
  · exact I
  rename_i hseg
  have hseg : d.holds .dmaSegment = false := by simpa using hseg
  have hready : d.mmuReady = false := by
    refine Bool.eq_false_iff.mpr fun h => ?_
    have hheld := (I.mmu.segment h).1
    rw [hseg] at hheld
    cases hheld
  split
  · exact I
  · rename_i bytes hbytes
    have hbounds := shrink_spec hbytes
    have F : MmuStep d (takeDmaSegment bytes d) :=
      (MmuStep.take (r := .dmaSegment) rfl true).trans (MmuStep.flags _ _ bytes)
    have hheld : (takeDmaSegment bytes d).holds .dmaSegment = true := by
      simp [holds_takeDmaSegment]
    have hpos : 0 < bytes := Nat.lt_of_lt_of_le (by decide) hbounds.1
    refine F.inv I (takeDmaSegment_balanced I.balanced hseg)
      ⟨?_, ?_, I.mmu.bound, fun h => ?_, ⟨fun _ => hpos, fun _ => hheld⟩⟩
    · change _ = d.mmuReady
      simpa [holds_takeDmaSegment] using I.mmu.heap
    · change _ = d.mmuReady
      simpa [holds_takeDmaSegment] using I.mmu.aperture
    · change d.mmuReady = true at h
      rw [hready] at h
      cases h

theorem schedInit_inv (e : SchedEnv) (I : Inv d) : Inv (schedInit e d) := by
  unfold schedInit
  split
  · exact I
  rename_i hworker
  have hworker : d.holds .submitWorkerThread = false := by simpa using hworker
  have B := take_balanced e.create I.balanced I.thread
  dsimp only
  split
  · rename_i hno
    refine I.other d.gpuRegsMapped B (fun r hr => ?_) ?_ ?_
    · exact holds_take.trans (if_neg (by rintro rfl; simp [Res.ofMmu, Res.ofFw] at hr))
    · exact (holds_take.trans (if_neg (by simp))).trans I.regs
    · refine holds_take.trans ?_
      simpa using hno
  · have B' := take_balanced (r := .submitWorkerThread) e.reference B
      (by simpa [holds_take] using hworker)
    have hheld (r : Res) (h₁ : r ≠ .thread) (h₂ : r ≠ .submitWorkerThread) :
        (((d.take .thread e.create).take .submitWorkerThread e.reference).give .thread).holds r =
          d.holds r := by
      simp [holds_give, holds_take, h₁, h₂]
    refine I.other d.gpuRegsMapped (give_balanced B') (fun r hr => hheld r ?_ ?_)
      ((hheld _ (by simp) (by simp)).trans I.regs) ?_
    · rintro rfl
      simp [Res.ofMmu, Res.ofFw] at hr
    · rintro rfl
      simp [Res.ofMmu, Res.ofFw] at hr
    · exact holds_give.trans (by simp)

theorem schedTeardown_inv (I : Inv d) : Inv (schedTeardown d) := by
  have hheld (r : Res) (h : r ≠ .submitWorkerThread) :
      (d.give .submitWorkerThread).holds r = d.holds r := by
    simp [holds_give, h]
  refine I.other d.gpuRegsMapped (give_balanced I.balanced) (fun r hr => hheld r ?_)
    ((hheld _ (by simp)).trans I.regs) ((hheld _ (by simp)).trans I.thread)
  rintro rfl
  simp [Res.ofMmu, Res.ofFw] at hr

theorem bringupHardware_inv (e : StartEnv) (I : Inv d) : Inv (bringupHardware e d).2 := by
  unfold bringupHardware
  split
  · exact I
  rename_i hheld
  have hnone : d.holds .gpuRegs = false := by simpa using hheld
  have B := take_balanced e.regs I.balanced hnone
  have hother (r : Res) (h : r ≠ .gpuRegs) : (d.take .gpuRegs e.regs).holds r = d.holds r := by
    simp [holds_take, h]
  have hself : (d.take .gpuRegs e.regs).holds .gpuRegs = e.regs := by simp [holds_take]
  have hfar (r : Res) (hr : r.ofMmu = true ∨ r.ofFw = true) : r ≠ .gpuRegs := by
    rintro rfl
    simp [Res.ofMmu, Res.ofFw] at hr
  dsimp only
  split
  · rename_i hno
    refine I.other d.gpuRegsMapped B (fun r hr => hother r (hfar r hr)) ?_
      ((hother _ (by simp)).trans I.thread)
    rw [← I.regs, hnone]
    refine hself.trans ?_
    simpa using hno
  · rename_i hok
    refine I.other true B (fun r hr => hother r (hfar r hr)) (hself.trans ?_)
      ((hother _ (by simp)).trans I.thread)
    simpa using hok

theorem startDevice_inv (e : StartEnv) (I : Inv d) : Inv (startDevice e d) := by
  unfold startDevice
  split
  · exact I
  have H := bringupHardware_inv e I
  dsimp only
  split
  · exact H
  have M : Inv (if (bringupHardware e d).2.gpuRegsMapped then
      mmuInit e.mmu (bringupHardware e d).2 else (bringupHardware e d).2) := by
    split
    · obtain ⟨F, B, hok⟩ := mmuInit_spec e.mmu H.balanced H.mmu
      exact F.inv H B hok
    · exact H
  generalize (if (bringupHardware e d).2.gpuRegsMapped then
    mmuInit e.mmu (bringupHardware e d).2 else (bringupHardware e d).2) = m at M ⊢
  have V := vidmm_inv e.segment M
  refine schedInit_inv e.sched ?_
  split
  · exact (fwInit_done e.fw V).inv V
  · exact V

theorem mmuTeardown_inv (I : Inv d) : Inv (mmuTeardown d) :=
  MmuStep.mmuTeardown.inv I (mmuTeardown_balanced I.balanced) (mmuTeardown_off I.mmu.bytes).ok

/-- After the MMU is down the segment is free already. -/
theorem freeDmaSegment_mmuTeardown (d : Dev) :
    freeDmaSegment (mmuTeardown d) = mmuTeardown d := by
  have hseg : (mmuTeardown d).holds .dmaSegment = false := by
    simp [holds_mmuTeardown, Res.ofMmu]
  rw [freeDmaSegment, hseg]
  rfl

theorem teardownHardware_inv (I : Inv d) : Inv (teardownHardware d) := by
  unfold teardownHardware
  split
  · have hother (r : Res) (h : r ≠ .gpuRegs) : (d.give .gpuRegs).holds r = d.holds r := by
      simp [holds_give, h]
    refine I.other false (give_balanced I.balanced) (fun r hr => hother r ?_)
      (holds_give.trans (by simp)) ((hother _ (by simp)).trans I.thread)
    rintro rfl
    simp [Res.ofMmu, Res.ofFw] at hr
  · exact I

theorem holds_teardownHardware {r : Res} :
    (teardownHardware d).holds r = (d.holds r && decide (r ≠ .gpuRegs)) := by
  unfold teardownHardware
  split
  · exact holds_give
  · rename_i h
    by_cases hr : r = .gpuRegs
    · subst hr
      simpa using h
    · simp [hr]

theorem stopDevice_inv (I : Inv d) : Inv (stopDevice d) := by
  unfold stopDevice
  rw [freeDmaSegment_mmuTeardown]
  have S := schedTeardown_inv I
  exact teardownHardware_inv (mmuTeardown_inv ((fwTeardown_done S).1.inv S))

theorem stopDevice_holds (I : Inv d) (r : Res) : (stopDevice d).holds r = false := by
  have S := schedTeardown_inv I
  obtain ⟨D, hgone⟩ := fwTeardown_done S
  unfold stopDevice
  rw [freeDmaSegment_mmuTeardown, holds_teardownHardware, holds_mmuTeardown]
  cases hfw : r.ofFw with
  | true => simp [hgone r hfw]
  | false =>
    rw [D.rest r hfw]
    cases r with
    | submitWorkerThread => simp [schedTeardown, holds_give]
    | thread => simp [S.thread]
    | _ => simp [Res.ofMmu, Res.ofFw] at hfw ⊢

theorem step_inv {op : Op} (I : Inv d) (h : step d op = some d') : Inv d' := by
  cases op with
  | startDevice e =>
    obtain rfl := Option.some.inj h
    exact startDevice_inv e I
  | stopDevice =>
    obtain rfl := Option.some.inj h
    exact stopDevice_inv I

theorem added_inv : Inv added := by
  refine ⟨balanced_empty, rfl, rfl, rfl, ⟨rfl, rfl, rfl, fun h => ?_, ?_⟩,
    ⟨rfl, rfl, fun _ _ _ => rfl, fun _ _ => rfl, fun h => ?_⟩⟩
  · cases h
  · simp [added, Dev.holds, held, empty]
  · cases h

end Device

theorem reach_inv {ops : List Op} {d : Dev} (h : exec step added ops = some d) : Inv d :=
  exec_invariant (fun _ _ _ I _ hl => step_inv I hl) added_inv (guarded_true _ _ _) h

/-- Whatever is refused and whatever fails, a start or a stop loses nothing and frees nothing
twice, and after a stop nothing is held. -/
theorem nothing_leaks {ops : List Op} {d : Dev} (h : exec step added ops = some d) :
    Balanced d.acc ∧ (stopDevice d).acc.live = [] :=
  have I := reach_inv h
  ⟨I.balanced, (stopDevice_inv I).balanced.nothing_out (stopDevice_holds I)⟩

/-- The flags of the adapter tell what there is: the tables and a segment inside the aperture's
window, the firmware's context, and every buffer of the kernel queue. -/
theorem flags_tell {ops : List Op} {d : Dev} (h : exec step added ops = some d) :
    (d.mmuReady = true → d.holds .mmuScratchHeap = true ∧ d.holds .apertureL3 = true ∧
      d.holds .dmaSegment = true ∧ d.gpuMmuAsBound = true ∧ d.dmaSegmentBytes ≤ mib 128) ∧
    (d.mcuAlive = true ↔ d.holds .fwCtx = true) ∧
    (d.csfJobs = true → d.mcuAlive = true ∧
      (∀ k, d.holds (.fw (.gpu k)) = true) ∧ ∀ k, d.holds (.fw (.mcu k)) = true) := by
  have I := reach_inv h
  refine ⟨fun hready => ?_, by rw [I.fw.alive], fun hjobs => ?_⟩
  · have hseg := I.mmu.segment hready
    exact ⟨I.mmu.heap.trans hready, I.mmu.aperture.trans hready, hseg.1,
      I.mmu.bound.trans hready, hseg.2⟩
  · obtain ⟨hctx, hqueue⟩ := I.fw.jobs hjobs
    exact ⟨I.fw.alive.trans hctx, fun k => hqueue _ rfl, fun k => hqueue _ rfl⟩

/-- The aperture's tables are refused at the first start, and the power of the firmware at the
second. -/
def poorStart (aperture : Bool) : StartEnv where
  resources := true
  regs := true
  hw := true
  mmu := ⟨true, fun bytes => bytes ≤ mib 64, aperture, true⟩
  segment := fun bytes => bytes ≤ mib 64
  fw := ⟨true, false, ⟨true, true, 1, true, true⟩, ⟨1, fun _ => 0, by decide⟩, fun _ => none,
    true, true, true, true, true, true, true, true, ⟨true, fun _ => true, fun _ => true, true⟩,
    true⟩
  sched := ⟨true, true⟩

theorem poorStarts_clean : (startDevice (poorStart true) (startDevice (poorStart false)
      added)).acc.live.length = 5 ∧
    (stopDevice (startDevice (poorStart true) (startDevice (poorStart false) added))).acc.live =
      [] := by
  have h : exec step added [.startDevice (poorStart false), .startDevice (poorStart true)] =
      some (startDevice (poorStart true) (startDevice (poorStart false) added)) := rfl
  exact ⟨by decide +kernel, (nothing_leaks h).2⟩

theorem poorStart_flags : (startDevice (poorStart true) added).dmaSegmentBytes = mib 64 ∧
    (startDevice (poorStart true) added).gpuMmuAsBound = true := by
  have h : exec step added [.startDevice (poorStart true)] =
      some (startDevice (poorStart true) added) := rfl
  have hready : (startDevice (poorStart true) added).mmuReady = true := by decide +kernel
  exact ⟨by decide +kernel, ((flags_tell h).1 hready).2.2.2.1⟩

end WinMali.DeviceResources
