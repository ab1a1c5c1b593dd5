import Mathlib.Data.List.Induction
import WinMaliKmd.CsfIfaces
import WinMaliKmd.Runs
import WinMaliKmd.StickyFlags

/-!
# Interrupts and the boot of the firmware

The interrupt routine and the boot poll, one register access a step, while the registers are
mapped. Any number of calls of the routine are under way. The GPU raises bits of the three
interrupt words and sets fault registers at any step, and the firmware, once it runs, writes the
version word before it raises `GLOBAL_IF`. A recovery of a faulted slot takes one bit down
without reading it, and a poll of the start that does not find `GLOBAL_IF` reads the word and
leaves it to the routine.
-/

set_option autoImplicit false

namespace WinMali.Interrupts
open WinMali.Lpae WinMali.Runs WinMali.StickyFlags
open WinMali.CsfIfaces (IfaceStatus)

def gpuIrqFault : BitVec 32 := 1 <<< 0

def gpuIrqProtmFault : BitVec 32 := 1 <<< 1

def jobIntGlobalIf : BitVec 32 := 1 <<< 31

inductive Block
  | gpu
  | job
  | mmu
deriving DecidableEq, Repr

inductive Pc
  | out
  | readJob
  | readMmu
  | readGpuStatus
  | readAsStatus (as : ℕ)
  | exchange
  | report
  | clear (b : Block)
  | count
  | total
deriving DecidableEq, Repr

/-- A call of the interrupt routine and its locals. -/
structure Call where
  pc : Pc
  gpuRaw : BitVec 32
  jobRaw : BitVec 32
  mmuRaw : BitVec 32
  gpFs : BitVec 32
  asHit : ℕ
  asFs : BitVec 32
  handled : Bool
deriving DecidableEq, Repr

def Call.idle : Call := ⟨.out, 0, 0, 0, 0, 0xFF, 0, false⟩

def Call.raw (c : Call) : Block → BitVec 32
  | .gpu => c.gpuRaw
  | .job => c.jobRaw
  | .mmu => c.mmuRaw

/-- The lines that the routine prints. -/
inductive Line
  | gpuFault (raw status : BitVec 32) (addr : BitVec 64)
  | mmuFault (as : ℕ) (raw status : BitVec 32) (addr : BitVec 64)
  | total (total : BitVec 64) (gpu job mmu : BitVec 32)
deriving DecidableEq, Repr

def Line.isGpuFault : Line → Bool
  | .gpuFault _ _ _ => true
  | _ => false

def Line.isMmuFault : Line → Bool
  | .mmuFault _ _ _ _ => true
  | _ => false

def Line.isTotal : Line → Bool
  | .total _ _ _ _ => true
  | _ => false

/-- Where the start of the firmware is. Its ends are `live`, `failed` and `refused`, when it does
not take the interfaces that the firmware describes. -/
inductive Boot
  | clear (b : Block)
  | mask (b : Block)
  | kick
  | poll (i : ℕ)
  | ack (raw : BitVec 32)
  | version (i : ℕ)
  | delay (i : ℕ)
  | shared (i : ℕ)
  | glbIface
  | csfIfaces
  | globalIface
  | bootstrap
  | arm (b : Block)
  | live
  | failed (st : NtStatus)
  | refused (st : IfaceStatus)
deriving DecidableEq, Repr

/-- The section that holds the version word: its index may be none of the list's, and it may
have no memory. `glb` and `csf` are what `SetupGlbIface_` and `InitCsfIfaces_` make of its other
words (`CsfIfaces.setupGlbIface`, `CsfIfaces.initCsfIfaces`). -/
inductive Shared
  | missing
  | unbacked
  | backed (glb csf : IfaceStatus)
deriving DecidableEq, Repr

def Shared.isBacked : Shared → Bool
  | .backed _ _ => true
  | _ => false

/-- How the interfaces are refused, if they are. -/
def Shared.refusal : Shared → Option IfaceStatus
  | .backed glb csf => if glb ≠ .success then some glb else if csf ≠ .success then some csf else none
  | _ => none

/-- `sharedVer` is the version word, `reported` the static of the routine, and `calls` counts
the calls that have ended. -/
structure State where
  flags : Block → Flags 32
  mask : Block → BitVec 32
  gpuFaultStatus : BitVec 32
  gpuFaultAddr : BitVec 64
  asFaultStatus : ℕ → BitVec 32
  asFaultAddr : ℕ → BitVec 64
  mcuAuto : Bool
  shared : Shared
  sharedVer : BitVec 32
  boot : Boot
  isr : ℕ → Call
  reported : Bool
  interruptsHandled : BitVec 64
  interruptsSpurious : BitVec 64
  interruptsTotal : BitVec 64
  log : List Line
  calls : ℕ

def State.setFlags (s : State) (b : Block) (f : Flags 32) : State :=
  { s with flags := fun k => if k = b then f else s.flags k }

def State.setMask (s : State) (b : Block) (v : BitVec 32) : State :=
  { s with mask := fun k => if k = b then v else s.mask k }

def State.setCall (s : State) (tid : ℕ) (c : Call) : State :=
  { s with isr := fun n => if n = tid then c else s.isr n }

/-- A bit of either kind that the MMU raises for an address space. -/
def asBits (as : ℕ) : BitVec 32 := (1 : BitVec 32) <<< as ||| (1 : BitVec 32) <<< (as + 16)

def gpuFaultBits : BitVec 32 := gpuIrqFault ||| gpuIrqProtmFault

/-- The lines of a fault report. -/
def Call.lines (c : Call) (s : State) : List Line :=
  (if c.gpFs ≠ 0 then [.gpuFault c.gpuRaw c.gpFs s.gpuFaultAddr] else []) ++
    if c.asFs ≠ 0 then [.mmuFault c.asHit c.mmuRaw c.asFs (s.asFaultAddr c.asHit)] else []

/-- The call has read the three words, and decodes a fault if one may be there. -/
def Call.decode (c : Call) : Call :=
  if c.gpuRaw &&& gpuFaultBits ≠ 0 ∨ c.mmuRaw ≠ 0 then { c with pc := .readGpuStatus }
  else { c with pc := .clear .gpu }

/-- What follows the write to the clear register of a block. -/
def afterClear : Block → Pc
  | .gpu => .clear .job
  | .job => .clear .mmu
  | .mmu => .count

/-- The first line and every 8192nd. -/
def telemetry (total : BitVec 64) (c : Call) : List Line :=
  if total = 1 ∨ total &&& 0x1FFF = 0 then [.total total c.gpuRaw c.jobRaw c.mmuRaw] else []

/-- The next register access of a call. -/
def interruptRoutine (s : State) (tid : ℕ) : State :=
  let c := s.isr tid
  match c.pc with
  | .out =>
    (s.setFlags .gpu (s.flags .gpu).see).setCall tid
      { Call.idle with pc := .readJob, gpuRaw := (s.flags .gpu).raw }
  | .readJob =>
    (s.setFlags .job (s.flags .job).see).setCall tid
      { c with pc := .readMmu, jobRaw := (s.flags .job).raw }
  | .readMmu =>
    (s.setFlags .mmu (s.flags .mmu).see).setCall tid
      { c with mmuRaw := (s.flags .mmu).raw }.decode
  | .readGpuStatus =>
    s.setCall tid { c with
      pc := .readAsStatus 0
      gpFs := if c.gpuRaw &&& gpuFaultBits ≠ 0 then s.gpuFaultStatus else 0 }
  | .readAsStatus as =>
    if as < 8 then
      if c.mmuRaw &&& asBits as ≠ 0 ∧ s.asFaultStatus as ≠ 0 then
        s.setCall tid { c with pc := .exchange, asHit := as, asFs := s.asFaultStatus as }
      else s.setCall tid { c with pc := .readAsStatus (as + 1) }
    else s.setCall tid { c with pc := .exchange }
  | .exchange =>
    if c.gpFs ≠ 0 ∨ c.asFs ≠ 0 then
      { s.setCall tid { c with pc := if s.reported then .clear .gpu else .report } with
        reported := true }
    else s.setCall tid { c with pc := .clear .gpu }
  | .report =>
    { s.setCall tid { c with pc := .clear .gpu } with log := s.log ++ c.lines s }
  | .clear b =>
    if c.raw b ≠ 0 then
      (s.setFlags b ((s.flags b).clear (c.raw b))).setCall tid
        { c with pc := afterClear b, handled := true }
    else s.setCall tid { c with pc := afterClear b }
  | .count =>
    if c.handled then
      { s.setCall tid { c with pc := .total } with interruptsHandled := s.interruptsHandled + 1 }
    else
      { s.setCall tid { c with pc := .total } with interruptsSpurious := s.interruptsSpurious + 1 }
  | .total =>
    { s.setCall tid Call.idle with
      interruptsTotal := s.interruptsTotal + 1
      log := s.log ++ telemetry (s.interruptsTotal + 1) c
      calls := s.calls + 1 }

def Block.next : Block → Option Block
  | .gpu => some .job
  | .job => some .mmu
  | .mmu => none

def armedMask : Block → BitVec 32
  | .gpu => 0x000000FF
  | .job => jobIntGlobalIf
  | .mmu => 0x0000FFFF

/-- The next access of the start of the firmware. -/
def fwInit (s : State) : State :=
  match s.boot with
  | .clear b =>
    { s.setFlags b ((s.flags b).discard 0xffffffff) with
      boot := (b.next.map Boot.clear).getD (.mask .gpu) }
  | .mask b => { s.setMask b 0 with boot := (b.next.map Boot.mask).getD .kick }
  | .kick => { s with mcuAuto := true, boot := .poll 0 }
  | .poll i =>
    if i < 1000 then
      if (s.flags .job).raw &&& jobIntGlobalIf ≠ 0 then
        { s.setFlags .job (s.flags .job).see with boot := .ack (s.flags .job).raw }
      else { s with boot := .version i }
    else { s with boot := .failed .ioTimeout }
  | .ack raw =>
    { s.setFlags .job ((s.flags .job).clear raw) with boot := .shared 0 }
  | .version i =>
    if s.shared.isBacked ∧ s.sharedVer ≠ 0 then { s with boot := .shared 0 }
    else { s with boot := .delay i }
  | .delay i => { s with boot := .poll (i + 1) }
  | .shared i =>
    match s.shared with
    | .missing => { s with boot := .failed .notFound }
    | .unbacked => { s with boot := .failed .invalidParameter }
    | .backed _ _ =>
      if i < 2000 then
        if s.sharedVer ≠ 0 then { s with boot := .glbIface }
        else { s with boot := .shared (i + 1) }
      else { s with boot := .failed .deviceNotReady }
  | .glbIface =>
    match s.shared with
    | .backed glb _ =>
      if s.sharedVer = 0 then { s with boot := .refused .deviceNotReady }
      else if glb ≠ .success then { s with boot := .refused glb }
      else { s with boot := .csfIfaces }
    | _ => { s with boot := .refused .notFound }
  | .csfIfaces =>
    match s.shared with
    | .backed _ csf =>
      if csf ≠ .success then { s with boot := .refused csf } else { s with boot := .globalIface }
    | _ => { s with boot := .refused .invalidParameter }
  -- the requests to the firmware touch none of these words, and no failure ends the start
  | .globalIface => { s with boot := .bootstrap }
  | .bootstrap => { s with boot := .arm .gpu }
  | .arm b => { s.setMask b (armedMask b) with boot := (b.next.map Boot.arm).getD .live }
  | .live | .failed _ | .refused _ => s

/-- The first two are the driver's, `recover` is the write of a slot's recovery, and the others
are the hardware's and the firmware's. -/
inductive Label
  | isr (tid : ℕ)
  | boot
  | recover (as : ℕ)
  | raise (b : Block) (v : BitVec 32)
  | gpuFault (status : BitVec 32) (addr : BitVec 64)
  | asFault (as : ℕ) (status : BitVec 32) (addr : BitVec 64)
  | version (v : BitVec 32)
deriving DecidableEq, Repr

/-- The firmware raises `GLOBAL_IF` after it has written the version word. -/
def step (s : State) : Label → Option State
  | .isr tid => some (interruptRoutine s tid)
  | .boot => some (fwInit s)
  | .recover as => some (s.setFlags .mmu ((s.flags .mmu).discard ((1 : BitVec 32) <<< as)))
  | .raise b v =>
    if b = .job ∧ v &&& jobIntGlobalIf ≠ 0 ∧ s.sharedVer = 0 then none
    else some (s.setFlags b ((s.flags b).raise v))
  | .gpuFault status addr => some { s with gpuFaultStatus := status, gpuFaultAddr := addr }
  | .asFault as status addr =>
    some { s with
      asFaultStatus := fun n => if n = as then status else s.asFaultStatus n
      asFaultAddr := fun n => if n = as then addr else s.asFaultAddr n }
  | .version v => if s.mcuAuto = false ∨ v = 0 then none else some { s with sharedVer := v }

/-- Before the clears of `FwInit`: the words and fault registers are as they are found, with no
bit of theirs read, and the firmware does not run. -/
def initial (raw mask : Block → BitVec 32) (gpuFaultStatus : BitVec 32)
    (asFaultStatus : ℕ → BitVec 32) (shared : Shared) : State where
  flags b := ⟨raw b, raw b, 0⟩
  mask := mask
  gpuFaultStatus := gpuFaultStatus
  gpuFaultAddr := 0
  asFaultStatus := asFaultStatus
  asFaultAddr _ := 0
  mcuAuto := false
  shared := shared
  sharedVer := 0
  boot := .clear .gpu
  isr _ := Call.idle
  reported := false
  interruptsHandled := 0
  interruptsSpurious := 0
  interruptsTotal := 0
  log := []
  calls := 0

/-! ## What an access does to the words -/

/-- The call has read the word of the block and not taken it down yet. -/
def Pc.holds : Pc → Block → Bool
  | .out, _ | .count, _ | .total, _ => false
  | .readJob, b => b = .gpu
  | .readMmu, b => b ≠ .mmu
  | .readGpuStatus, _ | .readAsStatus _, _ | .exchange, _ | .report, _ | .clear .gpu, _ => true
  | .clear .job, b => b ≠ .gpu
  | .clear .mmu, b => b = .mmu

def Call.holds (c : Call) (b : Block) : BitVec 32 := if c.pc.holds b then c.raw b else 0

def Boot.holds : Boot → Block → BitVec 32
  | .ack raw, .job => raw
  | _, _ => 0

/-- What the calls (`some`) and the start (`none`) have read of a word and not taken down. -/
def held (s : State) (b : Block) : Option ℕ → BitVec 32
  | some tid => (s.isr tid).holds b
  | none => s.boot.holds b

section
variable {s t : State} {b : Block} {tid : ℕ} {c : Call}

theorem held_call (hboot : t.boot = s.boot) (hisr : t.isr = (s.setCall tid c).isr) :
    held t b = hold (held s b) (some tid) (c.holds b) := by
  funext h
  cases h with
  | none => simp only [held, hboot, hold, reduceCtorEq, if_false]
  | some n =>
    simp only [held, hisr, State.setCall, hold, Option.some.injEq]
    split <;> rfl

/-- An access that leaves the word alone, and what the call holds of it. -/
theorem handled_quiet {turn : Prop} (hflags : t.flags b = s.flags b) (hboot : t.boot = s.boot)
    (hisr : t.isr = (s.setCall tid c).isr) (hc : c.holds b = (s.isr tid).holds b) :
    Handled (s.flags b) (held s b) (some tid) turn (t.flags b) (held t b) := by
  refine .quiet hflags ?_
  rw [held_call hboot hisr, hc]
  exact hold_self _ _

theorem handled_read {turn : Prop} (hflags : t.flags b = (s.flags b).see)
    (hboot : t.boot = s.boot) (hisr : t.isr = (s.setCall tid c).isr)
    (hc : c.holds b = (s.flags b).raw) :
    Handled (s.flags b) (held s b) (some tid) turn (t.flags b) (held t b) := by
  refine .read hflags ?_
  rw [held_call hboot hisr, hc]

theorem decode_holds (c : Call) (b : Block) : c.decode.holds b = c.raw b := by
  unfold Call.decode
  split <;> rfl

/-- The write of what the call has read of block `k`. -/
theorem handled_clear (k : Block) (hpc : (s.isr tid).pc = .clear k) {t : State}
    (hflags : t.flags = (s.setFlags k ((s.flags k).clear ((s.isr tid).raw k))).flags)
    (hboot : t.boot = s.boot) (hisr : t.isr = (s.setCall tid c).isr) (hc : c.pc = afterClear k)
    (hraw : c.raw = (s.isr tid).raw) (b : Block) :
    Handled (s.flags b) (held s b) (some tid) ((s.isr tid).pc = .clear b) (t.flags b)
      (held t b) := by
  by_cases hb : b = k
  · subst hb
    have hmine : held s b (some tid) = (s.isr tid).raw b := by
      change (s.isr tid).holds b = _
      simp only [Call.holds, hpc]
      cases b <;> rfl
    have hnone : c.holds b = 0 := by
      simp only [Call.holds, hc]
      cases b <;> rfl
    refine .ack hpc ?_ ?_
    · rw [hflags, hmine]
      exact if_pos rfl
    · rw [held_call hboot hisr, hnone]
  · refine handled_quiet ?_ hboot hisr ?_
    · rw [hflags]
      exact if_neg hb
    · simp only [Call.holds, hc, hpc, hraw]
      cases b <;> cases k <;> first | rfl | exact absurd rfl hb

/-- What the routine does to the word of one block. -/
theorem isr_handled (s : State) (tid : ℕ) (b : Block) :
    Handled (s.flags b) (held s b) (some tid) ((s.isr tid).pc = .clear b)
      ((interruptRoutine s tid).flags b) (held (interruptRoutine s tid) b) := by
  unfold interruptRoutine
  simp only []
  split
  case h_1 hpc =>
    cases b
    · exact handled_read rfl rfl rfl rfl
    all_goals exact handled_quiet rfl rfl rfl (by simp [Call.holds, Pc.holds, hpc])
  case h_2 hpc =>
    cases b
    · exact handled_quiet rfl rfl rfl (by simp [Call.holds, Pc.holds, hpc, Call.raw])
    · exact handled_read rfl rfl rfl rfl
    · exact handled_quiet rfl rfl rfl (by simp [Call.holds, Pc.holds, hpc])
  case h_3 hpc =>
    cases b
    · exact handled_quiet rfl rfl rfl
        (by rw [decode_holds]; simp [Call.holds, Pc.holds, hpc, Call.raw])
    · exact handled_quiet rfl rfl rfl
        (by rw [decode_holds]; simp [Call.holds, Pc.holds, hpc, Call.raw])
    · exact handled_read rfl rfl rfl (decode_holds _ _)
  case h_8 k hpc =>
    split
    · refine handled_clear (c := { s.isr tid with pc := afterClear k, handled := true }) k hpc
        ?_ ?_ ?_ ?_ ?_ b <;> rfl
    · next hzero =>
      refine handled_clear (c := { s.isr tid with pc := afterClear k }) k hpc ?_
        ?_ ?_ ?_ ?_ b <;> try rfl
      rw [Decidable.not_not.mp hzero]
      funext j
      change s.flags j = if j = k then _ else _
      split
      · next hj => rw [hj, clear_zero]
      · rfl
  all_goals
    (try split) <;> (try split) <;>
      exact handled_quiet rfl rfl rfl (by simp [*, Call.holds, Pc.holds, Call.raw, Call.idle])

theorem fwInit_isr (s : State) : (fwInit s).isr = s.isr := by
  unfold fwInit
  split <;> (try split) <;> (try split) <;> (try split) <;> rfl

theorem held_boot (hisr : t.isr = s.isr) :
    held t b = hold (held s b) none (t.boot.holds b) := by
  funext h
  cases h with
  | none => rfl
  | some n => simp only [held, hisr, hold, reduceCtorEq, if_false]

theorem boot_quiet {turn : Prop} (hflags : t.flags b = s.flags b) (hisr : t.isr = s.isr)
    (hboot : t.boot.holds b = s.boot.holds b) :
    Handled (s.flags b) (held s b) none turn (t.flags b) (held t b) := by
  refine .quiet hflags ?_
  rw [held_boot hisr, hboot]
  exact hold_self _ _

/-- What the start does to the word of one block, but for its clear of the stale bits. -/
theorem fwInit_handled (s : State) (b : Block) (hclear : s.boot ≠ .clear b) :
    Handled (s.flags b) (held s b) none (b = .job ∧ ∃ raw, s.boot = .ack raw)
      ((fwInit s).flags b) (held (fwInit s) b) := by
  have hisr := fwInit_isr s
  cases hboot : s.boot with
  | clear k =>
    have hb : b ≠ k := fun h => hclear (h ▸ hboot)
    refine boot_quiet ?_ hisr ?_
    · simp only [fwInit, hboot, State.setFlags]
      exact if_neg hb
    · simp only [fwInit, hboot]
      cases k <;> rfl
  | mask k =>
    refine boot_quiet ?_ hisr ?_ <;> simp only [fwInit, hboot, State.setMask]
    cases k <;> rfl
  | poll i =>
    by_cases hi : i < 1000
    · by_cases hraw : (s.flags .job).raw &&& jobIntGlobalIf ≠ 0
      · have hnew : fwInit s =
            { s.setFlags .job (s.flags .job).see with boot := .ack (s.flags .job).raw } := by
          simp only [fwInit, hboot, if_pos hi, if_pos hraw]
        rw [hnew]
        cases b with
        | job => exact .read rfl (held_boot rfl)
        | _ => exact boot_quiet rfl rfl (by rw [hboot]; rfl)
      · refine boot_quiet ?_ hisr ?_ <;> simp only [fwInit, hboot, if_pos hi, if_neg hraw]
        rfl
    · refine boot_quiet ?_ hisr ?_ <;> simp only [fwInit, hboot, if_neg hi]
      rfl
  | ack raw =>
    have hnew : fwInit s =
        { s.setFlags .job ((s.flags .job).clear raw) with boot := .shared 0 } := by
      simp only [fwInit, hboot]
    rw [hnew]
    cases b with
    | job =>
      have hmine : held s .job none = raw := by simp only [held, hboot, Boot.holds]
      refine .ack ⟨rfl, raw, rfl⟩ ?_ (held_boot rfl)
      rw [hmine]
      rfl
    | _ => exact boot_quiet rfl rfl (by rw [hboot]; rfl)
  | arm k =>
    refine boot_quiet ?_ hisr ?_ <;> simp only [fwInit, hboot, State.setMask]
    cases k <;> rfl
  | _ =>
    refine boot_quiet ?_ hisr ?_ <;> simp only [fwInit, hboot] <;>
      (try split) <;> (try split) <;> (try split) <;> rfl

/-- A write to the clear register of the block while nobody else is about to write it. -/
def Alone (b : Block) (s : State) : Label → Prop
  | .isr tid => (s.isr tid).pc = .clear b → ∀ h, h ≠ some tid → held s b h = 0
  | .boot =>
    (s.boot = .clear b → ∀ h, held s b h = 0) ∧
      (b = .job ∧ (∃ raw, s.boot = .ack raw) → ∀ h, h ≠ none → held s b h = 0)
  | .recover _ => b = .mmu → ∀ h, held s b h = 0
  | _ => True

theorem fwInit_wipe (s : State) (b : Block) (hclear : s.boot = .clear b) :
    (fwInit s).flags b = (s.flags b).discard 0xffffffff ∧ held (fwInit s) b = held s b := by
  constructor
  · simp only [fwInit, hclear, State.setFlags, if_true]
  · rw [held_boot (fwInit_isr s)]
    have hboot : (fwInit s).boot.holds b = held s b none := by
      simp only [fwInit, held, hclear]
      cases b <;> rfl
    rw [hboot]
    exact hold_self _ _

theorem setFlags_flags (s : State) (k b : Block) (f : Flags 32) :
    (s.setFlags k f).flags b = if b = k then f else s.flags b := rfl

theorem held_setFlags (s : State) (k b : Block) (f : Flags 32) :
    held (s.setFlags k f) b = held s b := by
  funext h
  cases h <;> rfl

theorem attended_step {l : Label} (A : Attended (s.flags b) (held s b)) (h : step s l = some t) :
    Attended (t.flags b) (held t b) := by
  cases l with
  | isr tid =>
    cases h
    exact A.handled (isr_handled s tid b)
  | boot =>
    cases h
    by_cases hclear : s.boot = .clear b
    · obtain ⟨hflags, hheld⟩ := fwInit_wipe s b hclear
      rw [hflags, hheld]
      exact A.discard _
    · exact A.handled (fwInit_handled s b hclear)
  | recover as =>
    cases h
    rw [setFlags_flags, held_setFlags]
    split
    · next hb =>
      subst hb
      exact A.discard _
    · exact A
  | raise k v =>
    simp only [step] at h
    split at h
    · cases h
    · cases h
      rw [setFlags_flags, held_setFlags]
      split
      · next hb =>
        subst hb
        exact A.raise v
      · exact A
  | gpuFault status addr =>
    cases h
    exact A
  | asFault as status addr =>
    cases h
    exact A
  | version v =>
    simp only [step] at h
    split at h
    · cases h
    · cases h
      exact A

theorem kept_step {l : Label} (K : Kept (s.flags b) (held s b)) (hl : Alone b s l)
    (h : step s l = some t) : Kept (t.flags b) (held t b) := by
  cases l with
  | isr tid =>
    cases h
    exact K.handled (isr_handled s tid b) hl
  | boot =>
    cases h
    by_cases hclear : s.boot = .clear b
    · obtain ⟨hflags, hheld⟩ := fwInit_wipe s b hclear
      rw [hflags, hheld]
      exact K.discard _ (hl.1 hclear)
    · exact K.handled (fwInit_handled s b hclear) hl.2
  | recover as =>
    cases h
    rw [setFlags_flags, held_setFlags]
    split
    · next hb =>
      subst hb
      exact K.discard _ (hl rfl)
    · exact K
  | raise k v =>
    simp only [step] at h
    split at h
    · cases h
    · cases h
      rw [setFlags_flags, held_setFlags]
      split
      · next hb =>
        subst hb
        exact K.raise v
      · exact K
  | gpuFault status addr =>
    cases h
    exact K
  | asFault as status addr =>
    cases h
    exact K
  | version v =>
    simp only [step] at h
    split at h
    · cases h
    · cases h
      exact K

end

section
variable {raw mask : Block → BitVec 32} {gpuFs : BitVec 32} {asFs : ℕ → BitVec 32}
  {shared : Shared} {ls : List Label} {s : State}

theorem initial_holds (b : Block) (h : Option ℕ) :
    held (initial raw mask gpuFs asFs shared) b h = 0 := by
  cases h <;> cases b <;> rfl

/-- In any order of the accesses of any number of calls, of the start and of recoveries, a bit
that stands has been read since it rose by no call and no poll that found `GLOBAL_IF`, or the
reader is about to take it down. Where the clear registers are written by one at a time, a bit
that none of them has read still stands, unless a recovery or the start has wiped it. -/
theorem acks_exact (b : Block) (h : exec step (initial raw mask gpuFs asFs shared) ls = some s) :
    (∀ i, (s.flags b).raw.getLsbD i = true →
      (s.flags b).unseen.getLsbD i = true ∨ ∃ h, (held s b h).getLsbD i = true) ∧
    (Guarded step (Alone b) (initial raw mask gpuFs asFs shared) ls →
      ∀ i, (s.flags b).unseen.getLsbD i = true →
        (s.flags b).raw.getLsbD i = true ∨ (s.flags b).wiped.getLsbD i = true) := by
  constructor
  · have hinit : Attended ((initial raw mask gpuFs asFs shared).flags b)
        (held (initial raw mask gpuFs asFs shared) b) := fun _ hi => .inl hi
    have hrun : Attended (s.flags b) (held s b) :=
      exec_invariant (fun _ _ _ A _ h => attended_step A h) hinit (guarded_true _ _ _) h
    exact hrun
  · intro hg
    have hinit : Kept ((initial raw mask gpuFs asFs shared).flags b)
        (held (initial raw mask gpuFs asFs shared) b) := by
      refine ⟨fun _ hi => .inl hi, fun h i hi => ?_⟩
      rw [initial_holds] at hi
      simp at hi
    have hrun : Kept (s.flags b) (held s b) :=
      exec_invariant (fun _ _ _ K hl h => kept_step K hl h) hinit hg h
    exact hrun.stands

end

theorem interruptRoutine_boot (s : State) (tid : ℕ) :
    (interruptRoutine s tid).boot = s.boot := by
  unfold interruptRoutine
  simp only []
  split <;> (try split) <;> (try split) <;> rfl

theorem interruptRoutine_other (s : State) {tid n : ℕ} (hn : n ≠ tid) :
    (interruptRoutine s tid).isr n = s.isr n := by
  unfold interruptRoutine
  simp only []
  split <;> (try split) <;> (try split) <;> exact if_neg hn

/-- A call that no other and no start or recovery runs beside. -/
theorem lone_guarded {s : State} {tid : ℕ} {ls : List Label} (b : Block)
    (hidle : ∀ n, n ≠ tid → s.isr n = Call.idle) (hboot : s.boot.holds b = 0)
    (hls : ∀ l ∈ ls, l = .isr tid ∨ ∃ k v, l = .raise k v) : Guarded step (Alone b) s ls := by
  induction ls generalizing s with
  | nil => trivial
  | cons l ls ih =>
    have hrest := fun k hk => hls k (List.mem_cons_of_mem l hk)
    intro t ht
    rcases hls l List.mem_cons_self with rfl | ⟨k, v, rfl⟩
    · cases ht
      constructor
      · intro _ h hne
        cases h with
        | none => exact hboot
        | some n =>
          have hn : s.isr n = Call.idle := hidle n fun hn => hne (hn ▸ rfl)
          change (s.isr n).holds b = 0
          rw [hn]
          cases b <;> rfl
      · refine ih (fun n hn => (interruptRoutine_other s hn).trans (hidle n hn)) ?_ hrest
        rw [interruptRoutine_boot]
        exact hboot
    · simp only [step] at ht
      split at ht
      · cases ht
      · cases ht
        exact ⟨trivial, ih hidle hboot hrest⟩

def quiet : State := initial (fun _ => 1) (fun _ => 0) 0 (fun _ => 0) (.backed .success .success)

/-- A bit that rises while a call is between its read and its clear. -/
def lateRise : List Label :=
  List.replicate 3 (.isr 0) ++ [.raise .gpu 2] ++ List.replicate 12 (.isr 0)

def lateRisen : State := (exec step quiet lateRise).getD quiet

theorem lateRise_stands : (lateRisen.flags .gpu).raw.getLsbD 0 = false ∧
    (lateRisen.flags .gpu).raw.getLsbD 1 = true := by
  have h : exec step quiet lateRise = some lateRisen := rfl
  have hls : ∀ l ∈ lateRise, l = .isr 0 ∨ ∃ k v, l = .raise k v := by
    intro l hl
    rcases List.mem_append.mp hl with hl | hl
    · rcases List.mem_append.mp hl with hl | hl
      · exact .inl (List.eq_of_mem_replicate hl)
      · exact .inr ⟨.gpu, 2, List.mem_singleton.mp hl⟩
    · exact .inl (List.eq_of_mem_replicate hl)
  have hg : Guarded step (Alone .gpu) quiet lateRise :=
    lone_guarded .gpu (fun _ _ => rfl) rfl hls
  exact ⟨by decide, ((acks_exact .gpu h).2 hg 1 (by decide)).resolve_right (by decide)⟩

/-! ## The boot -/

def Boot.cleared : Boot → Bool
  | .clear .gpu | .clear .job => false
  | _ => true

/-- The start has taken the firmware to be alive. -/
def Boot.up : Boot → Bool
  | .ack _ | .shared _ | .glbIface | .csfIfaces | .globalIface | .bootstrap | .arm _ | .live => true
  | _ => false

/-- Which interfaces the start has taken where it is. -/
def Boot.Taken (shared : Shared) : Boot → Prop
  | .glbIface => shared.isBacked = true
  | .csfIfaces => ∃ csf, shared = .backed .success csf
  | .globalIface | .bootstrap | .arm _ | .live => shared.refusal = none
  | .refused st => shared.refusal = some st
  | _ => True

/-- Only after the version word does the firmware raise its bit. -/
structure BootInv (s : State) : Prop where
  globalIf : s.boot.cleared = true → (s.flags .job).raw.getLsbD 31 = true → s.sharedVer ≠ 0
  up : s.boot.up = true → s.sharedVer ≠ 0
  taken : s.boot.Taken s.shared

/-- The version word can be looked at once more before the budget of the poll is spent. -/
def Boot.early : Boot → Bool
  | .poll i => i < 1000
  | .delay i => i + 1 < 1000
  | .shared i => i < 2000
  | .failed _ => false
  | _ => true

/-- How many of its own steps the start of a written version word still takes. -/
def Boot.left : Boot → ℕ
  | .clear .gpu => 17
  | .clear .job => 16
  | .clear .mmu => 15
  | .mask .gpu => 14
  | .mask .job => 13
  | .mask .mmu => 12
  | .kick | .delay _ => 11
  | .poll _ => 10
  | .ack _ | .version _ => 9
  | .shared _ => 8
  | .glbIface => 7
  | .csfIfaces => 6
  | .globalIface => 5
  | .bootstrap => 4
  | .arm .gpu => 3
  | .arm .job => 2
  | .arm .mmu => 1
  | .live | .failed _ | .refused _ => 0

theorem globalIf_ne_zero (x : BitVec 32) :
    x &&& jobIntGlobalIf ≠ 0 ↔ x.getLsbD 31 = true := by
  change x &&& BitVec.twoPow 32 31 ≠ 0 ↔ _
  rw [BitVec.and_twoPow]
  cases x.getLsbD 31 <;> simp

theorem interruptRoutine_sharedVer (s : State) (tid : ℕ) :
    (interruptRoutine s tid).sharedVer = s.sharedVer := by
  unfold interruptRoutine
  simp only []
  split <;> (try split) <;> (try split) <;> rfl

theorem interruptRoutine_shared (s : State) (tid : ℕ) :
    (interruptRoutine s tid).shared = s.shared := by
  unfold interruptRoutine
  simp only []
  split <;> (try split) <;> (try split) <;> rfl

theorem fwInit_sharedVer (s : State) : (fwInit s).sharedVer = s.sharedVer := by
  unfold fwInit
  split <;> (try split) <;> (try split) <;> (try split) <;> rfl

theorem fwInit_shared (s : State) : (fwInit s).shared = s.shared := by
  unfold fwInit
  split <;> (try split) <;> (try split) <;> (try split) <;> simp_all <;> rfl

section
variable {s t : State} {l : Label}

/-- A step that raises no bit of the job word. -/
theorem BootInv.fall (B : BootInv s) (hver : t.sharedVer = s.sharedVer)
    (hcleared : t.boot.cleared = true → s.boot.cleared = true)
    (hup : t.boot.up = true → s.sharedVer ≠ 0)
    (hraw : (t.flags .job).raw.getLsbD 31 = true → (s.flags .job).raw.getLsbD 31 = true)
    (htaken : t.boot.Taken t.shared) : BootInv t :=
  ⟨fun hc h31 => hver ▸ B.globalIf (hcleared hc) (hraw h31), fun h => hver ▸ hup h, htaken⟩

theorem fwInit_cleared (hclear : s.boot ≠ .clear .job)
    (h : (fwInit s).boot.cleared = true) : s.boot.cleared = true := by
  unfold fwInit at h
  split at h
  case h_1 k hboot =>
    cases k with
    | gpu => cases h
    | job => exact absurd hboot hclear
    | mmu => rw [hboot]; rfl
  all_goals
    next hboot => rw [hboot]; rfl

theorem BootInv.up_fwInit (B : BootInv s) (h : (fwInit s).boot.up = true) : s.sharedVer ≠ 0 := by
  unfold fwInit at h
  split at h
  case h_1 k hboot | h_2 k hboot => cases k <;> cases h
  case h_3 hboot | h_7 i hboot => cases h
  case h_4 i hboot =>
    split at h
    · split at h
      · next hraw =>
        exact B.globalIf (by rw [hboot]; rfl) ((globalIf_ne_zero _).mp hraw)
      · cases h
    · cases h
  case h_6 i hboot =>
    split at h
    · next hver => exact hver.2
    · cases h
  case h_14 | h_15 | h_16 => exact B.up h
  all_goals
    next hboot => exact B.up (by rw [hboot]; rfl)

theorem BootInv.taken_fwInit (B : BootInv s) : (fwInit s).boot.Taken (fwInit s).shared := by
  rw [fwInit_shared]
  have htaken := B.taken
  unfold fwInit
  split
  case h_1 k _ | h_2 k _ => cases k <;> trivial
  case h_3 | h_5 | h_7 => trivial
  case h_4 | h_6 => (try split) <;> (try split) <;> trivial
  case h_8 =>
    split
    · trivial
    · trivial
    · next hshared =>
      split
      · split
        · change s.shared.isBacked = true
          rw [hshared]
          rfl
        · trivial
      · trivial
  case h_9 hboot =>
    rw [hboot] at htaken
    split
    · next glb csf hshared =>
      split
      · next hzero => exact absurd hzero (B.up (by rw [hboot]; rfl))
      · split
        · next hglb =>
          change s.shared.refusal = some glb
          rw [hshared]
          exact if_pos hglb
        · next hglb => exact ⟨csf, hshared.trans (congrArg (Shared.backed · csf) (not_not.mp hglb))⟩
    · next hnot =>
      cases hshared : s.shared with
      | backed glb csf => exact absurd hshared (hnot glb csf)
      | missing | unbacked =>
        rw [hshared] at htaken
        cases htaken
  case h_10 hboot =>
    rw [hboot] at htaken
    obtain ⟨csf, hshared⟩ := htaken
    rw [hshared]
    simp only []
    split
    · next hcsf => exact if_pos hcsf
    · next hcsf => exact if_neg hcsf
  case h_11 hboot | h_12 hboot =>
    rw [hboot] at htaken
    exact htaken
  case h_13 b hboot =>
    rw [hboot] at htaken
    cases b <;> exact htaken
  all_goals exact htaken

theorem bootInv_fwInit (B : BootInv s) : BootInv (fwInit s) := by
  have hver := fwInit_sharedVer s
  by_cases hclear : s.boot = .clear .job
  · obtain ⟨hflags, -⟩ := fwInit_wipe s .job hclear
    constructor
    · intro _ h31
      rw [hflags, Flags.discard, BitVec.getLsbD_and] at h31
      simp at h31
    · exact fun h => hver ▸ B.up_fwInit h
    · exact B.taken_fwInit
  · exact B.fall hver (fwInit_cleared hclear) B.up_fwInit (fwInit_handled s .job hclear).raw
      B.taken_fwInit

theorem bootInv_step (B : BootInv s) (h : step s l = some t) : BootInv t := by
  cases l with
  | isr tid =>
    cases h
    have hboot := interruptRoutine_boot s tid
    exact B.fall (interruptRoutine_sharedVer s tid) (hboot ▸ id) (hboot ▸ B.up)
      (isr_handled s tid .job).raw (interruptRoutine_shared s tid ▸ hboot ▸ B.taken)
  | boot =>
    cases h
    exact bootInv_fwInit B
  | recover as =>
    cases h
    exact B.fall rfl id B.up id B.taken
  | raise k v =>
    simp only [step] at h
    split at h
    · cases h
    · next hguard =>
      cases h
      refine ⟨fun hcleared h31 => ?_, B.up, B.taken⟩
      rw [setFlags_flags] at h31
      split at h31
      · next hk =>
        rw [Flags.raise, BitVec.getLsbD_or, Bool.or_eq_true] at h31
        rcases h31 with hold | hnew
        · exact B.globalIf hcleared (hk ▸ hold)
        · exact fun hzero => hguard ⟨hk.symm, (globalIf_ne_zero v).mpr hnew, hzero⟩
      · exact B.globalIf hcleared h31
  | gpuFault status addr =>
    cases h
    exact ⟨B.globalIf, B.up, B.taken⟩
  | asFault as status addr =>
    cases h
    exact ⟨B.globalIf, B.up, B.taken⟩
  | version v =>
    simp only [step] at h
    split at h
    · cases h
    · next hguard =>
      cases h
      have hv : v ≠ 0 := fun hzero => hguard (.inr hzero)
      exact ⟨fun _ _ => hv, fun _ => hv, B.taken⟩

/-- The version word is written, and the start still looks at it. -/
structure Coming (s : State) : Prop where
  backed : s.shared.isBacked = true
  written : s.sharedVer ≠ 0
  early : s.boot.early = true

/-- A written version word is found, whoever takes the interrupt's bit down. -/
theorem Coming.fwInit (C : Coming s) :
    Coming (fwInit s) ∧ (fwInit s).boot.left ≤ s.boot.left - 1 := by
  have hearly := C.early
  unfold Interrupts.fwInit
  split
  case h_1 k hboot | h_2 k hboot | h_13 k hboot =>
    rw [hboot]
    cases k <;> exact ⟨⟨C.backed, C.written, rfl⟩, Nat.le_refl _⟩
  case h_3 hboot | h_11 hboot | h_12 hboot =>
    rw [hboot]
    exact ⟨⟨C.backed, C.written, rfl⟩, Nat.le_refl _⟩
  case h_4 i hboot =>
    rw [hboot] at hearly ⊢
    have hi : i < 1000 := of_decide_eq_true hearly
    rw [if_pos hi]
    split <;> exact ⟨⟨C.backed, C.written, rfl⟩, Nat.le_refl _⟩
  case h_5 raw hboot =>
    rw [hboot]
    exact ⟨⟨C.backed, C.written, rfl⟩, Nat.le_refl _⟩
  case h_6 i hboot =>
    rw [hboot, if_pos ⟨C.backed, C.written⟩]
    exact ⟨⟨C.backed, C.written, rfl⟩, Nat.le_refl _⟩
  case h_7 i hboot =>
    rw [hboot] at hearly ⊢
    exact ⟨⟨C.backed, C.written, hearly⟩, Nat.le_refl _⟩
  case h_8 i hboot =>
    rw [hboot] at hearly ⊢
    have hi : i < 2000 := of_decide_eq_true hearly
    have hbacked := C.backed
    split
    · next hshared =>
      rw [hshared] at hbacked
      cases hbacked
    · next hshared =>
      rw [hshared] at hbacked
      cases hbacked
    · rw [if_pos hi, if_pos C.written]
      exact ⟨⟨C.backed, C.written, rfl⟩, Nat.le_refl _⟩
  case h_9 hboot =>
    rw [hboot]
    split
    · rw [if_neg C.written]
      split <;> exact ⟨⟨C.backed, C.written, rfl⟩, by simp [Boot.left]⟩
    · exact ⟨⟨C.backed, C.written, rfl⟩, Nat.zero_le _⟩
  case h_10 hboot =>
    rw [hboot]
    split
    · split <;> exact ⟨⟨C.backed, C.written, rfl⟩, by simp [Boot.left]⟩
    · exact ⟨⟨C.backed, C.written, rfl⟩, Nat.zero_le _⟩
  case h_14 hboot | h_16 hboot =>
    rw [hboot] at hearly ⊢
    exact ⟨⟨C.backed, C.written, hboot ▸ rfl⟩, Nat.zero_le _⟩
  case h_15 st hboot =>
    rw [hboot] at hearly
    cases hearly

theorem Coming.step (C : Coming s) (h : step s l = some t) :
    Coming t ∧ t.boot.left ≤ s.boot.left - [l].count .boot := by
  cases l with
  | isr tid =>
    cases h
    have hboot := interruptRoutine_boot s tid
    exact ⟨⟨interruptRoutine_shared s tid ▸ C.backed,
      interruptRoutine_sharedVer s tid ▸ C.written, hboot ▸ C.early⟩, hboot ▸ Nat.le_refl _⟩
  | boot =>
    cases h
    exact C.fwInit
  | recover as =>
    cases h
    exact ⟨⟨C.backed, C.written, C.early⟩, Nat.le_refl _⟩
  | raise k v =>
    simp only [Interrupts.step] at h
    split at h
    · cases h
    · cases h
      exact ⟨⟨C.backed, C.written, C.early⟩, Nat.le_refl _⟩
  | gpuFault status addr =>
    cases h
    exact ⟨⟨C.backed, C.written, C.early⟩, Nat.le_refl _⟩
  | asFault as status addr =>
    cases h
    exact ⟨⟨C.backed, C.written, C.early⟩, Nat.le_refl _⟩
  | version v =>
    simp only [Interrupts.step] at h
    split at h
    · cases h
    · next hguard =>
      cases h
      exact ⟨⟨C.backed, fun hzero => hguard (.inr hzero), C.early⟩, Nat.le_refl _⟩

theorem Coming.run {ls : List Label} (C : Coming s) (h : exec Interrupts.step s ls = some t) :
    Coming t ∧ t.boot.left ≤ s.boot.left - ls.count .boot := by
  induction ls generalizing s with
  | nil =>
    cases h
    exact ⟨C, Nat.le_refl _⟩
  | cons l ls ih =>
    obtain ⟨u, hu, hrest⟩ := (exec_cons _ s t l ls).mp h
    obtain ⟨Cu, hleft⟩ := C.step hu
    obtain ⟨Ct, hleft'⟩ := ih Cu hrest
    refine ⟨Ct, ?_⟩
    rw [List.count_cons]
    simp only [List.count_singleton] at hleft
    omega

end

section
variable {raw mask : Block → BitVec 32} {gpuFs : BitVec 32} {asFs : ℕ → BitVec 32}
  {shared : Shared} {ls more : List Label} {s t : State}

theorem initial_bootInv : BootInv (initial raw mask gpuFs asFs shared) :=
  ⟨fun h => absurd h Bool.false_ne_true, fun h => absurd h Bool.false_ne_true, trivial⟩

theorem step_shared {l : Label} (h : step s l = some t) : t.shared = s.shared := by
  cases l with
  | isr tid =>
    cases h
    exact interruptRoutine_shared s tid
  | boot =>
    cases h
    exact fwInit_shared s
  | raise | version =>
    simp only [step] at h
    split at h
    · cases h
    · cases h
      rfl
  | recover | gpuFault | asFault =>
    cases h
    rfl

/-- The interrupt routine may take `GLOBAL_IF` down before the poll sees it, at any step. The
start takes the firmware to be alive only when it is. Once the version word is written it does
not time out, it fails only when it does not take the firmware's interfaces, and after as many of
its own steps as are left it has armed the masks or has so failed. -/
theorem boot_exact (h : exec step (initial raw mask gpuFs asFs shared) ls = some s)
    (hmore : exec step s more = some t) :
    (s.boot.up = true → s.sharedVer ≠ 0) ∧
    (shared.isBacked = true → s.sharedVer ≠ 0 → s.boot.early = true →
      (∀ st, t.boot ≠ .failed st) ∧ (∀ st, t.boot = .refused st → shared.refusal = some st) ∧
        (s.boot.left ≤ more.count .boot → t.boot = shared.refusal.elim .live .refused)) := by
  have hinv : ∀ s l t, BootInv s ∧ s.shared = shared → True → step s l = some t →
      BootInv t ∧ t.shared = shared :=
    fun _ _ _ ⟨B, hs⟩ _ h => ⟨bootInv_step B h, (step_shared h).trans hs⟩
  have Bs := exec_invariant hinv ⟨initial_bootInv, rfl⟩ (guarded_true _ _ _) h
  have Bt := exec_invariant hinv Bs (guarded_true _ _ _) hmore
  refine ⟨Bs.1.up, fun hbacked hwritten hearly => ?_⟩
  obtain ⟨C, hleft⟩ := (Coming.mk (Bs.2 ▸ hbacked) hwritten hearly).run hmore
  have htaken : t.boot.Taken shared := Bt.2 ▸ Bt.1.taken
  have hnot (st : NtStatus) : t.boot ≠ .failed st := by
    intro hfailed
    have := C.early
    rw [hfailed] at this
    cases this
  have hrefused (st : IfaceStatus) (hst : t.boot = .refused st) : shared.refusal = some st := by
    rw [hst] at htaken
    exact htaken
  refine ⟨hnot, hrefused, fun hcount => ?_⟩
  have hzero : t.boot.left = 0 := by omega
  cases hboot : t.boot with
  | live =>
    have hnone : shared.refusal = none := by
      rw [hboot] at htaken
      exact htaken
    rw [hnone]
    rfl
  | refused st =>
    rw [hrefused st hboot]
    rfl
  | failed st => exact absurd hboot (hnot st)
  | clear b | mask b | arm b =>
    rw [hboot] at hzero
    cases b <;> cases hzero
  | _ =>
    rw [hboot] at hzero
    cases hzero

end

def start : State :=
  initial (fun _ => 0xffffffff) (fun _ => 0) 0 (fun _ => 0) (.backed .success .success)

/-- The routine takes `GLOBAL_IF` down between the firmware's rise of it and the first poll. -/
def stolenBit : List Label :=
  List.replicate 7 .boot ++ [.version 1, .raise .job jobIntGlobalIf] ++
    List.replicate 8 (.isr 0)

def stolen : State := (exec step start stolenBit).getD start

def stolenLive : State := (exec step stolen (List.replicate 10 .boot)).getD stolen

theorem stolenBit_live : (stolen.flags .job).raw = 0 ∧ stolenLive.boot = .live := by
  have h : exec step start stolenBit = some stolen := rfl
  have hmore : exec step stolen (List.replicate 10 .boot) = some stolenLive := rfl
  have hwritten : stolen.sharedVer ≠ 0 := by decide
  exact ⟨by decide, ((boot_exact h hmore).2 rfl hwritten rfl).2.2 (by decide)⟩

/-! ## What the routine prints -/

/-- At some step of the run, `P` held. -/
def Passed (s : State) (ls : List Label) (P : State → Prop) : Prop :=
  ∃ pre u, pre <+: ls ∧ exec step s pre = some u ∧ P u

/-- What a call has of the words and the fault registers is what they held while it ran. -/
structure Read (P : (State → Prop) → Prop) (c : Call) : Prop where
  none : c.pc = .readJob ∨ c.pc = .readMmu → c.gpFs = 0 ∧ c.asFs = 0
  gpuRaw : c.gpuRaw ≠ 0 → P fun u => (u.flags .gpu).raw = c.gpuRaw
  mmuRaw : c.mmuRaw ≠ 0 → P fun u => (u.flags .mmu).raw = c.mmuRaw
  gpu : c.gpFs ≠ 0 → c.gpuRaw &&& gpuFaultBits ≠ 0 ∧ P fun u => u.gpuFaultStatus = c.gpFs
  mmu : c.asFs ≠ 0 → c.asHit < 8 ∧ c.mmuRaw &&& asBits c.asHit ≠ 0 ∧
    P fun u => u.asFaultStatus c.asHit = c.asFs

/-- A fault line tells of a status that is no zero, and of a word that stood with a bit for it. -/
def Line.Real (P : (State → Prop) → Prop) : Line → Prop
  | .gpuFault raw status _ =>
    status ≠ 0 ∧ (P fun u => (u.flags .gpu).raw = raw) ∧ raw &&& gpuFaultBits ≠ 0 ∧
      P fun u => u.gpuFaultStatus = status
  | .mmuFault as raw status _ =>
    status ≠ 0 ∧ (P fun u => (u.flags .mmu).raw = raw) ∧ as < 8 ∧ raw &&& asBits as ≠ 0 ∧
      P fun u => u.asFaultStatus as = status
  | .total _ _ _ _ => True

structure Sound (P : (State → Prop) → Prop) (s : State) : Prop where
  calls : ∀ tid, Read P (s.isr tid)
  log : ∀ line ∈ s.log, line.Real P

section
variable {P Q : (State → Prop) → Prop} {s t u : State} {ls : List Label} {c : Call}

theorem Passed.snoc {R : State → Prop} (h : Passed s ls R) (l : Label) : Passed s (ls ++ [l]) R := by
  obtain ⟨pre, u, hpre, hu, hR⟩ := h
  exact ⟨pre, u, hpre.trans (List.prefix_append ls [l]), hu, hR⟩

theorem passed_end {R : State → Prop} (h : exec step s ls = some t) (hR : R t) (l : Label) :
    Passed s (ls ++ [l]) R :=
  ⟨ls, t, List.prefix_append ls [l], h, hR⟩

theorem Read.mono (R : Read P c) (hPQ : ∀ R, P R → Q R) : Read Q c := by
  refine ⟨R.none, fun h => hPQ _ (R.gpuRaw h), fun h => hPQ _ (R.mmuRaw h), fun h => ?_,
    fun h => ?_⟩
  · obtain ⟨hraw, hP⟩ := R.gpu h
    exact ⟨hraw, hPQ _ hP⟩
  · obtain ⟨has, hraw, hP⟩ := R.mmu h
    exact ⟨has, hraw, hPQ _ hP⟩

theorem Line.Real.mono {line : Line} (R : line.Real P) (hPQ : ∀ R, P R → Q R) : line.Real Q := by
  cases line with
  | gpuFault => exact ⟨R.1, hPQ _ R.2.1, R.2.2.1, hPQ _ R.2.2.2⟩
  | mmuFault => exact ⟨R.1, hPQ _ R.2.1, R.2.2.1, R.2.2.2.1, hPQ _ R.2.2.2.2⟩
  | total => trivial

theorem Sound.mono (S : Sound P s) (hPQ : ∀ R, P R → Q R) : Sound Q s :=
  ⟨fun tid => (S.calls tid).mono hPQ, fun line hline => (S.log line hline).mono hPQ⟩

theorem ne_zero_of_and {x y : BitVec 32} (h : x &&& y ≠ 0) : x ≠ 0 := by
  rintro rfl
  exact h (BitVec.zero_and)

theorem Read.lines (R : Read P c) : ∀ line ∈ c.lines s, line.Real P := by
  intro line hline
  rcases List.mem_append.mp hline with h | h
  · split at h
    · next hgp =>
      obtain rfl := List.mem_singleton.mp h
      exact ⟨hgp, R.gpuRaw (ne_zero_of_and (R.gpu hgp).1), R.gpu hgp⟩
    · cases h
  · split at h
    · next has =>
      obtain rfl := List.mem_singleton.mp h
      exact ⟨has, R.mmuRaw (ne_zero_of_and (R.mmu has).2.1), R.mmu has⟩
    · cases h

theorem read_idle : Read P Call.idle :=
  ⟨fun _ => ⟨rfl, rfl⟩, fun h => absurd rfl h, fun h => absurd rfl h, fun h => absurd rfl h,
    fun h => absurd rfl h⟩

theorem telemetry_real (total : BitVec 64) (c : Call) :
    ∀ line ∈ telemetry total c, line.Real P := by
  intro line hline
  unfold telemetry at hline
  split at hline
  · obtain rfl := List.mem_singleton.mp hline
    trivial
  · cases hline

/-- A new state of one call, with lines of its own. -/
theorem Sound.call (S : Sound P s) {tid : ℕ} (hisr : t.isr = (s.setCall tid c).isr)
    (hc : Read P c) {lines : List Line} (hlog : t.log = s.log ++ lines)
    (hlines : ∀ line ∈ lines, line.Real P) : Sound P t := by
  constructor
  · intro n
    rw [hisr]
    change Read P (if n = tid then c else s.isr n)
    split
    · exact hc
    · exact S.calls n
  · intro line hline
    rw [hlog] at hline
    exact (List.mem_append.mp hline).elim (S.log line) (hlines line)

/-- Only the place and what was handled are new. -/
theorem Read.move (R : Read P c) {d : Call} (hpc : d.pc ≠ .readJob ∧ d.pc ≠ .readMmu)
    (hgpu : d.gpuRaw = c.gpuRaw) (hmmu : d.mmuRaw = c.mmuRaw) (hgpFs : d.gpFs = c.gpFs)
    (hhit : d.asHit = c.asHit) (hasFs : d.asFs = c.asFs) : Read P d := by
  refine ⟨fun h => (h.elim hpc.1 hpc.2).elim, hgpu ▸ R.gpuRaw, hmmu ▸ R.mmuRaw, ?_, ?_⟩
  · rw [hgpu, hgpFs]
    exact R.gpu
  · rw [hmmu, hhit, hasFs]
    exact R.mmu

theorem Read.decode (R : Read P c) (hpc : c.pc = .readMmu) {raw : BitVec 32}
    (hraw : P fun u => (u.flags .mmu).raw = raw) : Read P { c with mmuRaw := raw }.decode := by
  obtain ⟨hgp, has⟩ := R.none (.inr hpc)
  unfold Call.decode
  split <;> exact ⟨fun _ => ⟨hgp, has⟩, R.gpuRaw, fun _ => hraw, fun h => absurd hgp h,
    fun h => absurd has h⟩

theorem afterClear_ne (b : Block) : afterClear b ≠ .readJob ∧ afterClear b ≠ .readMmu := by
  cases b <;> exact ⟨nofun, nofun⟩

theorem Sound.isr (S : Sound P s) (hP : ∀ R : State → Prop, R s → P R) (tid : ℕ) :
    Sound P (interruptRoutine s tid) := by
  have hc := S.calls tid
  have hquiet {t : State} {d : Call} (hisr : t.isr = (s.setCall tid d).isr) (hd : Read P d)
      (hlog : t.log = s.log) : Sound P t :=
    S.call hisr hd (by rw [hlog, List.append_nil]) (by simp)
  unfold interruptRoutine
  simp only []
  split
  case h_1 =>
    exact hquiet rfl ⟨fun _ => ⟨rfl, rfl⟩, fun _ => hP _ rfl, fun h => absurd rfl h,
      fun h => absurd rfl h, fun h => absurd rfl h⟩ rfl
  case h_2 hpc =>
    exact hquiet rfl ⟨fun _ => hc.none (.inl hpc), hc.gpuRaw, hc.mmuRaw, hc.gpu, hc.mmu⟩ rfl
  case h_3 hpc => exact hquiet rfl (hc.decode hpc (hP _ rfl)) rfl
  case h_4 hpc =>
    refine hquiet rfl ⟨nofun, hc.gpuRaw, hc.mmuRaw, fun h => ?_, hc.mmu⟩ rfl
    by_cases hbits : (s.isr tid).gpuRaw &&& gpuFaultBits ≠ 0
    · exact ⟨hbits, hP _ (if_pos hbits).symm⟩
    · exact absurd (if_neg hbits) h
  case h_5 as hpc =>
    split
    · next has =>
      split
      · next hhit =>
        exact hquiet rfl
          ⟨nofun, hc.gpuRaw, hc.mmuRaw, hc.gpu, fun _ => ⟨has, hhit.1, hP _ rfl⟩⟩ rfl
      · exact hquiet rfl (hc.move ⟨nofun, nofun⟩ rfl rfl rfl rfl rfl) rfl
    · exact hquiet rfl (hc.move ⟨nofun, nofun⟩ rfl rfl rfl rfl rfl) rfl
  case h_6 =>
    split
    · refine hquiet rfl (hc.move ?_ rfl rfl rfl rfl rfl) rfl
      split <;> exact ⟨nofun, nofun⟩
    · exact hquiet rfl (hc.move ⟨nofun, nofun⟩ rfl rfl rfl rfl rfl) rfl
  case h_7 => exact S.call rfl (hc.move ⟨nofun, nofun⟩ rfl rfl rfl rfl rfl) rfl hc.lines
  case h_8 b _ =>
    split <;> exact hquiet rfl (hc.move (afterClear_ne b) rfl rfl rfl rfl rfl) rfl
  case h_9 =>
    split <;> exact hquiet rfl (hc.move ⟨nofun, nofun⟩ rfl rfl rfl rfl rfl) rfl
  case h_10 => exact S.call rfl read_idle rfl (telemetry_real _ _)

theorem fwInit_log (s : State) : (fwInit s).log = s.log := by
  unfold fwInit
  split <;> (try split) <;> (try split) <;> (try split) <;> rfl

theorem Sound.step (S : Sound P s) (hP : ∀ R : State → Prop, R s → P R) {l : Label}
    (h : Interrupts.step s l = some t) : Sound P t := by
  have hkeep {t : State} (hisr : t.isr = s.isr) (hlog : t.log = s.log) : Sound P t :=
    ⟨fun n => hisr ▸ S.calls n, hlog ▸ S.log⟩
  cases l with
  | isr tid =>
    cases h
    exact S.isr hP tid
  | boot =>
    cases h
    exact hkeep (fwInit_isr s) (fwInit_log s)
  | raise | version =>
    simp only [Interrupts.step] at h
    split at h
    · cases h
    · cases h
      exact hkeep rfl rfl
  | recover | gpuFault | asFault =>
    cases h
    exact hkeep rfl rfl

theorem Sound.run (h0 : Sound (Passed s []) s) (h : exec Interrupts.step s ls = some t) :
    Sound (Passed s ls) t := by
  induction ls using List.reverseRecOn generalizing t with
  | nil =>
    cases h
    exact h0
  | append_singleton ls l ih =>
    rw [exec_append, Option.bind_eq_some_iff] at h
    obtain ⟨u, hu, hl⟩ := h
    obtain ⟨t', ht', hend⟩ := (exec_cons _ u t l []).mp hl
    cases hend
    exact ((ih hu).mono fun _ hR => hR.snoc l).step (fun _ hR => passed_end hu hR l) ht'

end

def Line.isFault (line : Line) : Bool := line.isGpuFault || line.isMmuFault

/-- The call is behind the exchange. -/
def Pc.past : Pc → Bool
  | .clear _ | .count | .total => true
  | _ => false

def Call.Saw (c : Call) : Prop := c.gpFs ≠ 0 ∨ c.asFs ≠ 0

def faults (s : State) : List Line := s.log.filter Line.isFault

/-- The static of the routine is set by the one call that reports. -/
structure Told (s : State) : Prop where
  quiet : s.reported = false → faults s = []
  alone : ∀ tid, (s.isr tid).pc = .report →
    s.reported = true ∧ (s.isr tid).Saw ∧ faults s = [] ∧
      ∀ n, (s.isr n).pc = .report → n = tid
  told : s.reported = true → faults s ≠ [] ∨ ∃ tid, (s.isr tid).pc = .report
  once : ((faults s).filter Line.isGpuFault).length ≤ 1 ∧
    ((faults s).filter Line.isMmuFault).length ≤ 1
  past : ∀ tid, (s.isr tid).pc.past = true → (s.isr tid).Saw → s.reported = true

section
variable {s t : State} {c : Call} {tid : ℕ}

theorem setCall_cases (hisr : t.isr = (s.setCall tid c).isr) (n : ℕ) :
    n = tid ∧ t.isr n = c ∨ n ≠ tid ∧ t.isr n = s.isr n := by
  rw [hisr]
  by_cases hn : n = tid
  · exact .inl ⟨hn, if_pos hn⟩
  · exact .inr ⟨hn, if_neg hn⟩

/-- An access of a call that is not at its report and does not get there. -/
theorem Told.quietly (T : Told s) (hisr : t.isr = (s.setCall tid c).isr)
    (hlog : faults t = faults s) (hrep : t.reported = s.reported)
    (hnot : (s.isr tid).pc ≠ .report) (hc : c.pc ≠ .report)
    (hpast : c.pc.past = true → c.Saw → s.reported = true) : Told t := by
  have hreport (n : ℕ) : (t.isr n).pc = .report → (s.isr n).pc = .report ∧ t.isr n = s.isr n := by
    intro h
    rcases setCall_cases hisr n with ⟨-, hn⟩ | ⟨-, hn⟩
    · exact absurd (hn ▸ h) hc
    · exact ⟨hn ▸ h, hn⟩
  constructor
  · rw [hrep, hlog]
    exact T.quiet
  · intro n hn
    obtain ⟨hpc, hsame⟩ := hreport n hn
    obtain ⟨hr, hsaw, hnone, hall⟩ := T.alone n hpc
    exact ⟨hrep.trans hr, hsame.symm ▸ hsaw, hlog.trans hnone, fun k hk => hall k (hreport k hk).1⟩
  · rw [hrep, hlog]
    refine fun hr => (T.told hr).imp_right fun ⟨n, hn⟩ => ⟨n, ?_⟩
    rcases setCall_cases hisr n with ⟨rfl, -⟩ | ⟨-, hsame⟩
    · exact absurd hn hnot
    · rw [hsame]
      exact hn
  · rw [hlog]
    exact T.once
  · intro n hn hsaw
    rw [hrep]
    rcases setCall_cases hisr n with ⟨-, hsame⟩ | ⟨-, hsame⟩ <;> rw [hsame] at hn hsaw
    · exact hpast hn hsaw
    · exact T.past n hn hsaw

/-- The call that sets the static goes on to its report. -/
theorem Told.claim (T : Told s) (hisr : t.isr = (s.setCall tid c).isr)
    (hlog : t.log = s.log) (hrep : s.reported = false) (hrep' : t.reported = true)
    (hc : c.pc = .report) (hsaw : c.Saw) : Told t := by
  have hfaults : faults t = [] := by
    rw [faults, hlog]
    exact T.quiet hrep
  have hother (n : ℕ) (hn : (t.isr n).pc = .report) : n = tid := by
    rcases setCall_cases hisr n with ⟨hn', -⟩ | ⟨-, hsame⟩
    · exact hn'
    · rw [hsame] at hn
      exact absurd ((T.alone n hn).1.symm.trans hrep) nofun
  have hmine : t.isr tid = c := by
    rw [hisr]
    exact if_pos rfl
  constructor
  · exact fun h => absurd (hrep'.symm.trans h) nofun
  · intro n hn
    obtain rfl := hother n hn
    exact ⟨hrep', hmine.symm ▸ hsaw, hfaults, hother⟩
  · exact fun _ => .inr ⟨tid, hmine.symm ▸ hc⟩
  · rw [hfaults]
    exact ⟨Nat.zero_le _, Nat.zero_le _⟩
  · exact fun _ _ _ => hrep'

theorem lines_faults (c : Call) (s : State) : (c.lines s).filter Line.isFault = c.lines s := by
  unfold Call.lines
  split <;> split <;> rfl

theorem lines_once (c : Call) (s : State) : ((c.lines s).filter Line.isGpuFault).length ≤ 1 ∧
    ((c.lines s).filter Line.isMmuFault).length ≤ 1 := by
  unfold Call.lines
  split <;> split <;> constructor <;> first | exact Nat.le_refl _ | exact Nat.zero_le _

theorem Call.Saw.lines (h : c.Saw) (s : State) : c.lines s ≠ [] := by
  intro hnil
  obtain ⟨hgpu, hmmu⟩ := List.append_eq_nil_iff.mp hnil
  rcases h with h | h
  · rw [if_pos h] at hgpu
    cases hgpu
  · rw [if_pos h] at hmmu
    cases hmmu

/-- The one report. -/
theorem Told.report (T : Told s) (hpc : (s.isr tid).pc = .report)
    (hisr : t.isr = (s.setCall tid c).isr) (hlog : t.log = s.log ++ (s.isr tid).lines s)
    (hrep : t.reported = s.reported) (hc : c.pc ≠ .report) : Told t := by
  obtain ⟨hreported, hsaw, hnone, hall⟩ := T.alone tid hpc
  have hfaults : faults t = (s.isr tid).lines s := by
    rw [faults, hlog, List.filter_append, lines_faults]
    rw [faults] at hnone
    rw [hnone, List.nil_append]
  have hnobody (n : ℕ) : (t.isr n).pc ≠ .report := by
    intro hn
    rcases setCall_cases hisr n with ⟨-, hsame⟩ | ⟨hne, hsame⟩ <;> rw [hsame] at hn
    · exact hc hn
    · exact hne (hall n hn)
  constructor
  · exact fun h => absurd (hreported.symm.trans (hrep.symm.trans h)) nofun
  · exact fun n hn => absurd hn (hnobody n)
  · exact fun _ => .inl (hfaults ▸ hsaw.lines s)
  · rw [hfaults]
    exact lines_once _ _
  · exact fun _ _ _ => hrep.trans hreported

theorem telemetry_faults (total : BitVec 64) (c : Call) :
    (telemetry total c).filter Line.isFault = [] := by
  unfold telemetry
  split <;> rfl

theorem decode_pc (c : Call) : c.decode.pc = .readGpuStatus ∨ c.decode.pc = .clear .gpu := by
  unfold Call.decode
  split
  · exact .inl rfl
  · exact .inr rfl

theorem decode_saw (c : Call) : c.decode.Saw ↔ c.Saw := by
  unfold Call.decode
  split <;> exact Iff.rfl

theorem Told.isr (T : Told s) {P : (State → Prop) → Prop} (R : Read P (s.isr tid)) :
    Told (interruptRoutine s tid) := by
  unfold interruptRoutine
  simp only []
  split
  case h_1 hpc => exact T.quietly rfl rfl rfl (hpc ▸ nofun) nofun nofun
  case h_2 hpc => exact T.quietly rfl rfl rfl (hpc ▸ nofun) nofun nofun
  case h_3 hpc =>
    obtain ⟨hgp, has⟩ := R.none (.inr hpc)
    refine T.quietly rfl rfl rfl (hpc ▸ nofun) ?_ fun _ hsaw => ?_
    · rcases decode_pc { s.isr tid with mmuRaw := (s.flags .mmu).raw } with h | h <;>
        exact h ▸ nofun
    · exact absurd ((decode_saw _).mp hsaw) (not_or.mpr ⟨not_not.mpr hgp, not_not.mpr has⟩)
  case h_4 hpc => exact T.quietly rfl rfl rfl (hpc ▸ nofun) nofun nofun
  case h_5 as hpc =>
    split
    · split <;> exact T.quietly rfl rfl rfl (hpc ▸ nofun) nofun nofun
    · exact T.quietly rfl rfl rfl (hpc ▸ nofun) nofun nofun
  case h_6 hpc =>
    split
    · next hsaw =>
      cases hrep : s.reported with
      | false => exact T.claim rfl rfl hrep rfl rfl hsaw
      | true => exact T.quietly rfl rfl hrep.symm (hpc ▸ nofun) nofun fun _ _ => hrep
    · next hsaw => exact T.quietly rfl rfl rfl (hpc ▸ nofun) nofun fun _ h => absurd h hsaw
  case h_7 hpc => exact T.report hpc rfl rfl rfl nofun
  case h_8 b hpc =>
    have hpast : (s.isr tid).pc.past = true := by rw [hpc]; rfl
    have hafter : afterClear b ≠ .report := by cases b <;> exact nofun
    split <;> exact T.quietly rfl rfl rfl (hpc ▸ nofun) hafter fun _ h => T.past tid hpast h
  case h_9 hpc =>
    have hpast : (s.isr tid).pc.past = true := by rw [hpc]; rfl
    split <;> exact T.quietly rfl rfl rfl (hpc ▸ nofun) nofun fun _ h => T.past tid hpast h
  case h_10 hpc =>
    refine T.quietly rfl ?_ rfl (hpc ▸ nofun) nofun nofun
    rw [faults, List.filter_append, telemetry_faults, List.append_nil]
    rfl

theorem fwInit_reported (s : State) : (fwInit s).reported = s.reported := by
  unfold fwInit
  split <;> (try split) <;> (try split) <;> (try split) <;> rfl

theorem Told.keep (T : Told s) (hisr : t.isr = s.isr) (hlog : t.log = s.log)
    (hrep : t.reported = s.reported) : Told t := by
  have hfaults : faults t = faults s := by rw [faults, hlog, faults]
  constructor <;> simp only [hisr, hrep, hfaults]
  · exact T.quiet
  · exact T.alone
  · exact T.told
  · exact T.once
  · exact T.past

theorem Told.step (T : Told s) {P : (State → Prop) → Prop} (S : Sound P s) {l : Label}
    (h : Interrupts.step s l = some t) : Told t := by
  cases l with
  | isr tid =>
    cases h
    exact T.isr (S.calls tid)
  | boot =>
    cases h
    exact T.keep (fwInit_isr s) (fwInit_log s) (fwInit_reported s)
  | raise | version =>
    simp only [Interrupts.step] at h
    split at h
    · cases h
    · cases h
      exact T.keep rfl rfl rfl
  | recover | gpuFault | asFault =>
    cases h
    exact T.keep rfl rfl rfl

/-- How many of the first `n` values of a counter are printed. The counter wraps. -/
def printed (n : ℕ) : ℕ := n / 8192 + (n + (2 ^ 64 - 1)) / 2 ^ 64

/-- The value of the counter that a line tells. -/
def Line.counter : Line → Option (BitVec 64)
  | .total value _ _ _ => some value
  | _ => none

/-- The values of the counter after the calls up to the `n`th whose lines are printed. -/
def printedTotals (n : ℕ) : List (BitVec 64) :=
  ((List.range n).map fun k => BitVec.ofNat 64 (k + 1)).filter fun v => v = 1 ∨ v &&& 0x1FFF = 0

structure Counted (s : State) : Prop where
  total : s.interruptsTotal = BitVec.ofNat 64 s.calls
  lines : (s.log.filter Line.isTotal).length = printed s.calls
  values : s.log.filterMap Line.counter = printedTotals s.calls

theorem telemetry_printed (n : ℕ) (c : Call) :
    printed (n + 1) = printed n + (telemetry (BitVec.ofNat 64 (n + 1)) c).length := by
  have hone : BitVec.ofNat 64 (n + 1) = 1 ↔ (n + 1) % 2 ^ 64 = 1 := by
    rw [← BitVec.toNat_inj, BitVec.toNat_ofNat]
    rfl
  have hlow : BitVec.ofNat 64 (n + 1) &&& 0x1FFF = 0 ↔ (n + 1) % 8192 = 0 := by
    rw [← BitVec.toNat_inj, BitVec.toNat_and, BitVec.toNat_ofNat]
    change ((n + 1) % 2 ^ 64) &&& (2 ^ 13 - 1) = 0 ↔ _
    rw [Nat.and_two_pow_sub_one_eq_mod]
    omega
  unfold telemetry printed
  split
  · next h =>
    rw [hone, hlow] at h
    simp only [List.length_singleton]
    omega
  · next h =>
    rw [hone, hlow] at h
    simp only [List.length_nil]
    omega

theorem telemetry_total (total : BitVec 64) (c : Call) :
    (telemetry total c).filter Line.isTotal = telemetry total c := by
  unfold telemetry
  split <;> rfl

theorem lines_total (c : Call) (s : State) : (c.lines s).filter Line.isTotal = [] := by
  unfold Call.lines
  split <;> split <;> rfl

theorem filterMap_counter (log : List Line) :
    log.filterMap Line.counter = (log.filter Line.isTotal).filterMap Line.counter := by
  rw [List.filterMap_filter]
  exact List.filterMap_congr fun line _ => by cases line <;> simp [Line.counter, Line.isTotal]

theorem telemetry_counter (n : ℕ) (c : Call) :
    printedTotals (n + 1) =
      printedTotals n ++ (telemetry (BitVec.ofNat 64 (n + 1)) c).filterMap Line.counter := by
  unfold printedTotals telemetry
  rw [List.range_succ, List.map_append, List.filter_append]
  congr 1
  rw [List.map_singleton, List.filter_singleton]
  split
  · next h =>
    rw [decide_eq_true h]
    rfl
  · next h =>
    rw [decide_eq_false h]
    rfl

theorem Counted.keep (C : Counted s) (htotal : t.interruptsTotal = s.interruptsTotal)
    (hcalls : t.calls = s.calls) (hlog : t.log.filter Line.isTotal = s.log.filter Line.isTotal) :
    Counted t :=
  ⟨htotal.trans (C.total.trans (hcalls ▸ rfl)), by rw [hlog, C.lines, hcalls],
    by rw [filterMap_counter, hlog, ← filterMap_counter, C.values, hcalls]⟩

theorem Counted.isr (C : Counted s) (tid : ℕ) : Counted (interruptRoutine s tid) := by
  unfold interruptRoutine
  simp only []
  split
  case h_7 =>
    refine C.keep rfl rfl ?_
    rw [List.filter_append, lines_total, List.append_nil]
  case h_10 =>
    have htotal : s.interruptsTotal + 1 = BitVec.ofNat 64 (s.calls + 1) := by
      rw [C.total, BitVec.ofNat_add]
      rfl
    refine ⟨htotal, ?_, ?_⟩
    · change ((s.log ++ telemetry (s.interruptsTotal + 1) _).filter Line.isTotal).length = _
      rw [List.filter_append, telemetry_total, List.length_append, C.lines, htotal]
      exact (telemetry_printed s.calls _).symm
    · change (s.log ++ telemetry (s.interruptsTotal + 1) _).filterMap Line.counter = _
      rw [List.filterMap_append, C.values, htotal]
      exact (telemetry_counter s.calls _).symm
  all_goals
    (try split) <;> (try split) <;> exact C.keep rfl rfl rfl

theorem fwInit_counts (s : State) :
    (fwInit s).interruptsTotal = s.interruptsTotal ∧ (fwInit s).calls = s.calls := by
  unfold fwInit
  split <;> (try split) <;> (try split) <;> (try split) <;> exact ⟨rfl, rfl⟩

theorem Counted.step (C : Counted s) {l : Label} (h : Interrupts.step s l = some t) :
    Counted t := by
  cases l with
  | isr tid =>
    cases h
    exact C.isr tid
  | boot =>
    cases h
    obtain ⟨htotal, hcalls⟩ := fwInit_counts s
    exact C.keep htotal hcalls (by rw [fwInit_log])
  | raise | version =>
    simp only [Interrupts.step] at h
    split at h
    · cases h
    · cases h
      exact C.keep rfl rfl rfl
  | recover | gpuFault | asFault =>
    cases h
    exact C.keep rfl rfl rfl

end

section
variable {raw mask : Block → BitVec 32} {gpuFs : BitVec 32} {asFs : ℕ → BitVec 32}
  {shared : Shared} {ls : List Label} {s : State}

theorem initial_sound (P : (State → Prop) → Prop) :
    Sound P (initial raw mask gpuFs asFs shared) :=
  ⟨fun _ => read_idle, fun _ h => nomatch h⟩

theorem initial_told : Told (initial raw mask gpuFs asFs shared) :=
  ⟨fun _ => rfl, nofun, nofun, ⟨Nat.zero_le _, Nat.zero_le _⟩, nofun⟩

theorem initial_counted : Counted (initial raw mask gpuFs asFs shared) :=
  ⟨rfl, by change 0 = printed 0; decide, rfl⟩

theorem told_run (h : exec step (initial raw mask gpuFs asFs shared) ls = some s) :
    Told s := by
  have hstep : ∀ s l t, Sound (fun _ => True) s ∧ Told s → True → step s l = some t →
      Sound (fun _ => True) t ∧ Told t :=
    fun _ _ _ ⟨S, T⟩ _ h => ⟨S.step (fun _ _ => trivial) h, T.step S h⟩
  have hrun := exec_invariant hstep ⟨initial_sound _, initial_told⟩ (guarded_true _ _ _) h
  exact hrun.2

/-- Over the whole life of the driver the calls print one fault report, however they interleave.
What it says was in the words and a fault register, so a bit without a fault does not use it
up, and a call that has seen a fault is not over before one is reported. The counter's lines
are the first of each round of the counter and every 8192nd. -/
theorem faults_told_once (h : exec step (initial raw mask gpuFs asFs shared) ls = some s) :
    ((s.log.filter Line.isGpuFault).length ≤ 1 ∧ (s.log.filter Line.isMmuFault).length ≤ 1) ∧
    (∀ line ∈ s.log, line.Real (Passed (initial raw mask gpuFs asFs shared) ls)) ∧
    (∀ tid, (s.isr tid).pc.past = true → (s.isr tid).Saw →
      (∃ line ∈ s.log, line.isFault = true) ∨ ∃ n, (s.isr n).pc = .report) ∧
    (s.log.filter Line.isTotal).length = printed s.calls ∧
    s.log.filterMap Line.counter = printedTotals s.calls := by
  have T := told_run h
  have S := (initial_sound _).run h
  have C : Counted s := exec_invariant (fun _ _ _ C _ h => C.step h) initial_counted
    (guarded_true _ _ _) h
  refine ⟨?_, S.log, fun tid hpast hsaw => ?_, C.lines, C.values⟩
  · have honce := T.once
    simp only [faults, List.filter_filter] at honce
    have hgpu (x : Line) : (x.isGpuFault && x.isFault) = x.isGpuFault := by cases x <;> rfl
    have hmmu (x : Line) : (x.isMmuFault && x.isFault) = x.isMmuFault := by cases x <;> rfl
    simpa only [hgpu, hmmu] using honce
  · refine (T.told (T.past tid hpast hsaw)).imp_left fun hne => ?_
    obtain ⟨line, hline⟩ := List.exists_mem_of_ne_nil _ hne
    exact ⟨line, List.mem_filter.mp hline⟩

end

/-- An address space's benign notification, and then a fault of address space 2 that two calls
see. -/
def twoFaults : List Label :=
  [.raise .mmu 0x20000] ++ List.replicate 18 (.isr 0) ++
    [.asFault 2 0x3C3 0x1000, .raise .mmu 4] ++ List.replicate 3 (.isr 0) ++
    List.replicate 12 (.isr 1) ++ [.raise .mmu 4] ++ List.replicate 6 (.isr 0)

def faulted : State := (exec step start twoFaults).getD start

theorem twoFaults_once : (faulted.isr 1).Saw ∧
    (faulted.log.filter Line.isMmuFault).length ≤ 1 ∧ ∃ line ∈ faulted.log, line.isFault = true := by
  have h : exec step start twoFaults = some faulted := rfl
  obtain ⟨honce, -, htold, -⟩ := faults_told_once h
  have hsaw : (faulted.isr 1).Saw := .inr (by decide)
  refine ⟨hsaw, honce.2, (htold 1 (by decide) hsaw).resolve_right ?_⟩
  rintro ⟨n, hn⟩
  match n with
  | 0 => cases hn
  | 1 => cases hn
  | n + 2 => cases hn

end WinMali.Interrupts
