import WinMaliKmd.FirmwareImage
import WinMaliKmd.ForLoops
import WinMaliKmd.Trampoline

/-!
# Discovery of the command stream interfaces

`WinMaliFwSetupGlbIface_` and `WinMaliFwInitCsfIfaces_` walk over the control blocks that
the firmware has published in the shared section, and keep pointers to the interfaces that
these blocks name. Pointers are offsets from the section's `BackingVa`.
-/

set_option autoImplicit false

namespace WinMali.CsfIfaces
open WinMali.EscapeBuffer WinMali.FirmwareImage WinMali.ForLoops WinMali.Trampoline

/-- The section at `SharedIndex`, once the firmware has written there. `byte o` is what is found
`o` bytes past `BackingVa`, past the end of the backing too. -/
structure SharedSection where
  sec : FwSection
  byte : ℕ → BitVec 8
  size_eq : sec.backingBytes = sec.vaEnd.toNat - sec.vaStart.toNat
  null_iff : sec.backingPa = none ↔ sec.backingBytes = 0

/-- What the loader makes of an entry is a shared section, whatever is written there later. -/
def SharedSection.ofEntry (img : Image) (pa : ℕ → BitVec 64) (i o : ℕ) (byte : ℕ → BitVec 8) :
    SharedSection where
  sec := sectionAt img pa i o
  byte := byte
  size_eq := rfl
  null_iff := by simp [sectionAt]

def SharedSection.u32 (c : SharedSection) (o : ℕ) : Ulong :=
  c.byte (o + 3) ++ c.byte (o + 2) ++ c.byte (o + 1) ++ c.byte o

structure GlbControl where
  version : Ulong
  inputVa : Ulong
  outputVa : Ulong
  groupNum : Ulong
  groupStride : Ulong

structure CsgControl where
  features : Ulong
  inputVa : Ulong
  outputVa : Ulong
  suspendSize : Ulong
  protmSuspendSize : Ulong
  streamNum : Ulong
  streamStride : Ulong

structure CsControl where
  features : Ulong
  inputVa : Ulong
  outputVa : Ulong

def SharedSection.glbControl (c : SharedSection) (o : ℕ) : GlbControl where
  version := c.u32 o
  inputVa := c.u32 (o + 8)
  outputVa := c.u32 (o + 12)
  groupNum := c.u32 (o + 16)
  groupStride := c.u32 (o + 20)

def SharedSection.csgControl (c : SharedSection) (o : ℕ) : CsgControl where
  features := c.u32 o
  inputVa := c.u32 (o + 4)
  outputVa := c.u32 (o + 8)
  suspendSize := c.u32 (o + 12)
  protmSuspendSize := c.u32 (o + 16)
  streamNum := c.u32 (o + 20)
  streamStride := c.u32 (o + 24)

def SharedSection.csControl (c : SharedSection) (o : ℕ) : CsControl where
  features := c.u32 o
  inputVa := c.u32 (o + 4)
  outputVa := c.u32 (o + 8)

def glbControlBytes : ℕ := 32

def glbInputBytes : ℕ := 132

def glbOutputBytes : ℕ := 28

def csgControlBytes : ℕ := 28

def csgInputBytes : ℕ := 88

def csgOutputBytes : ℕ := 32

def csControlBytes : ℕ := 12

def csInputBytes : ℕ := 88

def csOutputBytes : ℕ := 216

def csfGroupControlOffset : Ulong := 0x1000

def csfStreamControlOffset : Ulong := 0x40

def csfMinCsPerCsg : Ulong := 8

def csfMaxCsPerCsg : Ulong := 32

def csfMinCsgs : Ulong := 3

def csfMaxCsgs : Ulong := 31

inductive IfaceStatus
  | success
  | notFound
  | deviceNotReady
  | invalidParameter
  | invalidImageFormat
deriving DecidableEq, Repr

/-- The pointers that are kept for the slot that runs streams, all set at once. -/
structure SlotIfaces where
  csg0Control : ℕ
  csg0Input : ℕ
  csg0Output : ℕ
  cs00Control : ℕ
  cs00Input : ℕ
  cs00Output : ℕ
deriving DecidableEq, Repr

/-- The part of the context that discovery writes. `reads` lists the control blocks that were
read, the latest first. -/
structure Ifaces where
  glbControl : Option ℕ
  glbInput : Option ℕ
  glbOutput : Option ℕ
  csfIfaceValid : Bool
  csfGroupNum : Ulong
  csfGroupStride : Ulong
  csfStreamNum : Ulong
  csfStreamStride : Ulong
  csRegCount : Word
  csUnpreservedRegCount : Word
  sbSlotCount : ℕ
  slot : Option SlotIfaces
  reads : List Access

/-- The context before discovery, zeroed by its allocation. -/
def Ifaces.fresh : Ifaces :=
  ⟨none, none, none, false, 0, 0, 0, 0, 0, 0, 0, none, []⟩

def Ifaces.read (fw : Ifaces) (offset length : ℕ) : Ifaces :=
  { fw with reads := ⟨offset, length⟩ :: fw.reads }

def SlotIfaces.whole (slot : SlotIfaces) : List Access :=
  [⟨slot.csg0Control, csgControlBytes⟩, ⟨slot.csg0Input, csgInputBytes⟩,
    ⟨slot.csg0Output, csgOutputBytes⟩, ⟨slot.cs00Control, csControlBytes⟩,
    ⟨slot.cs00Input, csInputBytes⟩, ⟨slot.cs00Output, csOutputBytes⟩]

/-- The whole interfaces that the kept pointers lead to. -/
def Ifaces.cached (fw : Ifaces) : List Access :=
  fw.glbControl.toList.map (⟨·, glbControlBytes⟩) ++
    fw.glbInput.toList.map (⟨·, glbInputBytes⟩) ++
    fw.glbOutput.toList.map (⟨·, glbOutputBytes⟩) ++ fw.slot.elim [] SlotIfaces.whole

/-- Every block that was read and every interface that is kept lies in the backing. -/
def Inside (c : SharedSection) (fw : Ifaces) : Prop :=
  ∀ a ∈ fw.reads ++ fw.cached, a.offset + a.length ≤ c.sec.backingBytes

def mcuVaToCpu (c : SharedSection) (mcuVa : Ulong) : Option ℕ :=
  if c.sec.backingPa = none then none
  else if mcuVa < c.sec.vaStart ∨ mcuVa ≥ c.sec.vaEnd then none
  else some (mcuVa.toNat - c.sec.vaStart.toNat)

/-- The same on the section at `SharedIndex`. -/
def ifaceFwToCpu (c : SharedSection) (mcuVa : Ulong) : Option ℕ := mcuVaToCpu c mcuVa

/-- `none` is a `SharedIndex` past the sections. -/
def setupGlbIface (shared : Option SharedSection) (fw : Ifaces) : IfaceStatus × Ifaces :=
  match shared with
  | none => (.notFound, fw)
  | some c =>
    let ctl := c.glbControl 0
    let fw := fw.read 0 glbControlBytes
    if ctl.version = 0 then (.deviceNotReady, fw)
    else
      let fw := { fw with
        glbControl := some 0
        glbInput := mcuVaToCpu c ctl.inputVa
        glbOutput := mcuVaToCpu c ctl.outputVa }
      if fw.glbInput = none ∨ fw.glbOutput = none then (.invalidParameter, fw)
      else (.success, fw)

/-- Where the control block of a group is. The offset is a `ULONG`. -/
def groupAt (glb : ℕ) (gs : Ulong) (csg : ℕ) : ℕ :=
  glb + (csfGroupControlOffset + BitVec.ofNat 32 csg * gs).toNat

def streamAt (glb : ℕ) (gs : Ulong) (csg : ℕ) (st : Ulong) (cs : ℕ) : ℕ :=
  glb + (csfGroupControlOffset + BitVec.ofNat 32 csg * gs + csfStreamControlOffset +
    BitVec.ofNat 32 cs * st).toNat

section Source

variable (c : SharedSection) (glb : ℕ) (gs : Ulong)

/-- One turn of the loop over the streams of a group. -/
def initStream (csg cctl cin cout : ℕ) (st : Ulong) (cs : ℕ) (fw : Ifaces) :
    Option IfaceStatus × Ifaces :=
  let sc := streamAt glb gs csg st cs
  let ctl := c.csControl sc
  let fw := fw.read sc csControlBytes
  match ifaceFwToCpu c ctl.inputVa, ifaceFwToCpu c ctl.outputVa with
  | some si, some so =>
    if csg = 0 ∧ cs = 0 then
      (none, { fw with
        csRegCount := csRegCount ctl.features
        csUnpreservedRegCount := csfUnpreservedRegCount
        sbSlotCount := sbSlotCount ctl.features
        slot := some ⟨cctl, cin, cout, sc, si, so⟩ })
    else if cs > 0 ∨ csg > 0 then
      match fw.slot with
      | none => (none, fw)
      | some slot =>
        let fw := fw.read slot.cs00Control csControlBytes
        if ctl.features ≠ (c.csControl slot.cs00Control).features then
          (some .invalidImageFormat, fw)
        else (none, fw)
    else (none, fw)
  | _, _ => (some .invalidParameter, fw)

/-- The part of a group's turn after the checks of its control block. -/
def initStreams (csg cctl : ℕ) (ctl : CsgControl) (fw : Ifaces) : Option IfaceStatus × Ifaces :=
  match ifaceFwToCpu c ctl.inputVa, ifaceFwToCpu c ctl.outputVa with
  | some cin, some cout =>
    forLoop (initStream c glb gs csg cctl cin cout ctl.streamStride) ctl.streamNum.toNat 0 fw
  | _, _ => (some .invalidParameter, fw)

def CsgControl.Differs (ctl c0 : CsgControl) : Prop :=
  ctl.features ≠ c0.features ∨ ctl.suspendSize ≠ c0.suspendSize ∨
    ctl.protmSuspendSize ≠ c0.protmSuspendSize ∨ ctl.streamNum ≠ c0.streamNum ∨
    ctl.streamStride ≠ c0.streamStride

instance (ctl c0 : CsgControl) : Decidable (ctl.Differs c0) :=
  inferInstanceAs (Decidable (_ ∨ _))

/-- One turn of the loop over the groups. -/
def initGroup (csg : ℕ) (fw : Ifaces) : Option IfaceStatus × Ifaces :=
  let cctl := groupAt glb gs csg
  let ctl := c.csgControl cctl
  let fw := fw.read cctl csgControlBytes
  if ctl.streamNum < csfMinCsPerCsg ∨ ctl.streamNum > csfMaxCsPerCsg then
    (some .invalidImageFormat, fw)
  else if csg = 0 then
    initStreams c glb gs csg cctl ctl
      { fw with csfStreamNum := ctl.streamNum, csfStreamStride := ctl.streamStride }
  else
    let c0 := glb + csfGroupControlOffset.toNat
    let fw := fw.read c0 csgControlBytes
    if ctl.Differs (c.csgControl c0) then (some .invalidImageFormat, fw)
    else initStreams c glb gs csg cctl ctl fw

def initCsfIfaces (fw : Ifaces) : IfaceStatus × Ifaces :=
  match fw.glbControl with
  | none => (.invalidParameter, fw)
  | some glb =>
    let gn := (c.glbControl glb).groupNum
    let gs := (c.glbControl glb).groupStride
    let fw := fw.read glb glbControlBytes
    if gn < csfMinCsgs ∨ gn > csfMaxCsgs ∨ gs = 0 ∨ gs > 0x100000 then (.invalidImageFormat, fw)
    else
      let fw := { fw with csfGroupNum := gn, csfGroupStride := gs }
      match forLoop (initGroup c glb gs) gn.toNat 0 fw with
      | (some status, fw) => (status, fw)
      | (none, fw) => (.success, { fw with csfIfaceValid := true })

end Source

/-- The two of them, as the loader of the firmware calls them. -/
def discover (shared : Option SharedSection) : IfaceStatus × Ifaces :=
  match shared, setupGlbIface shared .fresh with
  | some c, (.success, fw) => initCsfIfaces c fw
  | _, out => out

section Addresses

variable {c : SharedSection} {va : Ulong} {n : ℕ}

def InSection (c : SharedSection) (va : Ulong) : Prop := c.sec.vaStart ≤ va ∧ va < c.sec.vaEnd

/-- From the address, `n` bytes are left up to the end of the section. -/
def Room (c : SharedSection) (va : Ulong) (n : ℕ) : Prop := va.toNat + n ≤ c.sec.vaEnd.toNat

def cpuOf (c : SharedSection) (va : Ulong) : ℕ := va.toNat - c.sec.vaStart.toNat

theorem mcuVaToCpu_of (h : InSection c va) : mcuVaToCpu c va = some (cpuOf c va) := by
  have hsize := c.size_eq
  have hnull : c.sec.backingPa ≠ none := by
    intro hnone
    have hzero := c.null_iff.mp hnone
    have h1 := BitVec.le_def.mp h.1
    have h2 := BitVec.lt_def.mp h.2
    omega
  have hrange : ¬(va < c.sec.vaStart ∨ va ≥ c.sec.vaEnd) := by
    rintro (hlt | hge)
    · exact BitVec.not_lt.mpr h.1 hlt
    · exact BitVec.not_le.mpr h.2 hge
  rw [mcuVaToCpu, if_neg hnull, if_neg hrange]
  rfl

theorem mcuVaToCpu_not (h : ¬InSection c va) : mcuVaToCpu c va = none := by
  unfold mcuVaToCpu
  split
  · rfl
  · rw [if_pos]
    by_contra hrange
    obtain ⟨h1, h2⟩ := not_or.mp hrange
    exact h ⟨BitVec.not_lt.mp h1, BitVec.not_le.mp h2⟩

theorem mcuVaToCpu_none_iff : mcuVaToCpu c va = none ↔ ¬InSection c va := by
  constructor
  · intro hnone h
    rw [mcuVaToCpu_of h] at hnone
    cases hnone
  · exact mcuVaToCpu_not

/-- A structure at the pointer is in the backing when it ends before the section's last address. -/
theorem room_iff (h : InSection c va) :
    cpuOf c va + n ≤ c.sec.backingBytes ↔ Room c va n := by
  have hsize := c.size_eq
  have h1 := BitVec.le_def.mp h.1
  have h2 := BitVec.lt_def.mp h.2
  unfold cpuOf Room
  omega

end Addresses

section Contexts

variable {c : SharedSection} {fw : Ifaces} {a : Access}

theorem inside_read {o n : ℕ} :
    Inside c (fw.read o n) ↔ o + n ≤ c.sec.backingBytes ∧ Inside c fw := by
  unfold Inside
  rw [show (fw.read o n).reads ++ (fw.read o n).cached = ⟨o, n⟩ :: (fw.reads ++ fw.cached) from rfl]
  exact List.forall_mem_cons

theorem Inside.seen (h : Inside c fw) (ha : a ∈ fw.reads) :
    a.offset + a.length ≤ c.sec.backingBytes :=
  h a (List.mem_append_left _ ha)

theorem Inside.kept {slot : SlotIfaces} (h : Inside c fw) (hslot : fw.slot = some slot)
    (ha : a ∈ slot.whole) : a.offset + a.length ≤ c.sec.backingBytes := by
  refine h a (List.mem_append_right _ (List.mem_append_right _ ?_))
  rw [hslot]
  exact ha

/-- The slot's pointers are kept for the first time. -/
theorem inside_slot (fw : Ifaces) {fw' : Ifaces} (slot : SlotIfaces) (hnone : fw.slot = none)
    (hreads : fw'.reads = fw.reads) (hcontrol : fw'.glbControl = fw.glbControl)
    (hinput : fw'.glbInput = fw.glbInput) (houtput : fw'.glbOutput = fw.glbOutput)
    (hslot : fw'.slot = some slot) :
    Inside c fw' ↔
      Inside c fw ∧ ∀ a ∈ slot.whole, a.offset + a.length ≤ c.sec.backingBytes := by
  have hlist : fw'.reads ++ fw'.cached = fw.reads ++ fw.cached ++ slot.whole := by
    simp [Ifaces.cached, hreads, hcontrol, hinput, houtput, hslot, hnone]
  unfold Inside
  rw [hlist]
  exact List.forall_mem_append

end Contexts

section Published

variable (c : SharedSection) (glb : ℕ) (gs : Ulong)

def csgAt (csg : ℕ) : CsgControl := c.csgControl (groupAt glb gs csg)

def csAt (csg cs : ℕ) : CsControl :=
  c.csControl (streamAt glb gs csg (csgAt c glb gs csg).streamStride cs)

/-- What the loop over the streams asks of a stream before it goes on. -/
structure StreamGood (csg cs : ℕ) : Prop where
  input : InSection c (csAt c glb gs csg cs).inputVa
  output : InSection c (csAt c glb gs csg cs).outputVa
  features : (csAt c glb gs csg cs).features = (csAt c glb gs 0 0).features

/-- What is asked of a group before its streams. -/
structure HeaderGood (csg : ℕ) : Prop where
  min : csfMinCsPerCsg ≤ (csgAt c glb gs csg).streamNum
  max : (csgAt c glb gs csg).streamNum ≤ csfMaxCsPerCsg
  same : ¬(csgAt c glb gs csg).Differs (csgAt c glb gs 0)
  input : InSection c (csgAt c glb gs csg).inputVa
  output : InSection c (csgAt c glb gs csg).outputVa

def GroupGood (csg : ℕ) : Prop :=
  HeaderGood c glb gs csg ∧
    ∀ cs < (csgAt c glb gs csg).streamNum.toNat, StreamGood c glb gs csg cs

/-- The interfaces of the first group and of its first stream end before the section does. -/
structure SlotRoom : Prop where
  csgInput : Room c (csgAt c glb gs 0).inputVa csgInputBytes
  csgOutput : Room c (csgAt c glb gs 0).outputVa csgOutputBytes
  csInput : Room c (csAt c glb gs 0 0).inputVa csInputBytes
  csOutput : Room c (csAt c glb gs 0 0).outputVa csOutputBytes

structure StreamFits (csg cs : ℕ) : Prop where
  control : streamAt glb gs csg (csgAt c glb gs csg).streamStride cs + csControlBytes ≤
    c.sec.backingBytes
  slot : csg = 0 → cs = 0 → InSection c (csAt c glb gs 0 0).inputVa →
    InSection c (csAt c glb gs 0 0).outputVa → SlotRoom c glb gs

structure GroupFits (csg : ℕ) : Prop where
  control : groupAt glb gs csg + csgControlBytes ≤ c.sec.backingBytes
  streams : HeaderGood c glb gs csg → ∀ cs < (csgAt c glb gs csg).streamNum.toNat,
    (∀ k < cs, StreamGood c glb gs csg k) → StreamFits c glb gs csg cs

/-- Between two turns, the slot is kept from the first stream of the first group on. -/
structure Between (csg cs : ℕ) (fw : Ifaces) : Prop where
  unset : csg = 0 → cs = 0 → fw.slot = none
  set : 0 < csg ∨ 0 < cs → ∃ slot, fw.slot = some slot ∧
    slot.cs00Control = streamAt glb gs 0 (csgAt c glb gs 0).streamStride 0
  csg0 : 0 < csg ∨ 0 < cs → ⟨groupAt glb gs 0, csgControlBytes⟩ ∈ fw.reads

end Published

section Streams

variable {c : SharedSection} {glb : ℕ} {gs : Ulong} {csg cs : ℕ} {fw : Ifaces}

/-- The turn of a stream, from the values that its group has left. -/
def turn (c : SharedSection) (glb : ℕ) (gs : Ulong) (csg : ℕ) :
    ℕ → Ifaces → Option IfaceStatus × Ifaces :=
  initStream c glb gs csg (groupAt glb gs csg) (cpuOf c (csgAt c glb gs csg).inputVa)
    (cpuOf c (csgAt c glb gs csg).outputVa) (csgAt c glb gs csg).streamStride

theorem turn_bad (h : ¬(InSection c (csAt c glb gs csg cs).inputVa ∧
    InSection c (csAt c glb gs csg cs).outputVa)) :
    turn c glb gs csg cs fw = (some .invalidParameter,
      fw.read (streamAt glb gs csg (csgAt c glb gs csg).streamStride cs) csControlBytes) := by
  change (match mcuVaToCpu c (csAt c glb gs csg cs).inputVa,
    mcuVaToCpu c (csAt c glb gs csg cs).outputVa with
    | some _, some _ => _
    | _, _ => _) = _
  by_cases hin : InSection c (csAt c glb gs csg cs).inputVa
  · rw [mcuVaToCpu_of hin, mcuVaToCpu_not fun hout => h ⟨hin, hout⟩]
  · rw [mcuVaToCpu_not hin]

/-- The slot that the first stream of the first group gives. -/
def slotOf (c : SharedSection) (glb : ℕ) (gs : Ulong) : SlotIfaces where
  csg0Control := groupAt glb gs 0
  csg0Input := cpuOf c (csgAt c glb gs 0).inputVa
  csg0Output := cpuOf c (csgAt c glb gs 0).outputVa
  cs00Control := streamAt glb gs 0 (csgAt c glb gs 0).streamStride 0
  cs00Input := cpuOf c (csAt c glb gs 0 0).inputVa
  cs00Output := cpuOf c (csAt c glb gs 0 0).outputVa

theorem turn_first (hin : InSection c (csAt c glb gs 0 0).inputVa)
    (hout : InSection c (csAt c glb gs 0 0).outputVa) :
    turn c glb gs 0 0 fw = (none,
      { fw.read (streamAt glb gs 0 (csgAt c glb gs 0).streamStride 0) csControlBytes with
        csRegCount := csRegCount (csAt c glb gs 0 0).features
        csUnpreservedRegCount := csfUnpreservedRegCount
        sbSlotCount := sbSlotCount (csAt c glb gs 0 0).features
        slot := some (slotOf c glb gs) }) := by
  change (match mcuVaToCpu c (csAt c glb gs 0 0).inputVa,
    mcuVaToCpu c (csAt c glb gs 0 0).outputVa with
    | some _, some _ => _
    | _, _ => _) = _
  rw [mcuVaToCpu_of hin, mcuVaToCpu_of hout]
  rfl

theorem turn_next (hnext : 0 < csg ∨ 0 < cs) (B : Between c glb gs csg cs fw)
    (hin : InSection c (csAt c glb gs csg cs).inputVa)
    (hout : InSection c (csAt c glb gs csg cs).outputVa) :
    turn c glb gs csg cs fw =
      (if (csAt c glb gs csg cs).features ≠ (csAt c glb gs 0 0).features then
        some .invalidImageFormat else none,
      (fw.read (streamAt glb gs csg (csgAt c glb gs csg).streamStride cs) csControlBytes).read
        (streamAt glb gs 0 (csgAt c glb gs 0).streamStride 0) csControlBytes) := by
  obtain ⟨slot, hslot, hcs00⟩ := B.set hnext
  unfold turn initStream
  change (match mcuVaToCpu c (csAt c glb gs csg cs).inputVa,
    mcuVaToCpu c (csAt c glb gs csg cs).outputVa with
    | some _, some _ => _
    | _, _ => _) = _
  rw [mcuVaToCpu_of hin, mcuVaToCpu_of hout]
  simp only [Ifaces.read, hslot]
  rw [if_neg (by omega), if_pos (by omega), hcs00]
  split
  · rw [if_pos (by assumption)]
  · rw [if_neg (by assumption)]

theorem turn_goes (B : Between c glb gs csg cs fw) :
    (turn c glb gs csg cs fw).1 = none ↔ StreamGood c glb gs csg cs := by
  by_cases h : InSection c (csAt c glb gs csg cs).inputVa ∧
    InSection c (csAt c glb gs csg cs).outputVa
  · by_cases hnext : 0 < csg ∨ 0 < cs
    · rw [turn_next hnext B h.1 h.2]
      constructor
      · intro hnone
        refine ⟨h.1, h.2, ?_⟩
        by_contra hne
        rw [if_pos hne] at hnone
        cases hnone
      · exact fun G => if_neg (not_not.mpr G.features)
    · obtain ⟨rfl, rfl⟩ : csg = 0 ∧ cs = 0 := by omega
      rw [turn_first h.1 h.2]
      exact ⟨fun _ => ⟨h.1, h.2, rfl⟩, fun _ => rfl⟩
  · rw [turn_bad h]
    constructor
    · intro hnone
      cases hnone
    · exact fun G => absurd ⟨G.input, G.output⟩ h

theorem turn_keeps (B : Between c glb gs csg cs fw)
    (hcsg0 : ⟨groupAt glb gs 0, csgControlBytes⟩ ∈ fw.reads) (G : StreamGood c glb gs csg cs) :
    Between c glb gs csg (cs + 1) (turn c glb gs csg cs fw).2 ∧
      ⟨groupAt glb gs 0, csgControlBytes⟩ ∈ (turn c glb gs csg cs fw).2.reads := by
  by_cases hnext : 0 < csg ∨ 0 < cs
  · rw [turn_next hnext B G.input G.output]
    have hmem := List.mem_cons_of_mem
      ⟨streamAt glb gs 0 (csgAt c glb gs 0).streamStride 0, csControlBytes⟩
      (List.mem_cons_of_mem
        ⟨streamAt glb gs csg (csgAt c glb gs csg).streamStride cs, csControlBytes⟩ hcsg0)
    exact ⟨⟨fun _ hzero => by omega, fun _ => B.set hnext, fun _ => hmem⟩, hmem⟩
  · obtain ⟨rfl, rfl⟩ : csg = 0 ∧ cs = 0 := by omega
    rw [turn_first G.input G.output]
    have hmem := List.mem_cons_of_mem
      ⟨streamAt glb gs 0 (csgAt c glb gs 0).streamStride 0, csControlBytes⟩ hcsg0
    exact ⟨⟨fun _ hzero => by omega, fun _ => ⟨slotOf c glb gs, rfl, rfl⟩, fun _ => hmem⟩, hmem⟩

theorem slotOf_whole (hcin : InSection c (csgAt c glb gs 0).inputVa)
    (hcout : InSection c (csgAt c glb gs 0).outputVa)
    (hin : InSection c (csAt c glb gs 0 0).inputVa)
    (hout : InSection c (csAt c glb gs 0 0).outputVa)
    (hcsg : groupAt glb gs 0 + csgControlBytes ≤ c.sec.backingBytes)
    (hcs : streamAt glb gs 0 (csgAt c glb gs 0).streamStride 0 + csControlBytes ≤
      c.sec.backingBytes) :
    (∀ a ∈ (slotOf c glb gs).whole, a.offset + a.length ≤ c.sec.backingBytes) ↔
      SlotRoom c glb gs := by
  simp only [SlotIfaces.whole, slotOf, List.forall_mem_cons]
  constructor
  · rintro ⟨-, h1, h2, -, h3, h4, -⟩
    exact ⟨(room_iff hcin).mp h1, (room_iff hcout).mp h2, (room_iff hin).mp h3,
      (room_iff hout).mp h4⟩
  · rintro ⟨h1, h2, h3, h4⟩
    exact ⟨hcsg, (room_iff hcin).mpr h1, (room_iff hcout).mpr h2, hcs, (room_iff hin).mpr h3,
      (room_iff hout).mpr h4, List.forall_mem_nil _⟩

theorem turn_adds (H : HeaderGood c glb gs csg) (B : Between c glb gs csg cs fw)
    (hcsg0 : ⟨groupAt glb gs 0, csgControlBytes⟩ ∈ fw.reads) :
    Inside c (turn c glb gs csg cs fw).2 ↔ Inside c fw ∧ StreamFits c glb gs csg cs := by
  by_cases h : InSection c (csAt c glb gs csg cs).inputVa ∧
    InSection c (csAt c glb gs csg cs).outputVa
  · by_cases hnext : 0 < csg ∨ 0 < cs
    · -- the block of the first stream is read again, as one of the kept interfaces
      rw [turn_next hnext B h.1 h.2, inside_read, inside_read]
      obtain ⟨slot, hslot, hcs00⟩ := B.set hnext
      constructor
      · rintro ⟨-, hsc, hfw⟩
        exact ⟨hfw, hsc, fun h1 h2 => absurd hnext (by omega)⟩
      · rintro ⟨hfw, F⟩
        have hs0 := hfw.kept hslot (a := ⟨slot.cs00Control, csControlBytes⟩)
          (by simp [SlotIfaces.whole])
        exact ⟨hcs00 ▸ hs0, F.control, hfw⟩
    · obtain ⟨rfl, rfl⟩ : csg = 0 ∧ cs = 0 := by omega
      rw [turn_first h.1 h.2]
      refine Iff.trans (inside_slot (fw.read _ csControlBytes) (slotOf c glb gs)
        (B.unset rfl rfl) rfl rfl rfl rfl rfl) ?_
      rw [inside_read]
      constructor
      · rintro ⟨⟨hsc, hfw⟩, hall⟩
        have hroom := (slotOf_whole H.input H.output h.1 h.2 (hfw.seen hcsg0) hsc).mp hall
        exact ⟨hfw, hsc, fun _ _ _ _ => hroom⟩
      · rintro ⟨hfw, F⟩
        exact ⟨⟨F.control, hfw⟩,
          (slotOf_whole H.input H.output h.1 h.2 (hfw.seen hcsg0) F.control).mpr
            (F.slot rfl rfl h.1 h.2)⟩
  · rw [turn_bad h, inside_read]
    constructor
    · rintro ⟨hsc, hfw⟩
      refine ⟨hfw, hsc, ?_⟩
      rintro rfl rfl hin hout
      exact absurd ⟨hin, hout⟩ h
    · exact fun ⟨hfw, F⟩ => ⟨F.control, hfw⟩

/-- The turns over the streams of a group whose control block has passed. -/
theorem stream_turns (H : HeaderGood c glb gs csg) : Turns (turn c glb gs csg)
    (fun cs fw => Between c glb gs csg cs fw ∧
      ⟨groupAt glb gs 0, csgControlBytes⟩ ∈ fw.reads)
    (StreamGood c glb gs csg) (StreamFits c glb gs csg) (Inside c) where
  goes h := turn_goes h.1
  keeps h := turn_keeps h.1 h.2
  adds h := turn_adds H h.1 h.2

end Streams

section Groups

variable {c : SharedSection} {glb : ℕ} {gs : Ulong} {csg : ℕ} {fw : Ifaces}

theorem initStreams_bad (h : ¬(InSection c (csgAt c glb gs csg).inputVa ∧
    InSection c (csgAt c glb gs csg).outputVa)) :
    initStreams c glb gs csg (groupAt glb gs csg) (csgAt c glb gs csg) fw =
      (some .invalidParameter, fw) := by
  unfold initStreams ifaceFwToCpu
  by_cases hin : InSection c (csgAt c glb gs csg).inputVa
  · rw [mcuVaToCpu_of hin, mcuVaToCpu_not fun hout => h ⟨hin, hout⟩]
  · rw [mcuVaToCpu_not hin]

theorem initStreams_good (hin : InSection c (csgAt c glb gs csg).inputVa)
    (hout : InSection c (csgAt c glb gs csg).outputVa) :
    initStreams c glb gs csg (groupAt glb gs csg) (csgAt c glb gs csg) fw =
      forLoop (turn c glb gs csg) (csgAt c glb gs csg).streamNum.toNat 0 fw := by
  unfold initStreams ifaceFwToCpu
  rw [mcuVaToCpu_of hin, mcuVaToCpu_of hout]
  rfl

theorem initStreams_cases (hmin : csfMinCsPerCsg ≤ (csgAt c glb gs csg).streamNum)
    (hmax : (csgAt c glb gs csg).streamNum ≤ csfMaxCsPerCsg)
    (hsame : ¬(csgAt c glb gs csg).Differs (csgAt c glb gs 0)) (fw : Ifaces) :
    (HeaderGood c glb gs csg →
      initStreams c glb gs csg (groupAt glb gs csg) (csgAt c glb gs csg) fw =
        forLoop (turn c glb gs csg) (csgAt c glb gs csg).streamNum.toNat 0 fw) ∧
    (¬HeaderGood c glb gs csg →
      initStreams c glb gs csg (groupAt glb gs csg) (csgAt c glb gs csg) fw =
        (some .invalidParameter, fw)) := by
  refine ⟨fun H => initStreams_good H.input H.output, fun hbad => initStreams_bad ?_⟩
  exact fun h => hbad ⟨hmin, hmax, hsame, h.1, h.2⟩

theorem groupAt_zero : groupAt glb gs 0 = glb + csfGroupControlOffset.toNat := by
  simp [groupAt]

/-- What a group's turn has read and kept when it comes to the streams, or leaves. -/
structure Opened (c : SharedSection) (glb : ℕ) (gs : Ulong) (csg : ℕ) (fw fw' : Ifaces) :
    Prop where
  inside : Inside c fw' ↔ Inside c fw ∧ groupAt glb gs csg + csgControlBytes ≤ c.sec.backingBytes
  slot : fw'.slot = fw.slot
  csg0 : ⟨groupAt glb gs 0, csgControlBytes⟩ ∈ fw'.reads

theorem opened_header (B : Between c glb gs csg 0 fw) :
    Opened c glb gs csg fw (fw.read (groupAt glb gs csg) csgControlBytes) where
  inside := inside_read.trans and_comm
  slot := rfl
  csg0 := by
    obtain rfl | hcsg := Nat.eq_zero_or_pos csg
    · exact List.mem_cons_self
    · exact List.mem_cons_of_mem _ (B.csg0 (.inl hcsg))

/-- The control block of the first group, which was read in its own turn, is read again. -/
theorem opened_again (B : Between c glb gs csg 0 fw) (hcsg : 0 < csg) :
    Opened c glb gs csg fw
      ((fw.read (groupAt glb gs csg) csgControlBytes).read (groupAt glb gs 0)
        csgControlBytes) where
  inside := by
    rw [inside_read, inside_read]
    constructor
    · exact fun ⟨_, h, hfw⟩ => ⟨hfw, h⟩
    · exact fun ⟨hfw, h⟩ => ⟨hfw.seen (B.csg0 (.inl hcsg)), h, hfw⟩
  slot := rfl
  csg0 := List.mem_cons_self

theorem initGroup_eq : initGroup c glb gs csg fw =
    if (csgAt c glb gs csg).streamNum < csfMinCsPerCsg ∨
        (csgAt c glb gs csg).streamNum > csfMaxCsPerCsg then
      (some .invalidImageFormat, fw.read (groupAt glb gs csg) csgControlBytes)
    else if csg = 0 then
      initStreams c glb gs csg (groupAt glb gs csg) (csgAt c glb gs csg)
        { fw.read (groupAt glb gs csg) csgControlBytes with
          csfStreamNum := (csgAt c glb gs csg).streamNum
          csfStreamStride := (csgAt c glb gs csg).streamStride }
    else if (csgAt c glb gs csg).Differs (csgAt c glb gs 0) then
      (some .invalidImageFormat,
        (fw.read (groupAt glb gs csg) csgControlBytes).read (groupAt glb gs 0) csgControlBytes)
    else
      initStreams c glb gs csg (groupAt glb gs csg) (csgAt c glb gs csg)
        ((fw.read (groupAt glb gs csg) csgControlBytes).read (groupAt glb gs 0)
          csgControlBytes) := by
  unfold csgAt
  rw [@groupAt_zero glb gs]
  rfl

theorem initGroup_cases (B : Between c glb gs csg 0 fw) : ∃ fw', Opened c glb gs csg fw fw' ∧
    (HeaderGood c glb gs csg → initGroup c glb gs csg fw =
      forLoop (turn c glb gs csg) (csgAt c glb gs csg).streamNum.toNat 0 fw') ∧
    (¬HeaderGood c glb gs csg → ∃ status, initGroup c glb gs csg fw = (some status, fw')) := by
  have heq := @initGroup_eq c glb gs csg fw
  split at heq
  case isTrue hnum =>
    refine ⟨_, opened_header B, fun H => ?_, fun _ => ⟨_, heq⟩⟩
    exact absurd hnum (not_or.mpr ⟨BitVec.not_lt.mpr H.min, BitVec.not_lt.mpr H.max⟩)
  case isFalse hnum =>
    have hmin := BitVec.not_lt.mp (not_or.mp hnum).1
    have hmax := BitVec.not_lt.mp (not_or.mp hnum).2
    split at heq
    case isTrue hzero =>
      subst hzero
      have hsame : ¬(csgAt c glb gs 0).Differs (csgAt c glb gs 0) := by simp [CsgControl.Differs]
      have hheader := opened_header B
      generalize hfw' : ({ fw.read (groupAt glb gs 0) csgControlBytes with
        csfStreamNum := (csgAt c glb gs 0).streamNum
        csfStreamStride := (csgAt c glb gs 0).streamStride } : Ifaces) = fw' at heq
      have hopened : Opened c glb gs 0 fw fw' := by
        subst hfw'
        exact ⟨hheader.inside, hheader.slot, hheader.csg0⟩
      obtain ⟨hgood, hbad⟩ := initStreams_cases hmin hmax hsame fw'
      exact ⟨fw', hopened, fun H => heq.trans (hgood H), fun H => ⟨_, heq.trans (hbad H)⟩⟩
    case isFalse hzero =>
      have hagain := opened_again B (Nat.pos_of_ne_zero hzero)
      split at heq
      case isTrue hdiff =>
        exact ⟨_, hagain, fun H => absurd hdiff H.same, fun _ => ⟨_, heq⟩⟩
      case isFalse hsame =>
        obtain ⟨hgood, hbad⟩ := initStreams_cases hmin hmax hsame
          ((fw.read (groupAt glb gs csg) csgControlBytes).read (groupAt glb gs 0) csgControlBytes)
        exact ⟨_, hagain, fun H => heq.trans (hgood H), fun H => ⟨_, heq.trans (hbad H)⟩⟩

theorem Opened.between {fw' : Ifaces} (O : Opened c glb gs csg fw fw')
    (B : Between c glb gs csg 0 fw) : Between c glb gs csg 0 fw' where
  unset h1 h2 := O.slot.trans (B.unset h1 h2)
  set h := O.slot ▸ B.set h
  csg0 _ := O.csg0

theorem streamNum_pos (H : HeaderGood c glb gs csg) : 0 < (csgAt c glb gs csg).streamNum.toNat :=
  Nat.lt_of_lt_of_le (by decide : 0 < csfMinCsPerCsg.toNat) (BitVec.le_def.mp H.min)

theorem group_turns : Turns (initGroup c glb gs) (fun csg fw => Between c glb gs csg 0 fw)
    (GroupGood c glb gs) (GroupFits c glb gs) (Inside c) where
  goes {csg fw} B := by
    obtain ⟨fw', O, hgood, hbad⟩ := initGroup_cases B
    by_cases H : HeaderGood c glb gs csg
    · rw [hgood H, (stream_turns H).goes_all ⟨O.between B, O.csg0⟩]
      exact ⟨fun h => ⟨H, h⟩, fun h => h.2⟩
    · obtain ⟨status, heq⟩ := hbad H
      rw [heq]
      constructor
      · intro hnone
        cases hnone
      · exact fun h => absurd h.1 H
  keeps {csg fw} B h := by
    obtain ⟨fw', O, hgood, -⟩ := initGroup_cases B
    rw [hgood h.1]
    obtain ⟨hB, hcsg0⟩ := (stream_turns h.1).keeps_all ⟨O.between B, O.csg0⟩
      fun cs _ hcs => h.2 cs (by rwa [Nat.zero_add] at hcs)
    rw [Nat.zero_add] at hB
    exact ⟨fun hzero => by omega, fun _ => hB.set (.inr (streamNum_pos h.1)), fun _ => hcsg0⟩
  adds {csg fw} B := by
    obtain ⟨fw', O, hgood, hbad⟩ := initGroup_cases B
    by_cases H : HeaderGood c glb gs csg
    · rw [hgood H, (stream_turns H).adds_all ⟨O.between B, O.csg0⟩, O.inside, and_assoc]
      refine and_congr_right fun _ => ?_
      exact ⟨fun h => ⟨h.1, fun _ => h.2⟩, fun F => ⟨F.control, F.streams H⟩⟩
    · obtain ⟨status, heq⟩ := hbad H
      rw [heq, O.inside]
      refine and_congr_right fun _ => ?_
      exact ⟨fun h => ⟨h, fun hH => absurd hH H⟩, fun F => F.control⟩

end Groups

section Discovery

/-- The walk over the groups begins. -/
structure Started (c : SharedSection) : Prop where
  version : (c.glbControl 0).version ≠ 0
  input : InSection c (c.glbControl 0).inputVa
  output : InSection c (c.glbControl 0).outputVa
  min : csfMinCsgs ≤ (c.glbControl 0).groupNum
  max : (c.glbControl 0).groupNum ≤ csfMaxCsgs
  strideNe : (c.glbControl 0).groupStride ≠ 0
  strideMax : (c.glbControl 0).groupStride ≤ 0x100000

/-- The section has room for the blocks and interfaces at the offsets and addresses that it
publishes, as far as the walk gets. -/
structure Fits (c : SharedSection) : Prop where
  control : glbControlBytes ≤ c.sec.backingBytes
  input : (c.glbControl 0).version ≠ 0 → InSection c (c.glbControl 0).inputVa →
    Room c (c.glbControl 0).inputVa glbInputBytes
  output : (c.glbControl 0).version ≠ 0 → InSection c (c.glbControl 0).outputVa →
    Room c (c.glbControl 0).outputVa glbOutputBytes
  groups : Started c → ∀ csg < (c.glbControl 0).groupNum.toNat,
    (∀ k < csg, GroupGood c 0 (c.glbControl 0).groupStride k) →
      GroupFits c 0 (c.glbControl 0).groupStride csg

variable {c : SharedSection} {fw : Ifaces}

/-- The context that `SetupGlbIface_` leaves when the firmware has written its version. -/
def globalIface (c : SharedSection) : Ifaces :=
  { Ifaces.fresh.read 0 glbControlBytes with
    glbControl := some 0
    glbInput := mcuVaToCpu c (c.glbControl 0).inputVa
    glbOutput := mcuVaToCpu c (c.glbControl 0).outputVa }

theorem mcuVaToCpu_room {va : Ulong} {n : ℕ} :
    (∀ a ∈ (mcuVaToCpu c va).toList.map (fun o => (⟨o, n⟩ : Access)),
      a.offset + a.length ≤ c.sec.backingBytes) ↔ (InSection c va → Room c va n) := by
  by_cases h : InSection c va
  · rw [mcuVaToCpu_of h]
    simp only [Option.toList_some, List.map_cons, List.map_nil, List.forall_mem_singleton]
    exact (room_iff h).trans ⟨fun hroom _ => hroom, fun hroom => hroom h⟩
  · rw [mcuVaToCpu_not h]
    exact ⟨fun _ hin => absurd hin h, fun _ a ha => nomatch ha⟩

theorem globalIface_inside : Inside c (globalIface c) ↔ glbControlBytes ≤ c.sec.backingBytes ∧
    (InSection c (c.glbControl 0).inputVa → Room c (c.glbControl 0).inputVa glbInputBytes) ∧
    (InSection c (c.glbControl 0).outputVa →
      Room c (c.glbControl 0).outputVa glbOutputBytes) := by
  have hlist : (globalIface c).reads ++ (globalIface c).cached =
      ⟨0, glbControlBytes⟩ :: ⟨0, glbControlBytes⟩ ::
        ((mcuVaToCpu c (c.glbControl 0).inputVa).toList.map (fun o => ⟨o, glbInputBytes⟩) ++
          (mcuVaToCpu c (c.glbControl 0).outputVa).toList.map
            (fun o => ⟨o, glbOutputBytes⟩)) := by
    simp [globalIface, Ifaces.cached, Ifaces.read, Ifaces.fresh]
  unfold Inside
  rw [hlist, List.forall_mem_cons, List.forall_mem_cons, List.forall_mem_append, mcuVaToCpu_room,
    mcuVaToCpu_room, Nat.zero_add]
  exact ⟨fun h => h.2, fun h => ⟨h.1, h⟩⟩

theorem setup_cases (c : SharedSection) :
    ((c.glbControl 0).version = 0 ∧
      setupGlbIface (some c) .fresh = (.deviceNotReady, Ifaces.fresh.read 0 glbControlBytes)) ∨
    ((c.glbControl 0).version ≠ 0 ∧
      ¬(InSection c (c.glbControl 0).inputVa ∧ InSection c (c.glbControl 0).outputVa) ∧
      setupGlbIface (some c) .fresh = (.invalidParameter, globalIface c)) ∨
    ((c.glbControl 0).version ≠ 0 ∧ InSection c (c.glbControl 0).inputVa ∧
      InSection c (c.glbControl 0).outputVa ∧
      setupGlbIface (some c) .fresh = (.success, globalIface c)) := by
  have heq : setupGlbIface (some c) .fresh =
      if (c.glbControl 0).version = 0 then
        (.deviceNotReady, Ifaces.fresh.read 0 glbControlBytes)
      else if mcuVaToCpu c (c.glbControl 0).inputVa = none ∨
          mcuVaToCpu c (c.glbControl 0).outputVa = none then
        (.invalidParameter, globalIface c)
      else (.success, globalIface c) := rfl
  split at heq
  case isTrue h => exact .inl ⟨h, heq⟩
  case isFalse h =>
    split at heq
    case isTrue hno =>
      rw [mcuVaToCpu_none_iff, mcuVaToCpu_none_iff, ← not_and_or] at hno
      exact .inr (.inl ⟨h, hno, heq⟩)
    case isFalse hin =>
      rw [mcuVaToCpu_none_iff, mcuVaToCpu_none_iff, ← not_and_or] at hin
      obtain ⟨hin, hout⟩ := not_not.mp hin
      exact .inr (.inr ⟨h, hin, hout, heq⟩)

/-- The end of `InitCsfIfaces_`, after its loop. -/
def finish : Option IfaceStatus × Ifaces → IfaceStatus × Ifaces
  | (some status, fw) => (status, fw)
  | (none, fw) => (.success, { fw with csfIfaceValid := true })

theorem finish_inside (out : Option IfaceStatus × Ifaces) :
    Inside c (finish out).2 ↔ Inside c out.2 := by
  obtain ⟨_ | status, fw⟩ := out <;> rfl

theorem initCsfIfaces_eq (c : SharedSection) : initCsfIfaces c (globalIface c) =
    if (c.glbControl 0).groupNum < csfMinCsgs ∨ (c.glbControl 0).groupNum > csfMaxCsgs ∨
        (c.glbControl 0).groupStride = 0 ∨ (c.glbControl 0).groupStride > 0x100000 then
      (.invalidImageFormat, (globalIface c).read 0 glbControlBytes)
    else
      finish (forLoop (initGroup c 0 (c.glbControl 0).groupStride)
        (c.glbControl 0).groupNum.toNat 0 { (globalIface c).read 0 glbControlBytes with
          csfGroupNum := (c.glbControl 0).groupNum
          csfGroupStride := (c.glbControl 0).groupStride }) :=
  rfl

/-- The walk over the groups, for a section that gets past the global interface. -/
theorem initCsfIfaces_inside (hversion : (c.glbControl 0).version ≠ 0)
    (hin : InSection c (c.glbControl 0).inputVa) (hout : InSection c (c.glbControl 0).outputVa) :
    Inside c (initCsfIfaces c (globalIface c)).2 ↔ Inside c (globalIface c) ∧
      (Started c → ∀ csg < (c.glbControl 0).groupNum.toNat,
        (∀ k < csg, GroupGood c 0 (c.glbControl 0).groupStride k) →
          GroupFits c 0 (c.glbControl 0).groupStride csg) := by
  have hagain : Inside c ((globalIface c).read 0 glbControlBytes) ↔ Inside c (globalIface c) := by
    rw [inside_read]
    exact ⟨fun h => h.2, fun h => ⟨h.seen (a := ⟨0, glbControlBytes⟩) List.mem_cons_self, h⟩⟩
  rw [initCsfIfaces_eq]
  split
  case isTrue hbad =>
    rw [hagain]
    refine ⟨fun h => ⟨h, fun S => ?_⟩, fun h => h.1⟩
    obtain h | h | h | h := hbad
    · exact absurd h (BitVec.not_lt.mpr S.min)
    · exact absurd h (BitVec.not_lt.mpr S.max)
    · exact absurd h S.strideNe
    · exact absurd h (BitVec.not_lt.mpr S.strideMax)
  case isFalse hgood =>
    simp only [not_or] at hgood
    obtain ⟨hmin, hmax, hne, hstride⟩ := hgood
    have S : Started c := ⟨hversion, hin, hout, BitVec.not_lt.mp hmin, BitVec.not_lt.mp hmax, hne,
      BitVec.not_lt.mp hstride⟩
    rw [finish_inside, group_turns.adds_all
      ⟨fun _ _ => rfl, fun h => by omega, fun h => by omega⟩]
    exact and_congr hagain ⟨fun h _ => h, fun h => h S⟩

/-- Discovery stays in the backing exactly for the sections that have the room. -/
theorem discovery_inside_iff (c : SharedSection) :
    Inside c (discover (some c)).2 ↔ Fits c := by
  obtain ⟨h0, hsetup⟩ | ⟨h0, hno, hsetup⟩ | ⟨h0, hin, hout, hsetup⟩ := setup_cases c
  · have hdiscover : (discover (some c)).2 = Ifaces.fresh.read 0 glbControlBytes := by
      simp only [discover, hsetup]
    rw [hdiscover, inside_read, Nat.zero_add]
    constructor
    · exact fun h => ⟨h.1, fun h1 => absurd h0 h1, fun h1 => absurd h0 h1,
        fun S => absurd h0 S.version⟩
    · exact fun F => ⟨F.control, fun a ha => nomatch ha⟩
  · have hdiscover : (discover (some c)).2 = globalIface c := by
      simp only [discover, hsetup]
    rw [hdiscover, globalIface_inside]
    constructor
    · exact fun h => ⟨h.1, fun _ => h.2.1, fun _ => h.2.2,
        fun S => absurd ⟨S.input, S.output⟩ hno⟩
    · exact fun F => ⟨F.control, F.input h0, F.output h0⟩
  · have hdiscover : (discover (some c)).2 = (initCsfIfaces c (globalIface c)).2 := by
      simp only [discover, hsetup]
    rw [hdiscover, initCsfIfaces_inside h0 hin hout, globalIface_inside]
    constructor
    · exact fun h => ⟨h.1.1, fun _ => h.1.2.1, fun _ => h.1.2.2, h.2⟩
    · exact fun F => ⟨⟨F.control, F.input h0, F.output h0⟩, F.groups⟩

/-- One page, that the global interfaces are published at the end of, and three groups
past it. -/
def onePage : SharedSection where
  sec := ⟨0x40000003, 0x04000000, 0x04001000, some 0x80000000, 4096⟩
  byte o :=
    if o = 0 then 1 else if o = 8 ∨ o = 12 then 0xFC else if o = 9 ∨ o = 13 then 0x0F
    else if o = 11 ∨ o = 15 then 4 else if o = 16 then 3 else if o = 21 then 0x10 else 0
  size_eq := by decide
  null_iff := by decide

instance (c : SharedSection) (fw : Ifaces) : Decidable (Inside c fw) :=
  inferInstanceAs (Decidable (∀ a ∈ _, _))

theorem interfaces_past_the_backing : ¬Inside onePage (discover (some onePage)).2 := by
  decide +kernel

end Discovery

end WinMali.CsfIfaces
