import Mathlib.Logic.Function.Basic
import Mathlib.Logic.Function.Iterate
import WinMaliKmd.L2Power
import WinMaliKmd.Runs

/-!
# The registers of an address space

`WinMaliMmuAsEnable` and `WinMaliMmuAsDisable` write the configuration of a slot in
six halves and then an `UPDATE`. The MMU works on its own: before each access it may
take any number of steps in any slot, and it may never finish a command.
-/

set_option autoImplicit false

namespace WinMali.AsRegisters
open WinMali.L2Power WinMali.Runs

inductive Command
  | update
  | flushMem
deriving DecidableEq, Repr

/-- `AS_ACTIVE` is set in all phases but the first. -/
inductive Phase
  | idle
  | running (c : Command)
  | ending
deriving DecidableEq, Repr

structure AsConfig where
  transtab : Word
  memattr : Word
  transcfg : Word
deriving DecidableEq, Repr

structure Staged where
  transtabLo : BitVec 32
  transtabHi : BitVec 32
  memattrLo : BitVec 32
  memattrHi : BitVec 32
  transcfgLo : BitVec 32
  transcfgHi : BitVec 32
deriving DecidableEq, Repr

def Staged.config (r : Staged) : AsConfig :=
  ⟨word r.transtabLo r.transtabHi, word r.memattrLo r.memattrHi, word r.transcfgLo r.transcfgHi⟩

def AsConfig.halves (c : AsConfig) : Staged :=
  ⟨half c.transtab 0, half c.transtab 1, half c.memattr 0, half c.memattr 1,
    half c.transcfg 0, half c.transcfg 1⟩

@[simp] theorem config_halves (c : AsConfig) : c.halves.config = c := by
  simp [Staged.config, AsConfig.halves, word_half]

/-- `latched` is every configuration that an `UPDATE` took over, newest first; the walks of
the slot use its head. -/
structure AsBlock where
  staged : Staged
  phase : Phase
  latched : List AsConfig
deriving DecidableEq, Repr

namespace AsBlock

def advance (b : AsBlock) : AsBlock :=
  match b.phase with
  | .idle => b
  | .running .update => { b with phase := .ending, latched := b.staged.config::b.latched }
  | .running .flushMem => { b with phase := .ending }
  | .ending => { b with phase := .idle }

/-- What `latched` comes to when the command in flight is through. -/
def eventual (b : AsBlock) : List AsConfig :=
  if b.phase = .running .update then b.staged.config::b.latched else b.latched

end AsBlock

structure Mmu where
  block : ℕ → AsBlock
  accesses : ℕ

def Mmu.set (m : Mmu) (as : ℕ) (b : AsBlock) : Mmu :=
  { m with block := Function.update m.block as b }

def asUnmapped : Staged := ⟨0, 0, 0, 0, 1, 0⟩

section Calls

-- How many steps the MMU takes in a slot before an access.
variable (hw : ℕ → ℕ → ℕ)

def access (m : Mmu) : Mmu :=
  ⟨fun as => AsBlock.advance^[hw m.accesses as] (m.block as), m.accesses + 1⟩

def waitAsIdleLoop (as : ℕ) : ℕ → Mmu → NtStatus × Mmu
  | 0, m => (.ioTimeout, m)
  | left + 1, m =>
    let m := access hw m
    if (m.block as).phase = .idle then (.success, m) else waitAsIdleLoop as left m

def waitAsIdle (as : ℕ) (m : Mmu) : NtStatus × Mmu := waitAsIdleLoop hw as 500000 m

def writeReg (as : ℕ) (write : Staged → Staged) (m : Mmu) : Mmu :=
  let m := access hw m
  m.set as { m.block as with staged := write (m.block as).staged }

def writeCommand (as : ℕ) (command : Command) (m : Mmu) : Mmu :=
  let m := access hw m
  m.set as { m.block as with phase := .running command }

def asWriteCommand (as : ℕ) (command : Command) (m : Mmu) : NtStatus × Mmu :=
  let (status, m) := waitAsIdle hw as m
  if !status.ok then (status, m) else waitAsIdle hw as (writeCommand hw as command m)

def asFlushMem (as : ℕ) (m : Mmu) : NtStatus × Mmu := asWriteCommand hw as .flushMem m

/-- The six writes, in the order of both callers. -/
def writeConfig (as : ℕ) (v : Staged) (m : Mmu) : Mmu :=
  let m := writeReg hw as (fun r => { r with transtabLo := v.transtabLo }) m
  let m := writeReg hw as (fun r => { r with transtabHi := v.transtabHi }) m
  let m := writeReg hw as (fun r => { r with memattrLo := v.memattrLo }) m
  let m := writeReg hw as (fun r => { r with memattrHi := v.memattrHi }) m
  let m := writeReg hw as (fun r => { r with transcfgLo := v.transcfgLo }) m
  writeReg hw as (fun r => { r with transcfgHi := v.transcfgHi }) m

def asEnable (as : ℕ) (c : AsConfig) (m : Mmu) : NtStatus × Mmu :=
  let (status, m) := asFlushMem hw as m
  if !status.ok then (status, m)
  else asWriteCommand hw as .update (writeConfig hw as c.halves m)

/-- With the registers mapped. A flush that fails is only logged. -/
def asDisable (as : ℕ) (m : Mmu) : NtStatus × Mmu :=
  asWriteCommand hw as .update (writeConfig hw as asUnmapped (asFlushMem hw as m).2)

inductive Call
  | enable (as : ℕ) (c : AsConfig)
  | disable (as : ℕ)
  | flushMem (as : ℕ)
deriving DecidableEq, Repr

def Call.slot : Call → ℕ
  | .enable as _ => as
  | .disable as => as
  | .flushMem as => as

def Call.perform : Call → Mmu → NtStatus × Mmu
  | .enable as c, m => asEnable hw as c m
  | .disable as, m => asDisable hw as m
  | .flushMem as, m => asFlushMem hw as m

def step (m : Mmu) (call : Call) : Option Mmu := some (call.perform hw m).2

/-- No disable goes on to its writes with an `UPDATE` still in flight. -/
def guard (m : Mmu) : Call → Prop
  | .disable as => ((asFlushMem hw as m).2.block as).phase ≠ .running .update
  | _ => True

end Calls

/-- Time has passed for a slot: a command in flight may have got further. -/
structure Passed (b b' : AsBlock) : Prop where
  staged : b'.staged = b.staged
  eventual : b'.eventual = b.eventual
  idle : b.phase = .idle → b' = b
  updating : b'.phase = .running .update → b.phase = .running .update

namespace Passed

variable {a b c : AsBlock}

theorem rfl : Passed b b := ⟨Eq.refl _, Eq.refl _, fun _ => Eq.refl _, id⟩

theorem trans (h : Passed a b) (h' : Passed b c) : Passed a c := by
  refine ⟨h'.staged.trans h.staged, h'.eventual.trans h.eventual, ?_, fun hc =>
    h.updating (h'.updating hc)⟩
  intro ha
  obtain rfl := h.idle ha
  exact h'.idle ha

theorem advance (b : AsBlock) : Passed b b.advance := by
  cases hp : b.phase with
  | idle => exact ⟨by simp [AsBlock.advance, hp], by simp [AsBlock.advance, hp],
      by simp [AsBlock.advance, hp], by simp [AsBlock.advance, hp]⟩
  | running command =>
    cases command with
    | update => exact ⟨by simp [AsBlock.advance, hp], by simp [AsBlock.advance, AsBlock.eventual, hp],
        by simp [hp], by simp [hp]⟩
    | flushMem => exact ⟨by simp [AsBlock.advance, hp],
        by simp [AsBlock.advance, AsBlock.eventual, hp], by simp [hp],
        by simp [AsBlock.advance, hp]⟩
  | ending => exact ⟨by simp [AsBlock.advance, hp], by simp [AsBlock.advance, AsBlock.eventual, hp],
      by simp [hp], by simp [AsBlock.advance, hp]⟩

theorem iterate (b : AsBlock) (n : ℕ) : Passed b (AsBlock.advance^[n] b) := by
  induction n with
  | zero => exact rfl
  | succ n ih =>
    rw [Function.iterate_succ_apply']
    exact ih.trans (advance _)

end Passed

theorem latched_sublist (b : AsBlock) : b.latched.Sublist b.eventual := by
  unfold AsBlock.eventual
  split
  · exact List.sublist_cons_self _ _
  · exact List.Sublist.refl _

theorem eventual_of_settled {b : AsBlock} (h : b.phase ≠ .running .update) :
    b.eventual = b.latched := if_neg h

section Specs

variable (hw : ℕ → ℕ → ℕ) (as : ℕ)

theorem passed_access (m : Mmu) (i : ℕ) : Passed (m.block i) ((access hw m).block i) :=
  Passed.iterate _ _

@[simp] theorem set_self (m : Mmu) (b : AsBlock) : (m.set as b).block as = b := by
  simp [Mmu.set]

@[simp] theorem set_other (m : Mmu) (b : AsBlock) {i : ℕ} (h : i ≠ as) :
    (m.set as b).block i = m.block i := by
  simp [Mmu.set, h]

theorem waitLoop_spec (left : ℕ) (m : Mmu) :
    (∀ i, Passed (m.block i) ((waitAsIdleLoop hw as left m).2.block i)) ∧
      ((waitAsIdleLoop hw as left m).1 = .success ∧
          ((waitAsIdleLoop hw as left m).2.block as).phase = .idle ∨
        (waitAsIdleLoop hw as left m).1 = .ioTimeout) := by
  induction left generalizing m with
  | zero => exact ⟨fun _ => .rfl, .inr rfl⟩
  | succ left ih =>
    simp only [waitAsIdleLoop]
    split
    · rename_i hidle
      exact ⟨passed_access hw m, .inl ⟨rfl, hidle⟩⟩
    · obtain ⟨hp, hst⟩ := ih (access hw m)
      exact ⟨fun i => (passed_access hw m i).trans (hp i), hst⟩

theorem wait_passed (m : Mmu) (i : ℕ) : Passed (m.block i) ((waitAsIdle hw as m).2.block i) :=
  (waitLoop_spec hw as 500000 m).1 i

theorem wait_status (m : Mmu) :
    (waitAsIdle hw as m).1 = .success ∧ ((waitAsIdle hw as m).2.block as).phase = .idle ∨
      (waitAsIdle hw as m).1 = .ioTimeout :=
  (waitLoop_spec hw as 500000 m).2

/-- A slot that is idle stays idle, so the first read ends the wait. -/
theorem wait_idle {m : Mmu} (h : (m.block as).phase = .idle) :
    (waitAsIdle hw as m).1 = .success ∧ (waitAsIdle hw as m).2.block as = m.block as := by
  have hb : (access hw m).block as = m.block as := (passed_access hw m as).idle h
  have hrun : waitAsIdle hw as m = (.success, access hw m) := by
    rw [waitAsIdle, waitAsIdleLoop]
    exact if_pos (by rw [hb]; exact h)
  rw [hrun]
  exact ⟨rfl, hb⟩

theorem writeCommand_other (command : Command) (m : Mmu) {i : ℕ} (h : i ≠ as) :
    Passed (m.block i) ((writeCommand hw as command m).block i) := by
  rw [writeCommand, set_other _ _ _ h]
  exact passed_access hw m i

theorem writeReg_other (write : Staged → Staged) (m : Mmu) {i : ℕ} (h : i ≠ as) :
    Passed (m.block i) ((writeReg hw as write m).block i) := by
  rw [writeReg, set_other _ _ _ h]
  exact passed_access hw m i

/-- A command that was written found the slot idle. -/
theorem asWriteCommand_cases (command : Command) (m : Mmu) :
    ((asWriteCommand hw as command m).1 = .ioTimeout ∧
        Passed (m.block as) ((asWriteCommand hw as command m).2.block as) ∧
        (m.block as).phase ≠ .idle) ∨
      ∃ b, Passed (m.block as) b ∧ b.phase = .idle ∧
        Passed { b with phase := .running command }
          ((asWriteCommand hw as command m).2.block as) ∧
        ((asWriteCommand hw as command m).1 = .success ∧
            ((asWriteCommand hw as command m).2.block as).phase = .idle ∨
          (asWriteCommand hw as command m).1 = .ioTimeout) := by
  have hp := wait_passed hw as m as
  rcases wait_status hw as m with ⟨hst, hidle⟩ | hst
  · right
    refine ⟨_, hp.trans (passed_access hw _ as), ?_, ?_, ?_⟩
    · rw [(passed_access hw _ as).idle hidle]
      exact hidle
    · simp only [asWriteCommand, hst, NtStatus.ok_success, Bool.not_true, Bool.false_eq_true,
        if_false]
      have hw' := wait_passed hw as
        (writeCommand hw as command (waitAsIdle hw as m).2) as
      rwa [writeCommand, set_self] at hw'
    · simp only [asWriteCommand, hst, NtStatus.ok_success, Bool.not_true, Bool.false_eq_true,
        if_false]
      exact wait_status hw as _
  · left
    have hok : (waitAsIdle hw as m).1.ok = false := by rw [hst]; rfl
    simp only [asWriteCommand, hok, Bool.not_false, if_true]
    refine ⟨hst, hp, ?_⟩
    intro hidle
    rw [(wait_idle hw as hidle).1] at hst
    cases hst

theorem asWriteCommand_other (command : Command) (m : Mmu) {i : ℕ} (h : i ≠ as) :
    Passed (m.block i) ((asWriteCommand hw as command m).2.block i) := by
  unfold asWriteCommand
  dsimp only
  split
  · exact wait_passed hw as m i
  · exact (wait_passed hw as m i).trans ((writeCommand_other hw as command _ h).trans (wait_passed hw as _ i))

theorem writeConfig_other (v : Staged) (m : Mmu) {i : ℕ} (h : i ≠ as) :
    Passed (m.block i) ((writeConfig hw as v m).block i) := by
  unfold writeConfig
  refine .trans ?_ (writeReg_other hw as _ _ h)
  refine .trans ?_ (writeReg_other hw as _ _ h)
  refine .trans ?_ (writeReg_other hw as _ _ h)
  refine .trans ?_ (writeReg_other hw as _ _ h)
  exact (writeReg_other hw as _ m h).trans (writeReg_other hw as _ _ h)

/-- A call reaches the block of its own slot only. -/
theorem perform_other (call : Call) (m : Mmu) {i : ℕ} (h : i ≠ call.slot) :
    Passed (m.block i) ((call.perform hw m).2.block i) := by
  cases call with
  | enable as c =>
    simp only [Call.perform, asEnable]
    split
    · exact asWriteCommand_other hw as _ m h
    · exact ((asWriteCommand_other hw as _ m h).trans (writeConfig_other hw as _ _ h)).trans
        (asWriteCommand_other hw as _ _ h)
  | disable as =>
    exact ((asWriteCommand_other hw as _ m h).trans (writeConfig_other hw as _ _ h)).trans
      (asWriteCommand_other hw as _ _ h)
  | flushMem as => exact asWriteCommand_other hw as _ m h

/-- A block whose configuration is what it was, up to a command in flight. -/
structure Frame (b b' : AsBlock) : Prop where
  staged : b'.staged = b.staged
  eventual : b'.eventual = b.eventual
  updating : b'.phase = .running .update → b.phase = .running .update

theorem Passed.frame {b b' : AsBlock} (h : Passed b b') : Frame b b' :=
  ⟨h.staged, h.eventual, h.updating⟩

theorem asFlushMem_frame (m : Mmu) :
    Frame (m.block as) ((asFlushMem hw as m).2.block as) := by
  rcases asWriteCommand_cases hw as .flushMem m with
    ⟨-, hp, -⟩ | ⟨b, hb, hidle, hp, -⟩
  · exact hp.frame
  · refine ⟨hp.staged.trans hb.staged, ?_, fun hu => ?_⟩
    · rw [asFlushMem, hp.eventual, ← hb.eventual]
      simp [AsBlock.eventual, hidle]
    · exact absurd (hp.updating hu) (by simp)

theorem asFlushMem_status (m : Mmu) :
    (asFlushMem hw as m).1 = .success ∧ ((asFlushMem hw as m).2.block as).phase = .idle ∨
      (asFlushMem hw as m).1 = .ioTimeout := by
  rcases asWriteCommand_cases hw as .flushMem m with ⟨hst, -⟩ | ⟨-, -, -, -, hst⟩
  · exact .inr hst
  · exact hst

theorem writeConfig_staged (v : Staged) (m : Mmu) :
    ((writeConfig hw as v m).block as).staged = v := by
  simp [writeConfig, writeReg, (passed_access hw _ as).staged]

/-- A write to a slot without an `UPDATE` in flight only changes what is staged. -/
theorem writeReg_settled (write : Staged → Staged) {m : Mmu}
    (h : (m.block as).phase ≠ .running .update) :
    ((writeReg hw as write m).block as).phase ≠ .running .update ∧
      ((writeReg hw as write m).block as).latched = (m.block as).latched ∧
      ((writeReg hw as write m).block as).staged = write (m.block as).staged ∧
      ((m.block as).phase = .idle → ((writeReg hw as write m).block as).phase = .idle) := by
  have hp := passed_access hw m as
  have hu : ((access hw m).block as).phase ≠ .running .update := fun hc => h (hp.updating hc)
  have hl : ((access hw m).block as).latched = (m.block as).latched := by
    rw [← eventual_of_settled hu, hp.eventual, eventual_of_settled h]
  simp only [writeReg, set_self]
  exact ⟨hu, hl, by rw [hp.staged], fun hidle => by rw [hp.idle hidle, hidle]⟩

theorem writeConfig_settled (v : Staged) {m : Mmu} (h : (m.block as).phase ≠ .running .update) :
    ((writeConfig hw as v m).block as).phase ≠ .running .update ∧
      ((writeConfig hw as v m).block as).latched = (m.block as).latched ∧
      ((writeConfig hw as v m).block as).staged = v ∧
      ((m.block as).phase = .idle → ((writeConfig hw as v m).block as).phase = .idle) := by
  obtain ⟨u1, l1, s1, i1⟩ :=
    writeReg_settled hw as (fun r => { r with transtabLo := v.transtabLo }) h
  obtain ⟨u2, l2, s2, i2⟩ :=
    writeReg_settled hw as (fun r => { r with transtabHi := v.transtabHi }) u1
  obtain ⟨u3, l3, s3, i3⟩ :=
    writeReg_settled hw as (fun r => { r with memattrLo := v.memattrLo }) u2
  obtain ⟨u4, l4, s4, i4⟩ :=
    writeReg_settled hw as (fun r => { r with memattrHi := v.memattrHi }) u3
  obtain ⟨u5, l5, s5, i5⟩ :=
    writeReg_settled hw as (fun r => { r with transcfgLo := v.transcfgLo }) u4
  obtain ⟨u6, l6, s6, i6⟩ :=
    writeReg_settled hw as (fun r => { r with transcfgHi := v.transcfgHi }) u5
  refine ⟨u6, l6.trans (l5.trans (l4.trans (l3.trans (l2.trans l1)))), ?_,
    fun hidle => i6 (i5 (i4 (i3 (i2 (i1 hidle)))))⟩
  rw [writeConfig, s6, s5, s4, s3, s2, s1]

/-- The `UPDATE` behind the writes of a call, from the block `b` that the call found. -/
structure Programmed (c : AsConfig) (b b' : AsBlock) (st : NtStatus) : Prop where
  eventual : b'.eventual = c::b.eventual
  status : st = .success ∧ b'.phase = .idle ∨ st = .ioTimeout

theorem update_cases (v : Staged) {m : Mmu} (h : (m.block as).phase ≠ .running .update) :
    let r := asWriteCommand hw as .update (writeConfig hw as v m)
    r.1 = .ioTimeout ∧ (r.2.block as).eventual = (m.block as).eventual ∧
        (m.block as).phase ≠ .idle ∨
      Programmed v.config (m.block as) (r.2.block as) r.1 := by
  obtain ⟨hu, hl, hs, hi⟩ := writeConfig_settled hw as v h
  have he : ((writeConfig hw as v m).block as).eventual = (m.block as).eventual := by
    rw [eventual_of_settled hu, hl, eventual_of_settled h]
  rcases asWriteCommand_cases hw as .update (writeConfig hw as v m) with
    ⟨hst, hp, hne⟩ | ⟨b, hb, hidle, hp, hst⟩
  · exact .inl ⟨hst, hp.eventual.trans he, fun hidle => hne (hi hidle)⟩
  · refine .inr ⟨?_, hst⟩
    have hbl : b.latched = (m.block as).eventual := by
      rw [← he, ← hb.eventual, eventual_of_settled (by simp [hidle])]
    rw [hp.eventual, ← hbl, ← hs, ← hb.staged]
    simp [AsBlock.eventual]

theorem asEnable_flushed (c : AsConfig) {m : Mmu} (h : (asFlushMem hw as m).1 = .success) :
    asEnable hw as c m =
      asWriteCommand hw as .update (writeConfig hw as c.halves (asFlushMem hw as m).2) := by
  simp only [asEnable, h, NtStatus.ok_success, Bool.not_true, Bool.false_eq_true, if_false]

theorem asEnable_refused (c : AsConfig) {m : Mmu} (h : (asFlushMem hw as m).1 = .ioTimeout) :
    asEnable hw as c m = asFlushMem hw as m := by
  have hok : (asFlushMem hw as m).1.ok = false := by rw [h]; rfl
  simp only [asEnable, hok, Bool.not_false, if_true]

theorem asEnable_cases (c : AsConfig) (m : Mmu) :
    (asEnable hw as c m).1 = .ioTimeout ∧
        Frame (m.block as) ((asEnable hw as c m).2.block as) ∨
      Programmed c (m.block as) ((asEnable hw as c m).2.block as) (asEnable hw as c m).1 := by
  have hf := asFlushMem_frame hw as m
  rcases asFlushMem_status hw as m with ⟨hst, hidle⟩ | hst
  · right
    rw [asEnable_flushed hw as c hst]
    rcases update_cases hw as c.halves (m := (asFlushMem hw as m).2) (by simp [hidle]) with
      ⟨-, -, hne⟩ | hp
    · exact absurd hidle hne
    · exact ⟨by rw [hp.eventual, hf.eventual, config_halves], hp.status⟩
  · left
    rw [asEnable_refused hw as c hst]
    exact ⟨hst, hf⟩

/-- Unless its writes meet an `UPDATE` in flight. -/
theorem asDisable_cases {m : Mmu} (h : guard hw m (.disable as)) :
    (asDisable hw as m).1 = .ioTimeout ∧
        ((asDisable hw as m).2.block as).eventual = (m.block as).eventual ∨
      Programmed asUnmapped.config (m.block as) ((asDisable hw as m).2.block as)
        (asDisable hw as m).1 := by
  have hf := asFlushMem_frame hw as m
  rcases update_cases hw as asUnmapped h with ⟨hst, he, -⟩ | hp
  · exact .inl ⟨hst, he.trans hf.eventual⟩
  · exact .inr ⟨by rw [asDisable, hp.eventual, hf.eventual], hp.status⟩

/-- An `UPDATE` that is reported done has taken over what was staged before it. -/
theorem update_success (v : Staged) (m : Mmu)
    (h : (asWriteCommand hw as .update (writeConfig hw as v m)).1 = .success) :
    let b := (asWriteCommand hw as .update (writeConfig hw as v m)).2.block as
    b.phase = .idle ∧ b.latched.head? = some v.config := by
  rcases asWriteCommand_cases hw as .update (writeConfig hw as v m) with
    ⟨hst, -⟩ | ⟨b, hb, hidle, hp, ⟨-, hend⟩ | hst⟩
  · rw [h] at hst
    cases hst
  · refine ⟨hend, ?_⟩
    have hs : b.staged = v := hb.staged.trans (writeConfig_staged hw as v m)
    rw [← eventual_of_settled (by simp [hend]), hp.eventual]
    simp [AsBlock.eventual, hs]
  · rw [h] at hst
    cases hst

def Phase.left : Phase → ℕ
  | .idle => 0
  | .ending => 1
  | .running _ => 2

theorem left_iterate (b : AsBlock) (n : ℕ) :
    (AsBlock.advance^[n] b).phase.left = b.phase.left - n := by
  induction n with
  | zero => rfl
  | succ n ih =>
    have hone : ∀ b : AsBlock, b.advance.phase.left = b.phase.left - 1 := by
      rintro ⟨staged, _ | ⟨_ | _⟩ | _, latched⟩ <;> rfl
    rw [Function.iterate_succ_apply', hone, ih, Nat.sub_sub]

theorem waitLoop_prompt (hprompt : ∀ k i, 1 ≤ hw k i) {left : ℕ} {m : Mmu} (h0 : 0 < left)
    (h : (m.block as).phase.left ≤ left) : (waitAsIdleLoop hw as left m).1 = .success := by
  induction left generalizing m with
  | zero => omega
  | succ left ih =>
    have hl : ((access hw m).block as).phase.left = (m.block as).phase.left - hw m.accesses as :=
      left_iterate _ _
    have := hprompt m.accesses as
    rw [waitAsIdleLoop]
    split
    · rfl
    · rename_i hne
      have hpos : 0 < ((access hw m).block as).phase.left := by
        cases hp : ((access hw m).block as).phase with
        | idle => exact absurd hp hne
        | running c => simp [Phase.left]
        | ending => simp [Phase.left]
      exact ih (by omega) (by omega)

theorem wait_prompt (hprompt : ∀ k i, 1 ≤ hw k i) (m : Mmu) :
    (waitAsIdle hw as m).1 = .success := by
  have h : (m.block as).phase.left ≤ 2 := by
    cases (m.block as).phase <;> simp [Phase.left]
  exact waitLoop_prompt hw as hprompt (by omega) (by omega)

/-- No call fails on an MMU that gets a step further before every access. -/
theorem perform_prompt (hprompt : ∀ k i, 1 ≤ hw k i) (call : Call) (m : Mmu) :
    (call.perform hw m).1 = .success := by
  have hcommand : ∀ as command m, (asWriteCommand hw as command m).1 = .success := by
    intro as command m
    simp only [asWriteCommand, wait_prompt hw as hprompt, NtStatus.ok_success, Bool.not_true,
      Bool.false_eq_true, if_false]
  cases call with
  | enable as c =>
    rw [Call.perform, asEnable_flushed hw as c (hcommand as .flushMem m)]
    exact hcommand _ _ _
  | disable as => exact hcommand _ _ _
  | flushMem as => exact hcommand _ _ _

theorem guard_prompt (hprompt : ∀ k i, 1 ≤ hw k i) (m : Mmu) (call : Call) :
    guard hw m call := by
  cases call with
  | disable as =>
    rcases asFlushMem_status hw as m with ⟨-, hidle⟩ | hst
    · simp [guard, hidle]
    · have h := perform_prompt hw hprompt (.flushMem as) m
      rw [Call.perform, hst] at h
      cases h
  | _ => trivial

end Specs

attribute [irreducible] waitAsIdle

/-- The walks of a slot that never took over anything find it unmapped. -/
def AsBlock.live (b : AsBlock) : AsConfig := b.latched.head?.getD asUnmapped.config

/-- The configuration that a call is about; a flush has none. -/
def Call.asked : Call → Option AsConfig
  | .enable _ c => some c
  | .disable _ => some asUnmapped.config
  | .flushMem _ => none

section Runs

variable {hw : ℕ → ℕ → ℕ} {m m' : Mmu} {c : AsConfig}

theorem perform_success {call : Call} (hc : call.asked = some c)
    (h : (call.perform hw m).1 = .success) :
    ((call.perform hw m).2.block call.slot).phase = .idle ∧
      ((call.perform hw m).2.block call.slot).live = c := by
  have hlive : ∀ b : AsBlock, b.phase = .idle ∧ b.latched.head? = some c →
      b.phase = .idle ∧ b.live = c := fun b hb => ⟨hb.1, by simp [AsBlock.live, hb.2]⟩
  cases call with
  | enable as c' =>
    obtain rfl := Option.some.inj hc
    apply hlive
    rcases asFlushMem_status hw as m with ⟨hst, -⟩ | hst
    · have heq := asEnable_flushed hw as c' hst
      rw [Call.perform, heq] at h ⊢
      have hu := update_success hw as c'.halves _ h
      rwa [config_halves] at hu
    · have heq := asEnable_refused hw as c' hst
      rw [Call.perform, heq, hst] at h
      cases h
  | disable as =>
    obtain rfl := Option.some.inj hc
    rw [Call.perform, asDisable] at h ⊢
    exact hlive _ (update_success hw as asUnmapped _ h)
  | flushMem as => cases hc

/-- A call on another slot, or a flush, leaves the translation of a settled slot alone. -/
theorem perform_keeps {call : Call} {as : ℕ} (h : as = call.slot → call = .flushMem as)
    (hs : (m.block as).phase ≠ .running .update) :
    ((call.perform hw m).2.block as).phase ≠ .running .update ∧
      ((call.perform hw m).2.block as).live = (m.block as).live := by
  have hf : Frame (m.block as) ((call.perform hw m).2.block as) := by
    by_cases hslot : as = call.slot
    · rw [h hslot]
      exact asFlushMem_frame hw as m
    · exact (perform_other hw call m hslot).frame
  have hu : ((call.perform hw m).2.block as).phase ≠ .running .update :=
    fun hc => hs (hf.updating hc)
  refine ⟨hu, ?_⟩
  have hl := hf.eventual
  rw [eventual_of_settled hu, eventual_of_settled hs] at hl
  rw [AsBlock.live, AsBlock.live, hl]

/-- From any state, the walks of a slot use what its last enable or disable asked for, when
that call reported success. -/
theorem translation_is_last {call : Call} (hc : call.asked = some c)
    (hok : (call.perform hw m).1 = .success) {rest : List Call}
    (hrest : ∀ l ∈ rest, call.slot = l.slot → l = .flushMem call.slot)
    (hrun : exec (step hw) (call.perform hw m).2 rest = some m') :
    (m'.block call.slot).live = c := by
  obtain ⟨hidle, hlive⟩ := perform_success hc hok
  have hs : ((call.perform hw m).2.block call.slot).phase ≠ .running .update := by simp [hidle]
  rw [← hlive]
  generalize (call.perform hw m).2 = m at hs hrun ⊢
  induction rest generalizing m with
  | nil =>
    cases hrun
    rfl
  | cons l rest ih =>
    obtain ⟨u, hu, hrun⟩ := (exec_cons _ m m' l rest).mp hrun
    obtain rfl := Option.some.inj hu
    obtain ⟨hs', hl⟩ := perform_keeps (hrest l (by simp)) hs
    rw [← hl]
    exact ih (fun l' h => hrest l' (by simp [h])) _ hs' hrun

/-- What a slot took over, or is about to, was asked for as a whole. -/
def Whole (asked : List Call) (m : Mmu) : Prop :=
  ∀ as, ∀ c ∈ (m.block as).eventual, c = asUnmapped.config ∨ Call.enable as c ∈ asked

theorem perform_whole {asked : List Call} (hm : Whole asked m) {call : Call}
    (hg : guard hw m call) : Whole (call::asked) (call.perform hw m).2 := by
  intro as c hc
  have hold : c ∈ (m.block as).eventual →
      c = asUnmapped.config ∨ Call.enable as c ∈ call::asked :=
    fun h => (hm as c h).imp id fun h => List.mem_cons_of_mem _ h
  by_cases hslot : as = call.slot
  · subst hslot
    cases call with
    | enable as c' =>
      rcases asEnable_cases hw as c' m with ⟨-, hf⟩ | hp
      · exact hold (hf.eventual ▸ hc)
      · rw [show (Call.enable as c').slot = as from rfl] at hc ⊢
        rcases List.mem_cons.mp (hp.eventual ▸ hc) with rfl | h
        · exact .inr (by simp)
        · exact hold h
    | disable as =>
      rcases asDisable_cases hw as hg with ⟨-, he⟩ | hp
      · exact hold (he ▸ hc)
      · rcases List.mem_cons.mp (hp.eventual ▸ hc) with rfl | h
        · exact .inl rfl
        · exact hold h
    | flushMem as => exact hold ((asFlushMem_frame hw as m).eventual ▸ hc)
  · exact hold ((perform_other hw call m hslot).eventual ▸ hc)

theorem exec_whole {asked calls : List Call} (hm : Whole asked m)
    (hg : Guarded (step hw) (guard hw) m calls) (hrun : exec (step hw) m calls = some m') :
    Whole (calls.reverse ++ asked) m' := by
  induction calls generalizing m asked with
  | nil =>
    cases hrun
    exact hm
  | cons call calls ih =>
    obtain ⟨u, hu, hrun⟩ := (exec_cons _ m m' call calls).mp hrun
    obtain ⟨hl, hrest⟩ := hg u hu
    obtain rfl := Option.some.inj hu
    have h := ih (perform_whole hm hl) hrest hrun
    simpa using h

end Runs

/-- After a reset no slot has taken over anything. -/
def resetMmu : Mmu := ⟨fun _ => ⟨⟨0, 0, 0, 0, 0, 0⟩, .idle, []⟩, 0⟩

/-- Whatever the MMU does between the accesses of any run of calls, a slot never takes over
a mixture of two configurations, as long as no disable writes into an `UPDATE`. -/
theorem latched_whole (hw : ℕ → ℕ → ℕ) (calls : List Call) (m : Mmu)
    (hg : Guarded (step hw) (guard hw) resetMmu calls)
    (hrun : exec (step hw) resetMmu calls = some m) (as : ℕ) (c : AsConfig)
    (hc : c ∈ (m.block as).latched) :
    c = asUnmapped.config ∨ Call.enable as c ∈ calls := by
  have hreset : Whole [] resetMmu := by
    intro as c hc
    simp [resetMmu, AsBlock.eventual] at hc
  have hw' := exec_whole hreset hg hrun as c ((latched_sublist _).subset hc)
  simpa using hw'

theorem latched_whole_prompt : ∃ m, exec (step fun _ _ => 1) resetMmu
      [.enable 2 ⟨0x1000, 0, 6⟩, .disable 2] = some m ∧
    ((m.block 2).latched = [asUnmapped.config, ⟨0x1000, 0, 6⟩]) ∧
    ∀ c ∈ (m.block 2).latched,
      c = asUnmapped.config ∨ Call.enable 2 c ∈ [Call.enable 2 ⟨0x1000, 0, 6⟩, .disable 2] := by
  have hg : ∀ calls m, Guarded (step fun _ _ => 1) (guard fun _ _ => 1) m calls := by
    intro calls
    induction calls with
    | nil => exact fun _ => trivial
    | cons call calls ih =>
      exact fun m t _ => ⟨guard_prompt _ (fun _ _ => le_rfl) m call, ih t⟩
  refine ⟨_, rfl, by decide +kernel, fun c hc => ?_⟩
  exact latched_whole (fun _ _ => 1) _ _ (hg _ _) rfl 2 c hc

end WinMali.AsRegisters
