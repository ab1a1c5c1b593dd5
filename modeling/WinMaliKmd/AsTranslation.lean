import Mathlib.Data.Set.Insert
import Mathlib.Tactic.IntervalCases
import WinMaliKmd.AsRegisters
import WinMaliKmd.AsRestart
import WinMaliKmd.VmPageTableMap

/-!
# What the slots translate

The callers of `AsEnable` and `AsDisable` over the registers: the tables of the slot
allocator go one way, the MMU the other, and a wait that runs out leaves them apart.
Slot 0 belongs to the firmware and is programmed elsewhere.
-/

set_option autoImplicit false

namespace WinMali.AsTranslation
open WinMali.AsSlots WinMali.AsRegisters WinMali.VmPageTable WinMali.Runs
open WinMali.AsRestart (Reserved releasedSlots)

def vaBits (mmuFeatures : BitVec 32) : ℕ :=
  let vaBits := (mmuFeatures &&& 0xFF).toNat
  if vaBits < 32 ∨ vaBits > 48 then 48 else vaBits

def ptwMemattrNc : Word := 1 <<< 24

def adrmodeAarch64 : Word := 6

def ptwShNs : Word := 0 <<< 28

def inaBits (x : ℕ) : Word := BitVec.ofNat 64 x <<< 6

def defaultTranscfg (mmuFeatures : BitVec 32) : Word :=
  ptwMemattrNc ||| adrmodeAarch64 ||| inaBits (55 - vaBits mmuFeatures) ||| ptwShNs

def defaultMemattr : Word := (List.range 8).foldl (fun m i => m ||| (0x4C : Word) <<< (8 * i)) 0

def adrmodeUnmapped : Word := 1

/-- The address mode is the low nibble of `TRANSCFG`. -/
def walkRoot (c : AsConfig) : Option Word :=
  if c.transcfg &&& 0xF = adrmodeUnmapped then none else some c.transtab

def rootConfig (mmuFeatures : BitVec 32) (root : Word) : AsConfig :=
  ⟨root, defaultMemattr, defaultTranscfg mmuFeatures⟩

/-- `reply` is what the last `AsEnable` or `AsDisable` of a slot returned; the driver keeps
none of it. -/
structure Kmd where
  adapter : Adapter
  vms : List VmPt
  mmu : Mmu
  reply : ℕ → NtStatus
  mmuFeatures : BitVec 32
  gpuMmuAsBound : Bool
  mmuScratchHeapPhys : Word

namespace Kmd

def withAdapter (s : Kmd) (a : Adapter) : Kmd := { s with adapter := a }

/-- A slot call went through the registers. -/
def called (s : Kmd) (as : ℕ) (r : NtStatus × Mmu) : Kmd :=
  { s with mmu := r.2, reply := Function.update s.reply as r.1 }

end Kmd

section Driver

variable (hw : ℕ → ℕ → ℕ)

def enableRegs (s : Kmd) (as : ℕ) (root : Word) : NtStatus × Kmd :=
  let r := AsRegisters.asEnable hw as (rootConfig s.mmuFeatures root) s.mmu
  (r.1, s.called as r)

def disableRegs (s : Kmd) (as : ℕ) : Kmd :=
  if s.adapter.gpuRegsMapped then s.called as (AsRegisters.asDisable hw as s.mmu) else s

def unbindContext (s : Kmd) (hContext : ℕ) : Kmd :=
  let as := findAsForContext s.adapter hContext
  if as ≥ asSlotMax then s
  else
    let s := s.withAdapter ((s.adapter.setBinding as .zero).release as)
    if s.adapter.gpuRegsMapped
      then disableRegs hw (s.withAdapter (AsSlots.asDisable s.adapter as)) as else s

def bindContextRootPt (s : Kmd) (hContext : ℕ) (rootPtPa : Word) : NtStatus × Kmd :=
  if !s.adapter.gpuRegsMapped then (.deviceNotReady, s)
  else if rootPtPa = 0 then (.success, unbindContext hw s hContext)
  else if rootPtPa &&& 0xFFF ≠ 0 then (.invalidParameter, s)
  else
    let found := findAsForContext s.adapter hContext
    let reused := decide (found < asSlotMax)
    let as := if reused then found else pickFreeAs s.adapter
    if as ≥ asSlotMax then (.insufficientResources, s)
    else
      let a := if reused then s.adapter else s.adapter.take as
      let a := a.setBinding as ⟨hContext, rootPtPa, true⟩
      let (status, s) := enableRegs hw (s.withAdapter a) as rootPtPa
      let a := (AsSlots.asEnable a as rootPtPa status).2
      if !status.ok then
        let a := a.setBinding as .zero
        (status, s.withAdapter (if reused then a else a.release as))
      else (.success, s.withAdapter a)

/-- A VM is live from a successful `vmInit` on. -/
def vmInit (s : Kmd) (supply : ℕ → PtReply) (mem : Word → Fin 512 → Word) : NtStatus × Kmd :=
  let pt : VmPt := ⟨none, [], asSlotMax, mem, 0, []⟩
  if !s.adapter.gpuRegsMapped then (.deviceNotReady, s)
  else
    match ptAllocPage supply pt with
    | (none, _) => (.insufficientResources, s)
    | (some root, pt) =>
      let (as, a) := vmPickAs s.adapter
      if as ≥ asSlotMax then (.insufficientResources, s.withAdapter a)
      else
        let (status, s) := enableRegs hw (s.withAdapter a) as root
        let a := (AsSlots.asEnable a as root status).2
        if !status.ok then (status, s.withAdapter (vmReleaseAs a as))
        else
          let pt := { pt with rootVa := some root, allocatedPages := [root], asSlot := as }
          (.success, { s with
            adapter := a.setBinding as { a.asBindings as with rootPtPa := root }
            vms := s.vms ++ [pt] })

def vmTeardown (s : Kmd) (vm : ℕ) : Option Kmd :=
  s.vms[vm]?.map fun pt =>
    let s := { s with vms := s.vms.eraseIdx vm }
    let s := if pt.asSlot < asSlotMax && s.adapter.gpuRegsMapped
      then disableRegs hw (s.withAdapter (AsSlots.asDisable s.adapter pt.asSlot)) pt.asSlot else s
    if pt.asSlot < asSlotMax then s.withAdapter (vmReleaseAs s.adapter pt.asSlot) else s

/-- The root that a fault recovery puts back, zero for none. -/
def recordedRootPa (s : Kmd) (as : ℕ) : Word :=
  if as = bringupAs then s.mmuScratchHeapPhys
  else if s.adapter.bound as then (s.adapter.asBindings as).rootPtPa else 0

def recoverFaultedAs (s : Kmd) (as : ℕ) : Kmd :=
  if as ≥ asSlotMax then s
  else
    let root := recordedRootPa s as
    let s := disableRegs hw s as
    if root ≠ 0 then (enableRegs hw s as root).2 else s

def mmuTeardown (s : Kmd) : Kmd :=
  let released := releasedSlots s.adapter
  let s := s.withAdapter (released.foldl drop s.adapter)
  let s := released.foldl (disableRegs hw) s
  let s := if s.gpuMmuAsBound && s.adapter.gpuRegsMapped then disableRegs hw s bringupAs else s
  { s with gpuMmuAsBound := false, mmuScratchHeapPhys := 0 }

/-- `heap` is the scratch heap, when all three allocations of the start succeed. -/
def mmuInit (s : Kmd) (heap : Option Word) : Kmd :=
  let s := mmuTeardown hw s
  match heap with
  | none => s
  | some rootPa =>
    let s := disableRegs hw { s with mmuScratchHeapPhys := rootPa } bringupAs
    let (status, s) := enableRegs hw s bringupAs rootPa
    if !status.ok then mmuTeardown hw s else { s with gpuMmuAsBound := true }

inductive Op
  | bind (hContext : ℕ) (rootPtPa : Word)
  | unbind (hContext : ℕ)
  | vmInit (supply : ℕ → PtReply) (mem : Word → Fin 512 → Word)
  | vmTeardown (vm : ℕ)
  | recover (as : ℕ)
  | mmuTeardown
  | mmuInit (heap : Option Word)

/-- The memory manager does not hand out page zero. -/
def Op.Nonzero : Op → Prop
  | .vmInit supply _ => ∀ k, (supply k).contiguous ≠ some 0
  | .mmuInit heap => heap ≠ some 0
  | _ => True

def step (s : Kmd) : Op → Option Kmd
  | .bind h root => some (bindContextRootPt hw s h root).2
  | .unbind h => some (unbindContext hw s h)
  | .vmInit supply mem => some (vmInit hw s supply mem).2
  | .vmTeardown vm => vmTeardown hw s vm
  | .recover as => some (recoverFaultedAs hw s as)
  | .mmuTeardown => some (mmuTeardown hw s)
  | .mmuInit heap => some (mmuInit hw s heap)

end Driver

def start (a : Adapter) (mmuFeatures : BitVec 32) : Kmd :=
  ⟨initAsAllocator { a with gpuRegsMapped := true }, [], resetMmu, fun _ => .success,
    mmuFeatures, false, 0⟩

/-- The root that the owner of a slot has on record. -/
def ownerRoot (s : Kmd) (as : ℕ) : Option Word :=
  if as = bringupAs then if s.gpuMmuAsBound then some s.mmuScratchHeapPhys else none
  else if s.adapter.bound as then some (s.adapter.asBindings as).rootPtPa else none

def ownerConfig (s : Kmd) (as : ℕ) : AsConfig :=
  ((ownerRoot s as).map (rootConfig s.mmuFeatures)).getD asUnmapped.config

theorem vaBits_range (mmuFeatures : BitVec 32) :
    32 ≤ vaBits mmuFeatures ∧ vaBits mmuFeatures ≤ 48 := by
  unfold vaBits
  dsimp only
  split <;> omega

/-- The fields of the default configuration do not run into each other. -/
theorem transcfg_fields (mmuFeatures : BitVec 32) :
    defaultTranscfg mmuFeatures &&& 0xF = adrmodeAarch64 ∧
      (defaultTranscfg mmuFeatures >>> 6 &&& 0x1F).toNat = 55 - vaBits mmuFeatures ∧
      defaultTranscfg mmuFeatures >>> 24 &&& 3 = 1 := by
  have hall : ∀ v, 32 ≤ v → v ≤ 48 →
      (ptwMemattrNc ||| adrmodeAarch64 ||| inaBits (55 - v) ||| ptwShNs) &&& 0xF = adrmodeAarch64 ∧
      ((ptwMemattrNc ||| adrmodeAarch64 ||| inaBits (55 - v) ||| ptwShNs) >>> 6 &&& 0x1F).toNat =
        55 - v ∧
      (ptwMemattrNc ||| adrmodeAarch64 ||| inaBits (55 - v) ||| ptwShNs) >>> 24 &&& 3 = 1 := by
    intro v hlo hhi
    interval_cases v <;> decide
  exact hall _ (vaBits_range mmuFeatures).1 (vaBits_range mmuFeatures).2

@[simp] theorem walkRoot_rootConfig (mmuFeatures : BitVec 32) (root : Word) :
    walkRoot (rootConfig mmuFeatures root) = some root := by
  rw [walkRoot, rootConfig, (transcfg_fields mmuFeatures).1]
  exact if_neg (by decide)

theorem walkRoot_unmapped : walkRoot asUnmapped.config = none := by decide

theorem walkRoot_owner (s : Kmd) (as : ℕ) : walkRoot (ownerConfig s as) = ownerRoot s as := by
  unfold ownerConfig
  cases ownerRoot s as with
  | none => exact walkRoot_unmapped
  | some root => exact walkRoot_rootConfig s.mmuFeatures root

structure Shows (m : Mmu) (as : ℕ) (c : AsConfig) : Prop where
  settled : (m.block as).phase ≠ .running .update
  live : (m.block as).live = c

/-- The slots of `ex` are left out: a call on them is under way. -/
structure Inv (s : Kmd) (ex : Set ℕ) : Prop where
  regs : s.adapter.gpuRegsMapped = true
  reserved : Reserved s.adapter
  leased : ∀ pt ∈ s.vms, 2 ≤ pt.asSlot
  roots : ∀ as, s.adapter.bound as = true → (s.adapter.asBindings as).rootPtPa ≠ 0
  scratch : s.mmuScratchHeapPhys ≠ 0 ↔ s.gpuMmuAsBound = true
  follows : ∀ as, as ≠ mcuAs → as ∉ ex → s.reply as = .success →
    Shows s.mmu as (ownerConfig s as)

section Steps

variable {hw : ℕ → ℕ → ℕ} {s : Kmd} {ex : Set ℕ}

/-- The slot of a call shows its owner when the call asked for what the owner has on record. -/
theorem Inv.call (call : Call) {c : AsConfig} {r : NtStatus × Mmu}
    (I : Inv s (insert call.slot ex)) (hr : call.perform hw s.mmu = r) (hc : call.asked = some c)
    (hown : r.1 = .success → ownerConfig s call.slot = c) : Inv (s.called call.slot r) ex := by
  refine ⟨I.regs, I.reserved, I.leased, I.roots, I.scratch, ?_⟩
  intro as has hex hok
  change Shows r.2 as (ownerConfig s as)
  by_cases hslot : as = call.slot
  · subst hslot
    have hok' : r.1 = .success := by simpa [Kmd.called] using hok
    obtain ⟨hidle, hlive⟩ := perform_success hc (hr ▸ hok')
    rw [hr] at hidle hlive
    exact ⟨by simp [hidle], hlive.trans (hown hok').symm⟩
  · have hok' : s.reply as = .success := by simpa [Kmd.called, hslot] using hok
    have h := I.follows as has (by simp [hslot, hex]) hok'
    obtain ⟨hset, hlive⟩ := perform_keeps (fun h => absurd h hslot) h.settled
    rw [hr] at hset hlive
    exact ⟨hset, hlive.trans h.live⟩

theorem Inv.subset {ex' : Set ℕ} (I : Inv s ex) (h : ex ⊆ ex') : Inv s ex' :=
  ⟨I.regs, I.reserved, I.leased, I.roots, I.scratch, fun as has hex => I.follows as has fun h' => hex (h h')⟩

/-- New tables, with the owners of the slots outside `ex` as they were. -/
theorem Inv.tables (I : Inv s ∅) (ex : Set ℕ) {vms : List VmPt}
    (hvms : ∀ pt ∈ vms, 2 ≤ pt.asSlot) {a : Adapter}
    (hregs : a.gpuRegsMapped = s.adapter.gpuRegsMapped) (hres : Reserved a)
    (hroots : ∀ as, a.bound as = true → (a.asBindings as).rootPtPa ≠ 0)
    (hkeep : ∀ as, as ∉ ex → a.asBindings as = s.adapter.asBindings as) :
    Inv { s with adapter := a, vms := vms } ex := by
  refine ⟨hregs.trans I.regs, hres, hvms, hroots, I.scratch, ?_⟩
  intro as has hex hok
  have h := I.follows as has (by simp) hok
  have howner : ownerConfig { s with adapter := a, vms := vms } as = ownerConfig s as := by
    simp only [ownerConfig, ownerRoot, Adapter.bound, hkeep as hex]
    rfl
  exact ⟨h.settled, h.live.trans howner.symm⟩

theorem ownerConfig_unbound {as : ℕ} (has : as ≠ bringupAs) (hb : s.adapter.bound as = false) :
    ownerConfig s as = asUnmapped.config := by
  simp [ownerConfig, ownerRoot, has, hb]

theorem ownerConfig_bound {as h : ℕ} {root : Word} (has : as ≠ bringupAs)
    (hb : s.adapter.asBindings as = ⟨h, root, true⟩) :
    ownerConfig s as = rootConfig s.mmuFeatures root := by
  simp [ownerConfig, ownerRoot, has, Adapter.bound, hb]

theorem disableRegs_eq (I : s.adapter.gpuRegsMapped = true) (as : ℕ) :
    disableRegs hw s as = s.called as ((Call.disable as).perform hw s.mmu) := by
  simp [disableRegs, I, Call.perform]

/-- A slot leaves the tables and is disabled. -/
theorem Inv.drop (I : Inv s ∅) {as : ℕ} (h2 : 2 ≤ as) {vms : List VmPt}
    (hvms : ∀ pt ∈ vms, 2 ≤ pt.asSlot) {a : Adapter}
    (hregs : a.gpuRegsMapped = s.adapter.gpuRegsMapped) (hres : Reserved a)
    (hoff : a.bound as = false)
    (hkeep : ∀ i, i ≠ as → a.asBindings i = s.adapter.asBindings i) :
    Inv ({ s with adapter := a, vms := vms }.called as ((Call.disable as).perform hw s.mmu)) ∅ := by
  have hroots : ∀ i, a.bound i = true → (a.asBindings i).rootPtPa ≠ 0 := by
    intro i hi
    have hne : i ≠ as := by
      rintro rfl
      rw [hoff] at hi
      cases hi
    rw [Adapter.bound, hkeep i hne] at hi
    rw [hkeep i hne]
    exact I.roots i hi
  have I' := I.tables (insert as ∅) hvms hregs hres hroots fun i hi => hkeep i fun h => hi (by simp [h])
  refine I'.call (.disable as) rfl rfl fun _ => ?_
  exact ownerConfig_unbound (by simp only [Call.slot, bringupAs]; omega) hoff

/-- A slot gets an owner, who goes again when the slot cannot be enabled. -/
theorem Inv.claim (I : Inv s ∅) {as : ℕ} {root : Word} (h2 : 2 ≤ as) (hroot : root ≠ 0)
    {vms : List VmPt} (hvms : ∀ pt ∈ vms, 2 ≤ pt.asSlot) {a : Adapter}
    (hregs : a.gpuRegsMapped = s.adapter.gpuRegsMapped) (hres : Reserved a)
    (hown : (∃ h, a.asBindings as = ⟨h, root, true⟩) ∨ a.bound as = false ∧
      (AsRegisters.asEnable hw as (rootConfig s.mmuFeatures root) s.mmu).1 ≠ .success)
    (hkeep : ∀ i, i ≠ as → a.asBindings i = s.adapter.asBindings i) :
    Inv ({ s with adapter := a, vms := vms }.called as
      (AsRegisters.asEnable hw as (rootConfig s.mmuFeatures root) s.mmu)) ∅ := by
  have hroots : ∀ i, a.bound i = true → (a.asBindings i).rootPtPa ≠ 0 := by
    intro i hi
    by_cases hne : i = as
    · subst hne
      rcases hown with ⟨h, hb⟩ | ⟨hb, -⟩
      · rw [hb]
        exact hroot
      · rw [hb] at hi
        cases hi
    · rw [Adapter.bound, hkeep i hne] at hi
      rw [hkeep i hne]
      exact I.roots i hi
  have I' := I.tables (insert as ∅) hvms hregs hres hroots fun i hi => hkeep i fun h => hi (by simp [h])
  refine I'.call (.enable as (rootConfig s.mmuFeatures root)) rfl rfl fun hok => ?_
  rcases hown with ⟨h, hb⟩ | ⟨-, hfail⟩
  · exact ownerConfig_bound (by simp only [Call.slot, bringupAs]; omega) hb
  · exact absurd hok hfail

theorem reserved_drop {a : Adapter} (R : Reserved a) {j : ℕ} (hj : 2 ≤ j) :
    Reserved (AsSlots.drop a j) :=
  R.keep (fun _ _ => rfl) fun _ _ => AsRestart.untouched_drop a (by omega) (by omega)

theorem reserved_setBinding {a : Adapter} (R : Reserved a) {j : ℕ} (hj : 2 ≤ j) (b : AsBinding) :
    Reserved (a.setBinding j b) :=
  R.keep (fun _ _ => rfl) fun _ _ => AsRestart.untouched_setBinding a (by omega) b

theorem reserved_take {a : Adapter} (R : Reserved a) {j : ℕ} (hj : 2 ≤ j) : Reserved (a.take j) :=
  R.keep (fun _ _ => rfl) fun _ _ => AsRestart.untouched_take a (by omega) (by omega)

theorem setBinding_self (a : Adapter) (as : ℕ) (b : AsBinding) :
    (a.setBinding as b).asBindings as = b := by
  simp [Adapter.setBinding]

theorem setBinding_other (a : Adapter) {i as : ℕ} (h : i ≠ as) (b : AsBinding) :
    (a.setBinding as b).asBindings i = a.asBindings i := by
  simp [Adapter.setBinding, h]

/-- The disable of a slot that is in the tables `a` already. -/
theorem disable_with {a : Adapter} (hregs : a.gpuRegsMapped = true) (vms : List VmPt) (as : ℕ) :
    disableRegs hw { s with adapter := AsSlots.asDisable a as, vms := vms } as =
      { s with adapter := a.log (.disable as), vms := vms }.called as
        ((Call.disable as).perform hw s.mmu) := by
  simp [disableRegs, AsSlots.asDisable, hregs, Adapter.log, Call.perform]

theorem Inv.unbindContext (I : Inv s ∅) (h : ℕ) : Inv (unbindContext hw s h) ∅ := by
  unfold AsTranslation.unbindContext
  by_cases hf : findAsForContext s.adapter h < asSlotMax
  · have h2 := AsRestart.find_ge I.reserved h hf
    have hregs : ((s.adapter.setBinding (findAsForContext s.adapter h) .zero).release
      (findAsForContext s.adapter h)).gpuRegsMapped = true := I.regs
    simp only [show ¬findAsForContext s.adapter h ≥ asSlotMax by omega, if_false, Kmd.withAdapter,
      hregs, if_true]
    exact (congrArg (Inv · ∅) (disable_with hregs s.vms _)).mpr
      (I.drop h2 I.leased rfl (reserved_drop I.reserved h2)
        (bound_drop s.adapter _ _ |>.trans (if_pos rfl))
        fun i hi => setBinding_other s.adapter hi _)
  · simp only [show findAsForContext s.adapter h ≥ asSlotMax by omega, if_true]
    exact I

theorem Inv.bindContextRootPt (I : Inv s ∅) (h : ℕ) (root : Word) :
    Inv (bindContextRootPt hw s h root).2 ∅ := by
  unfold AsTranslation.bindContextRootPt
  simp only [I.regs, Bool.not_true, Bool.false_eq_true, if_false]
  by_cases h0 : root = 0
  · simp only [if_pos h0]
    exact I.unbindContext h
  by_cases hal : root &&& 0xFFF ≠ 0
  · simp only [if_neg h0, if_pos hal]
    exact I
  simp only [if_neg h0, if_neg hal]
  by_cases hf : findAsForContext s.adapter h < asSlotMax
  · have h2 := AsRestart.find_ge I.reserved h hf
    have R := reserved_setBinding I.reserved h2 ⟨h, root, true⟩
    simp only [hf, decide_true, if_true, show ¬findAsForContext s.adapter h ≥ asSlotMax by omega,
      if_false, enableRegs, Kmd.withAdapter]
    cases hst : (AsRegisters.asEnable hw (findAsForContext s.adapter h)
      (rootConfig s.mmuFeatures root) s.mmu).1.ok with
    | false =>
      simp only [Bool.not_false, if_true]
      refine I.claim h2 h0 I.leased rfl (reserved_setBinding R h2 _) (.inr ⟨?_, ?_⟩) ?_
      · simp [Adapter.bound, AsBinding.zero]
      · exact fun h => by simp [h] at hst
      · exact fun i hi => (setBinding_other _ hi _).trans (setBinding_other _ hi _)
    | true =>
      simp only [Bool.not_true, Bool.false_eq_true, if_false]
      refine I.claim h2 h0 I.leased rfl R (.inl ⟨h, setBinding_self _ _ _⟩) ?_
      exact fun i hi => setBinding_other _ hi _
  · simp only [hf, decide_false, Bool.false_eq_true, if_false]
    by_cases hp : pickFreeAs s.adapter < asSlotMax
    · have h2 := AsRestart.pick_ge I.reserved hp
      have R := reserved_setBinding (reserved_take I.reserved h2) h2 ⟨h, root, true⟩
      simp only [show ¬pickFreeAs s.adapter ≥ asSlotMax by omega, if_false, enableRegs,
        Kmd.withAdapter]
      by_cases hst : (AsRegisters.asEnable hw (pickFreeAs s.adapter)
        (rootConfig s.mmuFeatures root) s.mmu).1.ok = true
      · simp only [hst, Bool.not_true, Bool.false_eq_true, if_false]
        refine I.claim h2 h0 I.leased rfl R (.inl ⟨h, setBinding_self _ _ _⟩) ?_
        exact fun i hi => setBinding_other _ hi _
      · have hno := Bool.eq_false_iff.mpr hst
        simp only [hno, Bool.not_false, if_true]
        refine I.claim h2 h0 I.leased rfl (reserved_drop R h2) (.inr ⟨?_, ?_⟩) ?_
        · simp [Adapter.bound, setBinding_self, AsBinding.zero]
        · exact fun h => by simp [h] at hno
        · exact fun i hi => (setBinding_other _ hi _).trans (setBinding_other _ hi _)
    · simp only [show pickFreeAs s.adapter ≥ asSlotMax by omega, if_true]
      exact I

theorem allocPage_contiguous {supply : ℕ → PtReply} {pt pt' : VmPt} {pa : Word}
    (h : ptAllocPage supply pt = (some pa, pt')) : (supply pt.calls).contiguous = some pa := by
  unfold ptAllocPage at h
  cases hc : (supply pt.calls).contiguous with
  | none => simp [hc] at h
  | some q =>
    cases hp : (supply pt.calls).pool with
    | false => simp [hc, hp] at h
    | true =>
      simp only [hc, hp, if_true, Prod.mk.injEq, Option.some.injEq] at h
      rw [h.1]

theorem Inv.vmInit (I : Inv s ∅) {supply : ℕ → PtReply}
    (hpages : ∀ k, (supply k).contiguous ≠ some 0) (mem : Word → Fin 512 → Word) :
    Inv (vmInit hw s supply mem).2 ∅ := by
  unfold AsTranslation.vmInit
  simp only [I.regs, Bool.not_true, Bool.false_eq_true, if_false]
  rcases hpage : ptAllocPage supply ⟨none, [], asSlotMax, mem, 0, []⟩ with ⟨_ | root, pt⟩
  · exact I
  have hroot : root ≠ 0 := by
    rintro rfl
    exact hpages _ (allocPage_contiguous hpage)
  by_cases hp : pickFreeAs s.adapter < asSlotMax
  · have h2 := AsRestart.pick_ge I.reserved hp
    have R := reserved_setBinding (reserved_take I.reserved h2) h2 ⟨0, 0, true⟩
    simp only [vmPickAs, if_pos hp, show ¬pickFreeAs s.adapter ≥ asSlotMax by omega, if_false,
      enableRegs, Kmd.withAdapter, vmReleaseAs]
    by_cases hst : (AsRegisters.asEnable hw (pickFreeAs s.adapter)
      (rootConfig s.mmuFeatures root) s.mmu).1.ok = true
    · simp only [hst, Bool.not_true, Bool.false_eq_true, if_false]
      refine I.claim h2 hroot ?_ rfl (reserved_setBinding R h2 _) (.inl ⟨0, ?_⟩) ?_
      · intro pt' hpt
        rcases List.mem_append.mp hpt with hpt | hpt
        · exact I.leased pt' hpt
        · obtain rfl := List.mem_singleton.mp hpt
          exact h2
      · simp [AsSlots.asEnable, Adapter.log, Adapter.setBinding]
      · exact fun i hi => (setBinding_other _ hi _).trans (setBinding_other _ hi _)
    · have hno := Bool.eq_false_iff.mpr hst
      simp only [hno, Bool.not_false, if_true]
      refine I.claim h2 hroot I.leased rfl (reserved_drop R h2) (.inr ⟨?_, ?_⟩) ?_
      · simp [Adapter.bound, setBinding_self, AsBinding.zero]
      · exact fun h => by simp [h] at hno
      · exact fun i hi => (setBinding_other _ hi _).trans (setBinding_other _ hi _)
  · simp only [vmPickAs, if_neg hp, show pickFreeAs s.adapter ≥ asSlotMax by omega, if_true]
    exact I

theorem Inv.vmTeardown (I : Inv s ∅) (vm : ℕ) {t : Kmd} (h : vmTeardown hw s vm = some t) :
    Inv t ∅ := by
  obtain ⟨pt, hpt, rfl⟩ := Option.map_eq_some_iff.mp h
  have h2 := I.leased pt (List.mem_of_getElem? hpt)
  have hvms : ∀ pt ∈ s.vms.eraseIdx vm, 2 ≤ pt.asSlot :=
    fun pt h => I.leased pt ((List.eraseIdx_sublist ..).subset h)
  by_cases hslot : pt.asSlot < asSlotMax
  · simp only [hslot, decide_true, I.regs, Bool.and_self, if_true, Kmd.withAdapter]
    rw [disable_with I.regs]
    simp only [vmReleaseAs, show ¬pt.asSlot ≥ asSlotMax by omega, if_false]
    exact I.drop h2 hvms rfl (reserved_drop I.reserved h2)
      (bound_drop s.adapter _ _ |>.trans (if_pos rfl)) fun i hi => setBinding_other _ hi _
  · simp only [hslot, decide_false, Bool.false_and, Bool.false_eq_true, if_false]
    exact ⟨I.regs, I.reserved, hvms, I.roots, I.scratch, I.follows⟩

/-- A call on a slot whose owner is about to be shown again, or was never shown. -/
theorem Inv.exempt (I : Inv s ex) (call : Call) {r : NtStatus × Mmu}
    (hr : call.perform hw s.mmu = r) : Inv (s.called call.slot r) (insert call.slot ex) := by
  refine ⟨I.regs, I.reserved, I.leased, I.roots, I.scratch, ?_⟩
  intro as has hex hok
  have hslot : as ≠ call.slot := fun h => hex (by simp [h])
  have hok' : s.reply as = .success := by simpa [Kmd.called, hslot] using hok
  have h := I.follows as has (fun h => hex (by simp [h])) hok'
  obtain ⟨hset, hlive⟩ := perform_keeps (fun h => absurd h hslot) h.settled
  rw [hr] at hset hlive
  exact ⟨hset, hlive.trans h.live⟩

theorem ownerRoot_recorded (I : Inv s ∅) (as : ℕ) :
    ownerRoot s as = if recordedRootPa s as = 0 then none else some (recordedRootPa s as) := by
  unfold ownerRoot recordedRootPa
  by_cases has : as = bringupAs
  · simp only [if_pos has]
    cases hb : s.gpuMmuAsBound with
    | false =>
      have h0 : s.mmuScratchHeapPhys = 0 := by
        by_contra hne
        rw [I.scratch.mp hne] at hb
        cases hb
      simp [h0]
    | true => exact (if_neg (I.scratch.mpr hb)).symm
  · simp only [if_neg has]
    cases hb : s.adapter.bound as with
    | false => simp
    | true => exact (if_neg (I.roots as hb)).symm

theorem Inv.recover (I : Inv s ∅) (as : ℕ) : Inv (recoverFaultedAs hw s as) ∅ := by
  unfold recoverFaultedAs
  by_cases has : as ≥ asSlotMax
  · simp only [if_pos has]
    exact I
  simp only [if_neg has]
  rw [disableRegs_eq I.regs]
  have howner := ownerRoot_recorded I as
  have I' : Inv (s.called as ((Call.disable as).perform hw s.mmu)) (insert as ∅) := I.exempt (.disable as) rfl
  by_cases hroot : recordedRootPa s as = 0
  · simp only [hroot, ne_eq, not_true_eq_false, if_false]
    refine (I.subset (by simp)).call (.disable as) rfl rfl fun _ => ?_
    simp [ownerConfig, Call.slot, howner, hroot]
  · simp only [if_pos hroot, enableRegs]
    refine I'.call (.enable as (rootConfig s.mmuFeatures (recordedRootPa s as))) rfl rfl fun _ => ?_
    change ((ownerRoot s as).map _).getD _ = _
    rw [howner, if_neg hroot]
    rfl

theorem drops_bindings (l : List ℕ) (a : Adapter) (i : ℕ) :
    (l.foldl AsSlots.drop a).asBindings i = if i ∈ l then .zero else a.asBindings i := by
  induction l generalizing a with
  | nil => simp
  | cons j l ih =>
    rw [List.foldl_cons, ih]
    by_cases hl : i ∈ l
    · simp [hl]
    by_cases hj : i = j
    · subst hj
      simp [hl, AsSlots.drop, Adapter.release, Adapter.setBinding]
    · simp [hl, hj, AsSlots.drop, Adapter.release, Adapter.setBinding]

theorem drops_regs (l : List ℕ) (a : Adapter) :
    (l.foldl AsSlots.drop a).gpuRegsMapped = a.gpuRegsMapped := by
  induction l generalizing a with
  | nil => rfl
  | cons j l ih => exact ih _

theorem Inv.disables (hw : ℕ → ℕ → ℕ) (l : List ℕ) (I : Inv s {i | i ∈ l})
    (hoff : ∀ i ∈ l, ownerRoot s i = none) : Inv (l.foldl (disableRegs hw) s) ∅ := by
  induction l generalizing s with
  | nil => exact I.subset (by simp)
  | cons j l ih =>
    rw [List.foldl_cons, disableRegs_eq I.regs]
    have I' : Inv s (insert (Call.disable j).slot {i | i ∈ l}) :=
      I.subset fun i hi => by simpa [Call.slot] using hi
    refine ih (I'.call (.disable j) rfl rfl fun _ => ?_) fun i hi => hoff i (by simp [hi])
    simp [ownerConfig, Call.slot, hoff j (by simp)]

theorem Inv.bringup (I : Inv s ∅) (bound : Bool) (phys : Word) (h : phys ≠ 0 ↔ bound = true) :
    Inv { s with gpuMmuAsBound := bound, mmuScratchHeapPhys := phys } (insert bringupAs ∅) := by
  refine ⟨I.regs, I.reserved, I.leased, I.roots, h, ?_⟩
  intro as has hex hok
  have hne : as ≠ bringupAs := fun h => hex (by simp [h])
  have h' := I.follows as has (by simp) hok
  have howner : ownerConfig { s with gpuMmuAsBound := bound, mmuScratchHeapPhys := phys } as =
      ownerConfig s as := by
    simp [ownerConfig, ownerRoot, hne]
  exact ⟨h'.settled, h'.live.trans howner.symm⟩

theorem Inv.mmuTeardown (I : Inv s ∅) : Inv (mmuTeardown hw s) ∅ := by
  have hge : ∀ i ∈ releasedSlots s.adapter, 2 ≤ i := by
    intro i hi
    simp only [releasedSlots, mcuAs, bringupAs, List.mem_filter, Bool.and_eq_true,
      bne_iff_ne] at hi
    omega
  have hbind := drops_bindings (releasedSlots s.adapter) s.adapter
  have I1 := I.tables {i | i ∈ releasedSlots s.adapter} I.leased (drops_regs _ _)
    (AsRestart.reserved_drops _ hge I.reserved)
    (fun as has => by
      rw [Adapter.bound, hbind] at has
      rw [hbind]
      split at has
      · cases has
      · rename_i hno
        rw [if_neg hno]
        exact I.roots as has)
    (fun as has => (hbind as).trans (if_neg has))
  have I2 := I1.disables hw (releasedSlots s.adapter) fun i hi => by
    have hb : bringupAs < i := hge i hi
    simp [ownerRoot, Adapter.bound, hbind, hi, AsBinding.zero, hb.ne']
  unfold AsTranslation.mmuTeardown
  dsimp only [Kmd.withAdapter]
  generalize (releasedSlots s.adapter).foldl (disableRegs hw) _ = r at I2 ⊢
  have I3 := I2.bringup false 0 (by simp)
  cases hb : r.gpuMmuAsBound with
  | false =>
    have h0 : r.mmuScratchHeapPhys = 0 := by
      by_contra hne
      rw [I2.scratch.mp hne] at hb
      cases hb
    simp only [Bool.false_and, Bool.false_eq_true, if_false]
    rwa [← hb, ← h0]
  | true =>
    simp only [I2.regs, Bool.and_self, if_true]
    rw [disableRegs_eq I2.regs]
    exact I3.call (.disable bringupAs) rfl rfl fun _ => by simp [ownerConfig, ownerRoot, Call.slot]

/-- A teardown does not look at the address of the scratch heap. -/
theorem mmuTeardown_phys (hw : ℕ → ℕ → ℕ) (s : Kmd) (phys : Word) :
    mmuTeardown hw { s with mmuScratchHeapPhys := phys } = mmuTeardown hw s := by
  have hone : ∀ (r : Kmd) (as : ℕ), disableRegs hw { r with mmuScratchHeapPhys := phys } as =
      { disableRegs hw r as with mmuScratchHeapPhys := phys } := by
    intro r as
    unfold disableRegs
    split
    · rfl
    · rfl
  have hfold : ∀ (l : List ℕ) (r : Kmd),
      l.foldl (disableRegs hw) { r with mmuScratchHeapPhys := phys } =
        { l.foldl (disableRegs hw) r with mmuScratchHeapPhys := phys } := by
    intro l
    induction l with
    | nil => exact fun _ => rfl
    | cons j l ih =>
      intro r
      rw [List.foldl_cons, hone, ih]
      rfl
  unfold mmuTeardown
  dsimp only
  rw [show ({ s with mmuScratchHeapPhys := phys } : Kmd).withAdapter
      ((releasedSlots s.adapter).foldl AsSlots.drop s.adapter) =
    { s.withAdapter ((releasedSlots s.adapter).foldl AsSlots.drop s.adapter) with
      mmuScratchHeapPhys := phys } from rfl, hfold]
  dsimp only
  split
  · rw [hone]
  · rfl

theorem mmuInit_some (hw : ℕ → ℕ → ℕ) (s : Kmd) (rootPa : Word) {r : Kmd} {d e : NtStatus × Mmu}
    (hr : mmuTeardown hw s = r) (hregs : r.adapter.gpuRegsMapped = true)
    (hd : (Call.disable bringupAs).perform hw r.mmu = d)
    (he : (Call.enable bringupAs (rootConfig r.mmuFeatures rootPa)).perform hw d.2 = e) :
    mmuInit hw s (some rootPa) =
      if (!e.1.ok) = true
      then mmuTeardown hw { (r.called bringupAs d).called bringupAs e with
        mmuScratchHeapPhys := rootPa }
      else { (r.called bringupAs d).called bringupAs e with
        gpuMmuAsBound := true, mmuScratchHeapPhys := rootPa } := by
  have hdis : disableRegs hw { r with mmuScratchHeapPhys := rootPa } bringupAs =
      { r with mmuScratchHeapPhys := rootPa }.called bringupAs d := by
    rw [← hd]
    simp [disableRegs, hregs, Call.perform]
  have hen : enableRegs hw ({ r with mmuScratchHeapPhys := rootPa }.called bringupAs d) bringupAs
      rootPa =
        (e.1, ({ r with mmuScratchHeapPhys := rootPa }.called bringupAs d).called bringupAs e) := by
    rw [← he]
    rfl
  unfold mmuInit
  simp only [hr, hdis, hen]
  rfl

theorem Inv.enableBringup (I : Inv s ∅) {rootPa : Word} (hroot : rootPa ≠ 0)
    {d e : NtStatus × Mmu} (hd : (Call.disable bringupAs).perform hw s.mmu = d)
    (he : (Call.enable bringupAs (rootConfig s.mmuFeatures rootPa)).perform hw d.2 = e) :
    Inv (if (!e.1.ok) = true
      then AsTranslation.mmuTeardown hw { (s.called bringupAs d).called bringupAs e with
        mmuScratchHeapPhys := rootPa }
      else { (s.called bringupAs d).called bringupAs e with
        gpuMmuAsBound := true, mmuScratchHeapPhys := rootPa }) ∅ := by
  split
  · rename_i hno
    -- slot 1 is left as the failed enable has it, with no owner
    have I1 : Inv (s.called bringupAs d) (insert bringupAs ∅) := I.exempt (.disable bringupAs) hd
    have I2 := I1.call (.enable bringupAs (rootConfig s.mmuFeatures rootPa)) he rfl fun hok => by
      rw [hok] at hno
      cases hno
    rw [mmuTeardown_phys]
    exact I2.mmuTeardown
  · have I1 := I.bringup true rootPa (by simpa using hroot)
    have I2 : Inv ({ s with gpuMmuAsBound := true, mmuScratchHeapPhys := rootPa }.called bringupAs
        d) (insert bringupAs ∅) :=
      (I1.exempt (.disable bringupAs) hd).subset (by simp [Call.slot])
    refine I2.call (.enable bringupAs (rootConfig s.mmuFeatures rootPa)) he rfl fun _ => ?_
    simp [ownerConfig, ownerRoot, Call.slot, Kmd.called]

theorem Inv.mmuInit (I : Inv s ∅) {heap : Option Word} (hheap : heap ≠ some 0) :
    Inv (mmuInit hw s heap) ∅ := by
  have I0 : Inv (AsTranslation.mmuTeardown hw s) ∅ := I.mmuTeardown
  cases heap with
  | none => exact I0
  | some rootPa =>
    rw [mmuInit_some hw s rootPa rfl I0.regs rfl rfl]
    exact I0.enableBringup (fun h => hheap (by rw [h])) rfl rfl

theorem step_inv {t : Kmd} (op : Op) (hop : op.Nonzero) (I : Inv s ∅)
    (h : step hw s op = some t) : Inv t ∅ := by
  cases op with
  | vmTeardown vm => exact I.vmTeardown vm h
  | bind h' root =>
    obtain rfl := Option.some.inj h
    exact I.bindContextRootPt h' root
  | unbind h' =>
    obtain rfl := Option.some.inj h
    exact I.unbindContext h'
  | vmInit supply mem =>
    obtain rfl := Option.some.inj h
    exact I.vmInit hop mem
  | recover as =>
    obtain rfl := Option.some.inj h
    exact I.recover as
  | mmuTeardown =>
    obtain rfl := Option.some.inj h
    exact I.mmuTeardown
  | mmuInit heap =>
    obtain rfl := Option.some.inj h
    exact I.mmuInit hop

theorem start_inv (a : Adapter) (mmuFeatures : BitVec 32) : Inv (start a mmuFeatures) ∅ := by
  refine ⟨rfl, AsRestart.reserved_init _, by simp [start], ?_, by simp [start], ?_⟩
  · intro as has
    cases has
  · intro as _ _ _
    refine ⟨by simp [start, resetMmu], ?_⟩
    simp [start, resetMmu, AsBlock.live, ownerConfig, ownerRoot, initAsAllocator, Adapter.bound,
      AsBinding.zero]

end Steps

/-- Whatever the MMU does between the register accesses, a slot whose last enable or disable
succeeded translates through the root that its owner has on record, or not at all. -/
theorem slots_show_owners (hw : ℕ → ℕ → ℕ) (a : Adapter) (mmuFeatures : BitVec 32)
    (ops : List Op) (hops : ∀ op ∈ ops, op.Nonzero) (t : Kmd)
    (hrun : exec (step hw) (start a mmuFeatures) ops = some t) (as : ℕ) (has : as ≠ mcuAs)
    (hok : t.reply as = .success) :
    (t.mmu.block as).live = ownerConfig t as ∧
      walkRoot (t.mmu.block as).live = ownerRoot t as := by
  have I : Inv t ∅ := exec_invariant (fun _ op _ I hop h => step_inv op hop.1 I h)
    (start_inv a mmuFeatures) ((guarded_true (step hw) _ ops).of_labels hops) hrun
  have hlive := (I.follows as has (by simp) hok).live
  exact ⟨hlive, by rw [hlive, walkRoot_owner]⟩

/-- A start, a VM, a context on top of it, and a fault on the slot of the VM. -/
def startAndFault : List Op :=
  [.mmuInit (some 0x40000), .vmInit VmPageTableMap.eightPages (fun _ _ => 0), .bind 7 0x5000,
    .recover 2]

theorem startAndFault_shown : ∃ t,
    exec (step fun _ _ => 1) (start VmPageTableMap.freshAdapter 48) startAndFault = some t ∧
      ownerRoot t 2 = some 0x1000 ∧
      (t.mmu.block 2).live = ownerConfig t 2 ∧ walkRoot (t.mmu.block 2).live = ownerRoot t 2 := by
  have hops : ∀ op ∈ startAndFault, op.Nonzero := by
    simp only [startAndFault, List.forall_mem_cons, Op.Nonzero]
    refine ⟨by decide, ?_, trivial, trivial, by simp⟩
    intro k hk
    have := VmPageTableMap.eightPages_spec hk
    simp at this
  exact ⟨_, rfl, by decide +kernel, slots_show_owners (fun _ _ => 1) _ 48 startAndFault hops _ rfl 2
    (by decide) (by decide +kernel)⟩

/-- The slot allocator without the registers. -/
def Kmd.tables (s : Kmd) : AsSlotsInvariant.State := ⟨s.adapter, s.vms⟩

/-- The calls of the allocator and of fault recovery. -/
def Op.Allocator : Op → Prop
  | .mmuTeardown => False
  | .mmuInit _ => False
  | _ => True

/-- The slot that a bind of the context goes to. -/
def bindSlot (a : Adapter) (hContext : ℕ) : ℕ :=
  if findAsForContext a hContext < asSlotMax then findAsForContext a hContext else pickFreeAs a

/-- What the register waits make of an `AsEnable`. -/
def enableReply (hw : ℕ → ℕ → ℕ) (s : Kmd) (as : ℕ) (root : Word) : NtStatus :=
  (AsRegisters.asEnable hw as (rootConfig s.mmuFeatures root) s.mmu).1

/-- The root table that an init of a VM gets. -/
def initRoot (supply : ℕ → PtReply) (mem : Word → Fin 512 → Word) : Word :=
  (ptAllocPage supply ⟨none, [], asSlotMax, mem, 0, []⟩).1.getD 0

/-- The same call without the registers. A recovery is none of the allocator's calls. -/
def Op.answered (hw : ℕ → ℕ → ℕ) (s : Kmd) : Op → List AsSlotsInvariant.Op
  | .bind h root => [.bind h root (enableReply hw s (bindSlot s.adapter h) root)]
  | .unbind h => [.unbind h]
  | .vmInit supply mem =>
    [.vmInit supply mem (enableReply hw s (vmPickAs s.adapter).1 (initRoot supply mem))]
  | .vmTeardown vm => [.vmTeardown vm]
  | .recover _ | .mmuTeardown | .mmuInit _ => []

def answeredRun (hw : ℕ → ℕ → ℕ) : Kmd → List Op → List AsSlotsInvariant.Op
  | _, [] => []
  | s, op::ops =>
    op.answered hw s ++ (step hw s op).elim [] fun t => answeredRun hw t ops

section Refines

variable (hw : ℕ → ℕ → ℕ) (s : Kmd)

theorem tables_disableRegs (as : ℕ) : (disableRegs hw s as).tables = s.tables := by
  unfold disableRegs
  split
  · rfl
  · rfl

theorem unbind_refines (h : ℕ) : (unbindContext hw s h).tables =
    ⟨(AsSlots.unbindContext s.adapter h).2, s.vms⟩ := by
  unfold unbindContext AsSlots.unbindContext
  dsimp only
  split
  · rfl
  · have hadapter : ∀ a : Adapter, (s.withAdapter a).adapter = a := fun _ => rfl
    rw [hadapter]
    split
    · exact tables_disableRegs hw _ _
    · rfl

theorem bind_refines (h : ℕ) (root : Word) : (bindContextRootPt hw s h root).2.tables =
    ⟨(AsSlots.bindContextRootPt s.adapter h root
      (enableReply hw s (bindSlot s.adapter h) root)).2.2, s.vms⟩ := by
  unfold bindContextRootPt AsSlots.bindContextRootPt
  dsimp only
  by_cases hregs : (!s.adapter.gpuRegsMapped) = true
  · simp only [if_pos hregs]
    rfl
  simp only [if_neg hregs]
  by_cases h0 : root = 0
  · simp only [if_pos h0]
    exact unbind_refines hw s h
  simp only [if_neg h0]
  by_cases hal : root &&& 0xFFF ≠ 0
  · simp only [if_pos hal]
    rfl
  simp only [if_neg hal]
  by_cases hf : findAsForContext s.adapter h < asSlotMax
  · have hslot : bindSlot s.adapter h = findAsForContext s.adapter h := if_pos hf
    simp only [hf, decide_true, if_true, show ¬findAsForContext s.adapter h ≥ asSlotMax by omega,
      if_false, enableRegs, enableReply, hslot, AsSlots.asEnable, Kmd.withAdapter]
    split
    · rfl
    · rfl
  · have hslot : bindSlot s.adapter h = pickFreeAs s.adapter := if_neg hf
    simp only [hf, decide_false, Bool.false_eq_true, if_false]
    by_cases hp : pickFreeAs s.adapter ≥ asSlotMax
    · simp only [if_pos hp]
      rfl
    · by_cases hst : (AsRegisters.asEnable hw (pickFreeAs s.adapter)
        (rootConfig s.mmuFeatures root) s.mmu).1.ok = true
      · simp only [if_neg hp, enableRegs, enableReply, hslot, AsSlots.asEnable, Kmd.withAdapter,
          hst, Bool.not_true, Bool.false_eq_true, if_false]
        rfl
      · simp only [if_neg hp, enableRegs, enableReply, hslot, AsSlots.asEnable, Kmd.withAdapter,
          Bool.eq_false_iff.mpr hst, Bool.not_false, if_true]
        rfl

theorem vmInit_refines (supply : ℕ → PtReply) (mem : Word → Fin 512 → Word) :
    (vmInit hw s supply mem).2.tables = s.tables.afterInit (VmPageTable.vmInit supply s.adapter mem
      (enableReply hw s (vmPickAs s.adapter).1 (initRoot supply mem))) := by
  unfold vmInit VmPageTable.vmInit initRoot
  dsimp only
  by_cases hregs : (!s.adapter.gpuRegsMapped) = true
  · simp only [if_pos hregs]
    rfl
  simp only [if_neg hregs]
  rcases ptAllocPage supply ⟨none, [], asSlotMax, mem, 0, []⟩ with ⟨_ | root, pt⟩
  · rfl
  by_cases hp : (vmPickAs s.adapter).1 ≥ asSlotMax
  · simp only [if_pos hp]
    have hsame : (vmPickAs s.adapter).2 = s.adapter := by
      unfold vmPickAs at hp ⊢
      dsimp only at hp ⊢
      split
      · rename_i hlt
        rw [if_pos hlt] at hp
        omega
      · rfl
    rw [hsame]
    rfl
  · by_cases hst : (AsRegisters.asEnable hw (vmPickAs s.adapter).1
      (rootConfig s.mmuFeatures root) s.mmu).1.ok = true
    · simp only [if_neg hp, enableRegs, enableReply, Option.getD_some, AsSlots.asEnable,
        Kmd.withAdapter, hst, Bool.not_true, Bool.false_eq_true, if_false]
      rfl
    · simp only [if_neg hp, enableRegs, enableReply, Option.getD_some, AsSlots.asEnable,
        Kmd.withAdapter, Bool.eq_false_iff.mpr hst, Bool.not_false, if_true,
        AsSlotsInvariant.State.afterInit, Bool.false_eq_true, if_false]
      rfl

theorem vmTeardown_refines (vm : ℕ) {t : Kmd} (h : vmTeardown hw s vm = some t) :
    AsSlotsInvariant.step s.tables (.vmTeardown vm) = some t.tables := by
  obtain ⟨pt, hpt, rfl⟩ := Option.map_eq_some_iff.mp h
  simp only [AsSlotsInvariant.step, Kmd.tables, hpt, Option.map_some, Option.some.injEq,
    VmPageTable.vmTeardown]
  have hd : ∀ r : Kmd, (disableRegs hw r pt.asSlot).tables = r.tables :=
    fun r => tables_disableRegs hw r _
  by_cases hslot : pt.asSlot < asSlotMax
  · by_cases hregs : s.adapter.gpuRegsMapped = true
    · simp only [hslot, decide_true, hregs, Bool.and_self, if_true, Kmd.withAdapter]
      have h := hd { s with
        adapter := AsSlots.asDisable s.adapter pt.asSlot
        vms := s.vms.eraseIdx vm }
      exact congrArg (fun r : AsSlotsInvariant.State =>
        (⟨vmReleaseAs r.adapter pt.asSlot, r.vms⟩ : AsSlotsInvariant.State)) h.symm
    · simp only [hslot, decide_true, Bool.true_and, hregs, if_true, Kmd.withAdapter]
      rfl
  · simp only [hslot, decide_false, Bool.false_and, Bool.false_eq_true, if_false]

theorem recover_refines (as : ℕ) : (recoverFaultedAs hw s as).tables = s.tables := by
  unfold recoverFaultedAs
  dsimp only
  split
  · rfl
  · split
    · exact tables_disableRegs hw s as
    · exact tables_disableRegs hw s as

theorem step_refines {t : Kmd} (op : Op) (hop : op.Allocator) (h : step hw s op = some t) :
    exec AsSlotsInvariant.step s.tables (op.answered hw s) = some t.tables := by
  cases op with
  | bind h' root =>
    obtain rfl := Option.some.inj h
    rw [bind_refines]
    rfl
  | unbind h' =>
    obtain rfl := Option.some.inj h
    rw [unbind_refines]
    rfl
  | vmInit supply mem =>
    obtain rfl := Option.some.inj h
    rw [vmInit_refines]
    rfl
  | vmTeardown vm =>
    rw [Op.answered, exec, vmTeardown_refines hw s vm h]
    rfl
  | recover as =>
    obtain rfl := Option.some.inj h
    rw [recover_refines]
    rfl
  | mmuTeardown => exact absurd hop id
  | mmuInit heap => exact absurd hop id

end Refines

/-- What the allocator does over the registers, it does without them when its `AsEnable`s are
answered as the register waits end: call by call, the tables are the same. -/
theorem run_refines (hw : ℕ → ℕ → ℕ) (ops : List Op) (hops : ∀ op ∈ ops, op.Allocator)
    (s t : Kmd) (hrun : exec (step hw) s ops = some t) :
    exec AsSlotsInvariant.step s.tables (answeredRun hw s ops) = some t.tables := by
  induction ops generalizing s with
  | nil =>
    cases hrun
    rfl
  | cons op ops ih =>
    obtain ⟨u, hu, hrun⟩ := (exec_cons _ s t op ops).mp hrun
    have hfirst := step_refines hw s op (hops op (by simp)) hu
    rw [answeredRun, hu, exec_append, hfirst]
    exact ih (fun o ho => hops o (by simp [ho])) u hrun

theorem startAndBind_refines : ∃ t,
    exec (step fun _ _ => 1) (start VmPageTableMap.freshAdapter 48) [.bind 7 0x5000, .unbind 7] =
        some t ∧
      exec AsSlotsInvariant.step (start VmPageTableMap.freshAdapter 48).tables
        [.bind 7 0x5000 .success, .unbind 7] = some t.tables := by
  have hops : ∀ op ∈ [Op.bind 7 0x5000, .unbind 7], op.Allocator := by
    simp [Op.Allocator]
  have hreply : enableReply (fun _ _ => 1) (start VmPageTableMap.freshAdapter 48)
      (bindSlot (start VmPageTableMap.freshAdapter 48).adapter 7) 0x5000 = .success := by
    decide +kernel
  have h := run_refines (fun _ _ => 1) _ hops (start VmPageTableMap.freshAdapter 48) _ rfl
  rw [answeredRun, Op.answered, hreply] at h
  exact ⟨_, rfl, h⟩

/-! ## The start without the registers -/

section Start

variable (hw : ℕ → ℕ → ℕ)

/-- The log is all that tells two adapters apart. -/
def SameTables (a b : Adapter) : Prop := ∃ log, b = { a with asLog := log }

theorem SameTables.asDisable {a b : Adapter} (h : SameTables a b) (as : ℕ) :
    SameTables a (AsSlots.asDisable b as) := by
  obtain ⟨log, rfl⟩ := h
  unfold AsSlots.asDisable
  split
  · exact ⟨_, rfl⟩
  · exact ⟨log, rfl⟩

theorem SameTables.drop {a b : Adapter} (h : SameTables a b) (as : ℕ) :
    SameTables (AsSlots.drop a as) (AsSlots.drop b as) := by
  obtain ⟨log, rfl⟩ := h
  exact ⟨.release as :: log, rfl⟩

theorem SameTables.dropAll {a b : Adapter} (h : SameTables a b) (l : List ℕ) :
    SameTables (l.foldl AsSlots.drop a) (l.foldl AsSlots.drop b) := by
  induction l generalizing a b with
  | nil => exact h
  | cons as l ih => exact ih (h.drop as)

theorem SameTables.disableAll {a b : Adapter} (h : SameTables a b) (l : List ℕ) :
    SameTables a (l.foldl AsSlots.asDisable b) := by
  induction l generalizing b with
  | nil => exact h
  | cons as l ih => exact ih (h.asDisable as)

theorem disableRegs_adapter (s : Kmd) (as : ℕ) : (disableRegs hw s as).adapter = s.adapter := by
  unfold disableRegs
  split
  · rfl
  · rfl

theorem disableAll_adapter (l : List ℕ) (s : Kmd) :
    (l.foldl (disableRegs hw) s).adapter = s.adapter := by
  induction l generalizing s with
  | nil => rfl
  | cons as l ih => exact (ih _).trans (disableRegs_adapter hw s as)

/-- The teardown of `AsRestart` without the registers. -/
theorem mmuTeardown_refines (s : Kmd) {d : AsRestart.Device}
    (h : SameTables s.adapter d.adapter) :
    SameTables (mmuTeardown hw s).adapter (AsRestart.mmuTeardown d).adapter := by
  have hreleased : releasedSlots d.adapter = releasedSlots s.adapter := by
    obtain ⟨log, hlog⟩ := h
    rw [hlog]
    rfl
  have hadapter : (mmuTeardown hw s).adapter =
      (releasedSlots s.adapter).foldl AsSlots.drop s.adapter := by
    unfold mmuTeardown
    dsimp only
    split
    · rw [disableRegs_adapter, disableAll_adapter]
      rfl
    · rw [disableAll_adapter]
      rfl
  have hdrop := h.dropAll (releasedSlots s.adapter)
  rw [hadapter]
  unfold AsRestart.mmuTeardown
  rw [hreleased]
  dsimp only
  split
  · split
    · exact (hdrop.disableAll _).asDisable _
    · exact hdrop.disableAll _
  · split
    · exact hdrop.asDisable _
    · exact hdrop

/-- A start as it comes to its `AsEnable`. -/
def wired (s : Kmd) (root : Word) : Kmd :=
  disableRegs hw { mmuTeardown hw s with mmuScratchHeapPhys := root } bringupAs

theorem mmuInit_wired (s : Kmd) (root : Word) : mmuInit hw s (some root) =
    if (!(enableReply hw (wired hw s root) bringupAs root).ok) = true
      then mmuTeardown hw (enableRegs hw (wired hw s root) bringupAs root).2
      else { (enableRegs hw (wired hw s root) bringupAs root).2 with gpuMmuAsBound := true } := rfl

/-- The start of `AsRestart` is the one over the registers when it is answered as these wait. -/
theorem mmuInit_refines (s : Kmd) (heap : Option Word) {d : AsRestart.Device}
    (h : SameTables s.adapter d.adapter) (r : AsRestart.StartReply)
    (hheap : r.heap = heap.isSome)
    (hhw : ∀ root ∈ heap, r.hw = enableReply hw (wired hw s root) bringupAs root) :
    SameTables (mmuInit hw s heap).adapter (AsRestart.mmuInit d r).adapter ∧
      (AsRestart.mmuInit d r).mmuAsBound = (mmuInit hw s heap).gpuMmuAsBound := by
  have hdown := mmuTeardown_refines hw s h
  unfold AsRestart.mmuInit
  cases heap with
  | none =>
    rw [hheap]
    exact ⟨hdown, rfl⟩
  | some root =>
    have hset : SameTables (enableRegs hw (wired hw s root) bringupAs root).2.adapter
        ((AsSlots.asDisable (AsRestart.mmuTeardown d).adapter bringupAs).log
          (.enable bringupAs r.rootPa)) := by
      change SameTables (wired hw s root).adapter _
      rw [wired, disableRegs_adapter]
      obtain ⟨log, hlog⟩ := hdown.asDisable bringupAs
      rw [hlog]
      exact ⟨_, rfl⟩
    rw [hheap, mmuInit_wired]
    simp only [Option.isSome_some, Bool.not_true, Bool.false_eq_true, if_false, AsSlots.asEnable,
      hhw root rfl]
    split
    · exact ⟨mmuTeardown_refines hw _ hset, rfl⟩
    · exact ⟨hset, rfl⟩

end Start

end WinMali.AsTranslation
