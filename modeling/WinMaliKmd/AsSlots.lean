import Mathlib.Logic.Function.Basic
import Mathlib.Data.List.Range
import WinMaliKmd.Lpae
import WinMaliKmd.SlotMask

/-!
# Address-space slots

The slot allocator of `WinMaliMmu.c`: the bit masks of present and used slots,
the context binding table, and the two kinds of callers that share them. The
hardware step of `WinMaliMmuAsEnable` is a reply that may be a failure.
-/

set_option autoImplicit false

namespace WinMali.AsSlots
open WinMali.SlotMask

def asSlotMax : ℕ := 16

def mcuAs : ℕ := 0

def bringupAs : ℕ := 1

structure AsBinding where
  hContext : ℕ
  rootPtPa : Word
  bound : Bool
deriving DecidableEq, Repr

def AsBinding.zero : AsBinding := ⟨0, 0, false⟩

/-- What reaches a slot from outside the tables; the log is never read by the driver. -/
inductive AsEvent
  | enable (slot : ℕ) (root : Word)
  | disable (slot : ℕ)
  | release (slot : ℕ)
  | reset
deriving DecidableEq, Repr

structure Adapter where
  hwAsPresent : Mask
  gpuRegsMapped : Bool
  asSlotPresentMask : Mask
  asSlotInUseMask : Mask
  asBindings : ℕ → AsBinding
  asLog : List AsEvent

namespace Adapter

def setBinding (a : Adapter) (i : ℕ) (b : AsBinding) : Adapter :=
  { a with asBindings := Function.update a.asBindings i b }

def take (a : Adapter) (i : ℕ) : Adapter :=
  { a with asSlotInUseMask := setBit a.asSlotInUseMask i }

def release (a : Adapter) (i : ℕ) : Adapter :=
  { a with asSlotInUseMask := clearBit a.asSlotInUseMask i, asLog := .release i :: a.asLog }

def log (a : Adapter) (e : AsEvent) : Adapter := { a with asLog := e :: a.asLog }

def inUse (a : Adapter) (i : ℕ) : Bool := hasBit a.asSlotInUseMask i

def present (a : Adapter) (i : ℕ) : Bool := hasBit a.asSlotPresentMask i

def bound (a : Adapter) (i : ℕ) : Bool := (a.asBindings i).bound

end Adapter

def initAsAllocator (a : Adapter) : Adapter :=
  let fixed := setBit (setBit 0 mcuAs) bringupAs
  let present := if a.hwAsPresent ≠ 0 then a.hwAsPresent else 0xFF
  { a with
    asSlotPresentMask := if present &&& fixed ≠ fixed then present ||| fixed else present
    asSlotInUseMask := fixed
    asBindings := fun _ => .zero
    asLog := .reset :: a.asLog }

/-- The slot loops: the first slot that meets `p`, else `asSlotMax`. -/
def firstSlot (p : ℕ → Bool) : ℕ := ((List.range asSlotMax).find? p).getD asSlotMax

def findAsForContext (a : Adapter) (hContext : ℕ) : ℕ :=
  firstSlot fun i => (a.asBindings i).bound && (a.asBindings i).hContext == hContext

def pickFreeAs (a : Adapter) : ℕ := firstSlot fun i => a.present i && !a.inUse i

def asEnable (a : Adapter) (slot : ℕ) (root : Word) (hw : NtStatus) : NtStatus × Adapter :=
  (hw, a.log (.enable slot root))

/-- No caller looks at the status. -/
def asDisable (a : Adapter) (slot : ℕ) : Adapter :=
  if a.gpuRegsMapped then a.log (.disable slot) else a

def unbindContext (a : Adapter) (hContext : ℕ) : NtStatus × Adapter :=
  let as := findAsForContext a hContext
  if as ≥ asSlotMax then (.success, a)
  else
    let a := (a.setBinding as .zero).release as
    (.success, if a.gpuRegsMapped then asDisable a as else a)

def bindContextRootPt (a : Adapter) (hContext : ℕ) (rootPtPa : Word) (hw : NtStatus) :
    NtStatus × ℕ × Adapter :=
  if !a.gpuRegsMapped then (.deviceNotReady, asSlotMax, a)
  else if rootPtPa = 0 then
    ((unbindContext a hContext).1, asSlotMax, (unbindContext a hContext).2)
  else if rootPtPa &&& 0xFFF ≠ 0 then (.invalidParameter, asSlotMax, a)
  else
    let found := findAsForContext a hContext
    let reused := decide (found < asSlotMax)
    let as := if reused then found else pickFreeAs a
    if as ≥ asSlotMax then (.insufficientResources, asSlotMax, a)
    else
      let a := if reused then a else a.take as
      let a := a.setBinding as ⟨hContext, rootPtPa, true⟩
      let (status, a) := asEnable a as rootPtPa hw
      if !status.ok then
        let a := a.setBinding as .zero
        (status, asSlotMax, if reused then a else a.release as)
      else (.success, as, a)

def vmPickAs (a : Adapter) : ℕ × Adapter :=
  let as := pickFreeAs a
  if as < asSlotMax then (as, (a.take as).setBinding as ⟨0, 0, true⟩) else (as, a)

def vmReleaseAs (a : Adapter) (as : ℕ) : Adapter :=
  if as ≥ asSlotMax then a else (a.setBinding as .zero).release as

theorem firstSlot_spec (p : ℕ → Bool) (h : firstSlot p < asSlotMax) :
    p (firstSlot p) = true := by
  unfold firstSlot at h ⊢
  cases hf : (List.range asSlotMax).find? p with
  | none => simp [hf] at h
  | some i => simpa using List.find?_some hf

theorem firstSlot_none (p : ℕ → Bool) (h : ¬firstSlot p < asSlotMax) (i : ℕ)
    (hi : i < asSlotMax) : p i = false := by
  unfold firstSlot at h
  cases hf : (List.range asSlotMax).find? p with
  | none =>
    have := List.find?_eq_none.mp hf i (List.mem_range.mpr hi)
    simpa using this
  | some k =>
    have := List.mem_range.mp (List.mem_of_find?_eq_some hf)
    simp [hf] at h
    omega

/-- A slot leaves the tables: entry cleared, bit cleared. -/
def drop (a : Adapter) (i : ℕ) : Adapter := (a.setBinding i .zero).release i

/-- A context enters the tables in a slot whose bit is set. -/
def enter (a : Adapter) (i hContext : ℕ) (rootPtPa : Word) : Adapter :=
  (a.setBinding i ⟨hContext, rootPtPa, true⟩).log (.enable i rootPtPa)

theorem unbind_cases (a : Adapter) (h : ℕ) :
    ¬findAsForContext a h < asSlotMax ∧ (unbindContext a h).2 = a ∨
      findAsForContext a h < asSlotMax ∧
        ((unbindContext a h).2 = drop a (findAsForContext a h) ∨
          (unbindContext a h).2 = (drop a (findAsForContext a h)).log
            (.disable (findAsForContext a h))) := by
  by_cases hf : findAsForContext a h < asSlotMax
  · refine .inr ⟨hf, ?_⟩
    cases hr : a.gpuRegsMapped with
    | false =>
      left
      simp [unbindContext, show ¬findAsForContext a h ≥ asSlotMax by omega, drop,
        Adapter.setBinding, Adapter.release, hr]
    | true =>
      right
      simp [unbindContext, show ¬findAsForContext a h ≥ asSlotMax by omega, drop, asDisable,
        Adapter.setBinding, Adapter.release, hr]
  · exact .inl ⟨hf, by simp [unbindContext, show findAsForContext a h ≥ asSlotMax by omega]⟩

/-- What `bindContextRootPt` can do to the tables. -/
inductive BindOutcome (a : Adapter) (h : ℕ) (root : Word) (hw : NtStatus) : Adapter → Prop
  | refused (why : a.gpuRegsMapped = false ∨ root ≠ 0 ∧ (root &&& 0xFFF ≠ 0 ∨
      ¬findAsForContext a h < asSlotMax)) : BindOutcome a h root hw a
  | unbound (regs : a.gpuRegsMapped = true) (zero : root = 0) :
    BindOutcome a h root hw (unbindContext a h).2
  | rebound (regs : a.gpuRegsMapped = true) (nonzero : root ≠ 0) (aligned : root &&& 0xFFF = 0)
    (found : findAsForContext a h < asSlotMax) (ok : hw = .success) :
    BindOutcome a h root hw (enter a (findAsForContext a h) h root)
  | rebindFailed (regs : a.gpuRegsMapped = true) (nonzero : root ≠ 0)
    (aligned : root &&& 0xFFF = 0) (found : findAsForContext a h < asSlotMax)
    (failed : hw ≠ .success) :
    BindOutcome a h root hw ((enter a (findAsForContext a h) h root).setBinding
      (findAsForContext a h) .zero)
  | bound (fresh : ¬findAsForContext a h < asSlotMax) (free : pickFreeAs a < asSlotMax)
    (ok : hw = .success) :
    BindOutcome a h root hw (enter (a.take (pickFreeAs a)) (pickFreeAs a) h root)
  | bindFailed (fresh : ¬findAsForContext a h < asSlotMax) (free : pickFreeAs a < asSlotMax) :
    BindOutcome a h root hw
      (drop (enter (a.take (pickFreeAs a)) (pickFreeAs a) h root) (pickFreeAs a))

theorem bind_cases (a : Adapter) (h : ℕ) (root : Word) (hw : NtStatus) :
    BindOutcome a h root hw (bindContextRootPt a h root hw).2.2 := by
  unfold bindContextRootPt
  cases hr : a.gpuRegsMapped with
  | false => exact .refused (.inl hr)
  | true =>
    simp only [Bool.not_true, Bool.false_eq_true, if_false]
    by_cases h0 : root = 0
    · simp only [if_pos h0]
      exact .unbound hr h0
    by_cases hal : root &&& 0xFFF ≠ 0
    · simp only [if_neg h0, if_pos hal]
      exact .refused (.inr ⟨h0, .inl hal⟩)
    simp only [if_neg h0, if_neg hal]
    by_cases hf : findAsForContext a h < asSlotMax
    · simp only [hf, decide_true, if_true, show ¬findAsForContext a h ≥ asSlotMax by omega,
        if_false]
      cases hok : hw.ok with
      | true =>
        simp only [asEnable, hok, Bool.not_true, Bool.false_eq_true, if_false]
        exact .rebound hr h0 (not_not.mp hal) hf (hw.ok_iff.mp hok)
      | false =>
        simp only [asEnable, hok, Bool.not_false, if_true]
        exact .rebindFailed hr h0 (not_not.mp hal) hf (fun h => by simp [h] at hok)
    · simp only [hf, decide_false, Bool.false_eq_true, if_false]
      by_cases hp : pickFreeAs a < asSlotMax
      · simp only [show ¬pickFreeAs a ≥ asSlotMax by omega, if_false]
        cases hok : hw.ok with
        | true =>
          simp only [asEnable, hok, Bool.not_true, Bool.false_eq_true, if_false]
          exact .bound hf hp (hw.ok_iff.mp hok)
        | false =>
          simp only [asEnable, hok, Bool.not_false, if_true]
          exact .bindFailed hf hp
      · simp only [show pickFreeAs a ≥ asSlotMax by omega, if_true]
        exact .refused (.inr ⟨h0, .inr hf⟩)

section Tables

variable (a : Adapter) (i j : ℕ)

@[simp] theorem bound_setBinding (b : AsBinding) :
    (a.setBinding i b).bound j = if j = i then b.bound else a.bound j := by
  by_cases h : j = i
  · simp [Adapter.bound, Adapter.setBinding, h]
  · simp [Adapter.bound, Adapter.setBinding, h]

@[simp] theorem inUse_setBinding (b : AsBinding) : (a.setBinding i b).inUse j = a.inUse j := rfl

@[simp] theorem present_setBinding (b : AsBinding) :
    (a.setBinding i b).present j = a.present j := rfl

@[simp] theorem bound_take : (a.take i).bound j = a.bound j := rfl

@[simp] theorem present_take : (a.take i).present j = a.present j := rfl

@[simp] theorem bound_log (e : AsEvent) : (a.log e).bound j = a.bound j := rfl

@[simp] theorem inUse_log (e : AsEvent) : (a.log e).inUse j = a.inUse j := rfl

@[simp] theorem present_log (e : AsEvent) : (a.log e).present j = a.present j := rfl

@[simp] theorem bound_drop : (drop a i).bound j = if j = i then false else a.bound j :=
  bound_setBinding a i j .zero

@[simp] theorem present_drop : (drop a i).present j = a.present j := rfl

theorem inUse_take (hj : j < 32) : (a.take i).inUse j = (a.inUse j || decide (i = j)) :=
  hasBit_setBit a.asSlotInUseMask i j hj

theorem inUse_drop (hj : j < 32) : (drop a i).inUse j = (a.inUse j && !decide (i = j)) :=
  hasBit_clearBit a.asSlotInUseMask i j hj

@[simp] theorem bound_enter (h : ℕ) (root : Word) :
    (enter a i h root).bound j = if j = i then true else a.bound j :=
  bound_setBinding a i j ⟨h, root, true⟩

@[simp] theorem inUse_enter (h : ℕ) (root : Word) : (enter a i h root).inUse j = a.inUse j := rfl

@[simp] theorem present_enter (h : ℕ) (root : Word) :
    (enter a i h root).present j = a.present j := rfl

theorem find_bound (h : ℕ) (hf : findAsForContext a h < asSlotMax) :
    a.bound (findAsForContext a h) = true := by
  have := firstSlot_spec _ hf
  simp only [Bool.and_eq_true] at this
  exact this.1

theorem pick_free (hf : pickFreeAs a < asSlotMax) :
    a.present (pickFreeAs a) = true ∧ a.inUse (pickFreeAs a) = false := by
  have := firstSlot_spec _ hf
  simpa [pickFreeAs] using this

end Tables

theorem init_inUse (a : Adapter) (i : ℕ) (hi : i < 32) :
    (initAsAllocator a).inUse i = (decide (0 = i) || decide (1 = i)) := by
  change hasBit (setBit (setBit 0 mcuAs) bringupAs) i = _
  rw [hasBit_setBit _ _ _ hi, hasBit_setBit _ _ _ hi, hasBit_zero, Bool.false_or]
  rfl

theorem init_present (a : Adapter) (i : ℕ) (hi : i < 32)
    (h : (initAsAllocator a).inUse i = true) : (initAsAllocator a).present i = true := by
  change hasBit (setBit (setBit 0 mcuAs) bringupAs) i = true at h
  simp only [initAsAllocator, Adapter.present]
  generalize setBit (setBit 0 mcuAs) bringupAs = fixed at h ⊢
  generalize (if a.hwAsPresent ≠ 0 then a.hwAsPresent else 0xFF) = p
  by_cases hfix : p &&& fixed = fixed
  · simpa [hfix] using hasBit_of_and_eq hfix i hi h
  · simp [hfix, hasBit_or _ _ _ hi, h]

end WinMali.AsSlots
