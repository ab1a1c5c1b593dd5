import WinMaliKmd.ApertureRoots
import WinMaliKmd.McuPageTableMap

/-!
# The buffers of the kernel queue

`WinMaliCsfBootstrap_` allocates six buffers and maps three of them into the address space
of the driver, and three into the microcontroller's. What it undoes when a step fails is one
list of actions, which the labels enter at different places. A free is kept with the page
tables that the hardware walks at that moment.
-/

set_option autoImplicit false

namespace WinMali.CsfBuffers
open WinMali.Lpae WinMali.VmTable WinMali.FirmwareImage WinMali.McuPageTable
open WinMali.VmPageTable (pageVa pageOf)
open WinMali.ApertureRoots hiding step State Op

inductive GpuBuffer
  | ring
  | sync
  | shader
deriving DecidableEq

inductive McuBuffer
  | queueIface
  | suspend
  | protm
deriving DecidableEq

/-- The pointers of the firmware context that own memory. -/
inductive Holder
  | gpu (k : GpuBuffer)
  | mcu (k : McuBuffer)
  | backing (i : ℕ)
  | ptPool
deriving DecidableEq

/-- The holders whose pages are mapped for the microcontroller. -/
def Holder.ForMcu : Holder → Prop
  | .mcu _ => True
  | .backing _ => True
  | _ => False

structure Block where
  pa : Word
  pages : ℕ

/-- What the hardware walks: the tables of the address spaces that are enabled. -/
structure Tables where
  as0 : Option FwPt
  as1 : Option ApertureRoots.State

/-- `csfIfaceValid` stands for the interface pointers too, which are set with it. `as0` says
that the hardware translates in the microcontroller's slot. -/
structure Csf where
  gpu : ApertureRoots.State
  pt : FwPt
  as0 : Bool
  gpuRegsMapped : Bool
  fwMcuAsBound : Bool
  csfIfaceValid : Bool
  suspendSize : Ulong
  protmSuspendSize : Ulong
  blocks : Holder → Option Block
  sectionCount : ℕ
  mcuVa : McuBuffer → Word
  csfBootValid : Bool
  booted : Bool
  fwCtx : Bool
  frees : List (Block × Tables)

def GpuBuffer.va : GpuBuffer → Word
  | .ring => csfRingGpuVa
  | .sync => csfSyncGpuVa
  | .shader => csfShaderGpuVa

def GpuBuffer.pages : GpuBuffer → ℕ
  | .ring => csfRingBytes / 4096
  | .sync => 1
  | .shader => 1

def GpuBuffer.attrs : GpuBuffer → Word
  | .ring => pageAttrRwNx
  | .sync => pageAttrRwNx
  | .shader => pageAttrRwEx

/-- `SuspendSize` and `ProtmSuspendSize` are rounded up, and 0 stands for one page. -/
def suspendBytes (size : Ulong) : Word :=
  let bytes := if size = 0 then 4096 else size.setWidth 64
  (bytes + 4095) &&& ~~~4095

def Csf.mcuBytes (s : Csf) : McuBuffer → Word
  | .queueIface => 8 * 1024
  | .suspend => suspendBytes s.suspendSize
  | .protm => suspendBytes s.protmSuspendSize

def Csf.tables (s : Csf) : Tables where
  as0 := if s.as0 then some s.pt else none
  as1 := if s.gpu.gpuMmuAsBound then some s.gpu else none

/-- `MmFreeContiguousMemory`, when the pointer is not null. -/
def Csf.free (s : Csf) (h : Holder) : Csf :=
  match s.blocks h with
  | none => s
  | some b =>
    { s with blocks := Function.update s.blocks h none, frees := (b, s.tables) :: s.frees }

/-- An action of an error path, or of the teardown. -/
inductive Undo
  | unmap (k : GpuBuffer)
  | free (h : Holder)
deriving DecidableEq

def Undo.apply (s : Csf) : Undo → Csf
  | .unmap k => { s with gpu := (unmapGpuRange s.gpu k.va k.pages).2 }
  | .free h => s.free h

def undo (us : List Undo) (s : Csf) : Csf := us.foldl Undo.apply s

def errRing : List Undo := [.free (.gpu .ring)]

def errRingUnmap : List Undo := .unmap .ring :: errRing

def errQifUnmap : List Undo := .free (.mcu .queueIface) :: errRingUnmap

def errSync : List Undo := .free (.gpu .sync) :: errQifUnmap

def errSyncUnmap : List Undo := .unmap .sync :: errSync

def errFreeSusp : List Undo := .free (.mcu .suspend) :: errSyncUnmap

def errFreeProtm : List Undo := .free (.mcu .protm) :: errFreeSusp

def errShader : List Undo := .free (.gpu .shader) :: errFreeProtm

def errShaderUnmap : List Undo := .unmap .shader :: errShader

/-- What the memory manager grants, and the outcome of `WinMaliCsfProgramAndStartCsg_`. -/
structure Env where
  alloc : Holder → Option Word
  start : NtStatus

def Csf.pagesOf (s : Csf) : Holder → ℕ
  | .gpu k => k.pages
  | .mcu k => (s.mcuBytes k).toNat / 4096
  | _ => 0

def granted (s : Csf) (env : Env) (h : Holder) : Option Block :=
  (env.alloc h).map fun pa => ⟨pa, s.pagesOf h⟩

def allocate (env : Env) (h : Holder) (s : Csf) : NtStatus × Csf :=
  (if (env.alloc h).isSome then .success else .insufficientResources,
    { s with blocks := Function.update s.blocks h (granted s env h) })

def mapGpu (k : GpuBuffer) (s : Csf) : NtStatus × Csf :=
  match s.blocks (.gpu k) with
  | none => (.invalidParameter, s)
  | some b =>
    let (status, gpu) := mapGpuRange s.gpu k.va b.pa k.pages k.attrs
    (status, { s with gpu := gpu })

def mcuCall (s : Csf) (k : McuBuffer) (pa : Word) : MapCall :=
  ⟨true, pa, s.mcuBytes k, 4096, pageAttrRwNx⟩

def mapMcu (k : McuBuffer) (s : Csf) : NtStatus × Csf :=
  match s.blocks (.mcu k) with
  | none => (.invalidParameter, s)
  | some b =>
    let (status, va, pt) := mcuMapContiguous s.pt (mcuCall s k b.pa)
    (status, { s with
      pt := pt
      mcuVa := if status.ok then Function.update s.mcuVa k va else s.mcuVa })

/-- `if (!NT_SUCCESS(status)) goto err`, and the code behind it. -/
def attempt (op : Csf → NtStatus × Csf) (err : List Undo) (rest : Csf → NtStatus × Csf)
    (s : Csf) : NtStatus × Csf :=
  match op s with
  | (.success, s) => rest s
  | (status, s) => (status, undo err s)

/-- The bootstrap behind the queue interface. -/
def bootRest (env : Env) : Csf → NtStatus × Csf :=
  attempt (allocate env (.gpu .sync)) errQifUnmap <|
  attempt (mapGpu .sync) errSync <|
  attempt (allocate env (.mcu .suspend)) errSyncUnmap <|
  attempt (mapMcu .suspend) errFreeSusp <|
  attempt (allocate env (.mcu .protm)) errFreeSusp <|
  attempt (mapMcu .protm) errFreeProtm <|
  attempt (allocate env (.gpu .shader)) errFreeProtm <|
  attempt (mapGpu .shader) errShader <|
  attempt (fun s => (env.start, s)) errShaderUnmap <|
  fun s => (.success, { s with csfBootValid := true })

def bootSteps (env : Env) : Csf → NtStatus × Csf :=
  attempt (allocate env (.gpu .ring)) [] <|
  attempt (mapGpu .ring) errRing <|
  attempt (allocate env (.mcu .queueIface)) errRingUnmap <|
  attempt (mapMcu .queueIface) errQifUnmap <|
  bootRest env

def bootstrap (env : Env) (s : Csf) : NtStatus × Csf :=
  if !s.csfIfaceValid then (.deviceNotReady, s)
  else if !s.gpu.gpuMmuAsBound then (.deviceNotReady, s)
  else bootSteps env s

def csfTeardownActions : List Undo :=
  [.unmap .ring, .unmap .sync, .unmap .shader, .free (.gpu .ring), .free (.mcu .queueIface),
    .free (.gpu .sync), .free (.mcu .suspend), .free (.mcu .protm), .free (.gpu .shader)]

def csfTeardown (s : Csf) : Csf := { undo csfTeardownActions s with csfBootValid := false }

/-- `taken` says that the hardware takes the update; nobody looks at the status. -/
def asDisableMcu (taken : Bool) (s : Csf) : Csf :=
  if s.gpuRegsMapped then { s with as0 := s.as0 && !taken } else s

def releaseActions (s : Csf) : List Undo :=
  (List.range s.sectionCount).map (fun i => .free (.backing i)) ++ [.free .ptPool]

def releaseResources (s : Csf) : Csf := undo (releaseActions s) s

def fwTeardown (taken : Bool) (s : Csf) : Csf :=
  let s := csfTeardown s
  let s := if s.fwMcuAsBound then { asDisableMcu taken s with fwMcuAsBound := false } else s
  releaseResources { s with fwCtx := false }

inductive Op
  | bootstrap (env : Env)
  | submit
  | csfTeardown
  | fwTeardown (taken : Bool)

/-- `FwInit` bootstraps a context once. A submit neither allocates, maps nor frees; it writes
to the buffers, and may switch a user's slot. -/
def step (s : Csf) : Op → Option Csf
  | .bootstrap env =>
    if s.fwCtx && !s.booted then some { (bootstrap env s).2 with booted := true } else none
  | .submit => some s
  | .csfTeardown => if s.fwCtx then some (csfTeardown s) else none
  | .fwTeardown taken => some (if s.fwCtx then fwTeardown taken s else s)

/-- `f` is the address of one of the block's pages. -/
def Block.Holds (b : Block) (f : Word) : Prop :=
  b.pa.toNat ≤ f.toNat ∧ f.toNat < b.pa.toNat + 4096 * b.pages

instance (b : Block) (f : Word) : Decidable (b.Holds f) := inferInstanceAs (Decidable (_ ∧ _))

def Block.Apart (b b' : Block) : Prop := ∀ f, ¬(b.Holds f ∧ b'.Holds f)

/-- A valid leaf of the microcontroller's table maps a page of the block. -/
def McuMaps (pt : FwPt) (b : Block) : Prop := ∃ va x, mcuWalk pt va = some x ∧ b.Holds x.1

def GpuMaps (g : ApertureRoots.State) (b : Block) : Prop :=
  ∃ va x, translation g va = some x ∧ b.Holds x.1

def Tables.Maps (t : Tables) (b : Block) : Prop :=
  (∃ pt ∈ t.as0, McuMaps pt b) ∨ ∃ g ∈ t.as1, GpuMaps g b

/-- No page was freed that the hardware could still get to. -/
def FreesUnmapped (s : Csf) : Prop := ∀ fr ∈ s.frees, ¬fr.2.Maps fr.1

section Windows

variable {g : ApertureRoots.State}

/-- The place of a buffer's first page in the table of the test window. -/
def GpuBuffer.first : GpuBuffer → ℕ
  | .ring => 16
  | .sync => 33
  | .shader => 32

def GpuBuffer.Window (k : GpuBuffer) (va : Word) : Prop :=
  k.va.toNat ≤ va.toNat ∧ va.toNat < k.va.toNat + 4096 * k.pages

instance (k : GpuBuffer) (va : Word) : Decidable (k.Window va) :=
  inferInstanceAs (Decidable (_ ∧ _))

theorem va_toNat (k : GpuBuffer) : k.va.toNat = 0x400000 + 4096 * k.first := by
  cases k <;> rfl

theorem pages_le (k : GpuBuffer) : k.first + k.pages ≤ 34 ∧ 0 < k.pages := by
  cases k <;> decide

theorem windows_apart {k k' : GpuBuffer} {va : Word} (h : k.Window va) (h' : k'.Window va) :
    k = k' := by
  unfold GpuBuffer.Window at h h'
  rw [va_toNat] at h h'
  cases k <;> cases k' <;> simp only [GpuBuffer.first, GpuBuffer.pages, csfRingBytes] at h h' <;>
    first
    | rfl
    | omega

theorem resolve_test {va : Word} {j : ℕ} : resolveL3Slot g va = some (.test j) ↔
    0x400000 ≤ va.toNat ∧ va.toNat < 0x600000 ∧ (va.toNat - 0x400000) / 4096 = j := by
  rw [resolve_pages]
  split
  case isTrue h =>
    rw [Option.some.injEq, Slot.test.injEq]
    omega
  case isFalse h =>
    refine iff_of_false ?_ (by omega)
    split <;> simp

theorem resolve_page (k : GpuBuffer) {i : ℕ} (hi : i < k.pages) :
    resolveL3Slot g (pageVa k.va i) = some (.test (k.first + i)) := by
  have hbound := pages_le k
  have hva : (pageVa k.va i).toNat = 0x400000 + 4096 * (k.first + i) := by
    rw [pageVa_toNat, va_toNat]
    omega
  exact resolve_test.mpr ⟨by omega, by omega, by omega⟩

theorem resolve_window (k : GpuBuffer) {va : Word} {j : ℕ}
    (h : resolveL3Slot g va = some (.test j)) :
    k.Window va ↔ k.first ≤ j ∧ j < k.first + k.pages := by
  obtain ⟨hlo, hhi, hj⟩ := resolve_test.mp h
  unfold GpuBuffer.Window
  rw [va_toNat]
  omega

/-- The table with the entries of a buffer's pages replaced. -/
def filled (g : ApertureRoots.State) (k : GpuBuffer) (i left : ℕ) (pte : ℕ → Word) :
    ApertureRoots.State :=
  { g with ptes := fun
      | .test j => if k.first + i ≤ j ∧ j < k.first + i + left then pte (j - k.first)
          else g.ptes (.test j)
      | .aperture t e => g.ptes (.aperture t e) }

theorem setPtesLoop_filled (k : GpuBuffer) (pte : ℕ → Word) {i left : ℕ}
    (h : i + left ≤ k.pages) :
    setPtesLoop k.va pte i left g = (.success, filled g k i left pte) := by
  induction left generalizing g i with
  | zero =>
    have hsame : filled g k i 0 pte = g := by
      have hptes : (filled g k i 0 pte).ptes = g.ptes := by
        funext slot
        cases slot with
        | test j => exact if_neg (by omega)
        | aperture t e => rfl
      exact congrArg (fun ptes => { g with ptes := ptes }) hptes
    rw [setPtesLoop, hsame]
  | succ left ih =>
    rw [setPtesLoop, resolve_page k (by omega)]
    dsimp only
    rw [ih (by omega)]
    refine congrArg (fun ptes => (NtStatus.success, { g with ptes := ptes })) ?_
    funext slot
    cases slot with
    | aperture t e =>
      have hne : Slot.aperture t e ≠ .test (k.first + i) := by simp
      exact Function.update_of_ne hne (pte i) g.ptes
    | test j =>
      by_cases hj : j = k.first + i
      · subst hj
        dsimp only
        rw [if_neg (by omega), if_pos (by omega), Function.update_self, Nat.add_sub_cancel_left]
      · have hne : Slot.test j ≠ .test (k.first + i) := by simpa using hj
        dsimp only
        rw [Function.update_of_ne hne]
        by_cases hin : k.first + (i + 1) ≤ j ∧ j < k.first + (i + 1) + left
        · rw [if_pos hin, if_pos (by omega)]
        · rw [if_neg hin, if_neg (by omega)]

theorem translation_filled (k : GpuBuffer) (pte : ℕ → Word) (va : Word) :
    translation (filled g k 0 k.pages pte) va =
      if k.Window va then leafOf (pte ((va.toNat - k.va.toNat) / 4096)) else translation g va := by
  have hresolve : resolveL3Slot (filled g k 0 k.pages pte) va = resolveL3Slot g va := rfl
  unfold translation
  rw [hresolve]
  by_cases hw : k.Window va
  · have hva := va_toNat k
    have hbound := pages_le k
    have hin : 0x400000 ≤ va.toNat ∧ va.toNat < 0x600000 := by
      unfold GpuBuffer.Window at hw
      omega
    have hs : resolveL3Slot g va = some (.test ((va.toNat - 0x400000) / 4096)) :=
      resolve_test.mpr ⟨hin.1, hin.2, rfl⟩
    have hj := (resolve_window k hs).mp hw
    rw [hs, if_pos hw]
    change leafOf (if _ then _ else _) = _
    rw [if_pos (by omega), va_toNat]
    congr 2
    omega
  · rw [if_neg hw]
    cases hs : resolveL3Slot g va with
    | none => rfl
    | some slot =>
      cases slot with
      | aperture t e => rfl
      | test j =>
        change leafOf (if _ then _ else _) = _
        rw [if_neg fun h => hw ((resolve_window k hs).mpr (by omega))]
        rfl

end Windows

end WinMali.CsfBuffers
