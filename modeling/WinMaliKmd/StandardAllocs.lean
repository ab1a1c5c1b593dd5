import WinMaliKmd.AllocSizes
import WinMaliKmd.L2Power

/-!
# Standard allocations

`WinMaliKmdGetStandardAllocationDriverData` is asked twice for the blob of a surface, without a
buffer and with one, and tells the pitch of the surface. `WinMaliKmdCreateAllocation` reads the
blob later.
-/

set_option autoImplicit false

namespace WinMali.StandardAllocs
open WinMali.AllocSizes WinMali.L2Power WinMali.Lpae

inductive StandardType
  | sharedPrimarySurface
  | shadowSurface
  | stagingSurface
  | gdiSurface
  | unknown
deriving DecidableEq, Repr

/-- A staging surface has no format of its own. -/
structure SurfaceData where
  width : BitVec 32
  height : BitVec 32
  format : BitVec 32

/-- `surface` is the data of the type that is asked for, and `data` the words at the private
data pointer. -/
structure StandardArgs where
  standardAllocationType : StandardType
  surface : Option SurfaceData
  data : Option (ℕ → BitVec 32)
  dataSize : ℕ

/-- `pitch` is what is patched into the surface data. -/
structure StandardOut where
  data : Option (ℕ → BitVec 32)
  dataSize : ℕ
  resourceDataSize : ℕ
  pitch : Option (BitVec 32)

def usageStaging : BitVec 32 := 0x80

def usagePrimary : BitVec 32 := 0x100

def fmtA8R8G8B8 : BitVec 32 := 21

def fmtX8R8G8B8 : BitVec 32 := 22

def sizeofAllocPriv : ℕ := 40

def StandardType.usage : StandardType → Option (BitVec 32)
  | .sharedPrimarySurface => some (usagePrimary ||| usageRenderTarget)
  | .shadowSurface | .stagingSurface => some usageStaging
  | .gdiSurface => some usageRenderTarget
  | .unknown => none

def StandardType.tellsPitch : StandardType → Bool
  | .shadowSurface | .stagingSurface | .gdiSurface => true
  | .sharedPrimarySurface | .unknown => false

def StandardArgs.width (args : StandardArgs) : BitVec 32 :=
  args.surface.elim 0 SurfaceData.width

def StandardArgs.height (args : StandardArgs) : BitVec 32 :=
  args.surface.elim 0 SurfaceData.height

def StandardArgs.fmt (args : StandardArgs) : BitVec 32 :=
  args.surface.elim fmtA8R8G8B8 fun d =>
    if args.standardAllocationType = .stagingSurface then fmtX8R8G8B8 else d.format

/-- Surfaces that go to another adapter have their rows at multiples of 128. -/
def StandardArgs.align (args : StandardArgs) : BitVec 32 :=
  if args.standardAllocationType = .gdiSurface then 128 else pitchAlign

def StandardArgs.rowBytes (args : StandardArgs) : BitVec 32 :=
  args.width * bppForFormat args.fmt

def StandardArgs.pitch (args : StandardArgs) : BitVec 32 := alignUp args.rowBytes args.align

def StandardArgs.toldPitch (args : StandardArgs) : Option (BitVec 32) :=
  if args.standardAllocationType.tellsPitch && args.surface.isSome then some args.pitch else none

/-- The words of the buffer after the blob is filled in. -/
def fillStdAllocPriv (width height fmt pitch usage : BitVec 32) (data : ℕ → BitVec 32) :
    ℕ → BitVec 32
  | 0 => allocPrivMagic
  | 1 => 1
  | 2 => width
  | 3 => height
  | 4 => pitch
  | 5 => fmt
  | 6 => usage
  | 7 => 0
  | 8 => half (pitch.setWidth 64 * height.setWidth 64) 0
  | 9 => half (pitch.setWidth 64 * height.setWidth 64) 1
  | i + 10 => data (i + 10)

/-- A call that fails writes nothing. -/
def getStandardAllocationDriverData (pArgs : Option StandardArgs) :
    NtStatus × Option StandardOut :=
  match pArgs with
  | none => (.invalidParameter, none)
  | some args =>
    match args.standardAllocationType.usage with
    | none => (.invalidParameter, none)
    | some usage =>
      match args.data with
      | none => (.success, some ⟨none, sizeofAllocPriv, 0, args.toldPitch⟩)
      | some data =>
        if args.dataSize < sizeofAllocPriv then (.bufferTooSmall, none)
        else
          (.success, some ⟨some (fillStdAllocPriv args.width args.height args.fmt args.pitch usage
            data), sizeofAllocPriv, 0, args.toldPitch⟩)

/-- The rows of a surface for another adapter end less than 128 bytes below 2^32, where the
pitch wraps to 0 and `CreateAllocation` makes up its own. -/
def PitchLost (args : StandardArgs) : Prop :=
  args.standardAllocationType = .gdiSurface ∧
    2 ^ 32 - 128 < args.rowBytes.toNat ∧ args.rowBytes.toNat ≤ 2 ^ 32 - 64

/-- What `CreateAllocation` records is what the blob was made for. -/
structure RoundTrip (args : StandardArgs) (usage : BitVec 32) (told : Option (BitVec 32))
    (ka : KmdAllocation) : Prop where
  width : ka.width = args.width
  height : ka.height = args.height
  format : ka.format = args.fmt
  usage : ka.usage = usage
  pitch : ∀ p ∈ told, ka.pitch = p ↔ ¬PitchLost args
  size : ka.size.toNat =
    (ka.pitch.toNat * max args.height.toNat 1 + 4095) / 4096 * 4096
  covers : args.width.toNat * (bppForFormat args.fmt).toNat ≤ ka.pitch.toNat ↔
    args.width.toNat * (bppForFormat args.fmt).toNat + 63 < 2 ^ 32

theorem alignUp_gdi (v : BitVec 32) :
    (alignUp v 128).toNat = (v.toNat + 127) % 2 ^ 32 / 128 * 128 := by
  have h : v + 128 - 1 = v + 127 := by bv_omega
  have hlt : (v.toNat + 127) % 2 ^ 32 / 128 * 128 < 2 ^ 32 := by omega
  rw [alignUp, if_neg (by decide), h]
  simp only [BitVec.toNat_mul, BitVec.toNat_udiv, BitVec.toNat_add]
  exact Nat.mod_eq_of_lt hlt

theorem pitch_toNat (args : StandardArgs) : args.pitch.toNat =
    if args.standardAllocationType = .gdiSurface then
      (args.rowBytes.toNat + 127) % 2 ^ 32 / 128 * 128
    else (args.rowBytes.toNat + 63) % 2 ^ 32 / 64 * 64 := by
  unfold StandardArgs.pitch StandardArgs.align
  split
  · exact alignUp_gdi _
  · exact alignUp_toNat _

/-- The fields that `CreateAllocation` reads from the blob. -/
def stdPriv (args : StandardArgs) (usage : BitVec 32) : AllocPriv :=
  ⟨args.width, args.height, args.pitch, args.fmt, usage,
    args.pitch.setWidth 64 * args.height.setWidth 64⟩

theorem recognize_fill (args : StandardArgs) (usage alignment : BitVec 32)
    (data : ℕ → BitVec 32) :
    (AllocationInfo.mk (some (fillStdAllocPriv args.width args.height args.fmt args.pitch usage
      data)) sizeofAllocPriv alignment).recognize = .standard (stdPriv args usage) := by
  have hword := word_half (args.pitch.setWidth 64 * args.height.setWidth 64)
  have hread : readAllocPriv (fillStdAllocPriv args.width args.height args.fmt args.pitch usage
      data) = stdPriv args usage := by
    rw [stdPriv, ← hword]
    rfl
  simp only [AllocationInfo.recognize, hread]
  rw [if_neg, if_neg]
  · simp [sizeofAllocPriv, fillStdAllocPriv]
  · rintro ⟨-, hmagic⟩
    have hfilled : allocPrivMagic = allocationPrivateMagic := hmagic
    exact absurd hfilled (by decide)

theorem standardPitch_toNat (args : StandardArgs) (usage : BitVec 32) :
    (standardPitch (stdPriv args usage)).toNat =
      if args.pitch.toNat = 0 then (args.rowBytes.toNat + 63) % 2 ^ 32 / 64 * 64
      else args.pitch.toNat := by
  have hpitch := pitch_toNat args
  have hzero : args.pitch = 0 ↔ args.pitch.toNat = 0 := (BitVec.toNat_inj (y := 0)).symm
  have hunfold : standardPitch (stdPriv args usage) =
      alignUp (if args.pitch ≠ 0 then args.pitch else args.rowBytes) pitchAlign := rfl
  rw [hunfold, alignUp_toNat]
  by_cases h : args.pitch = 0
  · rw [if_neg (not_not.mpr h), if_pos (hzero.mp h)]
  · rw [if_pos h, if_neg (mt hzero.mpr h)]
    have hlt := args.pitch.isLt
    split at hpitch <;> omega

theorem pitch_eq_iff (args : StandardArgs) (usage : BitVec 32) :
    standardPitch (stdPriv args usage) = args.pitch ↔ ¬PitchLost args := by
  have hpitch := pitch_toNat args
  have hrow := args.rowBytes.isLt
  rw [← BitVec.toNat_inj, standardPitch_toNat, PitchLost]
  by_cases hgdi : args.standardAllocationType = .gdiSurface
  · rw [if_pos hgdi] at hpitch
    simp only [hgdi, true_and]
    split <;> omega
  · rw [if_neg hgdi] at hpitch
    simp only [hgdi, false_and, not_false_eq_true, iff_true]
    split <;> omega

/-- A pitch covers its row unless rounding it up to 64 wraps. -/
theorem covers_iff (args : StandardArgs) (usage : BitVec 32) :
    args.width.toNat * (bppForFormat args.fmt).toNat ≤
        (standardPitch (stdPriv args usage)).toNat ↔
      args.width.toNat * (bppForFormat args.fmt).toNat + 63 < 2 ^ 32 := by
  have hpitch := pitch_toNat args
  have hrow : args.rowBytes.toNat =
      args.width.toNat * (bppForFormat args.fmt).toNat % 2 ^ 32 := BitVec.toNat_mul ..
  rw [standardPitch_toNat]
  generalize args.width.toNat * (bppForFormat args.fmt).toNat = n at *
  split at hpitch <;> split <;> omega

theorem stdPriv_size_le (args : StandardArgs) (usage : BitVec 32) :
    (stdPriv args usage).size.toNat ≤
      (standardPitch (stdPriv args usage)).toNat * max args.height.toNat 1 := by
  have hp := args.pitch.isLt
  have hh := args.height.isLt
  have harea : args.pitch.toNat * args.height.toNat ≤ (2 ^ 32 - 1) * (2 ^ 32 - 1) :=
    Nat.mul_le_mul (by omega) (by omega)
  have hsize : (stdPriv args usage).size.toNat = args.pitch.toNat * args.height.toNat := by
    simp only [stdPriv, BitVec.toNat_mul, BitVec.toNat_setWidth]
    rw [Nat.mod_eq_of_lt (by omega : args.pitch.toNat < 2 ^ 64),
      Nat.mod_eq_of_lt (by omega : args.height.toNat < 2 ^ 64), Nat.mod_eq_of_lt (by omega)]
  have hle : args.pitch.toNat ≤ (standardPitch (stdPriv args usage)).toNat := by
    rw [standardPitch_toNat]
    split <;> omega
  rw [hsize]
  exact Nat.mul_le_mul hle (Nat.le_max_left _ _)

theorem record_fill (args : StandardArgs) (usage alignment : BitVec 32)
    (data : ℕ → BitVec 32) : RoundTrip args usage args.toldPitch
      (record ⟨some (fillStdAllocPriv args.width args.height args.fmt args.pitch usage data),
        sizeofAllocPriv, alignment⟩) := by
  simp only [record, recognize_fill]
  refine ⟨rfl, rfl, rfl, rfl, fun p hp => ?_, ?_, covers_iff args usage⟩
  · have htold : p = args.pitch := by
      unfold StandardArgs.toldPitch at hp
      split at hp
      · exact (Option.some.inj hp).symm
      · cases hp
    rw [htold]
    exact pitch_eq_iff args usage
  · have hle := rowBytes_le (standardPitch (stdPriv args usage)) args.height
    rw [surfaceBytes_toNat]
    change (max ((standardPitch (stdPriv args usage)).toNat * max args.height.toNat 1)
      (stdPriv args usage).size.toNat + 4095) % 2 ^ 64 / 4096 * 4096 = _
    rw [Nat.max_eq_left (stdPriv_size_le args usage), Nat.mod_eq_of_lt (by omega)]

/-- The call is made without a buffer, and then with one as long as it said. The blob that it
leaves there makes `CreateAllocation` record the surface that was asked for, whatever the
alignment; its pitch is the one that was told unless that is lost. Nothing else in the buffer
changes, and a shorter buffer is refused. -/
theorem standard_two_pass (args : StandardArgs) {usage : BitVec 32}
    (husage : args.standardAllocationType.usage = some usage) (data : ℕ → BitVec 32) :
    ∃ probe filled blob,
      getStandardAllocationDriverData (some { args with data := none }) = (.success, some probe) ∧
      getStandardAllocationDriverData
          (some { args with data := some data, dataSize := probe.dataSize }) =
        (.success, some filled) ∧
      filled.data = some blob ∧ filled.pitch = probe.pitch ∧ (∀ i, 10 ≤ i → blob i = data i) ∧
      (∀ n < probe.dataSize, getStandardAllocationDriverData
        (some { args with data := some data, dataSize := n }) = (.bufferTooSmall, none)) ∧
      ∀ alignment, RoundTrip args usage probe.pitch
        (record ⟨some blob, filled.dataSize, alignment⟩) := by
  refine ⟨⟨none, sizeofAllocPriv, 0, args.toldPitch⟩, ⟨some (fillStdAllocPriv args.width
    args.height args.fmt args.pitch usage data), sizeofAllocPriv, 0, args.toldPitch⟩, _, ?_, ?_,
    rfl, rfl, ?_, ?_, fun alignment => record_fill args usage alignment data⟩
  · simp only [getStandardAllocationDriverData, husage]
    rfl
  · simp only [getStandardAllocationDriverData, husage]
    rfl
  · intro i hi
    obtain ⟨k, rfl⟩ := Nat.exists_eq_add_of_le' hi
    rfl
  · intro n hn
    simp only [getStandardAllocationDriverData, husage, if_pos hn]

/-- A surface of the window manager, 100 by 50. -/
def smallGdi : StandardArgs := ⟨.gdiSurface, some ⟨100, 50, fmtA8R8G8B8⟩, none, 0⟩

theorem smallGdi_kept : ∃ ka, RoundTrip smallGdi usageRenderTarget (some 512) ka ∧
    ka.pitch = 512 ∧ ka.size.toNat = 28672 := by
  obtain ⟨probe, filled, blob, hprobe, -, -, -, -, -, htrip⟩ :=
    standard_two_pass smallGdi rfl (fun _ => 0)
  obtain rfl := Option.some.inj (Prod.mk.inj hprobe).2
  have T := htrip 0
  have hkept : ¬PitchLost smallGdi := by
    rintro ⟨-, hlow, -⟩
    exact absurd hlow (by decide)
  have hpitch : (record ⟨some blob, filled.dataSize, 0⟩).pitch = 512 :=
    (T.pitch 512 (by decide)).mpr hkept
  have hsize := T.size
  rw [hpitch] at hsize
  exact ⟨_, T, hpitch, hsize⟩

end WinMali.StandardAllocs
