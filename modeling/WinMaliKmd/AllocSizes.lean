import WinMaliKmd.BoTable
import WinMaliKmd.McuPageTableMap

/-!
# Sizes of allocations and buffer objects

`WinMaliKmdCreateAllocation` computes the pitch of a surface in 32 bits and its size in 64,
from the fields of a blob that user mode wrote. `WinMaliBoCreate` rounds a size up to pages.
-/

set_option autoImplicit false

namespace WinMali.AllocSizes
open WinMali.Lpae WinMali.BoTable
open WinMali.McuPageTableMap (and_not_page)

def allocPrivMagic : BitVec 32 := 0x5061574D

def allocationPrivateMagic : BitVec 32 := 0x6C414D57

def pitchAlign : BitVec 32 := 64

def pageSize : Word := 4096

def usageRenderTarget : BitVec 32 := 2

/-- The blob of the D3D11 user mode driver, 32 bytes. -/
structure AllocationPrivate where
  size : Word
  width : BitVec 32
  height : BitVec 32
  format : BitVec 32
  stride : BitVec 32

/-- The blob of standard allocations, 40 bytes. -/
structure AllocPriv where
  width : BitVec 32
  height : BitVec 32
  pitch : BitVec 32
  format : BitVec 32
  usage : BitVec 32
  size : Word

/-- `blob` holds the 32-bit words at the private data pointer, of which `blobSize` bytes are
the caller's. -/
structure AllocationInfo where
  blob : Option (ℕ → BitVec 32)
  blobSize : ℕ
  alignment : BitVec 32

structure KmdAllocation where
  size : Word
  alignment : BitVec 32
  width : BitVec 32
  height : BitVec 32
  pitch : BitVec 32
  format : BitVec 32
  usage : BitVec 32

/-- `D3DDDIFORMAT` by its values. -/
def bppForFormat (format : BitVec 32) : BitVec 32 :=
  if format ∈ [21, 22, 32, 33] then 4
  else if format ∈ [23, 24, 25, 26] then 2
  else if format = 20 then 3
  else if format ∈ [28, 50] then 1
  else 4

def alignUp (v a : BitVec 32) : BitVec 32 := if a = 0 then v else (v + a - 1) / a * a

def alignUpSz (v a : Word) : Word := if a = 0 then v else (v + a - 1) / a * a

def wide (lo hi : BitVec 32) : Word := hi.setWidth 64 <<< 32 ||| lo.setWidth 64

def readAllocationPrivate (w : ℕ → BitVec 32) : AllocationPrivate :=
  ⟨wide (w 2) (w 3), w 4, w 5, w 6, w 7⟩

def readAllocPriv (w : ℕ → BitVec 32) : AllocPriv :=
  ⟨w 2, w 3, w 4, w 5, w 6, wide (w 8) (w 9)⟩

/-- What the call takes the private data for. Data that is neither blob can still be read for a
size when it is long enough. -/
inductive Blob
  | backBuffer (p : AllocationPrivate)
  | standard (p : AllocPriv)
  | raw (size : Option Word)

def AllocationInfo.recognize (info : AllocationInfo) : Blob :=
  match info.blob with
  | none => .raw none
  | some w =>
    if 32 ≤ info.blobSize ∧ w 0 = allocationPrivateMagic then
      .backBuffer (readAllocationPrivate w)
    else if info.blobSize < 40 ∨ w 0 ≠ allocPrivMagic then
      .raw (if 40 ≤ info.blobSize then some (readAllocPriv w).size else none)
    else .standard (readAllocPriv w)

/-- The height that counts. -/
def rows (height : BitVec 32) : BitVec 32 := if height ≠ 0 then height else 1

/-- The larger of what the rows need and what the blob asks for, in whole pages. -/
def surfaceBytes (pitch height : BitVec 32) (size : Word) : Word :=
  let bytes := pitch.setWidth 64 * (rows height).setWidth 64
  alignUpSz (if size > bytes then size else bytes) pageSize

def backBufferPitch (p : AllocationPrivate) : BitVec 32 :=
  if p.stride ≠ 0 then p.stride else alignUp (p.width * 4) pitchAlign

def standardPitch (p : AllocPriv) : BitVec 32 :=
  alignUp (if p.pitch ≠ 0 then p.pitch else p.width * bppForFormat p.format) pitchAlign

/-- One turn of the loop, when its pool allocation succeeds. -/
def record (info : AllocationInfo) : KmdAllocation :=
  let alignment := if info.alignment ≠ 0 then info.alignment else 4096
  match info.recognize with
  | .backBuffer p =>
    ⟨surfaceBytes (backBufferPitch p) p.height p.size, alignment, p.width, p.height,
      backBufferPitch p, p.format, usageRenderTarget⟩
  | .standard p =>
    ⟨surfaceBytes (standardPitch p) p.height p.size, alignment, p.width, p.height,
      standardPitch p, p.format, p.usage⟩
  | .raw size =>
    let bytes :=
      if info.alignment ≠ 0 then alignUpSz (info.alignment.setWidth 64) pageSize
      else
        match size with
        | some size => if size ≠ 0 then alignUpSz size pageSize else pageSize
        | none => pageSize
    ⟨bytes, alignment, 0, 0, 0, 0, 0⟩

/-- `recorded` is what the turns before filled in, and `pool` answers the allocations. A turn
that gets no memory takes it back. -/
def createLoop (pool : ℕ → Bool) : List AllocationInfo → List KmdAllocation →
    NtStatus × List KmdAllocation
  | [], recorded => (.success, recorded)
  | info::infos, recorded =>
    if !pool recorded.length then (.insufficientResources, [])
    else createLoop pool infos (recorded ++ [record info])

def createAllocation (adapter : Bool) (infos : Option (List AllocationInfo)) (pool : ℕ → Bool) :
    NtStatus × List KmdAllocation :=
  match infos with
  | none => (.invalidParameter, [])
  | some infos => if !adapter then (.invalidHandle, []) else createLoop pool infos []

/-- `WinMaliBoCreate` with its page allocator as a function from the bytes that it is asked
for to those that the MDL has, if it gives one. -/
def boCreateSize (size : Word) (pool : Bool) (mdl : Word → Option (BitVec 32)) : Errno × Word :=
  if size = 0 then (.einval, 0)
  else
    let pageAligned := (size + 4095) &&& ~~~4095
    if !pool then (.enomem, 0)
    else
      match mdl pageAligned with
      | none => (.enomem, 0)
      | some byteCount =>
        if byteCount.setWidth 64 < pageAligned then (.enomem, 0) else (.ok, pageAligned)

/-- A number of bytes that holds what was asked for in whole pages. -/
structure Holds (asked : Word) (size : Word) : Prop where
  pages : size.toNat % 4096 = 0
  pos : 0 < size.toNat
  asked : asked.toNat ≤ size.toNat

/-- `pitch` is the one that the blob gives, or else is `derived` from its width. -/
structure SurfaceCovered (asked : Word) (height pitch width : BitVec 32) (bpp : ℕ)
    (ka : KmdAllocation) : Prop where
  holds : Holds asked ka.size
  rows : ka.pitch.toNat * max height.toNat 1 ≤ ka.size.toNat
  given : pitch.toNat * max height.toNat 1 ≤ ka.size.toNat
  derived : pitch = 0 → width.toNat * bpp ≤ ka.pitch.toNat

def Covered (info : AllocationInfo) (ka : KmdAllocation) : Prop :=
  match info.recognize with
  | .backBuffer p => SurfaceCovered p.size p.height p.stride p.width 4 ka
  | .standard p =>
    SurfaceCovered p.size p.height p.pitch p.width (bppForFormat p.format).toNat ka
  | .raw _ => True

/-- Nothing that the two blobs are rounded up to wraps, and one of their fields is not 0. -/
def NoWrap (info : AllocationInfo) : Prop :=
  match info.recognize with
  | .backBuffer p =>
    p.size.toNat + 4095 < 2 ^ 64 ∧ (p.size ≠ 0 ∨ p.stride ≠ 0 ∨ p.width ≠ 0) ∧
      (p.stride = 0 → p.width.toNat * 4 + 63 < 2 ^ 32)
  | .standard p =>
    p.size.toNat + 4095 < 2 ^ 64 ∧ (p.size ≠ 0 ∨ p.pitch ≠ 0 ∨ p.width ≠ 0) ∧
      (p.pitch = 0 → p.width.toNat * (bppForFormat p.format).toNat + 63 < 2 ^ 32) ∧
      (p.pitch.toNat + 63 < 2 ^ 32 ∨
        p.pitch.toNat * max p.height.toNat 1 ≤ (p.size.toNat + 4095) / 4096 * 4096)
  | .raw _ => True

section RoundUp

variable {v pitch height width : BitVec 32} {size x : Word} {bpp : ℕ}

theorem alignUp_toNat (v : BitVec 32) :
    (alignUp v pitchAlign).toNat = (v.toNat + 63) % 2 ^ 32 / 64 * 64 := by
  have h : v + pitchAlign - 1 = v + 63 := by
    unfold pitchAlign
    bv_omega
  have hlt : (v.toNat + 63) % 2 ^ 32 / 64 * 64 < 2 ^ 32 := by omega
  rw [alignUp, if_neg (by decide), h]
  simp only [pitchAlign, BitVec.toNat_mul, BitVec.toNat_udiv, BitVec.toNat_add]
  exact Nat.mod_eq_of_lt hlt

theorem alignUpSz_toNat (x : Word) :
    (alignUpSz x pageSize).toNat = (x.toNat + 4095) % 2 ^ 64 / 4096 * 4096 := by
  have h : x + pageSize - 1 = x + 4095 := by
    unfold pageSize
    bv_omega
  have hlt : (x.toNat + 4095) % 2 ^ 64 / 4096 * 4096 < 2 ^ 64 := by omega
  rw [alignUpSz, if_neg (by decide), h]
  simp only [pageSize, BitVec.toNat_mul, BitVec.toNat_udiv, BitVec.toNat_add]
  exact Nat.mod_eq_of_lt hlt

theorem rows_toNat (height : BitVec 32) : (rows height).toNat = max height.toNat 1 := by
  unfold rows
  split
  · rename_i h
    have hpos : height.toNat ≠ 0 := fun h0 => h (BitVec.eq_of_toNat_eq h0)
    omega
  · rename_i h
    rw [not_not.mp h]
    rfl

theorem rowBytes_le (pitch height : BitVec 32) :
    pitch.toNat * max height.toNat 1 ≤ (2 ^ 32 - 1) * (2 ^ 32 - 1) := by
  have hp := pitch.isLt
  have hh := height.isLt
  exact Nat.mul_le_mul (by omega) (by omega)

theorem rowBytes_toNat (pitch height : BitVec 32) :
    (pitch.setWidth 64 * (rows height).setWidth 64).toNat =
      pitch.toNat * max height.toNat 1 := by
  have hle := rowBytes_le pitch height
  have hp : pitch.toNat % 2 ^ 64 = pitch.toNat := Nat.mod_eq_of_lt (by omega)
  have hr : (rows height).toNat % 2 ^ 64 = (rows height).toNat := Nat.mod_eq_of_lt (by omega)
  rw [BitVec.toNat_mul, BitVec.toNat_setWidth, BitVec.toNat_setWidth, hp, hr, rows_toNat]
  exact Nat.mod_eq_of_lt (by omega)

/-- The rows always fit into 64 bits, so only the size that the blob asks for can wrap. -/
theorem surfaceBytes_toNat (pitch height : BitVec 32) (size : Word) :
    (surfaceBytes pitch height size).toNat =
      (max (pitch.toNat * max height.toNat 1) size.toNat + 4095) % 2 ^ 64 / 4096 * 4096 := by
  rw [surfaceBytes, alignUpSz_toNat]
  have hrows := rowBytes_toNat pitch height
  split
  · rename_i h
    have hlt : (pitch.setWidth 64 * (rows height).setWidth 64).toNat < size.toNat := h
    rw [Nat.max_eq_right (by omega)]
  · rename_i h
    have hle : size.toNat ≤ (pitch.setWidth 64 * (rows height).setWidth 64).toNat :=
      Nat.not_lt.mp h
    rw [Nat.max_eq_left (by omega), hrows]

theorem rowBytes_pos (pitch height : BitVec 32) :
    0 < pitch.toNat * max height.toNat 1 ↔ pitch ≠ 0 := by
  rw [Nat.mul_pos_iff_of_pos_right (by omega), Nat.pos_iff_ne_zero, ne_eq, ne_eq]
  exact not_congr (BitVec.toNat_inj (y := 0))

theorem surface_iff (pitch height : BitVec 32) (size : Word) :
    (Holds size (surfaceBytes pitch height size) ∧
      pitch.toNat * max height.toNat 1 ≤ (surfaceBytes pitch height size).toNat) ↔
        size.toNat + 4095 < 2 ^ 64 ∧ (size ≠ 0 ∨ pitch ≠ 0) := by
  have hs := surfaceBytes_toNat pitch height size
  have hle := rowBytes_le pitch height
  have hpos : size ≠ 0 ↔ 0 < size.toNat := by
    rw [Nat.pos_iff_ne_zero]
    exact not_congr (BitVec.toNat_inj (y := 0)).symm
  rw [hpos, ← rowBytes_pos pitch height]
  generalize pitch.toNat * max height.toNat 1 = area at *
  have hlt := size.isLt
  constructor
  · rintro ⟨H, hrows⟩
    have h1 := H.pos
    have h2 := H.asked
    omega
  · rintro ⟨h1, h2⟩
    exact ⟨⟨by omega, by omega, by omega⟩, by omega⟩

/-- A pitch that is rounded up is large enough unless it wraps, in 32 bits. -/
theorem derived_iff {n : ℕ} (hv : v.toNat = n % 2 ^ 32) :
    n ≤ (alignUp v pitchAlign).toNat ↔ n + 63 < 2 ^ 32 := by
  rw [alignUp_toNat]
  omega

end RoundUp

section Surfaces

variable {ka : KmdAllocation} {height pitch width format : BitVec 32} {size : Word}

/-- A surface whose pitch comes from its width. -/
theorem derived_covered_iff {bpp : BitVec 32} (hbpp : bpp ≠ 0)
    (hpitch : ka.pitch = alignUp (width * bpp) pitchAlign)
    (hsize : ka.size = surfaceBytes ka.pitch height size) :
    SurfaceCovered size height 0 width bpp.toNat ka ↔ size.toNat + 4095 < 2 ^ 64 ∧
      (size ≠ 0 ∨ width ≠ 0) ∧ width.toNat * bpp.toNat + 63 < 2 ^ 32 := by
  have hbpp' : bpp.toNat ≠ 0 := fun h => hbpp (BitVec.eq_of_toNat_eq h)
  have hderived : width.toNat * bpp.toNat ≤ ka.pitch.toNat ↔
      width.toNat * bpp.toNat + 63 < 2 ^ 32 := by
    rw [hpitch]
    exact derived_iff (BitVec.toNat_mul ..)
  have hpos : width.toNat * bpp.toNat + 63 < 2 ^ 32 → (ka.pitch ≠ 0 ↔ width ≠ 0) := by
    intro h
    refine not_congr ⟨fun hp => ?_, fun hw => ?_⟩
    · rw [← hderived, hp] at h
      have hzero : width.toNat * bpp.toNat = 0 := Nat.le_zero.mp h
      exact BitVec.eq_of_toNat_eq ((Nat.mul_eq_zero.mp hzero).resolve_right hbpp')
    · have hzero : width * bpp = 0 := by
        rw [hw]
        exact BitVec.zero_mul
      rw [hpitch, hzero]
      decide
  have hsurface := surface_iff ka.pitch height size
  rw [← hsize] at hsurface
  constructor
  · intro C
    have hfits := hderived.mp (C.derived rfl)
    obtain ⟨h1, h2⟩ := hsurface.mp ⟨C.holds, C.rows⟩
    exact ⟨h1, by rwa [hpos hfits] at h2, hfits⟩
  · rintro ⟨h1, h2, h3⟩
    rw [← hpos h3] at h2
    obtain ⟨H, hrows⟩ := hsurface.mpr ⟨h1, h2⟩
    exact ⟨H, hrows, by simp, fun _ => hderived.mpr h3⟩

theorem backBuffer_iff {p : AllocationPrivate}
    (hpitch : ka.pitch = backBufferPitch p)
    (hsize : ka.size = surfaceBytes ka.pitch p.height p.size) :
    SurfaceCovered p.size p.height p.stride p.width 4 ka ↔
      p.size.toNat + 4095 < 2 ^ 64 ∧ (p.size ≠ 0 ∨ p.stride ≠ 0 ∨ p.width ≠ 0) ∧
        (p.stride = 0 → p.width.toNat * 4 + 63 < 2 ^ 32) := by
  by_cases h : p.stride = 0
  · have hpitch' : ka.pitch = alignUp (p.width * 4) pitchAlign := by
      rw [hpitch, backBufferPitch, if_neg (not_not.mpr h)]
    rw [h]
    have hiff := derived_covered_iff (by decide) hpitch' hsize
    simpa using hiff
  · have hpitch' : ka.pitch = p.stride := by rw [hpitch, backBufferPitch, if_pos h]
    have hsurface := surface_iff ka.pitch p.height p.size
    rw [← hsize, hpitch'] at hsurface
    constructor
    · intro C
      obtain ⟨h1, -⟩ := hsurface.mp ⟨C.holds, C.given⟩
      exact ⟨h1, .inr (.inl h), fun h0 => absurd h0 h⟩
    · rintro ⟨h1, -, -⟩
      obtain ⟨H, hrows⟩ := hsurface.mpr ⟨h1, .inr h⟩
      exact ⟨H, by rwa [hpitch'], hrows, fun h0 => absurd h0 h⟩

theorem bppForFormat_ne (format : BitVec 32) : bppForFormat format ≠ 0 := by
  unfold bppForFormat
  split
  · decide
  split
  · decide
  split
  · decide
  split <;> decide

/-- A pitch that wraps to 0 leaves the size that the blob asks for. -/
theorem standard_iff {p : AllocPriv} (hpitch : ka.pitch = standardPitch p)
    (hsize : ka.size = surfaceBytes ka.pitch p.height p.size) :
    SurfaceCovered p.size p.height p.pitch p.width (bppForFormat p.format).toNat ka ↔
      p.size.toNat + 4095 < 2 ^ 64 ∧ (p.size ≠ 0 ∨ p.pitch ≠ 0 ∨ p.width ≠ 0) ∧
        (p.pitch = 0 → p.width.toNat * (bppForFormat p.format).toNat + 63 < 2 ^ 32) ∧
        (p.pitch.toNat + 63 < 2 ^ 32 ∨
          p.pitch.toNat * max p.height.toNat 1 ≤ (p.size.toNat + 4095) / 4096 * 4096) := by
  by_cases h : p.pitch = 0
  · have hpitch' : ka.pitch = alignUp (p.width * bppForFormat p.format) pitchAlign := by
      rw [hpitch, standardPitch, if_neg (not_not.mpr h)]
    rw [h]
    have hiff := derived_covered_iff (bppForFormat_ne p.format) hpitch' hsize
    simpa using hiff
  · have hpitch' : ka.pitch = alignUp p.pitch pitchAlign := by
      rw [hpitch, standardPitch, if_pos h]
    have hgiven := derived_iff (v := p.pitch) (n := p.pitch.toNat)
      (Nat.mod_eq_of_lt p.pitch.isLt).symm
    rw [← hpitch'] at hgiven
    have hsurface := surface_iff ka.pitch p.height p.size
    have hbytes := surfaceBytes_toNat ka.pitch p.height p.size
    rw [← hsize] at hsurface hbytes
    have hpos : 0 < p.pitch.toNat * max p.height.toNat 1 := (rowBytes_pos _ _).mpr h
    by_cases hfits : p.pitch.toNat + 63 < 2 ^ 32
    · have hle := hgiven.mpr hfits
      have hne : ka.pitch ≠ 0 := by
        intro h0
        rw [h0] at hle
        exact h (BitVec.eq_of_toNat_eq (Nat.le_zero.mp hle))
      constructor
      · intro C
        exact ⟨(hsurface.mp ⟨C.holds, C.rows⟩).1, .inr (.inl h), fun h0 => absurd h0 h, .inl hfits⟩
      · rintro ⟨h1, -, -, -⟩
        obtain ⟨H, hrows⟩ := hsurface.mpr ⟨h1, .inr hne⟩
        exact ⟨H, hrows, (Nat.mul_le_mul_right _ hle).trans hrows, fun h0 => absurd h0 h⟩
    · have hzero : ka.pitch.toNat = 0 := by
        rw [hpitch', alignUp_toNat]
        have hlt := p.pitch.isLt
        omega
      have hkeep : p.size.toNat + 4095 < 2 ^ 64 →
          ka.size.toNat = (p.size.toNat + 4095) / 4096 * 4096 := by
        intro h1
        rw [hbytes, hzero, Nat.zero_mul, Nat.max_eq_right (Nat.zero_le _), Nat.mod_eq_of_lt h1]
      constructor
      · intro C
        obtain ⟨h1, -⟩ := hsurface.mp ⟨C.holds, C.rows⟩
        exact ⟨h1, .inr (.inl h), fun h0 => absurd h0 h, .inr (hkeep h1 ▸ C.given)⟩
      · rintro ⟨h1, -, -, h4⟩
        have hrest := h4.resolve_left hfits
        have hne : p.size ≠ 0 := by
          intro h0
          rw [h0] at hrest
          exact absurd (hpos.trans_le hrest) (by decide)
        obtain ⟨H, hrows⟩ := hsurface.mpr ⟨h1, .inl hne⟩
        exact ⟨H, hrows, (hkeep h1).symm ▸ hrest, fun h0 => absurd h0 h⟩

end Surfaces

section Calls

variable {pool : ℕ → Bool} {infos : List AllocationInfo} {recorded kas : List KmdAllocation}

theorem createLoop_success (h : createLoop pool infos recorded = (.success, kas)) :
    kas = recorded ++ infos.map record := by
  induction infos generalizing recorded with
  | nil => simpa [createLoop] using h.symm
  | cons info infos ih =>
    rw [createLoop] at h
    split at h
    · cases h
    · rw [ih h, List.append_assoc, List.map_cons, List.singleton_append]

theorem record_covered_iff (info : AllocationInfo) : Covered info (record info) ↔ NoWrap info := by
  unfold Covered NoWrap record
  cases info.recognize with
  | backBuffer p => exact backBuffer_iff rfl rfl
  | standard p => exact standard_iff rfl rfl
  | raw size => exact Iff.rfl

theorem pageAligned_toNat (size : Word) :
    ((size + 4095) &&& ~~~4095).toNat = (size.toNat + 4095) % 2 ^ 64 / 4096 * 4096 := by
  have hbytes : (4095 : Word).toNat = 4095 := rfl
  rw [and_not_page, BitVec.toNat_add, hbytes]

theorem boCreateSize_ok {size bytes : Word} {pool : Bool} {mdl : Word → Option (BitVec 32)}
    (h : boCreateSize size pool mdl = (.ok, bytes)) :
    size ≠ 0 ∧ bytes = (size + 4095) &&& ~~~4095 := by
  unfold boCreateSize at h
  split at h
  · cases h
  rename_i h0
  dsimp only at h
  split at h
  · cases h
  split at h
  · cases h
  split at h
  · cases h
  · exact ⟨h0, (congrArg Prod.snd h).symm⟩

theorem bo_holds_iff {size bytes : Word} {pool : Bool} {mdl : Word → Option (BitVec 32)}
    (h : boCreateSize size pool mdl = (.ok, bytes)) :
    Holds size bytes ↔ size.toNat + 4095 < 2 ^ 64 := by
  obtain ⟨h0, rfl⟩ := boCreateSize_ok h
  have hpos : size.toNat ≠ 0 := fun h => h0 (BitVec.eq_of_toNat_eq h)
  have hlt := size.isLt
  constructor
  · intro H
    have h1 := H.pos
    have h2 := H.asked
    rw [pageAligned_toNat] at h1 h2
    omega
  · intro h1
    refine ⟨?_, ?_, ?_⟩ <;> rw [pageAligned_toNat] <;> omega

/-- The BO that the table's `boCreate` makes has this size. -/
theorem boCreate_size {d : Device} {size : Word} {flags : BitVec 32} {vmId : ℕ} {owner : Option ℕ}
    {r : BoReply} (h : (boCreate d size flags vmId owner r).1 = .ok) :
    ∃ bo mdl, (boCreate d size flags vmId owner r).2.2.bos = d.bos ++ [bo] ∧
      boCreateSize size r.pool mdl = (.ok, bo.size) := by
  unfold boCreate at h ⊢
  by_cases h0 : size = 0
  · simp [h0] at h
  rw [if_neg h0] at h ⊢
  cases hpool : r.pool with
  | false => simp [hpool] at h
  | true =>
    simp only [hpool, Bool.not_true, Bool.false_eq_true, if_false] at h ⊢
    cases hmdl : mmAllocatePages d r.mdl with
    | none => simp [hmdl] at h
    | some pfns =>
      simp only [hmdl] at h ⊢
      split at h
      · cases h
      · rename_i hlen
        have hcount : mdlByteCount pfns < 2 ^ 32 := Nat.mod_lt _ (by decide)
        rw [if_neg hlen]
        refine ⟨_, fun _ => some (BitVec.ofNat 32 (mdlByteCount pfns)), rfl, ?_⟩
        have hge : ¬(BitVec.ofNat 32 (mdlByteCount pfns)).setWidth 64 <
            (size + 4095) &&& ~~~4095 := by
          rw [BitVec.lt_def, BitVec.toNat_setWidth, BitVec.toNat_ofNat]
          omega
        simp only [boCreateSize, if_neg h0, Bool.not_true, Bool.false_eq_true, if_false, if_neg hge]

theorem createAllocation_success {adapter : Bool}
    (h : createAllocation adapter (some infos) pool = (.success, kas)) :
    kas = infos.map record := by
  rw [createAllocation] at h
  split at h
  · cases h
  · rw [createLoop_success h, List.nil_append]

theorem accepted_sizes_iff (adapter : Bool) (infos : List AllocationInfo) (pool : ℕ → Bool)
    (kas : List KmdAllocation) (size : Word) (boPool : Bool) (mdl : Word → Option (BitVec 32))
    (bytes : Word) :
    (createAllocation adapter (some infos) pool = (.success, kas) →
      kas.length = infos.length ∧ ∀ (i : ℕ) (info : AllocationInfo) (ka : KmdAllocation),
        infos[i]? = some info → kas[i]? = some ka → (Covered info ka ↔ NoWrap info)) ∧
    (boCreateSize size boPool mdl = (.ok, bytes) →
      (Holds size bytes ↔ size.toNat + 4095 < 2 ^ 64)) := by
  refine ⟨fun h => ?_, fun h => bo_holds_iff h⟩
  obtain rfl := createAllocation_success h
  refine ⟨List.length_map .., fun i info ka hinfo hka => ?_⟩
  rw [List.getElem?_map, hinfo, Option.map_some] at hka
  obtain rfl := Option.some.inj hka
  exact record_covered_iff info

end Calls

section Blobs

def words (ws : List (BitVec 32)) : Option (ℕ → BitVec 32) := some fun i => ws.getD i 0

/-- A back buffer of 1920 by 1080 pixels without a size and without a stride. -/
def frame : AllocationInfo := ⟨words [allocationPrivateMagic, 0, 0, 0, 1920, 1080, 87, 0], 32, 0⟩

theorem frame_covered : Covered frame (record frame) ∧ Holds 1 4096 := by
  obtain ⟨hframe, hbo⟩ := accepted_sizes_iff true [frame] (fun _ => true) [record frame] 1 true
    (fun bytes => some (bytes.setWidth 32)) 4096
  exact ⟨((hframe rfl).2 0 frame (record frame) rfl rfl).mpr
      ⟨by decide, .inr (.inr (by decide)), fun _ => by decide⟩,
    (hbo (by decide)).mpr (by decide)⟩

/-- Rows of 2^32 bytes in an allocation of one page. -/
def wide30 : AllocationInfo :=
  ⟨words [allocationPrivateMagic, 0, 1, 0, 0x40000000, 1, 87, 0], 32, 0⟩

theorem wide_not_covered :
    createAllocation true (some [wide30]) (fun _ => true) = (.success, [record wide30]) ∧
      ¬Covered wide30 (record wide30) ∧ (record wide30).size = 4096 ∧ (record wide30).pitch = 0 ∧
    boCreateSize 0xFFFFFFFFFFFFFFFF true (fun bytes => some (bytes.setWidth 32)) = (.ok, 0) ∧
      ¬Holds 0xFFFFFFFFFFFFFFFF 0 := by
  have hpitch : (record wide30).pitch = 0 := by decide
  refine ⟨rfl, fun C => ?_, by decide, hpitch, by decide, fun H => absurd H.pos (by decide)⟩
  have hderived : 0x40000000 * 4 ≤ (record wide30).pitch.toNat :=
    SurfaceCovered.derived C rfl
  rw [hpitch] at hderived
  exact absurd hderived (by decide)

end Blobs

end WinMali.AllocSizes
