import WinMaliKmd.AllocSizes
import WinMaliKmd.ResidencyStash

/-!
# Presenting a frame

The copy of a rendered frame into the present target is there twice: `WinMaliKmdPresent` does
it at once and records a descriptor, and `WinMaliPresentExecuteBlt_` does it again when the
descriptor is submitted. `LONG` is a 32-bit word read as signed, and sums wrap.
-/

set_option autoImplicit false

namespace WinMali.PresentBlt
open WinMali.Lpae WinMali.AllocSizes WinMali.ApertureRoots

/-- What `CreateAllocation` recorded and what `MapApertureSegment` noted. -/
structure Allocation where
  magic : Bool
  ka : KmdAllocation
  residency : Residency

structure Rect where
  left : BitVec 32
  top : BitVec 32
  right : BitVec 32
  bottom : BitVec 32

structure BltDesc where
  magic : BitVec 32
  subRectCnt : BitVec 32
  src : Option Allocation
  dst : Option Allocation
  srcLeft : BitVec 32
  srcTop : BitVec 32
  dstLeft : BitVec 32
  dstTop : BitVec 32
  dstRight : BitVec 32
  dstBottom : BitVec 32

/-- One `RtlCopyMemory`. The offsets are from the first page of either allocation. -/
structure Copy where
  srcOff : Word
  dstOff : Word
  bytes : Word
deriving DecidableEq

/-- What the body of a loop over the rows does: `continue`, `break`, or a copy. -/
inductive Row
  | skip
  | stop
  | copy (c : Copy)
deriving DecidableEq

def copyRows (row : ℕ → Row) : ℕ → ℕ → List Copy
  | 0, _ => []
  | left + 1, y =>
    match row y with
    | .skip => copyRows row left (y + 1)
    | .stop => []
    | .copy c => c :: copyRows row left (y + 1)

def rowOffset (row pitch left bpp : BitVec 32) : Word :=
  row.signExtend 64 * pitch.setWidth 64 + left.signExtend 64 * bpp.setWidth 64

def rowBytes (width bpp : BitVec 32) : Word := width.signExtend 64 * bpp.setWidth 64

def residentBytes (a : Allocation) : Word := BitVec.ofNat 64 a.residency.pageCount <<< 12

def bltRow (d : BltDesc) (src dst : Allocation) (width : BitVec 32) (r : ℕ) : Row :=
  let srcOff := rowOffset (d.srcTop + BitVec.ofNat 32 r) src.ka.pitch d.srcLeft 4
  let dstOff := rowOffset (d.dstTop + BitVec.ofNat 32 r) dst.ka.pitch d.dstLeft 4
  let bytes := rowBytes width 4
  if srcOff + bytes > residentBytes src ∨ dstOff + bytes > residentBytes dst then .stop
  else .copy ⟨srcOff, dstOff, bytes⟩

def srcRows (src : Allocation) : BitVec 32 :=
  (residentBytes src / src.ka.pitch.setWidth 64).setWidth 32

def srcCols (src : Allocation) : BitVec 32 := src.ka.pitch / 4

def clampHeight (d : BltDesc) (src : Allocation) (height : BitVec 32) : BitVec 32 :=
  if (d.srcTop + height).toInt > (srcRows src).toInt then srcRows src - d.srcTop else height

def clampWidth (d : BltDesc) (src : Allocation) (width : BitVec 32) : BitVec 32 :=
  if (d.srcLeft + width).toInt > (srcCols src).toInt then srcCols src - d.srcLeft else width

/-- The copy, when both allocations are mapped. -/
def bltRows (d : BltDesc) (src dst : Allocation) : List Copy :=
  let width := d.dstRight - d.dstLeft
  let height := d.dstBottom - d.dstTop
  if width.toInt ≤ 0 ∨ height.toInt ≤ 0 ∨ d.srcLeft.toInt < 0 ∨ d.srcTop.toInt < 0 ∨
      d.dstLeft.toInt < 0 ∨ d.dstTop.toInt < 0 then []
  else
    let height := clampHeight d src height
    let width := clampWidth d src width
    if width.toInt ≤ 0 ∨ height.toInt ≤ 0 then []
    else copyRows (bltRow d src dst width) height.toInt.toNat 0

/-- `srcMap` and `dstMap` tell whether the system maps the MDLs. -/
def presentExecuteBlt (d : BltDesc) (srcMap dstMap : Bool) : List Copy :=
  match d.src, d.dst with
  | some src, some dst =>
    if !src.magic || !dst.magic then []
    else if src.residency.mdl = none ∨ dst.residency.mdl = none then []
    else if src.ka.pitch = 0 ∨ dst.ka.pitch = 0 then []
    else if !srcMap || !dstMap then []
    else bltRows d src dst
  | _, _ => []

def bltDescMagic : BitVec 32 := 0x746C4257

def bltDescBytes : ℕ := 48

/-- `allocationList` holds the source and the destination. -/
structure PresentArgs where
  blt : Bool
  allocationList : Option (Option Allocation × Option Allocation)
  numSrcAllocations : ℕ
  numDstAllocations : ℕ
  dmaBufferPrivateData : Bool
  dmaBufferPrivateDataSize : ℕ
  subRectCnt : BitVec 32
  srcRect : Rect
  dstRect : Rect
  dmaBuffer : Bool
  dmaSize : ℕ

/-- `token` tells whether four bytes of the DMA buffer were used. -/
structure PresentOut where
  status : NtStatus
  desc : Option BltDesc
  copies : List Copy
  token : Bool

/-- Bytes per pixel, as far as the pitch and the width of the destination tell. -/
def inlineBpp (dst : KmdAllocation) : BitVec 32 :=
  let bpp := if dst.width ≠ 0 then dst.pitch / dst.width else 4
  if bpp = 0 then 4 else bpp

def Rect.width (r : Rect) : BitVec 32 := r.right - r.left

def Rect.height (r : Rect) : BitVec 32 := r.bottom - r.top

def inlineRow (srcRect dstRect : Rect) (src dst : KmdAllocation) (y : ℕ) : Row :=
  let sy := srcRect.top + BitVec.ofNat 32 y
  let dy := dstRect.top + BitVec.ofNat 32 y
  if sy.toInt < 0 ∨ dy.toInt < 0 ∨ dstRect.width.toInt ≤ 0 then .skip
  else
    let sOff := rowOffset sy src.pitch srcRect.left (inlineBpp dst)
    let dOff := rowOffset dy dst.pitch dstRect.left (inlineBpp dst)
    let bytes := rowBytes dstRect.width (inlineBpp dst)
    if sOff + bytes > src.size ∨ dOff + bytes > dst.size then .stop else .copy ⟨sOff, dOff, bytes⟩

/-- Both allocations are mapped and have a pitch. -/
def inlineRuns (src dst : Allocation) (srcMap dstMap : Bool) : Bool :=
  (src.residency.mdl.isSome && srcMap) && (dst.residency.mdl.isSome && dstMap) &&
    (src.ka.pitch != 0 && dst.ka.pitch != 0)

def inlineCopy (srcRect dstRect : Rect) (src dst : Allocation) (srcMap dstMap : Bool) :
    List Copy :=
  if inlineRuns src dst srcMap dstMap then
    copyRows (inlineRow srcRect dstRect src.ka dst.ka) dstRect.height.toInt.toNat 0
  else []

def kmdPresent (args : Option PresentArgs) (srcMap dstMap : Bool) : PresentOut :=
  match args with
  | none => ⟨.invalidParameter, none, [], false⟩
  | some p =>
    if !p.blt ∨ p.numSrcAllocations < 1 ∨ p.numDstAllocations < 1 ∨ !p.dmaBufferPrivateData ∨
        p.dmaBufferPrivateDataSize < bltDescBytes then ⟨.success, none, [], false⟩
    else
      match p.allocationList with
      | some (some src, some dst) =>
        let desc : BltDesc :=
          { magic := bltDescMagic
            subRectCnt := p.subRectCnt
            src := some src
            dst := some dst
            srcLeft := p.srcRect.left
            srcTop := p.srcRect.top
            dstLeft := p.dstRect.left
            dstTop := p.dstRect.top
            dstRight := p.dstRect.right
            dstBottom := p.dstRect.bottom }
        ⟨.success, some desc, inlineCopy p.srcRect p.dstRect src dst srcMap dstMap,
          p.dmaBuffer && decide (4 ≤ p.dmaSize)⟩
      | _ => ⟨.success, none, [], false⟩

/-- Every byte of an access of `len` bytes at `off` is one of the first `bytes`. An offset is an
address minus the base, so it wraps like one. -/
def Within (off len : Word) (bytes : ℕ) : Prop :=
  ∀ k < len.toNat, (off + BitVec.ofNat 64 k).toNat < bytes

section Rows

variable {row : ℕ → Row} {left y : ℕ} {c : Copy}

/-- The copies are those of the rows that the loop comes to. -/
theorem mem_copyRows_iff : c ∈ copyRows row left y ↔
    ∃ j, y ≤ j ∧ j < y + left ∧ row j = .copy c ∧ ∀ i, y ≤ i → i < j → row i ≠ .stop := by
  induction left generalizing y with
  | zero =>
    refine iff_of_false (List.not_mem_nil) ?_
    rintro ⟨j, h1, h2, -⟩
    omega
  | succ left ih =>
    rw [copyRows]
    cases hrow : row y with
    | skip =>
      rw [ih]
      constructor
      · rintro ⟨j, h1, h2, hj, hbefore⟩
        refine ⟨j, by omega, by omega, hj, fun i hi hij => ?_⟩
        obtain rfl | hi := Nat.eq_or_lt_of_le hi
        · simp [hrow]
        · exact hbefore i hi hij
      · rintro ⟨j, h1, h2, hj, hbefore⟩
        obtain rfl | h1 := Nat.eq_or_lt_of_le h1
        · simp [hrow] at hj
        · exact ⟨j, h1, by omega, hj, fun i hi hij => hbefore i (by omega) hij⟩
    | stop =>
      refine iff_of_false (List.not_mem_nil) ?_
      rintro ⟨j, h1, h2, hj, hbefore⟩
      obtain rfl | h1 := Nat.eq_or_lt_of_le h1
      · simp [hrow] at hj
      · exact hbefore y (Nat.le_refl y) h1 hrow
    | copy c' =>
      rw [List.mem_cons, ih]
      constructor
      · rintro (rfl | ⟨j, h1, h2, hj, hbefore⟩)
        · exact ⟨y, Nat.le_refl y, by omega, hrow, fun i h1 h2 => absurd h2 (by omega)⟩
        · refine ⟨j, by omega, by omega, hj, fun i hi hij => ?_⟩
          obtain rfl | hi := Nat.eq_or_lt_of_le hi
          · simp [hrow]
          · exact hbefore i hi hij
      · rintro ⟨j, h1, h2, hj, hbefore⟩
        obtain rfl | h1 := Nat.eq_or_lt_of_le h1
        · exact .inl (Row.copy.inj (hj.symm.trans hrow))
        · exact .inr ⟨j, h1, by omega, hj, fun i hi hij => hbefore i (by omega) hij⟩

end Rows

section Words

theorem wide_eq (x : BitVec 32) : x.setWidth 64 = BitVec.ofInt 64 (x.toNat : ℤ) := by
  rw [BitVec.ofInt_natCast, BitVec.ofNat_toNat]

theorem rowOffset_eq (row pitch left bpp : BitVec 32) : rowOffset row pitch left bpp =
    BitVec.ofInt 64 (row.toInt * pitch.toNat + left.toInt * bpp.toNat) := by
  rw [rowOffset, BitVec.ofInt_add, BitVec.ofInt_mul, BitVec.ofInt_mul, ← wide_eq, ← wide_eq]
  rfl

theorem rowBytes_eq (width bpp : BitVec 32) :
    rowBytes width bpp = BitVec.ofInt 64 (width.toInt * bpp.toNat) := by
  rw [rowBytes, BitVec.ofInt_mul, ← wide_eq]
  rfl

theorem ofInt_toNat (z : ℤ) : ((BitVec.ofInt 64 z).toNat : ℤ) = z % 2 ^ 64 := by
  rw [BitVec.toNat_ofInt]
  omega

/-- The number of a row, counted from a top that may be negative. -/
theorem row_toInt (top : BitVec 32) {y : ℕ} (hy : y < 2 ^ 31) :
    (top + BitVec.ofNat 32 y).toInt =
      if top.toInt + y < 2 ^ 31 then top.toInt + y else top.toInt + y - 2 ^ 32 := by
  have h := top.toInt_lt
  have h' := top.le_toInt
  have hnat : (BitVec.ofNat 32 y).toInt = y := by
    rw [BitVec.toInt_ofNat', Int.bmod_def]
    split <;> omega
  rw [BitVec.toInt_add, hnat, Int.bmod_def]
  split <;> split <;> omega

variable {off len : Word} {bytes : ℕ}

theorem within_of_le (h : off.toNat + len.toNat ≤ bytes) : Within off len bytes := by
  intro k hk
  rw [BitVec.toNat_add, BitVec.toNat_ofNat]
  omega

theorem within_iff (hbytes : bytes < 2 ^ 64) (hlen : 0 < len.toNat) :
    Within off len bytes ↔ off.toNat + len.toNat ≤ bytes := by
  refine ⟨fun h => ?_, within_of_le⟩
  have hoff := off.isLt
  have hl := len.isLt
  by_contra hno
  by_cases hwrap : off.toNat + len.toNat ≤ 2 ^ 64
  · have hlast := h (len.toNat - 1) (by omega)
    rw [BitVec.toNat_add, BitVec.toNat_ofNat] at hlast
    omega
  · have htop := h (2 ^ 64 - 1 - off.toNat) (by omega)
    rw [BitVec.toNat_add, BitVec.toNat_ofNat] at htop
    omega

end Words

end WinMali.PresentBlt
