import WinMaliKmd.PresentBlt

/-!
# Bounds of the copies

Both copies check each row against the two allocations. The deferred one has excluded negative
rectangles before; the inline one has not, and its check adds before it compares.
-/

set_option autoImplicit false

namespace WinMali.PresentBounds
open WinMali.Lpae WinMali.AllocSizes WinMali.ApertureRoots WinMali.ApertureAtomic WinMali.Runs
  WinMali.PresentBlt
open WinMali.ApertureWalk (Replies Mmu)
open WinMali.ResidencyStash (Machine Books)

/-- What a copy reads is in the pages of the source, and what it writes in the destination's. -/
def Copy.InPages (c : Copy) (src dst : Allocation) : Prop :=
  Within c.srcOff c.bytes (4096 * src.residency.pageCount) ∧
    Within c.dstOff c.bytes (4096 * dst.residency.pageCount)

/-- The machine has this note for one of its allocations. -/
def Noted (m : Machine) (a : Allocation) : Prop := ∃ h, m.allocations h = some a.residency

section Stash

variable {s : Machine} {books : Books} {x : Machine × Books}

/-- No map of more pages than the aperture has goes through. -/
def Capped (s : Machine) : Prop := ∀ h r, s.allocations h = some r → r.pageCount ≤ 32768

theorem setPtes_pages {m : Mmu} {r : Request} (h : (ApertureWalk.setPtes m r).1 = .success) :
    r.pageCount ≤ 32768 := by
  unfold ApertureWalk.setPtes at h
  split at h
  · cases h
  split at h
  · cases h
  · rename_i hcount
    have hcap : windowBytes / 4096 = 32768 := by decide
    omega

theorem setResidency_capped (C : Capped s) (a : ℕ) (r₀ : Residency) (h₀ : r₀.pageCount ≤ 32768) :
    Capped (ResidencyStash.setResidency s a r₀) := by
  intro h r hr
  obtain rfl | hne := eq_or_ne h a
  · rw [ResidencyStash.setResidency_self] at hr
    obtain ⟨_, -, rfl⟩ := Option.map_eq_some_iff.mp hr
    exact h₀
  · rw [ResidencyStash.setResidency_ne s r₀ hne] at hr
    exact C h r hr

theorem apply_capped (C : Capped s) (op : Op) : Capped (ResidencyStash.apply s op) := by
  cases op with
  | map b =>
    rcases ResidencyStash.map_cases s b with h | ⟨mdl, -, h | ⟨hok, h⟩⟩ <;> rw [h]
    · exact C
    · exact C
    · refine setResidency_capped (s := { s with mmu := _ }) C b.hAllocation _ ?_
      have hpages := setPtes_pages (r := ⟨apertureVa b.offsetInPages,
        some (mdlFrame mdl b.mdlOffset), 0, b.numberOfPages % 2 ^ 32, pageAttrRwNx⟩) (m := s.mmu)
      simp only [ResidencyStash.mapCall, ApertureWalk.call, ApertureWalk.mapGpuPfnRange] at hok
      split at hok
      · cases hok
      · exact hpages hok
  | unmap hAllocation offsetInPages numberOfPages =>
    simp only [ResidencyStash.apply, ResidencyStash.unmapApertureSegment]
    split
    · exact C
    · have hcleared := setResidency_capped C hAllocation ⟨none, 0, 0, 0⟩ (Nat.zero_le _)
      exact hcleared

theorem run_capped (r : Replies) (m : Mmu) (live : ℕ → Bool) (books : Books) {ops : List Op}
    (h : exec ResidencyStash.step (ResidencyStash.started r m live, books) ops = some x) :
    Capped x.1 := by
  let Inv : Machine × Books → Prop := fun x => Capped x.1
  change Inv x
  refine exec_invariant ?_ ?_ (guarded_true _ _ ops) h
  · intro x op y C _ hstep
    obtain rfl := Option.some.inj hstep
    exact apply_capped C op
  · intro h r hr
    simp only [ResidencyStash.started] at hr
    split at hr
    · obtain rfl := Option.some.inj hr
      exact Nat.zero_le _
    · cases hr

end Stash

section Deferred

variable {d : BltDesc} {src dst : Allocation} {width : BitVec 32} {c : Copy}

theorem residentBytes_toNat (h : src.residency.pageCount ≤ 32768) :
    (residentBytes src).toNat = 4096 * src.residency.pageCount := by
  rw [residentBytes, BitVec.toNat_shiftLeft, BitVec.toNat_ofNat, Nat.shiftLeft_eq]
  omega

/-- A row that is let through, when nothing is negative and the allocation is small: its bytes are
inside, and its number is small as well. -/
theorem row_fits {row pitch left width : BitVec 32} {size : Word} (hrow : 0 ≤ row.toInt)
    (hpitch : pitch ≠ 0) (hleft : 0 ≤ left.toInt) (hwidth : 0 < width.toInt)
    (hsize : size.toNat ≤ 2 ^ 27)
    (h : ¬rowOffset row pitch left 4 + rowBytes width 4 > size) :
    (rowOffset row pitch left 4).toNat + (rowBytes width 4).toNat ≤ size.toNat ∧
      row.toInt ≤ 2 ^ 27 := by
  have hoff := ofInt_toNat (row.toInt * pitch.toNat + left.toInt * (4 : BitVec 32).toNat)
  have hlen := ofInt_toNat (width.toInt * (4 : BitVec 32).toNat)
  rw [← rowOffset_eq] at hoff
  rw [← rowBytes_eq] at hlen
  have hfour : ((4 : BitVec 32).toNat : ℤ) = 4 := rfl
  rw [hfour] at hoff hlen
  have hr := row.toInt_lt
  have hl := left.toInt_lt
  have hw := width.toInt_lt
  have hp := pitch.isLt
  have hp1 : (1 : ℤ) ≤ pitch.toNat := by
    have hne : pitch.toNat ≠ 0 := fun h => hpitch (BitVec.eq_of_toNat_eq h)
    omega
  have hlow : row.toInt ≤ row.toInt * pitch.toNat := le_mul_of_one_le_right hrow hp1
  have hhigh : row.toInt * pitch.toNat ≤ 2 ^ 31 * 2 ^ 32 :=
    mul_le_mul (by omega) (by omega) (by omega) (by omega)
  have hsum : (rowOffset row pitch left 4 + rowBytes width 4).toNat ≤ size.toNat := Nat.not_lt.mp h
  rw [BitVec.toNat_add] at hsum
  generalize row.toInt * pitch.toNat = area at *
  omega

theorem bltRow_copy {r : ℕ} (h : bltRow d src dst width r ≠ .stop) :
    ¬rowOffset (d.srcTop + BitVec.ofNat 32 r) src.ka.pitch d.srcLeft 4 + rowBytes width 4 >
        residentBytes src ∧
      ¬rowOffset (d.dstTop + BitVec.ofNat 32 r) dst.ka.pitch d.dstLeft 4 + rowBytes width 4 >
        residentBytes dst ∧
      bltRow d src dst width r =
        .copy ⟨rowOffset (d.srcTop + BitVec.ofNat 32 r) src.ka.pitch d.srcLeft 4,
          rowOffset (d.dstTop + BitVec.ofNat 32 r) dst.ka.pitch d.dstLeft 4, rowBytes width 4⟩ := by
  unfold bltRow at h ⊢
  dsimp only at h ⊢
  split at h
  · exact absurd rfl h
  · rename_i hno
    rw [if_neg hno]
    exact ⟨fun h => hno (.inl h), fun h => hno (.inr h), rfl⟩

/-- What the copy has excluded before its loop. -/
structure Guarded (d : BltDesc) (src dst : Allocation) (width : BitVec 32) : Prop where
  srcPitch : src.ka.pitch ≠ 0
  dstPitch : dst.ka.pitch ≠ 0
  srcLeft : 0 ≤ d.srcLeft.toInt
  srcTop : 0 ≤ d.srcTop.toInt
  dstLeft : 0 ≤ d.dstLeft.toInt
  dstTop : 0 ≤ d.dstTop.toInt
  width : 0 < width.toInt
  srcPages : src.residency.pageCount ≤ 32768
  dstPages : dst.residency.pageCount ≤ 32768

theorem bltRow_inside (G : Guarded d src dst width) {r : ℕ} (hr : r < 2 ^ 31)
    (hs : d.srcTop.toInt + r < 2 ^ 31) (hd : d.dstTop.toInt + r < 2 ^ 31)
    (h : bltRow d src dst width r ≠ .stop) :
    ∃ c, bltRow d src dst width r = .copy c ∧ Copy.InPages c src dst ∧
      d.srcTop.toInt + r ≤ 2 ^ 27 ∧ d.dstTop.toInt + r ≤ 2 ^ 27 := by
  obtain ⟨hsrc, hdst, heq⟩ := bltRow_copy h
  have hst := row_toInt d.srcTop hr
  have hdt := row_toInt d.dstTop hr
  rw [if_pos hs] at hst
  rw [if_pos hd] at hdt
  have h1 := G.srcTop
  have h2 := G.dstTop
  have hsbytes := residentBytes_toNat G.srcPages
  have hdbytes := residentBytes_toNat G.dstPages
  have hsp := G.srcPages
  have hdp := G.dstPages
  obtain ⟨hsin, hslow⟩ := row_fits (by omega) G.srcPitch G.srcLeft G.width (by omega) hsrc
  obtain ⟨hdin, hdlow⟩ := row_fits (by omega) G.dstPitch G.dstLeft G.width (by omega) hdst
  rw [hsbytes] at hsin
  rw [hdbytes] at hdin
  exact ⟨_, heq, ⟨within_of_le hsin, within_of_le hdin⟩, by omega, by omega⟩

/-- The row numbers do not come near an overflow: a row that high would have been refused. -/
theorem rows_low (G : Guarded d src dst width) {j : ℕ}
    (h : ∀ i < j, bltRow d src dst width i ≠ .stop) :
    d.srcTop.toInt + j < 2 ^ 31 ∧ d.dstTop.toInt + j < 2 ^ 31 := by
  induction j with
  | zero =>
    have hs := d.srcTop.toInt_lt
    have hd := d.dstTop.toInt_lt
    omega
  | succ j ih =>
    obtain ⟨hs, hd⟩ := ih fun i hi => h i (by omega)
    have h1 := G.srcTop
    obtain ⟨c, -, -, hs', hd'⟩ := bltRow_inside G (by omega) hs hd (h j (by omega))
    omega

theorem bltRows_inside (hsp : src.ka.pitch ≠ 0) (hdp : dst.ka.pitch ≠ 0)
    (hs : src.residency.pageCount ≤ 32768) (hd : dst.residency.pageCount ≤ 32768)
    (hc : c ∈ bltRows d src dst) : Copy.InPages c src dst := by
  unfold bltRows at hc
  dsimp only at hc
  split at hc
  · cases hc
  rename_i hguard
  split at hc
  · cases hc
  rename_i hclamped
  have G : Guarded d src dst (clampWidth d src (d.dstRight - d.dstLeft)) := by
    constructor <;> first | assumption | omega
  obtain ⟨j, -, -, hj, hbefore⟩ := mem_copyRows_iff.mp hc
  obtain ⟨hsj, hdj⟩ := rows_low G fun i hi => hbefore i (Nat.zero_le i) hi
  have h1 := G.srcTop
  obtain ⟨c', hc', hin, -⟩ := bltRow_inside G (by omega) hsj hdj (by rw [hj]; nofun)
  obtain rfl := Row.copy.inj (hc'.symm.trans hj)
  exact hin

end Deferred

theorem executeBlt_inside (r : Replies) (m : Mmu) (live : ℕ → Bool) (books : Books)
    (ops : List Op) (x : Machine × Books)
    (hrun : exec ResidencyStash.step (ResidencyStash.started r m live, books) ops = some x)
    (d : BltDesc) (src dst : Allocation) (hs : d.src = some src) (hd : d.dst = some dst)
    (hsrc : Noted x.1 src) (hdst : Noted x.1 dst) (srcMap dstMap : Bool) :
    ∀ c ∈ presentExecuteBlt d srcMap dstMap, Copy.InPages c src dst := by
  have C := run_capped r m live books hrun
  obtain ⟨hs', hsnote⟩ := hsrc
  obtain ⟨hd', hdnote⟩ := hdst
  intro c hc
  simp only [presentExecuteBlt, hs, hd] at hc
  split at hc
  · cases hc
  split at hc
  · cases hc
  split at hc
  · cases hc
  rename_i hpitch
  split at hc
  · cases hc
  · exact bltRows_inside (fun h => hpitch (.inl h)) (fun h => hpitch (.inr h))
      (C hs' _ hsnote) (C hd' _ hdnote) hc

/-- Two allocations of a page each, side by side in the aperture. -/
def twoPages : List Op := [.map ⟨7, 0, 1, some [0x9], 0⟩, .map ⟨8, 1, 1, some [0x777], 0⟩]

def pageSurface (offsetInPages : ℕ) (frame : Word) : Allocation :=
  ⟨true, ⟨4096, 4096, 16, 64, 64, 87, 2⟩, ⟨some [frame], 0, 1, apertureVa offsetInPages⟩⟩

def wholeBlt : BltDesc :=
  ⟨bltDescMagic, 0, some (pageSurface 0 0x9), some (pageSurface 1 0x777), 0, 0, 0, 0, 16, 64⟩

def fields (r : Residency) : Option (List Word) × ℕ × ℕ × Word :=
  (r.mdl, r.mdlOffset, r.pageCount, r.gpuVa)

theorem noted_of {m : Machine} {a : Allocation} (h : ℕ)
    (hfields : (m.allocations h).map fields = some (fields a.residency)) : Noted m a := by
  obtain ⟨r, hr, heq⟩ := Option.map_eq_some_iff.mp hfields
  refine ⟨h, hr.trans (congrArg some ?_)⟩
  rcases a with ⟨magic, ka, residency⟩
  cases r
  cases residency
  simpa [fields] using heq

theorem wholeBlt_inside : ∃ c ∈ presentExecuteBlt wholeBlt true true,
    Copy.InPages c (pageSurface 0 0x9) (pageSurface 1 0x777) := by
  have hcopies : presentExecuteBlt wholeBlt true true ≠ [] := by decide +kernel
  obtain ⟨c, hc⟩ := List.exists_mem_of_ne_nil _ hcopies
  exact ⟨c, hc, executeBlt_inside ApertureWalk.granted ApertureWalk.cold (fun _ => true)
    (fun _ => none) twoPages _ rfl wholeBlt _ _ rfl rfl (noted_of 7 (by decide +kernel))
    (noted_of 8 (by decide +kernel)) true true c hc⟩

/-- A `Present` that gets as far as looking at the two allocations. -/
def PresentArgs.Takes (p : PresentArgs) (src dst : Allocation) : Prop :=
  p.blt = true ∧ 1 ≤ p.numSrcAllocations ∧ 1 ≤ p.numDstAllocations ∧
    p.dmaBufferPrivateData = true ∧ bltDescBytes ≤ p.dmaBufferPrivateDataSize ∧
    p.allocationList = some (some src, some dst)

/-- The copies of a call stay in the sizes of the allocations. -/
def InlineInside (p : PresentArgs) (srcMap dstMap : Bool) : Prop :=
  ∀ src dst, PresentArgs.Takes p src dst → ∀ c ∈ (kmdPresent (some p) srcMap dstMap).copies,
    Within c.srcOff c.bytes src.ka.size.toNat ∧ Within c.dstOff c.bytes dst.ka.size.toNat

section Inline

variable (srcRect dstRect : Rect) (src dst : KmdAllocation)

/-- The rows that are not skipped: neither row number is negative, or has come round to it. -/
def Shown (y : ℕ) : Prop :=
  (0 ≤ srcRect.top.toInt + y ∧ srcRect.top.toInt + y < 2 ^ 31) ∧
    (0 ≤ dstRect.top.toInt + y ∧ dstRect.top.toInt + y < 2 ^ 31) ∧ 0 < dstRect.width.toInt

/-- Where row `y` of a rectangle begins, as an integer. -/
def rowStart (r : Rect) (pitch bpp : BitVec 32) (y : ℕ) : ℤ :=
  (r.top.toInt + y) * pitch.toNat + r.left.toInt * bpp.toNat

def rowLength : ℤ := dstRect.width.toInt * (inlineBpp dst).toNat

/-- The check of the row, on integers modulo 2^64. -/
def Admitted (y : ℕ) : Prop :=
  (rowStart srcRect src.pitch (inlineBpp dst) y + rowLength dstRect dst) % 2 ^ 64 ≤ src.size.toNat ∧
    (rowStart dstRect dst.pitch (inlineBpp dst) y + rowLength dstRect dst) % 2 ^ 64 ≤
      dst.size.toNat

/-- The bytes from `start` do not come to the first byte from the left, and end below 2^64. -/
def Unwrapped (start len : ℤ) : Prop := ¬(start < 0 ∧ 0 ≤ start + len) ∧ start + len < 2 ^ 64

def Straight (y : ℕ) : Prop :=
  Unwrapped (rowStart srcRect src.pitch (inlineBpp dst) y) (rowLength dstRect dst) ∧
    Unwrapped (rowStart dstRect dst.pitch (inlineBpp dst) y) (rowLength dstRect dst)

/-- Every row that the loop comes to and lets through is straight. -/
def RowsStraight : Prop :=
  ∀ y : ℕ, y < dstRect.height.toInt.toNat → Shown srcRect dstRect y →
    (∀ i ≤ y, Shown srcRect dstRect i → Admitted srcRect dstRect src dst i) →
      Straight srcRect dstRect src dst y

variable {srcRect dstRect src dst} {y : ℕ}

theorem inlineBpp_ne (dst : KmdAllocation) : inlineBpp dst ≠ 0 := by
  unfold inlineBpp
  generalize (if dst.width ≠ 0 then dst.pitch / dst.width else 4) = bpp
  dsimp only
  split
  · decide
  · assumption

theorem rowLength_pos (dst : KmdAllocation) (h : 0 < dstRect.width.toInt) :
    0 < rowLength dstRect dst ∧ rowLength dstRect dst < 2 ^ 63 := by
  have hbpp : (inlineBpp dst).toNat ≠ 0 := fun h => inlineBpp_ne dst (BitVec.eq_of_toNat_eq h)
  have hlt := (inlineBpp dst).isLt
  have hw := dstRect.width.toInt_lt
  have hhigh : dstRect.width.toInt * (inlineBpp dst).toNat ≤ (2 ^ 31 - 1) * (2 ^ 32 - 1) :=
    mul_le_mul (by omega) (by omega) (by omega) (by omega)
  have hlow : 0 < dstRect.width.toInt * (inlineBpp dst).toNat := mul_pos h (by omega)
  unfold rowLength
  omega

theorem rowLength_toNat (dst : KmdAllocation) (h : 0 < dstRect.width.toInt) :
    ((rowBytes dstRect.width (inlineBpp dst)).toNat : ℤ) = rowLength dstRect dst := by
  obtain ⟨hpos, hlt⟩ := rowLength_pos dst h
  rw [rowBytes_eq, ofInt_toNat]
  exact Int.emod_eq_of_lt hpos.le (by unfold rowLength at hlt; omega)

theorem rowStart_bounds (r : Rect) (pitch bpp : BitVec 32) (h : 0 ≤ r.top.toInt + y)
    (h' : r.top.toInt + y < 2 ^ 31) :
    -2 ^ 63 ≤ rowStart r pitch bpp y ∧ rowStart r pitch bpp y < 2 ^ 64 := by
  have hp := pitch.isLt
  have hb := bpp.isLt
  have hl := r.left.toInt_lt
  have hl' := r.left.le_toInt
  have harea : (r.top.toInt + y) * pitch.toNat ≤ (2 ^ 31 - 1) * (2 ^ 32 - 1) :=
    mul_le_mul (by omega) (by omega) (by omega) (by omega)
  have harea' : 0 ≤ (r.top.toInt + y) * pitch.toNat := mul_nonneg h (by omega)
  have hcol : r.left.toInt * bpp.toNat ≤ (2 ^ 31 - 1) * bpp.toNat :=
    mul_le_mul_of_nonneg_right (by omega) (by omega)
  have hcol' : -2 ^ 31 * bpp.toNat ≤ r.left.toInt * bpp.toNat :=
    mul_le_mul_of_nonneg_right (by omega) (by omega)
  unfold rowStart
  omega

/-- One side of a row. -/
theorem side_iff {top left pitch bpp width : BitVec 32} {start len : ℤ} (size : Word)
    (hbounds : -2 ^ 63 ≤ start ∧ start < 2 ^ 64)
    (hstart : ((rowOffset top pitch left bpp).toNat : ℤ) = start % 2 ^ 64)
    (hlen : ((rowBytes width bpp).toNat : ℤ) = len) (hpos : 0 < len) :
    (¬rowOffset top pitch left bpp + rowBytes width bpp > size ↔
      (start + len) % 2 ^ 64 ≤ size.toNat) ∧
    ((start + len) % 2 ^ 64 ≤ size.toNat →
      (Within (rowOffset top pitch left bpp) (rowBytes width bpp) size.toNat ↔
        Unwrapped start len)) := by
  have hsize := size.isLt
  have hlt := (rowBytes width bpp).isLt
  constructor
  · rw [gt_iff_lt, BitVec.lt_def, BitVec.toNat_add]
    omega
  · intro hfits
    rw [within_iff size.isLt (by omega), Unwrapped]
    omega

theorem shown_iff (hy : y < 2 ^ 31) : Shown srcRect dstRect y ↔
    ¬((srcRect.top + BitVec.ofNat 32 y).toInt < 0 ∨ (dstRect.top + BitVec.ofNat 32 y).toInt < 0 ∨
      dstRect.width.toInt ≤ 0) := by
  have hs := srcRect.top.toInt_lt
  have hs' := srcRect.top.le_toInt
  have hd := dstRect.top.toInt_lt
  have hd' := dstRect.top.le_toInt
  rw [row_toInt _ hy, row_toInt _ hy]
  unfold Shown
  split <;> split <;> omega

theorem rowOffset_start (r : Rect) (pitch bpp : BitVec 32) (hy : y < 2 ^ 31)
    (h : r.top.toInt + y < 2 ^ 31) :
    ((rowOffset (r.top + BitVec.ofNat 32 y) pitch r.left bpp).toNat : ℤ) =
      rowStart r pitch bpp y % 2 ^ 64 := by
  rw [rowOffset_eq, ofInt_toNat, row_toInt _ hy, if_pos h]
  rfl

theorem inlineRow_skip (hy : y < 2 ^ 31) (h : ¬Shown srcRect dstRect y) :
    inlineRow srcRect dstRect src dst y = .skip := by
  rw [shown_iff hy, not_not] at h
  unfold inlineRow
  dsimp only
  rw [if_pos h]

/-- A row that is shown: copied when it is admitted, and the end of the loop when it is not. -/
theorem inlineRow_shown (hy : y < 2 ^ 31) (h : Shown srcRect dstRect y) :
    (Admitted srcRect dstRect src dst y → ∃ c, inlineRow srcRect dstRect src dst y = .copy c ∧
      (Within c.srcOff c.bytes src.size.toNat ∧ Within c.dstOff c.bytes dst.size.toNat ↔
        Straight srcRect dstRect src dst y)) ∧
    (¬Admitted srcRect dstRect src dst y → inlineRow srcRect dstRect src dst y = .stop) := by
  have hlen := rowLength_toNat dst h.2.2
  have hpos := (rowLength_pos dst h.2.2).1
  obtain ⟨hsadm, hsin⟩ := side_iff src.size
    (rowStart_bounds srcRect src.pitch (inlineBpp dst) h.1.1 h.1.2)
    (rowOffset_start srcRect src.pitch (inlineBpp dst) hy h.1.2) hlen hpos
  obtain ⟨hdadm, hdin⟩ := side_iff dst.size
    (rowStart_bounds dstRect dst.pitch (inlineBpp dst) h.2.1.1 h.2.1.2)
    (rowOffset_start dstRect dst.pitch (inlineBpp dst) hy h.2.1.2) hlen hpos
  have hskip := (shown_iff hy).mp h
  unfold inlineRow
  dsimp only
  rw [if_neg hskip]
  constructor
  · intro hadm
    rw [if_neg (not_or.mpr ⟨hsadm.mpr hadm.1, hdadm.mpr hadm.2⟩)]
    exact ⟨_, rfl, and_congr (hsin hadm.1) (hdin hadm.2)⟩
  · intro hadm
    rw [if_pos]
    by_contra hno
    obtain ⟨hs, hd⟩ := not_or.mp hno
    exact hadm ⟨hsadm.mp hs, hdadm.mp hd⟩

/-- The loop comes past the rows that are skipped or admitted. -/
theorem inlineRow_goes (hy : y < 2 ^ 31) : inlineRow srcRect dstRect src dst y ≠ .stop ↔
    (Shown srcRect dstRect y → Admitted srcRect dstRect src dst y) := by
  constructor
  · intro hgo hshown
    by_contra hadm
    exact hgo ((inlineRow_shown hy hshown).2 hadm)
  · intro hadm hstop
    by_cases hshown : Shown srcRect dstRect y
    · obtain ⟨c, hc, -⟩ := (inlineRow_shown hy hshown).1 (hadm hshown)
      rw [hc] at hstop
      cases hstop
    · rw [inlineRow_skip hy hshown] at hstop
      cases hstop

theorem inlineRows_iff : (∀ c ∈ copyRows (inlineRow srcRect dstRect src dst)
      dstRect.height.toInt.toNat 0,
        Within c.srcOff c.bytes src.size.toNat ∧ Within c.dstOff c.bytes dst.size.toNat) ↔
    RowsStraight srcRect dstRect src dst := by
  have hrows : dstRect.height.toInt.toNat < 2 ^ 31 := by
    have h := dstRect.height.toInt_lt
    omega
  constructor
  · intro h y hy hshown hbefore
    have hadm := hbefore y (Nat.le_refl y) hshown
    obtain ⟨c, hc, hiff⟩ := (inlineRow_shown (by omega) hshown).1 hadm
    refine hiff.mp (h c (mem_copyRows_iff.mpr ⟨y, Nat.zero_le y, by omega, hc, ?_⟩))
    exact fun i _ hi => (inlineRow_goes (by omega)).mpr (hbefore i hi.le)
  · intro h c hc
    obtain ⟨y, -, hy, hrow, hbefore⟩ := mem_copyRows_iff.mp hc
    have hshown : Shown srcRect dstRect y := by
      by_contra hno
      rw [inlineRow_skip (by omega) hno] at hrow
      cases hrow
    have hgoes : ∀ i ≤ y, Shown srcRect dstRect i → Admitted srcRect dstRect src dst i := by
      intro i hi
      refine (inlineRow_goes (by omega)).mp ?_
      obtain rfl | hi := Nat.eq_or_lt_of_le hi
      · rw [hrow]
        nofun
      · exact hbefore i (Nat.zero_le i) hi
    obtain ⟨c', hc', hiff⟩ := (inlineRow_shown (by omega) hshown).1
      (hgoes y (Nat.le_refl y) hshown)
    obtain rfl := Row.copy.inj (hc'.symm.trans hrow)
    exact hiff.mpr (h y (by omega) hshown hgoes)

end Inline

theorem PresentArgs.Takes.goes {p : PresentArgs} {src dst : Allocation}
    (h : PresentArgs.Takes p src dst) :
    ¬(!p.blt ∨ p.numSrcAllocations < 1 ∨ p.numDstAllocations < 1 ∨
      !p.dmaBufferPrivateData ∨ p.dmaBufferPrivateDataSize < bltDescBytes) ∧
      p.allocationList = some (some src, some dst) := by
  obtain ⟨hblt, hsrc, hdst, hdata, hsize, hlist⟩ := h
  refine ⟨?_, hlist⟩
  simp only [hblt, hdata, Bool.not_true, Bool.false_eq_true, false_or]
  omega

theorem kmdPresent_copies {p : PresentArgs} {src dst : Allocation}
    (h : PresentArgs.Takes p src dst) (srcMap dstMap : Bool) :
    (kmdPresent (some p) srcMap dstMap).copies =
      inlineCopy p.srcRect p.dstRect src dst srcMap dstMap := by
  obtain ⟨hgoes, hlist⟩ := PresentArgs.Takes.goes h
  simp only [kmdPresent, if_neg hgoes, hlist]

theorem kmdPresent_inside_iff (p : PresentArgs) (srcMap dstMap : Bool) :
    InlineInside p srcMap dstMap ↔
      ∀ src dst, PresentArgs.Takes p src dst → inlineRuns src dst srcMap dstMap = true →
        RowsStraight p.srcRect p.dstRect src.ka dst.ka := by
  constructor
  · intro h src dst htakes hruns
    have hin := h src dst htakes
    rw [kmdPresent_copies htakes, inlineCopy, if_pos hruns] at hin
    exact inlineRows_iff.mp hin
  · intro h src dst htakes
    rw [kmdPresent_copies htakes, inlineCopy]
    split
    · exact inlineRows_iff.mpr (h src dst htakes ‹_›)
    · nofun

/-- A window that hangs over the left edge of its surface by a pixel. -/
def hangsOver : PresentArgs :=
  ⟨true, some (some (pageSurface 0 0x9), some (pageSurface 1 0x777)), 1, 1, true, 48, 1,
    ⟨0xFFFFFFFF, 0, 1, 1⟩, ⟨0, 0, 2, 1⟩, true, 64⟩

theorem hangsOver_outside : ¬InlineInside hangsOver true true := by
  intro h
  obtain ⟨hin, -⟩ := h _ _ ⟨rfl, by decide, by decide, rfl, by decide, rfl⟩
    ⟨0xFFFFFFFFFFFFFFFC, 0, 8⟩ (by decide +kernel)
  exact absurd (hin 0 (by decide)) (by decide)

end WinMali.PresentBounds
