import WinMaliKmd.PresentBounds

/-!
# The two copies of a frame

A frame is copied by `Present` and again from its descriptor. On a surface whose rows hold less
than five bytes for each pixel, both are the copy of the pixels of the rectangle and nothing more.
-/

set_option autoImplicit false

namespace WinMali.PresentAgree
open WinMali.Lpae WinMali.AllocSizes WinMali.ApertureRoots WinMali.ApertureAtomic WinMali.Runs
  WinMali.PresentBlt WinMali.PresentBounds
open WinMali.ApertureWalk (Replies Mmu)
open WinMali.ResidencyStash (Machine Books)

/-- What the pages of an allocation hold, by the offset from the first. -/
abbrev Contents := Word → BitVec 8

def Copy.Writes (c : Copy) (o : Word) : Prop := (o - c.dstOff).toNat < c.bytes.toNat

instance (c : Copy) (o : Word) : Decidable (Copy.Writes c o) :=
  inferInstanceAs (Decidable (_ < _))

def copyMemory (s d : Contents) (c : Copy) : Contents := fun o =>
  if Copy.Writes c o then s (c.srcOff + (o - c.dstOff)) else d o

/-- The destination after some copies. The source is another allocation and stays as it is. -/
def after (cs : List Copy) (s d : Contents) : Contents := cs.foldl (copyMemory s) d

section Copies

variable {cs : List Copy} {s d d' : Contents} {o : Word}

theorem after_unwritten (h : ∀ c ∈ cs, ¬Copy.Writes c o) : after cs s d o = d o := by
  induction cs generalizing d with
  | nil => rfl
  | cons c cs ih =>
    refine (ih fun c' hc' => h c' (List.mem_cons_of_mem _ hc')).trans ?_
    exact if_neg (h c List.mem_cons_self)

/-- A byte that is written does not depend on what was there. -/
theorem after_written (d' : Contents) (h : ∃ c ∈ cs, Copy.Writes c o) :
    after cs s d o = after cs s d' o := by
  induction cs generalizing d d' with
  | nil =>
    obtain ⟨c, hc, -⟩ := h
    cases hc
  | cons c cs ih =>
    by_cases hlater : ∃ c' ∈ cs, Copy.Writes c' o
    · exact ih _ hlater
    · obtain ⟨c', hc', hw⟩ := h
      obtain rfl | hc' := List.mem_cons.mp hc'
      · have hrest : ∀ c ∈ cs, ¬Copy.Writes c o := fun c hc hw => hlater ⟨c, hc, hw⟩
        have hlast : ∀ d : Contents, after (c'::cs) s d o = s (c'.srcOff + (o - c'.dstOff)) :=
          fun d => (after_unwritten hrest).trans (if_pos hw)
        rw [hlast, hlast]
      · exact absurd ⟨c', hc', hw⟩ hlater

theorem after_again (cs : List Copy) (s d : Contents) :
    after cs s (after cs s d) = after cs s d := by
  funext o
  by_cases h : ∃ c ∈ cs, Copy.Writes c o
  · exact after_written d h
  · exact after_unwritten fun c hc hw => h ⟨c, hc, hw⟩

theorem after_const {v : BitVec 8} (h : ∃ c ∈ cs, Copy.Writes c o) :
    after cs (fun _ => v) d o = v := by
  rw [after_written (fun _ => v) h]
  induction cs with
  | nil => rfl
  | cons c cs ih =>
    have hsame : copyMemory (fun _ => v) (fun _ => v) c = fun _ => v := by
      funext o
      exact ite_self _
    by_cases hlater : ∃ c' ∈ cs, Copy.Writes c' o
    · rw [after, List.foldl_cons, hsame]
      exact ih hlater
    · rw [after, List.foldl_cons, hsame]
      exact after_unwritten fun c hc hw => hlater ⟨c, hc, hw⟩

theorem copyRows_map {row : ℕ → Row} {f : ℕ → Copy} {left y : ℕ}
    (h : ∀ i, y ≤ i → i < y + left → row i = .copy (f i)) :
    copyRows row left y = (List.range' y left).map f := by
  induction left generalizing y with
  | zero => rfl
  | succ left ih =>
    rw [copyRows, h y (Nat.le_refl y) (by omega), List.range'_succ, List.map_cons]
    exact congrArg _ (ih fun i hi hi' => h i (by omega) (by omega))

end Copies

/-- A rectangle of the pixels of a surface. A height of 0 counts as 1, as when it was created. -/
structure Inside (r : Rect) (ka : KmdAllocation) : Prop where
  left : 0 ≤ r.left.toInt
  top : 0 ≤ r.top.toInt
  width : r.left.toInt ≤ r.right.toInt
  height : r.top.toInt ≤ r.bottom.toInt
  right : r.right.toInt ≤ ka.width.toNat
  bottom : r.bottom.toInt ≤ max ka.height.toNat 1

structure OneToOne (srcRect dstRect : Rect) : Prop where
  width : srcRect.right.toInt - srcRect.left.toInt = dstRect.right.toInt - dstRect.left.toInt
  height : srcRect.bottom.toInt - srcRect.top.toInt = dstRect.bottom.toInt - dstRect.top.toInt

/-- An allocation that was recorded with rows of four bytes for each pixel, and of which the
machine notes that all pages are mapped. -/
structure Surface (m : Machine) (a : Allocation) : Prop where
  magic : a.magic = true
  recorded : ∃ info, a.ka = record info
  pitch : 4 * a.ka.width.toNat ≤ a.ka.pitch.toNat
  noted : Noted m a
  mapped : a.residency.mdl.isSome = true
  pages : 0 < a.residency.pageCount
  whole : a.ka.size.toNat = 4096 * a.residency.pageCount

structure Presented (m : Machine) (p : PresentArgs) (src dst : Allocation) : Prop where
  takes : PresentArgs.Takes p src dst
  srcSurface : Surface m src
  dstSurface : Surface m dst
  inSrc : Inside p.srcRect src.ka
  inDst : Inside p.dstRect dst.ka
  oneToOne : OneToOne p.srcRect p.dstRect

def Rect.Empty (r : Rect) : Prop := r.right = r.left ∨ r.bottom = r.top

/-- The bytes of row `y`, four for each pixel. -/
def pixelRow (srcRect dstRect : Rect) (src dst : KmdAllocation) (y : ℕ) : Copy :=
  ⟨BitVec.ofInt 64 (rowStart srcRect src.pitch 4 y),
    BitVec.ofInt 64 (rowStart dstRect dst.pitch 4 y),
    BitVec.ofInt 64 ((dstRect.right.toInt - dstRect.left.toInt) * 4)⟩

def pixelRows (srcRect dstRect : Rect) (src dst : KmdAllocation) : List Copy :=
  (List.range' 0 (dstRect.bottom.toInt - dstRect.top.toInt).toNat).map
    (pixelRow srcRect dstRect src dst)

/-- The copies that are made when the descriptor of a call is submitted. -/
def deferredCopies (out : PresentOut) (srcMap dstMap : Bool) : List Copy :=
  match out.desc with
  | some d => presentExecuteBlt d srcMap dstMap
  | none => []

/-- Each of the two is the copy of the pixels, and then the other changes nothing. -/
structure Agree (inline deferred pixels : List Copy) : Prop where
  now : ∀ s d, after inline s d = after pixels s d
  later : ∀ s d, after deferred s d = after pixels s d
  inlineFirst : ∀ s d, after deferred s (after inline s d) = after pixels s d
  deferredFirst : ∀ s d, after inline s (after deferred s d) = after pixels s d

/-- What the system answers when the copies ask for the addresses of the two MDLs. -/
structure Mappings where
  inlineSrc : Bool
  inlineDst : Bool
  deferredSrc : Bool
  deferredDst : Bool

def Mappings.All (maps : Mappings) : Prop :=
  maps.inlineSrc = true ∧ maps.inlineDst = true ∧ maps.deferredSrc = true ∧
    maps.deferredDst = true

def CopiesAgree (p : PresentArgs) (src dst : Allocation) (maps : Mappings) : Prop :=
  let out := kmdPresent (some p) maps.inlineSrc maps.inlineDst
  Agree out.copies (deferredCopies out maps.deferredSrc maps.deferredDst)
    (pixelRows p.srcRect p.dstRect src.ka dst.ka)

section Rects

variable {m : Machine} {a : Allocation} {r : Rect} {ka : KmdAllocation} {y : ℕ}

theorem Inside.width_toInt (I : Inside r ka) :
    (r.right - r.left).toInt = r.right.toInt - r.left.toInt := by
  have h1 := I.left
  have h2 := I.width
  have h3 := r.right.toInt_lt
  rw [BitVec.toInt_sub, Int.bmod_def]
  split <;> omega

theorem Inside.height_toInt (I : Inside r ka) :
    (r.bottom - r.top).toInt = r.bottom.toInt - r.top.toInt := by
  have h1 := I.top
  have h2 := I.height
  have h3 := r.bottom.toInt_lt
  rw [BitVec.toInt_sub, Int.bmod_def]
  split <;> omega

/-- A size that wrapped would have been less than a page. -/
theorem Surface.rows (S : Surface m a) :
    a.ka.pitch.toNat * max a.ka.height.toNat 1 ≤ a.ka.size.toNat := by
  obtain ⟨info, hka⟩ := S.recorded
  have hpages := S.pages
  have hwhole := S.whole
  have hpos : 0 < a.ka.size.toNat := by omega
  rw [hka] at hpos ⊢
  unfold record at hpos ⊢
  dsimp only at hpos ⊢
  split
  · rename_i b hb
    simp only [hb] at hpos ⊢
    have hbytes := surfaceBytes_toNat (backBufferPitch b) b.height b.size
    have hle := rowBytes_le (backBufferPitch b) b.height
    omega
  · rename_i b hb
    simp only [hb] at hpos ⊢
    have hbytes := surfaceBytes_toNat (standardPitch b) b.height b.size
    have hle := rowBytes_le (standardPitch b) b.height
    omega
  · simp

theorem Inside.row_end (I : Inside r ka) (bpp : BitVec 32)
    (hrows : ka.pitch.toNat * max ka.height.toNat 1 ≤ ka.size.toNat)
    (hbpp : bpp.toNat * ka.width.toNat ≤ ka.pitch.toNat)
    (hy : r.top.toInt + y < r.bottom.toInt) :
    0 ≤ rowStart r ka.pitch bpp y ∧
      rowStart r ka.pitch bpp y + (r.right.toInt - r.left.toInt) * bpp.toNat ≤ ka.size.toNat := by
  have hleft := I.left
  have htop := I.top
  have hwidth := I.width
  have hright := I.right
  have hbottom := I.bottom
  have hstart : 0 ≤ rowStart r ka.pitch bpp y :=
    add_nonneg (mul_nonneg (by omega) (by omega)) (mul_nonneg hleft (by omega))
  have hcols : r.right.toInt * bpp.toNat ≤ ka.pitch.toNat :=
    calc r.right.toInt * bpp.toNat
      _ ≤ ka.width.toNat * bpp.toNat := mul_le_mul_of_nonneg_right hright (by omega)
      _ ≤ ka.pitch.toNat := by
        rw [mul_comm]
        exact_mod_cast hbpp
  have harea : (r.top.toInt + y + 1) * ka.pitch.toNat ≤ ka.size.toNat :=
    calc (r.top.toInt + y + 1) * ka.pitch.toNat
      _ ≤ (max ka.height.toNat 1 : ℕ) * ka.pitch.toNat :=
        mul_le_mul_of_nonneg_right (by omega) (by omega)
      _ ≤ ka.size.toNat := by
        rw [mul_comm]
        exact_mod_cast hrows
  refine ⟨hstart, ?_⟩
  have hsplit : rowStart r ka.pitch bpp y + (r.right.toInt - r.left.toInt) * bpp.toNat =
      (r.top.toInt + y) * ka.pitch.toNat + r.right.toInt * bpp.toNat := by
    rw [rowStart, sub_mul]
    omega
  rw [hsplit]
  rw [add_mul, one_mul] at harea
  omega

theorem rowOffset_ofInt (r : Rect) (pitch bpp : BitVec 32) (hy : y < 2 ^ 31)
    (h : r.top.toInt + y < 2 ^ 31) :
    rowOffset (r.top + BitVec.ofNat 32 y) pitch r.left bpp =
      BitVec.ofInt 64 (rowStart r pitch bpp y) := by
  rw [rowOffset_eq, row_toInt _ hy, if_pos h]
  rfl

theorem fits_of_le {start len : ℤ} {size : Word} (hstart : 0 ≤ start) (hlen : 0 ≤ len)
    (h : start + len ≤ size.toNat) :
    ¬BitVec.ofInt 64 start + BitVec.ofInt 64 len > size := by
  have hsize := size.isLt
  have hs := ofInt_toNat start
  have hl := ofInt_toNat len
  rw [gt_iff_lt, BitVec.lt_def, BitVec.toNat_add]
  omega

end Rects

section Both

variable {m : Machine} {p : PresentArgs} {src dst : Allocation}

theorem Surface.size_le (S : Surface m src) (hpages : src.residency.pageCount ≤ 32768) :
    src.ka.size.toNat ≤ 2 ^ 27 := by
  have hwhole := S.whole
  omega

/-- A row of pixels stays in both surfaces, whatever their pages. -/
theorem Presented.pixelRow_fits (P : Presented m p src dst) {y : ℕ}
    (hy : y < (p.dstRect.bottom.toInt - p.dstRect.top.toInt).toNat) :
    ¬(BitVec.ofInt 64 (rowStart p.srcRect src.ka.pitch 4 y) +
        BitVec.ofInt 64 ((p.dstRect.right.toInt - p.dstRect.left.toInt) * 4) > src.ka.size) ∧
      ¬(BitVec.ofInt 64 (rowStart p.dstRect dst.ka.pitch 4 y) +
        BitVec.ofInt 64 ((p.dstRect.right.toInt - p.dstRect.left.toInt) * 4) > dst.ka.size) := by
  have hfour : (4 : BitVec 32).toNat = 4 := rfl
  have hw := P.inDst.width
  have hwidth := P.oneToOne.width
  have hheight := P.oneToOne.height
  obtain ⟨hs, hs'⟩ := P.inSrc.row_end (y := y) 4 P.srcSurface.rows P.srcSurface.pitch
    (by omega)
  obtain ⟨hd, hd'⟩ := P.inDst.row_end (y := y) 4 P.dstSurface.rows P.dstSurface.pitch
    (by omega)
  rw [hfour] at hs' hd'
  rw [hwidth] at hs'
  exact ⟨fits_of_le hs (by omega) hs', fits_of_le hd (by omega) hd'⟩

/-- The corner of a rectangle that is as large as another is where its own bottom is. -/
theorem corner_toInt {srcTop top bottom : BitVec 32} {z : ℤ} (hz : z < 2 ^ 31)
    (hsum : (bottom - top).toInt = z - srcTop.toInt) (hz' : 0 ≤ z) :
    (srcTop + (bottom - top)).toInt = z := by
  rw [BitVec.toInt_add, hsum, Int.bmod_def]
  split <;> omega

theorem low_toInt {n : ℕ} {x : BitVec 32} (hx : x.toNat = n) (hn : n < 2 ^ 31) : x.toInt = n := by
  rw [BitVec.toInt_eq_toNat_of_lt (by omega), hx]

def descOf (p : PresentArgs) (src dst : Allocation) : BltDesc where
  magic := bltDescMagic
  subRectCnt := p.subRectCnt
  src := some src
  dst := some dst
  srcLeft := p.srcRect.left
  srcTop := p.srcRect.top
  dstLeft := p.dstRect.left
  dstTop := p.dstRect.top
  dstRight := p.dstRect.right
  dstBottom := p.dstRect.bottom

theorem kmdPresent_desc (h : PresentArgs.Takes p src dst) (srcMap dstMap : Bool) :
    (kmdPresent (some p) srcMap dstMap).desc = some (descOf p src dst) := by
  obtain ⟨hgoes, hlist⟩ := PresentArgs.Takes.goes h
  simp only [kmdPresent, if_neg hgoes, hlist]
  rfl

theorem residentBytes_eq (S : Surface m src) (hpages : src.residency.pageCount ≤ 32768) :
    residentBytes src = src.ka.size :=
  BitVec.eq_of_toNat_eq ((residentBytes_toNat hpages).trans S.whole.symm)

/-- The source is as large as its surface says, so nothing is clamped. -/
theorem Presented.clampHeight_eq (P : Presented m p src dst) (hpitch : src.ka.pitch ≠ 0)
    (hpages : src.residency.pageCount ≤ 32768) :
    clampHeight (descOf p src dst) src (p.dstRect.bottom - p.dstRect.top) =
      p.dstRect.bottom - p.dstRect.top := by
  have hsize := P.srcSurface.size_le hpages
  have hpos : 0 < src.ka.pitch.toNat :=
    Nat.pos_of_ne_zero fun h => hpitch (BitVec.eq_of_toNat_eq h)
  have hlow : src.ka.size.toNat / src.ka.pitch.toNat < 2 ^ 31 :=
    (Nat.div_le_self _ _).trans_lt (by omega)
  have hrows : (srcRows src).toNat = src.ka.size.toNat / src.ka.pitch.toNat := by
    rw [srcRows, residentBytes_eq P.srcSurface hpages, BitVec.toNat_setWidth, BitVec.toNat_udiv,
      BitVec.toNat_setWidth, Nat.mod_eq_of_lt (by omega : src.ka.pitch.toNat < 2 ^ 64)]
    exact Nat.mod_eq_of_lt (by omega)
  have hheld : max src.ka.height.toNat 1 ≤ src.ka.size.toNat / src.ka.pitch.toNat := by
    rw [Nat.le_div_iff_mul_le hpos, mul_comm]
    exact P.srcSurface.rows
  have htop := P.inSrc.top
  have hheight := P.inSrc.height
  have hbottom := P.inSrc.bottom
  have hone := P.oneToOne.height
  have hsame : (p.dstRect.bottom - p.dstRect.top).toInt =
      p.srcRect.bottom.toInt - p.srcRect.top.toInt := P.inDst.height_toInt.trans hone.symm
  have hcorner := corner_toInt p.srcRect.bottom.toInt_lt hsame (by omega)
  refine if_neg ?_
  rw [low_toInt hrows hlow]
  change ¬(p.srcRect.top + (p.dstRect.bottom - p.dstRect.top)).toInt > _
  omega

theorem Presented.clampWidth_eq (P : Presented m p src dst) :
    clampWidth (descOf p src dst) src (p.dstRect.right - p.dstRect.left) =
      p.dstRect.right - p.dstRect.left := by
  have hcols : (srcCols src).toNat = src.ka.pitch.toNat / 4 := BitVec.toNat_udiv
  have hlt := src.ka.pitch.isLt
  have hpitch := P.srcSurface.pitch
  have hleft := P.inSrc.left
  have hwidth := P.inSrc.width
  have hright := P.inSrc.right
  have hone := P.oneToOne.width
  have hsame : (p.dstRect.right - p.dstRect.left).toInt =
      p.srcRect.right.toInt - p.srcRect.left.toInt := P.inDst.width_toInt.trans hone.symm
  have hcorner := corner_toInt p.srcRect.right.toInt_lt hsame (by omega)
  refine if_neg ?_
  rw [low_toInt hcols (by omega)]
  change ¬(p.srcRect.left + (p.dstRect.right - p.dstRect.left)).toInt > _
  omega

theorem bltRows_open {d : BltDesc} (hguard : ¬((d.dstRight - d.dstLeft).toInt ≤ 0 ∨
      (d.dstBottom - d.dstTop).toInt ≤ 0 ∨ d.srcLeft.toInt < 0 ∨ d.srcTop.toInt < 0 ∨
        d.dstLeft.toInt < 0 ∨ d.dstTop.toInt < 0))
    (hheight : clampHeight d src (d.dstBottom - d.dstTop) = d.dstBottom - d.dstTop)
    (hwidth : clampWidth d src (d.dstRight - d.dstLeft) = d.dstRight - d.dstLeft) :
    bltRows d src dst = copyRows (bltRow d src dst (d.dstRight - d.dstLeft))
      (d.dstBottom - d.dstTop).toInt.toNat 0 := by
  unfold bltRows
  dsimp only
  rw [if_neg hguard]
  simp only [hheight, hwidth]
  exact if_neg fun h => hguard (by omega)

/-- The words that both copies compute for a row, when a pixel has four bytes. -/
theorem Presented.pixelRow_words (P : Presented m p src dst) {y : ℕ}
    (hy : y < (p.dstRect.bottom.toInt - p.dstRect.top.toInt).toNat) :
    rowOffset (p.srcRect.top + BitVec.ofNat 32 y) src.ka.pitch p.srcRect.left 4 =
        BitVec.ofInt 64 (rowStart p.srcRect src.ka.pitch 4 y) ∧
      rowOffset (p.dstRect.top + BitVec.ofNat 32 y) dst.ka.pitch p.dstRect.left 4 =
        BitVec.ofInt 64 (rowStart p.dstRect dst.ka.pitch 4 y) ∧
      rowBytes (p.dstRect.right - p.dstRect.left) 4 =
        BitVec.ofInt 64 ((p.dstRect.right.toInt - p.dstRect.left.toInt) * 4) := by
  have hst := P.inSrc.top
  have hdt := P.inDst.top
  have hsb := p.srcRect.bottom.toInt_lt
  have hdb := p.dstRect.bottom.toInt_lt
  have hone := P.oneToOne.height
  refine ⟨rowOffset_ofInt _ _ _ (by omega) (by omega), rowOffset_ofInt _ _ _ (by omega) (by omega),
    ?_⟩
  rw [rowBytes_eq, P.inDst.width_toInt]
  rfl

theorem Presented.bltRow_eq (P : Presented m p src dst)
    (hsrc : src.residency.pageCount ≤ 32768) (hdst : dst.residency.pageCount ≤ 32768) {r : ℕ}
    (hr : r < (p.dstRect.bottom.toInt - p.dstRect.top.toInt).toNat) :
    bltRow (descOf p src dst) src dst (p.dstRect.right - p.dstRect.left) r =
      .copy (pixelRow p.srcRect p.dstRect src.ka dst.ka r) := by
  obtain ⟨hs, hd, hbytes⟩ := P.pixelRow_words hr
  obtain ⟨hsfits, hdfits⟩ := P.pixelRow_fits hr
  have hshape : ∀ s d b : Word, ¬s + b > src.ka.size → ¬d + b > dst.ka.size →
      (if s + b > src.ka.size ∨ d + b > dst.ka.size then Row.stop else .copy ⟨s, d, b⟩) =
        .copy ⟨s, d, b⟩ := fun s d b h1 h2 => if_neg (not_or.mpr ⟨h1, h2⟩)
  unfold bltRow
  dsimp only
  rw [residentBytes_eq P.srcSurface hsrc, residentBytes_eq P.dstSurface hdst]
  simp only [descOf, hs, hd, hbytes]
  exact hshape _ _ _ hsfits hdfits

theorem Presented.pitch_ne (P : Presented m p src dst) (hne : ¬Rect.Empty p.dstRect) :
    src.ka.pitch ≠ 0 ∧ dst.ka.pitch ≠ 0 ∧ dst.ka.width ≠ 0 ∧
      p.dstRect.left.toInt < p.dstRect.right.toInt ∧
      p.dstRect.top.toInt < p.dstRect.bottom.toInt := by
  obtain ⟨hw, hh⟩ := not_or.mp hne
  have hw' : p.dstRect.right.toInt ≠ p.dstRect.left.toInt := fun h => hw (BitVec.toInt_inj.mp h)
  have hh' : p.dstRect.bottom.toInt ≠ p.dstRect.top.toInt := fun h => hh (BitVec.toInt_inj.mp h)
  have h1 := P.inDst.width
  have h2 := P.inDst.height
  have h3 := P.inDst.right
  have h4 := P.inDst.left
  have h5 := P.inSrc.left
  have h6 := P.inSrc.right
  have h7 := P.oneToOne.width
  have h8 := P.srcSurface.pitch
  have h9 := P.dstSurface.pitch
  have hpos : ∀ x : BitVec 32, 0 < x.toNat → x ≠ 0 := by
    rintro _ hx rfl
    exact absurd hx (by decide)
  exact ⟨hpos _ (by omega), hpos _ (by omega), hpos _ (by omega), by omega, by omega⟩

theorem Presented.bltRows_eq (P : Presented m p src dst) (hne : ¬Rect.Empty p.dstRect)
    (hsrc : src.residency.pageCount ≤ 32768) (hdst : dst.residency.pageCount ≤ 32768) :
    bltRows (descOf p src dst) src dst = pixelRows p.srcRect p.dstRect src.ka dst.ka := by
  obtain ⟨hpitch, -, -, hw, hh⟩ := P.pitch_ne hne
  have hwidth := P.inDst.width_toInt
  have hheight := P.inDst.height_toInt
  have h1 := P.inSrc.left
  have h2 := P.inSrc.top
  have h3 := P.inDst.left
  have h4 := P.inDst.top
  have hrows : copyRows (bltRow (descOf p src dst) src dst (p.dstRect.right - p.dstRect.left))
      (p.dstRect.bottom.toInt - p.dstRect.top.toInt).toNat 0 =
        pixelRows p.srcRect p.dstRect src.ka dst.ka :=
    copyRows_map fun i _ hi => P.bltRow_eq hsrc hdst (by omega)
  rw [← hrows, ← hheight]
  refine bltRows_open ?_ (P.clampHeight_eq hpitch hsrc) P.clampWidth_eq
  simp only [descOf]
  omega

theorem Presented.deferred_eq (P : Presented m p src dst) (hne : ¬Rect.Empty p.dstRect)
    (hsrc : src.residency.pageCount ≤ 32768) (hdst : dst.residency.pageCount ≤ 32768)
    (maps : Mappings) :
    deferredCopies (kmdPresent (some p) maps.inlineSrc maps.inlineDst) maps.deferredSrc
        maps.deferredDst =
      if !maps.deferredSrc || !maps.deferredDst then []
      else pixelRows p.srcRect p.dstRect src.ka dst.ka := by
  obtain ⟨hsp, hdp, -⟩ := P.pitch_ne hne
  have hmagic : ¬(!src.magic || !dst.magic) = true := by
    simp [P.srcSurface.magic, P.dstSurface.magic]
  have hmdl : ¬(src.residency.mdl = none ∨ dst.residency.mdl = none) := by
    have hs := P.srcSurface.mapped
    have hd := P.dstSurface.mapped
    rintro (h | h) <;> simp_all
  rw [deferredCopies, kmdPresent_desc P.takes]
  change presentExecuteBlt (descOf p src dst) _ _ = _
  have hrows := P.bltRows_eq hne hsrc hdst
  unfold presentExecuteBlt
  simp only [descOf] at hrows ⊢
  rw [if_neg hmagic, if_neg hmdl, if_neg (not_or.mpr ⟨hsp, hdp⟩), hrows]

theorem inlineBpp_toNat {ka : KmdAllocation} (hpitch : 4 * ka.width.toNat ≤ ka.pitch.toNat)
    (hwidth : ka.width ≠ 0) :
    (inlineBpp ka).toNat = ka.pitch.toNat / ka.width.toNat ∧ 4 ≤ (inlineBpp ka).toNat := by
  have hpos : 0 < ka.width.toNat := Nat.pos_of_ne_zero fun h => hwidth (BitVec.eq_of_toNat_eq h)
  have hdiv : (ka.pitch / ka.width).toNat = ka.pitch.toNat / ka.width.toNat := BitVec.toNat_udiv
  have hfour : 4 ≤ ka.pitch.toNat / ka.width.toNat := (Nat.le_div_iff_mul_le hpos).mpr hpitch
  have hne : ka.pitch / ka.width ≠ 0 := by
    intro h
    rw [h] at hdiv
    exact absurd hdiv (by change 0 ≠ _; omega)
  have hbpp : inlineBpp ka = ka.pitch / ka.width := by
    rw [inlineBpp, if_pos hwidth]
    exact if_neg hne
  rw [hbpp, hdiv]
  exact ⟨rfl, hfour⟩

/-- A pixel of the destination has four bytes for the copy of `Present` too. -/
theorem inlineBpp_four_iff {ka : KmdAllocation} (hpitch : 4 * ka.width.toNat ≤ ka.pitch.toNat)
    (hwidth : ka.width ≠ 0) : inlineBpp ka = 4 ↔ ka.pitch.toNat < 5 * ka.width.toNat := by
  have hpos : 0 < ka.width.toNat := Nat.pos_of_ne_zero fun h => hwidth (BitVec.eq_of_toNat_eq h)
  obtain ⟨hbpp, hfour⟩ := inlineBpp_toNat hpitch hwidth
  have hlt : ka.pitch.toNat / ka.width.toNat < 5 ↔ ka.pitch.toNat < 5 * ka.width.toNat :=
    Nat.div_lt_iff_lt_mul hpos
  rw [← hlt, ← hbpp]
  constructor
  · intro h
    rw [h]
    decide
  · intro h
    exact BitVec.eq_of_toNat_eq (Nat.le_antisymm (Nat.le_of_lt_succ h) hfour)

theorem Presented.runs (P : Presented m p src dst) (hne : ¬Rect.Empty p.dstRect)
    (srcMap dstMap : Bool) : inlineRuns src dst srcMap dstMap = (srcMap && dstMap) := by
  obtain ⟨hsp, hdp, -⟩ := P.pitch_ne hne
  have hs : (src.ka.pitch != 0) = true := bne_iff_ne.mpr hsp
  have hd : (dst.ka.pitch != 0) = true := bne_iff_ne.mpr hdp
  simp only [inlineRuns, P.srcSurface.mapped, P.dstSurface.mapped, hs, hd, Bool.true_and,
    Bool.and_true]

theorem Presented.inlineRow_eq (P : Presented m p src dst) (hne : ¬Rect.Empty p.dstRect)
    (hbpp : inlineBpp dst.ka = 4) {y : ℕ}
    (hy : y < (p.dstRect.bottom.toInt - p.dstRect.top.toInt).toNat) :
    inlineRow p.srcRect p.dstRect src.ka dst.ka y =
      .copy (pixelRow p.srcRect p.dstRect src.ka dst.ka y) := by
  obtain ⟨-, -, -, hw, -⟩ := P.pitch_ne hne
  have hst := P.inSrc.top
  have hdt := P.inDst.top
  have hsb := p.srcRect.bottom.toInt_lt
  have hdb := p.dstRect.bottom.toInt_lt
  have hone := P.oneToOne.height
  have hwidth := P.inDst.width_toInt
  obtain ⟨hs, hd, hbytes⟩ := P.pixelRow_words hy
  have hshown : Shown p.srcRect p.dstRect y := by
    unfold Shown Rect.width
    omega
  have hskip := (shown_iff (by omega)).mp hshown
  unfold inlineRow
  dsimp only
  rw [if_neg hskip, hbpp, hs, hd, Rect.width, hbytes, if_neg (not_or.mpr (P.pixelRow_fits hy))]
  rfl

theorem Presented.inline_eq (P : Presented m p src dst) (hne : ¬Rect.Empty p.dstRect)
    (hbpp : inlineBpp dst.ka = 4) :
    copyRows (inlineRow p.srcRect p.dstRect src.ka dst.ka) p.dstRect.height.toInt.toNat 0 =
      pixelRows p.srcRect p.dstRect src.ka dst.ka := by
  have hheight : p.dstRect.height.toInt = _ := P.inDst.height_toInt
  rw [hheight]
  exact copyRows_map fun i _ hi => P.inlineRow_eq hne hbpp (by omega)

theorem Presented.empty_copies (P : Presented m p src dst) (h : Rect.Empty p.dstRect)
    (srcMap dstMap : Bool) : (kmdPresent (some p) srcMap dstMap).copies = [] := by
  rw [kmdPresent_copies P.takes, inlineCopy]
  split
  · refine List.eq_nil_iff_forall_not_mem.mpr fun c hc => ?_
    obtain ⟨y, -, hy, hrow, -⟩ := mem_copyRows_iff.mp hc
    have hlt := p.dstRect.height.toInt_lt
    obtain hw | hh := h
    · have hnone : ¬Shown p.srcRect p.dstRect y := by
        rintro ⟨-, -, hshown⟩
        rw [Rect.width, hw, BitVec.sub_self] at hshown
        exact absurd hshown (by decide)
      rw [inlineRow_skip (by omega) hnone] at hrow
      cases hrow
    · rw [Rect.height, hh, BitVec.sub_self] at hy
      exact absurd hy (by simp)
  · rfl

theorem Presented.empty_deferred (P : Presented m p src dst) (h : Rect.Empty p.dstRect)
    (maps : Mappings) : deferredCopies (kmdPresent (some p) maps.inlineSrc maps.inlineDst)
      maps.deferredSrc maps.deferredDst = [] := by
  have hguard : bltRows (descOf p src dst) src dst = [] := by
    unfold bltRows
    simp only [descOf]
    refine if_pos ?_
    obtain hw | hh := h
    · rw [hw, BitVec.sub_self]
      exact .inl (by decide)
    · rw [hh, BitVec.sub_self]
      exact .inr (.inl (by decide))
  rw [deferredCopies, kmdPresent_desc P.takes]
  change presentExecuteBlt (descOf p src dst) _ _ = _
  unfold presentExecuteBlt
  simp only [descOf] at hguard ⊢
  rw [hguard]
  simp only [ite_self]

theorem Rect.Empty.unwritten {r : Rect} (h : Rect.Empty r) (srcRect : Rect)
    (src dst : KmdAllocation) (o : Word) :
    ∀ c ∈ pixelRows srcRect r src dst, ¬Copy.Writes c o := by
  intro c hc
  obtain ⟨y, hy, rfl⟩ := List.mem_map.mp hc
  obtain ⟨-, hy⟩ := List.mem_range'_1.mp hy
  obtain hw | hh := h
  · simp [Copy.Writes, pixelRow, hw]
  · rw [hh] at hy
    omega

/-- What a row of a copy writes, when it does not wrap. -/
theorem writes_iff {srcOff o : Word} {start len : ℤ} (hstart : 0 ≤ start) (hlen : 0 ≤ len)
    (h : start + len < 2 ^ 63) :
    Copy.Writes ⟨srcOff, BitVec.ofInt 64 start, BitVec.ofInt 64 len⟩ o ↔
      start ≤ o.toNat ∧ (o.toNat : ℤ) < start + len := by
  have ho := o.isLt
  have hs := ofInt_toNat start
  have hl := ofInt_toNat len
  change (o - BitVec.ofInt 64 start).toNat < (BitVec.ofInt 64 len).toNat ↔ _
  rw [BitVec.toNat_sub]
  omega

theorem Presented.pixels_written (P : Presented m p src dst) (hne : ¬Rect.Empty p.dstRect)
    (hdst : dst.residency.pageCount ≤ 32768) :
    ∃ o, after (pixelRows p.srcRect p.dstRect src.ka dst.ka) (fun _ => 1) (fun _ => 0) o = 1 := by
  obtain ⟨-, -, -, hw, hh⟩ := P.pitch_ne hne
  have hsize := P.dstSurface.size_le hdst
  obtain ⟨hd, hd'⟩ := P.inDst.row_end (y := 0) 4 P.dstSurface.rows P.dstSurface.pitch (by omega)
  have hfour : ((4 : BitVec 32).toNat : ℤ) = 4 := rfl
  rw [hfour] at hd'
  have ho := ofInt_toNat (rowStart p.dstRect dst.ka.pitch 4 0)
  refine ⟨BitVec.ofInt 64 (rowStart p.dstRect dst.ka.pitch 4 0), after_const
    ⟨pixelRow p.srcRect p.dstRect src.ka dst.ka 0, ?_, ?_⟩⟩
  · refine List.mem_map_of_mem (List.mem_range'_1.mpr ⟨Nat.zero_le _, ?_⟩)
    omega
  · exact (writes_iff hd (by omega) (by omega)).mpr (by omega)

/-- When a pixel is taken for more than four bytes, the last of them in a row is not one of the
pixels of the rectangle. -/
theorem Presented.wide_byte (P : Presented m p src dst) (hne : ¬Rect.Empty p.dstRect)
    (hdst : dst.residency.pageCount ≤ 32768) (hwide : inlineBpp dst.ka ≠ 4) (srcOff : Word) :
    ∃ o, Copy.Writes ⟨srcOff,
        BitVec.ofInt 64 (rowStart p.dstRect dst.ka.pitch (inlineBpp dst.ka) 0),
        rowBytes p.dstRect.width (inlineBpp dst.ka)⟩ o ∧
      ∀ c ∈ pixelRows p.srcRect p.dstRect src.ka dst.ka, ¬Copy.Writes c o := by
  obtain ⟨-, -, hwidth, hw, hh⟩ := P.pitch_ne hne
  have hsize := P.dstSurface.size_le hdst
  have hleft := P.inDst.left
  have hright := P.inDst.right
  obtain ⟨hbpp, hfour⟩ := inlineBpp_toNat P.dstSurface.pitch hwidth
  have hfive : 5 ≤ (inlineBpp dst.ka).toNat := by
    have hne4 : (inlineBpp dst.ka).toNat ≠ 4 := fun h => hwide (BitVec.eq_of_toNat_eq h)
    omega
  have hcols : (inlineBpp dst.ka).toNat * dst.ka.width.toNat ≤ dst.ka.pitch.toNat := by
    rw [hbpp]
    exact Nat.div_mul_le_self _ _
  obtain ⟨hd, hd'⟩ := P.inDst.row_end (y := 0) _ P.dstSurface.rows hcols (by omega)
  have hlen : rowBytes p.dstRect.width (inlineBpp dst.ka) = BitVec.ofInt 64
      ((p.dstRect.right.toInt - p.dstRect.left.toInt) * (inlineBpp dst.ka).toNat) := by
    rw [rowBytes_eq, Rect.width, P.inDst.width_toInt]
  have hstart : rowStart p.dstRect dst.ka.pitch (inlineBpp dst.ka) 0 =
      p.dstRect.top.toInt * dst.ka.pitch.toNat +
        p.dstRect.left.toInt * (inlineBpp dst.ka).toNat := by
    rw [rowStart, Nat.cast_zero, add_zero]
  rw [hlen]
  generalize (inlineBpp dst.ka).toNat = b at *
  generalize rowStart p.dstRect dst.ka.pitch (inlineBpp dst.ka) 0 = start at *
  have hsum : p.dstRect.left.toInt * b + (p.dstRect.right.toInt - p.dstRect.left.toInt) * b =
      p.dstRect.right.toInt * b := by
    rw [← add_mul]
    congr 1
    omega
  have hmore : p.dstRect.right.toInt * 5 ≤ p.dstRect.right.toInt * b :=
    mul_le_mul_of_nonneg_left (by omega) (by omega)
  have hless : p.dstRect.right.toInt * b ≤ dst.ka.pitch.toNat :=
    calc p.dstRect.right.toInt * b
      _ ≤ dst.ka.width.toNat * b := mul_le_mul_of_nonneg_right hright (by omega)
      _ ≤ dst.ka.pitch.toNat := by
        rw [mul_comm]
        exact_mod_cast hcols
  have ho := ofInt_toNat (start + (p.dstRect.right.toInt - p.dstRect.left.toInt) * b - 1)
  have hlast : 0 < (p.dstRect.right.toInt - p.dstRect.left.toInt) * b :=
    mul_pos (by omega) (by omega)
  refine ⟨BitVec.ofInt 64 (start + (p.dstRect.right.toInt - p.dstRect.left.toInt) * b - 1),
    (writes_iff hd hlast.le (by omega)).mpr (by omega), fun c hc hwrites => ?_⟩
  obtain ⟨y, hy, rfl⟩ := List.mem_map.mp hc
  obtain ⟨-, hy⟩ := List.mem_range'_1.mp hy
  obtain ⟨hy0, hy1⟩ := P.inDst.row_end (y := y) 4 P.dstSurface.rows P.dstSurface.pitch (by omega)
  have hfour' : ((4 : BitVec 32).toNat : ℤ) = 4 := rfl
  rw [hfour'] at hy1
  obtain ⟨hge, hlt⟩ := (writes_iff hy0 (by omega) (by omega)).mp hwrites
  rw [rowStart, hfour', add_mul] at hge hlt
  obtain rfl | hpos := Nat.eq_zero_or_pos y
  · omega
  · have hnext : (dst.ka.pitch.toNat : ℤ) ≤ y * dst.ka.pitch.toNat :=
      le_mul_of_one_le_left (by omega) (by omega)
    omega

theorem Presented.inlineRow_cases (P : Presented m p src dst) (hne : ¬Rect.Empty p.dstRect) :
    inlineRow p.srcRect p.dstRect src.ka dst.ka 0 = .stop ∨
      ∃ srcOff, inlineRow p.srcRect p.dstRect src.ka dst.ka 0 =
        .copy ⟨srcOff, BitVec.ofInt 64 (rowStart p.dstRect dst.ka.pitch (inlineBpp dst.ka) 0),
          rowBytes p.dstRect.width (inlineBpp dst.ka)⟩ := by
  obtain ⟨-, -, -, hw, hh⟩ := P.pitch_ne hne
  have hst := P.inSrc.top
  have hdt := P.inDst.top
  have hsb := p.srcRect.top.toInt_lt
  have hdb := p.dstRect.top.toInt_lt
  have hwidth := P.inDst.width_toInt
  have hshown : Shown p.srcRect p.dstRect 0 := by
    unfold Shown Rect.width
    omega
  have hd := rowOffset_ofInt p.dstRect dst.ka.pitch (inlineBpp dst.ka) (y := 0) (by omega)
    (by omega)
  have hskip := (shown_iff (by omega)).mp hshown
  unfold inlineRow
  dsimp only
  rw [if_neg hskip, hd]
  split
  · exact .inl rfl
  · exact .inr ⟨_, rfl⟩

/-- A source full of ones then shows: either no row is copied, or that byte. -/
theorem Presented.wide_differs (P : Presented m p src dst) (hne : ¬Rect.Empty p.dstRect)
    (hdst : dst.residency.pageCount ≤ 32768) (hwide : inlineBpp dst.ka ≠ 4) :
    ∃ o, after (copyRows (inlineRow p.srcRect p.dstRect src.ka dst.ka)
        p.dstRect.height.toInt.toNat 0) (fun _ => 1) (fun _ => 0) o ≠
      after (pixelRows p.srcRect p.dstRect src.ka dst.ka) (fun _ => 1) (fun _ => 0) o := by
  obtain ⟨-, -, -, -, hh⟩ := P.pitch_ne hne
  have hrows : 0 < p.dstRect.height.toInt.toNat := by
    have hheight : p.dstRect.height.toInt = _ := P.inDst.height_toInt
    omega
  have hdiffer : (0 : BitVec 8) ≠ 1 := by decide
  rcases P.inlineRow_cases hne with hstop | ⟨srcOff, hcopy⟩
  · have hnone : copyRows (inlineRow p.srcRect p.dstRect src.ka dst.ka)
        p.dstRect.height.toInt.toNat 0 = [] := by
      refine List.eq_nil_iff_forall_not_mem.mpr fun c hc => ?_
      obtain ⟨y, -, -, hrow, hbefore⟩ := mem_copyRows_iff.mp hc
      obtain rfl | hpos := Nat.eq_zero_or_pos y
      · rw [hstop] at hrow
        cases hrow
      · exact hbefore 0 (Nat.le_refl 0) hpos hstop
    obtain ⟨o, ho⟩ := P.pixels_written hne hdst
    exact ⟨o, by rw [hnone, ho]; exact hdiffer⟩
  · obtain ⟨o, hwrites, hpixels⟩ := P.wide_byte hne hdst hwide srcOff
    have hmem := mem_copyRows_iff.mpr ⟨0, Nat.le_refl 0,
      (by omega : 0 < 0 + p.dstRect.height.toInt.toNat), hcopy, fun i _ hi => absurd hi (by omega)⟩
    exact ⟨o, by rw [after_const ⟨_, hmem, hwrites⟩, after_unwritten hpixels]; exact hdiffer.symm⟩

theorem Agree.of_eq {inline deferred pixels : List Copy} (hi : inline = pixels)
    (hd : deferred = pixels) : Agree inline deferred pixels := by
  subst hi hd
  exact ⟨fun _ _ => rfl, fun _ _ => rfl, fun s d => after_again _ s d,
    fun s d => after_again _ s d⟩

end Both

theorem copiesAgree_iff (r : Replies) (m : Mmu) (live : ℕ → Bool) (books : Books)
    (ops : List Op) (x : Machine × Books)
    (hrun : exec ResidencyStash.step (ResidencyStash.started r m live, books) ops = some x)
    (p : PresentArgs) (src dst : Allocation) (P : Presented x.1 p src dst) (maps : Mappings) :
    CopiesAgree p src dst maps ↔
      Rect.Empty p.dstRect ∨ Mappings.All maps ∧ dst.ka.pitch.toNat < 5 * dst.ka.width.toNat := by
  have C := run_capped r m live books hrun
  obtain ⟨hs, hsnote⟩ := P.srcSurface.noted
  obtain ⟨hd, hdnote⟩ := P.dstSurface.noted
  have hsrc := C hs _ hsnote
  have hdst := C hd _ hdnote
  have hdiffer : (0 : BitVec 8) ≠ 1 := by decide
  by_cases hempty : Rect.Empty p.dstRect
  · refine iff_of_true ?_ (.inl hempty)
    have hpixels : ∀ s d, after (pixelRows p.srcRect p.dstRect src.ka dst.ka) s d = d :=
      fun s d => funext fun o => after_unwritten (hempty.unwritten p.srcRect src.ka dst.ka o)
    unfold CopiesAgree
    dsimp only
    rw [P.empty_copies hempty, P.empty_deferred hempty]
    exact ⟨fun s d => (hpixels s d).symm, fun s d => (hpixels s d).symm,
      fun s d => (hpixels s d).symm, fun s d => (hpixels s d).symm⟩
  obtain ⟨-, -, hwidth, -⟩ := P.pitch_ne hempty
  rw [← inlineBpp_four_iff P.dstSurface.pitch hwidth, or_iff_right hempty]
  obtain ⟨o, ho⟩ := P.pixels_written hempty hdst
  have hnothing : ¬∀ s d, after [] s d = after (pixelRows p.srcRect p.dstRect src.ka dst.ka) s d :=
    fun h => hdiffer ((congrFun (h (fun _ => 1) fun _ => 0) o).trans ho)
  unfold CopiesAgree
  dsimp only
  rw [P.deferred_eq hempty hsrc hdst, kmdPresent_copies P.takes, inlineCopy, P.runs hempty]
  rcases maps with ⟨is, id, ds, dd⟩
  constructor
  · intro A
    have hlater : ds = true ∧ dd = true := by
      by_contra hno
      have hd : (!ds || !dd) = true := by
        revert hno
        cases ds <;> cases dd <;> decide
      exact hnothing fun s d => by simpa only [hd, if_true] using A.later s d
    have hnow : is = true ∧ id = true := by
      by_contra hno
      have hi : ¬(is && id) = true := fun h => hno (Bool.and_eq_true_iff.mp h)
      exact hnothing fun s d => by simpa only [if_neg hi] using A.now s d
    refine ⟨⟨hnow.1, hnow.2, hlater.1, hlater.2⟩, ?_⟩
    by_contra hwide
    obtain ⟨o, ho⟩ := P.wide_differs hempty hdst hwide
    have hi : (is && id) = true := Bool.and_eq_true_iff.mpr hnow
    exact ho (congrFun (by simpa only [if_pos hi] using A.now (fun _ => 1) fun _ => 0) o)
  · rintro ⟨⟨hi, hi', hl, hl'⟩, hbpp⟩
    dsimp only at hi hi' hl hl'
    subst hi hi' hl hl'
    exact Agree.of_eq (P.inline_eq hempty hbpp) rfl

section Frames

/-- A back buffer without a size and without a stride. -/
def backBuffer (width height : BitVec 32) : AllocationInfo :=
  ⟨words [allocationPrivateMagic, 0, 0, 0, width, height, 87, 0], 32, 0⟩

def onePage (info : AllocationInfo) (offsetInPages : ℕ) (frame : Word) : Allocation :=
  ⟨true, record info, ⟨some [frame], 0, 1, apertureVa offsetInPages⟩⟩

/-- All of one back buffer into another. -/
def wholeFrame (width height : BitVec 32) : PresentArgs :=
  ⟨true, some (some (onePage (backBuffer width height) 0 0x9),
    some (onePage (backBuffer width height) 1 0x777)), 1, 1, true, 48, 1,
    ⟨0, 0, width, height⟩, ⟨0, 0, width, height⟩, true, 64⟩

def Framed (width height : BitVec 32) (x : Machine × Books) : Prop :=
  exec ResidencyStash.step (ResidencyStash.started ApertureWalk.granted ApertureWalk.cold
      fun _ => true, fun _ => none) twoPages = some x ∧
    Presented x.1 (wholeFrame width height) (onePage (backBuffer width height) 0 0x9)
      (onePage (backBuffer width height) 1 0x777)

theorem frame_presented {width height : BitVec 32} (hw : 0 ≤ width.toInt) (hh : 0 ≤ height.toInt)
    (hpitch : 4 * width.toNat ≤ (record (backBuffer width height)).pitch.toNat)
    (hsize : (record (backBuffer width height)).size.toNat = 4096) :
    ∃ x, Framed width height x := by
  have hw' : width.toInt = width.toNat := by
    rw [BitVec.toInt_eq_toNat_cond] at hw ⊢
    have hlt := width.isLt
    split at hw <;> omega
  have hh' : height.toInt = height.toNat := by
    rw [BitVec.toInt_eq_toNat_cond] at hh ⊢
    have hlt := height.isLt
    split at hh <;> omega
  have hinside : Inside ⟨0, 0, width, height⟩ (record (backBuffer width height)) :=
    ⟨le_rfl, le_rfl, hw, hh, hw'.le, by change height.toInt ≤ (max height.toNat 1 : ℕ); omega⟩
  obtain ⟨x, hrun, hsrc, hdst⟩ : ∃ x, exec ResidencyStash.step (ResidencyStash.started
      ApertureWalk.granted ApertureWalk.cold fun _ => true, fun _ => none) twoPages = some x ∧
        (x.1.allocations 7).map fields = some (some [0x9], 0, 1, apertureVa 0) ∧
        (x.1.allocations 8).map fields = some (some [0x777], 0, 1, apertureVa 1) :=
    ⟨_, rfl, by decide +kernel, by decide +kernel⟩
  refine ⟨x, hrun, ⟨rfl, Nat.le_refl 1, Nat.le_refl 1, rfl, Nat.le_refl 48, rfl⟩,
    ⟨rfl, ⟨backBuffer width height, rfl⟩, hpitch, noted_of 7 hsrc, rfl, Nat.one_pos, hsize⟩,
    ⟨rfl, ⟨backBuffer width height, rfl⟩, hpitch, noted_of 8 hdst, rfl, Nat.one_pos, hsize⟩,
    hinside, hinside, rfl, rfl⟩

theorem frame_agrees : ∃ x, Framed 16 64 x ∧
    CopiesAgree (wholeFrame 16 64) (onePage (backBuffer 16 64) 0 0x9)
      (onePage (backBuffer 16 64) 1 0x777) ⟨true, true, true, true⟩ := by
  obtain ⟨x, hrun, P⟩ := frame_presented (by decide : 0 ≤ (16 : BitVec 32).toInt)
    (by decide : 0 ≤ (64 : BitVec 32).toInt) (by decide +kernel) (by decide +kernel)
  exact ⟨x, ⟨hrun, P⟩, (copiesAgree_iff _ _ _ _ _ x hrun _ _ _ P _).mpr
    (.inr ⟨⟨rfl, rfl, rfl, rfl⟩, by decide +kernel⟩)⟩

/-- Ten pixels in 64 bytes: `Present` takes six bytes for each, and the last of the first row that
it copies is the twentieth after the last pixel. -/
theorem frame_of_ten_differs : ∃ x, Framed 10 10 x ∧
    ¬CopiesAgree (wholeFrame 10 10) (onePage (backBuffer 10 10) 0 0x9)
      (onePage (backBuffer 10 10) 1 0x777) ⟨true, true, true, true⟩ := by
  obtain ⟨x, hx⟩ := frame_presented (by decide : 0 ≤ (10 : BitVec 32).toInt)
    (by decide : 0 ≤ (10 : BitVec 32).toInt) (by decide +kernel) (by decide +kernel)
  refine ⟨x, hx, fun A => ?_⟩
  have hbyte := congrFun (A.now (fun _ => 1) fun _ => 0) 59
  revert hbyte
  decide +kernel

end Frames

end WinMali.PresentAgree
