import Mathlib.Data.Finset.Card
import Mathlib.Data.Finset.Filter
import Mathlib.Logic.Function.Basic
import Mathlib.Tactic.ByContra

/-!
# Objects that count their wards

Objects are placed in memory that can be used again. An object can have a parent, and a parent
keeps the number of objects that name it.
-/

set_option autoImplicit false

namespace WinMali.ObjectPool

/-- A cell that is not live keeps what was last in it. -/
structure Pool (α : Type*) where
  live : Finset ℕ
  cell : ℕ → α

/-- What an object says of its parent and its wards. Which objects can be the parent of which
is `fits`, and `bump` changes the count and nothing else of an object. -/
structure Family (α : Type*) where
  parent : α → Option ℕ
  wards : α → Option ℤ
  fits : α → α → Prop
  bump : ℤ → α → α
  parent_bump : ∀ k x, parent (bump k x) = parent x
  wards_bump : ∀ k x, wards (bump k x) = (wards x).map (· + k)
  fits_bump_ward : ∀ k x y, fits (bump k x) y ↔ fits x y
  fits_bump : ∀ k x y, fits x (bump k y) ↔ fits x y
  counts : ∀ x y, fits x y → (wards y).isSome

variable {α : Type*}

def read (p : Pool α) (a : ℕ) : Option α := if a ∈ p.live then some (p.cell a) else none

def place (p : Pool α) (a : ℕ) (x : α) : Pool α :=
  ⟨insert a p.live, Function.update p.cell a x⟩

def release (p : Pool α) (a : ℕ) : Pool α := { p with live := p.live.erase a }

def modify (p : Pool α) (a : ℕ) (f : α → α) : Pool α :=
  { p with cell := Function.update p.cell a (f (p.cell a)) }

/-- The live objects that name `q` as their parent. -/
def wardsOf (F : Family α) (p : Pool α) (q : ℕ) : Finset ℕ :=
  p.live.filter fun a => F.parent (p.cell a) = some q

/-- The parents are live. -/
def Parented (F : Family α) (p : Pool α) : Prop := ∀ a x q, read p a = some x →
  F.parent x = some q → ∃ y, read p q = some y ∧ F.fits x y

/-- The counts are right but for what they are `off`. -/
def Off (F : Family α) (p : Pool α) (off : ℕ → ℤ) : Prop := ∀ a x n, read p a = some x →
  F.wards x = some n → n = (wardsOf F p a).card + off a

structure Counted (F : Family α) (p : Pool α) : Prop where
  parented : Parented F p
  exact : Off F p fun _ => 0

section Reads

variable {p : Pool α} {a b : ℕ} {x y : α} {f : α → α}

theorem read_eq_some : read p a = some x ↔ a ∈ p.live ∧ p.cell a = x := by
  unfold read
  split <;> simp [*]

theorem read_place_self : read (place p a x) a = some x := by
  simp [read, place]

theorem read_place_ne (h : b ≠ a) : read (place p a x) b = read p b := by
  simp [read, place, h]

theorem read_release_self : read (release p a) a = none := by
  simp [read, release]

theorem read_release_ne (h : b ≠ a) : read (release p a) b = read p b := by
  simp [read, release, h]

theorem read_modify_self (f : α → α) : read (modify p a f) a = (read p a).map f := by
  unfold read modify
  split <;> simp

theorem read_modify_ne (h : b ≠ a) : read (modify p a f) b = read p b := by
  simp [read, modify, h]

theorem fresh_ne (h : a ∉ p.live) (hb : read p b = some y) : b ≠ a := by
  rintro rfl
  exact h (read_eq_some.mp hb).1

end Reads

section Wards

variable {F : Family α} {p : Pool α} {a b q : ℕ} {x y : α} {f : α → α}

theorem mem_wardsOf : a ∈ wardsOf F p q ↔ ∃ x, read p a = some x ∧ F.parent x = some q := by
  rw [wardsOf, Finset.mem_filter]
  constructor
  · rintro ⟨ha, hq⟩
    exact ⟨_, read_eq_some.mpr ⟨ha, rfl⟩, hq⟩
  · rintro ⟨x, hx, hq⟩
    obtain ⟨ha, rfl⟩ := read_eq_some.mp hx
    exact ⟨ha, hq⟩

theorem mem_wardsOf_ne {p' : Pool α} (h : read p' b = read p b) :
    b ∈ wardsOf F p' q ↔ b ∈ wardsOf F p q := by
  rw [mem_wardsOf, mem_wardsOf, h]

theorem mem_wardsOf_self (h : read p a = some x) : a ∈ wardsOf F p q ↔ F.parent x = some q := by
  rw [mem_wardsOf, h]
  simp

theorem notMem_wardsOf (h : a ∉ p.live) : a ∉ wardsOf F p q :=
  fun hmem => h (Finset.mem_filter.mp hmem).1

theorem wardsOf_place (h : a ∉ p.live) : ((wardsOf F (place p a x) q).card : ℤ) =
    (wardsOf F p q).card + if F.parent x = some q then 1 else 0 := by
  have hself := mem_wardsOf_self (F := F) (q := q) (read_place_self (p := p) (a := a) (x := x))
  have hother : ∀ b, b ≠ a → (b ∈ wardsOf F (place p a x) q ↔ b ∈ wardsOf F p q) :=
    fun b hb => mem_wardsOf_ne (read_place_ne hb)
  have hnot := notMem_wardsOf (F := F) (q := q) h
  split
  · next hq =>
    have hset : wardsOf F (place p a x) q = insert a (wardsOf F p q) := by
      ext b
      obtain rfl | hb := eq_or_ne b a
      · simp [hself, hq]
      · simp [hother b hb, hb]
    rw [hset, Finset.card_insert_of_notMem hnot]
    simp
  · next hq =>
    have hset : wardsOf F (place p a x) q = wardsOf F p q := by
      ext b
      obtain rfl | hb := eq_or_ne b a
      · simp [hself, hq, hnot]
      · exact hother b hb
    rw [hset]
    simp

theorem wardsOf_release (h : read p a = some x) : ((wardsOf F (release p a) q).card : ℤ) =
    (wardsOf F p q).card - if F.parent x = some q then 1 else 0 := by
  have hself := mem_wardsOf_self (F := F) (q := q) h
  have hset : wardsOf F (release p a) q = (wardsOf F p q).erase a := by
    ext b
    obtain rfl | hb := eq_or_ne b a
    · simp [mem_wardsOf, read_release_self]
    · simp [mem_wardsOf_ne (F := F) (read_release_ne hb), hb]
  rw [hset]
  split
  · next hq =>
    have hmem := hself.mpr hq
    have hpos := Finset.card_pos.mpr ⟨a, hmem⟩
    rw [Finset.card_erase_of_mem hmem]
    omega
  · next hq =>
    rw [Finset.erase_eq_of_notMem (mt hself.mp hq)]
    simp

theorem wardsOf_modify (h : F.parent (f (p.cell a)) = F.parent (p.cell a)) :
    wardsOf F (modify p a f) q = wardsOf F p q := by
  unfold wardsOf modify
  refine Finset.filter_congr fun b _ => ?_
  obtain rfl | hb := eq_or_ne b a
  · simp [h]
  · simp [hb]

end Wards

/-- An object comes, and its parent counts it. -/
def birth (F : Family α) (p : Pool α) (a : ℕ) (x : α) : Pool α :=
  match F.parent x with
  | none => place p a x
  | some q => modify (place p a x) q (F.bump 1)

/-- The parent counts the object no more, and the object goes. -/
def death (F : Family α) (p : Pool α) (a : ℕ) : Pool α :=
  match F.parent (p.cell a) with
  | none => release p a
  | some q => release (modify p q (F.bump (-1))) a

section Counts

variable {F : Family α} {p : Pool α} {off : ℕ → ℤ} {a q : ℕ} {x y : α}

theorem Off.congr {off' : ℕ → ℤ} (H : Off F p off) (h : ∀ a, off' a = off a) : Off F p off' := by
  obtain rfl : off' = off := funext h
  exact H

theorem off_bump (H : Off F p off) (q : ℕ) (k : ℤ) :
    Off F (modify p q (F.bump k)) fun a => off a + if a = q then k else 0 := by
  intro a x n hx hn
  rw [wardsOf_modify (F.parent_bump k _)]
  obtain rfl | ha := eq_or_ne a q
  · rw [read_modify_self] at hx
    obtain ⟨y, hy, rfl⟩ := Option.map_eq_some_iff.mp hx
    rw [F.wards_bump] at hn
    obtain ⟨m, hm, rfl⟩ := Option.map_eq_some_iff.mp hn
    have hcount := H a y m hy hm
    simp only [if_true]
    omega
  · rw [read_modify_ne ha] at hx
    have hcount := H a x n hx hn
    simp only [if_neg ha]
    omega

/-- A new object has no wards yet. -/
theorem off_place (H : Off F p fun _ => 0) (P : Parented F p) (ha : a ∉ p.live)
    (hx : ∀ n, F.wards x = some n → n = 0) :
    Off F (place p a x) fun b => if F.parent x = some b then -1 else 0 := by
  intro b y n hy hn
  rw [wardsOf_place ha]
  obtain rfl | hb := eq_or_ne b a
  · rw [read_place_self] at hy
    obtain rfl := Option.some.inj hy
    have hempty : wardsOf F p b = ∅ := by
      by_contra hne
      obtain ⟨c, hc⟩ := Finset.nonempty_iff_ne_empty.mpr hne
      obtain ⟨z, hz, hparent⟩ := mem_wardsOf.mp hc
      obtain ⟨w, hw, -⟩ := P c z b hz hparent
      exact ha (read_eq_some.mp hw).1
    rw [hx n hn, hempty]
    simp only
    split <;> simp
  · rw [read_place_ne hb] at hy
    have hcount := H b y n hy hn
    simp only at hcount ⊢
    split <;> omega

theorem off_release (H : Off F p off) (h : read p a = some x) :
    Off F (release p a) fun b => off b + if F.parent x = some b then 1 else 0 := by
  intro b y n hy hn
  rw [wardsOf_release h]
  have hb : b ≠ a := by
    rintro rfl
    rw [read_release_self] at hy
    cases hy
  rw [read_release_ne hb] at hy
  have hcount := H b y n hy hn
  simp only
  split <;> omega

/-- A change that leaves the family alone. -/
theorem Parented.modify {f : α → α} (P : Parented F p) (q : ℕ)
    (hparent : ∀ x, F.parent (f x) = F.parent x) (hward : ∀ x y, F.fits (f x) y ↔ F.fits x y)
    (hfits : ∀ x y, F.fits x (f y) ↔ F.fits x y) : Parented F (modify p q f) := by
  -- an object reads as before, as far as its parent goes
  have hback : ∀ a x, read (ObjectPool.modify p q f) a = some x →
      ∃ y, read p a = some y ∧ F.parent x = F.parent y ∧ ∀ z, F.fits y z → F.fits x z := by
    intro a x hx
    obtain rfl | ha := eq_or_ne a q
    · rw [read_modify_self] at hx
      obtain ⟨y, hy, rfl⟩ := Option.map_eq_some_iff.mp hx
      exact ⟨y, hy, hparent y, fun z => (hward y z).mpr⟩
    · rw [read_modify_ne ha] at hx
      exact ⟨x, hx, rfl, fun _ => id⟩
  intro a x r hx hr
  obtain ⟨y, hy, hsame, hxy⟩ := hback a x hx
  obtain ⟨z, hz, hyz⟩ := P a y r hy (hsame ▸ hr)
  obtain rfl | hne := eq_or_ne r q
  · exact ⟨f z, by rw [read_modify_self, hz]; rfl, (hfits x z).mpr (hxy z hyz)⟩
  · exact ⟨z, by rwa [read_modify_ne hne], hxy z hyz⟩

theorem Parented.bump (P : Parented F p) (q : ℕ) (k : ℤ) :
    Parented F (ObjectPool.modify p q (F.bump k)) :=
  P.modify q (F.parent_bump k) (F.fits_bump_ward k) (F.fits_bump k)

theorem Parented.place (P : Parented F p) (ha : a ∉ p.live)
    (hq : ∀ q, F.parent x = some q → ∃ y, read p q = some y ∧ F.fits x y) :
    Parented F (place p a x) := by
  intro b y r hy hr
  have hold : ∃ z, read p r = some z ∧ F.fits y z := by
    obtain rfl | hb := eq_or_ne b a
    · rw [read_place_self] at hy
      obtain rfl := Option.some.inj hy
      exact hq r hr
    · rw [read_place_ne hb] at hy
      exact P b y r hy hr
  obtain ⟨z, hz, hfits⟩ := hold
  exact ⟨z, by rw [read_place_ne (fresh_ne ha hz), hz], hfits⟩

theorem Parented.release (P : Parented F p) (h : wardsOf F p a = ∅) :
    Parented F (release p a) := by
  intro b y r hy hr
  have hb : b ≠ a := by
    rintro rfl
    rw [read_release_self] at hy
    cases hy
  rw [read_release_ne hb] at hy
  obtain ⟨z, hz, hfits⟩ := P b y r hy hr
  have hra : r ≠ a := by
    rintro rfl
    exact Finset.notMem_empty b (h ▸ mem_wardsOf.mpr ⟨y, hy, hr⟩)
  exact ⟨z, by rw [read_release_ne hra, hz], hfits⟩

theorem Counted.birth (C : Counted F p) (ha : a ∉ p.live)
    (hx : ∀ n, F.wards x = some n → n = 0)
    (hq : ∀ q, F.parent x = some q → ∃ y, read p q = some y ∧ F.fits x y) :
    Counted F (birth F p a x) := by
  have hplace := off_place C.exact C.parented ha hx
  have hparented := C.parented.place ha hq
  unfold ObjectPool.birth
  split
  · next hnone => exact ⟨hparented, hplace.congr fun b => by simp [hnone]⟩
  · next q hsome =>
    refine ⟨hparented.bump q 1, (off_bump hplace q 1).congr fun b => ?_⟩
    rw [hsome]
    obtain rfl | hb := eq_or_ne b q
    · simp
    · simp [hb, hb.symm]

theorem Counted.wards_empty (C : Counted F p) (h : read p a = some x)
    (hx : F.wards x = none ∨ F.wards x = some 0) : wardsOf F p a = ∅ := by
  by_contra hne
  obtain ⟨c, hc⟩ := Finset.nonempty_iff_ne_empty.mpr hne
  rcases hx with hx | hx
  · obtain ⟨z, hz, hparent⟩ := mem_wardsOf.mp hc
    obtain ⟨w, hw, hfits⟩ := C.parented c z a hz hparent
    obtain rfl := Option.some.inj (h.symm.trans hw)
    have hcounts := F.counts z x hfits
    simp [hx] at hcounts
  · have hcount := C.exact a x 0 h hx
    have hpos := Finset.card_pos.mpr ⟨c, hc⟩
    simp only at hcount
    omega

theorem Counted.death (C : Counted F p) (h : read p a = some x)
    (hx : F.wards x = none ∨ F.wards x = some 0) : Counted F (death F p a) := by
  have hempty := C.wards_empty h hx
  have hcell := (read_eq_some.mp h).2
  unfold ObjectPool.death
  rw [hcell]
  split
  · next hnone =>
    exact ⟨C.parented.release hempty, (off_release C.exact h).congr fun b => by simp [hnone]⟩
  · next q hsome =>
    have hqa : a ≠ q := by
      rintro rfl
      exact Finset.notMem_empty a (hempty ▸ mem_wardsOf.mpr ⟨x, h, hsome⟩)
    have hread : read (modify p q (F.bump (-1))) a = some x := by rw [read_modify_ne hqa, h]
    have hwards : wardsOf F (modify p q (F.bump (-1))) a = ∅ := by
      rw [wardsOf_modify (F.parent_bump _ _), hempty]
    refine ⟨(C.parented.bump q (-1)).release hwards,
      (off_release (off_bump C.exact q (-1)) hread).congr fun b => ?_⟩
    rw [hsome]
    obtain rfl | hb := eq_or_ne b q
    · simp
    · simp [hb, hb.symm]

/-- A change that leaves the family and the counts alone. -/
theorem Counted.modify {f : α → α} (C : Counted F p) (q : ℕ)
    (hparent : ∀ x, F.parent (f x) = F.parent x) (hwards : ∀ x, F.wards (f x) = F.wards x)
    (hward : ∀ x y, F.fits (f x) y ↔ F.fits x y) (hfits : ∀ x y, F.fits x (f y) ↔ F.fits x y) :
    Counted F (modify p q f) := by
  refine ⟨C.parented.modify q hparent hward hfits, fun a x n hx hn => ?_⟩
  rw [wardsOf_modify (hparent _)]
  obtain rfl | ha := eq_or_ne a q
  · rw [read_modify_self] at hx
    obtain ⟨y, hy, rfl⟩ := Option.map_eq_some_iff.mp hx
    exact C.exact a y n hy (hwards y ▸ hn)
  · rw [read_modify_ne ha] at hx
    exact C.exact a x n hx hn

/-- Only what can be read matters. -/
theorem Counted.congr {p' : Pool α} (C : Counted F p) (h : ∀ a, read p' a = read p a) :
    Counted F p' := by
  have hwards : ∀ q, wardsOf F p' q = wardsOf F p q := by
    intro q
    ext b
    exact mem_wardsOf_ne (h b)
  refine ⟨fun a x q hx hq => ?_, fun a x n hx hn => ?_⟩
  · rw [h q]
    exact C.parented a x q (h a ▸ hx) hq
  · rw [hwards]
    exact C.exact a x n (h a ▸ hx) hn

end Counts

end WinMali.ObjectPool
