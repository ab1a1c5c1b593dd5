import Mathlib.Algebra.Group.Nat.Defs
import Mathlib.Data.Nat.Find
import WinMaliKmd.Lpae

/-!
# The escape buffer

What user mode hands to `WinMaliEscape.c`: bytes, their number, and offsets and
counts among the bytes that are not to be trusted. A handler's use of the buffer
is a list of accesses.
-/

set_option autoImplicit false

namespace WinMali.EscapeBuffer

/-- `byte o` is what is found at offset `o`, past the end of the buffer too. -/
structure Buffer where
  privateDriverDataSize : BitVec 32
  byte : ℕ → BitVec 8

structure Access where
  offset : ℕ
  length : ℕ
deriving DecidableEq, Repr

namespace Buffer

def u16 (b : Buffer) (o : ℕ) : BitVec 16 := b.byte (o + 1) ++ b.byte o

def u32 (b : Buffer) (o : ℕ) : BitVec 32 := b.u16 (o + 2) ++ b.u16 o

def u64 (b : Buffer) (o : ℕ) : BitVec 64 := b.u32 (o + 4) ++ b.u32 o

def Inside (b : Buffer) (a : Access) : Prop :=
  a.offset + a.length ≤ b.privateDriverDataSize.toNat

instance (b : Buffer) (a : Access) : Decidable (b.Inside a) := inferInstanceAs (Decidable (_ ≤ _))

end Buffer

/-- The cast of a size to `ULONG`. -/
def ulong (n : ℕ) : BitVec 32 := BitVec.ofNat 32 n

def escapeRangeOk (b : Buffer) (offset size : BitVec 32) : Bool :=
  if size = 0 then true
  else if offset + size < offset then false
  else if offset + size > b.privateDriverDataSize then false
  else true

def escapeAt (b : Buffer) (offset size : BitVec 32) : Option ℕ :=
  if escapeRangeOk b offset size then some offset.toNat else none

section Ranges

variable {b : Buffer} {offset size : BitVec 32} {count elem o : ℕ}

/-- The check is right about the size it is given. -/
theorem rangeOk_iff : escapeRangeOk b offset size = true ↔
    size = 0 ∨ offset.toNat + size.toNat ≤ b.privateDriverDataSize.toNat := by
  have hb := b.privateDriverDataSize.isLt
  have ho := offset.isLt
  have hs := size.isLt
  unfold escapeRangeOk
  split
  · simp [*]
  · rename_i hne
    have hpos : size.toNat ≠ 0 := fun h => hne (BitVec.eq_of_toNat_eq h)
    split
    · rename_i hlt
      rw [BitVec.lt_def, BitVec.toNat_add] at hlt
      simp only [Bool.false_eq_true, hne, false_or, false_iff]
      omega
    · rename_i hge
      rw [BitVec.lt_def, BitVec.toNat_add] at hge
      split
      · rename_i hgt
        rw [gt_iff_lt, BitVec.lt_def, BitVec.toNat_add] at hgt
        simp only [Bool.false_eq_true, hne, false_or, false_iff]
        omega
      · rename_i hle
        rw [gt_iff_lt, BitVec.lt_def, BitVec.toNat_add] at hle
        simp only [hne, false_or, true_iff]
        omega

theorem escapeAt_some : escapeAt b offset size = some o ↔
    escapeRangeOk b offset size = true ∧ o = offset.toNat := by
  unfold escapeAt
  split
  · simp [*, eq_comm]
  · simp [*]

theorem escapeAt_none : escapeAt b offset size = none ↔ escapeRangeOk b offset size = false := by
  unfold escapeAt
  split <;> simp [*]

theorem ulong_toNat {n : ℕ} (h : n < 2 ^ 32) : (ulong n).toNat = n := by
  rw [ulong, BitVec.toNat_ofNat, Nat.mod_eq_of_lt h]

/-- An array whose size is not truncated and that passes the check is in the buffer. -/
theorem escapeAt_inside (h : escapeAt b offset (ulong count) = some o) (hc : count < 2 ^ 32) :
    o + count ≤ b.privateDriverDataSize.toNat ∨ count = 0 := by
  obtain ⟨hok, rfl⟩ := escapeAt_some.mp h
  rcases rangeOk_iff.mp hok with hz | hle
  · right
    rw [← ulong_toNat hc, hz]
    rfl
  · left
    rwa [ulong_toNat hc] at hle

/-- No array is longer than the buffer can be. -/
theorem array_outside (b : Buffer) (o : ℕ) (hsize : 2 ^ 32 ≤ count * elem) :
    b.privateDriverDataSize.toNat < o + elem * count := by
  have := b.privateDriverDataSize.isLt
  rw [Nat.mul_comm elem]
  omega

end Ranges

/-- `P` holds of each entry that a walk over `left` entries from `i` comes to. The walk goes on
past an entry that passes. -/
def Walk (passes P : ℕ → Prop) (i left : ℕ) : Prop :=
  ∀ j, i ≤ j → j < i + left → (∀ m, i ≤ m → m < j → passes m) → P j

section Walks

variable {passes P Q : ℕ → Prop} {i left count elem o size : ℕ}

theorem walk_zero : Walk passes P i 0 := fun j hi hj _ => by omega

theorem walk_succ :
    Walk passes P i (left + 1) ↔ P i ∧ (passes i → Walk passes P (i + 1) left) := by
  constructor
  · intro h
    refine ⟨h i (Nat.le_refl i) (by omega) fun m hm hlt => by omega, fun hi j hj hlt hbefore => ?_⟩
    refine h j (by omega) (by omega) fun m hm hlt => ?_
    rcases Nat.eq_or_lt_of_le hm with rfl | hm
    · exact hi
    · exact hbefore m hm hlt
  · rintro ⟨hhead, htail⟩ j hj hlt hbefore
    rcases Nat.eq_or_lt_of_le hj with rfl | hj
    · exact hhead
    · exact htail (hbefore i (Nat.le_refl i) hj) j hj (by omega)
        fun m hm hmj => hbefore m (by omega) hmj

/-- A walk that nothing ends comes to every entry. -/
theorem walk_all : Walk (fun _ => True) P 0 count ↔ ∀ j < count, P j :=
  ⟨fun h j hj => h j (Nat.zero_le j) (by omega) fun _ _ _ => trivial,
    fun h j _ hj _ => h j (by omega)⟩

theorem walk_and : Walk passes (fun j => P j ∧ Q j) i left ↔
    Walk passes P i left ∧ Walk passes Q i left := by
  constructor
  · intro h
    exact ⟨fun j hi hj hb => (h j hi hj hb).1, fun j hi hj hb => (h j hi hj hb).2⟩
  · rintro ⟨hP, hQ⟩ j hi hj hb
    exact ⟨hP j hi hj hb, hQ j hi hj hb⟩

/-- A walk stays in bounds exactly when the array does, or an entry within bounds ends it. -/
theorem walk_inside_iff :
    Walk passes (fun j => o + elem * j + elem ≤ size) 0 count ↔
      count = 0 ∨ o + elem * count ≤ size ∨
        ∃ i < count, o + elem * i + elem ≤ size ∧ ¬passes i := by
  simp only [Nat.add_assoc, ← Nat.mul_succ]
  constructor
  · intro h
    by_contra hout
    push Not at hout
    obtain ⟨hcount, hend, hpass⟩ := hout
    -- the first entry that is not in bounds is reached
    have hex : ∃ i, size < o + elem * (i + 1) :=
      ⟨count - 1, by rwa [Nat.sub_add_cancel (by omega)]⟩
    have hfirst := Nat.find_spec hex
    have hin : ∀ j < Nat.find hex, o + elem * (j + 1) ≤ size :=
      fun j hj => Nat.le_of_not_lt (Nat.find_min hex hj)
    have hlt : Nat.find hex < count := by
      have := Nat.find_min' hex (m := count - 1) (by rwa [Nat.sub_add_cancel (by omega)])
      omega
    have hreached : ∀ j < Nat.find hex, passes j := fun j hj => hpass j (by omega) (hin j hj)
    have := h _ (Nat.zero_le _) (by omega) fun j _ hj => hreached j hj
    simp only [Nat.succ_eq_add_one] at this
    omega
  · rintro (hz | hend | ⟨k, _, hk, hstop⟩) i - hi hreached
    · omega
    · exact Nat.le_trans (Nat.add_le_add_left (Nat.mul_le_mul_left elem (by omega)) o) hend
    · have hle : i ≤ k := Nat.le_of_not_lt fun hki => hstop (hreached k (Nat.zero_le k) hki)
      have helem := Nat.mul_le_mul_left elem (Nat.succ_le_succ hle)
      exact Nat.le_trans (Nat.add_le_add_left helem o) hk

/-- The size of the array is not truncated, or an entry in the buffer ends the walk. -/
def WalkFits (b : Buffer) (o elem count : ℕ) (passes : ℕ → Prop) : Prop :=
  count * elem < 2 ^ 32 ∨ ∃ i < count, b.Inside ⟨o + elem * i, elem⟩ ∧ ¬passes i

/-- What the check of a truncated size is worth. -/
theorem walk_fits_iff {b : Buffer} {offset : BitVec 32}
    (h : escapeAt b offset (ulong (count * elem)) = some o) (helem : 0 < elem) :
    Walk passes (fun j => b.Inside ⟨o + elem * j, elem⟩) 0 count ↔
      WalkFits b o elem count passes := by
  refine walk_inside_iff.trans ⟨?_, ?_⟩
  · rintro (rfl | hend | hstop)
    · left
      simp
    · left
      by_contra hsize
      have := array_outside b o (Nat.le_of_not_lt hsize)
      omega
    · exact .inr hstop
  · rintro (hsize | hstop)
    · rcases escapeAt_inside h hsize with hin | hz
      · right
        left
        rwa [Nat.mul_comm]
      · left
        exact (Nat.mul_eq_zero.mp hz).resolve_right (by omega)
    · exact .inr (.inr hstop)

end Walks

end WinMali.EscapeBuffer
