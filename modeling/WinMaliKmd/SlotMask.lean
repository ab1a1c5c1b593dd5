import Mathlib.Data.Nat.Notation

/-!
# Bit masks of slots

A 32-bit mask with one bit for each slot, tested, set and cleared the way C
code does it.
-/

set_option autoImplicit false

namespace WinMali.SlotMask

abbrev Mask := BitVec 32

def hasBit (m : Mask) (i : ℕ) : Bool := m &&& (1#32 <<< i) != 0

def setBit (m : Mask) (i : ℕ) : Mask := m ||| (1#32 <<< i)

def clearBit (m : Mask) (i : ℕ) : Mask := m &&& ~~~(1#32 <<< i)

theorem hasBit_eq (m : Mask) (i : ℕ) (hi : i < 32) : hasBit m i = m.getLsbD i := by
  have h : m &&& (1#32 <<< i) = if m.getLsbD i then BitVec.twoPow 32 i else 0#32 :=
    BitVec.and_twoPow m i
  have hne : BitVec.twoPow 32 i ≠ 0#32 := by
    intro h0
    have := congrArg (fun w => w.getLsbD i) h0
    simp [hi] at this
  rw [hasBit, h]
  cases m.getLsbD i with
  | false => rfl
  | true => simpa using hne

theorem one_shift_bit (i j : ℕ) (hj : j < 32) :
    (1#32 <<< i).getLsbD j = decide (i = j) := by
  have h : 1#32 <<< i = BitVec.twoPow 32 i := rfl
  rw [h, BitVec.getLsbD_twoPow]
  by_cases hij : i = j
  · simp [hij, hj]
  · simp [hij]

theorem hasBit_setBit (m : Mask) (i j : ℕ) (hj : j < 32) :
    hasBit (setBit m i) j = (hasBit m j || decide (i = j)) := by
  rw [hasBit_eq _ _ hj, hasBit_eq _ _ hj, setBit, BitVec.getLsbD_or, one_shift_bit i j hj]

theorem hasBit_clearBit (m : Mask) (i j : ℕ) (hj : j < 32) :
    hasBit (clearBit m i) j = (hasBit m j && !decide (i = j)) := by
  rw [hasBit_eq _ _ hj, hasBit_eq _ _ hj, clearBit, BitVec.getLsbD_and, BitVec.getLsbD_not,
    one_shift_bit i j hj]
  simp [hj]

theorem hasBit_zero (i : ℕ) : hasBit 0 i = false := by simp [hasBit]

theorem hasBit_or (m n : Mask) (i : ℕ) (hi : i < 32) :
    hasBit (m ||| n) i = (hasBit m i || hasBit n i) := by
  rw [hasBit_eq _ _ hi, hasBit_eq _ _ hi, hasBit_eq _ _ hi, BitVec.getLsbD_or]

theorem hasBit_of_and_eq {m n : Mask} (h : m &&& n = n) (i : ℕ) (hi : i < 32)
    (hn : hasBit n i = true) : hasBit m i = true := by
  rw [hasBit_eq _ _ hi] at hn ⊢
  rw [← h, BitVec.getLsbD_and, Bool.and_eq_true] at hn
  exact hn.1

end WinMali.SlotMask
