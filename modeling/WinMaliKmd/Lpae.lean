import Mathlib.Algebra.Group.Nat.Defs

/-!
# LPAE descriptor words

The words of `WinMaliMmu.h`: a page-table entry is a raw 64-bit word, and the
same two type bits say "table" at levels 0 to 2 and "page" at level 3.
-/

set_option autoImplicit false

namespace WinMali

inductive NtStatus
  | success
  | invalidParameter
  | insufficientResources
  | invalidDeviceState
  | deviceNotReady
  | bufferTooSmall
  | bufferOverflow
  | notFound
  | ioTimeout
  | notSupported
  | unsuccessful
  | invalidHandle
deriving DecidableEq, Repr

def NtStatus.ok (st : NtStatus) : Bool := st == .success

@[simp] theorem NtStatus.ok_iff (st : NtStatus) : st.ok = true ↔ st = .success := by
  cases st <;> decide

@[simp] theorem NtStatus.ok_success : NtStatus.success.ok = true := rfl

theorem NtStatus.ok_eq_false {st : NtStatus} (h : st ≠ .success) : st.ok = false :=
  Bool.eq_false_iff.mpr fun hok => h (st.ok_iff.mp hok)

abbrev Word := BitVec 64

end WinMali

namespace WinMali.Lpae

def paMask : Word := 0x0000fffffffff000

def attrMask : Word := 0xffff000000000fff

def tableDesc : Word := 3

def l3Base : Word := 0x743

def l3ApRo : Word := 1 <<< 7

def l3Pxn : Word := 1 <<< 53

def l3Uxn : Word := 1 <<< 54

def l3Nx : Word := l3Pxn ||| l3Uxn

def pageAttrRwEx : Word := l3Base

def pageAttrRoEx : Word := l3Base ||| l3ApRo

def pageAttrRwNx : Word := l3Base ||| l3Nx

def pageAttrRoNx : Word := l3Base ||| l3ApRo ||| l3Nx

/-- `Attrs` keeps out of the address field and carries the page type bits. -/
def ValidAttrs (attrs : Word) : Prop := attrs &&& attrMask = attrs ∧ attrs &&& 3 = 3

instance (attrs : Word) : Decidable (ValidAttrs attrs) :=
  inferInstanceAs (Decidable (_ ∧ _))

theorem page_attrs_valid :
    ∀ attrs ∈ [pageAttrRwEx, pageAttrRoEx, pageAttrRwNx, pageAttrRoNx], ValidAttrs attrs := by
  simp only [List.forall_mem_cons]
  refine ⟨?_, ?_, ?_, ?_, by simp⟩ <;> decide

/-- The page address that a table descriptor holds. -/
def next (w : Word) : Option Word := if w &&& 3 = tableDesc then some (w &&& paMask) else none

/-- Output address and attributes of a valid level 3 descriptor. -/
def leafOf (w : Word) : Option (Word × Word) :=
  if w &&& 3 = 3 then some (w &&& paMask, w &&& attrMask) else none

def Framed (pa : Word) : Prop := pa &&& paMask = pa

theorem pa_mask_eq : paMask = (BitVec.allOnes 36).setWidth 64 <<< 12 := by decide

theorem framed_of_page (pa : Word) (h12 : pa.toNat % 4096 = 0) (h48 : pa.toNat < 2 ^ 48) :
    Framed pa := by
  have hlow : ∀ i, i < 12 → pa.toNat.testBit i = false := by
    intro i hi
    have hdvd : pa.toNat = 2 ^ 12 * (pa.toNat / 4096) := by omega
    rw [hdvd, Nat.testBit_two_pow_mul]
    simp
    omega
  have hhigh : ∀ i, 48 ≤ i → pa.toNat.testBit i = false := by
    intro i hi
    exact Nat.testBit_lt_two_pow
      (Nat.lt_of_lt_of_le h48 (Nat.pow_le_pow_right (by omega) hi))
  rw [Framed, pa_mask_eq]
  apply BitVec.eq_of_getLsbD_eq
  intro i hi
  simp only [BitVec.getLsbD_and, BitVec.getLsbD_shiftLeft, BitVec.getLsbD_setWidth,
    BitVec.getLsbD_allOnes, hi, decide_true, Bool.true_and]
  by_cases h1 : i < 12
  · simp [BitVec.getLsbD, hlow i h1]
  · by_cases h2 : 48 ≤ i
    · simp [BitVec.getLsbD, hhigh i h2]
    · simp only [h1, decide_false, Bool.not_false, Bool.true_and, Bool.and_eq_left_iff_imp]
      intro
      simp
      omega

theorem framed_of_pfn (pfn : Word) (h : pfn.toNat < 2 ^ 36) : Framed (pfn <<< 12) := by
  have hval : (pfn <<< 12).toNat = pfn.toNat * 4096 := by
    rw [BitVec.toNat_shiftLeft, Nat.shiftLeft_eq]
    omega
  exact framed_of_page _ (by omega) (by omega)

theorem Framed.eq {pa : Word} (h : Framed pa) : pa &&& paMask = pa := h

@[simp] theorem next_zero : next 0 = none := by decide

@[simp] theorem leafOf_zero : leafOf 0 = none := by decide

theorem next_link (pa : Word) (hp : Framed pa) :
    next ((pa &&& paMask) ||| tableDesc) = some pa := by
  have h1 : paMask &&& (3 : Word) = 0 := by decide
  have h2 : tableDesc &&& paMask = 0 := by decide
  have h3 : tableDesc &&& (3 : Word) = tableDesc := by decide
  have hlow : ((pa &&& paMask) ||| tableDesc) &&& 3 = tableDesc := by
    rw [BitVec.and_or_distrib_right, BitVec.and_assoc, h1, h3]
    simp
  have hpa : ((pa &&& paMask) ||| tableDesc) &&& paMask = pa := by
    rw [BitVec.and_or_distrib_right, BitVec.and_assoc, BitVec.and_self, h2]
    exact (BitVec.or_zero).trans hp
  rw [next, if_pos hlow, hpa]

theorem leafOf_page (pa attrs : Word) (ha : ValidAttrs attrs) :
    leafOf ((pa &&& paMask) ||| attrs) = some (pa &&& paMask, attrs) := by
  have h1 : paMask &&& (3 : Word) = 0 := by decide
  have h2 : attrMask &&& paMask = 0 := by decide
  have h3 : paMask &&& attrMask = 0 := by decide
  have hlow : ((pa &&& paMask) ||| attrs) &&& 3 = 3 := by
    rw [BitVec.and_or_distrib_right, BitVec.and_assoc, h1, ha.2]
    simp
  have hpa : ((pa &&& paMask) ||| attrs) &&& paMask = pa &&& paMask := by
    rw [BitVec.and_or_distrib_right, BitVec.and_assoc, BitVec.and_self, ← ha.1,
      BitVec.and_assoc, h2]
    simp
  have hattrs : ((pa &&& paMask) ||| attrs) &&& attrMask = attrs := by
    rw [BitVec.and_or_distrib_right, BitVec.and_assoc, h3, ha.1]
    simp
  rw [leafOf, if_pos hlow, hpa, hattrs]

end WinMali.Lpae
