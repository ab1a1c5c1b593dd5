import WinMaliKmd.ApertureRoots

/-!
# A range that leaves the windows

`SetPtes_` finds out page by page that a range does not fit, and it has written the
pages before by then. The paging operation reports such a failure as a success.
-/

set_option autoImplicit false

namespace WinMali.ApertureAtomic
open WinMali.Lpae WinMali.VmPageTable WinMali.ApertureRoots

structure Request where
  gpuVaStart : Word
  pfns : Option (ℕ → Word)
  firstPagePa : Word
  pageCount : ℕ
  attrs : Word

def Request.pte (r : Request) (i : ℕ) : Word :=
  if r.attrs = 0 then 0
  else match r.pfns with
    | some pfns => makeL3PagePte (pfns i <<< 12) r.attrs
    | none => makeL3PagePte (r.firstPagePa + BitVec.ofNat 64 i * 4096) r.attrs

inductive Call
  | mapGpuRange (gpuVaStart firstPagePa : Word) (pageCount : ℕ) (attrs : Word)
  | mapGpuPfnRange (gpuVaStart : Word) (pfns : Option (ℕ → Word)) (pageCount : ℕ) (attrs : Word)
  | unmapGpuRange (gpuVaStart : Word) (pageCount : ℕ)

def Call.apply (s : State) : Call → NtStatus × State
  | .mapGpuRange gpuVaStart firstPagePa pageCount attrs =>
    ApertureRoots.mapGpuRange s gpuVaStart firstPagePa pageCount attrs
  | .mapGpuPfnRange gpuVaStart pfns pageCount attrs =>
    ApertureRoots.mapGpuPfnRange s gpuVaStart pfns pageCount attrs
  | .unmapGpuRange gpuVaStart pageCount => ApertureRoots.unmapGpuRange s gpuVaStart pageCount

def Call.request : Call → Request
  | .mapGpuRange gpuVaStart firstPagePa pageCount attrs =>
    ⟨gpuVaStart, none, firstPagePa, pageCount, attrs⟩
  | .mapGpuPfnRange gpuVaStart pfns pageCount attrs => ⟨gpuVaStart, pfns, 0, pageCount, attrs⟩
  | .unmapGpuRange gpuVaStart pageCount => ⟨gpuVaStart, none, 0, pageCount, 0⟩

/-- A map needs attributes, and the one with scattered frames needs them too. -/
def Call.Meant : Call → Prop
  | .mapGpuRange _ _ _ attrs => attrs ≠ 0
  | .mapGpuPfnRange _ pfns _ attrs => pfns ≠ none ∧ attrs ≠ 0
  | .unmapGpuRange .. => True

def Admitted (s : State) (r : Request) : Prop :=
  Ready s r.pageCount ∧ r.pageCount ≠ 0 ∧ r.gpuVaStart &&& 0xfff = 0 ∧ r.firstPagePa &&& 0xfff = 0

def Outside (s : State) (c : Call) : Prop :=
  ∃ k < c.request.pageCount, resolveL3Slot s (pageVa c.request.gpuVaStart k) = none

/-- Each page that is written before the loop gets stuck is translated to that already. -/
def Idle (s : State) (c : Call) : Prop :=
  c.Meant → Admitted s c.request → ∀ k < c.request.pageCount, Reached s c.request.gpuVaStart k →
    leafOf (c.request.pte k) = translation s (pageVa c.request.gpuVaStart k)

instance (s : State) (r : Request) : Decidable (Admitted s r) :=
  inferInstanceAs (Decidable (_ ∧ _))

instance : (c : Call) → Decidable c.Meant
  | .mapGpuRange _ _ _ attrs => inferInstanceAs (Decidable (attrs ≠ 0))
  | .mapGpuPfnRange _ none _ _ => isFalse fun h => h.1 rfl
  | .mapGpuPfnRange _ (some _) _ attrs =>
    decidable_of_iff (attrs ≠ 0) ⟨fun h => ⟨Option.some_ne_none _, h⟩, fun h => h.2⟩
  | .unmapGpuRange .. => isTrue trivial

theorem setPtes_admitted {s : State} {r : Request} (h : Admitted s r) :
    setPtes s r.gpuVaStart r.pfns r.firstPagePa r.pageCount r.attrs =
      setPtesLoop r.gpuVaStart r.pte 0 r.pageCount s := by
  obtain ⟨⟨hheap, hbound, hcount⟩, h0, hva, hpa⟩ := h
  have hc : ¬(r.pageCount = 0 ∨ r.pageCount > windowBytes / 4096) := by omega
  have hal : ¬(r.gpuVaStart &&& 0xfff ≠ 0 ∨ r.firstPagePa &&& 0xfff ≠ 0) :=
    not_or.mpr ⟨not_not.mpr hva, not_not.mpr hpa⟩
  rw [setPtes, if_neg (by simp [hheap, hbound]), if_neg hc, if_neg hal]
  rfl

theorem setPtes_turned_away {s : State} {r : Request} (h : ¬Admitted s r) :
    (setPtes s r.gpuVaStart r.pfns r.firstPagePa r.pageCount r.attrs).1 ≠ .success ∧
      (setPtes s r.gpuVaStart r.pfns r.firstPagePa r.pageCount r.attrs).2 = s := by
  unfold setPtes
  split
  · exact ⟨by simp, rfl⟩
  rename_i hready
  split
  · exact ⟨by simp, rfl⟩
  rename_i hcount
  split
  · exact ⟨by simp, rfl⟩
  · rename_i hal
    simp only [not_or, Bool.not_eq_false, not_not] at hready hcount hal
    exact absurd ⟨⟨hready.1, hready.2, by omega⟩, hcount.1, hal.1, hal.2⟩ h

/-- A call writes what its request says, or it is turned away. -/
theorem apply_eq (s : State) (c : Call) :
    (c.Meant ∧ Admitted s c.request ∧
      c.apply s = setPtesLoop c.request.gpuVaStart c.request.pte 0 c.request.pageCount s) ∨
    (¬(c.Meant ∧ Admitted s c.request) ∧ (c.apply s).1 ≠ .success ∧ (c.apply s).2 = s) := by
  have hset : c.Meant → c.apply s = setPtes s c.request.gpuVaStart c.request.pfns
      c.request.firstPagePa c.request.pageCount c.request.attrs := by
    intro hm
    cases c with
    | mapGpuRange start pa count attrs =>
      change attrs ≠ 0 at hm
      simp only [Call.apply, ApertureRoots.mapGpuRange, if_neg hm, Call.request]
    | mapGpuPfnRange start pfns count attrs =>
      have hno : ¬(pfns = none ∨ attrs = 0) := not_or.mpr hm
      simp only [Call.apply, ApertureRoots.mapGpuPfnRange, if_neg hno, Call.request]
    | unmapGpuRange start count => rfl
  by_cases hm : c.Meant
  · by_cases ha : Admitted s c.request
    · exact .inl ⟨hm, ha, (hset hm).trans (setPtes_admitted ha)⟩
    · rw [hset hm]
      exact .inr ⟨fun h => ha h.2, setPtes_turned_away ha⟩
  · refine .inr ⟨fun h => hm h.1, ?_⟩
    cases c with
    | mapGpuRange start pa count attrs =>
      have h0 : attrs = 0 := not_not.mp hm
      simp [Call.apply, ApertureRoots.mapGpuRange, h0]
    | mapGpuPfnRange start pfns count attrs =>
      have hno : pfns = none ∨ attrs = 0 := by
        by_contra h
        exact hm (not_or.mp h)
      simp only [Call.apply, ApertureRoots.mapGpuPfnRange, if_pos hno]
      exact ⟨by simp, trivial⟩
    | unmapGpuRange start count => exact absurd trivial hm

section Loop

variable {s : State} {gpuVaStart : Word} {count : ℕ} (pte : ℕ → Word)

theorem resolve_frame (ptes : Slot → Word) (va : Word) :
    resolveL3Slot { s with ptes := ptes } va = resolveL3Slot s va := rfl

theorem setPtesLoop_stuck {i left k : ℕ} (hik : i ≤ k) (hk : k < i + left)
    (h : resolveL3Slot s (pageVa gpuVaStart k) = none) :
    (setPtesLoop gpuVaStart pte i left s).1 ≠ .success := by
  induction left generalizing i s with
  | zero => omega
  | succ left ih =>
    unfold setPtesLoop
    split
    · simp
    · rename_i slot hslot
      have hne : i ≠ k := by
        rintro rfl
        rw [h] at hslot
        cases hslot
      apply ih (by omega) (by omega)
      rw [resolve_frame]
      exact h

theorem pages_distinct (ha : gpuVaStart.toNat % 4096 = 0) (hc : count ≤ windowBytes / 4096)
    {slot : Slot} {j k : ℕ} (hj : j < count) (hk : k < count)
    (h : resolveL3Slot s (pageVa gpuVaStart j) = some slot)
    (h' : resolveL3Slot s (pageVa gpuVaStart k) = some slot) : j = k := by
  have haligned : ∀ i, (pageVa gpuVaStart i).toNat % 4096 = 0 := by
    intro i
    rw [pageVa_toNat]
    omega
  unfold windowBytes at hc
  exact pageVa_distinct (by omega) (by omega)
    (resolve_injective (haligned j) (haligned k) h h')

theorem loop_slot (ha : gpuVaStart.toNat % 4096 = 0) (hc : count ≤ windowBytes / 4096)
    (slot : Slot) :
    (∃ k < count, resolveL3Slot s (pageVa gpuVaStart k) = some slot ∧ Reached s gpuVaStart k ∧
      (setPtesLoop gpuVaStart pte 0 count s).2.ptes slot = pte k) ∨
    ((∀ k < count, resolveL3Slot s (pageVa gpuVaStart k) = some slot → ¬Reached s gpuVaStart k) ∧
      (setPtesLoop gpuVaStart pte 0 count s).2.ptes slot = s.ptes slot) := by
  by_cases hk : ∃ k < count, resolveL3Slot s (pageVa gpuVaStart k) = some slot
  · obtain ⟨k, hk, hs⟩ := hk
    obtain ⟨hyes, hno⟩ := setPtesLoop_slot pte (Nat.zero_le k) (by omega : k < 0 + count) hs
      fun j _ hj he => pages_distinct ha hc (by omega) hk he hs
    by_cases hr : Reached s gpuVaStart k
    · exact .inl ⟨k, hk, hs, hr, hyes fun j _ hj => hr j hj⟩
    · refine .inr ⟨?_, hno fun h => hr fun j hj => h j (Nat.zero_le j) hj⟩
      intro j hj he
      rwa [pages_distinct ha hc hj hk he hs]
  · refine .inr ⟨fun k hlt he => absurd ⟨k, hlt, he⟩ hk, setPtesLoop_other pte ?_⟩
    exact fun j _ hj he => hk ⟨j, by omega, he⟩

theorem loop_translation (ha : gpuVaStart.toNat % 4096 = 0) (hc : count ≤ windowBytes / 4096)
    (va : Word) :
    (∃ k < count, Reached s gpuVaStart k ∧
      translation s (pageVa gpuVaStart k) = translation s va ∧
      translation (setPtesLoop gpuVaStart pte 0 count s).2 va = leafOf (pte k)) ∨
    translation (setPtesLoop gpuVaStart pte 0 count s).2 va = translation s va := by
  have hafter : translation (setPtesLoop gpuVaStart pte 0 count s).2 va =
      (resolveL3Slot s va).bind fun slot =>
        leafOf ((setPtesLoop gpuVaStart pte 0 count s).2.ptes slot) := by
    rw [translation, setPtesLoop_frame, resolve_frame]
  rw [hafter]
  cases hva : resolveL3Slot s va with
  | none =>
    right
    simp [translation, hva]
  | some slot =>
    rcases loop_slot pte ha hc slot with ⟨k, hk, hs, hr, hw⟩ | ⟨-, hw⟩
    · left
      refine ⟨k, hk, hr, by simp [translation, hs, hva], ?_⟩
      rw [Option.bind_some, hw]
    · right
      rw [Option.bind_some, hw]
      simp [translation, hva]

theorem loop_page (ha : gpuVaStart.toNat % 4096 = 0) (hc : count ≤ windowBytes / 4096) {k : ℕ}
    (hk : k < count) (hr : Reached s gpuVaStart k) :
    translation (setPtesLoop gpuVaStart pte 0 count s).2 (pageVa gpuVaStart k) =
      leafOf (pte k) := by
  obtain ⟨slot, hs⟩ := Option.isSome_iff_exists.mp (hr k (by omega))
  rw [translation, setPtesLoop_frame, resolve_frame, hs, Option.bind_some]
  rcases loop_slot pte ha hc slot with ⟨j, hj, hs', -, hw⟩ | ⟨hnot, -⟩
  · rw [← pages_distinct ha hc hj hk hs' hs]
    exact congrArg leafOf hw
  · exact absurd hr (hnot k hk hs)

/-- The loop shows at some address exactly when a page that it gets to changes. -/
theorem loop_idle_iff (ha : gpuVaStart.toNat % 4096 = 0) (hc : count ≤ windowBytes / 4096) :
    (∀ k < count, Reached s gpuVaStart k →
      leafOf (pte k) = translation s (pageVa gpuVaStart k)) ↔
    ∀ va, translation (setPtesLoop gpuVaStart pte 0 count s).2 va = translation s va := by
  constructor
  · intro hidle va
    rcases loop_translation pte ha hc va with ⟨k, hk, hr, hva, hw⟩ | hsame
    · rw [hw, hidle k hk hr, hva]
    · exact hsame
  · intro hsame k hk hr
    rw [← hsame, loop_page pte ha hc hk hr]

end Loop

/-- A range with a page outside the windows always fails, and the failure shows nowhere exactly
when the pages before it say already what would be written to them. -/
theorem failed_write_atomic_iff (s : State) (c : Call) (h : Outside s c) :
    (c.apply s).1 ≠ .success ∧
      (Idle s c ↔ ∀ va, translation (c.apply s).2 va = translation s va) := by
  rcases apply_eq s c with ⟨hm, ha, heq⟩ | ⟨hno, hst, heq⟩
  · obtain ⟨k, hk, hout⟩ := h
    rw [heq]
    refine ⟨setPtesLoop_stuck _ (Nat.zero_le k) (by omega) hout, ?_⟩
    rw [← loop_idle_iff c.request.pte ((aligned_iff _).mp ha.2.2.1) ha.1.2.2]
    exact ⟨fun hidle => hidle hm ha, fun hidle _ _ => hidle⟩
  · refine ⟨hst, fun _ va => by rw [heq], fun _ hm ha => absurd ⟨hm, ha⟩ hno⟩

/-- The last page of the aperture is mapped. -/
def lastPageMapped : State :=
  (mapGpuPfnRange booted 0x17fff000 (some fun _ => 0x12345) 1 pageAttrRwNx).2

/-- The first page of this range is outside, so nothing has been written when it fails. -/
theorem range_past_the_end_atomic :
    ((Call.unmapGpuRange 0x18000000 2).apply lastPageMapped).1 ≠ .success ∧
      ∀ va, translation ((Call.unmapGpuRange 0x18000000 2).apply lastPageMapped).2 va =
        translation lastPageMapped va := by
  obtain ⟨hst, hiff⟩ := failed_write_atomic_iff lastPageMapped (.unmapGpuRange 0x18000000 2)
    ⟨0, by decide, by decide⟩
  have hstuck : ¬(resolveL3Slot lastPageMapped (pageVa 0x18000000 0)).isSome := by decide
  exact ⟨hst, hiff.mp fun _ _ k hk hr => absurd (hr 0 (Nat.succ_pos k)) hstuck⟩

/-- A range that crosses the end fails, and its first page is gone. -/
theorem failed_unmap_clears_page :
    Outside lastPageMapped (.unmapGpuRange 0x17fff000 2) ∧
      ((Call.unmapGpuRange 0x17fff000 2).apply lastPageMapped).1 = .invalidParameter ∧
      translation lastPageMapped 0x17fff000 = some (0x12345000, pageAttrRwNx) ∧
      translation ((Call.unmapGpuRange 0x17fff000 2).apply lastPageMapped).2 0x17fff000 = none :=
  ⟨⟨1, by decide, by decide⟩, by decide +kernel, by decide +kernel, by decide +kernel⟩

end WinMali.ApertureAtomic
