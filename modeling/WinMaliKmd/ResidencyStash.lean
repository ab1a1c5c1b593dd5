import WinMaliKmd.ApertureWalk
import WinMaliKmd.Runs

/-!
# What an allocation says of its pages

`MapApertureSegment` notes on the allocation where its pages are and which MDL they come
from; the blit and the import of a buffer object believe this note. The table entries and
the note are written at different points of the two paging operations, and either operation
can fail between them.
-/

set_option autoImplicit false

namespace WinMali.ResidencyStash
open WinMali.Lpae WinMali.VmPageTable WinMali.VmTable WinMali.Runs
open WinMali.ApertureRoots WinMali.ApertureAtomic WinMali.ApertureWalk

/-- `allocations` has an entry for every live allocation handle. -/
structure Machine where
  mmu : Mmu
  allocations : ℕ → Option Residency

def setResidency (s : Machine) (hAllocation : ℕ) (r : Residency) : Machine :=
  { s with
    allocations := Function.update s.allocations hAllocation
      ((s.allocations hAllocation).map fun _ => r) }

def mapApertureSegment (s : Machine) (b : MapAperture) : NtStatus × Machine :=
  match b.mdl with
  | none => (.success, s)
  | some mdl =>
    if b.numberOfPages = 0 then (.success, s)
    else
      let gpuVaStart := apertureVa b.offsetInPages
      let pages := b.numberOfPages % 2 ^ 32
      let (status, mmu) := mapGpuPfnRange s.mmu gpuVaStart (some (mdlFrame mdl b.mdlOffset)) pages
        pageAttrRwNx
      let s := { s with mmu := mmu }
      if !status.ok then (status, s)
      else (.success, setResidency s b.hAllocation ⟨b.mdl, b.mdlOffset, pages, gpuVaStart⟩)

def unmapApertureSegment (s : Machine) (hAllocation offsetInPages numberOfPages : ℕ) :
    NtStatus × Machine :=
  if numberOfPages = 0 then (.success, s)
  else
    let s := setResidency s hAllocation ⟨none, 0, 0, 0⟩
    let (status, mmu) := unmapGpuRange s.mmu (apertureVa offsetInPages) (numberOfPages % 2 ^ 32)
    (status, { s with mmu := mmu })

def apply (s : Machine) : Op → Machine
  | .map b => (mapApertureSegment s b).2
  | .unmap hAllocation offsetInPages numberOfPages =>
    (unmapApertureSegment s hAllocation offsetInPages numberOfPages).2

/-- The books of the OS: the allocation for which a page of the segment is mapped. No operation
is reported to it as failed. -/
def Books := ℕ → Option ℕ

def Op.range : Op → ℕ × ℕ
  | .map b => (b.offsetInPages, b.numberOfPages)
  | .unmap _ offsetInPages numberOfPages => (offsetInPages, numberOfPages)

def Within (op : Op) (p : ℕ) : Prop := (Op.range op).1 ≤ p ∧ p < (Op.range op).1 + (Op.range op).2

instance (op : Op) (p : ℕ) : Decidable (Within op p) := inferInstanceAs (Decidable (_ ∧ _))

def enter (books : Books) : Op → Books
  | .map b => fun p => if Within (.map b) p then some b.hAllocation else books p
  | .unmap h o n => fun p => if Within (.unmap h o n) p then none else books p

def step (x : Machine × Books) (op : Op) : Option (Machine × Books) :=
  some (apply x.1 op, enter x.2 op)

/-- The OS maps ranges of the segment that are free, and unmaps what it mapped for the
allocation that it names. -/
def Disciplined (segmentBytes : ℕ) (x : Machine × Books) : Op → Prop
  | .map b => (b.offsetInPages + b.numberOfPages) * 4096 ≤ segmentBytes ∧
      ∀ p, Within (.map b) p → x.2 p = none
  | .unmap h o n => ∀ p, Within (.unmap h o n) p → x.2 p = some h

/-- Wherever an allocation has an MDL, its pages are translated to the frames of that MDL. -/
def Truthful (s : Machine) : Prop :=
  ∀ h r mdl, s.allocations h = some r → r.mdl = some mdl → ∀ i < r.pageCount,
    as1Walk s.mmu (pageVa r.gpuVa i) = some (mdlFrame mdl r.mdlOffset i <<< 12, pageAttrRwNx)

/-- The machine after `MmuInit`; allocations begin without an MDL. -/
def started (r : Replies) (m : Mmu) (live : ℕ → Bool) : Machine where
  mmu := (mmuInit r m).2
  allocations h := if live h then some ⟨none, 0, 0, 0⟩ else none

section Pages

variable {heap aper : Word} {s s' : Machine} {books books' : Books} {h : ℕ} {r : Residency}
  {mdl : List Word}

theorem aperture_pageNo {o k : ℕ} (h : o + k ≤ 2 ^ 51) :
    pageNo (pageVa (apertureVa o) k) = 0x10000 + o + k := by
  have hpage : (4096 : Word).toNat = 4096 := by decide
  rw [pageNo, pageVa_toNat, apertureVa, BitVec.toNat_add, BitVec.toNat_mul, BitVec.toNat_ofNat,
    sysmemGpuBase_toNat, hpage]
  omega

theorem pageNo_apertureVa {o : ℕ} (h : o ≤ 2 ^ 51) : pageNo (apertureVa o) = 0x10000 + o := by
  have hzero := @aperture_pageNo o 0 h
  rwa [pageVa, BitVec.ofNat_eq_ofNat, BitVec.zero_mul, BitVec.add_zero] at hzero

/-- The note of an allocation is right: its pages are on the books for it, and the entries of
its pages have the frames. -/
def Backed (heap aper : Word) (s : Machine) (books : Books) (h : ℕ) (r : Residency)
    (mdl : List Word) : Prop :=
  (∀ f ∈ mdl, f.toNat < 2 ^ 36) ∧ ∃ o, r.gpuVa = apertureVa o ∧ ∀ i < r.pageCount,
    books (o + i) = some h ∧ Window (0x10000 + (o + i)) ∧
      s.mmu.mem (slotAt heap aper (0x10000 + (o + i))) =
        makeL3PagePte (mdlFrame mdl r.mdlOffset i <<< 12) pageAttrRwNx

theorem Backed.keep (B : Backed heap aper s books h r mdl)
    (hbooks : ∀ p, books p = some h → books' p = some h)
    (hmem : ∀ p, books p = some h → Window (0x10000 + p) →
      s'.mmu.mem (slotAt heap aper (0x10000 + p)) = s.mmu.mem (slotAt heap aper (0x10000 + p))) :
    Backed heap aper s' books' h r mdl := by
  obtain ⟨hframes, o, hva, hpages⟩ := B
  refine ⟨hframes, o, hva, fun i hi => ?_⟩
  obtain ⟨hbook, hwindow, hw⟩ := hpages i hi
  exact ⟨hbooks _ hbook, hwindow, (hmem _ hbook hwindow).trans hw⟩

theorem Backed.walk (W : Wired s.mmu heap aper) (B : Backed heap aper s books h r mdl) :
    ∀ i < r.pageCount, as1Walk s.mmu (pageVa r.gpuVa i) =
      some (mdlFrame mdl r.mdlOffset i <<< 12, pageAttrRwNx) := by
  obtain ⟨hframes, o, hva, hpages⟩ := B
  intro i hi
  obtain ⟨-, hwindow, hw⟩ := hpages i hi
  have hpage : pageNo (pageVa r.gpuVa i) = 0x10000 + (o + i) := by
    rw [hva, aperture_pageNo]
    · omega
    · unfold Window at hwindow
      omega
  rw [as1Walk_slot, (W.slot_eq _).2, hpage, if_pos hwindow, Option.bind_some, hw]
  exact leaf_of_frame (mdlFrame_framed hframes r.mdlOffset i)

/-- A call on a range of the segment leaves the entries of the other pages alone. -/
theorem keeps_outside {m t : Mmu} {o n count p : ℕ}
    (K : Keeps heap aper (apertureVa o) 0 count m t) (hcount : count ≤ n) (hreach : o + n ≤ 2 ^ 51)
    (hp : Window (0x10000 + p)) (hout : ¬(o ≤ p ∧ p < o + n)) :
    t.mem (slotAt heap aper (0x10000 + p)) = m.mem (slotAt heap aper (0x10000 + p)) := by
  refine K.other _ hp ?_
  rintro ⟨j, -, hj, heq⟩
  rw [aperture_pageNo (by omega)] at heq
  exact hout (by omega)

end Pages

section Steps

variable {heap aper : Word} {segmentBytes : ℕ} {x : Machine × Books}

structure Inv (heap aper : Word) (segmentBytes : ℕ) (x : Machine × Books) : Prop where
  wired : Wired x.1.mmu heap aper
  reach : ∀ p h, x.2 p = some h → p * 4096 < segmentBytes
  backed : ∀ h r mdl, x.1.allocations h = some r → r.mdl = some mdl →
    Backed heap aper x.1 x.2 h r mdl

theorem setResidency_self (s : Machine) (a : ℕ) (r₀ : Residency) :
    (setResidency s a r₀).allocations a = (s.allocations a).map fun _ => r₀ :=
  Function.update_self _ _ _

theorem setResidency_ne (s : Machine) {a h : ℕ} (r₀ : Residency) (hne : h ≠ a) :
    (setResidency s a r₀).allocations h = s.allocations h :=
  Function.update_of_ne hne _ _

/-- The note of one allocation is replaced, and the entries change in the range only. -/
theorem setResidency_backed {s : Machine} {books : Books} {a : ℕ} {r₀ : Residency}
    (hnew : ∀ mdl, r₀.mdl = some mdl → Backed heap aper s books a r₀ mdl)
    (hold : ∀ h r mdl, h ≠ a → s.allocations h = some r → r.mdl = some mdl →
      Backed heap aper s books h r mdl) {h : ℕ} {r : Residency} {mdl : List Word}
    (hr : (setResidency s a r₀).allocations h = some r) (hmdl : r.mdl = some mdl) :
    Backed heap aper (setResidency s a r₀) books h r mdl := by
  obtain rfl | hne := eq_or_ne h a
  · rw [setResidency_self] at hr
    obtain ⟨_, -, rfl⟩ := Option.map_eq_some_iff.mp hr
    exact hnew mdl hmdl
  · rw [setResidency_ne s r₀ hne] at hr
    exact hold h r mdl hne hr hmdl

def mapCall (b : MapAperture) (mdl : List Word) : Call :=
  .mapGpuPfnRange (apertureVa b.offsetInPages) (some (mdlFrame mdl b.mdlOffset))
    (b.numberOfPages % 2 ^ 32) pageAttrRwNx

/-- A map that succeeds has written the frames of its MDL. -/
theorem mapCall_pages {m : Mmu} (W : Wired m heap aper) {b : MapAperture} {mdl : List Word}
    (hreach : b.offsetInPages ≤ 2 ^ 51) (hok : (call m (mapCall b mdl)).1 = .success) :
    ∀ i < b.numberOfPages % 2 ^ 32, Window (0x10000 + (b.offsetInPages + i)) ∧
      (call m (mapCall b mdl)).2.mem (slotAt heap aper (0x10000 + (b.offsetInPages + i))) =
        makeL3PagePte (mdlFrame mdl b.mdlOffset i <<< 12) pageAttrRwNx := by
  intro i hi
  obtain ⟨hwindow, hw⟩ := (call_step W hok).1 i hi
  have hstart : pageNo (mapCall b mdl).request.gpuVaStart = 0x10000 + b.offsetInPages :=
    pageNo_apertureVa hreach
  rw [hstart, Nat.add_assoc] at hwindow hw
  exact ⟨hwindow, hw⟩

/-- A map does nothing, or it fails on the way, or it writes its pages and the note. -/
theorem map_cases (s : Machine) (b : MapAperture) : apply s (.map b) = s ∨
    ∃ mdl, b.mdl = some mdl ∧
      (apply s (.map b) = { s with mmu := (call s.mmu (mapCall b mdl)).2 } ∨
      (call s.mmu (mapCall b mdl)).1 = .success ∧
        apply s (.map b) = setResidency { s with mmu := (call s.mmu (mapCall b mdl)).2 }
          b.hAllocation ⟨some mdl, b.mdlOffset, b.numberOfPages % 2 ^ 32,
            apertureVa b.offsetInPages⟩) := by
  cases hmdl : b.mdl with
  | none =>
    refine .inl ?_
    simp only [apply, mapApertureSegment, hmdl]
  | some mdl =>
    by_cases h0 : b.numberOfPages = 0
    · refine .inl ?_
      simp only [apply, mapApertureSegment, hmdl, if_pos h0]
    · have heq : apply s (.map b) = (if !(call s.mmu (mapCall b mdl)).1.ok then
            ((call s.mmu (mapCall b mdl)).1, { s with mmu := (call s.mmu (mapCall b mdl)).2 })
          else (.success, setResidency { s with mmu := (call s.mmu (mapCall b mdl)).2 }
            b.hAllocation ⟨some mdl, b.mdlOffset, b.numberOfPages % 2 ^ 32,
              apertureVa b.offsetInPages⟩)).2 := by
        simp only [apply, mapApertureSegment, hmdl, if_neg h0]
        rfl
      refine .inr ⟨mdl, rfl, ?_⟩
      by_cases hok : (call s.mmu (mapCall b mdl)).1 = .success
      · rw [if_neg (by simp [hok])] at heq
        exact .inr ⟨hok, heq⟩
      · rw [if_pos (by simp [NtStatus.ok_eq_false hok])] at heq
        exact .inl heq

theorem map_step (hseg : segmentBytes ≤ 2 ^ 63) (I : Inv heap aper segmentBytes x)
    {b : MapAperture} (hg : Disciplined segmentBytes x (.map b)) (hf : MdlFramed (.map b)) :
    Inv heap aper segmentBytes (apply x.1 (.map b), enter x.2 (.map b)) := by
  obtain ⟨hbytes, hfree⟩ := hg
  have hbooks : ∀ p h, x.2 p = some h → enter x.2 (.map b) p = some h := by
    intro p h hp
    refine (if_neg fun hin => ?_).trans hp
    rw [hfree p hin] at hp
    cases hp
  have hreach : ∀ p h, enter x.2 (.map b) p = some h → p * 4096 < segmentBytes := by
    intro p h hp
    by_cases hin : Within (.map b) p
    · have hlt : p < b.offsetInPages + b.numberOfPages := hin.2
      omega
    · exact I.reach p h ((if_neg hin).symm.trans hp)
  have hkeep : ∀ {s : Machine}, (∀ p h, x.2 p = some h → Window (0x10000 + p) →
      s.mmu.mem (slotAt heap aper (0x10000 + p)) =
        x.1.mmu.mem (slotAt heap aper (0x10000 + p))) → ∀ h r mdl,
      x.1.allocations h = some r → r.mdl = some mdl →
      Backed heap aper s (enter x.2 (.map b)) h r mdl :=
    fun hmem h r mdl hr hmdl =>
      (I.backed h r mdl hr hmdl).keep (fun p => hbooks p h) fun p => hmem p h
  obtain hsame | ⟨mdl, hmdl, hcall⟩ := map_cases x.1 b
  · rw [hsame]
    exact ⟨I.wired, hreach, hkeep fun _ _ _ _ => rfl⟩
  · have K : Keeps heap aper (apertureVa b.offsetInPages) 0 (b.numberOfPages % 2 ^ 32) x.1.mmu
        (call x.1.mmu (mapCall b mdl)).2 := call_keeps I.wired (mapCall b mdl)
    have hmem : ∀ p h, x.2 p = some h → Window (0x10000 + p) →
        (call x.1.mmu (mapCall b mdl)).2.mem (slotAt heap aper (0x10000 + p)) =
          x.1.mmu.mem (slotAt heap aper (0x10000 + p)) := by
      intro p h hp hwindow
      refine keeps_outside K (Nat.mod_le _ _) (by omega) hwindow fun hin => ?_
      rw [hfree p hin] at hp
      cases hp
    obtain heq | ⟨hok, heq⟩ := hcall
    · rw [heq]
      exact ⟨K.wired, hreach, hkeep hmem⟩
    · rw [heq]
      refine ⟨K.wired, hreach, fun h r mdl' => setResidency_backed ?_ ?_⟩
      · rintro mdl' ⟨⟩
        refine ⟨hf mdl hmdl, b.offsetInPages, rfl, fun i hi => ?_⟩
        have hcount : b.numberOfPages % 2 ^ 32 ≤ b.numberOfPages := Nat.mod_le _ _
        obtain ⟨hwindow, hw⟩ := mapCall_pages I.wired (by omega) hok i hi
        have hin : Within (.map b) (b.offsetInPages + i) :=
          ⟨Nat.le_add_right _ _, Nat.add_lt_add_left (Nat.lt_of_lt_of_le hi hcount) _⟩
        exact ⟨if_pos hin, hwindow, hw⟩
      · exact fun h r mdl' _ hr hmdl' => hkeep hmem h r mdl' hr hmdl'

theorem unmap_step (hseg : segmentBytes ≤ 2 ^ 63) (I : Inv heap aper segmentBytes x) {a o n : ℕ}
    (hg : Disciplined segmentBytes x (.unmap a o n)) :
    Inv heap aper segmentBytes (apply x.1 (.unmap a o n), enter x.2 (.unmap a o n)) := by
  have hbooks : ∀ p h, h ≠ a → x.2 p = some h → enter x.2 (.unmap a o n) p = some h := by
    intro p h hne hp
    refine (if_neg fun hin => ?_).trans hp
    rw [hg p hin] at hp
    exact hne (Option.some.inj hp).symm
  have hreach : ∀ p h, enter x.2 (.unmap a o n) p = some h → p * 4096 < segmentBytes := by
    intro p h hp
    by_cases hin : Within (.unmap a o n) p
    · rw [show enter x.2 (.unmap a o n) p = none from if_pos hin] at hp
      cases hp
    · exact I.reach p h ((if_neg hin).symm.trans hp)
  by_cases h0 : n = 0
  · have hout : ∀ p, ¬Within (.unmap a o n) p := by
      rintro p ⟨h1, h2⟩
      simp only [Op.range] at h1 h2
      omega
    have happly : apply x.1 (.unmap a o n) = x.1 := by
      simp only [apply, unmapApertureSegment, if_pos h0]
    rw [happly]
    refine ⟨I.wired, hreach, fun h r mdl hr hmdl => ?_⟩
    exact (I.backed h r mdl hr hmdl).keep (fun p hp => (if_neg (hout p)).trans hp)
      fun _ _ _ => rfl
  · have happly : apply x.1 (.unmap a o n) =
        setResidency { x.1 with
          mmu := (call x.1.mmu (.unmapGpuRange (apertureVa o) (n % 2 ^ 32))).2 } a
          ⟨none, 0, 0, 0⟩ := by
      simp only [apply, unmapApertureSegment, if_neg h0]
      rfl
    have K : Keeps heap aper (apertureVa o) 0 (n % 2 ^ 32) x.1.mmu
        (call x.1.mmu (.unmapGpuRange (apertureVa o) (n % 2 ^ 32))).2 :=
      call_keeps I.wired (.unmapGpuRange (apertureVa o) (n % 2 ^ 32))
    have hlast : (o + n - 1) * 4096 < segmentBytes := by
      refine I.reach _ a (hg _ ⟨?_, ?_⟩) <;> simp only [Op.range] <;> omega
    rw [happly]
    refine ⟨K.wired, hreach, fun h r mdl => setResidency_backed (fun _ => ?_) ?_⟩
    · rintro ⟨⟩
    · intro h r mdl hne hr hmdl
      refine (I.backed h r mdl hr hmdl).keep (fun p => hbooks p h hne) ?_
      intro p hp hwindow
      refine keeps_outside K (Nat.mod_le _ _) (by omega) hwindow fun hin => ?_
      rw [hg p hin] at hp
      exact hne (Option.some.inj hp).symm

theorem inv_step (hseg : segmentBytes ≤ 2 ^ 63) (I : Inv heap aper segmentBytes x) {op : Op}
    (hg : MdlFramed op ∧ Disciplined segmentBytes x op) {y : Machine × Books}
    (h : step x op = some y) : Inv heap aper segmentBytes y := by
  obtain rfl := Option.some.inj h
  cases op with
  | map b => exact map_step hseg I hg.2 hg.1
  | unmap a o n => exact unmap_step hseg I hg.2

theorem Inv.truthful (I : Inv heap aper segmentBytes x) : Truthful x.1 :=
  fun h r mdl hr hmdl => (I.backed h r mdl hr hmdl).walk I.wired

end Steps

/-- Over every history of an OS that keeps to its ranges, each allocation with an MDL is
translated to the frames of that MDL. A segment of more than the window is allowed here; maps
can then fail halfway. -/
theorem stash_tells_the_truth (r : Replies) (m : Mmu) (hinit : (mmuInit r m).1 = .success)
    (live : ℕ → Bool) (segmentBytes : ℕ) (hseg : segmentBytes ≤ 2 ^ 63) (ops : List Op)
    (hf : ∀ op ∈ ops, MdlFramed op)
    (hg : Guarded step (Disciplined segmentBytes) (started r m live, fun _ => none) ops) :
    Always step (fun _ _ y => Truthful y.1) (started r m live, fun _ => none) ops := by
  obtain ⟨heap, aper, W, -⟩ := init_wired hinit
  have I : Inv heap aper segmentBytes (started r m live, fun _ => none) := by
    refine ⟨W, fun p h hp => (nomatch hp), fun h r mdl hr hmdl => ?_⟩
    simp only [started] at hr
    split at hr
    · obtain rfl := Option.some.inj hr
      cases hmdl
    · cases hr
  refine always_of_guarded ?_ ?_ I (hg.of_labels hf)
  · exact fun x op y I hop hy => inv_step hseg I hop hy
  · exact fun x op y I hop hy => (inv_step hseg I hop hy).truthful

theorem within_iff {op : Op} {P : ℕ → Prop} : (∀ p, Within op p → P p) ↔
    ∀ k < (Op.range op).2, P ((Op.range op).1 + k) := by
  constructor
  · exact fun h k hk => h _ ⟨Nat.le_add_right _ _, Nat.add_lt_add_left hk _⟩
  · intro h p hp
    have hpage := h (p - (Op.range op).1) (by have := hp.1; have := hp.2; omega)
    rwa [Nat.add_sub_cancel' hp.1] at hpage

instance (segmentBytes : ℕ) (x : Machine × Books) :
    (op : Op) → Decidable (Disciplined segmentBytes x op)
  | .map _ => @instDecidableAnd _ _ inferInstance (decidable_of_iff _ within_iff.symm)
  | .unmap .. => decidable_of_iff _ within_iff.symm

/-- Two ranges of one allocation, another allocation beside them, and a range that crosses the
end of the window. -/
def history : List Op :=
  [.map ⟨7, 3, 2, some [0x12345, 0x12346], 0⟩, .map ⟨7, 0, 1, some [0x9, 0x54321], 1⟩,
    .map ⟨8, 1, 2, some [0x777, 0x778], 0⟩, .map ⟨9, 0x7FFF, 2, some [0x5, 0x6], 0⟩,
    .unmap 7 3 2, .map ⟨8, 3, 1, some [0x888], 0⟩]

theorem truthful_after_history :
    (∃ y r, exec step (started granted cold fun _ => true, fun _ => none) history = some y ∧
      y.1.allocations 8 = some r ∧ r.mdl = some [0x888] ∧ r.gpuVa = 0x10003000) ∧
    Always step (fun _ _ y => Truthful y.1)
      (started granted cold fun _ => true, fun _ => none) history := by
  refine ⟨⟨_, _, rfl, rfl, by decide +kernel, by decide +kernel⟩,
    stash_tells_the_truth granted cold (by decide +kernel) (fun _ => true)
      (2 * windowBytes) (by decide) history ?_ (by decide +kernel)⟩
  unfold history
  simp only [List.forall_mem_cons]
  refine ⟨?_, ?_, ?_, ?_, trivial, ?_, by simp⟩ <;> rintro mdl ⟨⟩ <;> simp

end WinMali.ResidencyStash
