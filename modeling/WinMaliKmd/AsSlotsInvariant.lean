import Mathlib.Data.List.InsertIdx
import Mathlib.Data.List.Nodup
import WinMaliKmd.Runs
import WinMaliKmd.VmPageTable

/-!
# Bookkeeping of address-space slots

The used bits against the owners of the slots. The two allocators are safe
together as long as a slot is dropped by its own owner, and a context that is
already bound does not lose its entry to a failed rebind.
-/

set_option autoImplicit false

namespace WinMali.AsSlotsInvariant
open WinMali.SlotMask WinMali.AsSlots WinMali.VmPageTable WinMali.Runs

structure State where
  adapter : Adapter
  vms : List VmPt

def State.leases (s : State) : List ℕ := s.vms.map VmPt.asSlot

/-- A VM is live from a successful `vmInit` on. -/
def State.afterInit (s : State) (r : NtStatus × VmPt × Adapter) : State :=
  ⟨r.2.2, if r.1.ok then s.vms ++ [r.2.1] else s.vms⟩

inductive Op
  | bind (hContext : ℕ) (rootPtPa : Word) (hw : NtStatus)
  | unbind (hContext : ℕ)
  | vmInit (supply : ℕ → PtReply) (mem : Word → Fin 512 → Word) (hw : NtStatus)
  | vmTeardown (vm : ℕ)

def step (s : State) : Op → Option State
  | .bind h root hw => some { s with adapter := (bindContextRootPt s.adapter h root hw).2.2 }
  | .unbind h => some { s with adapter := (unbindContext s.adapter h).2 }
  | .vmInit supply mem hw => some (s.afterInit (vmInit supply s.adapter mem hw))
  | .vmTeardown vm =>
    s.vms[vm]?.map fun pt => ⟨(vmTeardown s.adapter pt).2, s.vms.eraseIdx vm⟩

/-- The used bits are those of the owned slots, the reserved slots are used, and only
present slots are. -/
structure Accounted (s : State) : Prop where
  owned : ∀ i, 2 ≤ i → i < asSlotMax →
    (s.adapter.inUse i = true ↔ s.adapter.bound i = true ∨ i ∈ s.leases)
  mcu : s.adapter.inUse mcuAs = true
  bringup : s.adapter.inUse bringupAs = true
  present : ∀ i, i < 32 → s.adapter.inUse i = true → s.adapter.present i = true

structure Inv (s : State) : Prop where
  accounted : Accounted s
  reserved : ∀ i, i < 2 → s.adapter.bound i = false
  leaseRange : ∀ i ∈ s.leases, 2 ≤ i ∧ i < asSlotMax
  nodup : s.leases.Nodup

/-- A call that drops a slot finds its own entry, not the lease of a VM, and a context that
is bound already does not fail to enable. -/
def guard (s : State) : Op → Prop
  | .bind h root hw =>
    s.adapter.gpuRegsMapped = true → findAsForContext s.adapter h < asSlotMax →
      (root = 0 → findAsForContext s.adapter h ∉ s.leases) ∧
      (root ≠ 0 → root &&& 0xFFF = 0 → hw = .success ∨
        findAsForContext s.adapter h ∈ s.leases)
  | .unbind h =>
    findAsForContext s.adapter h < asSlotMax → findAsForContext s.adapter h ∉ s.leases
  | .vmInit .. => True
  | .vmTeardown _ => True

/-- A slot with the tag of a VM, enabled on its root. -/
def lease (a : Adapter) (i : ℕ) (root : Word) : Adapter :=
  ((a.take i).setBinding i ⟨0, 0, true⟩).log (.enable i root)

inductive VmInitOutcome (a : Adapter) : NtStatus × VmPt × Adapter → Prop
  | refused (st : NtStatus) (pt : VmPt) (failed : st ≠ .success) : VmInitOutcome a (st, pt, a)
  | enableFailed (st : NtStatus) (pt : VmPt) (root : Word) (failed : st ≠ .success)
    (free : pickFreeAs a < asSlotMax) :
    VmInitOutcome a (st, pt, drop (lease a (pickFreeAs a) root) (pickFreeAs a))
  | leased (pt : VmPt) (root : Word) (free : pickFreeAs a < asSlotMax)
    (slot : pt.asSlot = pickFreeAs a) :
    VmInitOutcome a (.success, pt,
      (lease a (pickFreeAs a) root).setBinding (pickFreeAs a) ⟨0, root, true⟩)

theorem vmInit_cases (supply : ℕ → PtReply) (a : Adapter) (mem : Word → Fin 512 → Word)
    (hw : NtStatus) : VmInitOutcome a (vmInit supply a mem hw) := by
  unfold vmInit
  cases hr : a.gpuRegsMapped with
  | false => exact .refused _ _ (by simp)
  | true =>
    simp only [Bool.not_true, Bool.false_eq_true, if_false]
    rcases ptAllocPage supply _ with ⟨_ | root, pt⟩
    · exact .refused _ _ (by simp)
    · by_cases hp : pickFreeAs a < asSlotMax
      · simp only [vmPickAs, if_pos hp, show ¬pickFreeAs a ≥ asSlotMax by omega, if_false,
          asEnable, vmReleaseAs]
        cases hok : hw.ok with
        | true =>
          simp only [Bool.not_true, Bool.false_eq_true, if_false]
          have h := VmInitOutcome.leased (a := a) { pt with
            rootVa := some root, allocatedPages := [root], asSlot := pickFreeAs a } root hp rfl
          simpa [lease, Adapter.log, Adapter.setBinding] using h
        | false =>
          simp only [Bool.not_false, if_true]
          exact .enableFailed hw pt root (fun h => by simp [h] at hok) hp
      · simp only [vmPickAs, if_neg hp, show pickFreeAs a ≥ asSlotMax by omega, if_true]
        exact .refused _ _ (by simp)

theorem vmTeardown_cases (a : Adapter) (pt : VmPt) (h : pt.asSlot < asSlotMax) :
    (vmTeardown a pt).2 = drop a pt.asSlot ∨
      (vmTeardown a pt).2 = drop (a.log (.disable pt.asSlot)) pt.asSlot := by
  cases hr : a.gpuRegsMapped with
  | false =>
    left
    simp [vmTeardown, h, hr, vmReleaseAs, drop]
  | true =>
    right
    simp [vmTeardown, h, hr, vmReleaseAs, drop, asDisable]

section Steps

variable {s : State} {a' : Adapter} {i : ℕ}

theorem Inv.find_range (I : Inv s) (h : ℕ) (hf : findAsForContext s.adapter h < asSlotMax) :
    2 ≤ findAsForContext s.adapter h := by
  by_contra hlt
  have := I.reserved _ (by omega : findAsForContext s.adapter h < 2)
  rw [find_bound _ _ hf] at this
  cases this

theorem Inv.pick_range (I : Inv s) (hf : pickFreeAs s.adapter < asSlotMax) :
    2 ≤ pickFreeAs s.adapter := by
  have hfree := (pick_free _ hf).2
  have h0 : pickFreeAs s.adapter ≠ mcuAs := by
    intro h
    rw [h, I.accounted.mcu] at hfree
    cases hfree
  have h1 : pickFreeAs s.adapter ≠ bringupAs := by
    intro h
    rw [h, I.accounted.bringup] at hfree
    cases hfree
  simp only [mcuAs, bringupAs] at h0 h1
  omega

/-- A free slot has no owner. -/
theorem Inv.pick_unowned (I : Inv s) (hf : pickFreeAs s.adapter < asSlotMax) :
    s.adapter.bound (pickFreeAs s.adapter) = false ∧ pickFreeAs s.adapter ∉ s.leases := by
  have hiff := I.accounted.owned _ (I.pick_range hf) hf
  rw [(pick_free _ hf).2] at hiff
  simpa using hiff

theorem Inv.same (I : Inv s) (hu : ∀ j, j < 32 → a'.inUse j = s.adapter.inUse j)
    (hb : ∀ j, a'.bound j = s.adapter.bound j)
    (hp : ∀ j, a'.present j = s.adapter.present j) : Inv ⟨a', s.vms⟩ := by
  refine ⟨⟨?_, ?_, ?_, ?_⟩, ?_, I.leaseRange, I.nodup⟩
  · intro j h2 hj
    rw [hu j (by unfold asSlotMax at hj; omega), hb]
    exact I.accounted.owned j h2 hj
  · exact (hu mcuAs (by decide)).trans I.accounted.mcu
  · exact (hu bringupAs (by decide)).trans I.accounted.bringup
  · intro j hj h
    rw [hu j hj] at h
    rw [hp]
    exact I.accounted.present j hj h
  · intro j hj
    rw [hb]
    exact I.reserved j hj

theorem Inv.drop (I : Inv s) {vms' : List VmPt} (h2 : 2 ≤ i)
    (hu : ∀ j, j < 32 → a'.inUse j = (s.adapter.inUse j && !decide (i = j)))
    (hb : ∀ j, a'.bound j = if j = i then false else s.adapter.bound j)
    (hp : ∀ j, a'.present j = s.adapter.present j)
    (hl : ∀ j, j ∈ vms'.map VmPt.asSlot ↔ j ∈ s.leases ∧ j ≠ i)
    (hn : (vms'.map VmPt.asSlot).Nodup) : Inv ⟨a', vms'⟩ := by
  have hkeep : ∀ j, j < 2 → a'.inUse j = s.adapter.inUse j := by
    intro j hj
    simp [hu j (by omega), show i ≠ j by omega]
  refine ⟨⟨?_, ?_, ?_, ?_⟩, ?_, ?_, hn⟩
  · intro j hj2 hj
    have hown := I.accounted.owned j hj2 hj
    rw [hu j (by unfold asSlotMax at hj; omega), hb]
    change _ ↔ _ ∨ j ∈ vms'.map VmPt.asSlot
    rw [hl]
    by_cases hij : j = i
    · simp [hij]
    · simpa [hij, Ne.symm hij] using hown
  · exact (hkeep mcuAs (by decide)).trans I.accounted.mcu
  · exact (hkeep bringupAs (by decide)).trans I.accounted.bringup
  · intro j hj h
    rw [hu j hj, Bool.and_eq_true] at h
    rw [hp]
    exact I.accounted.present j hj h.1
  · intro j hj
    rw [hb, if_neg (by omega)]
    exact I.reserved j hj
  · intro j hj
    exact I.leaseRange j ((hl j).mp hj).1

/-- A slot is given back, and its hardware is disabled after that, before it or not at all. -/
theorem Inv.dropped (I : Inv s) {vms' : List VmPt} (h2 : 2 ≤ i) (e : AsEvent)
    (heq : a' = AsSlots.drop s.adapter i ∨ a' = (AsSlots.drop s.adapter i).log e ∨
      a' = AsSlots.drop (s.adapter.log e) i)
    (hl : ∀ j, j ∈ vms'.map VmPt.asSlot ↔ j ∈ s.leases ∧ j ≠ i)
    (hn : (vms'.map VmPt.asSlot).Nodup) : Inv ⟨a', vms'⟩ := by
  rcases heq with rfl | rfl | rfl <;>
    refine I.drop h2 (fun j hj => inUse_drop _ _ j hj) (fun j => ?_) (fun j => ?_) hl hn <;> simp

theorem Inv.claim (I : Inv s) {vms' : List VmPt} (hf : pickFreeAs s.adapter < asSlotMax)
    (hi : i = pickFreeAs s.adapter)
    (hu : ∀ j, j < 32 → a'.inUse j = (s.adapter.inUse j || decide (i = j)))
    (hb : ∀ j, a'.bound j = if j = i then true else s.adapter.bound j)
    (hp : ∀ j, a'.present j = s.adapter.present j)
    (hl : vms' = s.vms ∨ ∃ pt, vms' = s.vms ++ [pt] ∧ pt.asSlot = i) : Inv ⟨a', vms'⟩ := by
  subst hi
  have h2 := I.pick_range hf
  have hfresh := (I.pick_unowned hf).2
  have hmem : ∀ j, j ∈ vms'.map VmPt.asSlot → j ∈ s.leases ∨ j = pickFreeAs s.adapter := by
    intro j hj
    rcases hl with rfl | ⟨pt, rfl, hpt⟩
    · exact .inl hj
    · rw [List.map_append, List.mem_append] at hj
      exact hj.imp id (by simp [hpt])
  have hkeep : ∀ j, j ∈ s.leases → j ∈ vms'.map VmPt.asSlot := by
    intro j hj
    rcases hl with rfl | ⟨pt, rfl, hpt⟩
    · exact hj
    · rw [List.map_append]
      exact List.mem_append_left _ hj
  refine ⟨⟨?_, ?_, ?_, ?_⟩, ?_, ?_, ?_⟩
  · intro j hj2 hj
    have hown := I.accounted.owned j hj2 hj
    rw [hu j (by unfold asSlotMax at hj; omega), hb]
    change _ ↔ _ ∨ j ∈ vms'.map VmPt.asSlot
    by_cases hij : j = pickFreeAs s.adapter
    · simp [hij]
    · have hiff : j ∈ vms'.map VmPt.asSlot ↔ j ∈ s.leases :=
        ⟨fun h => (hmem j h).resolve_right hij, hkeep j⟩
      rw [hiff]
      simpa [hij, Ne.symm hij] using hown
  · rw [hu mcuAs (by decide), I.accounted.mcu, Bool.true_or]
  · rw [hu bringupAs (by decide), I.accounted.bringup, Bool.true_or]
  · intro j hj h
    rw [hp]
    by_cases hij : pickFreeAs s.adapter = j
    · exact hij ▸ (pick_free _ hf).1
    · rw [hu j hj] at h
      simp only [hij, decide_false, Bool.or_false] at h
      exact I.accounted.present j hj h
  · intro j hj
    rw [hb, if_neg (by omega)]
    exact I.reserved j hj
  · intro j hj
    rcases hmem j hj with h | rfl
    · exact I.leaseRange j h
    · exact ⟨h2, hf⟩
  · rcases hl with rfl | ⟨pt, rfl, hpt⟩
    · exact I.nodup
    · rw [State.leases, List.map_append, List.map_singleton, hpt]
      refine List.nodup_append.mpr ⟨I.nodup, by simp, ?_⟩
      intro j hj k hk hjk
      exact hfresh (List.mem_singleton.mp hk ▸ hjk ▸ hj)

/-- The slot of a torn down VM is the only lease that goes. -/
theorem Inv.leases_eraseIdx (I : Inv s) {vm : ℕ} {pt : VmPt} (hpt : s.vms[vm]? = some pt) :
    (∀ j, j ∈ (s.vms.eraseIdx vm).map VmPt.asSlot ↔ j ∈ s.leases ∧ j ≠ pt.asSlot) ∧
      ((s.vms.eraseIdx vm).map VmPt.asSlot).Nodup := by
  obtain ⟨hlt, hget⟩ := List.getElem?_eq_some_iff.mp hpt
  have hlen : vm < s.leases.length := by simpa [State.leases] using hlt
  have hval : s.leases[vm] = pt.asSlot := by simp [State.leases, hget]
  have hmap : (s.vms.eraseIdx vm).map VmPt.asSlot = s.leases.erase pt.asSlot := by
    rw [← List.eraseIdx_map, ← hval]
    exact (List.Nodup.erase_getElem I.nodup vm hlen).symm
  rw [hmap]
  refine ⟨?_, I.nodup.erase _⟩
  intro j
  rw [I.nodup.mem_erase_iff]
  exact And.comm

theorem Inv.unbind (I : Inv s) (h : ℕ)
    (hg : findAsForContext s.adapter h < asSlotMax → findAsForContext s.adapter h ∉ s.leases) :
    Inv ⟨(unbindContext s.adapter h).2, s.vms⟩ := by
  rcases unbind_cases s.adapter h with ⟨-, heq⟩ | ⟨hf, heq⟩
  · rw [heq]
    exact I
  · have h2 := I.find_range h hf
    have hl : ∀ j, j ∈ s.leases ↔ j ∈ s.leases ∧ j ≠ findAsForContext s.adapter h :=
      fun j => ⟨fun hj => ⟨hj, fun hjf => hg hf (hjf ▸ hj)⟩, And.left⟩
    exact I.dropped h2 _ (heq.imp_right .inl) hl I.nodup

theorem Inv.unbind_needs (I : Inv s) (h : ℕ)
    (A : Accounted ⟨(unbindContext s.adapter h).2, s.vms⟩)
    (hf : findAsForContext s.adapter h < asSlotMax) : findAsForContext s.adapter h ∉ s.leases := by
  intro hmem
  have hused := (A.owned _ (I.find_range h hf) hf).mpr (.inr hmem)
  have h32 : findAsForContext s.adapter h < 32 := by unfold asSlotMax at hf; omega
  rcases unbind_cases s.adapter h with ⟨hnf, -⟩ | ⟨-, heq | heq⟩
  · exact hnf hf
  · rw [heq, inUse_drop _ _ _ h32] at hused
    simp at hused
  · rw [heq, inUse_log, inUse_drop _ _ _ h32] at hused
    simp at hused

theorem Inv.bind (I : Inv s) (h : ℕ) (root : Word) (hw : NtStatus)
    (hg : guard s (.bind h root hw)) :
    Inv ⟨(bindContextRootPt s.adapter h root hw).2.2, s.vms⟩ := by
  generalize hr : (bindContextRootPt s.adapter h root hw).2.2 = r
  have O := bind_cases s.adapter h root hw
  rw [hr] at O
  cases O with
  | refused => exact I
  | unbound regs zero => exact I.unbind h fun hf => (hg regs hf).1 zero
  | rebound regs nonzero aligned found ok =>
    refine I.same (fun _ _ => by simp) (fun j => ?_) (fun _ => by simp)
    by_cases hj : j = findAsForContext s.adapter h
    · simp [hj, find_bound _ _ found]
    · simp [hj]
  | rebindFailed regs nonzero aligned found failed =>
    -- the bit stays set, so a lease has to own the slot
    have hlease := ((hg regs found).2 nonzero aligned).resolve_left failed
    have h2 := I.find_range h found
    have hbound : ∀ j, ((enter s.adapter (findAsForContext s.adapter h) h root).setBinding
        (findAsForContext s.adapter h) .zero).bound j =
        if j = findAsForContext s.adapter h then false else s.adapter.bound j := by
      intro j
      by_cases hj : j = findAsForContext s.adapter h <;> simp [hj, AsBinding.zero]
    refine ⟨⟨?_, I.accounted.mcu, I.accounted.bringup, I.accounted.present⟩, ?_, I.leaseRange,
      I.nodup⟩
    · intro j hj2 hj
      have hown := I.accounted.owned j hj2 hj
      change s.adapter.inUse j = true ↔ _ ∨ j ∈ s.leases
      rw [hown, hbound]
      by_cases hjf : j = findAsForContext s.adapter h
      · simp [hjf, hlease]
      · simp [hjf]
    · intro j hj
      rw [hbound, if_neg (by omega)]
      exact I.reserved j hj
  | bound fresh free ok =>
    refine I.claim free rfl (fun j hj => ?_) (fun j => ?_) (fun _ => by simp) (.inl rfl)
    · exact inUse_take _ _ j hj
    · simp
  | bindFailed fresh free =>
    have hp := I.pick_unowned free
    refine I.same (fun j hj => ?_) (fun j => ?_) (fun _ => by simp)
    · rw [inUse_drop _ _ j hj, inUse_enter, inUse_take _ _ j hj]
      by_cases hij : pickFreeAs s.adapter = j
      · simp [← hij, (pick_free _ free).2]
      · simp [hij]
    · by_cases hij : j = pickFreeAs s.adapter
      · simp [hij, hp.1]
      · simp [hij]

theorem Inv.bind_needs (I : Inv s) (h : ℕ) (root : Word) (hw : NtStatus)
    (A : Accounted ⟨(bindContextRootPt s.adapter h root hw).2.2, s.vms⟩) :
    guard s (.bind h root hw) := by
  intro regs found
  generalize hr : (bindContextRootPt s.adapter h root hw).2.2 = r at A
  have O := bind_cases s.adapter h root hw
  rw [hr] at O
  cases O with
  | refused why =>
    rcases why with hregs | ⟨hnz, hal | hnf⟩
    · simp [hregs] at regs
    · exact ⟨fun hz => absurd hz hnz, fun _ haligned => absurd haligned hal⟩
    · exact absurd found hnf
  | unbound _ zero => exact ⟨fun _ => I.unbind_needs h A found, fun hnz => absurd zero hnz⟩
  | rebound _ nonzero _ _ ok => exact ⟨fun hz => absurd hz nonzero, fun _ _ => .inl ok⟩
  | rebindFailed _ nonzero _ _ _ =>
    refine ⟨fun hz => absurd hz nonzero, fun _ _ => .inr ?_⟩
    have h2 := I.find_range h found
    have hused := (I.accounted.owned _ h2 found).mpr (.inl (find_bound _ _ found))
    have hown := (A.owned _ h2 found).mp hused
    exact hown.resolve_left (by simp [AsBinding.zero])
  | bound fresh => exact absurd found fresh
  | bindFailed fresh => exact absurd found fresh

theorem Inv.vmInit (I : Inv s) {r : NtStatus × VmPt × Adapter}
    (O : VmInitOutcome s.adapter r) : Inv (s.afterInit r) := by
  cases O with
  | refused st pt failed =>
    simp only [State.afterInit, NtStatus.ok_eq_false failed, Bool.false_eq_true, if_false]
    exact I
  | enableFailed st pt root failed free =>
    have hp := I.pick_unowned free
    simp only [State.afterInit, NtStatus.ok_eq_false failed, Bool.false_eq_true, if_false]
    refine I.same (fun j hj => ?_) (fun j => ?_) (fun _ => by simp [lease])
    · rw [inUse_drop _ _ j hj, lease, inUse_log, inUse_setBinding, inUse_take _ _ j hj]
      by_cases hij : pickFreeAs s.adapter = j
      · simp [← hij, (pick_free _ free).2]
      · simp [hij]
    · by_cases hij : j = pickFreeAs s.adapter
      · simp [hij, hp.1]
      · simp [lease, hij]
  | leased pt root free slot =>
    simp only [State.afterInit, NtStatus.ok_success, if_true]
    refine I.claim free rfl (fun j hj => ?_) (fun j => ?_) (fun _ => by simp [lease])
      (.inr ⟨pt, rfl, slot⟩)
    · exact inUse_take _ _ j hj
    · by_cases hij : j = pickFreeAs s.adapter <;> simp [lease, hij]

theorem Inv.vmTeardown (I : Inv s) (vm : ℕ) {t : State} (h : step s (.vmTeardown vm) = some t) :
    Inv t := by
  obtain ⟨pt, hpt, rfl⟩ := Option.map_eq_some_iff.mp h
  have hmem : pt.asSlot ∈ s.leases := List.mem_map.mpr ⟨pt, List.mem_of_getElem? hpt, rfl⟩
  obtain ⟨h2, h16⟩ := I.leaseRange _ hmem
  obtain ⟨hl, hn⟩ := I.leases_eraseIdx hpt
  exact I.dropped h2 _ ((vmTeardown_cases s.adapter pt h16).imp_right .inr) hl hn

/-- What one call preserves when it meets the guard. -/
theorem step_inv {t : State} (op : Op) (I : Inv s) (hg : guard s op) (h : step s op = some t) :
    Inv t := by
  cases op with
  | bind h' root hw =>
    obtain rfl := Option.some.inj h
    exact I.bind h' root hw hg
  | unbind h' =>
    obtain rfl := Option.some.inj h
    exact I.unbind h' hg
  | vmInit supply mem hw =>
    obtain rfl := Option.some.inj h
    exact I.vmInit (vmInit_cases supply s.adapter mem hw)
  | vmTeardown vm => exact I.vmTeardown vm h

theorem step_needs {t : State} (op : Op) (I : Inv s) (A : Accounted t)
    (h : step s op = some t) : guard s op := by
  cases op with
  | bind h' root hw =>
    obtain rfl := Option.some.inj h
    exact I.bind_needs h' root hw A
  | unbind h' =>
    obtain rfl := Option.some.inj h
    exact I.unbind_needs h' A
  | vmInit => trivial
  | vmTeardown => trivial

end Steps

def start (a : Adapter) : State := ⟨initAsAllocator a, []⟩

theorem start_inv (a : Adapter) : Inv (start a) := by
  refine ⟨⟨?_, ?_, ?_, init_present a⟩, fun _ _ => rfl, by simp [start, State.leases],
    by simp [start, State.leases]⟩
  · intro i h2 hi
    change (initAsAllocator a).inUse i = true ↔ _
    rw [init_inUse a i (by unfold asSlotMax at hi; omega)]
    simp [start, State.leases, initAsAllocator, Adapter.bound, AsBinding.zero]
    omega
  · exact init_inUse a mcuAs (by decide)
  · exact init_inUse a bringupAs (by decide)

/-- Over all runs of both allocators the books are right after every call exactly when
every call meets the guard in the state it is made in. -/
theorem bookkeeping_iff (a : Adapter) (ops : List Op) :
    Accounted (start a) ∧ (Always step (fun _ _ t => Accounted t) (start a) ops ↔
      Guarded step guard (start a) ops) := by
  refine ⟨(start_inv a).accounted, (guarded_iff_always (fun s op t => step_inv op) ?_
    (start_inv a)).symm⟩
  intro s op t I h
  exact ⟨fun hg => (step_inv op I hg h).accounted, fun A => step_needs op I A h⟩

/-- A rebind whose enable times out leaves the bit of its slot set with no owner. -/
theorem failed_rebind_leaks : ∃ t,
    exec step (start ⟨0xFF, true, 0, 0, fun _ => .zero, []⟩)
      [.bind 7 0x1000 .success, .bind 7 0x2000 .ioTimeout] = some t ∧ ¬Accounted t := by
  refine ⟨_, rfl, ?_⟩
  intro A
  exact absurd ((A.owned 2 (by decide) (by decide)).mp (by decide)) (by decide)

end WinMali.AsSlotsInvariant
