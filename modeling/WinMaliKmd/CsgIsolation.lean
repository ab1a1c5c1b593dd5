import WinMaliKmd.CsgLease

/-!
# The group runs in the address space of its VM

A submit takes its slot from a VM that it then lets go of. The group stays with
a VM that holds its slot exactly as long as no slot is given back under the
running group and none is started for a VM that has given it back.
-/

set_option autoImplicit false

namespace WinMali.CsgIsolation
open WinMali.AsSlots WinMali.CsgLease WinMali.Runs WinMali.ThreadPools
open WinMali.CsfSubmit hiding step

/-- The started group is in a slot that the VM it was started for holds. -/
def Bound (s : State) : Prop :=
  s.fw.csgStarted = true → s.fw.csgConfig = s.fw.currentCsgAs ∧
    ∀ u, s.boundFor = some u → s.lease s.fw.currentCsgAs = some u

/-- A stream in the ring is executed in the slot of the VM that it was read for. -/
def Executes (s : State) : Prop :=
  ∀ (i : ℕ) (j : Job) (u : ℕ), s.threads[i]? = some (.wait j) → j.owner = some u →
    s.fw.csgStarted = true ∧ s.lease s.fw.csgConfig = some u

/-- `programAndStartCsg` succeeds. -/
def starts (fw : FwCtx) (r : Reply) : Bool := fw.cs00Input && fw.csg0 && fw.qRing && r.startAck

def guardPc (s : State) : Pc → Prop
  | .destroyRelease vm => s.fw.csgStarted = true → s.fw.currentCsgAs ≠ vm.asSlot
  | .start j => starts s.fw j.reply = true →
    ∀ u, j.owner = some u → s.lease j.call.csgAsSlot = some u
  | _ => True

/-- No VM gives its slot back while the group is started there, and no group is started in a
slot that its VM has given back. -/
def guard (s : State) : Label → Prop
  | .run i => ∀ p, s.threads[i]? = some p → guardPc s p
  | _ => True

def settled (s : State) (u : ℕ) : Prop := s.threads[u]? = some .done

structure Leased (s : State) (vm : Vm) : Prop where
  lease : s.lease vm.asSlot = some vm.uid
  owner : settled s vm.uid

structure JobOk (s : State) (j : Job) : Prop where
  slot : j.call.csgAsSlot < asSlotMax
  bringup : j.owner = none → j.call.csgAsSlot = bringupAs
  owner : ∀ u, j.owner = some u → settled s u

structure Running (s : State) (j : Job) : Prop where
  started : s.fw.csgStarted = true
  current : s.fw.currentCsgAs = j.call.csgAsSlot
  config : s.fw.csgConfig = j.call.csgAsSlot
  boundFor : s.boundFor = j.owner

/-- The VM that a thread has taken out of the table. -/
def dying : Pc → List ℕ
  | .destroyDisable vm => [vm.uid]
  | .destroyRelease vm => [vm.uid]
  | _ => []

def PcOk (s : State) (i : ℕ) : Pc → Prop
  | .createEnable k _ => s.lease k = some i
  | .createInsert k => s.lease k = some i
  | .createRelease k => s.lease k = some i
  | .destroyDisable vm => Leased s vm
  | .destroyRelease vm => Leased s vm
  | .lock j => JobOk s j
  | .terminate j => JobOk s j ∧ s.submitLock = some i
  | .start j => JobOk s j ∧ s.submitLock = some i ∧ s.fw.csgStarted = false
  | .ring j => JobOk s j ∧ s.submitLock = some i ∧ Running s j
  | .wait j => JobOk s j ∧ s.submitLock = some i ∧ Running s j
  | .recoverTerminate _ => s.submitLock = some i
  | .recoverStart _ => s.submitLock = some i ∧ s.fw.csgStarted = false
  | .unlock _ _ => s.submitLock = some i
  | _ => True

def vmUids (s : State) : List ℕ := s.vms.map Vm.uid ++ s.threads.flatMap dying

structure Slots (s : State) : Prop where
  inUse : ∀ k u, s.lease k = some u → k < asSlotMax ∧ s.adapter.inUse k = true
  bringup : s.adapter.inUse bringupAs = true
  unleased : s.lease bringupAs = none

structure Group (s : State) : Prop where
  bound : Bound s
  owner : ∀ u, s.boundFor = some u → settled s u
  bringup : s.fw.csgStarted = true → s.boundFor = none → s.fw.currentCsgAs = bringupAs

structure Inv (s : State) : Prop where
  slots : Slots s
  group : Group s
  vms : ∀ vm ∈ s.vms, Leased s vm
  nodup : (vmUids s).Nodup
  threads : ∀ i p, s.threads[i]? = some p → PcOk s i p

section Firmware

variable (fw : FwCtx) (slot : ℕ) (r : Reply)

theorem terminate_stopped (h : fw.csg0 = true) : (terminateCsg fw r).2.csgStarted = false := by
  unfold terminateCsg
  split
  · simpa using (by assumption : (!fw.csgStarted) = true)
  · rw [if_neg (by simp [h])]

theorem program_ok_iff : (programAndStartCsg fw slot r).1.ok = true ↔ starts fw r = true := by
  unfold programAndStartCsg starts
  cases fw.cs00Input <;> cases fw.csg0 <;> cases fw.qRing <;> cases r.startAck <;>
    simp [NtStatus.ok]

theorem program_started (h : starts fw r = true) :
    (programAndStartCsg fw slot r).2.csgStarted = true ∧
      (programAndStartCsg fw slot r).2.currentCsgAs = slot ∧
      (programAndStartCsg fw slot r).2.csgConfig = slot := by
  simp only [starts, Bool.and_eq_true] at h
  simp [programAndStartCsg, h]

theorem program_not_started (h : ¬starts fw r = true) :
    (programAndStartCsg fw slot r).2.csgStarted = fw.csgStarted := by
  unfold programAndStartCsg
  split
  · rfl
  · dsimp only
    split
    · simp_all [starts]
    · rfl

theorem publish_group {fw v : FwCtx} {c : StreamCall} (h : publish fw c = some v) :
    v.csgStarted = fw.csgStarted ∧ v.currentCsgAs = fw.currentCsgAs ∧
      v.csgConfig = fw.csgConfig := by
  rw [publish_frame h]
  exact ⟨rfl, rfl, rfl⟩

end Firmware

section Threads

variable {s t : State} {i j : ℕ} {p q : Pc}

/-- A thread that is done stays so. -/
theorem settled_set (hpc : s.threads[i]? = some p) (hp : p ≠ .done)
    (hthreads : t.threads = s.threads.set i q) {u : ℕ} (h : settled s u) : settled t u := by
  have hne : i ≠ u := by
    rintro rfl
    rw [settled, hpc] at h
    exact hp (Option.some.inj h)
  rw [settled, hthreads, List.getElem?_set_ne hne]
  exact h

theorem Leased.keep {vm : Vm} (h : Leased s vm) (hsettled : settled t vm.uid)
    (hlease : s.lease vm.asSlot = some vm.uid → t.lease vm.asSlot = some vm.uid) : Leased t vm :=
  ⟨hlease h.lease, hsettled⟩

theorem JobOk.keep {jb : Job} (h : JobOk s jb) (hs : ∀ u, settled s u → settled t u) :
    JobOk t jb :=
  ⟨h.slot, h.bringup, fun u hu => hs u (h.owner u hu)⟩

/-- The step of another thread leaves a thread as it is when it keeps the leases of its VMs,
and the group while the thread is in a submit. -/
theorem PcOk.frame (h : PcOk s j p) (hs : ∀ u, settled s u → settled t u)
    (hown : p ≠ .done → ∀ k, s.lease k = some j → t.lease k = some j)
    (hdying : ∀ k u, u ∈ dying p → s.lease k = some u → t.lease k = some u)
    (hin : s.submitLock = some j → t.submitLock = some j ∧ t.fw = s.fw ∧ t.boundFor = s.boundFor) :
    PcOk t j p := by
  cases p with
  | createEnable k hw => exact hown (by simp) k h
  | createInsert k => exact hown (by simp) k h
  | createRelease k => exact hown (by simp) k h
  | destroyDisable vm => exact h.keep (hs _ h.owner) (hdying _ _ (by simp [dying]))
  | destroyRelease vm => exact h.keep (hs _ h.owner) (hdying _ _ (by simp [dying]))
  | lock jb => exact JobOk.keep h hs
  | terminate jb => exact ⟨h.1.keep hs, (hin h.2).1⟩
  | start jb =>
    obtain ⟨hlock, hfw, _⟩ := hin h.2.1
    exact ⟨h.1.keep hs, hlock, hfw ▸ h.2.2⟩
  | ring jb =>
    obtain ⟨hlock, hfw, hfor⟩ := hin h.2.1
    obtain ⟨hok, _, hst, hcur, hcfg, hb⟩ := h
    exact ⟨hok.keep hs, hlock, hfw ▸ hst, hfw ▸ hcur, hfw ▸ hcfg, hfor.trans hb⟩
  | wait jb =>
    obtain ⟨hlock, hfw, hfor⟩ := hin h.2.1
    obtain ⟨hok, _, hst, hcur, hcfg, hb⟩ := h
    exact ⟨hok.keep hs, hlock, hfw ▸ hst, hfw ▸ hcur, hfw ▸ hcfg, hfor.trans hb⟩
  | recoverTerminate r => exact (hin h).1
  | recoverStart r =>
    obtain ⟨hlock, hfw, _⟩ := hin h.1
    exact ⟨hlock, hfw ▸ h.2⟩
  | unlock vmId rest => exact (hin h).1
  | createPick hw => trivial
  | destroyTake id => trivial
  | submitRead vmId requests => trivial
  | done => trivial

/-- What one thread's step has to show; `lost` is the VM whose lease it ends. -/
theorem Inv.advance (I : Inv s) (hpc : s.threads[i]? = some p) (hp : p ≠ .done)
    (hthreads : t.threads = s.threads.set i q) (lost : Option ℕ)
    (hlost : ∀ u, lost = some u → (u = i ∨ settled s u) ∧ u ∉ vmUids t)
    (hkeep : ∀ k u, s.lease k = some u → lost ≠ some u → t.lease k = some u)
    (hin : ∀ j, j ≠ i → s.submitLock = some j →
      t.submitLock = some j ∧ t.fw = s.fw ∧ t.boundFor = s.boundFor)
    (hslots : Slots t) (hgroup : Group t) (hvms : ∀ vm ∈ t.vms, vm ∈ s.vms ∨ Leased t vm)
    (hnodup : (vmUids t).Nodup) (hq : PcOk t i q) : Inv t := by
  have hs : ∀ u, settled s u → settled t u := fun u => settled_set hpc hp hthreads
  refine ⟨hslots, hgroup, ?_, hnodup, ?_⟩
  · intro vm hvm
    rcases hvms vm hvm with hold | hnew
    · have L := I.vms vm hold
      refine L.keep (hs _ L.owner) fun h => hkeep _ _ h ?_
      rintro rfl
      exact (hlost _ rfl).2 (List.mem_append_left _ (List.mem_map_of_mem hvm))
    · exact hnew
  · intro j r hj
    rw [hthreads] at hj
    by_cases hij : j = i
    · subst hij
      rw [List.getElem?_set_self (List.getElem?_eq_some_iff.mp hpc).1] at hj
      exact Option.some.inj hj ▸ hq
    · rw [List.getElem?_set_ne (Ne.symm hij)] at hj
      refine (I.threads j r hj).frame hs ?_ ?_ (hin j hij)
      · rintro hr k hk
        refine hkeep k j hk ?_
        rintro rfl
        rcases (hlost j rfl).1 with rfl | hdone
        · exact hij rfl
        · rw [settled, hj] at hdone
          exact hr (Option.some.inj hdone)
      · rintro k u hu hk
        refine hkeep k u hk ?_
        rintro rfl
        apply (hlost u rfl).2
        refine List.mem_append_right _ (List.mem_flatMap.mpr ⟨r, ?_, hu⟩)
        rw [hthreads]
        exact List.mem_of_getElem? ((List.getElem?_set_ne (Ne.symm hij)).trans hj)

theorem Group.frame (G : Group s) (hs : ∀ u, settled s u → settled t u) (hfw : t.fw = s.fw)
    (hfor : t.boundFor = s.boundFor)
    (hkeep : s.fw.csgStarted = true → ∀ u, s.boundFor = some u →
      s.lease s.fw.currentCsgAs = some u → t.lease s.fw.currentCsgAs = some u) : Group t := by
  refine ⟨?_, fun u hu => hs u (G.owner u (hfor ▸ hu)), ?_⟩
  · rw [Bound, hfw, hfor]
    intro hst
    obtain ⟨hcfg, hlease⟩ := G.bound hst
    exact ⟨hcfg, fun u hu => hkeep hst u hu (hlease u hu)⟩
  · rw [hfw, hfor]
    exact G.bringup

/-- A step that leaves the slots and the VMs alone. -/
theorem Inv.move (I : Inv s) (hpc : s.threads[i]? = some p) (hp : p ≠ .done)
    (hthreads : t.threads = s.threads.set i q) (hlease : t.lease = s.lease) (hvms : t.vms = s.vms)
    (huse : ∀ k, t.adapter.inUse k = s.adapter.inUse k) (hdying : dying q = dying p)
    (hin : ∀ j, j ≠ i → s.submitLock = some j →
      t.submitLock = some j ∧ t.fw = s.fw ∧ t.boundFor = s.boundFor)
    (hgroup : Group t) (hq : PcOk t i q) : Inv t := by
  refine I.advance hpc hp hthreads none (by simp) ?_ hin ⟨?_, ?_, ?_⟩ hgroup ?_ ?_ hq
  · intro k u hk _
    rw [hlease]
    exact hk
  · intro k u hk
    rw [hlease] at hk
    rw [huse]
    exact I.slots.inUse k u hk
  · rw [huse]
    exact I.slots.bringup
  · rw [hlease]
    exact I.slots.unleased
  · rw [hvms]
    exact fun vm hvm => .inl hvm
  · have huids : vmUids t = vmUids s := by
      rw [vmUids, vmUids, hvms, hthreads, flatMap_set dying q hpc hdying]
    rw [huids]
    exact I.nodup

/-- A step that also leaves the group alone. -/
theorem Inv.goto (I : Inv s) (hpc : s.threads[i]? = some p) (hp : p ≠ .done)
    (hthreads : t.threads = s.threads.set i q)
    (hsame : t.lease = s.lease ∧ t.vms = s.vms ∧ t.fw = s.fw ∧ t.boundFor = s.boundFor)
    (huse : ∀ k, t.adapter.inUse k = s.adapter.inUse k) (hdying : dying q = dying p)
    (hin : ∀ j, j ≠ i → s.submitLock = some j → t.submitLock = some j)
    (hq : PcOk t i q) : Inv t := by
  obtain ⟨hlease, hvms, hfw, hfor⟩ := hsame
  refine I.move hpc hp hthreads hlease hvms huse hdying (fun j hj h => ⟨hin j hj h, hfw, hfor⟩)
    (I.group.frame (fun u => settled_set hpc hp hthreads) hfw hfor ?_) hq
  rw [hlease]
  exact fun _ _ _ h => h

/-- A thread in a submit works on the group while no other thread is in one. -/
theorem Inv.work (I : Inv s) (hpc : s.threads[i]? = some p) (hp : p ≠ .done)
    (hlock : s.submitLock = some i) (hthreads : t.threads = s.threads.set i q)
    (hsame : t.lease = s.lease ∧ t.vms = s.vms ∧ t.adapter = s.adapter)
    (hdying : dying q = dying p) (hgroup : Group t) (hq : PcOk t i q) : Inv t := by
  obtain ⟨hlease, hvms, hadapter⟩ := hsame
  refine I.move hpc hp hthreads hlease hvms (fun _ => by rw [hadapter]) hdying ?_ hgroup hq
  intro j hj h
  rw [hlock] at h
  exact absurd (Option.some.inj h).symm hj

end Threads

section Steps

variable {s t : State} {i : ℕ} {p : Pc}

/-- A picked slot was leased to nobody. -/
theorem Slots.pick (S : Slots s) (i : ℕ) (hslot : (vmPickAs s.adapter).1 < asSlotMax) :
    Slots (s.pick i) ∧ (s.pick i).lease (vmPickAs s.adapter).1 = some i ∧
      ∀ k u, s.lease k = some u → (s.pick i).lease k = some u := by
  have hfree : pickFreeAs s.adapter < asSlotMax := by
    by_contra hnone
    simp [vmPickAs, hnone] at hslot
  have hpick : vmPickAs s.adapter = (pickFreeAs s.adapter,
      (s.adapter.take (pickFreeAs s.adapter)).setBinding (pickFreeAs s.adapter)
        ⟨0, 0, true⟩) := by
    simp [vmPickAs, hfree]
  have hunused := (pick_free s.adapter hfree).2
  have hne : ∀ k u, s.lease k = some u → k ≠ pickFreeAs s.adapter := by
    rintro k u hk rfl
    have := (S.inUse _ u hk).2
    rw [hunused] at this
    cases this
  have huse : ∀ k, k < 32 → (s.pick i).adapter.inUse k =
      (s.adapter.inUse k || decide (pickFreeAs s.adapter = k)) := by
    intro k hk
    simp [State.pick, hpick, inUse_take _ _ _ hk]
  have hbringup : bringupAs ≠ pickFreeAs s.adapter := by
    intro h
    rw [← h, S.bringup] at hunused
    cases hunused
  refine ⟨⟨?_, ?_, ?_⟩, by simp [State.pick, hpick], ?_⟩
  · intro k u hk
    by_cases hkp : k = pickFreeAs s.adapter
    · subst hkp
      refine ⟨hfree, ?_⟩
      rw [huse _ (by simp only [asSlotMax] at hfree; omega)]
      simp
    · have hold : s.lease k = some u := by simpa [State.pick, hpick, hkp] using hk
      obtain ⟨hlt, hin⟩ := S.inUse k u hold
      refine ⟨hlt, ?_⟩
      rw [huse _ (by simp only [asSlotMax] at hlt; omega), hin, Bool.true_or]
  · rw [huse _ (by decide), S.bringup, Bool.true_or]
  · simp [State.pick, hpick, hbringup, S.unleased]
  · intro k u hk
    simp [State.pick, hpick, hne k u hk, hk]

theorem Slots.giveBack (S : Slots s) {k u : ℕ} (hk : s.lease k = some u) :
    Slots (s.giveBack k) ∧
      ∀ k' u', s.lease k' = some u' → k' ≠ k → (s.giveBack k).lease k' = some u' := by
  have hlt := (S.inUse k u hk).1
  have hrelease : vmReleaseAs s.adapter k = drop s.adapter k := by
    simp [vmReleaseAs, drop, Nat.not_le_of_lt hlt]
  have hbringup : bringupAs ≠ k := by
    rintro rfl
    rw [S.unleased] at hk
    cases hk
  have huse : ∀ k', k' < 32 → (s.giveBack k).adapter.inUse k' =
      (s.adapter.inUse k' && !decide (k = k')) := by
    intro k' hk'
    rw [State.giveBack, hrelease]
    exact inUse_drop _ _ _ hk'
  refine ⟨⟨?_, ?_, ?_⟩, ?_⟩
  · intro k' u' hk'
    have hne : k' ≠ k := by
      rintro rfl
      simp [State.giveBack] at hk'
    obtain ⟨hlt', hin⟩ := S.inUse k' u' (by simpa [State.giveBack, hne] using hk')
    refine ⟨hlt', ?_⟩
    rw [huse _ (by simp only [asSlotMax] at hlt'; omega), hin]
    simp [Ne.symm hne]
  · rw [huse _ (by decide), S.bringup]
    simp [Ne.symm hbringup]
  · simp [State.giveBack, hbringup, S.unleased]
  · intro k' u' hk' hne
    simp [State.giveBack, hne, hk']

/-- The VMs of the table and of the threads that destroy one are done being created. -/
theorem Inv.uids_settled (I : Inv s) {u : ℕ} (hu : u ∈ vmUids s) : settled s u := by
  rcases List.mem_append.mp hu with hu | hu
  · obtain ⟨vm, hvm, rfl⟩ := List.mem_map.mp hu
    exact (I.vms vm hvm).owner
  · obtain ⟨p, hp, hu⟩ := List.mem_flatMap.mp hu
    obtain ⟨j, hj⟩ := List.getElem?_of_mem hp
    have hok := I.threads j p hj
    cases p with
    | destroyDisable vm => exact List.mem_singleton.mp hu ▸ hok.owner
    | destroyRelease vm => exact List.mem_singleton.mp hu ▸ hok.owner
    | _ => cases hu

theorem not_settled (hpc : s.threads[i]? = some p) (hp : p ≠ .done) : ¬settled s i := by
  intro h
  rw [settled, hpc] at h
  exact hp (Option.some.inj h)

theorem createPick_inv {hw : NtStatus} (I : Inv s) (hpc : s.threads[i]? = some (.createPick hw))
    (h : stepPc s i (.createPick hw) = some t) : Inv t := by
  simp only [stepPc] at h
  split at h
  · obtain rfl := Option.some.inj h
    exact I.goto hpc (by simp) rfl ⟨rfl, rfl, rfl, rfl⟩ (fun _ => rfl) rfl (fun _ _ h => h) trivial
  · rename_i hsome
    obtain rfl := Option.some.inj h
    simp only [Bool.or_eq_true, decide_eq_true_eq, not_or, Nat.not_le] at hsome
    obtain ⟨hslots, hown, hkeep⟩ := I.slots.pick i hsome.2
    refine I.advance hpc (by simp) rfl none (by simp) (fun k u hk _ => hkeep k u hk)
      (fun _ _ h => ⟨h, rfl, rfl⟩) ⟨hslots.inUse, hslots.bringup, hslots.unleased⟩ ?_
      (fun vm hvm => .inl hvm) ?_ hown
    · exact I.group.frame (fun u => settled_set hpc (by simp) rfl) rfl rfl
        (fun _ u _ hk => hkeep _ u hk)
    · have huids := flatMap_set dying (.createEnable (vmPickAs s.adapter).1 hw) hpc rfl
      have hn := I.nodup
      rw [vmUids, ← huids] at hn
      exact hn

theorem createInsert_inv {k : ℕ} (I : Inv s) (hpc : s.threads[i]? = some (.createInsert k))
    (h : stepPc s i (.createInsert k) = some t) : Inv t := by
  obtain rfl := Option.some.inj h
  have huids := flatMap_set dying .done hpc rfl
  have hnew : i ∉ vmUids s := fun h => not_settled hpc (by simp) (I.uids_settled h)
  refine I.advance hpc (by simp) rfl none (by simp) (fun k u hk _ => hk)
    (fun _ _ h => ⟨h, rfl, rfl⟩) ⟨I.slots.inUse, I.slots.bringup, I.slots.unleased⟩
    (I.group.frame (fun u => settled_set hpc (by simp) rfl) rfl rfl (fun _ _ _ hk => hk)) ?_ ?_
    trivial
  · intro vm hvm
    rcases List.mem_append.mp hvm with hvm | hvm
    · exact .inl hvm
    · obtain rfl := List.mem_singleton.mp hvm
      refine .inr ⟨I.threads i _ hpc, ?_⟩
      exact List.getElem?_set_self (List.getElem?_eq_some_iff.mp hpc).1
  · have hn := I.nodup
    rw [vmUids] at hn hnew
    simp only [vmUids, State.goto, huids, List.map_append, List.map_cons, List.map_nil]
    have hperm : (s.vms.map Vm.uid ++ [i] ++ s.threads.flatMap dying).Perm
        (i :: (s.vms.map Vm.uid ++ s.threads.flatMap dying)) := by
      rw [List.append_assoc, List.singleton_append]
      exact List.perm_middle
    exact hperm.nodup_iff.mpr (List.nodup_cons.mpr ⟨hnew, hn⟩)

/-- A slot goes back to the allocator, and the group is not started there. -/
theorem giveBack_inv {k u : ℕ} (I : Inv s) (hpc : s.threads[i]? = some p) (hp : p ≠ .done)
    (hk : s.lease k = some u) (hu : u = i ∨ settled s u)
    (hgone : u ∉ vmUids ((s.giveBack k).goto i .done))
    (hnodup : (vmUids ((s.giveBack k).goto i .done)).Nodup)
    (hfree : s.fw.csgStarted = true → ∀ v, s.boundFor = some v →
      s.lease s.fw.currentCsgAs = some v → s.fw.currentCsgAs ≠ k) :
    Inv ((s.giveBack k).goto i .done) := by
  obtain ⟨hslots, hkeep⟩ := I.slots.giveBack hk
  refine I.advance hpc hp rfl (some u) ?_ ?_ (fun _ _ h => ⟨h, rfl, rfl⟩)
    ⟨hslots.inUse, hslots.bringup, hslots.unleased⟩ ?_ (fun vm hvm => .inl hvm) hnodup trivial
  · intro v hv
    obtain rfl := Option.some.inj hv
    exact ⟨hu, hgone⟩
  · intro k' v hk' hne
    refine hkeep k' v hk' ?_
    rintro rfl
    rw [hk] at hk'
    exact hne hk'
  · exact I.group.frame (fun u => settled_set hpc hp rfl) rfl rfl
      (fun hst v hv hk' => hkeep _ v hk' (hfree hst v hv hk'))

theorem createRelease_inv {k : ℕ} (I : Inv s) (hpc : s.threads[i]? = some (.createRelease k)) :
    Inv ((s.giveBack k).goto i .done) := by
  have hk : s.lease k = some i := I.threads i _ hpc
  have hfresh := not_settled hpc (by simp)
  have huids : vmUids ((s.giveBack k).goto i .done) = vmUids s := by
    simp only [vmUids, State.giveBack, State.goto, flatMap_set dying .done hpc rfl]
  refine giveBack_inv I hpc (by simp) hk (.inl rfl) ?_ ?_ ?_
  · rw [huids]
    exact fun h => hfresh (I.uids_settled h)
  · rw [huids]
    exact I.nodup
  · -- the group was never started for a VM that is still being created
    rintro - v hv hcur rfl
    rw [hk] at hcur
    exact hfresh (Option.some.inj hcur ▸ I.group.owner v hv)

theorem destroyRelease_inv {vm : Vm} (I : Inv s) (hpc : s.threads[i]? = some (.destroyRelease vm))
    (hg : guardPc s (.destroyRelease vm)) : Inv ((s.giveBack vm.asSlot).goto i .done) := by
  have L : Leased s vm := I.threads i _ hpc
  have hperm : (vmUids s).Perm (vm.uid :: vmUids ((s.giveBack vm.asSlot).goto i .done)) := by
    have h := flatMap_set_perm hpc dying .done
    simp only [dying, List.append_nil] at h
    have h' := h.symm.append_left (s.vms.map Vm.uid)
    rw [← List.append_assoc] at h'
    exact h'.trans (List.perm_append_singleton _ _)
  have hn := hperm.nodup_iff.mp I.nodup
  obtain ⟨hgone, hnodup⟩ := List.nodup_cons.mp hn
  exact giveBack_inv I hpc (by simp) L.lease (.inr L.owner) hgone hnodup
    fun hst _ _ _ => hg hst

theorem destroyTake_inv {id : ℕ} (I : Inv s) (hpc : s.threads[i]? = some (.destroyTake id))
    (h : stepPc s i (.destroyTake id) = some t) : Inv t := by
  simp only [stepPc] at h
  cases hfind : s.vms.find? (·.id == id) with
  | none =>
    rw [hfind] at h
    obtain rfl := Option.some.inj h
    exact I.goto hpc (by simp) rfl ⟨rfl, rfl, rfl, rfl⟩ (fun _ => rfl) rfl (fun _ _ h => h) trivial
  | some vm =>
    rw [hfind] at h
    obtain rfl := Option.some.inj h
    have hmem := List.mem_of_find?_eq_some hfind
    have L := I.vms vm hmem
    refine I.advance hpc (by simp) rfl none (by simp) (fun k u hk _ => hk)
      (fun _ _ h => ⟨h, rfl, rfl⟩) ⟨I.slots.inUse, I.slots.bringup, I.slots.unleased⟩
      (I.group.frame (fun u => settled_set hpc (by simp) rfl) rfl rfl (fun _ _ _ hk => hk))
      (fun vm hvm => .inl (List.mem_of_mem_eraseP hvm)) ?_
      ⟨L.lease, settled_set hpc (by simp) rfl L.owner⟩
    have hperm := perm_cons_eraseP hfind
    have hset := flatMap_set_perm hpc dying (.destroyDisable vm)
    simp only [dying, List.append_nil] at hset
    have hn := I.nodup
    rw [vmUids] at hn ⊢
    refine (List.Perm.nodup_iff ?_).mp hn
    refine ((hperm.map Vm.uid).append_right _).trans ?_
    refine List.Perm.trans ?_ (hset.symm.append_left _)
    rw [List.map_cons, ← List.append_assoc]
    exact (List.perm_append_singleton _ _).symm

theorem failed_ok {jb : Job} (hlock : s.submitLock = some i) : PcOk s i jb.failed := by
  unfold Job.failed
  split <;> exact hlock

theorem dying_failed (jb : Job) : dying jb.failed = [] := by
  unfold Job.failed
  split <;> rfl

/-- The group is stopped, whatever it was started for. -/
theorem Group.stop (G : Group s) (hs : ∀ u, settled s u → settled t u)
    (hst : t.fw.csgStarted = false) (hfor : t.boundFor = s.boundFor) : Group t := by
  refine ⟨?_, fun u hu => hs u (G.owner u (hfor ▸ hu)), ?_⟩
  · rw [Bound, hst]
    exact fun h => absurd h (by simp)
  · rw [hst]
    exact fun h => absurd h (by simp)

/-- A start that succeeds binds the group to the job's VM, which still holds its slot. -/
theorem Group.start (G : Group s) {owner : Option ℕ} {slot : ℕ} {r : Reply} {q : Pc}
    (hpc : s.threads[i]? = some p) (hp : p ≠ .done) (hstopped : s.fw.csgStarted = false)
    (howner : ∀ u, owner = some u → settled s u) (hbringup : owner = none → slot = bringupAs)
    (hlease : starts s.fw r = true → ∀ u, owner = some u → s.lease slot = some u) :
    Group ((s.startFor owner slot r).goto i q) := by
  by_cases hok : starts s.fw r = true
  · have hst := (program_ok_iff s.fw slot r).mpr hok
    obtain ⟨hstarted, hcur, hcfg⟩ := program_started s.fw slot r hok
    have hfor : (s.startFor owner slot r).boundFor = owner := by simp [State.startFor, hst]
    refine ⟨?_, ?_, ?_⟩
    · intro _
      refine ⟨hcfg.trans hcur.symm, fun u hu => ?_⟩
      have hslot := hlease hok u (hfor ▸ hu)
      change s.lease (programAndStartCsg s.fw slot r).2.currentCsgAs = some u
      rw [hcur]
      exact hslot
    · exact fun u hu => settled_set hpc hp rfl (howner u (hfor ▸ hu))
    · intro _ hnone
      exact hcur.trans (hbringup (hfor ▸ hnone))
  · refine G.stop (fun u => settled_set hpc hp rfl) ?_ ?_
    · exact (program_not_started s.fw slot r hok).trans hstopped
    · have hst : ¬(programAndStartCsg s.fw slot r).1.ok = true := by
        rw [program_ok_iff]
        exact hok
      change (if (programAndStartCsg s.fw slot r).1.ok then owner else s.boundFor) = s.boundFor
      rw [if_neg hst]

theorem start_inv {jb : Job} (I : Inv s) (hpc : s.threads[i]? = some (.start jb))
    (hg : guardPc s (.start jb)) (h : stepPc s i (.start jb) = some t) : Inv t := by
  obtain rfl := Option.some.inj h
  obtain ⟨hjob, hlock, hstopped⟩ := I.threads i _ hpc
  have G := I.group.start (q := if (programAndStartCsg s.fw jb.call.csgAsSlot jb.reply).1.ok
    then .ring jb else jb.failed) hpc (by simp) hstopped hjob.owner hjob.bringup hg
  refine I.work hpc (by simp) hlock rfl ⟨rfl, rfl, rfl⟩ ?_ G ?_
  · split
    · rfl
    · exact dying_failed jb
  · split
    · rename_i hok
      obtain ⟨hstarted, hcur, hcfg⟩ := program_started s.fw jb.call.csgAsSlot jb.reply
        ((program_ok_iff _ _ _).mp hok)
      refine ⟨hjob.keep fun u => settled_set hpc (by simp) rfl, hlock, hstarted, hcur, hcfg, ?_⟩
      change (if (programAndStartCsg s.fw jb.call.csgAsSlot jb.reply).1.ok then jb.owner
        else s.boundFor) = jb.owner
      rw [if_pos hok]
    · exact failed_ok hlock

/-- The group keeps running while the firmware works on the ring. -/
theorem Group.run (G : Group s) (hs : ∀ u, settled s u → settled t u)
    (hfw : t.fw.csgStarted = s.fw.csgStarted ∧ t.fw.currentCsgAs = s.fw.currentCsgAs ∧
      t.fw.csgConfig = s.fw.csgConfig)
    (hfor : t.boundFor = s.boundFor) (hlease : t.lease = s.lease) : Group t := by
  obtain ⟨hst, hcur, hcfg⟩ := hfw
  refine ⟨?_, fun u hu => hs u (G.owner u (hfor ▸ hu)), ?_⟩
  · rw [Bound, hst, hcur, hcfg, hfor, hlease]
    exact G.bound
  · rw [hst, hcur, hfor]
    exact G.bringup

theorem ring_inv {jb : Job} (I : Inv s) (hpc : s.threads[i]? = some (.ring jb))
    (h : stepPc s i (.ring jb) = some t) : Inv t := by
  obtain ⟨hjob, hlock, hrun⟩ := I.threads i _ hpc
  have hs : ∀ u {t : State} {q : Pc}, t.threads = s.threads.set i q → settled s u → settled t u :=
    fun u _ _ ht => settled_set hpc (by simp) ht
  simp only [stepPc] at h
  split at h
  · obtain rfl := Option.some.inj h
    exact I.work hpc (by simp) hlock rfl ⟨rfl, rfl, rfl⟩ (dying_failed jb)
      (I.group.run (fun u => hs u rfl) ⟨rfl, rfl, rfl⟩ rfl rfl) (failed_ok hlock)
  · rename_i v hpub
    obtain rfl := Option.some.inj h
    obtain ⟨hst, hcur, hcfg⟩ := publish_group hpub
    refine I.work hpc (by simp) hlock rfl ⟨rfl, rfl, rfl⟩ rfl
      (I.group.run (fun u => hs u rfl) ⟨hst, hcur, hcfg⟩ rfl rfl) ?_
    exact ⟨hjob.keep fun u => hs u rfl, hlock, hst.trans hrun.started, hcur.trans hrun.current,
      hcfg.trans hrun.config, hrun.boundFor⟩

theorem wait_inv {jb : Job} (I : Inv s) (hpc : s.threads[i]? = some (.wait jb))
    (h : stepPc s i (.wait jb) = some t) : Inv t := by
  obtain ⟨_, hlock, _⟩ := I.threads i _ hpc
  obtain rfl := Option.some.inj h
  refine I.work hpc (by simp) hlock rfl ⟨rfl, rfl, rfl⟩ ?_
    (I.group.run (fun u => settled_set hpc (by simp) rfl) ⟨rfl, rfl, rfl⟩ rfl rfl) ?_
  · split
    · rfl
    · exact dying_failed jb
  · split
    · exact hlock
    · exact failed_ok hlock

theorem terminate_inv {jb : Job} (I : Inv s) (hpc : s.threads[i]? = some (.terminate jb))
    (h : stepPc s i (.terminate jb) = some t) : Inv t := by
  obtain ⟨hjob, hlock⟩ := I.threads i _ hpc
  simp only [stepPc] at h
  split at h
  · obtain rfl := Option.some.inj h
    exact I.goto hpc (by simp) rfl ⟨rfl, rfl, rfl, rfl⟩ (fun _ => rfl) (dying_failed jb)
      (fun _ _ h => h) (failed_ok hlock)
  · rename_i hup
    obtain rfl := Option.some.inj h
    have hstopped := terminate_stopped s.fw jb.reply (by simp at hup; exact hup.2)
    refine I.work hpc (by simp) hlock rfl ⟨rfl, rfl, rfl⟩ rfl
      (I.group.stop (fun u => settled_set hpc (by simp) rfl) hstopped rfl) ?_
    exact ⟨hjob.keep fun u => settled_set hpc (by simp) rfl, hlock, hstopped⟩

theorem recover_inv {r : Reply} (I : Inv s) (hpc : s.threads[i]? = some (.recoverTerminate r))
    (h : stepPc s i (.recoverTerminate r) = some t) : Inv t := by
  have hlock : s.submitLock = some i := I.threads i _ hpc
  simp only [stepPc] at h
  split at h
  · obtain rfl := Option.some.inj h
    exact I.goto hpc (by simp) rfl ⟨rfl, rfl, rfl, rfl⟩ (fun _ => rfl) rfl (fun _ _ h => h) hlock
  · rename_i hup
    obtain rfl := Option.some.inj h
    have hstopped := terminate_stopped s.fw r (by simpa using hup)
    exact I.work hpc (by simp) hlock rfl ⟨rfl, rfl, rfl⟩ rfl
      (I.group.stop (fun u => settled_set hpc (by simp) rfl) hstopped rfl) ⟨hlock, hstopped⟩

theorem recoverStart_inv {r : Reply} (I : Inv s) (hpc : s.threads[i]? = some (.recoverStart r))
    (h : stepPc s i (.recoverStart r) = some t) : Inv t := by
  obtain ⟨hlock, hstopped⟩ := I.threads i _ hpc
  obtain rfl := Option.some.inj h
  exact I.work hpc (by simp) hlock rfl ⟨rfl, rfl, rfl⟩ rfl
    (I.group.start hpc (by simp) hstopped (by simp) (fun _ => rfl) (by simp)) hlock

theorem submitRead_inv {vmId : ℕ} {requests : List Request} (I : Inv s)
    (hpc : s.threads[i]? = some (.submitRead vmId requests))
    (h : stepPc s i (.submitRead vmId requests) = some t) : Inv t := by
  have hquit : Inv (s.goto i .done) :=
    I.goto hpc (by simp) rfl ⟨rfl, rfl, rfl, rfl⟩ (fun _ => rfl) rfl (fun _ _ h => h) trivial
  cases requests with
  | nil =>
    obtain rfl := Option.some.inj h
    exact hquit
  | cons q rest =>
    simp only [stepPc] at h
    cases hfind : s.vms.find? (·.id == vmId) with
    | none =>
      rw [hfind] at h
      obtain rfl := Option.some.inj h
      exact hquit
    | some vm =>
      rw [hfind] at h
      simp only at h
      split at h
      · obtain rfl := Option.some.inj h
        exact hquit
      · rename_i hrun
        obtain rfl := Option.some.inj h
        have L := I.vms vm (List.mem_of_find?_eq_some hfind)
        simp only [Bool.or_eq_true, decide_eq_true_eq, not_or, Nat.not_le] at hrun
        refine I.goto hpc (by simp) rfl ⟨rfl, rfl, rfl, rfl⟩ (fun _ => rfl) rfl (fun _ _ h => h)
          ⟨hrun.1.1.1, by simp, ?_⟩
        rintro u hu
        obtain rfl := Option.some.inj hu
        exact settled_set hpc (by simp) rfl L.owner

theorem run_inv (I : Inv s) (hpc : s.threads[i]? = some p) (hg : guardPc s p)
    (h : stepPc s i p = some t) : Inv t := by
  cases p with
  | createPick hw => exact createPick_inv I hpc h
  | createInsert k => exact createInsert_inv I hpc h
  | createRelease k =>
    obtain rfl := Option.some.inj h
    exact createRelease_inv I hpc
  | destroyTake id => exact destroyTake_inv I hpc h
  | destroyRelease vm =>
    obtain rfl := Option.some.inj h
    exact destroyRelease_inv I hpc hg
  | submitRead vmId requests => exact submitRead_inv I hpc h
  | terminate jb => exact terminate_inv I hpc h
  | start jb => exact start_inv I hpc hg h
  | ring jb => exact ring_inv I hpc h
  | wait jb => exact wait_inv I hpc h
  | recoverTerminate r => exact recover_inv I hpc h
  | recoverStart r => exact recoverStart_inv I hpc h
  | createEnable k hw =>
    have hk : s.lease k = some i := I.threads i _ hpc
    obtain rfl := Option.some.inj h
    refine I.goto hpc (by simp) rfl ⟨rfl, rfl, rfl, rfl⟩ (fun _ => rfl) ?_ (fun _ _ h => h) ?_
    · split <;> rfl
    · split <;> exact hk
  | destroyDisable vm =>
    have L : Leased s vm := I.threads i _ hpc
    obtain rfl := Option.some.inj h
    refine I.goto hpc (by simp) rfl ⟨rfl, rfl, rfl, rfl⟩ ?_ rfl (fun _ _ h => h)
      ⟨L.lease, settled_set hpc (by simp) rfl L.owner⟩
    intro k
    simp only [State.goto, asDisable]
    split <;> rfl
  | lock jb =>
    have hjob : JobOk s jb := I.threads i _ hpc
    simp only [stepPc] at h
    split at h
    · rename_i hfree
      obtain rfl := Option.some.inj h
      refine I.goto hpc (by simp) rfl ⟨rfl, rfl, rfl, rfl⟩ (fun _ => rfl) rfl ?_
        ⟨hjob.keep fun u => settled_set hpc (by simp) rfl, rfl⟩
      intro j _ hj
      rw [hfree] at hj
      cases hj
    · cases h
  | unlock vmId rest =>
    have hlock : s.submitLock = some i := I.threads i _ hpc
    obtain rfl := Option.some.inj h
    refine I.goto hpc (by simp) rfl ⟨rfl, rfl, rfl, rfl⟩ (fun _ => rfl) rfl ?_ trivial
    intro j hj h
    rw [hlock] at h
    exact absurd (Option.some.inj h).symm hj
  | done => cases h

theorem settled_spawn (q : Pc) {u : ℕ} (h : settled s u) : settled (s.spawn q) u := by
  rw [settled, State.spawn, List.getElem?_append_left (List.getElem?_eq_some_iff.mp h).1]
  exact h

theorem spawn_inv (I : Inv s) {q : Pc} (hq : PcOk (s.spawn q) s.threads.length q)
    (hdying : dying q = []) : Inv (s.spawn q) := by
  have hs : ∀ u, settled s u → settled (s.spawn q) u := fun u => settled_spawn q
  refine ⟨⟨I.slots.inUse, I.slots.bringup, I.slots.unleased⟩,
    I.group.frame hs rfl rfl (fun _ _ _ h => h), ?_, ?_, ?_⟩
  · exact fun vm hvm => (I.vms vm hvm).keep (hs _ (I.vms vm hvm).owner) fun h => h
  · have huids : vmUids (s.spawn q) = vmUids s := by
      simp [vmUids, State.spawn, hdying]
    rw [huids]
    exact I.nodup
  · intro j r hj
    rcases Nat.lt_or_ge j s.threads.length with hlt | hge
    · rw [State.spawn, List.getElem?_append_left hlt] at hj
      exact (I.threads j r hj).frame hs (fun _ _ h => h) (fun _ _ _ h => h) (fun h => ⟨h, rfl, rfl⟩)
    · rw [State.spawn, List.getElem?_append_right hge] at hj
      obtain ⟨hzero, rfl⟩ := List.getElem?_eq_some_iff.mp hj
      simp only [List.length_singleton, Nat.lt_one_iff] at hzero
      have hlast : j = s.threads.length := by omega
      simpa [hzero, hlast] using hq

theorem step_inv (l : Label) (I : Inv s) (hg : guard s l) (h : step s l = some t) : Inv t := by
  cases l with
  | vmCreate hw =>
    obtain rfl := Option.some.inj h
    exact spawn_inv I trivial rfl
  | vmDestroy id =>
    obtain rfl := Option.some.inj h
    exact spawn_inv I trivial rfl
  | groupSubmit handle requests =>
    simp only [step] at h
    split at h
    · obtain rfl := Option.some.inj h
      exact spawn_inv I trivial rfl
    · obtain rfl := Option.some.inj h
      exact spawn_inv I trivial rfl
  | nopJob timeoutMs r =>
    obtain rfl := Option.some.inj h
    refine spawn_inv I ?_ ?_
    · split
      · exact ⟨(by decide : bringupAs < asSlotMax), fun _ => rfl, by simp [nopJob]⟩
      · trivial
    · split <;> rfl
  | run i =>
    obtain ⟨p, hpc, hrun⟩ := Option.bind_eq_some_iff.mp h
    exact run_inv I hpc (hg p hpc) hrun

theorem Inv.executes (I : Inv s) : Executes s := by
  intro i jb u hpc hu
  obtain ⟨_, _, hrun⟩ := I.threads i _ hpc
  obtain ⟨hcfg, hlease⟩ := I.group.bound hrun.started
  refine ⟨hrun.started, ?_⟩
  rw [hcfg]
  exact hlease u (hrun.boundFor.trans hu)

/-- A step after which the group is with its VM meets the guard. -/
theorem step_needs (l : Label) (I : Inv s) (B : Bound t) (h : step s l = some t) :
    guard s l := by
  cases l with
  | run i =>
    obtain ⟨p', hpc, hrun⟩ := Option.bind_eq_some_iff.mp h
    intro p hp
    obtain rfl := Option.some.inj (hpc.symm.trans hp)
    cases p' with
    | destroyRelease vm =>
      obtain rfl := Option.some.inj hrun
      have L : Leased s vm := I.threads i _ hpc
      intro hst hcur
      obtain ⟨_, hlease⟩ := B hst
      cases hfor : s.boundFor with
      | none =>
        have hbringup := I.group.bringup hst hfor
        have hnone := I.slots.unleased
        rw [← hbringup, hcur, L.lease] at hnone
        cases hnone
      | some u =>
        have hgone : Function.update s.lease vm.asSlot none s.fw.currentCsgAs = some u :=
          hlease u hfor
        rw [hcur, Function.update_self] at hgone
        cases hgone
    | start jb =>
      obtain rfl := Option.some.inj hrun
      intro hok u hu
      obtain ⟨hstarted, hcur, _⟩ := program_started s.fw jb.call.csgAsSlot jb.reply hok
      have hst := (program_ok_iff s.fw jb.call.csgAsSlot jb.reply).mpr hok
      have hfor : (s.startFor jb.owner jb.call.csgAsSlot jb.reply).boundFor = some u := by
        simp [State.startFor, hst, hu]
      have hlease : s.lease (programAndStartCsg s.fw jb.call.csgAsSlot jb.reply).2.currentCsgAs =
          some u := (B hstarted).2 u hfor
      rw [hcur] at hlease
      exact hlease
    | _ => trivial
  | _ => trivial

end Steps

theorem broughtUp_inv (hwAsPresent : SlotMask.Mask) (regs csfJobs : Bool) (groups : ℕ → Option ℕ)
    (n m : Word) (sb : ℕ) : Inv (broughtUp hwAsPresent regs csfJobs groups n m sb) := by
  refine ⟨⟨by simp [broughtUp], ?_, rfl⟩, ⟨?_, by simp [broughtUp], fun _ _ => rfl⟩,
    by simp [broughtUp], by simp [broughtUp, vmUids], by simp [broughtUp]⟩
  · exact (init_inUse _ bringupAs (by decide)).trans (by decide)
  · exact fun _ => ⟨rfl, by simp [broughtUp]⟩

/-- In every reachable state the started group is in a slot that its VM holds, and every stream
runs in the slot of its own VM, exactly when every step meets the guard. -/
theorem isolated_iff (hwAsPresent : SlotMask.Mask) (regs csfJobs : Bool) (groups : ℕ → Option ℕ)
    (n m : Word) (sb : ℕ) (ls : List Label) :
    Always step (fun _ _ t => Bound t ∧ Executes t)
        (broughtUp hwAsPresent regs csfJobs groups n m sb) ls ↔
      Guarded step guard (broughtUp hwAsPresent regs csfJobs groups n m sb) ls := by
  refine (guarded_iff_always (fun s l t I hg h => step_inv l I hg h) ?_
    (broughtUp_inv hwAsPresent regs csfJobs groups n m sb)).symm
  intro s l t I h
  constructor
  · intro hg
    have J := step_inv l I hg h
    exact ⟨J.group.bound, J.executes⟩
  · exact fun B => step_needs l I B.1 h

def done : Reply := ⟨true, true, 0, 0, 0, 128, some 0⟩

def oneGroup : ℕ → Option ℕ := fun h => if h = 1 then some 1 else none

/-- A submit reads slot 2 from the VM of its group, the VM is destroyed and a new one gets the
slot, and the stream is executed there. -/
theorem submit_runs_in_other_vm : ∃ t jb,
    exec step (broughtUp 0xFF true true oneGroup 96 4 8)
      [.vmCreate .success, .run 0, .run 0, .run 0,
        .groupSubmit 1 [⟨0x8000000, 64, done, done⟩], .run 1,
        .vmDestroy 1, .run 2, .run 2, .run 2,
        .vmCreate .success, .run 3, .run 3, .run 3,
        .run 1, .run 1, .run 1, .run 1] = some t ∧
      t.threads[1]? = some (.wait jb) ∧ jb.owner = some 0 ∧ t.fw.csgStarted = true ∧
      t.boundFor = some 0 ∧ t.fw.currentCsgAs = 2 ∧ t.fw.csgConfig = 2 ∧ t.lease 2 = some 3 :=
  ⟨_, _, rfl, rfl, rfl, rfl, rfl, rfl, rfl, rfl⟩

end WinMali.CsgIsolation
