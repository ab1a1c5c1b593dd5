import WinMaliKmd.BlockCover
import WinMaliKmd.BoTable
import WinMaliKmd.VmLeafWrites

/-!
# Frames, and who refers to them

The BO table frees frames and the page tables and process mappings refer to
them; neither side looks at the other. Here are the books that a caller would
have to keep, and what leaves the BO table safely.
-/

set_option autoImplicit false

namespace WinMali.PageBooks
open WinMali.AsSlots WinMali.Lpae WinMali.VmPageTable WinMali.VmTable WinMali.VmLeafWrites
  WinMali.BlockCover WinMali.BoTable
open WinMali.VmPageTableMap (Honest)

/-- The last write to some page outside the driver's own is a map of the frame. -/
def Maps (pt : VmPt) (f : Word) : Prop :=
  ∃ va, ¬CsfPage (pageOf va) ∧ ∃ attrs, lastLeaf pt.trace (pageOf va) = some (f <<< 12, attrs)

/-- A leaf of a live VM or a live user mapping reaches the frame. -/
def Referenced (d : Device) (f : Word) : Prop :=
  (∃ vm ∈ d.vmTable.vms, ∃ root va attrs, vm.pt.rootVa = some root ∧ ¬CsfPage (pageOf va) ∧
    hwWalk vm.pt.mem root va = some (f <<< 12, attrs)) ∨
  ∃ m ∈ d.userMappings, f ∈ m.pfns

def Unreferenced (_ : Device) (_ : Op) (t : Device) : Prop := ∀ f ∈ t.freed, ¬Referenced t f

/-- Every page that was mapped to the BO has been unmapped or mapped to something else
since, or its VM is gone; a user mapping belongs to the calling process. -/
def Released (d : Device) (proc : ℕ) (bo : Bo) : Prop :=
  (∀ m, bo.mapping = some m → m.process = proc) ∧
    ∀ vm ∈ d.vmTable.vms, ∀ f ∈ bo.pfns, ¬Maps vm.pt f

/-- The map of a block runs out of table pages after it has written a leaf. -/
def BreaksOff (a : Adapter) (vm : Vm) (gpuVa : Word) (bo : Bo) : Prop :=
  let map (count : ℕ) :=
    vmMap vm.supply (some a) vm.pt gpuVa (some (pfnAt bo.pfns)) count pageAttrRwNx
  (map (heapPages bo)).1 ≠ .success ∧
    ∃ k < heapPages bo, (map (k + 1)).1 = .success ∧ ¬CsfPage (pageOf (pageVa gpuVa k))

def BlockWhole (d : Device) (vm : Vm) (ownerDevice : Option ℕ) (size : ℕ) (gpuVa : Word)
    (r : HeapReply) : Prop :=
  let created := boCreate d (BitVec.ofNat 64 size) 0 0 ownerDevice r.bo
  created.1 = .ok → ∀ bo ∈ boGet created.2.2 created.2.1, ¬BreaksOff d.adapter vm gpuVa bo

def ChunksWhole (proc : ℕ) (ownerDevice : Option ℕ) (chunkSize : ℕ) (r : ℕ → HeapReply) :
    ℕ → ℕ → Device → Vm → Prop
  | _, 0, _, _ => True
  | k, left + 1, d, vm =>
    let out := heapAllocMapped d vm proc ownerDevice chunkSize vm.kmdVaNext (r k)
    BlockWhole d vm ownerDevice chunkSize vm.kmdVaNext (r k) ∧
      (out.1 = .success →
        ChunksWhole proc ownerDevice chunkSize r (k + 1) left out.2.2.1
          { out.2.2.2 with kmdVaNext := vm.kmdVaNext + BitVec.ofNat 64 chunkSize })

def HeapWhole (d : Device) (proc : ℕ) (ownerDevice : Option ℕ) (chunkSize count : ℕ)
    (r : ℕ → HeapReply) (vm : Vm) : Prop :=
  let out := heapAllocMapped d vm proc ownerDevice 4096 vm.kmdVaNext (r 0)
  BlockWhole d vm ownerDevice 4096 vm.kmdVaNext (r 0) ∧
    (out.1 = .success →
      ChunksWhole proc ownerDevice chunkSize (fun k => r (k + 1)) 0 (min count 16) out.2.2.1
        { out.2.2.2 with kmdVaNext := out.2.2.2.kmdVaNext + 4096 })

def ValidChunk (chunkSize : ℕ) : Prop :=
  chunkSize % 4096 = 0 ∧ 0x1000 ≤ chunkSize ∧ chunkSize ≤ 0x200000

/-- What callers owe the BO table. -/
def Duty (d : Device) : Op → Prop
  | .boDestroy proc handle => ∀ bo ∈ boGet d handle, Released d proc bo
  | .boRundownOwner proc owner =>
    owner ≠ none → ∀ bo ∈ d.bos, bo.ownerDevice = owner → Released d proc bo
  | .tilerHeapCreate proc owner vmId chunkSize count r =>
    vmId ≠ 0 → count ≠ 0 → ValidChunk chunkSize → ∀ vm ∈ vmGet d.vmTable vmId,
      HeapWhole d proc owner chunkSize count r vm
  | _ => True

/-- The 32-bit handle counter has not come round to a BO that is still there. -/
def HandlesFresh (d : Device) : Op → Prop
  | .tilerHeapCreate .. => ∀ bo ∈ d.bos, ∀ k < 17, bo.handle ≠ (d.nextHandle + k) % 2 ^ 32
  | _ => True

/-- The promises of the memory manager about the pages of a new VM. -/
def Promised : Op → Prop
  | .vmCreate r => Honest r.supply ∧ ∀ c ∈ r.csf, CsfBelow c
  | _ => True

theorem frame_injective {f g : Word} (hf : f.toNat < 2 ^ 36) (hg : g.toNat < 2 ^ 36)
    (h : f <<< 12 = g <<< 12) : f = g := by
  have h' := congrArg BitVec.toNat h
  simp only [BitVec.toNat_shiftLeft, Nat.shiftLeft_eq] at h'
  apply BitVec.eq_of_toNat_eq
  omega

structure BoSound (bo : Bo) : Prop where
  native : bo.pagesImported = false
  nonempty : bo.pfns ≠ []
  sized : bo.size.toNat ≤ 4096 * bo.pfns.length
  framed : ∀ f ∈ bo.pfns, f.toNat < 2 ^ 36

/-- Every leaf of the VM leads to a frame of a BO. -/
def Covered (bos : List Bo) (pt : VmPt) : Prop :=
  ∀ va, ¬CsfPage (pageOf va) → ∀ pa attrs, lastLeaf pt.trace (pageOf va) = some (pa, attrs) →
    ∃ f, Held Bo.pfns bos f ∧ pa = f <<< 12

structure Sound (d : Device) : Prop where
  vms : ∀ vm ∈ d.vmTable.vms, PtSound vm.supply vm.pt
  covered : ∀ vm ∈ d.vmTable.vms, Covered d.bos vm.pt
  bos : ∀ bo ∈ d.bos, BoSound bo
  apart : Apart Bo.pfns d.bos
  mappings : ∀ m, m ∈ d.userMappings ↔ ∃ bo ∈ d.bos, bo.mapping = some m

theorem mapping_pfns {bo : Bo} {m : UserMapping} (h : bo.mapping = some m) : m.pfns = bo.pfns := by
  obtain ⟨u, -, rfl⟩ := Option.map_eq_some_iff.mp h
  rfl

/-- The hardware sees what was last written. -/
theorem referenced_iff {d : Device} (hv : ∀ vm ∈ d.vmTable.vms, PtSound vm.supply vm.pt)
    (f : Word) :
    Referenced d f ↔ (∃ vm ∈ d.vmTable.vms, Maps vm.pt f) ∨ ∃ m ∈ d.userMappings, f ∈ m.pfns := by
  refine or_congr ?_ Iff.rfl
  constructor
  · rintro ⟨vm, hmem, root, va, attrs, hroot, hpage, hwalk⟩
    obtain ⟨root', G⟩ := (hv vm hmem).good
    obtain rfl : root' = root := Option.some.inj (G.rootVa.symm.trans hroot)
    exact ⟨vm, hmem, va, hpage, attrs, (G.walk va).symm.trans hwalk⟩
  · rintro ⟨vm, hmem, va, hpage, attrs, hlast⟩
    obtain ⟨root, G⟩ := (hv vm hmem).good
    exact ⟨vm, hmem, root, va, attrs, G.rootVa, hpage, (G.walk va).trans hlast⟩

theorem Covered.held {bos : List Bo} {pt : VmPt} (hc : Covered bos pt)
    (hb : ∀ bo ∈ bos, BoSound bo) {f : Word} (hf : f.toNat < 2 ^ 36) (hm : Maps pt f) :
    Held Bo.pfns bos f := by
  obtain ⟨va, hpage, attrs, hlast⟩ := hm
  obtain ⟨g, ⟨bo, hbo, hg⟩, he⟩ := hc va hpage _ attrs hlast
  obtain rfl := frame_injective hf ((hb bo hbo).framed g hg) he
  exact ⟨bo, hbo, hg⟩

theorem Covered.append {bos : List Bo} {pt : VmPt} (hc : Covered bos pt) (new : List Bo) :
    Covered (bos ++ new) pt := by
  intro va hpage pa attrs hlast
  obtain ⟨f, hf, he⟩ := hc va hpage pa attrs hlast
  exact ⟨f, hf.append new, he⟩

theorem Sound.mapped {d : Device} (S : Sound d) {m : UserMapping} (hm : m ∈ d.userMappings)
    {f : Word} (hf : f ∈ m.pfns) : Held Bo.pfns d.bos f := by
  obtain ⟨bo, hbo, h⟩ := (S.mappings m).mp hm
  exact ⟨bo, hbo, mapping_pfns h ▸ hf⟩

/-- A frame that no BO holds is out of reach. -/
theorem Sound.unheld {d : Device} (S : Sound d) {f : Word} (hf : f.toNat < 2 ^ 36)
    (hh : ¬Held Bo.pfns d.bos f) : ¬Referenced d f := by
  rw [referenced_iff S.vms]
  rintro (⟨vm, hvm, hm⟩ | ⟨m, hm, hfm⟩)
  · exact hh ((S.covered vm hvm).held S.bos hf hm)
  · exact hh (S.mapped hm hfm)

section Release

variable {d : Device} {kept taken : List Bo}

theorem freeAll_spec (proc : ℕ) (taken : List Bo) (hn : ∀ bo ∈ taken, bo.pagesImported = false)
    (d : Device) :
    (taken.foldl (boFree proc) d).vmTable = d.vmTable ∧
      (taken.foldl (boFree proc) d).bos = d.bos ∧
      (taken.foldl (boFree proc) d).freed = d.freed ++ taken.flatMap Bo.pfns ∧
      ∀ m, m ∈ (taken.foldl (boFree proc) d).userMappings ↔
        m ∈ d.userMappings ∧ ¬(proc = m.process ∧ ∃ bo ∈ taken, bo.mapping = some m) := by
  induction taken generalizing d with
  | nil => simp
  | cons bo taken ih =>
    obtain ⟨hvm, hbos, hfreed, hmap⟩ := ih (fun b hb => hn b (by simp [hb])) (boFree proc d bo)
    have hbo := hn bo (by simp)
    refine ⟨hvm, hbos, ?_, ?_⟩
    · rw [List.foldl_cons, hfreed]
      simp [boFree, hbo]
    · intro m
      rw [List.foldl_cons, hmap m]
      have hone : m ∈ (boFree proc d bo).userMappings ↔
          m ∈ d.userMappings ∧ ¬(proc = m.process ∧ bo.mapping = some m) := by
        unfold boFree
        cases hm : bo.mapping with
        | none => simp
        | some m' =>
          dsimp only
          split
          · rename_i hp
            simp only [List.mem_filter, decide_eq_true_eq, Option.some.injEq]
            constructor
            · rintro ⟨h, hne⟩
              exact ⟨h, fun hc => hne hc.2.symm⟩
            · rintro ⟨h, hne⟩
              refine ⟨h, ?_⟩
              rintro rfl
              exact hne ⟨hp, rfl⟩
          · rename_i hp
            simp only [Option.some.injEq]
            constructor
            · intro h
              exact ⟨h, fun hc => hp (hc.2 ▸ hc.1)⟩
            · exact fun h => h.1
      rw [hone, and_assoc, ← not_or, ← and_or_left]
      simp only [List.mem_cons, exists_eq_or_imp]

/-- `t` is `d` after the blocks `taken` were freed, with the blocks `kept` left. -/
structure Freed (proc : ℕ) (d : Device) (kept taken : List Bo) (t : Device) : Prop where
  split : d.bos.Perm (kept ++ taken)
  vmTable : t.vmTable = d.vmTable
  bos : t.bos = kept
  freed : t.freed = taken.flatMap Bo.pfns
  mappings : ∀ m, m ∈ t.userMappings ↔
    m ∈ d.userMappings ∧ ¬(proc = m.process ∧ ∃ bo ∈ taken, bo.mapping = some m)

section Freed

variable {proc : ℕ} {t : Device} {bo : Bo}

theorem freed_foldl (S : Sound d) (hp : d.bos.Perm (kept ++ taken)) (hf : d.freed = []) :
    Freed proc d kept taken (taken.foldl (boFree proc) { d with bos := kept }) := by
  have hnative : ∀ bo ∈ taken, bo.pagesImported = false :=
    fun bo h => (S.bos bo (hp.mem_iff.mpr (List.mem_append_right _ h))).native
  obtain ⟨hvm, hbos, hfreed, hmap⟩ := freeAll_spec proc taken hnative { d with bos := kept }
  refine ⟨hp, hvm, hbos, ?_, hmap⟩
  rw [hfreed]
  simp [hf]

theorem Freed.taken_mem (F : Freed proc d kept taken t) (h : bo ∈ taken) : bo ∈ d.bos :=
  F.split.mem_iff.mpr (List.mem_append_right _ h)

theorem Freed.kept_mem (F : Freed proc d kept taken t) (h : bo ∈ kept) : bo ∈ d.bos :=
  F.split.mem_iff.mpr (List.mem_append_left _ h)

theorem Freed.vms (F : Freed proc d kept taken t) (S : Sound d) :
    ∀ vm ∈ t.vmTable.vms, PtSound vm.supply vm.pt := by
  rw [F.vmTable]
  exact S.vms

theorem Freed.freed_mem (F : Freed proc d kept taken t) {f : Word} (h : bo ∈ taken)
    (hf : f ∈ bo.pfns) : f ∈ t.freed := by
  rw [F.freed]
  exact List.mem_flatMap.mpr ⟨bo, h, hf⟩

theorem Freed.released (F : Freed proc d kept taken t) (S : Sound d)
    (hu : ∀ f ∈ t.freed, ¬Referenced t f) : ∀ bo ∈ taken, Released d proc bo := by
  intro bo hbo
  refine ⟨?_, ?_⟩
  · intro m hm
    by_contra hproc
    have hkeep : m ∈ t.userMappings := (F.mappings m).mpr
      ⟨(S.mappings m).mpr ⟨bo, F.taken_mem hbo, hm⟩, fun h => hproc h.1.symm⟩
    obtain ⟨f, hfm⟩ := List.exists_mem_of_ne_nil _ (S.bos bo (F.taken_mem hbo)).nonempty
    exact hu f (F.freed_mem hbo hfm) (.inr ⟨m, hkeep, (mapping_pfns hm).symm ▸ hfm⟩)
  · intro vm hv f hfb hm
    refine hu f (F.freed_mem hbo hfb) ((referenced_iff (F.vms S) f).mpr (.inl ⟨vm, ?_, hm⟩))
    rw [F.vmTable]
    exact hv

theorem Freed.unreferenced (F : Freed proc d kept taken t) (S : Sound d)
    (hr : ∀ bo ∈ taken, Released d proc bo) : ∀ f ∈ t.freed, ¬Referenced t f := by
  intro f hfr href
  rw [F.freed] at hfr
  obtain ⟨bo, hbo, hfb⟩ := List.mem_flatMap.mp hfr
  rcases (referenced_iff (F.vms S) f).mp href with ⟨vm, hv, hm⟩ | ⟨m, hm, hfm⟩
  · rw [F.vmTable] at hv
    exact (hr bo hbo).2 vm hv f hfb hm
  · -- the mapping is the BO's own, and its process is the caller
    obtain ⟨hold, hgone⟩ := (F.mappings m).mp hm
    obtain ⟨bo', hbo', hmb⟩ := (S.mappings m).mp hold
    have ht := (S.apart.perm F.split).unique hbo (F.split.mem_iff.mp hbo') hfb
      (mapping_pfns hmb ▸ hfm)
    exact hgone ⟨((hr bo' ht).1 m hmb).symm, bo', ht, hmb⟩

theorem Freed.covered (F : Freed proc d kept taken t) (S : Sound d)
    (hr : ∀ bo ∈ taken, Released d proc bo) : ∀ vm ∈ t.vmTable.vms, Covered t.bos vm.pt := by
  intro vm hv va hpage pa attrs hlast
  rw [F.vmTable] at hv
  obtain ⟨f, hheld, rfl⟩ := S.covered vm hv va hpage pa attrs hlast
  refine ⟨f, ?_, rfl⟩
  obtain ⟨bo, hbo, hfb⟩ := hheld.perm F.split
  rw [F.bos]
  rcases List.mem_append.mp hbo with hk | ht
  · exact ⟨bo, hk, hfb⟩
  · exact absurd ⟨va, hpage, attrs, hlast⟩ ((hr bo ht).2 vm hv f hfb)

theorem Freed.mapped_iff (F : Freed proc d kept taken t) (S : Sound d)
    (hr : ∀ bo ∈ taken, Released d proc bo) (m : UserMapping) :
    m ∈ t.userMappings ↔ ∃ bo ∈ t.bos, bo.mapping = some m := by
  rw [F.mappings m, S.mappings m, F.bos]
  constructor
  · rintro ⟨⟨bo, hbo, hm⟩, hgone⟩
    rcases List.mem_append.mp (F.split.mem_iff.mp hbo) with hk | ht
    · exact ⟨bo, hk, hm⟩
    · exact absurd ⟨((hr bo ht).1 m hm).symm, bo, ht, hm⟩ hgone
  · rintro ⟨bo, hk, hm⟩
    refine ⟨⟨bo, F.kept_mem hk, hm⟩, ?_⟩
    rintro ⟨-, bo', ht, hm'⟩
    obtain ⟨f, hfb⟩ := List.exists_mem_of_ne_nil _ (S.bos bo (F.kept_mem hk)).nonempty
    refine (S.apart.perm F.split).notHeld ht (f := f) ?_ ⟨bo, hk, hfb⟩
    rw [← mapping_pfns hm', mapping_pfns hm]
    exact hfb

end Freed

/-- Taking blocks out of the table is safe exactly when each of them is released. -/
theorem release_iff (proc : ℕ) (S : Sound d) (hp : d.bos.Perm (kept ++ taken)) (hf : d.freed = []) :
    ((∀ f ∈ (taken.foldl (boFree proc) { d with bos := kept }).freed,
        ¬Referenced (taken.foldl (boFree proc) { d with bos := kept }) f) ↔
      ∀ bo ∈ taken, Released d proc bo) ∧
    ((∀ bo ∈ taken, Released d proc bo) →
      Sound (taken.foldl (boFree proc) { d with bos := kept })) := by
  have F : Freed proc d kept taken _ := freed_foldl S hp hf
  generalize taken.foldl (boFree proc) { d with bos := kept } = t at F ⊢
  refine ⟨⟨F.released S, F.unreferenced S⟩, fun hr => ?_⟩
  refine ⟨F.vms S, F.covered S hr, ?_, ?_, F.mapped_iff S hr⟩
  · intro bo hbo
    rw [F.bos] at hbo
    exact S.bos bo (F.kept_mem hbo)
  · rw [F.bos]
    exact (S.apart.perm hp).left

end Release

structure NewBo (d : Device) (bo : Bo) : Prop where
  handle : bo.handle = d.nextHandle % 2 ^ 32
  fresh : Fresh d bo.pfns
  sound : BoSound bo
  unmapped : bo.userVa = none

def addBo (d : Device) (bo : Bo) : Device :=
  { d with bos := d.bos ++ [bo], nextHandle := d.nextHandle + 1 }

theorem fresh_unheld {d : Device} {pfns : List Word} (h : Fresh d pfns) {f : Word}
    (hf : f ∈ pfns) : f.toNat < 2 ^ 36 ∧ ¬Held Bo.pfns d.bos f := by
  refine ⟨h.2.1 f hf, ?_⟩
  rintro ⟨bo, hbo, hfb⟩
  exact h.2.2 bo hbo f hfb hf

theorem boCreate_cases (d : Device) (size : Word) (flags : BitVec 32) (vmId : ℕ)
    (owner : Option ℕ) (r : BoReply) :
    (∃ part, (boCreate d size flags vmId owner r).1 ≠ .ok ∧
      (boCreate d size flags vmId owner r).2.2 = { d with freed := d.freed ++ part } ∧
      (part = [] ∨ Fresh d part)) ∨
    ∃ bo, boCreate d size flags vmId owner r = (.ok, bo.handle, addBo d bo) ∧
      NewBo d bo := by
  unfold boCreate
  by_cases h0 : size = 0
  · simp only [if_pos h0]
    exact .inl ⟨[], by simp, by simp, .inl rfl⟩
  cases hpool : r.pool with
  | false =>
    simp only [if_neg h0, Bool.not_false, if_true]
    exact .inl ⟨[], by simp, by simp, .inl rfl⟩
  | true =>
    simp only [if_neg h0, Bool.not_true, Bool.false_eq_true, if_false]
    cases hmdl : mmAllocatePages d r.mdl with
    | none => exact .inl ⟨[], by simp, by simp, .inl rfl⟩
    | some pfns =>
      have hfresh : Fresh d pfns := by simpa using (Option.filter_eq_some_iff.mp hmdl).2
      dsimp only
      split
      · exact .inl ⟨pfns, by simp, rfl, .inr hfresh⟩
      · rename_i hlen
        have hbytes : mdlByteCount pfns ≤ pfns.length * 4096 := Nat.mod_le _ _
        have hsized : ((size + 4095) &&& ~~~4095).toNat ≤ 4096 * pfns.length := by omega
        let bo : Bo := ⟨d.nextHandle % 2 ^ 32, (size + 4095) &&& ~~~4095, flags, vmId, pfns, false,
          none, owner⟩
        exact .inr ⟨bo, rfl, rfl, hfresh, ⟨rfl, hfresh.1, hsized, hfresh.2.1⟩, rfl⟩

theorem Sound.add {d : Device} (S : Sound d) {bo : Bo} (hn : NewBo d bo) :
    Sound (addBo d bo) := by
  refine ⟨S.vms, fun vm hv => (S.covered vm hv).append [bo], ?_, ?_, ?_⟩
  · intro b hb
    rcases List.mem_append.mp hb with h | h
    · exact S.bos b h
    · exact List.mem_singleton.mp h ▸ hn.sound
  · exact S.apart.fresh fun f hf => (fresh_unheld hn.fresh hf).2
  · intro m
    rw [show (addBo d bo).userMappings = d.userMappings from rfl, S.mappings m]
    have hnone : bo.mapping ≠ some m := by simp [Bo.mapping, hn.unmapped]
    simp [addBo, or_and_right, exists_or, hnone]

theorem Sound.freeing {d : Device} (S : Sound d) (fr : List Word) :
    Sound { d with freed := fr } := ⟨S.vms, S.covered, S.bos, S.apart, S.mappings⟩

theorem unheld_part {d : Device} (S : Sound d) {part : List Word} (h : part = [] ∨ Fresh d part)
    {f : Word} (hf : f ∈ part) : ¬Referenced d f := by
  rcases h with rfl | h
  · cases hf
  · exact S.unheld (fresh_unheld h hf).1 (fresh_unheld h hf).2

/-- What a call that meets its Duty exactly owes. -/
def Exact (d : Device) (op : Op) : Prop :=
  (Duty d op ↔ Unreferenced d op (op.apply d)) ∧ (Duty d op → Sound (op.apply d))

theorem Exact.harmless {d : Device} {op : Op} (hg : Duty d op) (hS : Sound (op.apply d))
    (hf : (op.apply d).freed = []) : Exact d op := by
  refine ⟨⟨fun _ f h => ?_, fun _ => hg⟩, fun _ => hS⟩
  rw [hf] at h
  cases h

theorem boCreate_exact {d : Device} (S : Sound d) (hf : d.freed = []) (size : Word)
    (flags : BitVec 32) (vmId : ℕ) (owner : Option ℕ) (r : BoReply) :
    Exact d (.boCreate size flags vmId owner r) := by
  rcases boCreate_cases d size flags vmId owner r with ⟨part, -, hd, hpart⟩ | ⟨bo, hd, hn⟩
  · have ht : (Op.boCreate size flags vmId owner r).apply d = { d with freed := part } := by
      rw [Op.apply, hd, hf, List.nil_append]
    refine ⟨⟨fun _ f hfr => ?_, fun _ => trivial⟩, fun _ => ht ▸ S.freeing part⟩
    rw [ht] at hfr ⊢
    exact unheld_part S hpart hfr
  · have ht : (Op.boCreate size flags vmId owner r).apply d = addBo d bo := by
      rw [Op.apply, hd]
    exact .harmless trivial (ht ▸ S.add hn) (ht ▸ hf)

theorem boDestroy_exact {d : Device} (S : Sound d) (hf : d.freed = []) (proc handle : ℕ) :
    Exact d (.boDestroy proc handle) := by
  unfold Exact Duty Unreferenced Op.apply
  cases h : boGet d handle with
  | none =>
    simp only [boDestroy, boTakeByHandle, h, Option.map_none, hf]
    exact ⟨by simp, fun _ => S⟩
  | some bo =>
    obtain ⟨l, r, hbos, herase, -⟩ := find_split h
    have hp : d.bos.Perm ((l ++ r) ++ [bo]) := by
      have hswap : ([bo] ++ r).Perm (r ++ [bo]) := List.perm_append_comm
      rw [hbos, List.append_assoc]
      exact hswap.append_left l
    have R := release_iff proc S hp hf
    simp only [List.foldl_cons, List.foldl_nil, List.mem_singleton, forall_eq] at R
    simp only [boDestroy, boTakeByHandle, h, Option.map_some, herase, Option.mem_def,
      Option.some.injEq, forall_eq']
    exact ⟨R.1.symm, R.2⟩

theorem boRundown_exact {d : Device} (S : Sound d) (hf : d.freed = []) (proc : ℕ)
    (owner : Option ℕ) : Exact d (.boRundownOwner proc owner) := by
  unfold Exact Duty Unreferenced Op.apply boRundownOwner
  by_cases h : owner = none
  · simp only [if_pos h, hf]
    exact ⟨by simp [h], fun _ => S⟩
  · have hp : d.bos.Perm ((d.bos.filter fun bo => ¬bo.ownerDevice = owner) ++
        d.bos.filter fun bo => bo.ownerDevice = owner) := by
      refine (List.perm_append_comm.trans ?_).symm
      simpa using List.filter_append_perm (fun bo : Bo => decide (bo.ownerDevice = owner)) d.bos
    have R := release_iff proc S hp hf
    simp only [List.mem_filter, decide_eq_true_eq, and_imp] at R
    simp only [ne_eq, h, not_false_eq_true, forall_const]
    exact ⟨R.1.symm, R.2⟩

theorem boMapCpu_sound {d : Device} (S : Sound d) (proc handle : ℕ) (reply : Option Word) :
    Sound (boMapCpu d proc handle reply).2.2 := by
  unfold boMapCpu
  cases h : boGet d handle with
  | none => exact S
  | some bo =>
    dsimp only
    cases hu : bo.userVa with
    | some u =>
      dsimp only
      split <;> exact S
    | none =>
      cases reply with
      | none => exact S
      | some va =>
        obtain ⟨l, r, hbos, -, hset⟩ := find_split h
        dsimp only
        rw [hset]
        have hmap : d.bos.map Bo.pfns =
            (l ++ { bo with userVa := some (proc, va) }::r).map Bo.pfns := by
          rw [hbos]
          simp
        have hbo := S.bos bo (by rw [hbos]; simp)
        refine ⟨S.vms, ?_, ?_, ?_, ?_⟩
        · intro vm hv va' hpage pa attrs hlast
          obtain ⟨f, hheld, he⟩ := S.covered vm hv va' hpage pa attrs hlast
          exact ⟨f, hheld.congr hmap, he⟩
        · intro b hb
          rcases List.mem_append.mp hb with hl | hr
          · exact S.bos b (by rw [hbos]; simp [hl])
          · rcases List.mem_cons.mp hr with rfl | hr
            · exact ⟨hbo.native, hbo.nonempty, hbo.sized, hbo.framed⟩
            · exact S.bos b (by rw [hbos]; simp [hr])
        · have hap := S.apart
          rw [Apart, hmap] at hap
          exact hap
        · intro m
          have hnone : bo.mapping = none := by simp [Bo.mapping, hu]
          have hold := S.mappings m
          rw [hbos] at hold
          simp only [List.mem_append, List.mem_cons, or_and_right, exists_or, exists_eq_left,
            hnone, reduceCtorEq, false_or] at hold
          simp only [List.mem_append, List.mem_cons, List.not_mem_nil, or_false, hold,
            or_and_right, exists_or, exists_eq_left, Bo.mapping, Option.map_some,
            Option.some.injEq]
          rw [or_assoc, eq_comm, or_comm (a := _ = m)]

theorem boMapCpu_freed (d : Device) (proc handle : ℕ) (reply : Option Word) :
    (boMapCpu d proc handle reply).2.2.freed = d.freed := by
  unfold boMapCpu
  split
  · rfl
  · split
    · split <;> rfl
    · split <;> rfl

theorem vmGet_split {tab : Table} {id : ℕ} {vm : Vm} (h : vmGet tab id = some vm) :
    vm ∈ tab.vms ∧ ∀ vm', vm' ∈ tab.vms.set (tab.vms.findIdx fun vm => vm.id == id) vm' ∧
      ∀ v ∈ tab.vms.set (tab.vms.findIdx fun vm => vm.id == id) vm', v = vm' ∨ v ∈ tab.vms := by
  obtain ⟨l, r, hvms, -, hset⟩ := find_split h
  refine ⟨by rw [hvms]; simp, ?_⟩
  intro vm'
  rw [hset vm', hvms]
  simp only [List.mem_append, List.mem_cons]
  exact ⟨.inr (.inl trivial), by tauto⟩

/-- A VM that is still intact and covered goes back into the table. -/
theorem Sound.putVm {d : Device} (S : Sound d) {id : ℕ} {vm vm' : Vm}
    (h : vmGet d.vmTable id = some vm)
    (V : PtSound vm'.supply vm'.pt) (hc : Covered d.bos vm'.pt) : Sound (d.putVm id vm') := by
  have hmem := ((vmGet_split h).2 vm').2
  refine ⟨?_, ?_, S.bos, S.apart, S.mappings⟩
  · intro v hv
    rcases hmem v hv with rfl | hv
    · exact V
    · exact S.vms v hv
  · intro v hv
    rcases hmem v hv with rfl | hv
    · exact hc
    · exact S.covered v hv

end WinMali.PageBooks
