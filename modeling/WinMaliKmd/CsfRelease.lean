import WinMaliKmd.CsfBootstrap
import WinMaliKmd.Runs

/-!
# What the kernel queue gives back while the firmware runs

Runs of the bootstrap, of submits and of the two teardowns. The pages of the kernel queue's
interface and of its suspend buffers are freed before the microcontroller's address space is
disabled; the condition says when that does not happen.
-/

set_option autoImplicit false

namespace WinMali.CsfRelease
open WinMali.Lpae WinMali.FirmwareImage WinMali.McuPageTable WinMali.McuPageTableMap
open WinMali.CsfBuffers WinMali.CsfFrees WinMali.CsfBootstrap WinMali.Runs
open WinMali.ApertureRoots hiding step State Op Inv Ready

structure Held (g : ApertureRoots.State) (s : Csf) : Prop where
  good : Good g s
  frees : FreesUnmapped s
  mapped : s.as0 = true → ∀ k b, s.blocks (.mcu k) = some b → McuMaps s.pt b
  fresh : s.fwCtx = true → s.booted = false →
    (∀ k, s.blocks (.gpu k) = none) ∧ (∀ k, s.blocks (.mcu k) = none) ∧ Inv s.pt ∧
      s.pt.mcuDynNextVa.toNat ≤ 2 ^ 33

/-- The step frees nothing that the microcontroller's slot still maps: a bootstrap that maps
the queue interface succeeds, and a teardown finds the slot disabled, or no buffers to free. -/
def Clean (s : Csf) : CsfBuffers.Op → Prop
  | .bootstrap env => s.as0 = true → MapsQueueIface s env → Boots s env
  | .submit => True
  | .csfTeardown => s.as0 = true → ∀ k, s.blocks (.mcu k) = none
  | .fwTeardown taken => s.fwCtx = true → s.as0 = true → (∀ k, s.blocks (.mcu k) = none) ∧
      ((s.fwMcuAsBound && s.gpuRegsMapped && taken) = true ∨
        ∀ i < s.sectionCount, ∀ b, s.blocks (.backing i) = some b → ¬McuMaps s.pt b)

/-- The pages that the bootstrap is given are nobody else's. -/
def Honest (g : ApertureRoots.State) (s : Csf) : CsfBuffers.Op → Prop
  | .bootstrap env => HonestEnv g s env
  | _ => True

variable {g : ApertureRoots.State} {s : Csf}

theorem bootstrap_ends {env : Env} (I : Held g s) (H : HonestEnv g s env)
    (hctx : s.fwCtx = true) (hboot : s.booted = false) :
    Ends g (Clean s (.bootstrap env)) (bootstrap env s).2 := by
  obtain ⟨hgpu, hmcu, htable, hdyn⟩ := I.fresh hctx hboot
  have hidle : ¬MapsQueueIface s env → Ends g (Clean s (.bootstrap env)) s := by
    intro hno
    refine ⟨iff_of_true I.frees fun _ hm => absurd hm hno, fun _ => I.good, ?_⟩
    intro _ _ k b hb
    rw [hmcu k] at hb
    cases hb
  unfold bootstrap
  cases hvalid : s.csfIfaceValid with
  | false => exact hidle fun hm => Bool.false_ne_true (hvalid.symm.trans hm.1)
  | true =>
    cases hbound : s.gpu.gpuMmuAsBound with
    | false => exact hidle fun hm => Bool.false_ne_true (hbound.symm.trans hm.2.1)
    | true =>
      have B : Booting g s env [.gpu .ring, .mcu .queueIface, .gpu .sync, .mcu .suspend,
          .mcu .protm, .gpu .shader] s := by
        refine ⟨I.good, htable, hbound, rfl, rfl, rfl, fun _ _ hb => .inl hb, ?_⟩
        simp [hgpu, hmcu]
      exact bootSteps_ends B H I.frees hdyn hvalid

/-- A state without buffers for the microcontroller. -/
theorem Held.idle (G : Good g s) (hfrees : FreesUnmapped s)
    (hmcu : ∀ k, s.blocks (.mcu k) = none)
    (hfresh : s.fwCtx = true → s.booted = false → (∀ k, s.blocks (.gpu k) = none) ∧ Inv s.pt ∧
      s.pt.mcuDynNextVa.toNat ≤ 2 ^ 33) : Held g s where
  good := G
  frees := hfrees
  mapped := fun _ k b hb => by
    rw [hmcu k] at hb
    cases hb
  fresh := fun hctx hboot => by
    obtain ⟨hgpu, htable, hdyn⟩ := hfresh hctx hboot
    exact ⟨hgpu, hmcu, htable, hdyn⟩

theorem mcu_mem_teardown (k : McuBuffer) : Undo.free (.mcu k) ∈ csfTeardownActions := by
  cases k <;> decide

/-- What the teardown frees for the microcontroller are its three buffers. -/
theorem forMcu_teardown {h : Holder} (hh : Undo.free h ∈ csfTeardownActions) (hfor : h.ForMcu) :
    ∃ k, h = .mcu k := by
  cases h with
  | mcu k => exact ⟨k, rfl⟩
  | backing i => exact absurd hh (by simp [csfTeardownActions])
  | gpu k => exact hfor.elim
  | ptPool => exact hfor.elim

theorem covered_teardown : covered [] csfTeardownActions = true := by decide

theorem csfTeardown_iff (I : Held g s) :
    FreesUnmapped (csfTeardown s) ↔ Clean s .csfTeardown := by
  have hiff := I.good.undo_iff (List.forall_mem_nil _) covered_teardown I.frees
  refine Iff.trans hiff ⟨fun hno has0 k => ?_, fun hnone has0 h hh hfor b hb => ?_⟩
  · cases hb : s.blocks (.mcu k) with
    | none => rfl
    | some b =>
      exact absurd (I.mapped has0 k b hb) (hno has0 _ (mcu_mem_teardown k) trivial b hb)
  · obtain ⟨k, rfl⟩ := forMcu_teardown hh hfor
    rw [hnone has0 k] at hb
    cases hb

theorem csfTeardown_none (s : Csf) (k : McuBuffer) : (csfTeardown s).blocks (.mcu k) = none :=
  undo_none (.inl (mcu_mem_teardown k))

theorem step_csfTeardown {t : Csf} (h : step s .csfTeardown = some t) : t = csfTeardown s := by
  change (if s.fwCtx = true then some (csfTeardown s) else none) = some t at h
  split at h
  · exact (Option.some.inj h).symm
  · cases h

theorem csfTeardown_held (I : Held g s) (hclean : Clean s .csfTeardown) :
    Held g (csfTeardown s) := by
  obtain ⟨gpu, blocks, frees, hfields⟩ := undo_fields csfTeardownActions s
  have hfrees := (csfTeardown_iff I).mpr hclean
  have hgpu : ∀ k, (undo csfTeardownActions s).blocks (.gpu k) = none := by
    intro k
    apply undo_none
    left
    cases k <;> decide
  have hgood : Good g (undo csfTeardownActions s) := by
    refine (I.good.undo_idle (List.forall_mem_nil _) covered_teardown (fun h hh hfor => ?_)
      I.frees).1
    rw [I.good.idle_mcu hfor]
    intro has0 b hb
    obtain ⟨k, rfl⟩ := forMcu_teardown hh hfor
    rw [hclean has0 k] at hb
    cases hb
  refine .idle ⟨hgood.heap, hgood.apart, hgood.foreign, hgood.gpuLeaf, hgood.mcuLeaf⟩ hfrees
    (csfTeardown_none s) fun hctx hboot => ?_
  have hctx' : s.fwCtx = true := by
    rw [csfTeardown, hfields] at hctx
    exact hctx
  have hboot' : s.booted = false := by
    rw [csfTeardown, hfields] at hboot
    exact hboot
  have hpt : (csfTeardown s).pt = s.pt := by rw [csfTeardown, hfields]
  obtain ⟨-, -, htable, hdyn⟩ := I.fresh hctx' hboot'
  rw [hpt]
  exact ⟨hgpu, htable, hdyn⟩

/-- Where `FwTeardown` releases the sections and the tables. -/
def beforeRelease (taken : Bool) (s : Csf) : Csf :=
  let s := csfTeardown s
  let s := if s.fwMcuAsBound then { asDisableMcu taken s with fwMcuAsBound := false } else s
  { s with fwCtx := false }

theorem fwTeardown_eq (taken : Bool) (s : Csf) :
    fwTeardown taken s = releaseResources (beforeRelease taken s) := rfl

theorem beforeRelease_fields (taken : Bool) (s : Csf) : ∃ fwMcuAsBound,
    beforeRelease taken s = { csfTeardown s with
      as0 := s.as0 && !(s.fwMcuAsBound && s.gpuRegsMapped && taken)
      fwMcuAsBound := fwMcuAsBound
      fwCtx := false } := by
  obtain ⟨gpu, blocks, frees, hfields⟩ := undo_fields csfTeardownActions s
  unfold beforeRelease csfTeardown asDisableMcu
  rw [hfields]
  dsimp only
  cases s.fwMcuAsBound with
  | false => exact ⟨false, by simp⟩
  | true =>
    cases s.gpuRegsMapped with
    | false => exact ⟨false, by simp⟩
    | true => exact ⟨false, by simp⟩

theorem mem_release {s : Csf} {h : Holder} (hh : Undo.free h ∈ releaseActions s) :
    (∃ i < s.sectionCount, h = .backing i) ∨ h = .ptPool := by
  rcases List.mem_append.mp hh with hmem | hmem
  · obtain ⟨i, hi, heq⟩ := List.mem_map.mp hmem
    exact .inl ⟨i, List.mem_range.mp hi, (Undo.free.inj heq).symm⟩
  · exact .inr (Undo.free.inj (List.mem_singleton.mp hmem))

theorem backing_mem_release {s : Csf} {i : ℕ} (hi : i < s.sectionCount) :
    Undo.free (.backing i) ∈ releaseActions s :=
  List.mem_append_left _ (List.mem_map.mpr ⟨i, List.mem_range.mpr hi, rfl⟩)

theorem covered_release (s : Csf) : covered [] (releaseActions s) = true := by
  have hmap : ∀ is : List ℕ,
      covered [] (is.map (fun i => Undo.free (.backing i)) ++ [.free .ptPool]) = true := by
    intro is
    induction is with
    | nil => rfl
    | cons i is ih => exact ih
  exact hmap _

theorem Good.release_iff (G : Good g s) (hfrees : FreesUnmapped s) :
    FreesUnmapped (releaseResources s) ↔ (s.as0 = true → ∀ i < s.sectionCount, ∀ b,
      s.blocks (.backing i) = some b → ¬McuMaps s.pt b) := by
  have hiff := G.undo_iff (List.forall_mem_nil _) (covered_release s) hfrees
  refine Iff.trans hiff ⟨fun hno has0 i hi => ?_, fun hno has0 h hh hfor => ?_⟩
  · exact hno has0 (.backing i) (backing_mem_release hi) trivial
  · rcases mem_release hh with ⟨i, hi, rfl⟩ | rfl
    · exact hno has0 i hi
    · exact hfor.elim

theorem Good.release (G : Good g s) (hfrees : FreesUnmapped s)
    (hno : FreesUnmapped (releaseResources s)) : Good g (releaseResources s) := by
  have hiff := (G.undo_iff (List.forall_mem_nil _) (covered_release s) hfrees).mp hno
  refine (G.undo_idle (List.forall_mem_nil _) (covered_release s) (fun h hh hfor => ?_)
    hfrees).1
  rw [G.idle_mcu hfor]
  exact fun has0 => hiff has0 h hh hfor

/-- The state in which the teardown gives back the sections, and what is mapped in it. -/
theorem fwTeardown_release (I : Held g s) (taken : Bool) (hclean : Clean s .csfTeardown) :
    Good g (beforeRelease taken s) ∧ FreesUnmapped (beforeRelease taken s) ∧
      (FreesUnmapped (fwTeardown taken s) ↔ (s.as0 = true →
        (s.fwMcuAsBound && s.gpuRegsMapped && taken) = true ∨
          ∀ i < s.sectionCount, ∀ b, s.blocks (.backing i) = some b → ¬McuMaps s.pt b)) := by
  have I' := csfTeardown_held I hclean
  obtain ⟨bound, hfields⟩ := beforeRelease_fields taken s
  obtain ⟨gpu, blocks, frees, hundo⟩ := undo_fields csfTeardownActions s
  have hpt : (csfTeardown s).pt = s.pt := by rw [csfTeardown, hundo]
  have has0 : (csfTeardown s).as0 = s.as0 := by rw [csfTeardown, hundo]
  have hcount : (csfTeardown s).sectionCount = s.sectionCount := by rw [csfTeardown, hundo]
  have hbacking : ∀ i, (csfTeardown s).blocks (.backing i) = s.blocks (.backing i) := fun i =>
    undo_keeps (by simp [csfTeardownActions])
  have G := I'.good
  have hgood : Good g (beforeRelease taken s) := by
    rw [hfields]
    refine ⟨G.heap, G.apart, G.foreign, G.gpuLeaf, fun hon => G.mcuLeaf ?_⟩
    rw [has0]
    exact (Bool.and_eq_true_iff.mp hon).1
  have hfrees : FreesUnmapped (beforeRelease taken s) := by
    rw [hfields]
    exact I'.frees
  refine ⟨hgood, hfrees, ?_⟩
  rw [fwTeardown_eq, Good.release_iff hgood hfrees, hfields]
  dsimp only
  rw [hcount, hpt]
  simp only [hbacking]
  cases s.as0 with
  | false => simp
  | true =>
    cases s.fwMcuAsBound && s.gpuRegsMapped && taken with
    | false => simp
    | true => simp

theorem fwTeardown_iff (I : Held g s) (taken : Bool) (hctx : s.fwCtx = true) :
    FreesUnmapped (fwTeardown taken s) ↔ Clean s (.fwTeardown taken) := by
  by_cases hclean : Clean s .csfTeardown
  · rw [(fwTeardown_release I taken hclean).2.2]
    constructor
    · exact fun hno _ has0 => ⟨hclean has0, hno has0⟩
    · exact fun hyes has0 => (hyes hctx has0).2
  · refine iff_of_false (fun hf => ?_) fun hyes => hclean fun has0 => (hyes hctx has0).1
    rw [fwTeardown_eq] at hf
    have hbefore := undo_frees _ hf
    obtain ⟨bound, hfields⟩ := beforeRelease_fields taken s
    rw [hfields] at hbefore
    exact hclean ((csfTeardown_iff I).mp hbefore)

theorem fwTeardown_held (I : Held g s) (taken : Bool) (hctx : s.fwCtx = true)
    (hclean : Clean s (.fwTeardown taken)) : Held g (fwTeardown taken s) := by
  have hcsf : Clean s .csfTeardown := fun has0 => (hclean hctx has0).1
  obtain ⟨hgood, hbase, -⟩ := fwTeardown_release I taken hcsf
  have hfrees := (fwTeardown_iff I taken hctx).mpr hclean
  obtain ⟨bound, hfields⟩ := beforeRelease_fields taken s
  obtain ⟨gpu, blocks, frees, hundo⟩ :=
    undo_fields (releaseActions (beforeRelease taken s)) (beforeRelease taken s)
  have hrun : fwTeardown taken s =
      undo (releaseActions (beforeRelease taken s)) (beforeRelease taken s) := rfl
  have hmcu : ∀ k, (fwTeardown taken s).blocks (.mcu k) = none := by
    intro k
    rw [hrun]
    apply undo_none
    right
    rw [hfields]
    exact csfTeardown_none s k
  refine .idle (Good.release hgood hbase hfrees) hfrees hmcu fun hon => ?_
  rw [hrun, hundo, hfields] at hon
  cases hon

/-- What one step keeps, and what it needs. -/
theorem step_held {op : CsfBuffers.Op} {t : Csf} (I : Held g s) (H : Honest g s op)
    (h : step s op = some t) :
    (Clean s op ↔ FreesUnmapped t) ∧ (Clean s op → Held g t) := by
  cases op with
  | submit =>
    obtain rfl := Option.some.inj h
    exact ⟨iff_of_true trivial I.frees, fun _ => I⟩
  | csfTeardown =>
    obtain rfl := step_csfTeardown h
    exact ⟨(csfTeardown_iff I).symm, csfTeardown_held I⟩
  | fwTeardown taken =>
    obtain rfl := Option.some.inj h
    by_cases hctx : s.fwCtx = true
    · rw [if_pos hctx]
      exact ⟨(fwTeardown_iff I taken hctx).symm, fwTeardown_held I taken hctx⟩
    · rw [if_neg hctx]
      exact ⟨iff_of_true (fun hon => absurd hon hctx) I.frees, fun _ => I⟩
  | bootstrap env =>
    change (if (s.fwCtx && !s.booted) = true then
      some { (bootstrap env s).2 with booted := true } else none) = some t at h
    split at h
    · rename_i hready
      obtain ⟨hctx, hboot⟩ := Bool.and_eq_true_iff.mp hready
      obtain rfl := Option.some.inj h
      have E := bootstrap_ends I H hctx (Bool.not_eq_true' _ ▸ hboot)
      refine ⟨E.unmapped.symm, fun hclean => ?_⟩
      have G := E.good hclean
      exact ⟨⟨G.heap, G.apart, G.foreign, G.gpuLeaf, G.mcuLeaf⟩, E.unmapped.mpr hclean,
        E.held hclean, fun _ hb => by cases hb⟩
    · cases h

def backingBlock (sec : FwSection) : Option Block :=
  sec.backingPa.map fun pa => ⟨pa, (sec.vaEnd.toNat - sec.vaStart.toNat) / 4096⟩

/-- What `FwInit` leaves to the bootstrap: the sections of the image are mapped for the
microcontroller, their backings and the block of tables are apart from each other and from
what the driver's address space maps, and there are no buffers. -/
structure Start (pool : Pool) (sections : List FwSection) (s : Csf) : Prop where
  table : ∃ mem fw₀ fw₁, initRoot pool mem = some fw₀ ∧
    buildPtForSections sections fw₀ = (.success, fw₁) ∧ s.pt = initMcuDynVa fw₁ sections
  pages : ∀ sec ∈ sections, PageAligned sec
  backed : ∀ sec ∈ sections, ∀ pa, sec.backingPa = some pa → pa.toNat % 4096 = 0 ∧
    pa.toNat + (sec.vaEnd.toNat - sec.vaStart.toNat) ≤ 2 ^ 48
  backing : ∀ i, s.blocks (.backing i) = sections[i]?.bind backingBlock
  sectionCount : s.sectionCount = sections.length
  ptPool : s.blocks .ptPool = some ⟨pool.pa, pool.bytes / 4096⟩
  gpu : ∀ k, s.blocks (.gpu k) = none
  mcu : ∀ k, s.blocks (.mcu k) = none
  apart : ∀ h h' b b', s.blocks h = some b → s.blocks h' = some b' → h ≠ h' → b.Apart b'
  foreign : ∀ h b f, s.blocks h = some b → Foreign s.gpu f → ¬b.Holds f
  heap : s.gpu.gpuMmuAsBound = true → s.gpu.mmuScratchHeap = true
  frees : s.frees = []

/-- A leaf of the sections' table is a page of the section's backing. -/
theorem sectionRange_holds {sec : FwSection} {r : Range} (hpage : PageAligned sec)
    (hbacked : ∀ pa, sec.backingPa = some pa → pa.toNat % 4096 = 0 ∧
      pa.toNat + (sec.vaEnd.toNat - sec.vaStart.toNat) ≤ 2 ^ 48)
    (hr : sectionRange sec = some r) {va : Word} (hva : r.Covers va) :
    ∃ b, backingBlock sec = some b ∧ b.Holds (r.leaf va).1 := by
  unfold sectionRange at hr
  unfold backingBlock
  cases hpa : sec.backingPa with
  | none => simp [hpa] at hr
  | some pa =>
    simp only [hpa] at hr
    split at hr
    · cases hr
    · obtain rfl := Option.some.inj hr
      obtain ⟨ha, hbelow⟩ := hbacked pa hpa
      obtain ⟨hlo, hhi⟩ := hva
      dsimp only at hlo hhi
      obtain ⟨hstart, hstop⟩ := hpage
      have hj : (va.toNat - sec.vaStart.toNat) / 4096 <
          (sec.vaEnd.toNat - sec.vaStart.toNat) / 4096 := by omega
      obtain ⟨hleaf, hold⟩ := leaf_page (sectionPteAttrs_valid sec.flags) ha (by omega) hj
      rw [leafOf_page _ _ (sectionPteAttrs_valid sec.flags)] at hleaf
      have heq := congrArg Prod.fst (Option.some.inj hleaf)
      exact ⟨_, rfl, (congrArg (Block.Holds _) heq).mpr hold⟩

theorem start_held {pool : Pool} {sections : List FwSection} (S : Start pool sections s) :
    Held s.gpu s := by
  obtain ⟨mem, fw₀, fw₁, h₀, h₁, hpt⟩ := S.table
  have F := initRoot_fresh h₀
  obtain ⟨st, fw, hrun, I₁, -, hshows⟩ := buildPtForSections_spec F.inv sections S.pages
  obtain ⟨rfl, rfl⟩ := Prod.mk.inj (h₁.symm.trans hrun)
  have hwalk := (hshows rfl [] F.shows).initDyn sections
  rw [List.nil_append] at hwalk
  refine .idle ⟨S.heap, S.apart, S.foreign, fun _ va x hx => .inl ⟨va, x, hx, rfl⟩, ?_⟩ ?_ S.mcu
    fun _ _ => ⟨S.gpu, ?_, ?_⟩
  · intro _ va x hx
    rw [hpt] at hx
    have hlook := (hwalk va).symm.trans hx
    obtain ⟨r, hr, rfl⟩ := Option.map_eq_some_iff.mp hlook
    have hcovers : r.Covers va := by simpa using List.find?_some hr
    have hmem := List.mem_reverse.mp (List.mem_of_find?_eq_some hr)
    obtain ⟨sec, hsec, hrange⟩ := List.mem_filterMap.mp hmem
    obtain ⟨b, hb, hold⟩ :=
      sectionRange_holds (S.pages sec hsec) (S.backed sec hsec) hrange hcovers
    obtain ⟨i, hi⟩ := List.mem_iff_getElem?.mp hsec
    refine ⟨.backing i, b, ?_, trivial, hold⟩
    rw [S.backing i, hi]
    exact hb
  · intro fr hfr
    rw [S.frees] at hfr
    cases hfr
  · rw [hpt]
    exact I₁.setDynNext _
  · rw [hpt]
    exact (dynStart_bounds fw₁ sections).2

/-- In a run nothing is freed under an enabled slot exactly when every step is clean. -/
theorem frees_unmapped_iff (pool : Pool) (sections : List FwSection) (s : Csf)
    (hs : Start pool sections s) (ops : List CsfBuffers.Op)
    (hops : Guarded step (Honest s.gpu) s ops) :
    Always step (fun _ _ t => FreesUnmapped t) s ops ↔ Guarded step Clean s ops :=
  (allowed_guarded_iff_always
    (fun _ _ _ I H hc ht => (step_held I H ht).2 hc)
    (fun _ _ _ I H ht => (step_held I H ht).1) (start_held hs) hops).symm

section Instances

/-- A megabyte of its own for each buffer. -/
def megabyteOf : Holder → Option ℕ
  | .gpu .ring => some 0
  | .gpu .sync => some 1
  | .gpu .shader => some 2
  | .mcu .queueIface => some 3
  | .mcu .suspend => some 4
  | .mcu .protm => some 5
  | _ => none

/-- All is granted but one buffer. -/
def grant (refused : Option Holder) (start : NtStatus) : Env where
  alloc := fun h =>
    if refused = some h then none
    else (megabyteOf h).map fun i => BitVec.ofNat 64 (0x30000000 + 0x100000 * i)
  start := start

/-- The shared section is mapped, and the firmware runs. -/
def fwReady (pt : FwPt) : Csf where
  gpu := initialized 0x80000000 windowBytes (fun _ => 0) fun _ => none
  pt := pt
  as0 := true
  gpuRegsMapped := true
  fwMcuAsBound := true
  csfIfaceValid := true
  suspendSize := 0x1800
  protmSuspendSize := 0
  blocks := fun
    | .backing i => sharedSections[i]?.bind backingBlock
    | .ptPool => some ⟨smallPool.pa, smallPool.bytes / 4096⟩
    | _ => none
  sectionCount := 1
  mcuVa := fun _ => 0
  csfBootValid := false
  booted := false
  fwCtx := true
  frees := []

variable {pt : FwPt}

theorem sharedSections_eq : sharedSections =
    [⟨0x40000000, 0x4000000, 0x4001000, some 0x20000000, 4096⟩] := by decide +kernel

theorem fwReady_blocks {h : Holder} {b : Block} (hb : (fwReady pt).blocks h = some b) :
    h = .backing 0 ∧ b = ⟨0x20000000, 1⟩ ∨ h = .ptPool ∧ b = ⟨0x10000000, 256⟩ := by
  cases h with
  | gpu k => cases hb
  | mcu k => cases hb
  | ptPool => exact .inr ⟨rfl, (Option.some.inj hb).symm⟩
  | backing i =>
    change sharedSections[i]?.bind backingBlock = some b at hb
    rw [sharedSections_eq] at hb
    cases i with
    | zero => exact .inl ⟨rfl, (Option.some.inj hb).symm⟩
    | succ i => cases hb

theorem not_foreign (f : Word) : ¬Foreign (fwReady pt).gpu f := by
  rintro ⟨va, x, hx, -⟩
  have hnone : ∀ slot, leafOf ((fwReady pt).gpu.ptes slot) = none := fun slot => by
    cases slot <;> exact (by decide : leafOf 0 = none)
  obtain ⟨slot, -, hleaf⟩ := Option.bind_eq_some_iff.mp hx
  rw [hnone slot] at hleaf
  cases hleaf

theorem fwReady_start {fw₀ fw₁ : FwPt} (h₀ : initRoot smallPool (fun _ _ => 0) = some fw₀)
    (h₁ : buildPtForSections sharedSections fw₀ = (.success, fw₁)) :
    Start smallPool sharedSections (fwReady (initMcuDynVa fw₁ sharedSections)) where
  table := ⟨_, fw₀, fw₁, h₀, h₁, rfl⟩
  pages := accepted_aligned sharedOnly_accepted _
  backed := by
    intro sec hsec pa hpa
    rw [sharedSections_eq] at hsec
    obtain rfl := List.mem_singleton.mp hsec
    obtain rfl := Option.some.inj hpa
    decide
  backing := fun _ => rfl
  sectionCount := by rw [sharedSections_eq]; rfl
  ptPool := rfl
  gpu := fun _ => rfl
  mcu := fun _ => rfl
  apart := by
    rintro h h' b b' hb hb' hne f ⟨hold, hold'⟩
    have hlo : (0x20000000 : Word).toNat = 0x20000000 := rfl
    have hpool : (0x10000000 : Word).toNat = 0x10000000 := rfl
    unfold Block.Holds at hold hold'
    rcases fwReady_blocks hb with ⟨rfl, rfl⟩ | ⟨rfl, rfl⟩ <;>
      rcases fwReady_blocks hb' with ⟨rfl, rfl⟩ | ⟨rfl, rfl⟩
    · exact hne rfl
    · dsimp only at hold hold'
      omega
    · dsimp only at hold hold'
      omega
    · exact hne rfl
  foreign := fun _ _ f _ hf => absurd hf (not_foreign f)
  heap := fun _ => rfl
  frees := rfl

theorem granted_place {refused : Option Holder} {start : NtStatus} {h : Holder} {b : Block}
    (hb : granted (fwReady pt) (grant refused start) h = some b) :
    ∃ i < 6, megabyteOf h = some i ∧ b.pa.toNat = 0x30000000 + 0x100000 * i ∧ b.pages ≤ 16 := by
  obtain ⟨pa, hpa, rfl⟩ := Option.map_eq_some_iff.mp hb
  change (if _ then _ else _) = _ at hpa
  split at hpa
  · cases hpa
  · obtain ⟨i, hi, rfl⟩ := Option.map_eq_some_iff.mp hpa
    have hlt : i < 6 := by
      unfold megabyteOf at hi
      split at hi <;> cases hi <;> decide
    refine ⟨i, hlt, hi, ?_, ?_⟩
    · rw [BitVec.toNat_ofNat]
      omega
    · cases h with
      | gpu k => exact (by cases k <;> decide : k.pages ≤ 16)
      | mcu k =>
        cases k with
        | queueIface => exact (by decide : (8 * 1024 : Word).toNat / 4096 ≤ 16)
        | suspend => exact (by decide : (suspendBytes 0x1800).toNat / 4096 ≤ 16)
        | protm => exact (by decide : (suspendBytes 0).toNat / 4096 ≤ 16)
      | backing j => cases hi
      | ptPool => cases hi

theorem megabyteOf_injective {h h' : Holder} {i : ℕ} (hi : megabyteOf h = some i)
    (hi' : megabyteOf h' = some i) : h = h' := by
  unfold megabyteOf at hi hi'
  split at hi <;> cases hi <;> split at hi' <;> first | rfl | cases hi'

theorem grant_honest (refused : Option Holder) (start : NtStatus) :
    HonestEnv (fwReady pt).gpu (fwReady pt) (grant refused start) where
  aligned := by
    intro h b hb
    obtain ⟨i, -, -, hpa, -⟩ := granted_place hb
    omega
  below := by
    intro h b hb
    obtain ⟨i, hi, -, hpa, hpages⟩ := granted_place hb
    omega
  foreign := fun _ _ f _ hf => absurd hf (not_foreign f)
  apart := by
    rintro h h' b b' hb hb' hne f ⟨hold, hold'⟩
    obtain ⟨i, -, hi, hpa, hpages⟩ := granted_place hb
    obtain ⟨i', -, hi', hpa', hpages'⟩ := granted_place hb'
    unfold Block.Holds at hold hold'
    have heq : i = i' := by omega
    subst heq
    exact hne (megabyteOf_injective hi hi')
  fresh := by
    rintro h h' b b' hb hb' f ⟨hold, hold'⟩
    obtain ⟨i, -, -, hpa, -⟩ := granted_place hb
    have hlo : (0x20000000 : Word).toNat = 0x20000000 := rfl
    have hpool : (0x10000000 : Word).toNat = 0x10000000 := rfl
    unfold Block.Holds at hold hold'
    rcases fwReady_blocks hb' with ⟨rfl, rfl⟩ | ⟨rfl, rfl⟩
    · dsimp only at hold hold'
      omega
    · dsimp only at hold hold'
      omega

def unloadRun : List CsfBuffers.Op := [.bootstrap (grant none .success), .fwTeardown true]

/-- The bootstrap succeeds and the driver is unloaded: the queue interface at `0x30300000` is
freed while the firmware still finds it at `0x4010000`. -/
theorem unload_frees_mapped : ∃ fw₀ fw₁ t, initRoot smallPool (fun _ _ => 0) = some fw₀ ∧
    buildPtForSections sharedSections fw₀ = (.success, fw₁) ∧
    Start smallPool sharedSections (fwReady (initMcuDynVa fw₁ sharedSections)) ∧
    Guarded step (Honest (fwReady (initMcuDynVa fw₁ sharedSections)).gpu)
      (fwReady (initMcuDynVa fw₁ sharedSections)) unloadRun ∧
    exec step (fwReady (initMcuDynVa fw₁ sharedSections)) unloadRun = some t ∧
    ∃ fr ∈ t.frees, ∃ pt ∈ fr.2.as0,
      mcuWalk pt 0x4010000 = some (0x30300000, pageAttrRwNx) ∧ fr.1.Holds 0x30300000 := by
  refine ⟨_, _, _, rfl, rfl, fwReady_start rfl rfl, ?_, rfl, _, List.getElem_mem (n := 6) ?_,
    Option.get _ ?_, Option.get_mem _, ?_, ?_⟩
  · exact fun _ _ => ⟨grant_honest _ _, fun _ _ => ⟨trivial, trivial⟩⟩
  · decide +kernel
  · decide +kernel
  · decide +kernel
  · decide +kernel

def bootedRun : List CsfBuffers.Op := [.bootstrap (grant none .success), .submit]

def refusedRun : List CsfBuffers.Op :=
  [.bootstrap (grant (some (.gpu .ring)) .success), .submit, .csfTeardown, .fwTeardown true]

theorem bootedRun_honest : Guarded step (Honest (fwReady pt).gpu) (fwReady pt) bootedRun :=
  fun _ _ => ⟨grant_honest _ _, fun _ _ => ⟨trivial, trivial⟩⟩

theorem refusedRun_honest : Guarded step (Honest (fwReady pt).gpu) (fwReady pt) refusedRun :=
  fun _ _ => ⟨grant_honest _ _, fun _ _ => ⟨trivial, fun _ _ => ⟨trivial, fun _ _ =>
    ⟨trivial, trivial⟩⟩⟩⟩

theorem refusedRun_clean : Guarded step Clean (fwReady pt) refusedRun := by
  intro t₁ h₁
  obtain rfl := Option.some.inj h₁
  refine ⟨fun _ hmaps => absurd hmaps.2.2.1 (by decide), ?_⟩
  intro t₂ h₂
  obtain rfl := Option.some.inj h₂
  refine ⟨trivial, ?_⟩
  intro t₃ h₃
  obtain rfl := step_csfTeardown h₃
  refine ⟨fun _ k => by cases k <;> rfl, ?_⟩
  intro _ _
  exact ⟨fun _ _ => ⟨csfTeardown_none _, .inl rfl⟩, trivial⟩

/-- A bootstrap that succeeds frees nothing, and one without a ring leaves nothing mapped. -/
theorem clean_runs_unmapped : ∃ fw₀ fw₁, initRoot smallPool (fun _ _ => 0) = some fw₀ ∧
    buildPtForSections sharedSections fw₀ = (.success, fw₁) ∧
    Always step (fun _ _ t => FreesUnmapped t) (fwReady (initMcuDynVa fw₁ sharedSections))
      bootedRun ∧
    Always step (fun _ _ t => FreesUnmapped t) (fwReady (initMcuDynVa fw₁ sharedSections))
      refusedRun := by
  refine ⟨_, _, rfl, rfl, (frees_unmapped_iff smallPool sharedSections _ (fwReady_start rfl rfl)
    bootedRun bootedRun_honest).mpr ?_, (frees_unmapped_iff smallPool sharedSections _
    (fwReady_start rfl rfl) refusedRun refusedRun_honest).mpr refusedRun_clean⟩
  refine fun _ _ => ⟨fun _ _ => ⟨fun k => by cases k <;> rfl, ?_, rfl⟩,
    fun _ _ => ⟨trivial, trivial⟩⟩
  exact ⟨_, _, _, rfl, rfl, rfl, by decide +kernel⟩

end Instances

end WinMali.CsfRelease
