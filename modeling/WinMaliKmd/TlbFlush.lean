import WinMaliKmd.ApertureAtomic
import WinMaliKmd.ReservedWindows
import WinMaliKmd.TableGrowth

/-!
# Flushes after leaf writes

A leaf that was valid may be in a TLB, and the GPU uses it until a `FLUSH_MEM`. The
loops of `VmMap` and `SetPtes_` can stop after some pages, and a stopped one does not
get to its flush. The command itself is only written when the slot falls idle first.
-/

set_option autoImplicit false

namespace WinMali.TlbFlush
open WinMali.AsSlots WinMali.Lpae WinMali.VmPageTable WinMali.VmPageTableMap WinMali.VmLeafWrites
  WinMali.TableGrowth WinMali.ApertureAtomic
open WinMali.ReservedWindows (translation translation_eq)
open WinMali.ApertureRoots (State Slot resolveL3Slot setPtes setPtesLoop Reached)

/-- Some address that had a translation has another one now, or none. -/
def Changed (before after : Word → Option (Word × Word)) : Prop :=
  ∃ va v, before va = some v ∧ after va ≠ some v

/-- `es` is what a call does, newest first, and `idle` what the wait for the slot reports to
`AsWriteCommand_`: the command comes after the last write. -/
def Flushed (idle : Bool) (slot : ℕ) (es : List Event) : Prop :=
  idle = true ∧ ∃ later earlier, es = later ++ .flush slot::earlier ∧
    ∀ page v, Event.leaf page v ∉ later

/-- The flush of a call on a VM. -/
def FlushedCall (idle : Bool) (pt pt' : VmPt) : Prop :=
  ∃ es, pt'.trace = es ++ pt.trace ∧
    (Changed (translation pt) (translation pt') → Flushed idle pt.asSlot es)

/-- The tables of page `k`, and those of the pages before it, are there or are granted. -/
def Reaches (supply : ℕ → PtReply) (pt : VmPt) (gpuVa : Word) (k : ℕ) : Prop :=
  ∀ root, pt.rootVa = some root → Supplied supply root pt (tablesOf gpuVa 0 (k + 1))

/-- A map goes through, or no page that it gets to had another leaf. -/
def MapSafe (supply : ℕ → PtReply) (pt : VmPt) (gpuVa : Word) (pfns : Option (ℕ → Word))
    (count : ℕ) (attrs : Word) (idle : Bool) : Prop :=
  ∀ f, pfns = some f → gpuVa &&& 0xFFF = 0 →
    (idle = true ∧ ∀ k < count, Reaches supply pt gpuVa k) ∨
    ∀ k < count, Reaches supply pt gpuVa k → ∀ v, translation pt (pageVa gpuVa k) = some v →
      v = (f k <<< 12, attrs)

def UnmapSafe (pt : VmPt) (gpuVa : Word) (count : ℕ) (idle : Bool) : Prop :=
  gpuVa &&& 0xFFF = 0 → idle = true ∨ ∀ k < count, translation pt (pageVa gpuVa k) = none

def SetPtesSafe (s : State) (r : Request) (idle : Bool) : Prop :=
  Admitted s r →
    (idle = true ∧ ∀ k < r.pageCount, Reached s r.gpuVaStart k) ∨
    ∀ k < r.pageCount, Reached s r.gpuVaStart k →
      ∀ v, ApertureRoots.translation s (pageVa r.gpuVaStart k) = some v → leafOf (r.pte k) = some v

/-- The loop of `SetPtes_` with what it does, and the flush behind it. -/
def setPtesLoopTraced (gpuVaStart : Word) (pte : ℕ → Word) :
    ℕ → ℕ → State → List Event → NtStatus × State × List Event
  | _, 0, s, es => (.success, s, .flush bringupAs::es)
  | i, left + 1, s, es =>
    match resolveL3Slot s (pageVa gpuVaStart i) with
    | none => (.invalidParameter, s, es)
    | some slot =>
      setPtesLoopTraced gpuVaStart pte (i + 1) left
        { s with ptes := Function.update s.ptes slot (pte i) }
        (.leaf (pageOf (pageVa gpuVaStart i)) (leafOf (pte i))::es)

def setPtesTraced (s : State) (r : Request) : NtStatus × State × List Event :=
  if Admitted s r then setPtesLoopTraced r.gpuVaStart r.pte 0 r.pageCount s []
  else ((setPtes s r.gpuVaStart r.pfns r.firstPagePa r.pageCount r.attrs).1, s, [])

theorem flushed_head (idle : Bool) (slot : ℕ) (es : List Event) :
    Flushed idle slot (.flush slot::es) ↔ idle = true :=
  ⟨fun h => h.1, fun h => ⟨h, [], es, rfl, by simp⟩⟩

theorem not_flushed {idle : Bool} {slot : ℕ} {es : List Event} (h : .flush slot ∉ es) :
    ¬Flushed idle slot es := by
  rintro ⟨-, later, earlier, rfl, -⟩
  simp at h

section Vm

variable {supply : ℕ → PtReply} {root : Word} {pt : VmPt} {a : Adapter} {gpuVa : Word}
  {pfns : ℕ → Word} {count : ℕ} {attrs : Word}

theorem reaches_iff (G : Good supply root pt) (gpuVa : Word) (k : ℕ) :
    Reaches supply pt gpuVa k ↔ Supplied supply root pt (tablesOf gpuVa 0 (k + 1)) := by
  constructor
  · exact fun h => h root G.rootVa
  · intro h r hr
    obtain rfl := Option.some.inj (G.rootVa.symm.trans hr)
    exact h

/-- The whole record of a map: the pages it wrote, and a flush when these are all. -/
theorem vmMap_trace (hs : Honest supply) (G : Good supply root pt)
    (hregs : a.gpuRegsMapped = true) (hslot : pt.asSlot < asSlotMax)
    (hal : gpuVa &&& 0xFFF = 0) (h0 : count ≠ 0) (ha : ValidAttrs attrs)
    (hp : ∀ k, k < count → (pfns k).toNat < 2 ^ 36) :
    ∃ n ≤ count, (∀ k < count, k < n ↔ Reaches supply pt gpuVa k) ∧
      (vmMap supply (some a) pt gpuVa (some pfns) count attrs).2.trace =
        (if n = count then [.flush pt.asSlot] else []) ++ mapEvents gpuVa pfns attrs n ++
          pt.trace := by
  obtain ⟨st, pt', n, hrun, -, hasSlot, htrace, hn, hst, hpre⟩ :=
    mapLoop_spec hs G gpuVa pfns attrs ha 0 count (fun k hk => hp k (by omega))
  have hal' : ¬gpuVa &&& 0xFFF ≠ 0 := not_not.mpr hal
  have htrace' : pt'.trace = mapEvents gpuVa pfns attrs n ++ pt.trace := by
    rw [htrace, mapEvents, List.range_eq_range']
  refine ⟨n, hn, ?_, ?_⟩
  · intro k hk
    rw [reaches_iff G, ← mapLoop_supplied hs G gpuVa pfns attrs ha 0 (k + 1)
      fun j hj => hp j (by omega), hpre (k + 1) (by omega)]
    omega
  · simp only [vmMap, G.rootVa, if_neg h0, if_neg hal', hrun, hregs, hasSlot, hslot]
    rcases hst with ⟨rfl, rfl⟩ | ⟨rfl, hlt⟩
    · simp [asFlushMem, htrace', hasSlot]
    · have hne : n ≠ count := by omega
      simp [hne, htrace', NtStatus.ok]

theorem no_flush_mapEvents (slot n : ℕ) : Event.flush slot ∉ mapEvents gpuVa pfns attrs n := by
  intro h
  obtain ⟨k, -, he⟩ := List.mem_map.mp (List.mem_reverse.mp h)
  cases he

/-- What a map of `n` pages changes is seen at one of these pages. -/
theorem map_changed_iff {pt' : VmPt} (V : PtSound supply pt) (V' : PtSound supply pt') {n : ℕ}
    (hn : n ≤ 2 ^ 36) {flush : List Event} (hflush : ∀ page v, Event.leaf page v ∉ flush)
    (htrace : pt'.trace = flush ++ mapEvents gpuVa pfns attrs n ++ pt.trace) :
    Changed (translation pt) (translation pt') ↔
      ∃ k < n, ∃ v, translation pt (pageVa gpuVa k) = some v ∧ v ≠ (pfns k <<< 12, attrs) := by
  have hskip : ∀ (fl rest : List Event), (∀ page v, Event.leaf page v ∉ fl) → ∀ page,
      lastLeaf (fl ++ rest) page = lastLeaf rest page := by
    intro fl rest hfl page
    induction fl with
    | nil => rfl
    | cons e fl ih =>
      cases e with
      | leaf p v => exact absurd (List.mem_cons_self ..) (hfl p v)
      | flush slot => exact ih fun page v h => hfl page v (List.mem_cons_of_mem _ h)
  have hlast : ∀ page, lastLeaf pt'.trace page =
      lastLeaf (mapEvents gpuVa pfns attrs n ++ pt.trace) page := by
    intro page
    rw [htrace, List.append_assoc]
    exact hskip flush _ hflush page
  constructor
  · rintro ⟨va, v, hbefore, hafter⟩
    rw [translation_eq V] at hbefore
    rw [translation_eq V', hlast] at hafter
    by_contra hno
    refine hafter ?_
    rw [← hbefore]
    refine ReservedWindows.lastLeaf_agree fun w hw => ?_
    obtain ⟨k, hk, hpage, rfl⟩ := mem_mapEvents hw
    rw [hbefore]
    by_contra hne
    refine hno ⟨k, hk, v, ?_, fun h => hne (h ▸ rfl)⟩
    rw [translation_eq V, ← hpage]
    exact hbefore
  · rintro ⟨k, hk, v, hbefore, hne⟩
    refine ⟨pageVa gpuVa k, v, hbefore, ?_⟩
    rw [translation_eq V', hlast, lastLeaf_mapEvents pt.trace hn hk]
    exact fun h => hne (Option.some.inj h).symm

theorem map_flushed_iff (hs : Honest supply) (G : Good supply root pt)
    (hregs : a.gpuRegsMapped = true) (hslot : pt.asSlot < asSlotMax) (gpuVa : Word)
    (pfns : Option (ℕ → Word)) (hcount : count < 2 ^ 32) (ha : ValidAttrs attrs)
    (hp : ∀ f, pfns = some f → ∀ k, k < count → (f k).toNat < 2 ^ 36) (idle : Bool) :
    MapSafe supply pt gpuVa pfns count attrs idle ↔
      FlushedCall idle pt (vmMap supply (some a) pt gpuVa pfns count attrs).2 := by
  have V : PtSound supply pt := ⟨hs, root, G⟩
  have hsame : ∀ pt' : VmPt, pt' = pt → FlushedCall idle pt pt' := by
    rintro _ rfl
    refine ⟨[], rfl, ?_⟩
    rintro ⟨va, v, hv, hne⟩
    exact absurd hv hne
  cases pfns with
  | none => exact ⟨fun _ => hsame _ (by simp only [vmMap, G.rootVa]), fun _ f hf => by cases hf⟩
  | some f =>
    by_cases h0 : count = 0
    · refine ⟨fun _ => hsame _ (by simp only [vmMap, G.rootVa, if_pos h0]), fun _ f' _ _ => .inr ?_⟩
      intro k hk
      omega
    by_cases hal : gpuVa &&& 0xFFF = 0
    · have V' : PtSound supply (vmMap supply (some a) pt gpuVa (some f) count attrs).2 :=
        ⟨hs, root, (vmMap_good hs G (some a) gpuVa (some f) count attrs ha hp).1⟩
      obtain ⟨n, hn, hreach, htrace⟩ := vmMap_trace hs G hregs hslot hal h0 ha (hp f rfl)
      have hch := map_changed_iff V V' (by omega) (by split <;> simp) htrace
      constructor
      · intro hsafe
        refine ⟨_, htrace, fun hchanged => ?_⟩
        rcases hsafe f rfl hal with ⟨hidle, hall⟩ | hquiet
        · have hfull : n = count := by
            by_contra hne
            have hlt := (hreach n (by omega)).mpr (hall n (by omega))
            omega
          rw [if_pos hfull]
          exact (flushed_head idle pt.asSlot _).mpr hidle
        · obtain ⟨k, hk, v, hv, hne⟩ := hch.mp hchanged
          exact absurd (hquiet k (by omega) ((hreach k (by omega)).mp hk) v hv) hne
      · rintro ⟨es, hes, hflush⟩ f' hf' _
        obtain rfl := Option.some.inj hf'
        obtain rfl := List.append_cancel_right (htrace.symm.trans hes)
        by_cases hchanged : Changed (translation pt)
            (translation (vmMap supply (some a) pt gpuVa (some f) count attrs).2)
        · left
          have hF := hflush hchanged
          have hfull : n = count := by
            by_contra hne
            rw [if_neg hne] at hF
            exact not_flushed (no_flush_mapEvents pt.asSlot n) hF
          exact ⟨hF.1, fun k hk => (hreach k hk).mp (by omega)⟩
        · right
          intro k hk hr v hv
          by_contra hne
          exact hchanged (hch.mpr ⟨k, (hreach k hk).mpr hr, v, hv, hne⟩)
    · refine ⟨fun _ => hsame _ ?_, fun _ f' _ h => absurd h hal⟩
      have hal' : gpuVa &&& 0xFFF ≠ 0 := hal
      simp only [vmMap, G.rootVa, if_neg h0, if_pos hal']

/-- An unmap always gets to its flush; it can only be the command that is missing. -/
theorem unmap_flushed_iff (hs : Honest supply) (G : Good supply root pt)
    (hregs : a.gpuRegsMapped = true) (hslot : pt.asSlot < asSlotMax) (gpuVa : Word) (count : ℕ)
    (idle : Bool) :
    UnmapSafe pt gpuVa count idle ↔
      FlushedCall idle pt (vmUnmap supply (some a) pt gpuVa count).2 := by
  have V : PtSound supply pt := ⟨hs, root, G⟩
  have V' : PtSound supply (vmUnmap supply (some a) pt gpuVa count).2 :=
    ⟨hs, root, (vmUnmap_good hs G (some a) gpuVa count).1⟩
  have hch : gpuVa &&& 0xFFF = 0 → (Changed (translation pt)
      (translation (vmUnmap supply (some a) pt gpuVa count).2) ↔
        ∃ k < count, ∃ v, translation pt (pageVa gpuVa k) = some v) := by
    intro hal
    constructor
    · rintro ⟨va, v, hbefore, hafter⟩
      by_contra hno
      refine hafter ?_
      rw [← hbefore, translation_eq V, translation_eq V']
      refine ReservedWindows.unmap_keeps V a gpuVa count fun k hk hpage => ?_
      refine absurd ⟨k, hk, v, ?_⟩ hno
      rw [translation_eq V, hpage, ← translation_eq V]
      exact hbefore
    · rintro ⟨k, hk, v, hv⟩
      refine ⟨pageVa gpuVa k, v, hv, ?_⟩
      rw [translation_eq V', vmUnmap_clears hs G a hal hk]
      simp
  by_cases hgo : gpuVa &&& 0xFFF = 0 ∧ count ≠ 0
  · obtain ⟨hal, h0⟩ := hgo
    obtain ⟨ks, -, hasSlot, -, htrace⟩ := unmapLoop_spec hs G gpuVa 0 count
    have hal' : ¬gpuVa &&& 0xFFF ≠ 0 := not_not.mpr hal
    have hfull : (vmUnmap supply (some a) pt gpuVa count).2.trace =
        (.flush pt.asSlot::(ks.map (unmapEvent gpuVa)).reverse) ++ pt.trace := by
      simp only [vmUnmap, G.rootVa, if_neg hal', if_neg h0, hregs, hasSlot, hslot, decide_true,
        Bool.and_self, if_true, asFlushMem, htrace, List.cons_append]
    constructor
    · intro hsafe
      refine ⟨_, hfull, fun hchanged => (flushed_head idle pt.asSlot _).mpr ?_⟩
      rcases hsafe hal with hidle | hquiet
      · exact hidle
      · obtain ⟨k, hk, v, hv⟩ := (hch hal).mp hchanged
        rw [hquiet k hk] at hv
        cases hv
    · rintro ⟨es, hes, hflush⟩ _
      by_cases hchanged : Changed (translation pt)
          (translation (vmUnmap supply (some a) pt gpuVa count).2)
      · exact .inl (hflush hchanged).1
      · right
        intro k hk
        cases hv : translation pt (pageVa gpuVa k) with
        | none => rfl
        | some v => exact absurd ((hch hal).mpr ⟨k, hk, v, hv⟩) hchanged
  · have hsame : (vmUnmap supply (some a) pt gpuVa count).2 = pt := by
      simp only [vmUnmap, G.rootVa]
      split
      · rfl
      split
      · rfl
      · rename_i hal h0
        exact absurd ⟨not_not.mp hal, h0⟩ hgo
    constructor
    · intro _
      refine ⟨[], by rw [hsame]; rfl, ?_⟩
      rintro ⟨va, v, hv, hne⟩
      rw [hsame] at hne
      exact absurd hv hne
    · intro _ hal
      right
      intro k hk
      exact absurd ⟨hal, by omega⟩ hgo

end Vm

section Aperture

variable {s : State} {gpuVaStart : Word} (pte : ℕ → Word)

/-- The record is an addition: the loop is the one that `SetPtes_` is modelled by. -/
theorem loopTraced_forget (gpuVaStart : Word) (i left : ℕ) (s : State) (es : List Event) :
    ((setPtesLoopTraced gpuVaStart pte i left s es).1,
      (setPtesLoopTraced gpuVaStart pte i left s es).2.1) =
        setPtesLoop gpuVaStart pte i left s := by
  induction left generalizing i s es with
  | zero => rfl
  | succ left ih =>
    cases h : resolveL3Slot s (pageVa gpuVaStart i) with
    | none => simp only [setPtesLoopTraced, setPtesLoop, h]
    | some slot =>
      simp only [setPtesLoopTraced, setPtesLoop, h]
      exact ih (i + 1) _ _

theorem setPtesTraced_forget (s : State) (r : Request) :
    ((setPtesTraced s r).1, (setPtesTraced s r).2.1) =
      setPtes s r.gpuVaStart r.pfns r.firstPagePa r.pageCount r.attrs := by
  unfold setPtesTraced
  split
  · rename_i h
    rw [setPtes_admitted h]
    exact loopTraced_forget r.pte r.gpuVaStart 0 r.pageCount s []
  · rename_i h
    exact Prod.ext rfl (setPtes_turned_away h).2.symm

theorem loopTraced_flush {i left : ℕ} {s : State} (es : List Event)
    (h : ∀ j, i ≤ j → j < i + left → (resolveL3Slot s (pageVa gpuVaStart j)).isSome) :
    ∃ rest, (setPtesLoopTraced gpuVaStart pte i left s es).2.2 = .flush bringupAs::rest := by
  induction left generalizing i s es with
  | zero => exact ⟨es, rfl⟩
  | succ left ih =>
    unfold setPtesLoopTraced
    split
    · rename_i hnone
      have hsome := h i le_rfl (by omega)
      rw [hnone] at hsome
      cases hsome
    · apply ih
      intro j hij hj
      exact h j (by omega) (by omega)

theorem loopTraced_stuck {i left k : ℕ} {s : State} {es : List Event} (hik : i ≤ k)
    (hk : k < i + left) (h : resolveL3Slot s (pageVa gpuVaStart k) = none)
    (hes : Event.flush bringupAs ∉ es) :
    Event.flush bringupAs ∉ (setPtesLoopTraced gpuVaStart pte i left s es).2.2 := by
  induction left generalizing i s es with
  | zero => omega
  | succ left ih =>
    unfold setPtesLoopTraced
    split
    · exact hes
    · rename_i slot hslot
      have hne : i ≠ k := by
        rintro rfl
        rw [h] at hslot
        cases hslot
      exact ih (by omega) (by omega) h (by simp [hes])

theorem loop_changed_iff {count : ℕ} (ha : gpuVaStart.toNat % 4096 = 0)
    (hc : count ≤ ApertureRoots.windowBytes / 4096) :
    Changed (ApertureRoots.translation s)
        (ApertureRoots.translation (setPtesLoop gpuVaStart pte 0 count s).2) ↔
      ∃ k < count, Reached s gpuVaStart k ∧
        ∃ v, ApertureRoots.translation s (pageVa gpuVaStart k) = some v ∧
          leafOf (pte k) ≠ some v := by
  constructor
  · rintro ⟨va, v, hbefore, hafter⟩
    rcases loop_translation pte ha hc va with ⟨k, hk, hr, hva, hw⟩ | hsame
    · exact ⟨k, hk, hr, v, hva.trans hbefore, hw ▸ hafter⟩
    · exact absurd (hsame.trans hbefore) hafter
  · rintro ⟨k, hk, hr, v, hbefore, hne⟩
    exact ⟨_, v, hbefore, by rwa [loop_page pte ha hc hk hr]⟩

theorem setPtes_flushed_iff (s : State) (r : Request) (idle : Bool) :
    SetPtesSafe s r idle ↔
      (Changed (ApertureRoots.translation s) (ApertureRoots.translation (setPtesTraced s r).2.1) →
        Flushed idle bringupAs (setPtesTraced s r).2.2) := by
  by_cases h : Admitted s r
  · have hloop := Prod.ext_iff.mp (loopTraced_forget r.pte r.gpuVaStart 0 r.pageCount s [])
    have hch := loop_changed_iff (s := s) r.pte ((ApertureRoots.aligned_iff _).mp h.2.2.1)
      h.1.2.2
    rw [← hloop.2] at hch
    rw [setPtesTraced, if_pos h]
    constructor
    · intro hsafe hchanged
      rcases hsafe h with ⟨hidle, hall⟩ | hquiet
      · have hin : ∀ j, 0 ≤ j → j < 0 + r.pageCount →
            (resolveL3Slot s (pageVa r.gpuVaStart j)).isSome :=
          fun j _ hj => hall j (by omega) j (by omega)
        obtain ⟨rest, hrest⟩ := loopTraced_flush r.pte [] hin
        rw [hrest]
        exact (flushed_head idle bringupAs rest).mpr hidle
      · obtain ⟨k, hk, hr, v, hv, hne⟩ := hch.mp hchanged
        exact absurd (hquiet k hk hr v hv) hne
    · intro hflush _
      by_cases hchanged : Changed (ApertureRoots.translation s) (ApertureRoots.translation
          (setPtesLoopTraced r.gpuVaStart r.pte 0 r.pageCount s []).2.1)
      · left
        have hF := hflush hchanged
        refine ⟨hF.1, fun k hk j hj => ?_⟩
        by_contra hnone
        have hlt : j < 0 + r.pageCount := by omega
        refine not_flushed (loopTraced_stuck r.pte (Nat.zero_le j) hlt ?_ (by simp)) hF
        simpa using hnone
      · right
        intro k hk hr v hv
        by_contra hne
        exact hchanged (hch.mpr ⟨k, hk, hr, v, hv, hne⟩)
  · rw [setPtesTraced, if_neg h]
    refine ⟨fun _ => ?_, fun _ ha => absurd ha h⟩
    rintro ⟨va, v, hv, hne⟩
    exact absurd hv hne

end Aperture

/-- For every call, in any VM that calls can lead to and in any state of the bring-up slot: the
flush follows the last change of a leaf that was valid exactly when the call gets through its whole
range and its slot falls idle, or no such leaf changes. -/
theorem changes_flushed_iff (supply : ℕ → PtReply) (hs : Honest supply) (a a' : Adapter)
    (mem : Word → Fin 512 → Word) (hw : NtStatus) (pt₀ : VmPt)
    (hinit : vmInit supply a mem hw = (.success, pt₀, a')) (ops : List Op)
    (hv : ∀ op ∈ ops, op.Valid) (adapter : Adapter) (hregs : adapter.gpuRegsMapped = true)
    (hslot : (run supply ops pt₀).2.asSlot < asSlotMax) (gpuVa : Word) (count : BitVec 32)
    (idle : Bool) :
    let pt := (run supply ops pt₀).2
    (∀ pfns attrs, (Op.map (some adapter) gpuVa pfns count.toNat attrs).Valid →
      (MapSafe supply pt gpuVa pfns count.toNat attrs idle ↔
        FlushedCall idle pt (vmMap supply (some adapter) pt gpuVa pfns count.toNat attrs).2)) ∧
    (UnmapSafe pt gpuVa count.toNat idle ↔
      FlushedCall idle pt (vmUnmap supply (some adapter) pt gpuVa count.toNat).2) ∧
    ∀ s r, SetPtesSafe s r idle ↔
      (Changed (ApertureRoots.translation s) (ApertureRoots.translation (setPtesTraced s r).2.1) →
        Flushed idle bringupAs (setPtesTraced s r).2.2) := by
  intro pt
  obtain ⟨root, G₀⟩ := vmInit_good hs hinit
  have G : Good supply root pt := (run_good hs ops hv G₀).1
  refine ⟨fun pfns attrs hvalid => ?_, ?_, fun s r => setPtes_flushed_iff s r idle⟩
  · exact map_flushed_iff hs G hregs hslot gpuVa pfns count.isLt hvalid.1 hvalid.2 idle
  · exact unmap_flushed_iff hs G hregs hslot gpuVa count.toNat idle

/-- These maps use up the eight pages; the last one takes the last page of its table. -/
def threeMaps : List Op :=
  [.map (some freshAdapter) 0x1000000 (some fun _ => 5) 1 pageAttrRwNx,
    .map (some freshAdapter) 0x40000000000 (some fun _ => 6) 1 pageAttrRwNx,
    .map (some freshAdapter) 0x13ff000 (some fun _ => 7) 1 pageAttrRwNx]

theorem threeMaps_valid : ∀ op ∈ threeMaps, op.Valid := by
  have hattrs : ValidAttrs pageAttrRwNx := by decide
  have hframe : ∀ f : Word, f.toNat < 2 ^ 36 → ∀ g, (some fun _ : ℕ => f) = some g →
      ∀ k < 1, (g k).toNat < 2 ^ 36 := by
    rintro f hf g ⟨⟩ k -
    exact hf
  simp only [threeMaps, List.forall_mem_cons, Op.Valid]
  exact ⟨⟨hattrs, hframe 5 (by decide)⟩, ⟨hattrs, hframe 6 (by decide)⟩,
    ⟨hattrs, hframe 7 (by decide)⟩, by simp⟩

def fullVm : VmPt := (run eightPages threeMaps freshVm.2.1).2

theorem unmap_of_full_flushed :
    FlushedCall true fullVm (vmUnmap eightPages (some freshAdapter) fullVm 0x13ff000 1).2 := by
  have h := changes_flushed_iff eightPages eightPages_honest freshAdapter freshVm.2.2
    (fun _ _ => 0) .success freshVm.2.1 rfl threeMaps threeMaps_valid freshAdapter rfl
    (by decide +kernel) 0x13ff000 1 true
  exact h.2.1.mp fun _ => .inl rfl

/-- The second page needs a table, and there is none left: the first page has a new frame, and no
flush tells the GPU. -/
theorem stopped_map_unflushed :
    let after := vmMap eightPages (some freshAdapter) fullVm 0x13ff000
      (some fun k => 9 + BitVec.ofNat 64 k) 2 pageAttrRwNx
    after.1 = .insufficientResources ∧ fullVm.asSlot < asSlotMax ∧
      translation fullVm 0x13ff000 = some (0x7000, pageAttrRwNx) ∧
      translation after.2 0x13ff000 = some (0x9000, pageAttrRwNx) ∧
      ¬FlushedCall true fullVm after.2 := by
  intro after
  have hbefore : translation fullVm 0x13ff000 = some (0x7000, pageAttrRwNx) := by decide +kernel
  have hafter : translation after.2 0x13ff000 = some (0x9000, pageAttrRwNx) := by decide +kernel
  refine ⟨by decide +kernel, by decide +kernel, hbefore, hafter, ?_⟩
  rintro ⟨es, hes, hflush⟩
  have htrace : after.2.trace =
      [.leaf (pageOf 0x13ff000) (some (0x9000, pageAttrRwNx))] ++ fullVm.trace := rfl
  obtain rfl := List.append_cancel_right (htrace.symm.trans hes)
  refine not_flushed (by simp) (hflush ⟨0x13ff000, _, hbefore, ?_⟩)
  rw [hafter]
  decide

end WinMali.TlbFlush
