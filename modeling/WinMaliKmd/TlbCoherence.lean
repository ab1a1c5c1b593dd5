import WinMaliKmd.CachedWalk
import WinMaliKmd.PagingBuffer
import WinMaliKmd.ReservedWindows

/-!
# What the TLB of a VM may hold

The GPU looks up any pages at any moments between the stores of the driver, and a flush
command is only written when the slot falls idle first. A map that fails goes back without
its flush, so the pages that it got to stay open until a later call settles them.
-/

set_option autoImplicit false

namespace WinMali.TlbCoherence
open WinMali.AsSlots WinMali.Lpae WinMali.VmPageTable WinMali.VmPageTableMap WinMali.CachedWalk
open WinMali.ReservedWindows (translation translation_eq)
open WinMali.VmLeafWrites (PtSound)

/-- What a VM sees of the driver: calls of its own, and the flush of all user slots. -/
inductive Call
  | op (o : Op)
  | flushUserAsSlots (a : Adapter)

def Call.Valid : Call → Prop
  | .op o => o.Valid
  | .flushUserAsSlots _ => True

def Call.Covers : Call → ℕ → Prop
  | .op (.map _ gpuVa _ pageCount _), page => ∃ k < pageCount, page = pageOf (pageVa gpuVa k)
  | .op (.unmap _ gpuVa pageCount), page => ∃ k < pageCount, page = pageOf (pageVa gpuVa k)
  | .flushUserAsSlots _, _ => False

section Vm

variable (supply : ℕ → PtReply)

def Call.apply (pt : VmPt) : Call → VmPt
  | .op o => (o.apply supply pt).2
  | .flushUserAsSlots a =>
    if pt.asSlot ∈ (PagingBuffer.flushUserAsSlots a fun _ => .success).2 then asFlushMem pt else pt

def calls : List Call → VmPt → VmPt
  | [], pt => pt
  | call::cs, pt => calls cs (call.apply supply pt)

/-- `taken k` says whether the command of a flush is written, by the number of events before. -/
def seen (taken : ℕ → Bool) : List VmPageTable.Event → List (CachedWalk.Event ℕ (Word × Word))
  | [] => []
  | .leaf page value::es => .store page value::seen taken es
  | .flush _::es => .flush (taken es.length)::seen taken es

def tlb (taken : ℕ → Bool) (looks : ℕ → List ℕ) (pt : VmPt) : List (ℕ × Word × Word) :=
  cache looks (seen taken pt.trace)

/-- The last thing that the call did is a flush, and the command was written. -/
def Settled (taken : ℕ → Bool) (pt pt' : VmPt) : Prop :=
  ∃ slot es, pt'.trace = .flush slot::(es ++ pt.trace) ∧ taken (es ++ pt.trace).length = true

def Unsettled (taken : ℕ → Bool) : List Call → VmPt → Prop
  | [], _ => True
  | call::cs, pt =>
    ¬Settled taken pt (call.apply supply pt) ∧ Unsettled taken cs (call.apply supply pt)

end Vm

theorem mapping_seen (taken : ℕ → Bool) (es : List VmPageTable.Event) :
    mapping (seen taken es) = lastLeaf es := by
  funext page
  induction es with
  | nil => rfl
  | cons e es ih =>
    cases e with
    | leaf p value => simp only [seen, mapping, lastLeaf, ih]
    | flush slot => simpa only [seen, mapping, lastLeaf] using ih

theorem unflushed_call (taken : ℕ → Bool) {es old : List VmPageTable.Event}
    (hes : ∀ e ∈ es, ∃ page value, e = .leaf page value) {page : ℕ}
    (h : page ∈ unflushed (seen taken (es ++ old))) :
    (∃ value, .leaf page value ∈ es) ∨ page ∈ unflushed (seen taken old) := by
  induction es with
  | nil => exact .inr h
  | cons e es ih =>
    obtain ⟨p, value, rfl⟩ := hes e (by simp)
    rcases List.mem_cons.mp h with rfl | h
    · exact .inl ⟨value, by simp⟩
    · exact (ih (fun e he => hes e (by simp [he])) h).imp
        (fun ⟨w, hw⟩ => ⟨w, by simp [hw]⟩) id

section Calls

variable {supply : ℕ → PtReply} {root : Word} {pt : VmPt} {taken : ℕ → Bool}

theorem Call.apply_good (hs : Honest supply) (G : Good supply root pt) (call : Call)
    (hv : call.Valid) : Good supply root (call.apply supply pt) := by
  cases call with
  | op o => exact (VmPageTableMap.apply_good hs G o hv).1
  | flushUserAsSlots a =>
    simp only [Call.apply]
    split
    · exact G.flush
    · exact G

theorem leaves_covered {o : Op} {st : NtStatus} {es : List VmPageTable.Event}
    (h : o.Leaves st es) : ∀ e ∈ es, ∃ page value, e = .leaf page value ∧
      (Call.op o).Covers page := by
  intro e he
  cases o with
  | map adapter gpuVa pfns count attrs =>
    cases pfns with
    | none =>
      obtain rfl := h
      cases he
    | some f =>
      obtain ⟨n, hn, -, rfl⟩ := h
      obtain ⟨k, hk, rfl⟩ := List.mem_map.mp (List.mem_reverse.mp he)
      exact ⟨_, _, rfl, k, Nat.lt_of_lt_of_le (List.mem_range.mp hk) hn, rfl⟩
  | unmap adapter gpuVa count =>
    obtain ⟨ks, hks, rfl⟩ := h
    obtain ⟨k, hk, rfl⟩ := List.mem_map.mp (List.mem_reverse.mp he)
    exact ⟨_, _, rfl, k, List.mem_range.mp (hks.subset hk), rfl⟩

/-- A call keeps the slot, and adds leaves of its own pages to the trace, with at most a flush
on top. -/
theorem apply_trace (hs : Honest supply) (G : Good supply root pt) (call : Call)
    (hv : call.Valid) : (call.apply supply pt).asSlot = pt.asSlot ∧
    ∃ flush es, (call.apply supply pt).trace = flush ++ (es ++ pt.trace) ∧
      (flush = [] ∨ flush = [.flush pt.asSlot]) ∧
      ∀ e ∈ es, ∃ page value, e = .leaf page value ∧ call.Covers page := by
  cases call with
  | op o =>
    obtain ⟨hslot, flush, es, htrace, hflush, hleaves⟩ := apply_leaves hs G o hv
    exact ⟨hslot, flush, es, htrace, hflush, leaves_covered hleaves⟩
  | flushUserAsSlots a =>
    simp only [Call.apply]
    split
    · exact ⟨rfl, [.flush pt.asSlot], [], rfl, .inr rfl, by simp⟩
    · exact ⟨rfl, [], [], rfl, .inl rfl, by simp⟩

theorem open_step (hs : Honest supply) (G : Good supply root pt) {call : Call} (hv : call.Valid)
    {page : ℕ} (h : page ∈ unflushed (seen taken (call.apply supply pt).trace)) :
    ¬Settled taken pt (call.apply supply pt) ∧
      (call.Covers page ∨ page ∈ unflushed (seen taken pt.trace)) := by
  obtain ⟨flush, es, htrace, hflush, hes⟩ := (apply_trace hs G call hv).2
  constructor
  · rintro ⟨slot, es', heq, htaken⟩
    rw [heq] at h
    simp only [seen, unflushed, htaken, if_true] at h
    cases h
  · have hold : page ∈ unflushed (seen taken (es ++ pt.trace)) := by
      rw [htrace] at h
      rcases hflush with rfl | rfl
      · exact h
      · simp only [List.cons_append, List.nil_append, seen, unflushed] at h
        split at h
        · cases h
        · exact h
    have hleaves : ∀ e ∈ es, ∃ page value, e = VmPageTable.Event.leaf page value := by
      intro e he
      obtain ⟨p, value, rfl, -⟩ := hes e he
      exact ⟨p, value, rfl⟩
    rcases unflushed_call taken hleaves hold with ⟨value, hmem⟩ | h
    · obtain ⟨p, w, heq, hcov⟩ := hes _ hmem
      cases heq
      exact .inl hcov
    · exact .inr h

theorem open_run (hs : Honest supply) (G : Good supply root pt) (cs : List Call)
    (hv : ∀ call ∈ cs, call.Valid) {page : ℕ}
    (h : page ∈ unflushed (seen taken (calls supply cs pt).trace)) :
    (page ∈ unflushed (seen taken pt.trace) ∧ Unsettled supply taken cs pt) ∨
      ∃ done late, cs = done ++ late ∧ Unsettled supply taken late (calls supply done pt) ∧
        ∃ call ∈ late, call.Covers page := by
  induction cs generalizing pt with
  | nil => exact .inl ⟨h, trivial⟩
  | cons call cs ih =>
    have hcall := hv call (by simp)
    rcases ih (call.apply_good hs G hcall) (fun c hc => hv c (by simp [hc])) h with
      ⟨hopen, huns⟩ | ⟨done, late, rfl, huns, hcov⟩
    · obtain ⟨hnot, hcov | hopen⟩ := open_step hs G hcall hopen
      · exact .inr ⟨[], call::cs, rfl, ⟨hnot, huns⟩, call, by simp, hcov⟩
      · exact .inl ⟨hopen, hnot, huns⟩
    · exact .inr ⟨call::done, late, rfl, huns, hcov⟩

theorem calls_good (hs : Honest supply) (G : Good supply root pt) (cs : List Call)
    (hv : ∀ call ∈ cs, call.Valid) : Good supply root (calls supply cs pt) := by
  induction cs generalizing pt with
  | nil => exact G
  | cons call cs ih =>
    exact ih (call.apply_good hs G (hv call (by simp))) fun c hc => hv c (by simp [hc])

theorem calls_asSlot (hs : Honest supply) (G : Good supply root pt) (cs : List Call)
    (hv : ∀ call ∈ cs, call.Valid) : (calls supply cs pt).asSlot = pt.asSlot := by
  induction cs generalizing pt with
  | nil => rfl
  | cons call cs ih =>
    have hcall : call.Valid := hv call (by simp)
    exact (ih (call.apply_good hs G hcall) fun c hc => hv c (by simp [hc])).trans
      (apply_trace hs G call hcall).1

theorem vmInit_asSlot {a a' : Adapter} {mem : Word → Fin 512 → Word} {hw : NtStatus}
    (h : vmInit supply a mem hw = (.success, pt, a')) : pt.asSlot < asSlotMax := by
  simp only [vmInit] at h
  split at h
  · cases h
  split at h
  · cases h
  split at h
  · cases h
  next hfull =>
    split at h
    · next hst =>
      obtain ⟨rfl, -⟩ := Prod.mk.inj h
      cases hst
    · cases h
      exact Nat.lt_of_not_le hfull

/-- The calls that get to their flush: a map that succeeds, an unmap of some pages, and the
flush of the user slots when the slot is in use. -/
inductive Reaches (supply : ℕ → PtReply) (pt : VmPt) : Call → Prop
  | map {a : Adapter} {gpuVa : Word} {f : ℕ → Word} {count : ℕ} {attrs : Word}
    (nonempty : count ≠ 0) (regs : a.gpuRegsMapped = true)
    (ok : (vmMap supply (some a) pt gpuVa (some f) count attrs).1 = .success) :
    Reaches supply pt (.op (.map (some a) gpuVa (some f) count attrs))
  | unmap {a : Adapter} {gpuVa : Word} {count : ℕ} (aligned : gpuVa &&& 0xFFF = 0)
    (nonempty : count ≠ 0) (regs : a.gpuRegsMapped = true) :
    Reaches supply pt (.op (.unmap (some a) gpuVa count))
  | flushUserAsSlots {a : Adapter} (pool : 2 ≤ pt.asSlot) (used : a.inUse pt.asSlot = true)
    (regs : a.gpuRegsMapped = true) : Reaches supply pt (.flushUserAsSlots a)

theorem Reaches.settled (hs : Honest supply) (G : Good supply root pt) {call : Call}
    (hv : call.Valid) (hslot : pt.asSlot < asSlotMax) (h : Reaches supply pt call)
    (htaken : taken ((call.apply supply pt).trace.length - 1) = true) :
    Settled taken pt (call.apply supply pt) := by
  suffices ∃ slot es, (call.apply supply pt).trace = .flush slot::(es ++ pt.trace) by
    obtain ⟨slot, es, htrace⟩ := this
    rw [htrace] at htaken
    exact ⟨slot, es, htrace, htaken⟩
  cases h with
  | @map a gpuVa f count attrs h0 hregs hok =>
    have hal : ¬gpuVa &&& 0xFFF ≠ 0 := by
      intro hne
      simp only [vmMap, G.rootVa, if_neg h0, if_pos hne] at hok
      cases hok
    obtain ⟨st, pt', n, hrun, -, hasSlot, htrace, -⟩ :=
      mapLoop_spec hs G gpuVa f attrs hv.1 0 count fun k hk => hv.2 f rfl k (by omega)
    simp only [vmMap, G.rootVa, if_neg h0, if_neg hal, hrun] at hok
    refine ⟨pt'.asSlot, ((List.range' 0 n).map (mapEvent gpuVa f attrs)).reverse, ?_⟩
    simp only [Call.apply, Op.apply, vmMap, G.rootVa, if_neg h0, if_neg hal, hrun, hok, hregs,
      hasSlot, hslot, NtStatus.ok_success, decide_true, Bool.and_self, if_true, asFlushMem, htrace]
  | @unmap a gpuVa count hal h0 hregs =>
    have hal' : ¬gpuVa &&& 0xFFF ≠ 0 := not_not.mpr hal
    obtain ⟨ks, -, hasSlot, -, htrace⟩ := unmapLoop_spec hs G gpuVa 0 count
    refine ⟨pt.asSlot, (ks.map (unmapEvent gpuVa)).reverse, ?_⟩
    simp only [Call.apply, Op.apply, vmUnmap, G.rootVa, if_neg h0, if_neg hal', hregs, hasSlot,
      hslot, decide_true, Bool.and_self, if_true, asFlushMem, htrace]
  | @flushUserAsSlots a h2 hin hregs =>
    have hmem : pt.asSlot ∈ (PagingBuffer.flushUserAsSlots a fun _ => .success).2 := by
      have h0 : pt.asSlot ≠ mcuAs := by unfold mcuAs; omega
      have h1 : pt.asSlot ≠ bringupAs := by unfold bringupAs; omega
      have hbit : SlotMask.hasBit a.asSlotInUseMask pt.asSlot = true := hin
      simp [PagingBuffer.flushUserAsSlots, hregs, hslot, hbit, h0, h1]
    exact ⟨pt.asSlot, [], by simp only [Call.apply, if_pos hmem, asFlushMem, List.nil_append]⟩

theorem tlb_current_or_open (hs : Honest supply) (G : Good supply root pt)
    {looks : ℕ → List ℕ} {page : ℕ} {v : Word × Word} (h : (page, v) ∈ tlb taken looks pt) :
    (∀ va, pageOf va = page → translation pt va = some v) ∨
      page ∈ unflushed (seen taken pt.trace) := by
  refine (answered_of_mem looks h).current_or_unflushed.imp (fun hm => ?_) id
  rintro va rfl
  rw [translation_eq ⟨hs, root, G⟩, ← mapping_seen taken]
  exact hm

end Calls

/-- Whatever the GPU looks up and whichever commands are written: an entry that no longer
agrees with the page table is one for a page of the calls since the last settled one. -/
theorem stale_entries_open (supply : ℕ → PtReply) (hs : Honest supply) (a a' : Adapter)
    (mem : Word → Fin 512 → Word) (hw : NtStatus) (pt : VmPt)
    (hinit : vmInit supply a mem hw = (.success, pt, a')) (cs : List Call)
    (hv : ∀ call ∈ cs, call.Valid) (taken : ℕ → Bool) (looks : ℕ → List ℕ) (page : ℕ)
    (v : Word × Word) (h : (page, v) ∈ tlb taken looks (calls supply cs pt)) :
    (∀ va, pageOf va = page → translation (calls supply cs pt) va = some v) ∨
      ∃ done late, cs = done ++ late ∧ Unsettled supply taken late (calls supply done pt) ∧
        ∃ call ∈ late, call.Covers page := by
  obtain ⟨root, G⟩ := vmInit_good hs hinit
  have hfresh : pt.trace = [] := vmInit_trace hinit
  refine (tlb_current_or_open hs (calls_good hs G cs hv) h).imp id fun hopen => ?_
  rcases open_run hs G cs hv hopen with ⟨hold, -⟩ | hlate
  · rw [hfresh] at hold
    cases hold
  · exact hlate

/-- The eight pages are used up by three maps, and the fourth stops behind its first page. -/
def stoppedMap : List Call :=
  [.op (.map (some freshAdapter) 0x1000000 (some fun _ => 5) 1 pageAttrRwNx),
    .op (.map (some freshAdapter) 0x40000000000 (some fun _ => 6) 1 pageAttrRwNx),
    .op (.map (some freshAdapter) 0x13ff000 (some fun _ => 7) 1 pageAttrRwNx),
    .op (.map (some freshAdapter) 0x13ff000 (some fun k => 9 + BitVec.ofNat 64 k) 2 pageAttrRwNx)]

theorem stoppedMap_valid : ∀ call ∈ stoppedMap, call.Valid := by
  have hattrs : ValidAttrs pageAttrRwNx := by decide
  have hframe : ∀ f : Word, f.toNat < 2 ^ 36 → ∀ g, (some fun _ : ℕ => f) = some g →
      ∀ k < 1, (g k).toNat < 2 ^ 36 := by
    rintro f hf g ⟨⟩ k -
    exact hf
  simp only [stoppedMap, List.forall_mem_cons, Call.Valid, Op.Valid]
  refine ⟨⟨hattrs, hframe 5 (by decide)⟩, ⟨hattrs, hframe 6 (by decide)⟩,
    ⟨hattrs, hframe 7 (by decide)⟩, ⟨hattrs, ?_⟩, by simp⟩
  rintro f ⟨⟩ k hk
  have : k = 0 ∨ k = 1 := by omega
  rcases this with rfl | rfl <;> decide

/-- The page was looked up before the fourth map stored to it. -/
theorem stoppedMap_stale :
    (pageOf 0x13ff000, 0x7000, pageAttrRwNx) ∈ tlb (fun _ => true)
        (fun k => if k = 6 then [pageOf 0x13ff000] else [])
        (calls eightPages stoppedMap freshVm.2.1) ∧
      ((∀ va, pageOf va = pageOf 0x13ff000 →
          translation (calls eightPages stoppedMap freshVm.2.1) va =
            some (0x7000, pageAttrRwNx)) ∨
        ∃ done late, stoppedMap = done ++ late ∧
          Unsettled eightPages (fun _ => true) late (calls eightPages done freshVm.2.1) ∧
          ∃ call ∈ late, call.Covers (pageOf 0x13ff000)) := by
  have hmem : (pageOf 0x13ff000, 0x7000, pageAttrRwNx) ∈ tlb (fun _ => true)
      (fun k => if k = 6 then [pageOf 0x13ff000] else [])
      (calls eightPages stoppedMap freshVm.2.1) := by decide +kernel
  exact ⟨hmem, stale_entries_open eightPages eightPages_honest freshAdapter freshVm.2.2
    (fun _ _ => 0) .success freshVm.2.1 rfl stoppedMap stoppedMap_valid _ _ _ _ hmem⟩

/-- One call that gets to its flush settles all pages of the VM, those of calls that failed
before it included. -/
theorem coherent_after_flush (supply : ℕ → PtReply) (hs : Honest supply) (a a' : Adapter)
    (mem : Word → Fin 512 → Word) (hw : NtStatus) (pt : VmPt)
    (hinit : vmInit supply a mem hw = (.success, pt, a')) (cs : List Call) (call : Call)
    (hv : ∀ c ∈ cs ++ [call], c.Valid)
    (hreach : Reaches supply (calls supply cs pt) call) (taken : ℕ → Bool)
    (htaken : taken ((calls supply (cs ++ [call]) pt).trace.length - 1) = true)
    (looks : ℕ → List ℕ) (page : ℕ) (v : Word × Word)
    (h : (page, v) ∈ tlb taken looks (calls supply (cs ++ [call]) pt)) (va : Word)
    (hva : pageOf va = page) : translation (calls supply (cs ++ [call]) pt) va = some v := by
  obtain ⟨root, G⟩ := vmInit_good hs hinit
  have hcs : ∀ c ∈ cs, c.Valid := fun c hc => hv c (by simp [hc])
  have hlast : calls supply (cs ++ [call]) pt = call.apply supply (calls supply cs pt) := by
    clear hreach h htaken hv hinit G hcs
    induction cs generalizing pt with
    | nil => rfl
    | cons c cs ih => exact ih _
  have G' := calls_good hs G cs hcs
  have hslot : (calls supply cs pt).asSlot < asSlotMax := by
    rw [calls_asSlot hs G cs hcs]
    exact vmInit_asSlot hinit
  have hset := hreach.settled hs G' (hv call (by simp)) hslot (hlast ▸ htaken)
  rw [hlast] at h ⊢
  rcases tlb_current_or_open hs (call.apply_good hs G' (hv call (by simp))) h with hm | hopen
  · exact hm va hva
  · exact absurd hset (open_step hs G' (hv call (by simp)) hopen).1

theorem stoppedMap_flushed :
    translation (calls eightPages (stoppedMap ++ [.flushUserAsSlots freshVm.2.2]) freshVm.2.1)
      0x13ff000 = some (0x9000, pageAttrRwNx) := by
  have hv : ∀ c ∈ stoppedMap ++ [.flushUserAsSlots freshVm.2.2], c.Valid := by
    intro c hc
    rcases List.mem_append.mp hc with hc | hc
    · exact stoppedMap_valid c hc
    · obtain rfl := List.mem_singleton.mp hc
      trivial
  exact coherent_after_flush eightPages eightPages_honest freshAdapter freshVm.2.2 (fun _ _ => 0)
    .success freshVm.2.1 rfl stoppedMap (.flushUserAsSlots freshVm.2.2) hv
    (.flushUserAsSlots (by decide +kernel) (by decide +kernel) (by decide +kernel))
    (fun _ => true) rfl (fun k => if k = 6 ∨ k = 8 then [pageOf 0x13ff000] else [])
    (pageOf 0x13ff000) _ (by decide +kernel) 0x13ff000 rfl

end WinMali.TlbCoherence
