import WinMaliKmd.AsSlotsInvariant
import WinMaliKmd.ThreadPools

/-!
# Contexts and their slots

`CreateContext`, `SetRootPageTable` and `DestroyContext`. The graphics kernel
names a context by the handle that it got back, which is where the context is
in memory; `DestroyContext` looks for the slot under the handle of the runtime.
-/

set_option autoImplicit false

namespace WinMali.ContextSlots
open WinMali.AsSlots WinMali.Lpae WinMali.Runs

def segmentIdSysmem : ℕ := 1

def sizeofBltDesc : ℕ := 48

structure Context where
  handle : ℕ
  ownerDevice : ℕ
  hRtContext : ℕ
  nodeOrdinal : ℕ
  engineAffinity : ℕ
  flags : BitVec 32
deriving DecidableEq, Repr

structure CreateArgs where
  hContext : ℕ
  nodeOrdinal : ℕ
  engineAffinity : ℕ
  flags : BitVec 32
deriving DecidableEq, Repr

def CreateArgs.systemContext (args : CreateArgs) : Bool := args.flags.getLsbD 0

structure ContextInfo where
  dmaBufferSize : ℕ
  dmaBufferSegmentSet : ℕ
  dmaBufferPrivateDataSize : ℕ
  noPatchingRequired : Bool
  allocationListSize : ℕ
  patchLocationListSize : ℕ
deriving DecidableEq, Repr

/-- `devices` are the valid device handles. -/
structure State where
  adapter : Adapter
  dmaSegmentVa : Bool
  dmaSegmentPhys : Word
  devices : List ℕ
  contextCount : ℕ → ℤ
  contexts : List Context

def contextInfo (system : Bool) : ContextInfo where
  dmaBufferSize := 4096
  dmaBufferSegmentSet := 1 <<< (segmentIdSysmem - 1)
  dmaBufferPrivateDataSize := if system then 0 else sizeofBltDesc
  noPatchingRequired := true
  allocationListSize := if system then 0 else 64
  patchLocationListSize := if system then 0 else 128

/-- `reply` is where the pool puts the context. -/
def createContext (s : State) (hDevice : ℕ) (pCreateContext : Option CreateArgs)
    (reply : Option ℕ) : NtStatus × Option (ℕ × ContextInfo) × State :=
  match pCreateContext with
  | none => (.invalidParameter, none, s)
  | some args =>
    if hDevice ∉ s.devices then (.invalidHandle, none, s)
    else if args.systemContext = false ∧ args.nodeOrdinal > 1 then (.invalidParameter, none, s)
    else
      match reply with
      | none => (.insufficientResources, none, s)
      | some ctx =>
        let c : Context :=
          { handle := ctx
            ownerDevice := hDevice
            hRtContext := args.hContext
            nodeOrdinal := args.nodeOrdinal
            engineAffinity := args.engineAffinity
            flags := args.flags }
        (.success, some (ctx, contextInfo args.systemContext), { s with
          contextCount := Function.update s.contextCount hDevice (s.contextCount hDevice + 1)
          contexts := s.contexts ++ [c] })

/-- The address of a segment and an offset in it; any other segment means to unbind. -/
def rootPtPa (dmaSegmentVa : Bool) (dmaSegmentPhys : Word) (segmentId : ℕ)
    (segmentOffset : Word) : Word :=
  if segmentId = segmentIdSysmem ∧ dmaSegmentVa = true then dmaSegmentPhys + segmentOffset else 0

def setRootPageTable (s : State) (hContext segmentId : ℕ) (segmentOffset : Word)
    (hw : NtStatus) : State :=
  let root := rootPtPa s.dmaSegmentVa s.dmaSegmentPhys segmentId segmentOffset
  { s with adapter := (bindContextRootPt s.adapter hContext root hw).2.2 }

def findContext (s : State) (hContext : ℕ) : Option Context :=
  s.contexts.find? fun c => c.handle == hContext

def destroyContext (s : State) (hContext : ℕ) : NtStatus × State :=
  match findContext s hContext with
  | none => (.invalidHandle, s)
  | some c =>
    (.success, { s with
      adapter := (unbindContext s.adapter c.hRtContext).2
      contextCount := Function.update s.contextCount c.ownerDevice
        (s.contextCount c.ownerDevice - 1)
      contexts := s.contexts.eraseP fun c => c.handle == hContext })

inductive Label
  | createContext (hDevice : ℕ) (args : Option CreateArgs) (reply : Option ℕ)
  | setRootPageTable (hContext segmentId : ℕ) (segmentOffset : Word) (hw : NtStatus)
  | destroyContext (hContext : ℕ)

def handles (s : State) : List ℕ := s.contexts.map Context.handle

/-- The pool gives free memory, and the graphics kernel names the contexts it has created. -/
def step (s : State) : Label → Option State
  | .createContext dev args reply =>
    if ∃ p ∈ reply, p ∈ handles s then none else some (createContext s dev args reply).2.2
  | .setRootPageTable h seg off hw =>
    if h ∈ handles s then some (setRootPageTable s h seg off hw) else none
  | .destroyContext h => if h ∈ handles s then some (destroyContext s h).2 else none

def boundContext (b : AsBinding) : Option ℕ := if b.bound then some b.hContext else none

/-- The context that a slot is bound to. -/
def owner (a : Adapter) (i : ℕ) : Option ℕ := boundContext (a.asBindings i)

/-- A context that is bound is known to the runtime by its own handle when it goes, and a new
root of a context that is bound already is enabled. -/
def guard (s : State) : Label → Prop
  | .createContext .. => True
  | .setRootPageTable h seg off hw =>
    let root := rootPtPa s.dmaSegmentVa s.dmaSegmentPhys seg off
    s.adapter.gpuRegsMapped = true → root ≠ 0 → root &&& 0xFFF = 0 →
      findAsForContext s.adapter h < asSlotMax → hw = .success
  | .destroyContext h =>
    findAsForContext s.adapter h < asSlotMax → ∀ c ∈ findContext s h, c.hRtContext = h

/-- After the end of a context no slot is bound to it, and after the last one all are free. -/
def Ends (_ : State) (l : Label) (t : State) : Prop :=
  (∀ h, l = .destroyContext h → ∀ i < asSlotMax, owner t.adapter i ≠ some h) ∧
    (t.contexts = [] → ∀ i, 2 ≤ i → i < asSlotMax →
      t.adapter.inUse i = false ∧ owner t.adapter i = none)

section Owners

variable (a : Adapter) (h : ℕ)

theorem owner_eq_some {i k : ℕ} : owner a i = some k ↔
    a.bound i = true ∧ (a.asBindings i).hContext = k := by
  simp [owner, boundContext, Adapter.bound]

theorem owner_eq_none {i : ℕ} : owner a i = none ↔ a.bound i = false := by
  simp [owner, boundContext, Adapter.bound]

theorem owner_find (hf : findAsForContext a h < asSlotMax) :
    owner a (findAsForContext a h) = some h := by
  have hspec := firstSlot_spec _ hf
  rw [Bool.and_eq_true, beq_iff_eq] at hspec
  exact (owner_eq_some a).mpr hspec

theorem owner_ne_of_not_find (hf : ¬findAsForContext a h < asSlotMax) {i : ℕ}
    (hi : i < asSlotMax) : owner a i ≠ some h := by
  have hnone := firstSlot_none _ hf i hi
  rw [Ne, owner_eq_some]
  rintro ⟨hb, hc⟩
  rw [Adapter.bound] at hb
  simp [hb, hc] at hnone

theorem owner_setBinding (i j : ℕ) (b : AsBinding) : owner (a.setBinding i b) j =
    if j = i then boundContext b else owner a j := by
  by_cases hij : j = i
  · simp [owner, Adapter.setBinding, hij]
  · simp [owner, Adapter.setBinding, hij]

theorem owner_drop (i j : ℕ) : owner (drop a i) j = if j = i then none else owner a j :=
  owner_setBinding a i j .zero

theorem owner_enter (i j : ℕ) (root : Word) : owner (enter a i h root) j =
    if j = i then some h else owner a j :=
  owner_setBinding a i j ⟨h, root, true⟩

/-- What an unbind leaves: no slot of that handle, and the others as they were. -/
theorem owner_unbind (hu : ∀ i < asSlotMax, ∀ j < asSlotMax, owner a i = some h →
    owner a j = some h → i = j) {j : ℕ} (hj : j < asSlotMax) :
    owner (unbindContext a h).2 j = if owner a j = some h then none else owner a j := by
  rcases unbind_cases a h with ⟨hf, heq⟩ | ⟨hf, heq⟩
  · rw [heq, if_neg (owner_ne_of_not_find a h hf hj)]
  · have hdrop : owner (unbindContext a h).2 j = owner (drop a (findAsForContext a h)) j := by
      rcases heq with heq | heq
      · rw [heq]
      · rw [heq]
        rfl
    rw [hdrop, owner_drop]
    by_cases hjf : j = findAsForContext a h
    · rw [if_pos hjf, hjf, if_pos (owner_find a h hf)]
    · rw [if_neg hjf, if_neg fun ho => hjf (hu j hj _ hf ho (owner_find a h hf))]

end Owners

/-- A slot is used exactly when it is bound, to a context that lives, and by one slot each. -/
structure Tidy (a : Adapter) (live : List ℕ) : Prop where
  slots : AsSlotsInvariant.Inv ⟨a, []⟩
  unique : ∀ h, ∀ i < asSlotMax, ∀ j < asSlotMax, owner a i = some h → owner a j = some h → i = j
  lives : ∀ h, ∀ i < asSlotMax, owner a i = some h → h ∈ live

section Steps

variable {a : Adapter} {live : List ℕ} {h : ℕ}

theorem Tidy.free (T : Tidy a []) {i : ℕ} (h2 : 2 ≤ i) (hi : i < asSlotMax) :
    a.inUse i = false ∧ owner a i = none := by
  have hown := T.slots.accounted.owned i h2 hi
  have hnone : owner a i = none := by
    cases ho : owner a i with
    | none => rfl
    | some h => exact absurd (T.lives h i hi ho) List.not_mem_nil
  rw [AsSlotsInvariant.State.leases, (owner_eq_none a).mp hnone] at hown
  exact ⟨by simpa using hown, hnone⟩

theorem Tidy.unbind (T : Tidy a live) (h : ℕ) : Tidy (unbindContext a h).2 live ∧
    ∀ i < asSlotMax, owner (unbindContext a h).2 i ≠ some h := by
  have howner {j : ℕ} (hj : j < asSlotMax) := owner_unbind a h (T.unique h) hj
  have hback {j k : ℕ} (hj : j < asSlotMax) (ho : owner (unbindContext a h).2 j = some k) :
      owner a j = some k := by
    rw [howner hj] at ho
    split at ho
    · cases ho
    · exact ho
  refine ⟨⟨T.slots.unbind h fun _ => List.not_mem_nil, fun k i hi j hj hik hjk =>
    T.unique k i hi j hj (hback hi hik) (hback hj hjk), fun k i hi ho =>
    T.lives k i hi (hback hi ho)⟩, fun i hi ho => ?_⟩
  have hgone := howner hi
  rw [if_pos (hback hi ho), ho] at hgone
  cases hgone

theorem Tidy.enter (T : Tidy a live) (hl : h ∈ live) {a' : Adapter} {i : ℕ}
    (hs : AsSlotsInvariant.Inv ⟨a', []⟩)
    (ho : ∀ j, owner a' j = if j = i then some h else owner a j)
    (hn : ∀ j < asSlotMax, owner a j = some h → j = i) : Tidy a' live := by
  refine ⟨hs, fun k j hj j' hj' hjk hjk' => ?_, fun k j hj hk => ?_⟩
  · rw [ho] at hjk hjk'
    by_cases hji : j = i <;> by_cases hji' : j' = i
    · exact hji.trans hji'.symm
    · rw [if_pos hji] at hjk
      rw [if_neg hji'] at hjk'
      exact absurd (hn j' hj' (hjk'.trans hjk.symm)) hji'
    · rw [if_neg hji] at hjk
      rw [if_pos hji'] at hjk'
      exact absurd (hn j hj (hjk.trans hjk'.symm)) hji
    · rw [if_neg hji] at hjk
      rw [if_neg hji'] at hjk'
      exact T.unique k j hj j' hj' hjk hjk'
  · rw [ho] at hk
    split at hk
    · exact Option.some.inj hk ▸ hl
    · exact T.lives k j hj hk

theorem Tidy.bind (T : Tidy a live) (hl : h ∈ live) (root : Word) (hw : NtStatus)
    (hg : a.gpuRegsMapped = true → root ≠ 0 → root &&& 0xFFF = 0 →
      findAsForContext a h < asSlotMax → hw = .success) :
    Tidy (bindContextRootPt a h root hw).2.2 live := by
  have hslots : AsSlotsInvariant.Inv ⟨(bindContextRootPt a h root hw).2.2, []⟩ :=
    T.slots.bind h root hw fun hregs hf =>
      ⟨fun _ => List.not_mem_nil, fun hne hal => .inl (hg hregs hne hal hf)⟩
  generalize hr : (bindContextRootPt a h root hw).2.2 = r at hslots
  have O := bind_cases a h root hw
  rw [hr] at O
  cases O with
  | refused => exact T
  | unbound regs zero => exact (T.unbind h).1
  | rebound regs nonzero aligned found ok =>
    exact T.enter hl hslots (fun j => owner_enter a h _ j root)
      fun j hj ho => T.unique h j hj _ found ho (owner_find a h found)
  | rebindFailed regs nonzero aligned found failed =>
    exact absurd (hg regs nonzero aligned found) failed
  | bound fresh free ok =>
    exact T.enter hl hslots (fun j => owner_enter (a.take (pickFreeAs a)) h _ j root)
      fun j hj ho => absurd ho (owner_ne_of_not_find a h fresh hj)
  | bindFailed fresh free =>
    -- the slot was not bound before, and it is not bound after
    have hfree := (owner_eq_none a).mpr (T.slots.pick_unowned free).1
    have howner : owner (drop (AsSlots.enter (a.take (pickFreeAs a)) (pickFreeAs a) h root)
        (pickFreeAs a)) = owner a := by
      funext j
      rw [owner_drop, owner_enter]
      by_cases hj : j = pickFreeAs a
      · rw [if_pos hj, hj, hfree]
      · rw [if_neg hj, if_neg hj]
        rfl
    exact ⟨hslots, howner ▸ T.unique, howner ▸ T.lives⟩

theorem Tidy.more (T : Tidy a live) (new : List ℕ) : Tidy a (live ++ new) :=
  ⟨T.slots, T.unique, fun k i hi ho => List.mem_append_left _ (T.lives k i hi ho)⟩

/-- The adapter after the end of context `h`, which the runtime knows as `rt`. -/
theorem Tidy.destroy (T : Tidy a live) {rt : ℕ}
    (hg : findAsForContext a h < asSlotMax → rt = h) :
    ∀ i < asSlotMax, owner (unbindContext a rt).2 i ≠ some h := by
  by_cases hf : findAsForContext a h < asSlotMax
  · rw [hg hf]
    exact (T.unbind h).2
  · intro i hi
    rw [owner_unbind a rt (T.unique rt) hi]
    split
    · simp
    · exact owner_ne_of_not_find a h hf hi

end Steps

structure Inv (s : State) : Prop where
  tidy : Tidy s.adapter (handles s)
  nodup : (handles s).Nodup

/-- The first driver start. -/
def start (a : Adapter) (dmaSegmentVa : Bool) (dmaSegmentPhys : Word) (devices : List ℕ) :
    State where
  adapter := initAsAllocator a
  dmaSegmentVa := dmaSegmentVa
  dmaSegmentPhys := dmaSegmentPhys
  devices := devices
  contextCount := fun _ => 0
  contexts := []

theorem start_inv (a : Adapter) (va : Bool) (phys : Word) (devices : List ℕ) :
    Inv (start a va phys devices) :=
  ⟨⟨AsSlotsInvariant.start_inv a, fun _ _ _ _ _ ho _ => (nomatch ho), fun _ _ _ ho => nomatch ho⟩,
    List.nodup_nil⟩

theorem createContext_handles (s : State) (hDevice : ℕ) (args : Option CreateArgs)
    (reply : Option ℕ) : (createContext s hDevice args reply).2.2.adapter = s.adapter ∧
      ∃ new, handles (createContext s hDevice args reply).2.2 = handles s ++ new ∧
        (new = [] ∨ ∃ p ∈ reply, new = [p]) := by
  have hsame : ∃ new, handles s = handles s ++ new ∧ (new = [] ∨ ∃ p ∈ reply, new = [p]) :=
    ⟨[], by simp, .inl rfl⟩
  unfold createContext
  split
  · exact ⟨rfl, hsame⟩
  · split
    · exact ⟨rfl, hsame⟩
    · split
      · exact ⟨rfl, hsame⟩
      · split
        · exact ⟨rfl, hsame⟩
        · exact ⟨rfl, _, by simp [handles], .inr ⟨_, rfl, rfl⟩⟩

theorem findContext_spec {s : State} {h : ℕ} (hl : h ∈ handles s) : ∃ c,
    findContext s h = some c ∧ c.handle = h ∧ (handles s).Perm
      (h :: (s.contexts.eraseP fun c => c.handle == h).map Context.handle) := by
  obtain ⟨c', hc', rfl⟩ := List.mem_map.mp hl
  obtain ⟨c, hc⟩ : ∃ c, findContext s c'.handle = some c :=
    Option.isSome_iff_exists.mp (List.find?_isSome.mpr ⟨c', hc', by simp⟩)
  have hh : c.handle = c'.handle := by simpa using List.find?_some hc
  refine ⟨c, hc, hh, ?_⟩
  rw [← hh]
  rw [← hh] at hc
  exact (ThreadPools.perm_cons_eraseP hc).map Context.handle

theorem step_inv (s : State) (l : Label) (t : State) (I : Inv s) (hg : guard s l)
    (hs : step s l = some t) : Inv t := by
  cases l with
  | createContext dev args reply =>
    simp only [step] at hs
    split at hs
    · cases hs
    · rename_i hfresh
      obtain rfl := Option.some.inj hs
      obtain ⟨ha, new, hnew, hcase⟩ := createContext_handles s dev args reply
      refine ⟨by rw [ha, hnew]; exact I.tidy.more new, ?_⟩
      rw [hnew]
      rcases hcase with rfl | ⟨p, hp, rfl⟩
      · simpa using I.nodup
      · refine List.nodup_append.mpr ⟨I.nodup, List.nodup_singleton p, fun x hx y hy hxy => ?_⟩
        exact hfresh ⟨p, hp, List.mem_singleton.mp hy ▸ hxy ▸ hx⟩
  | setRootPageTable h seg off hw =>
    simp only [step] at hs
    split at hs
    · rename_i hl
      obtain rfl := Option.some.inj hs
      exact ⟨I.tidy.bind hl _ hw hg, I.nodup⟩
    · cases hs
  | destroyContext h =>
    simp only [step] at hs
    split at hs
    · rename_i hl
      obtain rfl := Option.some.inj hs
      obtain ⟨c, hc, rfl, hperm⟩ := findContext_spec hl
      have hgone := I.tidy.destroy fun hf => hg hf c hc
      have T := (I.tidy.unbind c.hRtContext).1
      simp only [destroyContext, hc]
      refine ⟨⟨T.slots, T.unique, fun k i hi ho => ?_⟩, ?_⟩
      · refine ((hperm.subset (T.lives k i hi ho)) |> List.mem_cons.mp).resolve_left ?_
        rintro rfl
        exact hgone i hi ho
      · exact (hperm.nodup_iff.mp I.nodup).of_cons
    · cases hs

theorem step_ends (s : State) (l : Label) (t : State) (I : Inv s) (hg : guard s l)
    (hs : step s l = some t) : Ends s l t := by
  refine ⟨?_, fun hempty i h2 hi => ?_⟩
  · rintro h rfl
    simp only [step] at hs
    split at hs
    · rename_i hl
      obtain rfl := Option.some.inj hs
      obtain ⟨c, hc, rfl, -⟩ := findContext_spec hl
      simp only [destroyContext, hc]
      exact I.tidy.destroy fun hf => hg hf c hc
    · cases hs
  · have T := (step_inv s l t I hg hs).tidy
    rw [handles, hempty] at T
    exact T.free h2 hi

theorem slots_end_with_contexts (a : Adapter) (dmaSegmentVa : Bool) (dmaSegmentPhys : Word)
    (devices : List ℕ) (ls : List Label)
    (hg : Guarded step guard (start a dmaSegmentVa dmaSegmentPhys devices) ls) :
    Always step Ends (start a dmaSegmentVa dmaSegmentPhys devices) ls :=
  always_of_guarded step_inv step_ends (start_inv a dmaSegmentVa dmaSegmentPhys devices) hg

/-- A context that is unbound before its end, and one that never had a root. -/
def unboundFirst : List Label :=
  [.createContext 5 (some ⟨0x77, 0, 1, 0⟩) (some 0x1000),
    .createContext 5 (some ⟨0x78, 0x7FFF, 1, 1⟩) (some 0x2000),
    .setRootPageTable 0x1000 1 0x3000 .success, .setRootPageTable 0x1000 0 0 .success,
    .destroyContext 0x1000, .destroyContext 0x2000]

def firstAdapter : Adapter := ⟨0xFF, true, 0, 0, fun _ => .zero, []⟩

instance (s : State) : (l : Label) → Decidable (guard s l)
  | .createContext .. => isTrue trivial
  | .setRootPageTable .. => inferInstanceAs (Decidable (_ → _))
  | .destroyContext _ => inferInstanceAs (Decidable (_ → _))

theorem unboundFirst_ends :
    Always step Ends (start firstAdapter true 0x80000000 [5]) unboundFirst :=
  slots_end_with_contexts _ _ _ _ _ (by decide)

/-- The runtime handle is not the handle of the context, so the slot is never found again. -/
theorem destroy_misses_slot : ¬Always step Ends (start firstAdapter true 0x80000000 [5])
    [.createContext 5 (some ⟨0x77, 0, 1, 0⟩) (some 0x1000),
      .setRootPageTable 0x1000 1 0x3000 .success, .destroyContext 0x1000] := by
  intro h
  have hlast := (((h _ rfl).2 _ rfl).2 _ rfl).1
  exact hlast.1 0x1000 rfl 2 (by decide) (by decide)

end WinMali.ContextSlots
