import WinMaliKmd.EscapeBounds
import WinMaliKmd.Runs

/-!
# The fault state of a group

A stream that fails is recorded in the group's mask of faulted queues. User mode
learns of it from `GroupGetState`, and `GroupSubmit` looks at the state flags to turn
away a group that has faulted.
-/

set_option autoImplicit false

namespace WinMali.GroupFaults
open WinMali.AsSlots WinMali.BoTable WinMali.EscapeBuffer WinMali.EscapeHandlers
  WinMali.EscapeBounds WinMali.Runs

def groupStateFatalFault : BitVec 32 := (1 : BitVec 32) <<< 1

structure Group where
  handle : BitVec 32
  vmId : BitVec 32
  queuesCount : BitVec 32
  stateFlags : BitVec 32
  fatalQueueMask : BitVec 32
deriving DecidableEq, Repr

structure GroupTable where
  nextHandle : BitVec 32
  groups : List Group

def groupTableInit : GroupTable := ⟨1, []⟩

def GroupTable.find (t : GroupTable) (handle : BitVec 32) : Option Group :=
  t.groups.find? (·.handle == handle)

/-- `allocated` says whether the pool has room for the group. The second result is the handle. -/
def groupCreate (t : GroupTable) (vmId queueCount : BitVec 32) (allocated : Bool) :
    Errno × BitVec 32 × GroupTable :=
  if queueCount = 0 ∨ queueCount.toNat > groupMaxQueues then (.einval, 0, t)
  else if vmId = 0 then (.einval, 0, t)
  else if !allocated then (.enomem, 0, t)
  else
    (.ok, t.nextHandle, ⟨t.nextHandle + 1, t.groups ++ [⟨t.nextHandle, vmId, queueCount, 0, 0⟩]⟩)

def groupGetState (t : GroupTable) (handle : BitVec 32) : Except Errno (BitVec 32 × BitVec 32) :=
  match t.find handle with
  | none => .error .enoent
  | some g => .ok (g.stateFlags, g.fatalQueueMask)

def queueBit (queueIndex : BitVec 32) : BitVec 32 :=
  (1 : BitVec 32) <<< (queueIndex &&& 0x1F).toNat

def markGroups (handle queueIndex : BitVec 32) : List Group → Errno × List Group
  | [] => (.enoent, [])
  | g :: gs =>
    if g.handle = handle then
      (.ok, { g with fatalQueueMask := g.fatalQueueMask ||| queueBit queueIndex } :: gs)
    else ((markGroups handle queueIndex gs).1, g :: (markGroups handle queueIndex gs).2)

def groupMarkFatalQueue (t : GroupTable) (handle queueIndex : BitVec 32) : Errno × GroupTable :=
  ((markGroups handle queueIndex t.groups).1,
    { t with groups := (markGroups handle queueIndex t.groups).2 })

structure Stream where
  queueIndex : BitVec 32
  status : NtStatus
deriving DecidableEq, Repr

variable (b : Buffer) (k : Kernel)

/-- The stream of a submit is run: nothing before it in the loop's body ends the loop. -/
structure StreamRuns (i : ℕ) (qs : QueueSubmit) : Prop where
  range : syncsRefused b qs = false
  waits : ∀ m < qs.syncsCount.toNat, WaitPasses b k i qs m
  slot : k.groupAsSlot i < asSlotMax
  addr : qs.streamAddr ≠ 0
  size : qs.streamSize ≠ 0

def turnStream (i o : ℕ) (err : Errno) : Option Stream :=
  let qs := queueSubmitAt b o
  if syncsRefused b qs then none
  else if qs.syncsCount ≠ 0 ∧ (syncPass b qs (k.syncWait i) false err).1 ≠ .ok then none
  else if k.groupAsSlot i ≥ asSlotMax ∨ qs.streamAddr = 0 ∨ qs.streamSize = 0 then none
  else some ⟨b.u32 o, k.submitGroupStream i⟩

def markFailed (handle : BitVec 32) (t : GroupTable) (s : Stream) : GroupTable :=
  if s.status.ok then t else (groupMarkFatalQueue t handle s.queueIndex).2

/-- The loop of `GroupSubmit` with what it does to the group, and the streams that it runs. -/
def submitStreams (handle : BitVec 32) (submits : ℕ) :
    ℕ → ℕ → Errno → GroupTable → GroupTable × List Stream
  | _, 0, _, t => (t, [])
  | i, left + 1, err, t =>
    let o := submits + queueSubmitBytes * i
    let turn := queueSubmit b k i (queueSubmitAt b o) err
    let ran := (turnStream b k i o err).toList
    let t := ran.foldl (markFailed handle) t
    let rest := if turn.1 then submitStreams handle submits (i + 1) left turn.2.1 t else (t, [])
    (rest.1, ran ++ rest.2)

def escapeGroupSubmit (t : GroupTable) : Errno × GroupTable × List Stream :=
  match escapeAt b (ulong escapeHeaderSize) (ulong 24) with
  | none => (.einval, t, [])
  | some args =>
    let queueSubmitsCount := b.u32 (args + 4)
    if queueSubmitsCount = 0 then (.ok, t, [])
    else
      match escapeAt b (b.u32 (args + 8))
        (ulong (queueSubmitsCount.toNat * queueSubmitBytes)) with
      | none => (.einval, t, [])
      | some submits =>
        match groupGetState t (b.u32 args) with
        | .error e => (e, t, [])
        | .ok (sf, _) =>
          if sf &&& groupStateFatalFault ≠ 0 then (.einval, t, [])
          else
            ((submitLoop b k submits 0 queueSubmitsCount.toNat .ok).1,
              submitStreams b k (b.u32 args) submits 0 queueSubmitsCount.toNat .ok t)

def GroupTable.fatal (t : GroupTable) (handle : BitVec 32) : Option Bool :=
  (t.find handle).map fun g => g.stateFlags &&& groupStateFatalFault != 0

theorem submitLoop_group (group : BitVec 32 → Option Bool) (submits i left : ℕ) (err : Errno) :
    submitLoop b { k with group := group } submits i left err =
      submitLoop b k submits i left err := by
  induction left generalizing i err with
  | zero => rfl
  | succ left ih =>
    simp only [submitLoop, ih]
    rfl

/-- The handler is the one of the escape dispatcher, with the answer of this table. -/
theorem escapeGroupSubmit_errno (t : GroupTable) :
    (escapeGroupSubmit b k t).1 =
      (EscapeHandlers.escapeGroupSubmit b { k with group := t.fatal }).1 := by
  unfold escapeGroupSubmit EscapeHandlers.escapeGroupSubmit withArgs
  cases escapeAt b (ulong escapeHeaderSize) (ulong 24) with
  | none => rfl
  | some args =>
    dsimp only
    by_cases hz : b.u32 (args + 4) = 0
    · simp [hz]
    rw [if_neg hz, if_neg hz]
    cases escapeAt b (b.u32 (args + 8)) (ulong ((b.u32 (args + 4)).toNat * queueSubmitBytes)) with
    | none => rfl
    | some submits =>
      cases hfind : t.find (b.u32 args) with
      | none => simp [groupGetState, GroupTable.fatal, hfind]
      | some g =>
        simp only [groupGetState, GroupTable.fatal, hfind, Option.map_some, bne_iff_ne]
        split
        · rfl
        · exact (congrArg Prod.fst (submitLoop_group b k _ _ _ _ _)).symm

/-- `ran` holds every stream that was run, with the handle of its group. -/
structure Device where
  table : GroupTable
  ran : List (BitVec 32 × Stream)

inductive Op
  | create (vmId queueCount : BitVec 32) (allocated : Bool)
  | submit (b : Buffer) (k : Kernel)
  | getState (handle : BitVec 32)

def submitHandle : BitVec 32 := b.u32 argsOffset

def Op.apply (d : Device) : Op → Device
  | .create vmId queueCount allocated =>
    { d with table := (groupCreate d.table vmId queueCount allocated).2.2 }
  | .submit b k =>
    let (_, table, streams) := escapeGroupSubmit b k d.table
    ⟨table, d.ran ++ streams.map fun s => (submitHandle b, s)⟩
  | .getState _ => d

def step (d : Device) (op : Op) : Option Device := some (op.apply d)

def start : Device := ⟨groupTableInit, []⟩

/-- A stream that was submitted on this queue of the group has failed. -/
def FailedOn (d : Device) (handle : BitVec 32) (queue : ℕ) : Prop :=
  ∃ s, (handle, s) ∈ d.ran ∧ s.status.ok = false ∧ s.queueIndex.toNat = queue

def Faulted (d : Device) (handle : BitVec 32) (g : Group) : Prop :=
  ∃ queue < g.queuesCount.toNat, FailedOn d handle queue

/-- What user mode is to be told of the groups. -/
structure Reported (d : Device) : Prop where
  mask : ∀ handle g, d.table.find handle = some g → ∀ queue < 32,
    g.fatalQueueMask.getLsbD queue = true ↔
      queue < g.queuesCount.toNat ∧ FailedOn d handle queue
  state : ∀ handle g, d.table.find handle = some g → Faulted d handle g →
    ∃ st, groupGetState d.table handle = .ok st ∧ st.1 &&& groupStateFatalFault ≠ 0
  rejected : ∀ handle g, d.table.find handle = some g → Faulted d handle g →
    ∀ b k, submitHandle b = handle → b.u32 (argsOffset + 4) ≠ 0 →
      (escapeGroupSubmit b k d.table).1 ≠ .ok ∧ (escapeGroupSubmit b k d.table).2.2 = []

def Clean (d : Device) : Op → Prop
  | .submit b k =>
    ArgsFit b 24 → (d.table.find (submitHandle b)).isSome →
      escapeRangeOk b (b.u32 (argsOffset + 8))
        (ulong ((b.u32 (argsOffset + 4)).toNat * queueSubmitBytes)) = true →
      Walk (fun i => SubmitPasses b k i (submitAt b (b.u32 (argsOffset + 8)).toNat i))
        (fun i => StreamRuns b k i (submitAt b (b.u32 (argsOffset + 8)).toNat i) →
          (k.submitGroupStream i).ok = true) 0 (b.u32 (argsOffset + 4)).toNat
  | _ => True

section Marks

variable {t : GroupTable} {handle h queueIndex : BitVec 32} {g : Group}

theorem queueBit_getLsbD (queueIndex : BitVec 32) (q : ℕ) :
    (queueBit queueIndex).getLsbD q = true ↔ queueIndex.toNat % 32 = q := by
  have hlow : (queueIndex &&& 0x1F).toNat = queueIndex.toNat % 32 := by
    have h : (0x1F : BitVec 32).toNat = 2 ^ 5 - 1 := by decide
    rw [BitVec.toNat_and, h, Nat.and_two_pow_sub_one_eq_mod]
  unfold queueBit
  rw [hlow]
  simp only [BitVec.ofNat_eq_ofNat, BitVec.getLsbD_shiftLeft, BitVec.getLsbD_one,
    Bool.and_eq_true, Bool.not_eq_true', decide_eq_true_eq, decide_eq_false_iff_not]
  omega

theorem mark_find (t : GroupTable) (handle queueIndex h : BitVec 32) :
    (groupMarkFatalQueue t handle queueIndex).2.find h =
      (t.find h).map fun g =>
        if h = handle then { g with fatalQueueMask := g.fatalQueueMask ||| queueBit queueIndex }
        else g := by
  unfold groupMarkFatalQueue GroupTable.find
  induction t.groups with
  | nil => rfl
  | cons g gs ih =>
    unfold markGroups
    by_cases hg : g.handle = handle
    · rw [if_pos hg]
      by_cases hh : h = handle
      · simp [hg, hh]
      · have hne : (g.handle == h) = false := by
          rw [hg]
          exact beq_false_of_ne (Ne.symm hh)
        simp [hne, hh]
    · rw [if_neg hg]
      by_cases hgh : g.handle = h
      · have hh : h ≠ handle := fun he => hg (hgh.trans he)
        simp [hgh, hh]
      · have hne : (g.handle == h) = false := beq_false_of_ne hgh
        simpa [List.find?_cons, hne] using ih

end Marks

/-- What holds of the groups whatever fails: the flags stay clear, and the mask has the bits of
the failed queues' numbers modulo 32. -/
structure Inv (d : Device) : Prop where
  flags : ∀ handle g, d.table.find handle = some g → g.stateFlags = 0
  folded : ∀ handle g, d.table.find handle = some g → ∀ q < 32,
    g.fatalQueueMask.getLsbD q = true ↔
      ∃ s, (handle, s) ∈ d.ran ∧ s.status.ok = false ∧ s.queueIndex.toNat % 32 = q
  known : ∀ handle s, (handle, s) ∈ d.ran → (d.table.find handle).isSome

def AllOk (d : Device) : Prop := ∀ handle s, (handle, s) ∈ d.ran → s.status.ok = true

section Invariant

variable {d : Device} {handle : BitVec 32}

theorem start_inv : Inv start where
  flags := by simp [start, groupTableInit, GroupTable.find]
  folded := by simp [start, groupTableInit, GroupTable.find]
  known := by simp [start]

theorem create_find (t : GroupTable) (vmId queueCount : BitVec 32) (allocated : Bool)
    (h : BitVec 32) :
    (groupCreate t vmId queueCount allocated).2.2.find h = t.find h ∨
    (t.find h = none ∧ ∃ g, (groupCreate t vmId queueCount allocated).2.2.find h = some g ∧
      g.stateFlags = 0 ∧ g.fatalQueueMask = 0) := by
  unfold groupCreate
  split
  · exact .inl rfl
  split
  · exact .inl rfl
  split
  · exact .inl rfl
  · unfold GroupTable.find
    simp only [List.find?_append]
    cases hfind : t.groups.find? (·.handle == h) with
    | some g => exact .inl rfl
    | none =>
      by_cases hh : t.nextHandle = h
      · exact .inr ⟨rfl, ⟨h, vmId, queueCount, 0, 0⟩, by simp [hh], rfl, rfl⟩
      · left
        simp [hh]

theorem create_inv (I : Inv d) (vmId queueCount : BitVec 32) (allocated : Bool) :
    Inv (Op.apply d (.create vmId queueCount allocated)) := by
  have hfind := create_find d.table vmId queueCount allocated
  constructor
  · intro handle g hg
    rcases hfind handle with heq | ⟨-, g', hg', hflags, -⟩
    · exact I.flags handle g (heq ▸ hg)
    · obtain rfl := Option.some.inj (hg'.symm.trans hg)
      exact hflags
  · intro handle g hg q hq
    rcases hfind handle with heq | ⟨hnone, g', hg', -, hmask⟩
    · exact I.folded handle g (heq ▸ hg) q hq
    · obtain rfl := Option.some.inj (hg'.symm.trans hg)
      -- nothing was run for a handle that named no group
      refine iff_of_false (by simp [hmask]) ?_
      rintro ⟨s, hs, -⟩
      have := I.known handle s hs
      simp [hnone] at this
  · intro handle s hs
    have hsome := I.known handle s hs
    rcases hfind handle with heq | ⟨hnone, -⟩
    · exact heq ▸ hsome
    · simp [hnone] at hsome

/-- A stream was run for a group, and its failure is marked. -/
def Device.log (d : Device) (handle : BitVec 32) (s : Stream) : Device :=
  ⟨markFailed handle d.table s, d.ran ++ [(handle, s)]⟩

theorem log_ran (d : Device) (handle h : BitVec 32) (s : Stream) (P : Stream → Prop) :
    (∃ s', (h, s') ∈ (d.log handle s).ran ∧ P s') ↔
      (∃ s', (h, s') ∈ d.ran ∧ P s') ∨ (h = handle ∧ P s) := by
  constructor
  · rintro ⟨s', hs', hP⟩
    rcases List.mem_append.mp hs' with hs' | hs'
    · exact .inl ⟨s', hs', hP⟩
    · obtain ⟨rfl, rfl⟩ := Prod.mk.inj (List.mem_singleton.mp hs')
      exact .inr ⟨rfl, hP⟩
  · rintro (⟨s', hs', hP⟩ | ⟨rfl, hP⟩)
    · exact ⟨s', List.mem_append_left _ hs', hP⟩
    · exact ⟨s, List.mem_append_right _ (List.mem_singleton_self _), hP⟩

theorem log_find_isSome (d : Device) (handle h : BitVec 32) (s : Stream) :
    ((d.log handle s).table.find h).isSome = (d.table.find h).isSome := by
  change ((markFailed handle d.table s).find h).isSome = _
  unfold markFailed
  split
  · rfl
  · rw [mark_find, Option.isSome_map]

theorem log_inv (I : Inv d) (hsome : (d.table.find handle).isSome) (s : Stream) :
    Inv (d.log handle s) ∧ ((d.log handle s).table.find handle).isSome := by
  have hknown : ∀ h s', (h, s') ∈ (d.log handle s).ran →
      ((d.log handle s).table.find h).isSome := by
    intro h s' hs'
    rw [log_find_isSome]
    rcases (log_ran d handle h s (· = s')).mp ⟨s', hs', rfl⟩ with ⟨s₀, hs₀, -⟩ | ⟨rfl, -⟩
    · exact I.known h s₀ hs₀
    · exact hsome
  cases hok : s.status.ok with
  | true =>
    have htable : (d.log handle s).table = d.table := if_pos hok
    refine ⟨⟨?_, ?_, hknown⟩, by rwa [htable]⟩
    · rw [htable]
      exact I.flags
    · rw [htable]
      intro h g hg q hq
      rw [I.folded h g hg q hq, log_ran]
      exact (or_iff_left fun hs => by simp [hok] at hs).symm
  | false =>
    have htable : (d.log handle s).table = (groupMarkFatalQueue d.table handle s.queueIndex).2 :=
      if_neg (by simp [hok])
    have hfind := mark_find d.table handle s.queueIndex
    refine ⟨⟨?_, ?_, hknown⟩, by rwa [log_find_isSome]⟩
    · intro h g hg
      rw [htable, hfind, Option.map_eq_some_iff] at hg
      obtain ⟨g', hg', rfl⟩ := hg
      split
      · exact I.flags h g' hg'
      · exact I.flags h g' hg'
    · intro h g hg q hq
      rw [htable, hfind, Option.map_eq_some_iff] at hg
      obtain ⟨g', hg', rfl⟩ := hg
      have hbefore := I.folded h g' hg' q hq
      rw [log_ran]
      by_cases hh : h = handle
      · rw [if_pos hh, BitVec.getLsbD_or, Bool.or_eq_true, hbefore, queueBit_getLsbD]
        exact or_congr_right ⟨fun hbit => ⟨hh, hok, hbit⟩, fun hs => hs.2.2⟩
      · rw [if_neg hh, hbefore]
        exact (or_iff_left fun hs => hh hs.1).symm

theorem submitStreams_logs (b : Buffer) (k : Kernel) (handle : BitVec 32) (submits i left : ℕ)
    (err : Errno) (t : GroupTable) (ran : List (BitVec 32 × Stream)) :
    Device.mk (submitStreams b k handle submits i left err t).1
        (ran ++ (submitStreams b k handle submits i left err t).2.map fun s => (handle, s)) =
      (submitStreams b k handle submits i left err t).2.foldl (fun d s => d.log handle s)
        ⟨t, ran⟩ := by
  induction left generalizing i err t ran with
  | zero => simp [submitStreams]
  | succ left ih =>
    have hturn : ∀ o err,
        (turnStream b k i o err).toList.foldl (fun d s => d.log handle s) ⟨t, ran⟩ =
          Device.mk ((turnStream b k i o err).toList.foldl (markFailed handle) t)
            (ran ++ (turnStream b k i o err).toList.map fun s => (handle, s)) := by
      intro o err
      cases turnStream b k i o err with
      | none => simp
      | some s => rfl
    simp only [submitStreams, List.map_append, List.foldl_append, ← List.append_assoc]
    rw [hturn]
    split
    · exact ih _ _ _ _
    · simp

theorem submit_cases (b : Buffer) (k : Kernel) {t : GroupTable}
    (hflags : ∀ handle g, t.find handle = some g → g.stateFlags = 0) :
    (ArgsFit b 24 ∧ (t.find (submitHandle b)).isSome ∧
      escapeRangeOk b (b.u32 (argsOffset + 8))
        (ulong ((b.u32 (argsOffset + 4)).toNat * queueSubmitBytes)) = true ∧
      (escapeGroupSubmit b k t).2 =
        submitStreams b k (submitHandle b) (b.u32 (argsOffset + 8)).toNat 0
          (b.u32 (argsOffset + 4)).toNat .ok t) ∨
    (¬(ArgsFit b 24 ∧ (t.find (submitHandle b)).isSome ∧
      escapeRangeOk b (b.u32 (argsOffset + 8))
        (ulong ((b.u32 (argsOffset + 4)).toNat * queueSubmitBytes)) = true) ∧
      (escapeGroupSubmit b k t).2 = (t, [])) := by
  unfold escapeGroupSubmit submitHandle
  rcases @escapeAt_args b 24 (by decide) (by decide) with
    ⟨hfit, hat⟩ | ⟨hfit, hat⟩
  case inr => exact .inr ⟨fun h => hfit h.1, by rw [hat]⟩
  case inl =>
    simp only [hat]
    cases hfind : t.find (b.u32 argsOffset) with
    | none =>
      refine .inr ⟨fun h => by simp at h, ?_⟩
      split
      · rfl
      split
      · rfl
      · simp [groupGetState, hfind]
    | some g =>
      have hclear : ¬g.stateFlags &&& groupStateFatalFault ≠ 0 := by
        simp [hflags _ g hfind]
      cases hrange : escapeAt b (b.u32 (argsOffset + 8))
          (ulong ((b.u32 (argsOffset + 4)).toNat * queueSubmitBytes)) with
      | none =>
        refine .inr ⟨fun h => ?_, ?_⟩
        · rw [escapeAt_none, Bool.eq_false_iff] at hrange
          exact hrange h.2.2
        · split <;> rfl
      | some submits =>
        obtain ⟨hok, rfl⟩ := escapeAt_some.mp hrange
        refine .inl ⟨hfit, rfl, hok, ?_⟩
        by_cases hz : b.u32 (argsOffset + 4) = 0
        · simp [hz, submitStreams]
        · simp only [if_neg hz, groupGetState, hfind, if_neg hclear]

theorem submit_inv (I : Inv d) (b : Buffer) (k : Kernel) : Inv (Op.apply d (.submit b k)) := by
  have hlogs : ∀ (streams : List Stream) (d : Device), Inv d →
      (d.table.find (submitHandle b)).isSome →
      Inv (streams.foldl (fun d s => d.log (submitHandle b) s) d) := by
    intro streams
    induction streams with
    | nil => exact fun d I _ => I
    | cons s streams ih =>
      intro d I hsome
      obtain ⟨I', hsome'⟩ := log_inv I hsome s
      exact ih _ I' hsome'
  unfold Op.apply
  rcases submit_cases b k I.flags with ⟨-, hsome, -, hloop⟩ | ⟨-, hnothing⟩
  · simp only [hloop, submitStreams_logs]
    exact hlogs _ d I hsome
  · simp only [hnothing, List.map_nil, List.append_nil]
    exact I

theorem apply_inv (I : Inv d) (op : Op) : Inv (op.apply d) := by
  cases op with
  | create vmId queueCount allocated => exact create_inv I vmId queueCount allocated
  | submit b k => exact submit_inv I b k
  | getState handle => exact I

end Invariant

section Streams

variable {b : Buffer} {k : Kernel}

theorem turnStream_some (i o : ℕ) (err : Errno) (s : Stream) :
    turnStream b k i o err = some s ↔
      StreamRuns b k i (queueSubmitAt b o) ∧ s = ⟨b.u32 o, k.submitGroupStream i⟩ := by
  simp only [turnStream]
  cases hrange : syncsRefused b (queueSubmitAt b o) with
  | true => exact iff_of_false (by simp) fun h => by simp [h.1.range] at hrange
  | false =>
    simp only [Bool.false_eq_true, if_false]
    split
    · rename_i hwait
      exact iff_of_false (by simp) fun h => syncPass_wait_ok.mp hwait h.1.waits
    · rename_i hwait
      have hwaits := not_not.mp (mt syncPass_wait_ok.mpr hwait)
      split
      · rename_i hstream
        refine iff_of_false (by simp) fun h => ?_
        rcases hstream with hslot | haddr | hsize
        · exact absurd h.1.slot (by omega)
        · exact h.1.addr haddr
        · exact h.1.size hsize
      · rename_i hstream
        push Not at hstream
        rw [Option.some_inj, eq_comm]
        exact (and_iff_right ⟨hrange, hwaits, hstream.1, hstream.2.1, hstream.2.2⟩).symm

theorem submitStreams_ok (handle : BitVec 32) (submits i left : ℕ) (err : Errno)
    (t : GroupTable) :
    (∀ s ∈ (submitStreams b k handle submits i left err t).2, s.status.ok = true) ↔
      Walk (fun j => SubmitPasses b k j (submitAt b submits j))
        (fun j => StreamRuns b k j (submitAt b submits j) → (k.submitGroupStream j).ok = true)
        i left := by
  induction left generalizing i err t with
  | zero => simp [submitStreams, walk_zero]
  | succ left ih =>
    have hturn : (∀ s ∈ (turnStream b k i (submits + queueSubmitBytes * i) err).toList,
        s.status.ok = true) ↔
          (StreamRuns b k i (submitAt b submits i) → (k.submitGroupStream i).ok = true) := by
      simp only [Option.mem_toList, turnStream_some]
      exact ⟨fun h hruns => h _ ⟨hruns, rfl⟩, fun h s hs => hs.2 ▸ h hs.1⟩
    rw [walk_succ, ← queueSubmit_goes_on i _ err, ← hturn]
    simp only [submitStreams, List.mem_append, or_imp, forall_and]
    refine and_congr_right fun _ => ?_
    split
    · rename_i hon
      rw [ih]
      exact (imp_iff_right hon).symm
    · rename_i hend
      exact iff_of_true (by simp) fun hon => absurd hon hend

end Streams

section Reports

variable {d : Device}

theorem apply_allOk_iff (I : Inv d) (A : AllOk d) (op : Op) : AllOk (op.apply d) ↔ Clean d op := by
  cases op with
  | create vmId queueCount allocated => exact iff_of_true A trivial
  | getState handle => exact iff_of_true A trivial
  | submit b k =>
    simp only [Op.apply, Clean]
    rcases submit_cases b k I.flags with ⟨hfit, hsome, hrange, hloop⟩ | ⟨hno, hnothing⟩
    · rw [imp_iff_right hfit, imp_iff_right hsome, imp_iff_right hrange,
        ← submitStreams_ok (submitHandle b) _ _ _ .ok d.table, ← hloop]
      constructor
      · intro hall s hs
        exact hall (submitHandle b) s (List.mem_append_right _ (List.mem_map.mpr ⟨s, hs, rfl⟩))
      · intro hall handle s hs
        rcases List.mem_append.mp hs with hs | hs
        · exact A handle s hs
        · obtain ⟨s', hs', he⟩ := List.mem_map.mp hs
          obtain ⟨-, rfl⟩ := Prod.mk.inj he
          exact hall s' hs'
    · simp only [hnothing, List.map_nil, List.append_nil]
      exact iff_of_true A fun hfit hsome hrange => absurd ⟨hfit, hsome, hrange⟩ hno

/-- User mode is told what it should be told exactly as long as there is nothing to tell. -/
theorem reported_iff (I : Inv d) : Reported d ↔ AllOk d := by
  constructor
  · intro R handle s hs
    by_contra hok
    obtain ⟨g, hg⟩ := Option.isSome_iff_exists.mp (I.known handle s hs)
    -- the bit that this failure has set is the bit of a queue, which has then failed
    have hbit : g.fatalQueueMask.getLsbD (s.queueIndex.toNat % 32) = true :=
      (I.folded handle g hg _ (Nat.mod_lt _ (by decide))).mpr
        ⟨s, hs, Bool.eq_false_iff.mpr hok, rfl⟩
    have hfault := (R.mask handle g hg _ (Nat.mod_lt _ (by decide))).mp hbit
    obtain ⟨st, hst, hflag⟩ := R.state handle g hg ⟨_, hfault⟩
    simp only [groupGetState, hg] at hst
    obtain rfl := Except.ok.inj hst
    simp [I.flags handle g hg] at hflag
  · intro A
    have hnone : ∀ handle queue, ¬FailedOn d handle queue := by
      rintro handle queue ⟨s, hs, hok, -⟩
      rw [A handle s hs] at hok
      cases hok
    have hclean : ∀ handle g, ¬Faulted d handle g :=
      fun handle g ⟨queue, _, hfailed⟩ => hnone handle queue hfailed
    constructor
    · intro handle g hg queue hq
      refine iff_of_false ?_ fun h => hnone handle queue h.2
      rw [I.folded handle g hg queue hq]
      rintro ⟨s, hs, hok, -⟩
      rw [A handle s hs] at hok
      cases hok
    · exact fun handle g _ hf => absurd hf (hclean handle g)
    · exact fun handle g _ hf => absurd hf (hclean handle g)

end Reports

/-- The groups are reported as they should in every state of a run exactly when no stream fails
in it. -/
theorem faults_reported_iff (ops : List Op) :
    Always step (fun _ _ d => Reported d) start ops ↔ Guarded step Clean start ops := by
  have hstep : ∀ d op e, Inv d ∧ AllOk d → Clean d op → step d op = some e → Inv e ∧ AllOk e := by
    rintro d op e ⟨I, A⟩ hclean he
    obtain rfl := Option.some.inj he
    exact ⟨apply_inv I op, (apply_allOk_iff I A op).mpr hclean⟩
  have heffect : ∀ d op e, Inv d ∧ AllOk d → step d op = some e → (Clean d op ↔ Reported e) := by
    rintro d op e ⟨I, A⟩ he
    obtain rfl := Option.some.inj he
    rw [reported_iff (apply_inv I op), apply_allOk_iff I A op]
  exact (guarded_iff_always hstep heffect ⟨start_inv, fun _ _ h => by simp [start] at h⟩).symm

/-- A submit of one stream on a queue of group 1. -/
def oneStream (queueIndex : BitVec 8) : Buffer where
  privateDriverDataSize := 92
  byte := fun o =>
    if o = 36 then 1 else if o = 40 then 1 else if o = 44 then 60
    else if o = 60 then queueIndex else if o = 64 then 64 else if o = 71 then 8 else 0

/-- What the kernel answers when a stream comes to `status`. -/
def answers (status : NtStatus) : Kernel where
  adapter := true
  call := fun _ => .ok
  vm := fun _ => some true
  bo := fun _ _ => none
  pfnArray := fun _ => false
  vmMap := fun _ _ => .success
  vmUnmap := fun _ _ => .success
  group := fun _ => some false
  groupAsSlot := fun _ => 2
  submitGroupStream := fun _ => status
  syncSignal := fun _ _ => .ok
  syncWait := fun _ _ => .ok
  syncObj := fun _ _ => none
  wait := .ok

/-- A group with one queue, and a stream on it that times out. -/
def afterFailure (queueIndex : BitVec 8) : Device :=
  (Op.submit (oneStream queueIndex) (answers .ioTimeout)).apply ((Op.create 1 1 true).apply start)

/-- The state flags do not say that the stream has failed, and the next submit is run. A queue
that the group does not have gets a bit of its own. -/
theorem failed_stream_not_reported :
    ¬Always step (fun _ _ d => Reported d) start
      [.create 1 1 true, .submit (oneStream 0) (answers .ioTimeout)] ∧
    groupGetState (afterFailure 0).table 1 = .ok (0, 1) ∧
    (escapeGroupSubmit (oneStream 0) (answers .success) (afterFailure 0).table).1 = .ok ∧
    (escapeGroupSubmit (oneStream 0) (answers .success) (afterFailure 0).table).2.2 =
      [⟨0, .success⟩] ∧
    groupGetState (afterFailure 5).table 1 = .ok (0, 32) := by
  have hflags : groupGetState (afterFailure 0).table 1 = .ok (0, 1) := by rfl
  refine ⟨fun h => ?_, hflags, by decide +kernel, by decide +kernel, by rfl⟩
  have R : Reported (afterFailure 0) := ((h _ rfl).2 _ rfl).1
  obtain ⟨st, hst, hflag⟩ := R.state 1 ⟨1, 1, 1, 0, 1⟩ rfl
    ⟨0, by decide, ⟨0, .ioTimeout⟩, by decide +kernel, rfl, rfl⟩
  obtain rfl := Except.ok.inj (hflags.symm.trans hst)
  exact hflag (by decide)

end WinMali.GroupFaults
