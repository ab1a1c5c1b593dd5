import WinMaliKmd.LateFirmware
import WinMaliKmd.ToggleBell

/-!
# Doorbells under interleaving

The request words of the firmware interface that are rung by toggling: the configuration
requests and the group doorbells of the global interface, and the stream doorbells of group 0.
A toggle is three accesses under a spin lock, and the firmware reads and answers the same words
without it. One step is one access of a driver thread or one act of the firmware.

The firmware is not in the sources, and the order of its acts is an assumption: after `take` of
the interrupt it reads the two global words (`look`), it mirrors what it has read into the answer
(`answer`), and only then it turns to the slots whose bits that has changed (`serve`), where the
doorbell of a group leads it to the word of the group's streams.
-/

set_option autoImplicit false

namespace WinMali.Doorbells
open WinMali.LateFirmware WinMali.Runs WinMali.ToggleBell

def glbCfgProgressTimer : BitVec 32 := 1 <<< 1

def glbCfgAllocEn : BitVec 32 := 1 <<< 2

def glbCfgPoweroffTimer : BitVec 32 := 1 <<< 3

def glbIdleEn : BitVec 32 := 1 <<< 10

def glbCfgMask : BitVec 32 := glbCfgAllocEn ||| glbCfgPoweroffTimer ||| glbCfgProgressTimer

inductive Lock
  | glbLock
  | csfIfaceLock
deriving DecidableEq, Repr

inductive Iface
  | glbReq
  | glbDoorbell
  | csgDoorbell
deriving DecidableEq, Repr

def Iface.lock : Iface → Lock
  | .glbReq | .glbDoorbell => .glbLock
  | .csgDoorbell => .csfIfaceLock

/-- The words `Req` and `Ack` of an interface, and what the firmware has read of the first
(`hand`), answered and not served yet (`due`). The times are not in the words. -/
structure Words where
  req : BitVec 32
  ack : BitVec 32
  hand : Option (BitVec 32)
  due : BitVec 32
  looked : ℕ
  served : ℕ → ℕ

def Words.bell (w : Words) (i : ℕ) : Bell :=
  ⟨w.req.getLsbD i, w.ack.getLsbD i, w.hand.map (·.getLsbD i), w.due.getLsbD i, w.looked,
    w.served i⟩

def Words.look (now : ℕ) (w : Words) : Words := { w with hand := some w.req, looked := now }

def Words.answer (w : Words) : Words :=
  match w.hand with
  | none => w
  | some r => { w with ack := r, due := w.due ||| (w.ack ^^^ r), hand := none }

def Words.serve (now i : ℕ) (w : Words) : Words :=
  { w with
    due := w.due &&& ~~~BitVec.twoPow 32 i
    served := fun j => if j = i then now else w.served j }

/-- The request that differs from the answer in the bits of the mask. -/
def toggleReqs (cur o mask : BitVec 32) : BitVec 32 :=
  ((o ^^^ mask) &&& mask) ||| (cur &&& ~~~mask)

inductive Instr
  | toggle (f : Iface) (mask : BitVec 32)
  | update (val mask : BitVec 32)
  | ring
deriving DecidableEq, Repr

inductive Call
  | initGlobalIface
  | programAndStartCsg
  | terminateCsg
  | wakeCsgIfIdle
deriving DecidableEq, Repr

/-- What a call does with these words; it has written what it rings for before. -/
def Call.instrs : Call → List Instr
  | .initGlobalIface => [.update glbIdleEn glbIdleEn, .toggle .glbReq glbCfgMask, .ring]
  | .programAndStartCsg => [.toggle .csgDoorbell 1, .toggle .glbDoorbell 1, .ring]
  | .terminateCsg | .wakeCsgIfIdle => [.toggle .glbDoorbell 1, .ring]

/-- `acked` keeps the time at which it read the answer. -/
inductive Pc
  | out
  | locked (cur : BitVec 32)
  | acked (cur o : BitVec 32) (t : ℕ)
deriving DecidableEq, Repr

/-- A toggle that is done: it read the answer at time `t` and wrote at time `t'`. -/
structure Toggle where
  iface : Iface
  mask : BitVec 32
  t : ℕ
  t' : ℕ
deriving DecidableEq, Repr

structure Thread where
  prog : List Instr
  pc : Pc
  toggles : List Toggle
deriving DecidableEq, Repr

/-- `irq` is the register `CSF_DOORBELL(0)`, `rangAt` the time of its last write, and `wanted`
the request words that the firmware is about to read. -/
structure State where
  words : Iface → Words
  irq : Bool
  wanted : Iface → Bool
  holder : Lock → Option ℕ
  threads : ℕ → Thread
  rangAt : ℕ
  now : ℕ

def State.setThread (s : State) (tid : ℕ) (th : Thread) : State :=
  { s with threads := fun n => if n = tid then th else s.threads n }

def State.setWords (s : State) (f : Iface) (w : Words) : State :=
  { s with words := fun g => if g = f then w else s.words g }

def State.setHolder (s : State) (l : Lock) (h : Option ℕ) : State :=
  { s with holder := fun k => if k = l then h else s.holder k }

def State.tick (s : State) : State := { s with now := s.now + 1 }

/-- The write of a request word under its lock, which is released. -/
def State.put (s : State) (tid : ℕ) (th : Thread) (f : Iface) (req : BitVec 32) : State :=
  ((s.setWords f { s.words f with req := req }).setHolder f.lock none).setThread tid th

/-- One access of a driver thread. -/
def run (s : State) (tid : ℕ) : Option State :=
  let th := s.threads tid
  match th.prog, th.pc with
  | [], _ => none
  | .ring::rest, _ =>
    some ({ s with irq := true, rangAt := s.now }.setThread tid { th with prog := rest })
  | .toggle f _::_, .out =>
    if s.holder f.lock ≠ none then none
    else some ((s.setHolder f.lock (some tid)).setThread tid
      { th with pc := .locked (s.words f).req })
  | .toggle f _::_, .locked cur =>
    some (s.setThread tid { th with pc := .acked cur (s.words f).ack s.now })
  | .toggle f mask::rest, .acked cur o t =>
    some (s.put tid ⟨rest, .out, ⟨f, mask, t, s.now⟩::th.toggles⟩ f (toggleReqs cur o mask))
  | .update _ _::_, .out =>
    if s.holder .glbLock ≠ none then none
    else some ((s.setHolder .glbLock (some tid)).setThread tid
      { th with pc := .locked (s.words .glbReq).req })
  | .update val mask::rest, .locked cur =>
    some (s.put tid { th with prog := rest, pc := .out } .glbReq (updateReqs cur val mask))
  | .update _ _::_, .acked _ _ _ => none

/-- The last four are the firmware's: it takes the interrupt, reads a request word, mirrors it
into the answer, and turns to a slot whose bit changed by that. -/
inductive Label
  | call (tid : ℕ) (c : Call)
  | run (tid : ℕ)
  | take
  | look (f : Iface)
  | answer (f : Iface)
  | serve (f : Iface) (i : ℕ)
deriving DecidableEq, Repr

def take (s : State) : State :=
  { s with irq := false, wanted := fun f => s.wanted f || decide (f ≠ .csgDoorbell) }

def look (s : State) (f : Iface) : State :=
  { s.setWords f ((s.words f).look s.now) with
    wanted := fun g => s.wanted g && decide (g ≠ f) }

/-- To serve the doorbell of group 0 is to turn to the doorbells of its streams. -/
def serve (s : State) (f : Iface) (i : ℕ) : State :=
  { s.setWords f ((s.words f).serve s.now i) with
    wanted := fun g =>
      s.wanted g || decide (f = .glbDoorbell ∧ i = 0 ∧ g = .csgDoorbell) }

def step (s : State) : Label → Option State
  | .call tid c =>
    if (s.threads tid).prog ≠ [] then none
    else some (s.setThread tid ⟨c.instrs, .out, []⟩).tick
  | .run tid => (run s tid).map State.tick
  | .take => some (take s).tick
  | .look f => some (look s f).tick
  | .answer f => some (s.setWords f (s.words f).answer).tick
  | .serve f i => some (serve s f i).tick

/-- The words as they are found, with no ring under way. -/
def initial (req ack : Iface → BitVec 32) : State where
  words f := ⟨req f, ack f, none, 0, 0, fun _ => 0⟩
  irq := false
  wanted _ := false
  holder _ := none
  threads _ := ⟨[], .out, []⟩
  rangAt := 0
  now := 1

/-- No interrupt waits for the firmware, and it has nothing to read, to answer or to serve. -/
structure AtRest (s : State) : Prop where
  irq : s.irq = false
  wanted : ∀ f, s.wanted f = false
  hand : ∀ f, (s.words f).hand = none
  due : ∀ f, (s.words f).due = 0

section Bits

variable {w : Words} {i j now : ℕ}

theorem getLsbD_toggleReqs (cur o mask : BitVec 32) (i : ℕ) :
    (toggleReqs cur o mask).getLsbD i =
      if mask.getLsbD i then !o.getLsbD i else cur.getLsbD i := by
  have hlt : mask.getLsbD i = true → i < 32 := BitVec.lt_of_getLsbD
  have hcur : cur.getLsbD i = true → i < 32 := BitVec.lt_of_getLsbD
  simp only [toggleReqs, BitVec.getLsbD_or, BitVec.getLsbD_and, BitVec.getLsbD_xor,
    BitVec.getLsbD_not]
  cases hm : mask.getLsbD i with
  | true => simp
  | false => cases hc : cur.getLsbD i <;> simp_all

theorem getLsbD_updateReqs (cur val mask : BitVec 32) (i : ℕ) :
    (updateReqs cur val mask).getLsbD i =
      if mask.getLsbD i then val.getLsbD i else cur.getLsbD i := by
  have hcur : cur.getLsbD i = true → i < 32 := BitVec.lt_of_getLsbD
  simp only [updateReqs, BitVec.getLsbD_or, BitVec.getLsbD_and, BitVec.getLsbD_not]
  cases hm : mask.getLsbD i with
  | true => simp
  | false => cases hc : cur.getLsbD i <;> simp_all

theorem bell_answer : w.answer.bell i = (w.bell i).answer := by
  unfold Words.answer Bell.answer
  cases h : w.hand with
  | none => simp [Words.bell, h]
  | some r => simp [Words.bell, h, BitVec.getLsbD_or, BitVec.getLsbD_xor]

theorem bell_serve_self : (w.serve now i).bell i = (w.bell i).serve now := by
  have hdue : (w.due &&& ~~~BitVec.twoPow 32 i).getLsbD i = false := by
    have hlt : w.due.getLsbD i = true → i < 32 := BitVec.lt_of_getLsbD
    simp only [BitVec.getLsbD_and, BitVec.getLsbD_not, BitVec.getLsbD_twoPow]
    cases hb : w.due.getLsbD i <;> simp_all
  simp [Words.bell, Words.serve, Bell.serve, hdue]

theorem bell_serve_ne (h : j ≠ i) : (w.serve now i).bell j = w.bell j := by
  have hdue : (w.due &&& ~~~BitVec.twoPow 32 i).getLsbD j = w.due.getLsbD j := by
    have hlt : w.due.getLsbD j = true → j < 32 := BitVec.lt_of_getLsbD
    simp only [BitVec.getLsbD_and, BitVec.getLsbD_not, BitVec.getLsbD_twoPow]
    cases hb : w.due.getLsbD j <;> simp_all [Ne.symm h]
  simp [Words.bell, Words.serve, hdue, h]

theorem bell_req (w : Words) (req : BitVec 32) (i : ℕ) :
    ({ w with req := req } : Words).bell i = (w.bell i).write (req.getLsbD i) := rfl

end Bits

def Instr.iface : Instr → Option Iface
  | .toggle f _ => some f
  | .update _ _ => some .glbReq
  | .ring => none

structure Locked (s : State) (tid : ℕ) (f : Iface) (cur : BitVec 32) : Prop where
  holder : s.holder f.lock = some tid
  req : (s.words f).req = cur

structure Acked (s : State) (tid : ℕ) (f : Iface) (cur o : BitVec 32) (t : ℕ) : Prop extends
    Locked s tid f cur where
  past : t < s.now
  ringing : ∀ i, Ringing ((s.words f).bell i) t (o.getLsbD i)
  after : ∀ n, ∀ r ∈ (s.threads n).toggles, r.iface = f → r.t ≤ t

def PcOk (s : State) (tid : ℕ) (th : Thread) : Prop :=
  match th.pc with
  | .out => True
  | .locked cur => ∀ i ∈ th.prog.head?, ∀ f ∈ i.iface, Locked s tid f cur
  | .acked cur o t => ∀ i ∈ th.prog.head?, ∀ f ∈ i.iface, Acked s tid f cur o t ∧
      ∀ r ∈ th.toggles, r.t' ≤ t

structure Done (s : State) (r : Toggle) : Prop where
  mask : r.iface = .glbReq → r.mask = glbCfgMask
  order : r.t ≤ r.t'
  past : r.t' < s.now
  rung : ∀ i, r.mask.getLsbD i = true → Rung ((s.words r.iface).bell i) r.t r.t'

/-- What a call has still to do goes on from what it has done. -/
structure Onward (s : State) (th : Thread) : Prop where
  prog : ∃ c : Call, th.prog <:+ c.instrs
  ring : .ring ∈ th.prog ∨ ∀ r ∈ th.toggles, r.t' ≤ s.rangAt
  group : ∀ r ∈ th.toggles, r.iface = .csgDoorbell → .toggle .glbDoorbell 1 ∈ th.prog ∨
    ∃ r' ∈ th.toggles, r'.iface = .glbDoorbell ∧ r'.mask = 1 ∧ r.t' ≤ r'.t

structure Inv (s : State) : Prop where
  rangAt : s.rangAt < s.now
  looked : ∀ f, (s.words f).looked < s.now
  served : ∀ f, (s.words f).served 0 < s.now
  glb : s.irq = true ∨
    ∀ f, f ≠ .csgDoorbell → s.wanted f = true ∨ s.rangAt ≤ (s.words f).looked
  csg : s.wanted .csgDoorbell = true ∨
    (s.words .glbDoorbell).served 0 ≤ (s.words .csgDoorbell).looked
  pc : ∀ n, PcOk s n (s.threads n)
  done : ∀ n, ∀ r ∈ (s.threads n).toggles, Done s r
  onward : ∀ n, Onward s (s.threads n)

section Steps

variable {s t : State} {tid : ℕ} {th : Thread} {f : Iface}

theorem PcOk.frame {n : ℕ} (h : PcOk s n th)
    (hl : ∀ f cur, Locked s n f cur → Locked t n f cur)
    (ha : ∀ f cur o u, Acked s n f cur o u → Acked t n f cur o u) : PcOk t n th := by
  unfold PcOk at h ⊢
  split at h
  · trivial
  · exact fun i hi f hf => hl f _ (h i hi f hf)
  · exact fun i hi f hf => ⟨ha f _ _ _ (h i hi f hf).1, (h i hi f hf).2⟩

/-- A step of the firmware on one pair of words: it writes no request, and no bell forgets a
ring. -/
theorem Inv.firmware (I : Inv s) {w : Words} (hwords : ∀ g, t.words g = if g = f then w else
      s.words g)
    (hthreads : t.threads = s.threads) (hholder : t.holder = s.holder)
    (hrang : t.rangAt = s.rangAt) (hnow : t.now = s.now + 1) (hreq : w.req = (s.words f).req)
    (hrung : ∀ i u u', u < s.now → Rung ((s.words f).bell i) u u' → Rung (w.bell i) u u')
    (hringing : ∀ i u o, u < s.now → Ringing ((s.words f).bell i) u o → Ringing (w.bell i) u o)
    (hlooked : w.looked < t.now) (hserved : w.served 0 < t.now)
    (hglb : t.irq = true ∨
      ∀ g, g ≠ .csgDoorbell → t.wanted g = true ∨ t.rangAt ≤ (t.words g).looked)
    (hcsg : t.wanted .csgDoorbell = true ∨
      (t.words .glbDoorbell).served 0 ≤ (t.words .csgDoorbell).looked) : Inv t := by
  have hlt {u : ℕ} (h : u < s.now) : u < t.now := hnow ▸ h.trans (Nat.lt_succ_self _)
  have hl : ∀ n g cur, Locked s n g cur → Locked t n g cur := by
    intro n g cur L
    refine ⟨hholder ▸ L.holder, ?_⟩
    rw [hwords]
    split
    · rename_i hg
      exact hreq.trans (hg ▸ L.req)
    · exact L.req
  refine ⟨hrang ▸ hlt I.rangAt, fun g => ?_, fun g => ?_, hglb, hcsg, fun n => ?_, fun n r hr => ?_,
    fun n => ?_⟩
  · rw [hwords]
    split
    · exact hlooked
    · exact hlt (I.looked g)
  · rw [hwords]
    split
    · exact hserved
    · exact hlt (I.served g)
  · rw [hthreads]
    refine (I.pc n).frame (hl n) fun g cur o u A => ?_
    refine ⟨hl n g cur A.toLocked, hlt A.past, fun i => ?_, hthreads ▸ A.after⟩
    rw [hwords]
    split
    · rename_i hg
      exact hringing i u _ A.past (hg ▸ A.ringing i)
    · exact A.ringing i
  · rw [hthreads] at hr
    have D := I.done n r hr
    refine ⟨D.mask, D.order, hlt D.past, fun i hi => ?_⟩
    rw [hwords]
    split
    · rename_i hg
      exact hrung i _ _ (D.order.trans_lt D.past) (hg ▸ D.rung i hi)
    · exact D.rung i hi
  · rw [hthreads]
    have O := I.onward n
    exact ⟨O.prog, hrang ▸ O.ring, O.group⟩

theorem take_inv (I : Inv s) : Inv (take s).tick := by
  refine I.firmware (f := .glbReq) (w := s.words .glbReq) (fun g => ?_) rfl rfl rfl rfl rfl
    (fun _ _ _ _ R => R) (fun _ _ _ _ R => R) ((I.looked _).trans (Nat.lt_succ_self _))
    ((I.served _).trans (Nat.lt_succ_self _)) (.inr fun f hf => .inl ?_) ?_
  · split
    · rename_i hg
      rw [hg]
      rfl
    · rfl
  · simp [State.tick, take, hf]
  · rcases I.csg with h | h
    · exact .inl (by simp [State.tick, take, h])
    · exact .inr h

theorem look_inv (I : Inv s) (f : Iface) : Inv (look s f).tick := by
  have hself : ((look s f).tick.words f).looked = s.now := by
    simp [look, State.tick, State.setWords, Words.look]
  have hother {g : Iface} (hg : g ≠ f) : (look s f).tick.words g = s.words g := by
    simp [look, State.tick, State.setWords, hg]
  have hserved (g : Iface) : ((look s f).tick.words g).served = (s.words g).served := by
    by_cases hg : g = f
    · simp [look, State.tick, State.setWords, Words.look, hg]
    · rw [hother hg]
  refine I.firmware (f := f) (w := (s.words f).look s.now) (fun _ => rfl) rfl rfl rfl rfl rfl
    (fun i u u' _ R => R.look _) (fun i u o _ R => R.look _) (Nat.lt_succ_self _)
    ((I.served f).trans (Nat.lt_succ_self _)) ?_ ?_
  · rcases I.glb with h | h
    · exact .inl h
    refine .inr fun g hg => ?_
    by_cases hgf : g = f
    · subst hgf
      exact .inr (hself.symm ▸ I.rangAt.le)
    · rw [hother hgf]
      rcases h g hg with h | h
      · exact .inl (by simp [look, State.tick, h, hgf])
      · exact .inr h
  · rw [hserved]
    by_cases hf : .csgDoorbell = f
    · subst hf
      exact .inr (hself.symm ▸ (I.served _).le)
    · rw [hother hf]
      rcases I.csg with h | h
      · exact .inl (by simp [look, State.tick, h, hf])
      · exact .inr h

theorem answer_inv (I : Inv s) (f : Iface) :
    Inv (s.setWords f (s.words f).answer).tick := by
  have hlooked (w : Words) : w.answer.looked = w.looked := by
    unfold Words.answer
    split <;> rfl
  have hserved (w : Words) : w.answer.served = w.served := by
    unfold Words.answer
    split <;> rfl
  have hreq (w : Words) : w.answer.req = w.req := by
    unfold Words.answer
    split <;> rfl
  have hl (g : Iface) : ((s.setWords f (s.words f).answer).tick.words g).looked =
      (s.words g).looked := by
    simp only [State.tick, State.setWords]
    split
    · rename_i hg
      rw [hlooked, hg]
    · rfl
  have hsv (g : Iface) : ((s.setWords f (s.words f).answer).tick.words g).served =
      (s.words g).served := by
    simp only [State.tick, State.setWords]
    split
    · rename_i hg
      rw [hserved, hg]
    · rfl
  refine I.firmware (f := f) (w := (s.words f).answer) (fun _ => rfl) rfl rfl rfl rfl
    (hreq _) (fun i u u' _ R => ?_) (fun i u o _ R => ?_) ?_ ?_ ?_ ?_
  · rw [bell_answer]
    exact R.answer
  · rw [bell_answer]
    exact R.answer
  · rw [hlooked]
    exact (I.looked f).trans (Nat.lt_succ_self _)
  · rw [hserved]
    exact (I.served f).trans (Nat.lt_succ_self _)
  · rcases I.glb with h | h
    · exact .inl h
    · exact .inr fun g hg => (h g hg).imp_right fun h => (hl g).symm ▸ h
  · rw [hl, hsv]
    exact I.csg

theorem serve_inv (I : Inv s) (f : Iface) (i : ℕ) : Inv (serve s f i).tick := by
  have hl (g : Iface) : ((serve s f i).tick.words g).looked = (s.words g).looked := by
    simp only [serve, State.tick, State.setWords]
    split
    · rename_i hg
      rw [hg]
      rfl
    · rfl
  refine I.firmware (f := f) (w := (s.words f).serve s.now i) (fun _ => rfl) rfl rfl rfl rfl
    rfl (fun j u u' hu R => ?_) (fun j u o hu R => ?_)
    ((I.looked f).trans (Nat.lt_succ_self _)) ?_ ?_ ?_
  · by_cases hj : j = i
    · subst hj
      rw [bell_serve_self]
      exact Rung.serve hu.le
    · rw [bell_serve_ne hj]
      exact R
  · by_cases hj : j = i
    · subst hj
      rw [bell_serve_self]
      exact Ringing.serve hu.le
    · rw [bell_serve_ne hj]
      exact R
  · simp only [Words.serve]
    split
    · exact Nat.lt_succ_self _
    · exact (I.served f).trans (Nat.lt_succ_self _)
  · rcases I.glb with h | h
    · exact .inl h
    · refine .inr fun g hg => (h g hg).imp (fun h => ?_) fun h => (hl g).symm ▸ h
      simp [serve, State.tick, h]
  · rw [hl]
    by_cases hf : f = .glbDoorbell ∧ i = 0
    · exact .inl (by simp [serve, State.tick, hf])
    refine I.csg.imp (fun h => by simp [serve, State.tick, h]) fun h => ?_
    have hsv : ((serve s f i).tick.words .glbDoorbell).served 0 =
        (s.words .glbDoorbell).served 0 := by
      simp only [serve, State.tick, State.setWords]
      split
      · rename_i hg
        simp only [Words.serve]
        rw [if_neg fun h0 => hf ⟨hg.symm, h0.symm⟩, hg]
      · rfl
    rw [hsv]
    exact h

/-- A step of a thread that writes no request word. -/
theorem Inv.thread (I : Inv s) (hthreads : ∀ n, t.threads n = if n = tid then th else s.threads n)
    (hwords : t.words = s.words) (hnow : t.now = s.now + 1) (hwanted : t.wanted = s.wanted)
    (hholder : ∀ n l, n ≠ tid → s.holder l = some n → t.holder l = some n)
    (hrang : s.rangAt ≤ t.rangAt) (hrangnow : t.rangAt < t.now)
    (hglb : t.irq = true ∨ t.irq = s.irq ∧ t.rangAt = s.rangAt)
    (htoggles : ∀ r ∈ th.toggles, r ∈ (s.threads tid).toggles)
    (hpc : PcOk t tid th) (hon : Onward t th) : Inv t := by
  have hlt {u : ℕ} (h : u < s.now) : u < t.now := hnow ▸ h.trans (Nat.lt_succ_self _)
  have hmem : ∀ n, ∀ r ∈ (t.threads n).toggles, r ∈ (s.threads n).toggles := by
    intro n r hr
    rw [hthreads] at hr
    split at hr
    · rename_i hn
      exact hn ▸ htoggles r hr
    · exact hr
  refine ⟨hrangnow, fun f => ?_, fun f => ?_, ?_, ?_, fun n => ?_, fun n r hr => ?_,
    fun n => ?_⟩
  · rw [hwords]
    exact hlt (I.looked f)
  · rw [hwords]
    exact hlt (I.served f)
  · rcases hglb with h | ⟨hirq, hrang⟩
    · exact .inl h
    · rw [hirq, hrang, hwanted, hwords]
      exact I.glb
  · rw [hwanted, hwords]
    exact I.csg
  · rw [hthreads]
    split
    · rename_i hn
      exact hn ▸ hpc
    · rename_i hn
      have hl : ∀ f cur, Locked s n f cur → Locked t n f cur :=
        fun f cur L => ⟨hholder n _ hn L.holder, hwords ▸ L.req⟩
      refine (I.pc n).frame hl fun f cur o u A => ?_
      exact ⟨hl f cur A.toLocked, hlt A.past, hwords ▸ A.ringing,
        fun m r hr => A.after m r (hmem m r hr)⟩
  · have D := I.done n r (hmem n r hr)
    exact ⟨D.mask, D.order, hlt D.past, hwords ▸ D.rung⟩
  · rw [hthreads]
    split
    · exact hon
    · have O := I.onward n
      exact ⟨O.prog, O.ring.imp_right fun h r hr => (h r hr).trans hrang, O.group⟩

/-- The write of a request word by the holder of its lock. -/
theorem Inv.put (I : Inv s) {req : BitVec 32} (hheld : s.holder f.lock = some tid)
    (hrung : ∀ n, ∀ r ∈ (s.threads n).toggles, r.iface = f → ∀ i, r.mask.getLsbD i = true →
      Rung (((s.words f).bell i).write (req.getLsbD i)) r.t r.t')
    (hpc : th.pc = .out)
    (htoggles : ∀ r ∈ th.toggles, r ∈ (s.threads tid).toggles ∨
      r.iface = f ∧ Done (s.put tid th f req).tick r)
    (hon : Onward (s.put tid th f req).tick th) : Inv (s.put tid th f req).tick := by
  have hwords (g : Iface) : (s.put tid th f req).tick.words g =
      if g = f then { s.words f with req := req } else s.words g := rfl
  have hthreads (n : ℕ) : (s.put tid th f req).tick.threads n =
      if n = tid then th else s.threads n := rfl
  have hlt {u : ℕ} (h : u < s.now) : u < (s.put tid th f req).tick.now :=
    h.trans (Nat.lt_succ_self _)
  have hlooked (g : Iface) : ((s.put tid th f req).tick.words g).looked =
      (s.words g).looked := by
    rw [hwords]
    split
    · rename_i hg
      rw [hg]
    · rfl
  have hserved (g : Iface) : ((s.put tid th f req).tick.words g).served =
      (s.words g).served := by
    rw [hwords]
    split
    · rename_i hg
      rw [hg]
    · rfl
  refine ⟨hlt I.rangAt, fun g => ?_, fun g => ?_, ?_, ?_, fun n => ?_, fun n r hr => ?_,
    fun n => ?_⟩
  · rw [hlooked]
    exact hlt (I.looked g)
  · rw [hserved]
    exact hlt (I.served g)
  · simp only [hlooked]
    exact I.glb
  · rw [hlooked, hserved]
    exact I.csg
  · rw [hthreads]
    split
    · unfold PcOk
      rw [hpc]
      trivial
    · rename_i hn
      -- a thread at another word of the same lock would hold it too
      have hne {g : Iface} {cur : BitVec 32} (L : Locked s n g cur) : g.lock ≠ f.lock := by
        intro hg
        have := L.holder
        rw [hg, hheld] at this
        exact hn (Option.some.inj this).symm
      have hw {g : Iface} {cur : BitVec 32} (L : Locked s n g cur) :
          (s.put tid th f req).tick.words g = s.words g := by
        rw [hwords, if_neg fun hg => hne L (congrArg Iface.lock hg)]
      have hl : ∀ g cur, Locked s n g cur → Locked (s.put tid th f req).tick n g cur := by
        intro g cur L
        refine ⟨?_, (hw L).symm ▸ L.req⟩
        simp only [State.tick, State.put, State.setThread, State.setHolder, if_neg (hne L)]
        exact L.holder
      refine (I.pc n).frame hl fun g cur o u A => ⟨hl g cur A.toLocked, hlt A.past, ?_, ?_⟩
      · rw [hw A.toLocked]
        exact A.ringing
      · intro m r hr hg
        rw [hthreads] at hr
        split at hr
        · rcases htoggles r hr with hold | ⟨hf, -⟩
          · exact A.after tid r hold hg
          · exact absurd (congrArg Iface.lock (hg.symm.trans hf)) (hne A.toLocked)
        · exact A.after m r hr hg
  · have hold (n : ℕ) (hr : r ∈ (s.threads n).toggles) :
        Done (s.put tid th f req).tick r := by
      have D := I.done n r hr
      refine ⟨D.mask, D.order, hlt D.past, fun i hi => ?_⟩
      rw [hwords]
      split
      · rename_i hf
        exact hrung n r hr hf i hi
      · exact D.rung i hi
    rw [hthreads] at hr
    split at hr
    · exact (htoggles r hr).elim (hold tid) And.right
    · exact hold n hr
  · rw [hthreads]
    split
    · exact hon
    · exact ⟨(I.onward n).prog, (I.onward n).ring, (I.onward n).group⟩

theorem run_cases (h : run s tid = some t) :
    (∃ rest, (s.threads tid).prog = .ring::rest ∧
      t = { s with irq := true, rangAt := s.now }.setThread tid
        { s.threads tid with prog := rest }) ∨
    (∃ i rest f, (s.threads tid).prog = i::rest ∧ i.iface = some f ∧
      s.holder f.lock = none ∧
      t = (s.setHolder f.lock (some tid)).setThread tid
        { s.threads tid with pc := .locked (s.words f).req }) ∨
    (∃ f mask rest cur, (s.threads tid).prog = .toggle f mask::rest ∧
      (s.threads tid).pc = .locked cur ∧
      t = s.setThread tid { s.threads tid with pc := .acked cur (s.words f).ack s.now }) ∨
    (∃ f mask rest cur o u, (s.threads tid).prog = .toggle f mask::rest ∧
      (s.threads tid).pc = .acked cur o u ∧
      t = s.put tid ⟨rest, .out, ⟨f, mask, u, s.now⟩::(s.threads tid).toggles⟩ f
        (toggleReqs cur o mask)) ∨
    (∃ val mask rest cur, (s.threads tid).prog = .update val mask::rest ∧
      (s.threads tid).pc = .locked cur ∧
      t = s.put tid { s.threads tid with prog := rest, pc := .out } .glbReq
        (updateReqs cur val mask)) := by
  simp only [run] at h
  split at h
  · cases h
  · rename_i rest hprog
    exact .inl ⟨rest, hprog, (Option.some.inj h).symm⟩
  · rename_i f mask rest hprog hpc
    split at h
    · cases h
    · rename_i hfree
      exact .inr (.inl ⟨_, rest, f, hprog, rfl, not_not.mp hfree, (Option.some.inj h).symm⟩)
  · rename_i f mask rest cur hprog hpc
    exact .inr (.inr (.inl ⟨f, mask, rest, cur, hprog, hpc, (Option.some.inj h).symm⟩))
  · rename_i f mask rest cur o u hprog hpc
    exact .inr (.inr (.inr (.inl
      ⟨f, mask, rest, cur, o, u, hprog, hpc, (Option.some.inj h).symm⟩)))
  · rename_i val mask rest hprog hpc
    split at h
    · cases h
    · rename_i hfree
      exact .inr (.inl ⟨_, rest, .glbReq, hprog, rfl, not_not.mp hfree,
        (Option.some.inj h).symm⟩)
  · rename_i val mask rest cur hprog hpc
    exact .inr (.inr (.inr (.inr ⟨val, mask, rest, cur, hprog, hpc, (Option.some.inj h).symm⟩)))
  · cases h

theorem suffix_tail {i : Instr} {rest : List Instr} (h : ∃ c : Call, i::rest <:+ c.instrs) :
    ∃ c : Call, rest <:+ c.instrs := by
  obtain ⟨c, hc⟩ := h
  exact ⟨c, (List.suffix_cons i rest).trans hc⟩

/-- The instructions of the calls, each with what its call does after it. -/
theorem suffix_cases {i : Instr} {rest : List Instr} (h : ∃ c : Call, i::rest <:+ c.instrs) :
    (i = .ring ∧ rest = []) ∨
    (i = .toggle .glbReq glbCfgMask ∧ .ring ∈ rest) ∨
    (i = .toggle .glbDoorbell 1 ∧ .ring ∈ rest) ∨
    (i = .toggle .csgDoorbell 1 ∧ .ring ∈ rest ∧ .toggle .glbDoorbell 1 ∈ rest) ∨
    (i = .update glbIdleEn glbIdleEn ∧ .ring ∈ rest) := by
  obtain ⟨c, hc⟩ := h
  cases c <;>
    simp only [Call.instrs, List.suffix_cons_iff, List.suffix_nil, List.cons.injEq] at hc <;>
    rcases hc with ⟨rfl, rfl⟩ | ⟨rfl, rfl⟩ | ⟨rfl, rfl⟩ | hc <;> simp_all

theorem cfgMask_not_idle {i : ℕ} (h : glbCfgMask.getLsbD i = true) :
    glbIdleEn.getLsbD i = false := by
  have hi : i < 32 := BitVec.lt_of_getLsbD h
  revert h
  revert i
  decide

theorem ring_inv (I : Inv s) {rest : List Instr} (hprog : (s.threads tid).prog = .ring::rest) :
    Inv ({ s with irq := true, rangAt := s.now }.setThread tid
      { s.threads tid with prog := rest }).tick := by
  have O := I.onward tid
  have hrest : rest = [] := by
    rcases suffix_cases (hprog ▸ O.prog) with ⟨-, h⟩ | ⟨h, -⟩ | ⟨h, -⟩ | ⟨h, -⟩ | ⟨h, -⟩
    · exact h
    all_goals cases h
  subst hrest
  refine I.thread (fun _ => rfl) rfl rfl rfl (fun _ _ _ h => h) I.rangAt.le
    (Nat.lt_succ_self _) (.inl rfl) (fun _ h => h) ?_ ⟨suffix_tail (hprog ▸ O.prog), ?_, ?_⟩
  · unfold PcOk
    split
    · trivial
    · exact fun i hi => by cases hi
    · exact fun i hi => by cases hi
  · exact .inr fun r hr => (I.done tid r hr).past.le
  · refine fun r hr hcsg => .inr ((O.group r hr hcsg).resolve_left ?_)
    rw [hprog]
    simp

theorem acquire_inv (I : Inv s) {i : Instr} {rest : List Instr}
    (hprog : (s.threads tid).prog = i::rest) (hf : i.iface = some f)
    (hfree : s.holder f.lock = none) :
    Inv ((s.setHolder f.lock (some tid)).setThread tid
      { s.threads tid with pc := .locked (s.words f).req }).tick := by
  have O := I.onward tid
  refine I.thread (fun _ => rfl) rfl rfl rfl (fun n l _ hl => ?_) le_rfl
    (I.rangAt.trans (Nat.lt_succ_self _)) (.inr ⟨rfl, rfl⟩) (fun _ h => h) ?_
    ⟨O.prog, O.ring, O.group⟩
  · have hne : l ≠ f.lock := by
      rintro rfl
      rw [hfree] at hl
      cases hl
    simp only [State.tick, State.setThread, State.setHolder, if_neg hne]
    exact hl
  · intro j hj g hg
    rw [hprog] at hj
    obtain rfl := Option.some.inj hj
    obtain rfl := Option.some.inj (hf.symm.trans hg)
    exact ⟨by simp [State.tick, State.setThread, State.setHolder], rfl⟩

theorem readAck_inv (I : Inv s) {mask cur : BitVec 32} {rest : List Instr}
    (hprog : (s.threads tid).prog = .toggle f mask::rest)
    (hpc : (s.threads tid).pc = .locked cur) :
    Inv (s.setThread tid
      { s.threads tid with pc := .acked cur (s.words f).ack s.now }).tick := by
  have O := I.onward tid
  have P := I.pc tid
  unfold PcOk at P
  rw [hpc, hprog] at P
  have L : Locked s tid f cur := P _ rfl f rfl
  refine I.thread (fun _ => rfl) rfl rfl rfl (fun _ _ _ h => h) le_rfl
    (I.rangAt.trans (Nat.lt_succ_self _)) (.inr ⟨rfl, rfl⟩) (fun _ h => h) ?_
    ⟨O.prog, O.ring, O.group⟩
  intro j hj g hg
  rw [hprog] at hj
  obtain rfl := Option.some.inj hj
  obtain rfl := Option.some.inj hg
  refine ⟨⟨⟨L.holder, L.req⟩, Nat.lt_succ_self _, fun i => Ringing.begin _ _, ?_⟩,
    fun r hr => (I.done tid r hr).past.le⟩
  intro n r hr _
  have D : Done s r := by
    simp only [State.tick, State.setThread] at hr
    split at hr
    · exact I.done tid r hr
    · exact I.done n r hr
  exact D.order.trans D.past.le

theorem toggle_inv (I : Inv s) {mask cur o : BitVec 32} {u : ℕ} {rest : List Instr}
    (hprog : (s.threads tid).prog = .toggle f mask::rest)
    (hpc : (s.threads tid).pc = .acked cur o u) :
    Inv (s.put tid ⟨rest, .out, ⟨f, mask, u, s.now⟩::(s.threads tid).toggles⟩ f
      (toggleReqs cur o mask)).tick := by
  have O := I.onward tid
  have P := I.pc tid
  unfold PcOk at P
  rw [hpc, hprog] at P
  obtain ⟨A, hown⟩ := P _ rfl f rfl
  have hcase := suffix_cases (hprog ▸ O.prog)
  refine I.put A.holder (fun n r hr hf i hi => ?_) rfl (fun r hr => ?_) ⟨?_, ?_, ?_⟩
  · have R := (I.done n r hr).rung i hi
    rw [hf] at R
    rw [getLsbD_toggleReqs]
    split
    · exact R.write (A.after n r hr hf) (A.ringing i)
    · rw [← A.req]
      exact R
  · rcases List.mem_cons.mp hr with rfl | hr
    · refine .inr ⟨rfl, fun hf => ?_, A.past.le, Nat.lt_succ_self _, fun i hi => ?_⟩
      · change f = _ at hf
        subst hf
        rcases hcase with ⟨h, -⟩ | ⟨h, -⟩ | ⟨h, -⟩ | ⟨h, -⟩ | ⟨h, -⟩ <;> cases h
        rfl
      · have hw : (s.put tid ⟨rest, .out, ⟨f, mask, u, s.now⟩::(s.threads tid).toggles⟩ f
            (toggleReqs cur o mask)).tick.words f =
            { s.words f with req := toggleReqs cur o mask } := if_pos rfl
        rw [hw, bell_req, getLsbD_toggleReqs, if_pos hi]
        exact (A.ringing i).rung (I.looked f)
    · exact .inl hr
  · exact suffix_tail (hprog ▸ O.prog)
  · rcases hcase with ⟨h, -⟩ | ⟨-, h⟩ | ⟨-, h⟩ | ⟨-, h, -⟩ | ⟨-, h⟩
    · cases h
    all_goals exact .inl h
  · intro r hr hcsg
    rcases List.mem_cons.mp hr with rfl | hold
    · change f = _ at hcsg
      subst hcsg
      rcases hcase with ⟨h, -⟩ | ⟨h, -⟩ | ⟨h, -⟩ | ⟨-, -, h⟩ | ⟨h, -⟩
      · cases h
      · cases h
      · cases h
      · exact .inl h
      · cases h
    · rcases O.group r hold hcsg with h | ⟨r', hr', hg, hm, ht⟩
      · rw [hprog, List.mem_cons] at h
        rcases h with h | h
        · cases h
          exact .inr ⟨_, List.mem_cons_self, rfl, rfl, hown r hold⟩
        · exact .inl h
      · exact .inr ⟨r', List.mem_cons_of_mem _ hr', hg, hm, ht⟩

theorem update_inv (I : Inv s) {val mask cur : BitVec 32} {rest : List Instr}
    (hprog : (s.threads tid).prog = .update val mask::rest)
    (hpc : (s.threads tid).pc = .locked cur) :
    Inv (s.put tid { s.threads tid with prog := rest, pc := .out } .glbReq
      (updateReqs cur val mask)).tick := by
  have O := I.onward tid
  have P := I.pc tid
  unfold PcOk at P
  rw [hpc, hprog] at P
  have L : Locked s tid .glbReq cur := P _ rfl .glbReq rfl
  obtain ⟨hmask, hring⟩ : mask = glbIdleEn ∧ .ring ∈ rest := by
    rcases suffix_cases (hprog ▸ O.prog) with ⟨h, -⟩ | ⟨h, -⟩ | ⟨h, -⟩ | ⟨h, -⟩ | ⟨h, hr⟩
    all_goals cases h
    exact ⟨rfl, hr⟩
  refine I.put L.holder (fun n r hr hf i hi => ?_) rfl (fun r hr => .inl hr) ⟨?_, ?_, ?_⟩
  · have D := I.done n r hr
    have hidle : mask.getLsbD i = false := hmask ▸ cfgMask_not_idle (D.mask hf ▸ hi)
    have R := D.rung i hi
    rw [hf] at R
    rw [getLsbD_updateReqs, if_neg (by simp [hidle]), ← L.req]
    exact R
  · exact suffix_tail (hprog ▸ O.prog)
  · exact .inl hring
  · refine fun r hr hcsg => (O.group r hr hcsg).imp_left fun h => ?_
    rw [hprog, List.mem_cons] at h
    rcases h with h | h
    · cases h
    · exact h

theorem call_inv (I : Inv s) (c : Call) : Inv (s.setThread tid ⟨c.instrs, .out, []⟩).tick := by
  refine I.thread (fun _ => rfl) rfl rfl rfl (fun _ _ _ h => h) le_rfl
    (I.rangAt.trans (Nat.lt_succ_self _)) (.inr ⟨rfl, rfl⟩)
    (fun _ hr => absurd hr List.not_mem_nil) trivial
    ⟨⟨c, List.suffix_rfl⟩, .inr fun _ hr => absurd hr List.not_mem_nil,
      fun _ hr => absurd hr List.not_mem_nil⟩

theorem step_inv (I : Inv s) {l : Label} (h : step s l = some t) : Inv t := by
  cases l with
  | call tid c =>
    simp only [step] at h
    split at h
    · cases h
    · obtain rfl := Option.some.inj h
      exact call_inv I c
  | run tid =>
    obtain ⟨u, hu, rfl⟩ := Option.map_eq_some_iff.mp h
    rcases run_cases hu with ⟨rest, hprog, rfl⟩ | ⟨i, rest, f, hprog, hf, hfree, rfl⟩ |
      ⟨f, mask, rest, cur, hprog, hpc, rfl⟩ | ⟨f, mask, rest, cur, o, u, hprog, hpc, rfl⟩ |
      ⟨val, mask, rest, cur, hprog, hpc, rfl⟩
    · exact ring_inv I hprog
    · exact acquire_inv I hprog hf hfree
    · exact readAck_inv I hprog hpc
    · exact toggle_inv I hprog hpc
    · exact update_inv I hprog hpc
  | take =>
    obtain rfl := Option.some.inj h
    exact take_inv I
  | look f =>
    obtain rfl := Option.some.inj h
    exact look_inv I f
  | answer f =>
    obtain rfl := Option.some.inj h
    exact answer_inv I f
  | serve f i =>
    obtain rfl := Option.some.inj h
    exact serve_inv I f i

theorem inv_initial (req ack : Iface → BitVec 32) : Inv (initial req ack) where
  rangAt := Nat.zero_lt_one
  looked _ := Nat.zero_lt_one
  served _ := Nat.zero_lt_one
  glb := .inr fun _ _ => .inr le_rfl
  csg := .inr le_rfl
  pc _ := trivial
  done _ _ hr := absurd hr List.not_mem_nil
  onward _ := ⟨⟨.terminateCsg, List.nil_suffix⟩, .inr fun _ hr => absurd hr List.not_mem_nil,
    fun _ hr => absurd hr List.not_mem_nil⟩

theorem Inv.heard (I : Inv s) (hrest : AtRest s) {r : Toggle}
    (hr : r ∈ (s.threads tid).toggles) (hlooked : r.t' ≤ (s.words r.iface).looked) {i : ℕ}
    (hi : r.mask.getLsbD i = true) : r.t ≤ (s.words r.iface).served i := by
  refine ((I.done tid r hr).rung i hi).heard hlooked ?_ ?_
  · simp [Words.bell, hrest.hand]
  · simp [Words.bell, hrest.due]

/-- A finished call has written the doorbell register after its toggles. -/
theorem Inv.global_heard (I : Inv s) (hrest : AtRest s) (hdone : (s.threads tid).prog = [])
    {r : Toggle} (hr : r ∈ (s.threads tid).toggles) (hglb : r.iface ≠ .csgDoorbell) {i : ℕ}
    (hi : r.mask.getLsbD i = true) : r.t ≤ (s.words r.iface).served i := by
  refine I.heard hrest hr ?_ hi
  have hrang : r.t' ≤ s.rangAt := by
    refine (I.onward tid).ring.resolve_left ?_ r hr
    rw [hdone]
    exact List.not_mem_nil
  have hglb := (I.glb.resolve_left (by simp [hrest.irq])) r.iface hglb
  exact hrang.trans (hglb.resolve_left (by simp [hrest.wanted]))

end Steps

/-- No ring is lost, whatever the threads and the firmware do meanwhile: when the firmware is at
rest, it has served every slot that a finished call toggled, after the call read the answer and
so after the call wrote what it rings for. The doorbell of a stream is reached through the
doorbell of its group. -/
theorem no_ring_lost {req ack : Iface → BitVec 32} {ls : List Label} {s : State}
    (h : exec step (initial req ack) ls = some s) (hrest : AtRest s) {tid : ℕ}
    (hdone : (s.threads tid).prog = []) {r : Toggle} (hr : r ∈ (s.threads tid).toggles) {i : ℕ}
    (hi : r.mask.getLsbD i = true) : r.t ≤ (s.words r.iface).served i := by
  have I : Inv s := exec_invariant (fun _ _ _ I _ hl => step_inv I hl) (inv_initial req ack)
    (guarded_true _ _ _) h
  by_cases hcsg : r.iface = .csgDoorbell
  · obtain ⟨r', hr', hg, hm, ht⟩ := ((I.onward tid).group r hr hcsg).resolve_left
      (by rw [hdone]; exact List.not_mem_nil)
    have hserved := I.global_heard hrest hdone hr' (i := 0) (by simp [hg]) (by rw [hm]; decide)
    rw [hg] at hserved
    have hlooked := I.csg.resolve_left (by simp [hrest.wanted])
    refine I.heard hrest hr ?_ hi
    rw [hcsg]
    exact ht.trans (hserved.trans hlooked)
  · exact I.global_heard hrest hdone hr hcsg hi

/-- The firmware answers one ring between the two accesses of the next, whose write then leaves
request and answer equal. -/
def crossedRings : List Label :=
  [.call 0 .programAndStartCsg, .run 0, .run 0, .run 0, .run 0, .run 0, .run 0, .run 0,
    .take, .look .glbReq, .look .glbDoorbell, .call 1 .terminateCsg, .run 1, .run 1,
    .answer .glbDoorbell, .run 1, .run 1, .answer .glbReq, .serve .glbDoorbell 0,
    .look .csgDoorbell, .answer .csgDoorbell, .serve .csgDoorbell 0, .take, .look .glbReq,
    .look .glbDoorbell, .answer .glbReq, .answer .glbDoorbell]

def crossed : State :=
  (exec step (initial (fun _ => 0) (fun _ => 0)) crossedRings).getD
    (initial (fun _ => 0) (fun _ => 0))

theorem crossed_served : (crossed.words .glbDoorbell).req = (crossed.words .glbDoorbell).ack ∧
    14 ≤ (crossed.words .glbDoorbell).served 0 := by
  refine ⟨rfl, ?_⟩
  have h : exec step (initial (fun _ => 0) (fun _ => 0)) crossedRings = some crossed := rfl
  have hrest : AtRest crossed := by
    constructor
    · rfl
    · intro f
      cases f <;> rfl
    · intro f
      cases f <;> rfl
    · intro f
      cases f <;> rfl
  have hdone : (crossed.threads 1).prog = [] := rfl
  have hr : ⟨.glbDoorbell, 1, 14, 16⟩ ∈ (crossed.threads 1).toggles := by decide +kernel
  have hi : (1 : BitVec 32).getLsbD 0 = true := by decide
  exact no_ring_lost h hrest hdone hr hi

end WinMali.Doorbells
