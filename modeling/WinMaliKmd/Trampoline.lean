import WinMaliKmd.CsfSubmit

/-!
# The instructions of the trampoline

The words that `SubmitStreamCall_` puts into the ring, read back by the layout of the
instruction set: the opcode in the top byte, then a register or the fields of the opcode.
A word with a bit outside its fields is not an instruction.
-/

set_option autoImplicit false

namespace WinMali.Trampoline
open WinMali.AsSlots WinMali.VmTable WinMali.CsfSubmit

/-- The bits `lo` to `lo + len - 1` of an instruction. -/
def field (w : Word) (lo len : ℕ) : ℕ := w.toNat / 2 ^ lo % 2 ^ len

inductive Instr
  | nop
  | move48 (reg imm : ℕ)
  | move32 (reg imm : ℕ)
  | wait (slots : ℕ)
  | call (addrReg sizeReg : ℕ)
  | flushCache2 (signalSlot flushReg waitMask mode : ℕ)
  | errorBarrier
  | syncAdd64 (signalSlot addrReg valReg waitMask flags : ℕ)
deriving DecidableEq, Repr

def decode (w : Word) : Option Instr :=
  match field w 56 8 with
  | 0 => if field w 0 56 = 0 then some .nop else none
  | 1 => some (.move48 (field w 48 8) (field w 0 48))
  | 2 => if field w 32 16 = 0 then some (.move32 (field w 48 8) (field w 0 32)) else none
  | 3 =>
    if field w 32 24 = 0 ∧ field w 0 16 = 0 then some (.wait (field w 16 16)) else none
  | 32 =>
    if field w 48 8 = 0 ∧ field w 0 32 = 0 then some (.call (field w 40 8) (field w 32 8))
    else none
  | 36 =>
    if field w 32 8 = 0 then
      some (.flushCache2 (field w 48 8) (field w 40 8) (field w 16 16) (field w 0 16))
    else none
  | 47 => if field w 0 56 = 0 then some .errorBarrier else none
  | 51 =>
    some (.syncAdd64 (field w 48 8) (field w 40 8) (field w 32 8) (field w 16 16) (field w 0 16))
  | _ => none

/-- The registers that an instruction uses. An address, and a value of more than 32 bits, is in
two of them. -/
def Instr.regs : Instr → List ℕ
  | .nop | .wait _ | .errorBarrier => []
  | .move48 reg _ => [reg, reg + 1]
  | .move32 reg _ => [reg]
  | .call addrReg sizeReg => [addrReg, addrReg + 1, sizeReg]
  | .flushCache2 _ flushReg _ _ => [flushReg]
  | .syncAdd64 _ addrReg valReg _ _ => [addrReg, addrReg + 1, valReg, valReg + 1]

def csfUnpreservedRegCount : Word := 4

/-- What `InitCsfIfaces_` makes of the `Features` of the first command stream. -/
def csRegCount (features : BitVec 32) : Word := ((features &&& 0xFF) + 1).setWidth 64

def sbSlotCount (features : BitVec 32) : ℕ := ((features >>> 8) &&& 0xFF).toNat

def setFeatures (fw : FwCtx) (features : BitVec 32) : FwCtx :=
  { fw with
    csRegCount := csRegCount features
    csUnpreservedRegCount := csfUnpreservedRegCount
    sbSlotCount := sbSlotCount features }

/-- The instructions that the trampoline is to be made of, for a register file of `regs`
registers and a device with `slots` scoreboard slots. -/
def trampoline (regs slots : ℕ) (c : StreamCall) : List Instr :=
  let addrReg := regs - 4
  let valReg := regs - 2
  [.move32 valReg c.latestFlush.toNat,
    .flushCache2 0 valReg 0 0x233,
    .move48 addrReg c.streamGpuVa.toNat,
    .move32 valReg c.streamSizeBytes.toNat,
    .wait 1,
    .call addrReg valReg,
    .move48 addrReg (csfSyncGpuVa.toNat + csfTagOffset.toNat),
    .move48 valReg csfTagPattern.toNat,
    .syncAdd64 0 addrReg valReg 0 1,
    .move48 addrReg csfSyncGpuVa.toNat,
    .move48 valReg 1,
    .wait (2 ^ max 1 (min slots 16) - 1),
    .syncAdd64 0 addrReg valReg 0 1,
    .nop,
    .nop,
    .errorBarrier]

/-- The words are those instructions, and they stay inside the register file. -/
def RoundTrips (fw : FwCtx) (c : StreamCall) : Prop :=
  (callInstrs fw c).map decode =
      (trampoline fw.csRegCount.toNat fw.sbSlotCount c).map some ∧
    ∀ w ∈ callInstrs fw c, ∀ instr, decode w = some instr →
      ∀ reg ∈ instr.regs, reg < fw.csRegCount.toNat

section Words

variable {a v e : Word} {op s : ℕ}

theorem or_shift_toNat (hlo : e.toNat < 2 ^ s) (hhi : a.toNat * 2 ^ s < 2 ^ 64) :
    (a <<< s ||| e).toNat = a.toNat * 2 ^ s + e.toNat := by
  rw [BitVec.toNat_or, BitVec.toNat_shiftLeft, Nat.shiftLeft_eq, Nat.mod_eq_of_lt hhi,
    ← Nat.shiftLeft_eq, ← Nat.shiftLeft_add_eq_or_of_lt hlo, Nat.shiftLeft_eq]

/-- The opcode, over what is below it. -/
theorem opcode_toNat (hop : op < 256) (he : e.toNat < 2 ^ 56) :
    (((op <<< 56 : ℕ) : Word) ||| e).toNat = op * 2 ^ 56 + e.toNat := by
  have hlt : op <<< 56 < 2 ^ 64 := by
    rw [Nat.shiftLeft_eq]
    omega
  have hcast : ((op <<< 56 : ℕ) : Word).toNat = op <<< 56 := by
    rw [BitVec.natCast_eq_ofNat, BitVec.toNat_ofNat, Nat.mod_eq_of_lt hlt]
  rw [BitVec.toNat_or, hcast, ← Nat.shiftLeft_add_eq_or_of_lt he, Nat.shiftLeft_eq]

/-- A register and an immediate. -/
theorem move_toNat (hop : op < 256) (ha : a.toNat < 256) (he : e.toNat < 2 ^ 48) :
    (((op <<< 56 : ℕ) : Word) ||| a <<< 48 ||| e).toNat =
      op * 2 ^ 56 + a.toNat * 2 ^ 48 + e.toNat := by
  have hlow := or_shift_toNat (a := a) he (by omega)
  rw [BitVec.or_assoc, opcode_toNat hop (by omega), hlow, Nat.add_assoc]

/-- Two registers, and what is below them. -/
theorem pair_toNat (hop : op < 256) (ha : a.toNat < 256) (hv : v.toNat < 256)
    (he : e.toNat < 2 ^ 32) :
    (((op <<< 56 : ℕ) : Word) ||| a <<< 40 ||| v <<< 32 ||| e).toNat =
      op * 2 ^ 56 + a.toNat * 2 ^ 40 + v.toNat * 2 ^ 32 + e.toNat := by
  have hlow := or_shift_toNat (a := v) he (by omega)
  have hmid := or_shift_toNat (a := a) (e := v <<< 32 ||| e) (s := 40) (by omega) (by omega)
  rw [BitVec.or_assoc, BitVec.or_assoc, opcode_toNat hop (by omega), hmid, hlow]
  omega

theorem flush_toNat (hv : v.toNat < 256) :
    (((36 <<< 56 : ℕ) : Word) ||| v <<< 40 ||| 0x233).toNat =
      36 * 2 ^ 56 + v.toNat * 2 ^ 40 + 0x233 := by
  have hlow := or_shift_toNat (a := v) (e := 0x233) (s := 40) (by decide) (by omega)
  have hmode : (0x233 : Word).toNat = 0x233 := rfl
  rw [BitVec.or_assoc, opcode_toNat (by decide) (by omega), hlow, hmode]
  omega

end Words

section Fields

variable {w : Word} {a v m e : ℕ}

theorem decode_move48 (h : w.toNat = 1 * 2 ^ 56 + a * 2 ^ 48 + e) (ha : a < 256)
    (he : e < 2 ^ 48) : decode w = some (.move48 a e) := by
  have hfields : field w 56 8 = 1 ∧ field w 48 8 = a ∧ field w 0 48 = e := by
    unfold field
    omega
  simp [decode, hfields]

theorem decode_move32 (h : w.toNat = 2 * 2 ^ 56 + a * 2 ^ 48 + e) (ha : a < 256)
    (he : e < 2 ^ 32) : decode w = some (.move32 a e) := by
  have hfields : field w 56 8 = 2 ∧ field w 48 8 = a ∧ field w 32 16 = 0 ∧
      field w 0 32 = e := by
    unfold field
    omega
  simp [decode, hfields]

theorem decode_wait (h : w.toNat = 3 * 2 ^ 56 + m * 2 ^ 16) (hm : m < 2 ^ 16) :
    decode w = some (.wait m) := by
  have hfields : field w 56 8 = 3 ∧ field w 32 24 = 0 ∧ field w 16 16 = m ∧
      field w 0 16 = 0 := by
    unfold field
    omega
  simp [decode, hfields]

theorem decode_call (h : w.toNat = 32 * 2 ^ 56 + a * 2 ^ 40 + v * 2 ^ 32) (ha : a < 256)
    (hv : v < 256) : decode w = some (.call a v) := by
  have hfields : field w 56 8 = 32 ∧ field w 48 8 = 0 ∧ field w 40 8 = a ∧
      field w 32 8 = v ∧ field w 0 32 = 0 := by
    unfold field
    omega
  simp [decode, hfields]

theorem decode_flush (h : w.toNat = 36 * 2 ^ 56 + a * 2 ^ 40 + e) (ha : a < 256)
    (he : e < 2 ^ 16) : decode w = some (.flushCache2 0 a 0 e) := by
  have hfields : field w 56 8 = 36 ∧ field w 48 8 = 0 ∧ field w 40 8 = a ∧
      field w 32 8 = 0 ∧ field w 16 16 = 0 ∧ field w 0 16 = e := by
    unfold field
    omega
  simp [decode, hfields]

theorem decode_syncAdd (h : w.toNat = 51 * 2 ^ 56 + a * 2 ^ 40 + v * 2 ^ 32 + e) (ha : a < 256)
    (hv : v < 256) (he : e < 2 ^ 16) : decode w = some (.syncAdd64 0 a v 0 e) := by
  have hfields : field w 56 8 = 51 ∧ field w 48 8 = 0 ∧ field w 40 8 = a ∧
      field w 32 8 = v ∧ field w 16 16 = 0 ∧ field w 0 16 = e := by
    unfold field
    omega
  simp [decode, hfields]

/-- An immediate of 48 bits is all that an instruction has room for. -/
theorem decode_move48_imm (h : decode w = some (.move48 a e)) : e < 2 ^ 48 := by
  unfold decode at h
  split at h
  all_goals first
    | (obtain ⟨-, rfl⟩ := Instr.move48.inj (Option.some.inj h)
       exact Nat.mod_lt _ (by decide))
    | cases h
    | (split at h <;> cases h)

end Fields

section Decode

variable {a v e : Word}

theorem move48_word (ha : a.toNat < 256) (he : e.toNat < 2 ^ 48) :
    decode (((1 <<< 56 : ℕ) : Word) ||| a <<< 48 ||| e) = some (.move48 a.toNat e.toNat) :=
  decode_move48 (move_toNat (by decide) ha he) ha he

theorem move32_word (hv : v.toNat < 256) (x : BitVec 32) :
    decode (((2 <<< 56 : ℕ) : Word) ||| v <<< 48 ||| x.setWidth 64) =
      some (.move32 v.toNat x.toNat) := by
  have hx : (x.setWidth 64).toNat = x.toNat := by
    rw [BitVec.toNat_setWidth]
    omega
  have hword := move_toNat (e := x.setWidth 64) (show 2 < 256 by decide) hv (by omega)
  rw [hx] at hword
  exact decode_move32 hword hv x.isLt

theorem flush_word (hv : v.toNat < 256) :
    decode (((36 <<< 56 : ℕ) : Word) ||| v <<< 40 ||| 0x233) =
      some (.flushCache2 0 v.toNat 0 0x233) :=
  decode_flush (flush_toNat hv) hv (by decide)

theorem call_word (ha : a.toNat < 256) (hv : v.toNat < 256) :
    decode (((32 <<< 56 : ℕ) : Word) ||| a <<< 40 ||| v <<< 32) =
      some (.call a.toNat v.toNat) := by
  have hword := pair_toNat (e := 0#64) (show 32 < 256 by decide) ha hv (by decide)
  rw [BitVec.or_zero, BitVec.toNat_ofNat, Nat.zero_mod, Nat.add_zero] at hword
  exact decode_call hword ha hv

theorem syncAdd_word (ha : a.toNat < 256) (hv : v.toNat < 256) :
    decode (((51 <<< 56 : ℕ) : Word) ||| a <<< 40 ||| v <<< 32 ||| 1) =
      some (.syncAdd64 0 a.toNat v.toNat 0 1) :=
  decode_syncAdd (pair_toNat (by decide) ha hv (by decide)) ha hv (by decide)

theorem wait_word (ha : a.toNat < 2 ^ 16) :
    decode (((3 <<< 56 : ℕ) : Word) ||| a <<< 16) = some (.wait a.toNat) := by
  have hshift : (a <<< 16).toNat = a.toNat * 2 ^ 16 := by
    rw [BitVec.toNat_shiftLeft, Nat.shiftLeft_eq, Nat.mod_eq_of_lt (by omega)]
  refine decode_wait ?_ ha
  rw [opcode_toNat (by decide) (by omega), hshift]

end Decode

/-- The registers of a device with at least four: two pairs at the end of the file. -/
theorem registers_toNat {features : BitVec 32} (hregs : 4 ≤ (csRegCount features).toNat) :
    (csRegCount features).toNat ≤ 256 ∧
      (csRegCount features - csfUnpreservedRegCount).toNat = (csRegCount features).toNat - 4 ∧
      (csRegCount features - csfUnpreservedRegCount + 2).toNat =
        (csRegCount features).toNat - 2 := by
  have hmask : (features &&& 0xFF).toNat ≤ 255 := Nat.and_le_right
  have hcount : (csRegCount features).toNat ≤ 256 := by
    have hone : (1 : BitVec 32).toNat = 1 := rfl
    simp only [csRegCount, BitVec.toNat_setWidth, BitVec.toNat_add, hone]
    omega
  have haddr : (csRegCount features - csfUnpreservedRegCount).toNat =
      (csRegCount features).toNat - 4 :=
    BitVec.toNat_sub_of_le (show csfUnpreservedRegCount.toNat ≤ _ from hregs)
  refine ⟨hcount, haddr, ?_⟩
  have htwo : (2 : Word).toNat = 2 := rfl
  rw [BitVec.toNat_add, haddr, htwo]
  omega

/-- The mask of the second wait: every slot of the device, one at least and 16 at most. -/
theorem sbWaitMask_toNat (slots : ℕ) :
    (sbWaitMask slots).toNat = 2 ^ max 1 (min slots 16) - 1 := by
  unfold sbWaitMask
  split
  · rename_i hz
    simp [hz]
  split
  · rename_i hmax
    rw [Nat.min_eq_right hmax]
    rfl
  · rename_i hz hmax
    rw [Nat.min_eq_left (by omega), Nat.max_eq_right (by omega)]
    have hlt : slots < 16 := by omega
    have : ∀ n < 16, ((1 : Word) <<< n - 1).toNat = 2 ^ n - 1 := by decide
    exact this slots hlt

theorem callInstrs_decode (fw : FwCtx) {features : BitVec 32} {c : StreamCall}
    (hregs : 4 ≤ (csRegCount features).toNat) (hva : c.streamGpuVa.toNat < 2 ^ 48) :
    (callInstrs (setFeatures fw features) c).map decode =
      (trampoline (csRegCount features).toNat (sbSlotCount features) c).map some := by
  obtain ⟨hcount, haddr, hval⟩ := registers_toNat hregs
  have ha : (csRegCount features - csfUnpreservedRegCount).toNat < 256 := by omega
  have hv : (csRegCount features - csfUnpreservedRegCount + 2).toNat < 256 := by omega
  have hslots := sbWaitMask_toNat (sbSlotCount features)
  have hmask : (sbWaitMask (sbSlotCount features)).toNat < 2 ^ 16 := by
    have hle : max 1 (min (sbSlotCount features) 16) ≤ 16 := by omega
    have := Nat.pow_le_pow_right (n := 2) (by decide) hle
    omega
  have hfirst : decode (((3 <<< 56 : ℕ) : Word) ||| ((1 <<< 16 : ℕ) : Word)) =
      some (.wait 1) := by decide
  simp only [callInstrs, setFeatures, trampoline, List.map_cons, List.map_nil,
    move32_word hv, flush_word hv, move48_word ha hva, call_word ha hv, syncAdd_word ha hv,
    wait_word hmask, hfirst,
    move48_word (e := csfSyncGpuVa + csfTagOffset) ha (by decide),
    move48_word (e := csfTagPattern) hv (by decide),
    move48_word (e := csfSyncGpuVa) ha (by decide),
    move48_word (e := 1) hv (by decide), haddr, hval, hslots]
  rfl

theorem trampoline_regs {regs slots : ℕ} {c : StreamCall} {instr : Instr} (hregs : 4 ≤ regs)
    (h : instr ∈ trampoline regs slots c) : ∀ reg ∈ instr.regs, reg < regs := by
  intro reg hreg
  simp only [trampoline, List.mem_cons, List.not_mem_nil, or_false] at h
  rcases h with rfl | rfl | rfl | rfl | rfl | rfl | rfl | rfl | rfl | rfl | rfl | rfl | rfl | rfl |
    rfl | rfl <;> simp [Instr.regs] at hreg <;> omega

/-- The words of a submit are the instructions of the trampoline exactly when the address of the
stream has no more than 48 bits. -/
theorem trampoline_iff (fw : FwCtx) (features : BitVec 32) (c : StreamCall)
    (hregs : 4 ≤ (csRegCount features).toNat) :
    RoundTrips (setFeatures fw features) c ↔ c.streamGpuVa.toNat < 2 ^ 48 := by
  constructor
  · rintro ⟨hwords, -⟩
    have hstream := congrArg (fun l => l[2]?) hwords
    simp only [callInstrs, trampoline, List.map_cons, List.getElem?_cons_succ,
      List.getElem?_cons_zero, Option.some.injEq] at hstream
    exact decode_move48_imm hstream
  · intro hva
    have hwords := callInstrs_decode fw hregs hva
    refine ⟨hwords, fun w hw instr hinstr reg hreg => ?_⟩
    have hmem : some instr ∈
        (trampoline (csRegCount features).toNat (sbSlotCount features) c).map some := by
      rw [← hwords, ← hinstr]
      exact List.mem_map_of_mem hw
    obtain ⟨_, hmem', heq⟩ := List.mem_map.mp hmem
    obtain rfl := Option.some.inj heq
    exact trampoline_regs hregs hmem' reg hreg

/-- A device with 96 registers in a command stream and eight scoreboard slots. -/
def features96 : BitVec 32 := 0x085F

def streamAt (va : Word) : StreamCall := ⟨va, 64, 0, 2, 500⟩

theorem low_stream_roundTrips :
    RoundTrips (setFeatures (bootstrapped 0 0 0 1) features96) (streamAt 0x7FFFFFFFF000) :=
  (trampoline_iff _ features96 (streamAt 0x7FFFFFFFF000) (by decide)).mpr (by decide)

/-- Bit 48 of the address is the lowest bit of the register number. -/
theorem high_stream_rewrites_register :
    ¬RoundTrips (setFeatures (bootstrapped 0 0 0 1) features96) (streamAt 0x1000000001000) ∧
      ((callInstrs (setFeatures (bootstrapped 0 0 0 1) features96)
        (streamAt 0x1000000001000)).map decode)[2]? = some (some (.move48 93 0x1000)) ∧
      (trampoline 96 8 (streamAt 0x1000000001000))[2]? = some (.move48 92 0x1000000001000) := by
  refine ⟨fun h => ?_, by decide +kernel, by decide +kernel⟩
  have hwords := congrArg (fun l => l[2]?) h.1
  revert hwords
  decide +kernel

end WinMali.Trampoline
