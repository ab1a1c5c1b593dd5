import WinMaliKmd.ForLoops
import WinMaliKmd.Lpae

/-!
# Powering on the L2 slices

`WinMaliFwGpuL2PowerOn_` asks for the slices of a mask that it computes from
`GPU_L2_PRESENT` and polls until all of them are ready. The GPU is seen through its
registers; time passes in stalls of ten microseconds.
-/

set_option autoImplicit false

namespace WinMali.L2Power
open WinMali.ForLoops WinMali.Lpae

/-- `asked` is what `L2_PWRON` was written with. The other two are `L2_PWRTRANS` and
`L2_READY` as a read finds them, by what was asked for and the time. -/
structure Hw where
  l2Present : Word
  asked : Word
  now : ℕ
  pwrtrans : Word → ℕ → Word
  ready : Word → ℕ → Word

/-- Register `i` of a pair. -/
def half (w : Word) (i : ℕ) : BitVec 32 := (w >>> (i * 32)).setWidth 32

def word (lo hi : BitVec 32) : Word := hi.setWidth 64 <<< 32 ||| lo.setWidth 64

def timeoutUs : ℕ := 20000

/-- One read for each ten microseconds, with `left` to go; the time of the read that is done. -/
def poll (done : BitVec 32 → Bool) (read : ℕ → BitVec 32) : ℕ → ℕ → Option ℕ
  | 0, _ => none
  | left + 1, now => if done (read now) then some now else poll done read left (now + 1)

/-- The body of the loop over the two registers. -/
def pollHalf (done : BitVec 32 → BitVec 32 → Bool) (reg : Hw → ℕ → Word) (mask : Word)
    (timeout i : ℕ) (hw : Hw) : Option NtStatus × Hw :=
  let mask32 := half mask i
  if mask32 = 0 then (none, hw)
  else
    match poll (done mask32) (fun now => half (reg hw now) i) (timeout / 10) hw.now with
    | some now => (none, { hw with now := now })
    | none => (some .ioTimeout, { hw with now := hw.now + timeout / 10 })

def pollHalves (done : BitVec 32 → BitVec 32 → Bool) (reg : Hw → ℕ → Word) (mask : Word)
    (timeout : ℕ) (hw : Hw) : NtStatus × Hw :=
  match forLoop (pollHalf done reg mask timeout) 2 0 hw with
  | (some st, hw) => (st, hw)
  | (none, hw) => (.success, hw)

def pollPwrTransClear (mask : Word) (timeout : ℕ) (hw : Hw) : NtStatus × Hw :=
  pollHalves (fun mask32 v => mask32 &&& v == 0) (fun hw => hw.pwrtrans hw.asked) mask timeout hw

def pollL2Ready (mask : Word) (timeout : ℕ) (hw : Hw) : NtStatus × Hw :=
  pollHalves (fun mask32 v => mask32 &&& v == mask32) (fun hw => hw.ready hw.asked) mask timeout hw

def l2Mask (l2Present : Word) : Word :=
  if l2Present = 1 then 1
  else if l2Present = 0 then 1
  else ~~~(l2Present - 1) &&& (l2Present - 2)

/-- The writes to `L2_PWRON_LO` and `L2_PWRON_HI`; a half without slices is not written. -/
def l2Pwron (mask : Word) (hw : Hw) : Hw :=
  let lo := if mask &&& 0xffffffff ≠ 0 then word (half mask 0) 0 else 0
  let hi := if mask >>> 32 ≠ 0 then word 0 (half mask 1) else 0
  { hw with asked := hw.asked ||| lo ||| hi }

def gpuL2PowerOn (hw : Hw) : NtStatus × Word × Hw :=
  let mask := l2Mask (word (half hw.l2Present 0) (half hw.l2Present 1))
  match pollPwrTransClear mask timeoutUs hw with
  | (.success, hw) =>
    let (st, hw) := pollL2Ready mask timeoutUs (l2Pwron mask hw)
    (st, mask, hw)
  | (st, hw) => (st, mask, hw)

/-- From any time on, the slices that are there and asked for are ready at one of the next
reads, and a slice that is not there never is. -/
structure Honest (hw : Hw) : Prop where
  present : ∀ asked now, ∃ n < timeoutUs / 10,
    asked &&& hw.l2Present &&& ~~~hw.ready asked (now + n) = 0
  absent : ∀ asked now, hw.ready asked now &&& ~~~hw.l2Present = 0

structure PowersPresent (l2Present : Word) : Prop where
  some : l2Mask l2Present ≠ 0
  within : l2Mask l2Present &&& ~~~l2Present = 0
  ready : ∀ hw : Hw, hw.l2Present = l2Present → Honest hw →
    (pollL2Ready (l2Mask l2Present) timeoutUs (l2Pwron (l2Mask l2Present) hw)).1 = .success

section Halves

variable {a b w : Word}

theorem word_half (w : Word) : word (half w 0) (half w 1) = w := by
  apply BitVec.eq_of_getLsbD_eq
  intro i hi
  simp only [word, half, BitVec.getLsbD_or, BitVec.getLsbD_shiftLeft, BitVec.getLsbD_setWidth,
    BitVec.getLsbD_ushiftRight]
  by_cases h : i < 32
  · simp [h, hi]
  · have h32 : i - 32 < 32 := by omega
    have h64 : i - 32 < 64 := by omega
    simp [h, hi, h32, h64, show 32 + (i - 32) = i by omega]

theorem half_and (i : ℕ) : half (a &&& b) i = half a i &&& half b i := by
  simp [half, BitVec.ushiftRight_and_distrib, BitVec.setWidth_and]

@[simp] theorem half_zero (i : ℕ) : half 0 i = 0 := by
  simp [half]

theorem exists_half (h : w ≠ 0) : ∃ i < 2, half w i ≠ 0 := by
  by_contra hno
  have hall : ∀ i < 2, half w i = 0 := fun i hi => by_contra fun h => hno ⟨i, hi, h⟩
  apply h
  rw [← word_half w, hall 0 (by omega), hall 1 (by omega)]
  rfl

theorem lo_eq (w : Word) : (if w &&& 0xffffffff ≠ 0 then word (half w 0) 0 else 0) =
    word (half w 0) 0 := by
  have hlo : word (half w 0) 0 = w &&& 0xffffffff := by
    apply BitVec.eq_of_toNat_eq
    have hmod : w.toNat &&& 4294967295 = w.toNat % 4294967296 :=
      Nat.and_two_pow_sub_one_eq_mod w.toNat 32
    have hlt : w.toNat % 4294967296 < 18446744073709551616 := by omega
    simp [word, half, hmod, Nat.mod_eq_of_lt hlt]
  rw [hlo, ite_eq_left_iff, not_not]
  exact Eq.symm

theorem hi_eq (w : Word) : (if w >>> 32 ≠ 0 then word 0 (half w 1) else 0) =
    word 0 (half w 1) := by
  rw [ite_eq_left_iff, not_not]
  intro h
  simp [word, half, h]

theorem l2Pwron_eq (mask : Word) (hw : Hw) :
    l2Pwron mask hw = { hw with asked := hw.asked ||| mask } := by
  have hboth : word (half mask 0) 0 ||| word 0 (half mask 1) = mask := by
    calc
      _ = word (half mask 0) (half mask 1) := by simp [word, BitVec.or_comm]
      _ = mask := word_half mask
  rw [l2Pwron, lo_eq, hi_eq, BitVec.or_assoc, hboth]

end Halves

section Polls

variable {done : BitVec 32 → Bool} {read : ℕ → BitVec 32} {left now : ℕ}

theorem poll_isSome_iff :
    (poll done read left now).isSome ↔ ∃ n < left, done (read (now + n)) = true := by
  induction left generalizing now with
  | zero => simp [poll]
  | succ left ih =>
    rw [poll, Nat.exists_lt_succ_left, Nat.add_zero]
    by_cases h : done (read now) = true
    · simp [h]
    · simp [h, ih, Nat.add_assoc, Nat.add_comm 1]

variable {done : BitVec 32 → BitVec 32 → Bool} {reg : Hw → ℕ → Word} {mask : Word}
  {timeout i : ℕ} {hw : Hw}

/-- Polling one register changes the time and nothing else. -/
theorem pollHalf_cases (done : BitVec 32 → BitVec 32 → Bool) (reg : Hw → ℕ → Word) (mask : Word)
    (timeout i : ℕ) (hw : Hw) : ∃ now,
    pollHalf done reg mask timeout i hw = (none, { hw with now := now }) ∨
      pollHalf done reg mask timeout i hw = (some .ioTimeout, { hw with now := now }) := by
  unfold pollHalf
  dsimp only
  split
  · exact ⟨hw.now, .inl rfl⟩
  · split
    · exact ⟨_, .inl rfl⟩
    · exact ⟨_, .inr rfl⟩

theorem pollHalf_goes (h : half mask i ≠ 0 → ∃ n < timeout / 10,
    done (half mask i) (half (reg hw (hw.now + n)) i) = true) :
    (pollHalf done reg mask timeout i hw).1 = none := by
  unfold pollHalf
  dsimp only
  split
  · rfl
  · rename_i h0
    have hsome : (poll (done (half mask i)) (fun now => half (reg hw now) i) (timeout / 10)
        hw.now).isSome := poll_isSome_iff.mpr (h h0)
    obtain ⟨t, ht⟩ := Option.isSome_iff_exists.mp hsome
    rw [ht]

theorem pollHalf_stops (h0 : half mask i ≠ 0) (h : ∀ n < timeout / 10,
    done (half mask i) (half (reg hw (hw.now + n)) i) ≠ true) :
    (pollHalf done reg mask timeout i hw).1 = some .ioTimeout := by
  have hnone : poll (done (half mask i)) (fun now => half (reg hw now) i) (timeout / 10) hw.now =
      none := by
    rw [← Option.not_isSome_iff_eq_none, poll_isSome_iff]
    rintro ⟨n, hn, hdone⟩
    exact h n hn hdone
  simp only [pollHalf, if_neg h0, hnone]

theorem pollHalves_stops {now : ℕ} (h : pollHalf done reg mask timeout 0 hw =
    (some .ioTimeout, { hw with now := now })) :
    pollHalves done reg mask timeout hw = (.ioTimeout, { hw with now := now }) := by
  rw [pollHalves, forLoop, h]

theorem pollHalves_goes {now : ℕ} (h : pollHalf done reg mask timeout 0 hw =
    (none, { hw with now := now })) : pollHalves done reg mask timeout hw =
      ((pollHalf done reg mask timeout 1 { hw with now := now }).1.getD .success,
        (pollHalf done reg mask timeout 1 { hw with now := now }).2) := by
  rw [pollHalves, forLoop, h]
  simp only [forLoop, Nat.zero_add]
  rcases pollHalf done reg mask timeout 1 { hw with now := now } with ⟨_ | st, hw'⟩ <;> rfl

theorem pollHalves_cases : ∃ now,
    pollHalves done reg mask timeout hw = (.success, { hw with now := now }) ∨
      pollHalves done reg mask timeout hw = (.ioTimeout, { hw with now := now }) := by
  obtain ⟨now, h | h⟩ := pollHalf_cases done reg mask timeout 0 hw
  · obtain ⟨now', h' | h'⟩ := pollHalf_cases done reg mask timeout 1 { hw with now := now }
    · exact ⟨now', .inl (by rw [pollHalves_goes h, h']; rfl)⟩
    · exact ⟨now', .inr (by rw [pollHalves_goes h, h']; rfl)⟩
  · exact ⟨now, .inr (pollHalves_stops h)⟩

/-- Registers that are done within the time-out whenever the polling of them starts. -/
theorem pollHalves_success (h : ∀ i < 2, ∀ now, half mask i ≠ 0 → ∃ n < timeout / 10,
    done (half mask i) (half (reg { hw with now := now } (now + n)) i) = true) :
    (pollHalves done reg mask timeout hw).1 = .success := by
  have hlo : (pollHalf done reg mask timeout 0 hw).1 = none := pollHalf_goes (h 0 (by omega) hw.now)
  obtain ⟨now, h0 | h0⟩ := pollHalf_cases done reg mask timeout 0 hw
  · have hhi : (pollHalf done reg mask timeout 1 { hw with now := now }).1 = none :=
      pollHalf_goes (h 1 (by omega) now)
    rw [pollHalves_goes h0, hhi, Option.getD_none]
  · rw [h0] at hlo
    cases hlo

/-- A register that is never done stops the call, if not the one before it does. -/
theorem pollHalves_timeout (hi : i < 2) (h0 : half mask i ≠ 0) (h : ∀ now n,
    done (half mask i) (half (reg { hw with now := now } (now + n)) i) ≠ true) :
    (pollHalves done reg mask timeout hw).1 = .ioTimeout := by
  obtain ⟨now, hlo | hlo⟩ := pollHalf_cases done reg mask timeout 0 hw
  · obtain rfl | rfl : i = 0 ∨ i = 1 := by omega
    · have hstop : (pollHalf done reg mask timeout 0 hw).1 = some .ioTimeout :=
        pollHalf_stops h0 fun n _ => h hw.now n
      rw [hlo] at hstop
      cases hstop
    · have hstop : (pollHalf done reg mask timeout 1 { hw with now := now }).1 = some .ioTimeout :=
        pollHalf_stops h0 fun n _ => h now n
      rw [pollHalves_goes hlo, hstop, Option.getD_some]
  · rw [pollHalves_stops hlo]

end Polls

section Mask

variable {p x y : Word} {q b c j : ℕ}

theorem getLsbD_low (h : x.toNat = 2 ^ 2 * q + b) (hb : b < 2 ^ 2) (j : ℕ) :
    x.getLsbD j = if j < 2 then b.testBit j else q.testBit (j - 2) := by
  rw [BitVec.getLsbD, h, Nat.testBit_two_pow_mul_add _ hb]

/-- What the bit trick leaves of a number and its predecessor that share their upper bits. -/
theorem andNot_getLsbD (hx : x.toNat = 2 ^ 2 * q + b) (hy : y.toNat = 2 ^ 2 * q + c)
    (hb : b < 2 ^ 2) (hc : c < 2 ^ 2) (hj : j < 64) :
    (~~~x &&& y).getLsbD j = (decide (j < 2) && !b.testBit j && c.testBit j) := by
  rw [BitVec.getLsbD_and, BitVec.getLsbD_not, getLsbD_low hx hb, getLsbD_low hy hc]
  by_cases h : j < 2 <;> simp [h, hj]

theorem l2Mask_eq (h1 : p ≠ 1) (h0 : p ≠ 0) : l2Mask p = ~~~(p - 1) &&& (p - 2) := by
  rw [l2Mask, if_neg h1, if_neg h0]

theorem l2Mask_three (h : p.toNat % 4 = 3) : l2Mask p = 1 := by
  have hx : (p - 1).toNat = 2 ^ 2 * (p.toNat / 4) + 2 := by bv_omega
  have hy : (p - 2).toNat = 2 ^ 2 * (p.toNat / 4) + 1 := by bv_omega
  rw [l2Mask_eq (by bv_omega) (by bv_omega)]
  apply BitVec.eq_of_getLsbD_eq
  intro j hj
  rw [andNot_getLsbD hx hy (by decide) (by decide) hj]
  by_cases hlow : j < 2
  · obtain rfl | rfl : j = 0 ∨ j = 1 := by omega
    all_goals decide
  · have hone : j ≠ 0 := by omega
    simp [hlow, hone]

/-- Of an even bitmap nothing is left. -/
theorem l2Mask_even (h : p.toNat % 2 = 0) (h0 : p ≠ 0) : l2Mask p = 0 := by
  have hne : p.toNat ≠ 0 := fun h => h0 (BitVec.eq_of_toNat_eq h)
  have hx : (p - 1).toNat = 2 ^ 2 * ((p.toNat - 1) / 4) + (p.toNat - 1) % 4 := by bv_omega
  have hy : (p - 2).toNat = 2 ^ 2 * ((p.toNat - 1) / 4) + ((p.toNat - 1) % 4 - 1) := by bv_omega
  rw [l2Mask_eq (by bv_omega) h0]
  apply BitVec.eq_of_getLsbD_eq
  intro j hj
  rw [andNot_getLsbD hx hy (by omega) (by omega) hj]
  by_cases hlow : j < 2
  · obtain hb | hb : (p.toNat - 1) % 4 = 1 ∨ (p.toNat - 1) % 4 = 3 := by omega
    all_goals
      rw [hb]
      obtain rfl | rfl : j = 0 ∨ j = 1 := by omega
      all_goals decide
  · simp [hlow]

/-- The slice above slice 0 is asked for though it is not there. -/
theorem l2Mask_one (h : p.toNat % 4 = 1) (h1 : p ≠ 1) : l2Mask p &&& ~~~p ≠ 0 := by
  have hne : p.toNat ≠ 1 := fun h => h1 (BitVec.eq_of_toNat_eq h)
  have hp : p.toNat = 2 ^ 2 * (p.toNat / 4) + 1 := by omega
  have hx : (p - 1).toNat = 2 ^ 2 * (p.toNat / 4) + 0 := by bv_omega
  have hy : (p - 2).toNat = 2 ^ 2 * (p.toNat / 4 - 1) + 3 := by bv_omega
  intro hzero
  have hbit : (l2Mask p &&& ~~~p).getLsbD 1 = true := by
    rw [l2Mask_eq h1 (by bv_omega)]
    simp only [BitVec.getLsbD_and, BitVec.getLsbD_not, getLsbD_low hx (by decide),
      getLsbD_low hy (by decide), getLsbD_low hp (by decide), if_pos (show 1 < 2 by decide)]
    decide
  simp [hzero] at hbit

end Mask

/-- Slices that are there and have been asked for. -/
theorem pollL2Ready_success {mask : Word} {hw : Hw} (H : Honest hw)
    (hp : mask &&& ~~~hw.l2Present = 0) (ha : mask &&& ~~~hw.asked = 0) :
    (pollL2Ready mask timeoutUs hw).1 = .success := by
  refine pollHalves_success fun i _ now _ => ?_
  obtain ⟨n, hn, hready⟩ := H.present hw.asked now
  have hall : mask &&& hw.ready hw.asked (now + n) = mask := by
    ext j hj
    have hpj := congrArg (fun w => w.getLsbD j) hp
    have haj := congrArg (fun w => w.getLsbD j) ha
    have hrj := congrArg (fun w => w.getLsbD j) hready
    simp [hj] at hpj haj hrj ⊢
    grind
  refine ⟨n, hn, ?_⟩
  rw [beq_iff_eq, ← half_and, hall]

/-- A slice that is not there is waited for in vain. -/
theorem pollL2Ready_timeout {mask : Word} {hw : Hw} (H : Honest hw)
    (hp : mask &&& ~~~hw.l2Present ≠ 0) : (pollL2Ready mask timeoutUs hw).1 = .ioTimeout := by
  obtain ⟨i, hi, habsent⟩ := exists_half hp
  refine pollHalves_timeout hi (fun h => habsent (by simp [half_and, h])) ?_
  intro now n hdone
  rw [beq_iff_eq, ← half_and] at hdone
  apply habsent
  have hnone := congrArg (fun w => half w i) (H.absent hw.asked (now + n))
  rw [half_and] at hdone hnone ⊢
  rw [← hdone, BitVec.and_assoc, hnone, half_zero]
  exact BitVec.and_zero

/-- With a mask that reaches beyond the slices the call fails on all hardware. -/
theorem gpuL2PowerOn_fails {hw : Hw} (H : Honest hw)
    (h : l2Mask hw.l2Present &&& ~~~hw.l2Present ≠ 0) : (gpuL2PowerOn hw).1 = .ioTimeout := by
  obtain ⟨now, hclear | hclear⟩ : ∃ now,
      pollPwrTransClear (l2Mask hw.l2Present) timeoutUs hw = (.success, { hw with now := now }) ∨
      pollPwrTransClear (l2Mask hw.l2Present) timeoutUs hw = (.ioTimeout, { hw with now := now }) :=
    pollHalves_cases
  · simp only [gpuL2PowerOn, word_half, hclear, l2Pwron_eq]
    exact pollL2Ready_timeout ⟨H.present, H.absent⟩ h
  · simp only [gpuL2PowerOn, word_half, hclear]

theorem gpuL2PowerOn_success {hw : Hw} (P : PowersPresent hw.l2Present) (H : Honest hw)
    (hidle : ∀ asked now, ∃ n < timeoutUs / 10, hw.pwrtrans asked (now + n) = 0) :
    (gpuL2PowerOn hw).1 = .success := by
  have hclear : (pollPwrTransClear (l2Mask hw.l2Present) timeoutUs hw).1 = .success := by
    refine pollHalves_success fun i _ now _ => ?_
    obtain ⟨n, hn, hzero⟩ := hidle hw.asked now
    have hhalf : half (0 : Word) i = 0 := half_zero i
    exact ⟨n, hn, by simp only [hzero, hhalf]; simp⟩
  obtain ⟨now, hcases | hcases⟩ : ∃ now,
      pollPwrTransClear (l2Mask hw.l2Present) timeoutUs hw = (.success, { hw with now := now }) ∨
      pollPwrTransClear (l2Mask hw.l2Present) timeoutUs hw = (.ioTimeout, { hw with now := now }) :=
    pollHalves_cases
  · simp only [gpuL2PowerOn, word_half, hcases]
    exact P.ready { hw with now := now } rfl ⟨H.present, H.absent⟩
  · rw [hcases] at hclear
    cases hclear

theorem powersPresent_iff (l2Present : Word) (h0 : l2Present ≠ 0) :
    PowersPresent l2Present ↔ l2Present = 1 ∨ l2Present.toNat % 4 = 3 := by
  constructor
  · intro P
    by_contra hno
    obtain ⟨h1, h3⟩ := not_or.mp hno
    obtain heven | hodd : l2Present.toNat % 2 = 0 ∨ l2Present.toNat % 4 = 1 := by omega
    · exact P.some (l2Mask_even heven h0)
    · exact l2Mask_one hodd h1 P.within
  · intro h
    have hmask : l2Mask l2Present = 1 := by
      rcases h with rfl | h
      · rfl
      · exact l2Mask_three h
    have hbit : l2Present.getLsbD 0 = true := by
      rw [BitVec.getLsbD, Nat.testBit_zero, decide_eq_true_eq]
      rcases h with rfl | h
      · rfl
      · omega
    have hwithin : (1 : Word) &&& ~~~l2Present = 0 := by
      ext j hj
      by_cases hj0 : j = 0
      · subst hj0
        simp [← BitVec.getLsbD_eq_getElem, hbit]
      · simp [hj0]
    refine ⟨by rw [hmask]; decide, by rw [hmask]; exact hwithin, ?_⟩
    rintro hw rfl H
    rw [hmask, l2Pwron_eq]
    refine pollL2Ready_success ⟨H.present, H.absent⟩ hwithin ?_
    ext j hj
    by_cases hj0 : j = 0 <;> simp [hj0]

theorem powersPresent_seven : PowersPresent 7 :=
  (powersPresent_iff 7 (by decide)).mpr (.inr (by decide))

/-- A GPU whose slices are ready as soon as they are asked for. -/
def gpu (l2Present : Word) : Hw :=
  { l2Present := l2Present
    asked := 0
    now := 0
    pwrtrans := fun _ _ => 0
    ready := fun asked _ => asked &&& l2Present }

theorem gpu_honest (l2Present : Word) : Honest (gpu l2Present) where
  present := fun asked now => ⟨0, by decide, by simp [gpu]⟩
  absent := fun asked now => by simp [gpu, BitVec.and_assoc]

/-- Slices 0 and 2: the call asks for 0 and 1. With slice 1 alone it asks for none. -/
theorem not_powersPresent_five : ¬PowersPresent 5 ∧ (gpuL2PowerOn (gpu 5)).1 = .ioTimeout ∧
    ¬PowersPresent 2 ∧ l2Mask 2 = 0 := by
  have hfive : l2Mask 5 &&& ~~~5 ≠ 0 := by decide
  have htwo : l2Mask 2 = 0 := by decide
  exact ⟨fun P => hfive P.within, gpuL2PowerOn_fails (gpu_honest 5) hfive,
    fun P => P.some htwo, htwo⟩

end WinMali.L2Power
