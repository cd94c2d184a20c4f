import Bindgen.Proofs.Wire.Stream
import Bindgen.Wire.Real

/-!
# Real numbers go between the formats unchanged

A number of a binary format is `m * 2 ^ (leastExponent + j)` for a normalised pair `(j, m)` (`Normalised`), and
its magnitude bits are `j * 2 ^ fractionBits + m`. `round?_exact` says that rounding finds that pair wherever
the number is one of the format, so that it is not changed by rounding.

Results:
* `parts_eq`: the parts of any bits are a normalised pair.
* `narrow?_widen`: every number of 32 bits that is a number comes back from 64 bits.
* `isNaN_widen`: what is no number is none in the other format.
-/

namespace Bindgen.Wire.FloatFormat

variable {f : FloatFormat}

/-- `m` has no more bits than the format holds, and as many unless the exponent is the least one. -/
structure Normalised (f : FloatFormat) (j m : Nat) : Prop where
  lt : m < 2 * twoPow f.fractionBits
  le : 0 < j → twoPow f.fractionBits ≤ m

/-- The magnitude bits of a pair. -/
def magnitudeOf (f : FloatFormat) (j m : Nat) : Nat := j * twoPow f.fractionBits + m

/-! ## Sign and magnitude -/

theorem isNegative_withSign {s : Bool} {n : Nat} (h : n < f.signBit) :
    f.isNegative (f.withSign s n) = s := by
  unfold isNegative withSign
  cases s with
  | false => simpa using h
  | true => simp

theorem magnitude_withSign {s : Bool} {n : Nat} (h : n < f.signBit) :
    f.magnitude (f.withSign s n) = n := by
  unfold magnitude withSign
  cases s with
  | false => exact Nat.mod_eq_of_lt h
  | true => rw [if_pos rfl, Nat.add_mod_left, Nat.mod_eq_of_lt h]

theorem withSign_isNegative {bits : Nat} (h : bits < 2 * f.signBit) :
    f.withSign (f.isNegative bits) (f.magnitude bits) = bits := by
  unfold withSign isNegative magnitude
  by_cases hs : f.signBit ≤ bits
  · rw [if_pos (decide_eq_true hs), Nat.mod_eq_sub_mod hs, Nat.mod_eq_of_lt (by omega)]
    omega
  · rw [if_neg (by simpa using hs), Nat.mod_eq_of_lt (by omega)]

/-! ## Normalised pairs -/

/-- The parts of bits are the normalised pair of their magnitude. -/
theorem parts_eq (f : FloatFormat) (bits : Nat) :
    ∃ j m : Nat, f.parts bits = (m, f.leastExponent + j) ∧ f.magnitude bits = f.magnitudeOf j m ∧
      f.Normalised j m := by
  have hp := twoPow_pos f.fractionBits
  have hmod := Nat.mod_lt (f.magnitude bits) hp
  have hdiv := Nat.div_add_mod (f.magnitude bits) (twoPow f.fractionBits)
  unfold parts magnitudeOf
  simp only
  split
  · rename_i h0
    rw [h0, Nat.mul_zero, Nat.zero_add] at hdiv
    exact ⟨0, _, by rw [Int.natCast_zero, Int.add_zero], by rw [Nat.zero_mul, Nat.zero_add, hdiv],
      ⟨by omega, fun h => absurd h (Nat.lt_irrefl 0)⟩⟩
  · rename_i h0
    refine ⟨f.magnitude bits / twoPow f.fractionBits - 1,
      twoPow f.fractionBits + f.magnitude bits % twoPow f.fractionBits, ?_, ?_,
      ⟨by omega, fun _ => by omega⟩⟩
    · rw [Int.natCast_sub (Nat.pos_of_ne_zero h0)]
      rfl
    · rw [← Nat.add_assoc, ← Nat.succ_mul, Nat.succ_eq_add_one, Nat.sub_add_cancel (Nat.pos_of_ne_zero h0),
        Nat.mul_comm]
      exact hdiv.symm

/-- A normalised pair is the parts of its magnitude. -/
theorem parts_of_magnitude {bits j m : Nat} (hn : f.Normalised j m)
    (h : f.magnitude bits = f.magnitudeOf j m) : f.parts bits = (m, f.leastExponent + j) := by
  have hp := twoPow_pos f.fractionBits
  have hlt := hn.lt
  have hle := hn.le
  unfold parts
  simp only [h, magnitudeOf]
  rw [Nat.mul_comm j, Nat.mul_add_div hp, Nat.mul_add_mod]
  by_cases hm : twoPow f.fractionBits ≤ m
  · have hq : m / twoPow f.fractionBits = 1 := Nat.div_eq_of_lt_le (by omega) (by omega)
    have hr : m % twoPow f.fractionBits = m - twoPow f.fractionBits := by
      rw [Nat.mod_eq_sub_mod hm, Nat.mod_eq_of_lt (by omega)]
    rw [hq, hr, if_neg (by omega)]
    simp only [Prod.mk.injEq]
    constructor <;> omega
  · obtain rfl : j = 0 := by omega
    rw [Nat.div_eq_of_lt (by omega), Nat.mod_eq_of_lt (by omega), if_pos rfl]
    simp only [Int.natCast_zero, Int.add_zero]

/-! ## Rounding -/

theorem shiftRounded_mul (m k : Nat) : shiftRounded (m * twoPow k) k = m := by
  have hp := twoPow_pos k
  unfold shiftRounded
  simp only [Nat.mul_div_cancel m hp, Nat.mul_mod_left, Nat.mul_zero]
  rw [if_pos (Or.inl hp)]

theorem log2_mul_twoPow {m : Nat} (hm : m ≠ 0) (k : Nat) : (m * twoPow k).log2 = m.log2 + k := by
  have hp := twoPow_pos k
  rw [twoPow_eq] at hp ⊢
  rw [Nat.log2_eq_iff (Nat.mul_ne_zero hm hp.ne'), Nat.pow_add, Nat.add_right_comm, Nat.pow_add]
  exact ⟨Nat.mul_le_mul_right _ (Nat.log2_self_le hm), Nat.mul_lt_mul_of_pos_right Nat.lt_log2_self hp⟩

/-- The number `m * 2 ^ e` is `n` at the exponent `x`: one of the two is scaled to the other. -/
def Scaled (m : Nat) (e : Int) (n : Nat) (x : Int) : Prop :=
  ∃ k : Nat, e = x + k ∧ n = m * twoPow k ∨ e + k = x ∧ m = n * twoPow k

theorem Scaled.log2 {m n : Nat} {e x : Int} (h : Scaled m e n x) (hn : n ≠ 0) :
    m ≠ 0 ∧ e + m.log2 = x + n.log2 := by
  obtain ⟨k, ⟨he, rfl⟩ | ⟨he, rfl⟩⟩ := h
  · have hm : m ≠ 0 := fun h0 => hn (by rw [h0, Nat.zero_mul])
    refine ⟨hm, ?_⟩
    rw [log2_mul_twoPow hm]
    omega
  · refine ⟨Nat.mul_ne_zero hn (twoPow_pos k).ne', ?_⟩
    rw [log2_mul_twoPow hn]
    omega

/-- **Rounding does not change a number of the format.** -/
theorem round?_exact {m n j : Nat} {e : Int} (hn : n ≠ 0) (hnorm : f.Normalised j n)
    (hfin : f.magnitudeOf j n < f.infinity) (h : Scaled m e n (f.leastExponent + j)) :
    f.round? m e = some (f.magnitudeOf j n) := by
  obtain ⟨hm, hlog⟩ := h.log2 hn
  have hle := hnorm.le
  have hlt := hnorm.lt
  -- the place of the last bit is the exponent of the pair
  have hplace : max (e + m.log2 - f.fractionBits) f.leastExponent = f.leastExponent + j := by
    rcases Nat.eq_zero_or_pos j with rfl | hj
    · have : n.log2 < f.fractionBits + 1 := by
        rw [Nat.log2_lt hn, Nat.pow_succ, Nat.mul_comm, ← twoPow_eq]
        exact hlt
      omega
    · have : n.log2 = f.fractionBits := by
        rw [Nat.log2_eq_iff hn, Nat.pow_succ, Nat.mul_comm _ 2, ← twoPow_eq]
        exact ⟨hle hj, hlt⟩
      omega
  have hcount : (if f.leastExponent + j ≤ e then m * twoPow (e - (f.leastExponent + j)).toNat
      else shiftRounded m (f.leastExponent + j - e).toNat) = n := by
    obtain ⟨k, ⟨he, hk⟩ | ⟨he, hk⟩⟩ := h
    · rw [if_pos (by omega), hk, show (e - (f.leastExponent + j)).toNat = k by omega]
    · rcases Nat.eq_zero_or_pos k with rfl | hpos
      · rw [if_pos (by omega), hk, show (e - (f.leastExponent + j)).toNat = 0 by omega]
        show n * 1 * 1 = n
        rw [Nat.mul_one, Nat.mul_one]
      · rw [if_neg (by omega), hk, show (f.leastExponent + j - e).toNat = k by omega, shiftRounded_mul]
  unfold round?
  rw [if_neg hm]
  simp only
  rw [hplace, hcount, show (f.leastExponent + j - f.leastExponent).toNat = j by omega]
  exact if_pos hfin

end Bindgen.Wire.FloatFormat

namespace Bindgen.Wire

open FloatFormat

/-! ## Between 32 and 64 bits -/

theorem wide_lt {J M : Nat} (hJ : J ≤ 1178) (hM : M < 2 ^ 53) :
    J * 4503599627370496 + M < 9218868437227405312 := by
  omega

/-- The normalised pair in 64 bits of a number that is one in 32 bits. -/
theorem exists_wide {j m : Nat} (hm : m ≠ 0) (hn : binary32.Normalised j m)
    (hfin : binary32.magnitudeOf j m < binary32.infinity) :
    ∃ J M : Nat, M ≠ 0 ∧ binary64.Normalised J M ∧ binary64.magnitudeOf J M < binary64.infinity ∧
      Scaled m (binary32.leastExponent + j) M (binary64.leastExponent + J) ∧
      Scaled M (binary64.leastExponent + J) m (binary32.leastExponent + j) := by
  have h32 : binary32.leastExponent = -149 := rfl
  have h64 : binary64.leastExponent = -1074 := rfl
  have hF : twoPow binary32.fractionBits = 8388608 := rfl
  have hF' : twoPow binary64.fractionBits = 4503599627370496 := rfl
  have hI : binary32.infinity = 2139095040 := rfl
  have hI' : binary64.infinity = 9218868437227405312 := rfl
  have hlt := hn.lt
  have hle := hn.le
  unfold magnitudeOf at hfin
  rw [hF] at hlt hle hfin
  rw [hI] at hfin
  have hlog : m.log2 < 24 := (Nat.log2_lt hm).2 (by omega)
  have hM : m * twoPow (52 - m.log2) ≠ 0 := Nat.mul_ne_zero hm (twoPow_pos _).ne'
  have hMlog : (m * twoPow (52 - m.log2)).log2 = 52 := by
    rw [log2_mul_twoPow hm]
    omega
  have hMrange := (Nat.log2_eq_iff hM).1 hMlog
  rw [h32, h64]
  refine ⟨925 + j - (52 - m.log2), m * twoPow (52 - m.log2), hM, ⟨?_, fun _ => ?_⟩, ?_,
    ⟨52 - m.log2, Or.inl ⟨by omega, rfl⟩⟩, ⟨52 - m.log2, Or.inr ⟨by omega, rfl⟩⟩⟩
  · rw [hF']; omega
  · rw [hF']; omega
  · have hJ : 925 + j - (52 - m.log2) ≤ 1178 := by omega
    unfold magnitudeOf
    rw [hF', hI']
    exact wide_lt hJ hMrange.2

/-- A number of 32 bits is rounded to one of 64 bits, and that back to it. -/
theorem exists_rounded {j m : Nat} (hn : binary32.Normalised j m)
    (hfin : binary32.magnitudeOf j m < binary32.infinity) :
    ∃ J M : Nat, binary64.Normalised J M ∧ binary64.magnitudeOf J M < binary64.infinity ∧
      binary64.round? m (binary32.leastExponent + j) = some (binary64.magnitudeOf J M) ∧
      binary32.round? M (binary64.leastExponent + J) = some (binary32.magnitudeOf j m) := by
  by_cases hm : m = 0
  · subst hm
    obtain rfl : j = 0 := by
      have := hn.le
      have := twoPow_pos binary32.fractionBits
      omega
    exact ⟨0, 0, ⟨by decide, fun h => absurd h (Nat.lt_irrefl 0)⟩, by decide, rfl, rfl⟩
  · obtain ⟨J, M, hM, hN, hI, hup, hdown⟩ := exists_wide hm hn hfin
    exact ⟨J, M, hN, hI, round?_exact hM hN hI hup, round?_exact hm hn hfin hdown⟩

/-- **A number of 32 bits comes back from 64 bits**, infinities and signed zeros included. -/
theorem narrow?_widen {b : Nat} (hb : b < twoPow 32) (hnan : binary32.isNaN b = false) :
    narrow? (widen b) = some b := by
  have hS : 2 * binary32.signBit = twoPow 32 := rfl
  have hwhole : binary32.withSign (binary32.isNegative b) (binary32.magnitude b) = b :=
    withSign_isNegative (by omega)
  have h64 : binary64.infinity < binary64.signBit := by decide
  by_cases hfin : binary32.isFinite b = true
  · obtain ⟨j, m, hparts, hmag, hnorm⟩ := parts_eq binary32 b
    rw [hmag] at hwhole
    have hlt : binary32.magnitudeOf j m < binary32.infinity := by
      rw [← hmag]
      simpa [FloatFormat.isFinite] using hfin
    obtain ⟨J, M, hw, hI, hup, hdown⟩ := exists_rounded hnorm hlt
    have hbound : binary64.magnitudeOf J M < binary64.signBit := by omega
    have hwide : widen b = binary64.withSign (binary32.isNegative b) (binary64.magnitudeOf J M) := by
      unfold widen
      simp only
      rw [if_pos hfin, hparts]
      simp only [hup, Option.getD_some]
    have hmag' := magnitude_withSign (s := binary32.isNegative b) hbound
    unfold narrow?
    simp only
    rw [hwide, isNegative_withSign hbound, parts_of_magnitude hw hmag',
      if_pos (by unfold FloatFormat.isFinite; rw [hmag']; exact decide_eq_true hI)]
    simp only [hdown, Option.map_some, hwhole]
  · -- neither finite nor no number: an infinity
    have hinf : binary32.magnitude b = binary32.infinity := by
      simp only [FloatFormat.isFinite, FloatFormat.isNaN, decide_eq_true_eq, decide_eq_false_iff_not] at hfin hnan
      omega
    rw [hinf] at hwhole
    have hwide : widen b = binary64.withSign (binary32.isNegative b) binary64.infinity := by
      unfold widen
      simp only
      rw [if_neg hfin, if_neg (by rw [hnan]; exact Bool.false_ne_true)]
    have hmag' := magnitude_withSign (s := binary32.isNegative b) h64
    unfold narrow?
    simp only
    rw [hwide, isNegative_withSign h64,
      if_neg (by unfold FloatFormat.isFinite; rw [hmag']; simp),
      if_neg (by unfold FloatFormat.isNaN; rw [hmag']; simp), hwhole]

/-- The bits of 64 for a number of 32 are the sign with a magnitude, which stands for no number if that of 32 bits
does not. -/
theorem widen_eq {b : Nat} : ∃ n < binary64.signBit, widen b = binary64.withSign (binary32.isNegative b) n ∧
    (binary64.infinity < n ↔ binary32.isNaN b = true) := by
  have h64 : binary64.infinity < binary64.signBit := by decide
  by_cases hfin : binary32.isFinite b = true
  · obtain ⟨j, m, hparts, hmag, hnorm⟩ := parts_eq binary32 b
    have hlt : binary32.magnitude b < binary32.infinity := by simpa [FloatFormat.isFinite] using hfin
    obtain ⟨J, M, -, hI, hup, -⟩ := exists_rounded hnorm (hmag ▸ hlt)
    refine ⟨binary64.magnitudeOf J M, by omega, ?_, ?_⟩
    · unfold widen
      simp only
      rw [if_pos hfin, hparts]
      simp only [hup, Option.getD_some]
    · unfold FloatFormat.isNaN
      rw [decide_eq_true_eq]
      omega
  · by_cases hnan : binary32.isNaN b = true
    · have hs : binary64.signBit = 9223372036854775808 := rfl
      have hi : binary64.infinity = 9218868437227405312 := rfl
      have h51 : twoPow 51 = 2251799813685248 := rfl
      have h29 : twoPow 29 = 536870912 := rfl
      have h22 : twoPow 22 = 4194304 := rfl
      refine ⟨binary64.infinity + twoPow 51 + b % twoPow 22 * twoPow 29, by rw [hs, hi, h51, h29, h22]; omega, ?_, ?_⟩
      · unfold widen
        simp only
        rw [if_neg hfin, if_pos hnan]
      · simp only [hnan, iff_true]
        rw [h51]
        omega
    · refine ⟨binary64.infinity, h64, ?_, ?_⟩
      · unfold widen
        simp only
        rw [if_neg hfin, if_neg hnan]
      · simp [hnan]

theorem widen_lt (b : Nat) : widen b < twoPow 64 := by
  obtain ⟨n, hn, hw, -⟩ := widen_eq (b := b)
  have h64 : twoPow 64 = 2 * binary64.signBit := rfl
  rw [hw]
  unfold FloatFormat.withSign
  split <;> omega

/-- What is no number is none in the other format. -/
theorem isNaN_widen (b : Nat) : binary64.isNaN (widen b) = binary32.isNaN b := by
  obtain ⟨n, hn, hw, hnan⟩ := widen_eq (b := b)
  rw [Bool.eq_iff_iff, ← hnan, hw]
  unfold FloatFormat.isNaN
  rw [magnitude_withSign hn, decide_eq_true_eq]

end Bindgen.Wire
