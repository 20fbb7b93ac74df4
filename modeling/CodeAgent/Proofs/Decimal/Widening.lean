import CodeAgent.Decimal.Double

/-! A number of thirty-two bits goes into sixty-four and back without a change.
A double's fraction is wider and its exponents reach further, so a number that has to do without a leading
one gets one there; what is rounded off on the way back is zero. -/
namespace CodeAgent

namespace Decimal

theorem nearest_mul {den : Nat} (positive : 0 < den) (q : Nat) : nearest (q * den) den = q := by
  unfold nearest
  rw [Nat.mul_div_cancel q positive, Nat.mul_mod_left]
  simp [positive]

/- High bits over low bits -/

variable {low width : Nat} (high : Nat) (fits : low < Nat.pow 2 width)
include fits

theorem packed_div : (high * Nat.pow 2 width + low) / Nat.pow 2 width = high := by
  have positive : 0 < Nat.pow 2 width := Nat.zero_lt_of_lt fits
  rw [Nat.mul_comm, Nat.mul_add_div positive, Nat.div_eq_of_lt fits, Nat.add_zero]

theorem packed_mod : (high * Nat.pow 2 width + low) % Nat.pow 2 width = low := by
  rw [Nat.mul_comm, Nat.mul_add_mod, Nat.mod_eq_of_lt fits]

end Decimal

namespace Single

open Decimal

/-- An exponent and a fraction of a double that hold the number of these of a single. -/
structure Widens (biased fraction biased' fraction' : Nat) : Prop where
  exponent : biased' < 2048
  small : fraction' < Nat.pow 2 52
  widened : widened biased fraction = biased' * Nat.pow 2 52 + fraction'
  narrowed : narrowed biased' fraction' = biased * Nat.pow 2 23 + fraction

theorem spread : Nat.pow 2 52 = Nat.pow 2 23 * Nat.pow 2 29 := by decide

theorem scaled_lt {fraction : Nat} (small : fraction < Nat.pow 2 23) :
    fraction * Nat.pow 2 29 < Nat.pow 2 52 := by
  rw [spread]
  exact Nat.mul_lt_mul_of_pos_right small (by decide)

theorem widens_top {fraction : Nat} (small : fraction < Nat.pow 2 23) :
    Widens 255 fraction 2047 (fraction * Nat.pow 2 29) := by
  refine ⟨by decide, scaled_lt small, rfl, ?_⟩
  have positive : 0 < Nat.pow 2 29 := by decide
  rw [Single.narrowed, if_pos rfl, Nat.mul_div_cancel fraction positive]
  congr 1
  by_cases none : fraction = 0
  · rw [none]
    rfl
  · rw [if_neg (Nat.mul_ne_zero none (Nat.ne_of_gt positive)), Nat.max_eq_left (Nat.one_le_iff_ne_zero.mpr none)]

theorem widens_zero : Widens 0 0 0 0 := by
  refine ⟨by decide, by decide, rfl, ?_⟩
  have none (place : Nat) : nearest 0 (Nat.pow 2 place) = 0 := by
    have whole := nearest_mul (Nat.two_pow_pos place) 0
    rwa [Nat.zero_mul] at whole
  rw [Single.narrowed, if_neg (by decide), if_pos (by decide), if_pos rfl]
  exact none _

/-- The leading one of the fraction becomes that of the double. -/
theorem widens_least {fraction : Nat} (some : fraction ≠ 0) (small : fraction < Nat.pow 2 23) :
    Widens 0 fraction (874 + fraction.log2) (fraction * Nat.pow 2 (52 - fraction.log2) - Nat.pow 2 52) := by
  have place : fraction.log2 < 23 := (Nat.log2_lt some).mpr small
  have whole : Nat.pow 2 52 = Nat.pow 2 fraction.log2 * Nat.pow 2 (52 - fraction.log2) := by
    rw [Nat.pow_eq, Nat.pow_eq, Nat.pow_eq, ← Nat.pow_add]
    congr 1
    omega
  have room : 0 < Nat.pow 2 (52 - fraction.log2) := Nat.two_pow_pos _
  have least : Nat.pow 2 52 ≤ fraction * Nat.pow 2 (52 - fraction.log2) := by
    rw [whole]
    exact Nat.mul_le_mul_right _ (Nat.log2_self_le some)
  have most : fraction * Nat.pow 2 (52 - fraction.log2) < Nat.pow 2 52 + Nat.pow 2 52 := by
    have below : fraction < Nat.pow 2 fraction.log2 * 2 := Nat.lt_log2_self
    rw [whole, ← Nat.mul_two, Nat.mul_right_comm]
    exact Nat.mul_lt_mul_of_pos_right below room
  refine ⟨by omega, by omega, ?_, ?_⟩
  · rw [Single.widened, if_neg (by decide), if_pos rfl, if_neg some]
    have one : (874 + fraction.log2) * Nat.pow 2 52 = (873 + fraction.log2) * Nat.pow 2 52 + Nat.pow 2 52 := by
      rw [← Nat.succ_mul]
      congr 1
      omega
    rw [one, Nat.add_assoc, Nat.add_sub_cancel' least]
  · have shift : 926 - max (874 + fraction.log2) 1 = 52 - fraction.log2 := by omega
    rw [Single.narrowed, if_neg (by omega), if_pos (by omega), if_neg (by omega), shift,
      Nat.add_sub_cancel' least, nearest_mul room, Nat.zero_mul, Nat.zero_add]

theorem widens_normal {biased fraction : Nat} (leads : biased ≠ 0) (finite : biased < 255)
    (small : fraction < Nat.pow 2 23) :
    Widens biased fraction (biased + 896) (fraction * Nat.pow 2 29) := by
  refine ⟨by omega, scaled_lt small, ?_, ?_⟩
  · rw [Single.widened, if_neg (by omega), if_neg leads]
  · have unit : nearest (Nat.pow 2 52 + fraction * Nat.pow 2 29) (Nat.pow 2 29) = Nat.pow 2 23 + fraction := by
      rw [spread, ← Nat.add_mul]
      exact nearest_mul (by decide) _
    have one : biased * Nat.pow 2 23 = (biased + 896 - 897) * Nat.pow 2 23 + Nat.pow 2 23 := by
      rw [← Nat.succ_mul]
      congr 1
      omega
    have finite' : (biased + 1) * Nat.pow 2 23 ≤ 255 * Nat.pow 2 23 := Nat.mul_le_mul_right _ finite
    rw [Nat.succ_mul] at finite'
    rw [Single.narrowed, if_neg (by omega), if_neg (by omega), unit, ← Nat.add_assoc, ← one]
    exact Nat.min_eq_left (by omega)

theorem exists_widens {biased fraction : Nat} (exponent : biased < 256) (small : fraction < Nat.pow 2 23) :
    ∃ biased' fraction', Widens biased fraction biased' fraction' := by
  by_cases top : biased = 255
  · subst top
    exact ⟨_, _, widens_top small⟩
  · by_cases least : biased = 0
    · subst least
      by_cases none : fraction = 0
      · subst none
        exact ⟨_, _, widens_zero⟩
      · exact ⟨_, _, widens_least none small⟩
    · exact ⟨_, _, widens_normal least (by omega) small⟩

/-- Whatever a single holds, its double is that number. -/
theorem ofDouble_toDouble (s : Single) : ofDouble s.toDouble = s := by
  obtain ⟨bits⟩ := s
  have size : bits.toNat < Nat.pow 2 32 := bits.toNat_lt
  generalize same : bits.toNat = n at size
  have exponent : n % Nat.pow 2 31 / Nat.pow 2 23 < 256 := by
    have below : n % Nat.pow 2 31 < 256 * Nat.pow 2 23 := Nat.mod_lt n (by decide)
    exact (Nat.div_lt_iff_lt_mul (by decide)).mpr below
  obtain ⟨biased, fraction, wide⟩ :=
    exists_widens exponent (Nat.mod_lt n (by decide) : n % Nat.pow 2 23 < Nat.pow 2 23)
  have sign : n / Nat.pow 2 31 < 2 := (Nat.div_lt_iff_lt_mul (by decide)).mpr size
  have magnitude : biased * Nat.pow 2 52 + fraction < Nat.pow 2 63 := by
    have top : (biased + 1) * Nat.pow 2 52 ≤ 2048 * Nat.pow 2 52 := Nat.mul_le_mul_right _ wide.exponent
    have half : 2048 * Nat.pow 2 52 = Nat.pow 2 63 := by decide
    rw [Nat.succ_mul, half] at top
    have small := wide.small
    omega
  have double : (toDouble ⟨bits⟩).bits.toNat =
      n / Nat.pow 2 31 * Nat.pow 2 63 + (biased * Nat.pow 2 52 + fraction) := by
    simp only [toDouble, same, wide.widened]
    rw [UInt64.toNat_ofNat']
    apply Nat.mod_eq_of_lt
    have word : Nat.pow 2 63 + Nat.pow 2 63 = 2 ^ 64 := by decide
    have most : n / Nat.pow 2 31 * Nat.pow 2 63 ≤ 1 * Nat.pow 2 63 :=
      Nat.mul_le_mul_right _ (Nat.le_of_lt_succ sign)
    rw [Nat.one_mul] at most
    rw [← word]
    exact Nat.add_lt_add_of_le_of_lt most magnitude
  have low : (n / Nat.pow 2 31 * Nat.pow 2 63 + (biased * Nat.pow 2 52 + fraction)) % Nat.pow 2 52 =
      fraction := by
    have shape : n / Nat.pow 2 31 * Nat.pow 2 63 + (biased * Nat.pow 2 52 + fraction) =
        (n / Nat.pow 2 31 * Nat.pow 2 11 + biased) * Nat.pow 2 52 + fraction := by
      have split : Nat.pow 2 63 = Nat.pow 2 11 * Nat.pow 2 52 := by decide
      rw [split, Nat.add_mul, Nat.mul_assoc, Nat.add_assoc]
    rw [shape, packed_mod _ wide.small]
  have back : n / Nat.pow 2 31 * Nat.pow 2 31 + (n % Nat.pow 2 31 / Nat.pow 2 23 * Nat.pow 2 23 +
      n % Nat.pow 2 23) = n := by
    have inner : n % Nat.pow 2 31 % Nat.pow 2 23 = n % Nat.pow 2 23 :=
      Nat.mod_mod_of_dvd n (Nat.pow_dvd_pow 2 (by decide))
    rw [← inner, Nat.div_add_mod', Nat.div_add_mod']
  simp only [ofDouble, double, packed_div _ magnitude, packed_mod _ magnitude, packed_div _ wide.small, low,
    wide.narrowed, back]
  rw [← same, UInt32.ofNat_toNat]

end Single

end CodeAgent
