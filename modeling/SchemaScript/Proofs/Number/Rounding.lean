import Mathlib.Algebra.Order.Field.Power
import Mathlib.Data.Rat.Cast.Order
import Mathlib.Tactic.FieldSimp
import Mathlib.Tactic.GCongr
import Mathlib.Tactic.Linarith
import Mathlib.Tactic.NormNum
import Mathlib.Tactic.Positivity
import Mathlib.Tactic.Qify
import Mathlib.Tactic.Ring
import SchemaScript.Number.Shortest

/-!
# Rounding a fraction

A fraction is rounded to the floating point number in whose rounding interval it lies. What
rounding gives is in one form (`Binary64.IsCanonical`), and a number of this form is the rounding
of every fraction in its interval (`Binary64.ofRatio?_eq_some`): the fractions between the middles
of the number and its two neighbours, the middles themselves included if the mantissa is even.

Below a power of two the neighbour is only half as far away. A fraction down there is rounded with
the smaller exponent, to the mantissa that does not fit any more, and this is the power of two.
-/

namespace SchemaScript
namespace Binary64

variable {num den q : ℕ} {e : ℤ}

/-! ## Whole numbers -/

/-- A whole number is nearest to the fractions at most a half away, or less if it is odd. -/
theorem nearest_eq (hden : 0 < den) (hlow : (q : ℚ) - 1 / 2 ≤ num / den)
    (hhigh : (num : ℚ) / den ≤ q + 1 / 2)
    (htie : q % 2 = 0 ∨ (q : ℚ) - 1 / 2 < num / den ∧ (num : ℚ) / den < q + 1 / 2) :
    nearest num den = q := by
  have hden' : (0 : ℚ) < den := Nat.cast_pos.2 hden
  rw [le_div_iff₀ hden'] at hlow
  rw [div_le_iff₀ hden'] at hhigh
  rw [lt_div_iff₀ hden', div_lt_iff₀ hden'] at htie
  have hlow' : 2 * q * den ≤ 2 * num + den := by qify; linarith
  have hhigh' : 2 * num ≤ 2 * q * den + den := by qify; linarith
  have htie' : q % 2 = 0 ∨ 2 * q * den < 2 * num + den ∧ 2 * num < 2 * q * den + den :=
    htie.imp_right fun h => ⟨by qify; linarith [h.1], by qify; linarith [h.2]⟩
  have hsplit := Nat.div_add_mod num den
  have hmod := Nat.mod_lt num hden
  clear hlow hhigh htie hden'
  unfold nearest
  dsimp only
  generalize num / den = p at *
  generalize num % den = r at *
  -- the quotient is the whole number itself or the one in front of it
  have hp : p = q ∨ p + 1 = q := by
    have hbelow : 2 * q * den < 2 * (p + 2) * den := by nlinarith
    have habove : 2 * p * den < 2 * (q + 1) * den := by nlinarith
    have h1 := Nat.lt_of_mul_lt_mul_right hbelow
    have h2 := Nat.lt_of_mul_lt_mul_right habove
    omega
  rcases hp with rfl | rfl
  · have hr : 2 * r ≤ den := by nlinarith
    have hodd : p % 2 = 0 ∨ 2 * r < den := by
      rcases htie' with h | ⟨-, h⟩
      · exact Or.inl h
      · exact Or.inr (by nlinarith)
    split_ifs <;> omega
  · have hr : den ≤ 2 * r := by nlinarith
    have hodd : (p + 1) % 2 = 0 ∨ den < 2 * r := by
      rcases htie' with h | ⟨h, -⟩
      · exact Or.inl h
      · exact Or.inr (by nlinarith)
    split_ifs <;> omega

/-- Rounding does not go beyond a whole number. -/
theorem le_nearest (hden : 0 < den) (h : (q : ℚ) ≤ num / den) : q ≤ nearest num den := by
  have hden' : (0 : ℚ) < den := Nat.cast_pos.2 hden
  rw [le_div_iff₀ hden'] at h
  have hle : q ≤ num / den := (Nat.le_div_iff_mul_le hden).2 (by exact_mod_cast h)
  unfold nearest
  dsimp only
  split_ifs <;> omega

theorem nearest_le (hden : 0 < den) (h : (num : ℚ) / den ≤ q) : nearest num den ≤ q := by
  have hden' : (0 : ℚ) < den := Nat.cast_pos.2 hden
  rw [div_le_iff₀ hden'] at h
  have hle : num ≤ q * den := by exact_mod_cast h
  have hsplit := Nat.div_add_mod num den
  unfold nearest
  dsimp only
  generalize num / den = p at *
  generalize num % den = r at *
  have hp : p ≤ q := by
    by_contra hx
    have hlt : (q + 1) * den ≤ p * den := Nat.mul_le_mul_right den (by omega)
    nlinarith
  have hr : p = q → r = 0 := by
    rintro rfl
    nlinarith
  split_ifs <;> omega

/-- A fraction times a power of two is a fraction. -/
theorem exists_nearestScaled (num : ℕ) (hden : 0 < den) (e : ℤ) :
    ∃ a b : ℕ, 0 < b ∧ nearestScaled num den e = nearest a b ∧ (a : ℚ) / b = num / den / 2 ^ e := by
  have hden' : (den : ℚ) ≠ 0 := Nat.cast_ne_zero.2 hden.ne'
  unfold nearestScaled
  split
  · rename_i he
    obtain ⟨n, rfl⟩ := Int.eq_ofNat_of_zero_le he
    refine ⟨num, den * 2 ^ n, by positivity, ?_, ?_⟩
    · rw [Int.toNat_natCast, Nat.shiftLeft_eq]
    · rw [zpow_natCast, div_div]
      push_cast
      rfl
  · rename_i he
    obtain ⟨n, rfl⟩ := Int.exists_eq_neg_ofNat (a := e) (by omega)
    refine ⟨num * 2 ^ n, den, hden, ?_, ?_⟩
    · rw [neg_neg, Int.toNat_natCast, Nat.shiftLeft_eq]
    · rw [zpow_neg, zpow_natCast, div_inv_eq_mul, div_mul_eq_mul_div]
      push_cast
      rfl

/-- A whole number is nearest to the fractions at most half a step away. -/
theorem nearestScaled_eq (hden : 0 < den)
    (hlow : ((q : ℚ) - 1 / 2) * 2 ^ e ≤ num / den) (hhigh : (num : ℚ) / den ≤ (q + 1 / 2) * 2 ^ e)
    (htie : q % 2 = 0 ∨
      ((q : ℚ) - 1 / 2) * 2 ^ e < num / den ∧ (num : ℚ) / den < (q + 1 / 2) * 2 ^ e) :
    nearestScaled num den e = q := by
  have hpow : (0 : ℚ) < 2 ^ e := by positivity
  obtain ⟨a, b, hb, heq, hvalue⟩ := exists_nearestScaled num hden e
  rw [heq]
  rw [← le_div_iff₀ hpow, ← hvalue] at hlow
  rw [← div_le_iff₀ hpow, ← hvalue] at hhigh
  rw [← lt_div_iff₀ hpow, ← div_lt_iff₀ hpow, ← hvalue] at htie
  exact nearest_eq hb hlow hhigh htie

theorem le_nearestScaled (hden : 0 < den) (h : (q : ℚ) * 2 ^ e ≤ num / den) :
    q ≤ nearestScaled num den e := by
  have hpow : (0 : ℚ) < 2 ^ e := by positivity
  obtain ⟨a, b, hb, heq, hvalue⟩ := exists_nearestScaled num hden e
  rw [← le_div_iff₀ hpow, ← hvalue] at h
  rw [heq]
  exact le_nearest hb h

theorem nearestScaled_le (hden : 0 < den) (h : (num : ℚ) / den ≤ q * 2 ^ e) :
    nearestScaled num den e ≤ q := by
  have hpow : (0 : ℚ) < 2 ^ e := by positivity
  obtain ⟨a, b, hb, heq, hvalue⟩ := exists_nearestScaled num hden e
  rw [← div_le_iff₀ hpow, ← hvalue] at h
  rw [heq]
  exact nearest_le hb h

/-! ## The binary magnitude -/

/-- A whole number lies between the powers of two that its logarithm gives. -/
theorem zpow_log2_le {n : ℕ} (hn : n ≠ 0) : (2 : ℚ) ^ (n.log2 : ℤ) ≤ n ∧
    (n : ℚ) < 2 ^ ((n.log2 : ℤ) + 1) := by
  have hlow : 2 ^ n.log2 ≤ n := Nat.log2_self_le hn
  have hhigh : n < 2 ^ (n.log2 + 1) := Nat.lt_log2_self
  constructor
  · exact_mod_cast hlow
  · exact_mod_cast hhigh

/-- Whether the magnitude that the logarithms give is reached is decided in whole numbers. -/
theorem shiftLeft_le_iff (num : ℕ) (hden : 0 < den) (k : ℤ) :
    (if 0 ≤ k then den <<< k.toNat ≤ num else den ≤ num <<< (-k).toNat) ↔
      (2 : ℚ) ^ k ≤ num / den := by
  rw [le_div_iff₀ (Nat.cast_pos.2 hden)]
  split
  · rename_i hk
    obtain ⟨n, rfl⟩ := Int.eq_ofNat_of_zero_le hk
    rw [Int.toNat_natCast, Nat.shiftLeft_eq, zpow_natCast, mul_comm]
    exact_mod_cast Iff.rfl
  · rename_i hk
    obtain ⟨n, rfl⟩ := Int.exists_eq_neg_ofNat (a := k) (by omega)
    have hpow : (0 : ℚ) < 2 ^ n := by positivity
    rw [neg_neg, Int.toNat_natCast, Nat.shiftLeft_eq, zpow_neg, zpow_natCast,
      inv_mul_le_iff₀ hpow, mul_comm]
    exact_mod_cast Iff.rfl

/-- **The binary magnitude is that of the first binary digit** of a fraction. -/
theorem zpow_binaryMagnitude_le (hnum : num ≠ 0) (hden : 0 < den) :
    (2 : ℚ) ^ binaryMagnitude num den ≤ num / den ∧
      (num : ℚ) / den < 2 ^ (binaryMagnitude num den + 1) := by
  have hden' : (0 : ℚ) < den := Nat.cast_pos.2 hden
  obtain ⟨hnumLow, hnumHigh⟩ := zpow_log2_le hnum
  obtain ⟨hdenLow, hdenHigh⟩ := zpow_log2_le hden.ne'
  have hreached := shiftLeft_le_iff num hden ((num.log2 : ℤ) - den.log2)
  unfold binaryMagnitude
  dsimp only
  by_cases h : (2 : ℚ) ^ ((num.log2 : ℤ) - den.log2) ≤ num / den
  · rw [if_pos (hreached.2 h)]
    refine ⟨h, ?_⟩
    rw [div_lt_iff₀ hden']
    calc (num : ℚ) < 2 ^ ((num.log2 : ℤ) + 1) := hnumHigh
      _ = 2 ^ ((num.log2 : ℤ) - den.log2 + 1) * 2 ^ (den.log2 : ℤ) := by
        rw [← zpow_add₀ two_ne_zero]
        congr 1
        ring
      _ ≤ 2 ^ ((num.log2 : ℤ) - den.log2 + 1) * den := by gcongr
  · rw [if_neg fun hx => h (hreached.1 hx), sub_add_cancel]
    refine ⟨?_, lt_of_not_ge h⟩
    rw [le_div_iff₀ hden']
    calc (2 : ℚ) ^ ((num.log2 : ℤ) - den.log2 - 1) * den
        ≤ 2 ^ ((num.log2 : ℤ) - den.log2 - 1) * 2 ^ ((den.log2 : ℤ) + 1) := by gcongr
      _ = 2 ^ (num.log2 : ℤ) := by
        rw [← zpow_add₀ two_ne_zero]
        congr 1
        ring
      _ ≤ num := hnumLow

/-- Between powers of two the magnitude is known. -/
theorem binaryMagnitude_eq (hnum : num ≠ 0) (hden : 0 < den) {k : ℤ}
    (hlow : (2 : ℚ) ^ k ≤ num / den) (hhigh : (num : ℚ) / den < 2 ^ (k + 1)) :
    binaryMagnitude num den = k := by
  obtain ⟨hle, hlt⟩ := zpow_binaryMagnitude_le hnum hden
  have h1 := (zpow_lt_zpow_iff_right₀ (one_lt_two (α := ℚ))).1 (hlow.trans_lt hlt)
  have h2 := (zpow_lt_zpow_iff_right₀ (one_lt_two (α := ℚ))).1 (hle.trans_lt hhigh)
  omega

/-! ## What rounding gives -/

/-- The form of a floating point number: as many binary digits as fit, or the least exponent. -/
structure IsCanonical (x : Binary64) : Prop where
  mantissa_lt : x.mantissa < 2 ^ 53
  leading : x.exponent = minExponent ∨ 2 ^ 52 ≤ x.mantissa
  le_exponent : minExponent ≤ x.exponent
  exponent_le : x.exponent ≤ maxExponent

/-- Zero of either sign. -/
theorem isCanonical_zero (negative : Bool) : IsCanonical ⟨negative, 0, minExponent⟩ where
  mantissa_lt := by norm_num
  leading := Or.inl rfl
  le_exponent := le_rfl
  exponent_le := by
    show minExponent ≤ maxExponent
    decide

/-- A power of two with all digits that fit, as one of the next exponent. -/
theorem isCanonical_carried (negative : Bool) (hmin : minExponent ≤ e)
    (hmax : e + 1 ≤ maxExponent) : IsCanonical ⟨negative, 2 ^ 52, e + 1⟩ where
  mantissa_lt := by norm_num
  leading := Or.inr le_rfl
  le_exponent := by
    show minExponent ≤ e + 1
    omega
  exponent_le := hmax

variable {negative : Bool} {x : Binary64}

/-- **What rounding gives is canonical.** -/
theorem isCanonical_of_ofRatio? (hden : 0 < den) (h : ofRatio? negative num den = some x) :
    x.IsCanonical := by
  rw [ofRatio?] at h
  by_cases hnum : num = 0
  · rw [if_pos hnum] at h
    cases h
    exact isCanonical_zero negative
  rw [if_neg hnum] at h
  obtain ⟨hle, hlt⟩ := zpow_binaryMagnitude_le hnum hden
  dsimp only at h
  generalize binaryMagnitude num den = k at *
  have hmin : minExponent ≤ max (k - 52) minExponent := le_max_right _ _
  have hk : k - 52 ≤ max (k - 52) minExponent := le_max_left _ _
  have hcases : max (k - 52) minExponent = minExponent ∨ max (k - 52) minExponent = k - 52 := by
    omega
  generalize max (k - 52) minExponent = e at *
  have hhigh : nearestScaled num den e ≤ 2 ^ 53 := by
    refine nearestScaled_le hden (hlt.le.trans ?_)
    calc (2 : ℚ) ^ (k + 1) ≤ 2 ^ (53 + e) := zpow_le_zpow_right₀ one_le_two (by omega)
      _ = ((2 ^ 53 : ℕ) : ℚ) * 2 ^ e := by
        rw [zpow_add₀ two_ne_zero]
        norm_num
  have hlow : e = minExponent ∨ 2 ^ 52 ≤ nearestScaled num den e := by
    refine hcases.imp_right fun heq => le_nearestScaled hden (le_trans ?_ hle)
    calc ((2 ^ 52 : ℕ) : ℚ) * 2 ^ e = 2 ^ (52 + e) := by
          rw [zpow_add₀ two_ne_zero]
          norm_num
      _ ≤ (2 : ℚ) ^ k := zpow_le_zpow_right₀ one_le_two (by omega)
  rw [show 1 <<< 53 = 2 ^ 53 from rfl, show 1 <<< 52 = 2 ^ 52 from rfl] at h
  by_cases hcarry : nearestScaled num den e = 2 ^ 53
  · simp only [if_pos hcarry] at h
    split at h
    · cases h
      exact isCanonical_carried negative hmin ‹_›
    · cases h
  · simp only [if_neg hcarry] at h
    split at h
    · cases h
      exact ⟨lt_of_le_of_ne hhigh hcarry, hlow, hmin, ‹_›⟩
    · cases h

/-! ## The rounding interval -/

/-- Whether a fraction lies in the rounding interval of a number. -/
structure Rounds (x : Binary64) (r : ℚ) : Prop where
  low_le : (Number.roundingInterval x).low * (2 : ℚ) ^ (x.exponent - 2) ≤ r
  le_high : r ≤ (Number.roundingInterval x).high * (2 : ℚ) ^ (x.exponent - 2)
  strict : x.mantissa % 2 = 0 ∨
    (Number.roundingInterval x).low * (2 : ℚ) ^ (x.exponent - 2) < r ∧
      r < (Number.roundingInterval x).high * (2 : ℚ) ^ (x.exponent - 2)

/-- A quarter of the last place. -/
theorem zpow_sub_two (e : ℤ) : (2 : ℚ) ^ (e - 2) = 2 ^ e / 4 := by
  rw [zpow_sub₀ two_ne_zero]
  norm_num

theorem high_mul (x : Binary64) :
    ((Number.roundingInterval x).high : ℚ) * 2 ^ (x.exponent - 2) =
      (x.mantissa + 1 / 2) * 2 ^ x.exponent := by
  rw [zpow_sub_two, Number.roundingInterval]
  push_cast
  ring

/-- The low end is at most half a place below the number. -/
theorem le_low_mul (x : Binary64) :
    (x.mantissa - 1 / 2 : ℚ) * 2 ^ x.exponent ≤
      (Number.roundingInterval x).low * 2 ^ (x.exponent - 2) := by
  have hle : 4 * x.mantissa ≤ (Number.roundingInterval x).low + 2 := by
    unfold Number.roundingInterval
    dsimp only
    split <;> omega
  have hle' : (4 * x.mantissa - 2 : ℚ) ≤ (Number.roundingInterval x).low := by
    have hcast : ((4 * x.mantissa : ℕ) : ℚ) ≤ ((Number.roundingInterval x).low + 2 : ℕ) :=
      Nat.cast_le.2 hle
    push_cast at hcast
    linarith
  calc (x.mantissa - 1 / 2 : ℚ) * 2 ^ x.exponent
      = (4 * x.mantissa - 2) * 2 ^ (x.exponent - 2) := by
        rw [zpow_sub_two]
        ring
    _ ≤ (Number.roundingInterval x).low * 2 ^ (x.exponent - 2) := by gcongr

/-- Below a power of two the low end is half a place of the smaller exponent below the number. -/
theorem low_mul_of_eq (h : x.mantissa = 2 ^ 52) (hmin : minExponent < x.exponent) :
    ((Number.roundingInterval x).low : ℚ) * 2 ^ (x.exponent - 2) =
      ((2 ^ 53 : ℕ) - 1 / 2) * 2 ^ (x.exponent - 1) := by
  rw [zpow_sub_two, zpow_sub_one₀ two_ne_zero, Number.roundingInterval,
    show 1 <<< 52 = 2 ^ 52 from rfl]
  dsimp only
  rw [if_pos ⟨h, hmin⟩, h]
  norm_num
  ring

variable {m : ℕ}

/-- The number is what rounding to its own exponent gives. -/
theorem ofRatio?_of_nearestScaled (hnum : num ≠ 0) (hexponent : e ≤ maxExponent)
    (he : max (binaryMagnitude num den - 52) minExponent = e)
    (hnearest : nearestScaled num den e = m) (hm : m < 2 ^ 53) :
    ofRatio? negative num den = some ⟨negative, m, e⟩ := by
  rw [ofRatio?, if_neg hnum]
  dsimp only
  rw [he, hnearest, show 1 <<< 53 = 2 ^ 53 from rfl, if_neg hm.ne, if_pos hexponent]

/-- A mantissa that does not fit any more is carried over to the next exponent. -/
theorem ofRatio?_of_carried (hnum : num ≠ 0) (hexponent : e + 1 ≤ maxExponent)
    (he : max (binaryMagnitude num den - 52) minExponent = e)
    (hnearest : nearestScaled num den e = 2 ^ 53) :
    ofRatio? negative num den = some ⟨negative, 2 ^ 52, e + 1⟩ := by
  rw [ofRatio?, if_neg hnum]
  dsimp only
  rw [he, hnearest, if_pos (show 2 ^ 53 = 1 <<< 53 from rfl), if_pos hexponent]
  rfl

/-- The rounding interval of a number other than zero does not reach zero. -/
theorem low_pos (hzero : x.mantissa ≠ 0) : 0 < (Number.roundingInterval x).low := by
  unfold Number.roundingInterval
  dsimp only
  split <;> omega

/-- What lies in the rounding interval of a number other than zero is not zero. -/
theorem Rounds.num_ne_zero (hzero : x.mantissa ≠ 0) (hr : x.Rounds ((num : ℚ) / den)) :
    num ≠ 0 := by
  rintro rfl
  have hlow := low_pos hzero
  have hpos : (0 : ℚ) < (Number.roundingInterval x).low * 2 ^ (x.exponent - 2) := by positivity
  have hle := hr.low_le
  rw [Nat.cast_zero, zero_div] at hle
  exact absurd hle hpos.not_ge

/-- A fraction in the rounding interval has no more places than the number. -/
theorem Rounds.lt_zpow (hx : x.IsCanonical) {r : ℚ} (hr : x.Rounds r) :
    r < 2 ^ (x.exponent + 53) := by
  have hfits : (x.mantissa : ℚ) + 1 / 2 < 2 ^ 53 := by
    have hle : ((x.mantissa + 1 : ℕ) : ℚ) ≤ (2 ^ 53 : ℕ) := Nat.cast_le.2 hx.mantissa_lt
    push_cast at hle
    linarith
  calc r ≤ (Number.roundingInterval x).high * 2 ^ (x.exponent - 2) := hr.le_high
    _ = (x.mantissa + 1 / 2) * 2 ^ x.exponent := high_mul x
    _ < 2 ^ 53 * 2 ^ x.exponent := by gcongr
    _ = 2 ^ (x.exponent + 53) := by
      rw [add_comm, zpow_add₀ two_ne_zero]
      rfl

/-- A fraction with all places of the number is rounded to the exponent of the number. -/
theorem max_binaryMagnitude_eq (hx : x.IsCanonical) (hzero : x.mantissa ≠ 0) (hden : 0 < den)
    (hr : x.Rounds ((num : ℚ) / den))
    (hplaces : x.exponent = minExponent ∨ (2 : ℚ) ^ (x.exponent + 52) ≤ num / den) :
    max (binaryMagnitude num den - 52) minExponent = x.exponent := by
  have hnum := hr.num_ne_zero hzero
  have hbelow := hr.lt_zpow hx
  have hmin := hx.le_exponent
  rcases hplaces with hexponent | hplaces
  · have hle := (zpow_binaryMagnitude_le hnum hden).1
    have hlt := (zpow_lt_zpow_iff_right₀ (one_lt_two (α := ℚ))).1 (hle.trans_lt hbelow)
    omega
  · have hk : binaryMagnitude num den = x.exponent + 52 := by
      refine binaryMagnitude_eq hnum hden hplaces (hbelow.trans_eq ?_)
      rw [add_assoc]
      rfl
    omega

/-- A number in whose rounding interval there is a fraction with a place less is a power of two. -/
theorem mantissa_eq_of_lt (hx : x.IsCanonical) (hexponent : x.exponent ≠ minExponent) {r : ℚ}
    (hr : x.Rounds r) (hbelow : r < 2 ^ (x.exponent + 52)) : x.mantissa = 2 ^ 52 := by
  have hleading : 2 ^ 52 ≤ x.mantissa := hx.leading.resolve_left hexponent
  refine le_antisymm (Nat.lt_succ_iff.1 ?_) hleading
  have hlt : (x.mantissa - 1 / 2 : ℚ) * 2 ^ x.exponent < 2 ^ 52 * 2 ^ x.exponent := by
    calc (x.mantissa - 1 / 2 : ℚ) * 2 ^ x.exponent ≤ r := (le_low_mul x).trans hr.low_le
      _ < 2 ^ (x.exponent + 52) := hbelow
      _ = 2 ^ 52 * 2 ^ x.exponent := by
        rw [add_comm, zpow_add₀ two_ne_zero]
        rfl
  have hlt' : (x.mantissa : ℚ) < (2 ^ 52 + 1 : ℕ) := by
    have := lt_of_mul_lt_mul_right hlt (by positivity)
    push_cast
    linarith
  exact_mod_cast hlt'

/-- **A number is the rounding of the fractions in its rounding interval.** -/
theorem ofRatio?_eq_some (hx : x.IsCanonical) (hzero : x.mantissa ≠ 0) (hden : 0 < den)
    (hr : x.Rounds ((num : ℚ) / den)) : ofRatio? x.negative num den = some x := by
  have hnum := hr.num_ne_zero hzero
  have hpow : (0 : ℚ) < 2 ^ x.exponent := by positivity
  have hmin := hx.le_exponent
  have hhigh := hr.le_high
  have htie := hr.strict
  have hlow := hr.low_le
  rw [high_mul] at hhigh htie
  by_cases hplaces : x.exponent = minExponent ∨ (2 : ℚ) ^ (x.exponent + 52) ≤ num / den
  · -- all places are there, and the mantissa is nearest
    exact ofRatio?_of_nearestScaled hnum hx.exponent_le
      (max_binaryMagnitude_eq hx hzero hden hr hplaces)
      (nearestScaled_eq hden ((le_low_mul x).trans hlow) hhigh
        (htie.imp_right fun h => ⟨(le_low_mul x).trans_lt h.1, h.2⟩)) hx.mantissa_lt
  · -- a place less: the fraction lies below a power of two, and this is the number
    rw [not_or, not_le] at hplaces
    obtain ⟨hexponent, hbelow⟩ := hplaces
    have hsmall : minExponent < x.exponent := by omega
    have hpower : x.mantissa = 2 ^ 52 := mantissa_eq_of_lt hx hexponent hr hbelow
    rw [low_mul_of_eq hpower hsmall] at hlow
    have hscale (n : ℕ) :
        (2 : ℚ) ^ (x.exponent + ((n : ℤ) - 1)) = 2 ^ n * 2 ^ (x.exponent - 1) := by
      rw [← zpow_natCast, ← zpow_add₀ two_ne_zero]
      congr 1
      ring
    have hcarried : ofRatio? x.negative num den =
        some ⟨x.negative, 2 ^ 52, x.exponent - 1 + 1⟩ := by
      refine ofRatio?_of_carried hnum (by rw [sub_add_cancel]; exact hx.exponent_le) ?_ ?_
      · have hk : binaryMagnitude num den = x.exponent + 51 := by
          refine binaryMagnitude_eq hnum hden (le_trans ?_ hlow) (hbelow.trans_eq ?_)
          · calc (2 : ℚ) ^ (x.exponent + 51) = 2 ^ 52 * 2 ^ (x.exponent - 1) := hscale 52
              _ ≤ ((2 ^ 53 : ℕ) - 1 / 2) * 2 ^ (x.exponent - 1) := by
                gcongr
                norm_num
          · rw [add_assoc]
            rfl
        omega
      · refine nearestScaled_eq hden hlow ?_ (Or.inl rfl)
        calc (num : ℚ) / den ≤ 2 ^ (x.exponent + 52) := hbelow.le
          _ = 2 ^ 53 * 2 ^ (x.exponent - 1) := hscale 53
          _ ≤ ((2 ^ 53 : ℕ) + 1 / 2) * 2 ^ (x.exponent - 1) := by
            gcongr
            norm_num
    rw [hcarried, sub_add_cancel, ← hpower]

end Binary64
end SchemaScript
