import SchemaScript.Proofs.Number.Rounding
import SchemaScript.Proofs.Number.Spelled

/-!
# Shortest decimals read back

The decimal that a floating point number is written with is read as this number again
(`Number.float?_plainText`). It is a point of the coarsest grid that has one in the rounding
interval of the number, so all there is to show is that such a grid exists, that the decimal is
written out exactly, and that reading rounds it to the number.
-/

namespace SchemaScript
namespace Number

open Binary64 (IsCanonical Rounds)

variable {tie : Tie} {i : RoundingInterval} {unit step d : ℕ} {x : Binary64} {power : ℤ}

/-! ## Points of a grid -/

/-- The point that is found lies in the interval. -/
theorem contains_of_gridPoint? (h : gridPoint? tie i unit step = some d) :
    i.contains unit (d * step) = true := by
  unfold gridPoint? at h
  dsimp only at h
  generalize hbelow : i.middle * unit / step = below at h
  by_cases hb : i.contains unit (below * step) = true <;>
    by_cases ha : i.contains unit ((below + 1) * step) = true
  · simp only [hb, ha, Bool.and_self, if_true] at h
    have hpick : tie.pick below = below ∨ tie.pick below = below + 1 := by
      cases tie with
      | even =>
        unfold Tie.pick
        dsimp only
        split
        · exact Or.inl rfl
        · exact Or.inr rfl
      | larger => exact Or.inr rfl
    have hd : d = below ∨ d = below + 1 := by
      split at h
      · exact Or.inl (Option.some.inj h).symm
      split at h
      · exact Or.inr (Option.some.inj h).symm
      · exact (Option.some.inj h) ▸ hpick
    rcases hd with rfl | rfl
    · exact hb
    · exact ha
  · simp only [hb, ha, Bool.and_false, Bool.false_eq_true, if_false, if_true] at h
    exact Option.some.inj h ▸ hb
  · simp only [hb, ha, Bool.false_and, Bool.false_eq_true, if_false, if_true] at h
    exact Option.some.inj h ▸ ha
  · simp only [hb, ha, Bool.false_and, Bool.false_eq_true, if_false] at h
    cases h

/-- A point is found if the one in front of the middle lies in the interval. -/
theorem isSome_gridPoint? (h : i.contains unit (i.middle * unit / step * step) = true) :
    (gridPoint? tie i unit step).isSome = true := by
  unfold gridPoint?
  dsimp only
  rw [h]
  split
  · split
    · rfl
    · split <;> rfl
  · rw [if_pos rfl]
    rfl

/-- A power of ten as a fraction of whole numbers. -/
theorem tenTo_div_tenTo (power : ℤ) :
    ((if 0 ≤ power then Binary64.tenTo power.toNat else 1 : ℕ) : ℚ) /
      ((if 0 ≤ power then 1 else Binary64.tenTo (-power).toNat : ℕ) : ℚ) = 10 ^ power := by
  have hten (n : ℕ) : ((Binary64.tenTo n : ℕ) : ℚ) = 10 ^ n := Nat.cast_pow 10 n
  split
  · rename_i h
    obtain ⟨n, rfl⟩ := Int.eq_ofNat_of_zero_le h
    rw [Int.toNat_natCast, hten, Nat.cast_one, div_one, zpow_natCast]
  · rename_i h
    obtain ⟨n, rfl⟩ := Int.exists_eq_neg_ofNat (a := power) (by omega)
    rw [neg_neg, Int.toNat_natCast, hten, Nat.cast_one, zpow_neg, zpow_natCast, one_div]

/-- A power of two as a fraction of whole numbers. -/
theorem two_pow_div_two_pow (e : ℤ) :
    ((2 ^ (-e).toNat : ℕ) : ℚ) / (2 ^ e.toNat : ℕ) = 1 / 2 ^ e := by
  rcases Int.le_total 0 e with h | h
  · obtain ⟨n, rfl⟩ := Int.eq_ofNat_of_zero_le h
    rw [Int.toNat_neg_natCast, Int.toNat_natCast, zpow_natCast]
    push_cast
    rfl
  · obtain ⟨n, rfl⟩ := Int.exists_eq_neg_ofNat h
    rw [neg_neg, Int.toNat_natCast, Int.toNat_neg_natCast, zpow_neg, zpow_natCast, one_div, inv_inv]
    push_cast
    exact div_one _

/-- The unit in which a grid and an interval are compared. -/
def gridUnit (x : Binary64) (power : ℤ) : ℕ :=
  (if 0 ≤ power then 1 else Binary64.tenTo (-power).toNat) <<< (x.exponent - 2).toNat

/-- The step of a grid in this unit. -/
def gridStep (x : Binary64) (power : ℤ) : ℕ :=
  (if 0 ≤ power then Binary64.tenTo power.toNat else 1) <<< (-(x.exponent - 2)).toNat

theorem gridUnit_pos (x : Binary64) (power : ℤ) : 0 < gridUnit x power := by
  have hten (n : ℕ) : 0 < Binary64.tenTo n := Nat.pow_pos (by decide)
  unfold gridUnit
  rw [Nat.shiftLeft_eq]
  split
  · positivity
  · exact Nat.mul_pos (hten _) (by positivity)

/-- The step of a grid is a power of ten, the unit a quarter of the last binary place. -/
theorem gridStep_div_gridUnit (x : Binary64) (power : ℤ) :
    (gridStep x power : ℚ) / gridUnit x power = 10 ^ power / 2 ^ (x.exponent - 2) := by
  unfold gridStep gridUnit
  rw [Nat.shiftLeft_eq, Nat.shiftLeft_eq, Nat.cast_mul, Nat.cast_mul, mul_div_mul_comm,
    tenTo_div_tenTo, two_pow_div_two_pow, mul_one_div]

/-- A number of units against a number of steps. -/
theorem mul_gridUnit_le_iff (n : ℕ) :
    n * gridUnit x power ≤ d * gridStep x power ↔
      (n : ℚ) * 2 ^ (x.exponent - 2) ≤ d * 10 ^ power := by
  have hunit : (0 : ℚ) < gridUnit x power := Nat.cast_pos.2 (gridUnit_pos x power)
  have hpow : (0 : ℚ) < 2 ^ (x.exponent - 2) := by positivity
  rw [← le_div_iff₀ hpow, mul_div_assoc, ← gridStep_div_gridUnit, ← mul_div_assoc,
    le_div_iff₀ hunit]
  exact_mod_cast Iff.rfl

theorem mul_gridStep_le_iff (n : ℕ) :
    d * gridStep x power ≤ n * gridUnit x power ↔
      (d : ℚ) * 10 ^ power ≤ n * 2 ^ (x.exponent - 2) := by
  have hunit : (0 : ℚ) < gridUnit x power := Nat.cast_pos.2 (gridUnit_pos x power)
  have hpow : (0 : ℚ) < 2 ^ (x.exponent - 2) := by positivity
  rw [← div_le_iff₀ hpow, mul_div_assoc, ← gridStep_div_gridUnit, ← mul_div_assoc,
    div_le_iff₀ hunit]
  exact_mod_cast Iff.rfl

/-- **A point in the interval is rounded to the number.** -/
theorem rounds_of_contains
    (h : (roundingInterval x).contains (gridUnit x power) (d * gridStep x power) = true) :
    x.Rounds (d * 10 ^ power) := by
  unfold RoundingInterval.contains at h
  split at h
  · rename_i hclosed
    rw [Bool.and_eq_true, decide_eq_true_eq, decide_eq_true_eq, mul_gridUnit_le_iff,
      mul_gridStep_le_iff] at h
    exact ⟨h.1, h.2, Or.inl (beq_iff_eq.1 hclosed)⟩
  · rw [Bool.and_eq_true, decide_eq_true_eq, decide_eq_true_eq, ← not_le, ← not_le,
      mul_gridUnit_le_iff, mul_gridStep_le_iff, not_le, not_le] at h
    exact ⟨h.1.le, h.2.le, Or.inr h⟩

/-- A point that is found on a grid is rounded to the number. -/
theorem rounds_of_onGrid? (h : onGrid? tie x power = some d) : x.Rounds (d * 10 ^ power) :=
  rounds_of_contains (contains_of_gridPoint? h)

/-! ## The coarsest grid -/

/-- What lies strictly between the ends lies in the interval. -/
theorem contains_of_lt {n : ℕ} (hlow : i.low * unit < n) (hhigh : n < i.high * unit) :
    i.contains unit n = true := by
  unfold RoundingInterval.contains
  split
  · rw [Bool.and_eq_true, decide_eq_true_eq, decide_eq_true_eq]
    exact ⟨hlow.le, hhigh.le⟩
  · rw [Bool.and_eq_true, decide_eq_true_eq, decide_eq_true_eq]
    exact ⟨hlow, hhigh⟩

/-- The steps of a grid that is fine enough are no longer than a unit. -/
theorem gridStep_le_gridUnit {n : ℕ} (hn : 0 < n) (h : (-(x.exponent - 2)).toNat ≤ n) :
    gridStep x (-n) ≤ gridUnit x (-n) := by
  unfold gridStep gridUnit
  rw [if_neg (by omega), if_neg (by omega), neg_neg, Int.toNat_natCast, Nat.one_shiftLeft,
    Nat.shiftLeft_eq]
  calc 2 ^ (-(x.exponent - 2)).toNat ≤ 10 ^ (-(x.exponent - 2)).toNat :=
        Nat.pow_le_pow_left (by decide) _
    _ ≤ 10 ^ n := Nat.pow_le_pow_right (by decide) h
    _ ≤ 10 ^ n * 2 ^ (x.exponent - 2).toNat := Nat.le_mul_of_pos_right _ (by positivity)

/-- The finest grid has a point in every interval. -/
theorem isSome_onGrid? (hx : x.IsCanonical) (hzero : x.mantissa ≠ 0) :
    (onGrid? tie x (-1100)).isSome = true := by
  have hstep : gridStep x (-1100) ≤ gridUnit x (-1100) := by
    have hmin : -1074 ≤ x.exponent := hx.le_exponent
    exact gridStep_le_gridUnit (n := 1100) (by decide) (by omega)
  have hunit := gridUnit_pos x (-1100)
  have hlow : (roundingInterval x).low + 1 ≤ (roundingInterval x).middle := by
    unfold roundingInterval
    dsimp only
    split <;> omega
  have hhigh : (roundingInterval x).middle + 2 = (roundingInterval x).high := rfl
  have hpos : 0 < gridStep x (-1100) := by
    unfold gridStep
    rw [Nat.shiftLeft_eq]
    exact Nat.mul_pos Nat.one_pos (by positivity)
  show (gridPoint? tie (roundingInterval x) (gridUnit x (-1100)) (gridStep x (-1100))).isSome = true
  generalize roundingInterval x = i at *
  generalize gridUnit x (-1100) = unit at *
  generalize gridStep x (-1100) = step at *
  have hsplit := Nat.div_add_mod (i.middle * unit) step
  have hmod := Nat.mod_lt (i.middle * unit) hpos
  rw [Nat.mul_comm step] at hsplit
  refine isSome_gridPoint? (contains_of_lt ?_ ?_)
  · have hle : (i.low + 1) * unit ≤ i.middle * unit := Nat.mul_le_mul_right unit hlow
    rw [Nat.add_mul, Nat.one_mul] at hle
    omega
  · have heq : i.high * unit = i.middle * unit + 2 * unit := by rw [← hhigh, Nat.add_mul]
    omega

theorem onGrid?_coarsest {n : ℕ} (h : (onGrid? tie x (-1100)).isSome = true) (hn : 0 < n) :
    onGrid? tie x (coarsest tie x n).power = some (coarsest tie x n).digits := by
  induction n with
  | zero => omega
  | succ n ih =>
    rw [coarsest]
    cases hgrid : onGrid? tie x ((n : ℤ) - 1100) with
    | some d => exact hgrid
    | none =>
      refine ih ?_
      rcases n.eq_zero_or_pos with rfl | hpos
      · rw [show ((0 : ℕ) : ℤ) - 1100 = -1100 from rfl] at hgrid
        rw [hgrid] at h
        cases h
      · exact hpos

/-- **The shortest decimal is rounded to the number.** -/
theorem rounds_shortest (tie : Tie) (hx : x.IsCanonical) (hzero : x.mantissa ≠ 0) :
    x.Rounds ((shortest tie x).digits * 10 ^ (shortest tie x).power) := by
  rw [shortest, if_neg hzero]
  exact rounds_of_onGrid? (onGrid?_coarsest (isSome_onGrid? hx hzero) (by decide))

/-! ## Reading a decimal -/

/-- A number lies below the power of ten that its digits count, and not below the one before. -/
theorem ten_pow_length_digits (hd : d ≠ 0) :
    (10 : ℚ) ^ (((Nat.toDigits 10 d).length : ℤ) - 1) ≤ d ∧
      (d : ℚ) < 10 ^ ((Nat.toDigits 10 d).length : ℤ) := by
  have hpos : 0 < (Nat.toDigits 10 d).length := Nat.length_toDigits_pos
  have hiff (k : ℕ) (hk : 0 < k) : (Nat.toDigits 10 d).length ≤ k ↔ d < 10 ^ k :=
    Nat.length_toDigits_le_iff (by decide) hk
  generalize (Nat.toDigits 10 d).length = n at *
  obtain ⟨m, rfl⟩ := Nat.exists_eq_add_of_lt hpos
  rw [Nat.zero_add] at *
  have hhigh : d < 10 ^ (m + 1) := (hiff (m + 1) hpos).1 le_rfl
  have hlow : 10 ^ m ≤ d := by
    rcases m.eq_zero_or_pos with rfl | hm
    · exact Nat.one_le_iff_ne_zero.2 hd
    · exact not_lt.1 fun h => absurd ((hiff m hm).2 h) (by omega)
  constructor
  · rw [Nat.cast_add, Nat.cast_one, add_sub_cancel_right, zpow_natCast]
    exact_mod_cast hlow
  · rw [zpow_natCast]
    exact_mod_cast hhigh

/-- Three binary places are less than a decimal one. -/
theorem two_zpow_le_ten_zpow {k : ℤ} (hk : 0 ≤ k) : (2 : ℚ) ^ (3 * k) ≤ 10 ^ k := by
  rw [zpow_mul]
  exact zpow_le_zpow_left₀ hk (by norm_num) (by norm_num)

theorem ten_zpow_neg_le {k : ℤ} (hk : 0 ≤ k) : (10 : ℚ) ^ (-k) ≤ 2 ^ (-(3 * k)) := by
  rw [zpow_neg, zpow_neg]
  exact inv_anti₀ (by positivity) (two_zpow_le_ten_zpow hk)

/-- The decimals that are rounded to a number are of its magnitude. -/
theorem magnitude_of_rounds (hx : x.IsCanonical) (hzero : x.mantissa ≠ 0) (hd : d ≠ 0)
    (h : x.Rounds (d * 10 ^ power)) :
    -400 ≤ ((Nat.toDigits 10 d).length : ℤ) + power ∧
      ((Nat.toDigits 10 d).length : ℤ) + power ≤ 400 := by
  obtain ⟨hlow, hhigh⟩ := ten_pow_length_digits hd
  have hpow : (0 : ℚ) < 10 ^ power := by positivity
  have hmin : -1074 ≤ x.exponent := hx.le_exponent
  have hmax : x.exponent ≤ 971 := hx.exponent_le
  generalize ((Nat.toDigits 10 d).length : ℤ) = n at *
  constructor
  · have hlt : (10 : ℚ) ^ (-359 : ℤ) < 10 ^ (n + power) := by
      calc (10 : ℚ) ^ (-359 : ℤ) ≤ 2 ^ (-(3 * 359) : ℤ) := ten_zpow_neg_le (by decide)
        _ ≤ 1 * 2 ^ (x.exponent - 2) := by
          rw [one_mul]
          exact zpow_le_zpow_right₀ one_le_two (by omega)
        _ ≤ (roundingInterval x).low * 2 ^ (x.exponent - 2) := by
          gcongr
          exact_mod_cast Binary64.low_pos hzero
        _ ≤ d * 10 ^ power := h.low_le
        _ < 10 ^ n * 10 ^ power := by gcongr
        _ = 10 ^ (n + power) := (zpow_add₀ (by norm_num) n power).symm
    have := (zpow_lt_zpow_iff_right₀ (by norm_num : (1 : ℚ) < 10)).1 hlt
    omega
  · have hlt : (10 : ℚ) ^ (n - 1 + power) < 10 ^ (342 : ℤ) := by
      calc (10 : ℚ) ^ (n - 1 + power) = 10 ^ (n - 1) * 10 ^ power :=
            zpow_add₀ (by norm_num) (n - 1) power
        _ ≤ d * 10 ^ power := by gcongr
        _ < 2 ^ (x.exponent + 53) := h.lt_zpow hx
        _ ≤ 2 ^ (3 * 342 : ℤ) := zpow_le_zpow_right₀ one_le_two (by omega)
        _ ≤ 10 ^ (342 : ℤ) := two_zpow_le_ten_zpow (by decide)
    have := (zpow_lt_zpow_iff_right₀ (by norm_num : (1 : ℚ) < 10)).1 hlt
    omega

/-- **A decimal in the rounding interval of a number is read as the number.** -/
theorem ofDecimal?_of_rounds (hx : x.IsCanonical) (hzero : x.mantissa ≠ 0)
    (h : x.Rounds (d * 10 ^ power)) : Binary64.ofDecimal? x.negative d power = some x := by
  have hd : d ≠ 0 := by
    rintro rfl
    have hnone : x.Rounds (((0 : ℕ) : ℚ) / (1 : ℕ)) := by simpa using h
    exact hnone.num_ne_zero hzero rfl
  obtain ⟨hlow, hhigh⟩ := magnitude_of_rounds hx hzero hd h
  have hten (n : ℕ) : ((Binary64.tenTo n : ℕ) : ℚ) = 10 ^ n := Nat.cast_pow 10 n
  unfold Binary64.ofDecimal?
  dsimp only
  rw [if_neg (by omega), if_neg (by omega)]
  split
  · rename_i hpower
    obtain ⟨n, rfl⟩ := Int.eq_ofNat_of_zero_le hpower
    refine Binary64.ofRatio?_eq_some hx hzero Nat.one_pos ?_
    rw [Int.toNat_natCast, Nat.cast_mul, hten, Nat.cast_one, div_one]
    rwa [zpow_natCast] at h
  · rename_i hpower
    obtain ⟨n, rfl⟩ := Int.exists_eq_neg_ofNat (a := power) (by omega)
    refine Binary64.ofRatio?_eq_some hx hzero (Nat.pow_pos (by decide)) ?_
    rw [neg_neg, Int.toNat_natCast, hten]
    rwa [zpow_neg, zpow_natCast, ← div_eq_mul_inv] at h

/-! ## Reading a number as it is written -/

theorem ofDigits_append_zeros (ds : List Char) (n : ℕ) :
    ofDigits (ds ++ zeros n) = ofDigits ds * 10 ^ n := by
  show Nat.ofDigitChars 10 (ds ++ List.replicate n '0') 0 = _
  rw [Nat.ofDigitChars_append, Nat.ofDigitChars_replicate_zero, Nat.mul_comm]
  rfl

theorem ofDigits_zeros_append (n : ℕ) (ds : List Char) :
    ofDigits (zeros n ++ ds) = ofDigits ds := by
  show Nat.ofDigitChars 10 (List.replicate n '0' ++ ds) 0 = Nat.ofDigitChars 10 ds 0
  rw [Nat.ofDigitChars_append, Nat.ofDigitChars_replicate_zero, Nat.mul_zero]

variable {negative : Bool}

/-- Digits that are written without a fraction are read as they are multiplied. -/
theorem decimal?_positional_of_nonneg {ds : Digits} (h : 0 ≤ ds.power) :
    decimal? (signText negative ++ ds.positional) =
      some ⟨negative, ds.digits * 10 ^ ds.power.toNat, 0⟩ := by
  have hread : decimal? (signText negative ++ (digits ds.digits ++ zeros ds.power.toNat ++ [])) =
      some ⟨negative, ofDigits (digits ds.digits ++ zeros ds.power.toNat), 0⟩ :=
    decimal?_whole (List.append_ne_nil_of_left_ne_nil (digits_ne_nil ds.digits) _)
      (List.forall_mem_append.2 ⟨isDigit_digits ds.digits, isDigit_zeros _⟩) isExponent_nil
  rw [List.append_nil, ofDigits_append_zeros] at hread
  unfold Digits.positional
  dsimp only
  rw [if_pos h, hread, digits, ofDigits_toDigits]

/-- Digits that are written with a fraction are read as the digits and their power of ten. -/
theorem decimal?_positional_of_neg {ds : Digits} (h : ¬ 0 ≤ ds.power) :
    decimal? (signText negative ++ ds.positional) = some ⟨negative, ds.digits, ds.power⟩ := by
  have hread {whole fraction : List Char} (hne : whole ≠ [])
      (hwhole : ∀ c ∈ whole, c.isDigit = true)
      (hfraction : ∀ c ∈ fraction, c.isDigit = true) :
      decimal? (signText negative ++ (whole ++ '.' :: fraction)) =
        some ⟨negative, ofDigits (whole ++ fraction), 0 - fraction.length⟩ := by
    rw [← List.append_nil fraction, decimal?_fraction hne hwhole hfraction isExponent_nil,
      List.append_nil]
    rfl
  obtain ⟨places, hplaces⟩ := Int.exists_eq_neg_ofNat (a := ds.power) (by omega)
  have hdigits := isDigit_digits ds.digits
  have hvalue : ofDigits (digits ds.digits) = ds.digits := ofDigits_toDigits ds.digits
  unfold Digits.positional
  dsimp only
  rw [if_neg h, hplaces, neg_neg, Int.toNat_natCast]
  split
  · rename_i hlt
    rw [hread ?_ (fun c hc => hdigits c (List.mem_of_mem_take hc))
      fun c hc => hdigits c (List.mem_of_mem_drop hc), List.take_append_drop, hvalue,
      List.length_drop]
    · congr 2
      omega
    · rw [ne_eq, List.take_eq_nil_iff, not_or]
      exact ⟨by omega, digits_ne_nil ds.digits⟩
  · rename_i hge
    have hfraction := hread (List.cons_ne_nil '0' []) (by simp)
      (List.forall_mem_append.2 ⟨isDigit_zeros (places - (digits ds.digits).length), hdigits⟩)
    have hzeros : ['0'] ++ (zeros (places - (digits ds.digits).length) ++ digits ds.digits) =
        zeros (places - (digits ds.digits).length + 1) ++ digits ds.digits := rfl
    rw [hzeros, ofDigits_zeros_append, hvalue, List.length_append, zeros, List.length_replicate]
      at hfraction
    refine Eq.trans hfraction ?_
    congr 2
    omega

/-- **A number that is written without an exponent is read as the number.** -/
theorem float?_plainText (hx : x.IsCanonical) : float? (plainText x) = some x := by
  unfold plainText Binary64.isZero
  by_cases hzero : x.mantissa = 0
  · have hexponent : x.exponent = Binary64.minExponent :=
      hx.leading.resolve_right (by omega)
    obtain ⟨negative, m, e⟩ := x
    obtain rfl : m = 0 := hzero
    obtain rfl : e = Binary64.minExponent := hexponent
    cases negative <;> rfl
  · have hrounds := rounds_shortest .larger hx hzero
    rw [if_neg (by simpa using hzero)]
    generalize shortest .larger x = ds at *
    unfold float?
    by_cases h : 0 ≤ ds.power
    · obtain ⟨n, hn⟩ := Int.eq_ofNat_of_zero_le h
      rw [decimal?_positional_of_nonneg h]
      refine ofDecimal?_of_rounds hx hzero ?_
      rw [hn, zpow_natCast] at hrounds
      rw [hn, Int.toNat_natCast, zpow_zero, mul_one]
      push_cast
      exact hrounds
    · rw [decimal?_positional_of_neg h]
      exact ofDecimal?_of_rounds hx hzero hrounds

/-- The number that a text is read as is canonical. -/
theorem isCanonical_of_float? {cs : List Char} (h : float? cs = some x) : x.IsCanonical := by
  obtain ⟨v, -, hv⟩ := Option.bind_eq_some_iff.1 h
  unfold Binary64.ofDecimal? at hv
  dsimp only at hv
  split at hv
  · cases hv
    exact Binary64.isCanonical_zero v.negative
  split at hv
  · cases hv
  split at hv
  · exact Binary64.isCanonical_of_ofRatio? Nat.one_pos hv
  · exact Binary64.isCanonical_of_ofRatio? (Nat.pow_pos (by decide)) hv

end Number
end SchemaScript
