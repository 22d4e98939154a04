import SchemaScript.Json.Basic
import SchemaScript.Number.Decimal
import SchemaScript.Proofs.Number.Digits
import SchemaScript.Proofs.Text.Runs

/-!
# Numbers spell decimals

A text that is read as a decimal is a sign, digits with a period among them, and an exponent
(`exists_of_decimal?`), so it consists of the characters of these alone (`spelled_of_decimal?`). The
converse fails: two signs in a row are a comment in a script. So it is shown of the numbers of
structured data, whole or not and in whatever layout, that they are read as decimals
(`isSome_decimal?_print`).

The reader cuts a text into a sign, digits, perhaps a period with more digits, and an exponent, and
so does the proof: there is one lemma for decimals with a period and one for those without, and
each layout is an instance of one of them.
-/

namespace SchemaScript
namespace Number

open Text (Stops)

/-- The characters that decimals are spelled with. -/
def spellingChars : List Char :=
  "0123456789+-.eE".toList

theorem mem_spellingChars_of_isDigit {c : Char} (h : c.isDigit = true) : c ∈ spellingChars := by
  have hall : ∀ c ∈ numberChars, c ∈ spellingChars := by decide
  exact hall c (mem_numberChars_of_isDigit h)

/-! ## The characters of decimals -/

theorem isDigit_of_natural? {cs : List Char} {n : Nat} (h : natural? cs = some n) :
    ∀ c ∈ cs, c.isDigit = true := by
  rw [natural?] at h
  split at h
  · rename_i hcs
    exact List.all_eq_true.1 hcs.2
  · cases h

theorem spelled_of_integer? {cs : List Char} {i : Int} (h : integer? cs = some i) :
    ∀ c ∈ cs, c ∈ spellingChars := by
  have hdigits : ∀ {ds : List Char} {f : Nat → Int}, (natural? ds).map f = some i →
      ∀ c ∈ ds, c ∈ spellingChars := by
    intro ds f hds c hc
    obtain ⟨n, hn, -⟩ := Option.map_eq_some_iff.1 hds
    exact mem_spellingChars_of_isDigit (isDigit_of_natural? hn c hc)
  unfold integer? at h
  split at h
  · exact List.forall_mem_cons.2 ⟨by decide, hdigits h⟩
  · exact List.forall_mem_cons.2 ⟨by decide, hdigits h⟩
  · exact hdigits h

theorem spelled_of_exponent? {cs : List Char} {e : Int} (h : exponent? cs = some e) :
    ∀ c ∈ cs, c ∈ spellingChars := by
  cases cs with
  | nil => exact fun _ hc => absurd hc List.not_mem_nil
  | cons c cs =>
    rw [exponent?] at h
    split at h
    · rename_i hletter
      refine List.forall_mem_cons.2 ⟨?_, spelled_of_integer? h⟩
      rcases hletter with rfl | rfl <;> decide
    · cases h

/-- The sign is a part of the text in front of the rest. -/
theorem exists_sign_append (cs : List Char) :
    ∃ sign, cs = sign ++ (splitSign cs).2 ∧ sign ∈ [[], ['-'], ['+']] := by
  unfold splitSign
  split
  · exact ⟨['-'], rfl, by simp⟩
  · exact ⟨['+'], rfl, by simp⟩
  · exact ⟨[], rfl, by simp⟩

/-- **A decimal is a sign, digits with a period, and an exponent.** -/
theorem exists_of_decimal? {cs : List Char} (h : (decimal? cs).isSome = true) :
    ∃ sign w tail, cs = sign ++ (w ++ tail) ∧ sign ∈ [[], ['-'], ['+']] ∧
      w ≠ [] ∧ (∀ c ∈ w, c.isDigit = true ∨ c = '.') ∧ (exponent? tail).isSome = true := by
  have hrun : ∀ ds : List Char, ∀ c ∈ ds.takeWhile Char.isDigit, c.isDigit = true ∨ c = '.' :=
    fun _ _ hc => Or.inl (List.mem_takeWhile_imp hc)
  obtain ⟨sign, hcs, hsign⟩ := exists_sign_append cs
  unfold decimal? at h
  dsimp only at h
  generalize (splitSign cs).2 = ds at h hcs
  have happ : ds = ds.takeWhile Char.isDigit ++ ds.dropWhile Char.isDigit :=
    List.takeWhile_append_dropWhile.symm
  split at h
  · -- a period, and the fraction behind it
    rename_i rest hrest
    split at h
    · cases h
    rw [Option.isSome_map] at h
    rw [hrest, ← List.takeWhile_append_dropWhile (p := Char.isDigit) (l := rest)] at happ
    refine ⟨sign, ds.takeWhile Char.isDigit ++ '.' :: rest.takeWhile Char.isDigit,
      rest.dropWhile Char.isDigit, ?_, hsign,
      List.append_ne_nil_of_right_ne_nil _ (List.cons_ne_nil _ _), ?_, h⟩
    · rw [hcs, List.append_assoc]
      exact congrArg (sign ++ ·) happ
    · exact List.forall_mem_append.2 ⟨hrun ds, List.forall_mem_cons.2 ⟨Or.inr rfl, hrun rest⟩⟩
  · split at h
    · cases h
    rename_i hne
    rw [Option.isSome_map] at h
    rw [List.append_nil] at hne
    exact ⟨sign, _, _, hcs.trans (congrArg (sign ++ ·) happ), hsign, hne, hrun ds, h⟩

/-- **A text that is read as a decimal consists of the characters of decimals.** -/
theorem spelled_of_decimal? {cs : List Char} (h : (decimal? cs).isSome = true) :
    cs ≠ [] ∧ ∀ c ∈ cs, c ∈ spellingChars := by
  obtain ⟨sign, w, tail, rfl, hsign, hne, hw, htail⟩ := exists_of_decimal? h
  obtain ⟨e, he⟩ := Option.isSome_iff_exists.1 htail
  have hall : ∀ sign ∈ [[], ['-'], ['+']], ∀ c ∈ sign, c ∈ spellingChars := by decide
  refine ⟨List.append_ne_nil_of_right_ne_nil _ (List.append_ne_nil_of_left_ne_nil hne _),
    List.forall_mem_append.2 ⟨hall sign hsign,
      List.forall_mem_append.2 ⟨fun c hc => ?_, spelled_of_exponent? he⟩⟩⟩
  rcases hw c hc with hdigit | rfl
  · exact mem_spellingChars_of_isDigit hdigit
  · decide

/-! ## Texts that are decimals -/

/-- A text that can stand behind the digits of a decimal. -/
structure IsExponent (cs : List Char) : Prop where
  stops : Stops Char.isDigit cs
  noPeriod : ∀ rest, cs ≠ '.' :: rest
  isSome : (exponent? cs).isSome = true

theorem isExponent_nil : IsExponent [] :=
  ⟨Text.stops_nil, fun _ h => absurd h.symm (List.cons_ne_nil _ _), rfl⟩

theorem isExponent_digits {sign : Char} (hsign : sign = '+' ∨ sign = '-') (n : Nat) :
    IsExponent ('e' :: sign :: Number.digits n) := by
  refine ⟨Text.stops_cons.2 (by decide), fun _ h => ?_, ?_⟩
  · have hletter := (List.cons.inj h).1
    revert hletter
    decide
  · have hnatural : natural? (Number.digits n) = some n := natural?_toDigits n
    rw [exponent?, if_pos (Or.inl rfl)]
    rcases hsign with rfl | rfl
    · show ((natural? (Number.digits n)).map Int.ofNat).isSome = true
      rw [hnatural]
      rfl
    · show ((natural? (Number.digits n)).map fun n => -Int.ofNat n).isSome = true
      rw [hnatural]
      rfl

/-- A sign in front of a digit is split off. -/
theorem splitSign_signText (negative : Bool) {c : Char} {cs : List Char}
    (hc : c.isDigit = true) : splitSign (signText negative ++ c :: cs) = (negative, c :: cs) := by
  cases negative with
  | true => rfl
  | false =>
    show splitSign (c :: cs) = (false, c :: cs)
    unfold splitSign
    split
    · rename_i h
      rw [(List.cons.inj h).1] at hc
      cases hc
    · rename_i h
      rw [(List.cons.inj h).1] at hc
      cases hc
    · rfl

variable {negative : Bool} {whole fraction tail : List Char}

/-- Digits and an exponent are read as the number that the digits spell. -/
theorem decimal?_whole (hne : whole ≠ []) (hwhole : ∀ c ∈ whole, c.isDigit = true)
    (htail : IsExponent tail) :
    decimal? (signText negative ++ (whole ++ tail)) =
      (exponent? tail).map fun e => ⟨negative, ofDigits whole, e⟩ := by
  obtain ⟨c, cs, rfl⟩ := List.exists_cons_of_ne_nil hne
  have hsplit : splitSign (signText negative ++ (c :: cs ++ tail)) =
      (negative, c :: cs ++ tail) := splitSign_signText negative (hwhole c List.mem_cons_self)
  have hdigits := Text.takeWhile_append_of_stops hwhole htail.stops
  have hbehind := Text.dropWhile_append_of_stops hwhole htail.stops
  rw [decimal?, hsplit]
  simp only [hdigits, hbehind]
  rw [if_neg fun hx => hne (List.append_eq_nil_iff.1 hx).1]
  split
  · exact absurd rfl (htail.noPeriod _)
  · simp only [List.append_nil, List.length_nil, Int.ofNat_zero, Int.sub_zero]

/-- Digits, a period, digits and an exponent are read as the number that all digits spell, each
digit behind the period dividing it by ten. -/
theorem decimal?_fraction (hne : whole ≠ []) (hwhole : ∀ c ∈ whole, c.isDigit = true)
    (hfraction : ∀ c ∈ fraction, c.isDigit = true) (htail : IsExponent tail) :
    decimal? (signText negative ++ (whole ++ '.' :: (fraction ++ tail))) =
      (exponent? tail).map fun e =>
        ⟨negative, ofDigits (whole ++ fraction), e - fraction.length⟩ := by
  obtain ⟨c, cs, rfl⟩ := List.exists_cons_of_ne_nil hne
  have hsplit : splitSign (signText negative ++ (c :: cs ++ '.' :: (fraction ++ tail))) =
      (negative, c :: cs ++ '.' :: (fraction ++ tail)) :=
    splitSign_signText negative (hwhole c List.mem_cons_self)
  have hperiod : Stops Char.isDigit ('.' :: (fraction ++ tail)) := Text.stops_cons.2 (by decide)
  have hdigits := Text.takeWhile_append_of_stops hwhole hperiod
  have hbehind := Text.dropWhile_append_of_stops hwhole hperiod
  rw [decimal?, hsplit]
  simp only [hdigits, hbehind]
  rw [if_neg fun hx => hne (List.append_eq_nil_iff.1 hx).1,
    Text.takeWhile_append_of_stops hfraction htail.stops,
    Text.dropWhile_append_of_stops hfraction htail.stops]

/-- Digits and an exponent are a decimal. -/
theorem isSome_decimal?_whole (hne : whole ≠ []) (hwhole : ∀ c ∈ whole, c.isDigit = true)
    (htail : IsExponent tail) :
    (decimal? (signText negative ++ (whole ++ tail))).isSome = true := by
  rw [decimal?_whole hne hwhole htail, Option.isSome_map]
  exact htail.isSome

/-- Digits, a period, digits and an exponent are a decimal. -/
theorem isSome_decimal?_fraction (hne : whole ≠ []) (hwhole : ∀ c ∈ whole, c.isDigit = true)
    (hfraction : ∀ c ∈ fraction, c.isDigit = true) (htail : IsExponent tail) :
    (decimal? (signText negative ++ (whole ++ '.' :: (fraction ++ tail)))).isSome = true := by
  rw [decimal?_fraction hne hwhole hfraction htail, Option.isSome_map]
  exact htail.isSome

/-! ## The layouts of decimals -/

theorem isDigit_digits (n : Nat) : ∀ c ∈ Number.digits n, c.isDigit = true :=
  List.all_eq_true.1 (all_isDigit_toDigits n)

theorem digits_ne_nil (n : Nat) : Number.digits n ≠ [] :=
  Nat.toDigits_ne_nil

theorem isDigit_zeros (n : Nat) : ∀ c ∈ zeros n, c.isDigit = true := by
  intro c hc
  rw [List.eq_of_mem_replicate hc]
  rfl

theorem isSome_decimal?_positional_of_neg {d : Digits} (h : ¬ 0 ≤ d.power) :
    (decimal? (signText negative ++ d.positional)).isSome = true := by
  have hdecimal : ∀ {whole fraction : List Char}, whole ≠ [] →
      (∀ c ∈ whole, c.isDigit = true) → (∀ c ∈ fraction, c.isDigit = true) →
        (decimal? (signText negative ++ (whole ++ '.' :: fraction))).isSome = true := by
    intro whole fraction hne hwhole hfraction
    rw [← List.append_nil fraction]
    exact isSome_decimal?_fraction hne hwhole hfraction isExponent_nil
  have hdigits := isDigit_digits d.digits
  unfold Digits.positional
  simp only [if_neg h]
  generalize (-d.power).toNat = places
  split
  · refine hdecimal ?_ (fun c hc => hdigits c (List.mem_of_mem_take hc))
      fun c hc => hdigits c (List.mem_of_mem_drop hc)
    rw [ne_eq, List.take_eq_nil_iff, not_or]
    exact ⟨by omega, digits_ne_nil d.digits⟩
  · rw [List.cons_append, List.cons_append, ← List.singleton_append]
    exact hdecimal (List.cons_ne_nil '0' []) (by simp)
      (List.forall_mem_append.2 ⟨isDigit_zeros _, hdigits⟩)

theorem isSome_decimal?_positional_of_nonneg {d : Digits} (h : 0 ≤ d.power) :
    (decimal? (signText negative ++ (d.positional ++ ['.', '0']))).isSome = true := by
  have hzero : ∀ c ∈ ['0'], c.isDigit = true := by decide
  have hdecimal : (decimal? (signText negative ++ (Number.digits d.digits ++
      zeros d.power.toNat ++ '.' :: (['0'] ++ [])))).isSome = true :=
    isSome_decimal?_fraction (List.append_ne_nil_of_left_ne_nil (digits_ne_nil d.digits) _)
      (List.forall_mem_append.2 ⟨isDigit_digits d.digits, isDigit_zeros _⟩) hzero isExponent_nil
  unfold Digits.positional
  simp only [if_pos h]
  exact hdecimal

/-- A number without an exponent is written as a decimal. -/
theorem isSome_decimal?_plainText (x : Binary64) : (decimal? (plainText x)).isSome = true := by
  unfold plainText
  split
  · cases x.negative <;> decide
  generalize shortest .larger x = d
  by_cases h : 0 ≤ d.power
  · have hwhole : (decimal? (signText x.negative ++ (Number.digits d.digits ++
        zeros d.power.toNat ++ []))).isSome = true :=
      isSome_decimal?_whole (List.append_ne_nil_of_left_ne_nil (digits_ne_nil d.digits) _)
        (List.forall_mem_append.2 ⟨isDigit_digits d.digits, isDigit_zeros _⟩) isExponent_nil
    rw [List.append_nil] at hwhole
    unfold Digits.positional
    simp only [if_pos h]
    exact hwhole
  · exact isSome_decimal?_positional_of_neg h

theorem isSome_decimal?_scientific (d : Digits) :
    (decimal? (signText negative ++ d.scientific)).isSome = true := by
  have hdigits := isDigit_digits d.digits
  have hne := digits_ne_nil d.digits
  unfold Digits.scientific
  dsimp only
  generalize Number.digits d.digits = ds at hdigits hne ⊢
  generalize (ds.length : Int) - 1 + d.power = exponent
  have htail : IsExponent ('e' :: (if 0 ≤ exponent then '+' else '-') ::
      Number.digits exponent.natAbs) := by
    refine isExponent_digits ?_ _
    split
    · exact Or.inl rfl
    · exact Or.inr rfl
  obtain ⟨c, cs, rfl⟩ := List.exists_cons_of_ne_nil hne
  have hwhole : ∀ e ∈ [c], e.isDigit = true := by
    simpa using hdigits c List.mem_cons_self
  cases cs with
  | nil => exact isSome_decimal?_whole (by simp) hwhole htail
  | cons c' cs =>
    have hfraction : ∀ e ∈ c' :: cs, e.isDigit = true := fun e he =>
      hdigits e (List.mem_cons_of_mem c he)
    rw [List.cons_append, List.cons_append, ← List.singleton_append]
    exact isSome_decimal?_fraction (by simp) hwhole hfraction htail

/-- A floating point number is written as a decimal. -/
theorem isSome_decimal?_dataText (x : Binary64) : (decimal? (dataText x)).isSome = true := by
  unfold dataText
  split
  · cases x.negative <;> decide
  dsimp only
  split
  · split
    · rename_i hpower
      exact isSome_decimal?_positional_of_nonneg hpower
    · rename_i hpower
      exact isSome_decimal?_positional_of_neg hpower
  · exact isSome_decimal?_scientific _

/-- A whole number is written as a decimal. -/
theorem isSome_decimal?_toString (i : Int) : (decimal? (toString i).toList).isSome = true := by
  have hdecimal : ∀ negative, (decimal? (signText negative ++
      (Nat.toDigits 10 i.natAbs ++ []))).isSome = true := fun negative =>
    isSome_decimal?_whole Nat.toDigits_ne_nil (isDigit_digits i.natAbs) isExponent_nil
  simp only [List.append_nil] at hdecimal
  rw [toList_toString_int]
  split
  · exact hdecimal true
  · exact hdecimal false

end Number

/-- **A number of structured data is written as a decimal.** -/
theorem JsonNumber.isSome_decimal?_print (n : JsonNumber) :
    (Number.decimal? n.print).isSome = true := by
  cases n with
  | integer i => exact Number.isSome_decimal?_toString i
  | float x => exact Number.isSome_decimal?_dataText x

end SchemaScript
