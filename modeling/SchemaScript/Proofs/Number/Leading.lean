import Mathlib.Data.Nat.Digits.Defs
import SchemaScript.Proofs.Number.Spelled

/-!
# The whole number that a text begins with

A whole number is spelled by an optional sign and at least one digit, the first digit the most
significant (`Spells`), and the texts that are read as whole numbers are exactly its spellings
(`integer?_eq_some_iff`).

A text *leads* with a number if it begins with a spelling of it that no digit stands behind
(`Leads`). Such a beginning is as long as it can be, so it is what `signedDigits` takes from the
text (`integer?_signedDigits_eq_some_iff`).

A whole number of 64 bits is also read as a floating point number, and is far from the largest one
(`Spells.isSome_float?`).
-/

namespace SchemaScript
namespace Number

open Text (Stops)

/-- Digits, at least one. -/
structure IsDigits (ds : List Char) : Prop where
  nonempty : ds ≠ []
  digits : ∀ c ∈ ds, c.isDigit = true

/-- The number that digits stand for in the decimal system. -/
def decimalValue (ds : List Char) : Nat :=
  Nat.ofDigits 10 (ds.reverse.map fun c => c.toNat - '0'.toNat)

/-- The text is an optional sign and digits, and this is the number they stand for. -/
inductive Spells : List Char → Int → Prop where
  | unsigned {ds : List Char} (h : IsDigits ds) : Spells ds (decimalValue ds)
  | plus {ds : List Char} (h : IsDigits ds) : Spells ('+' :: ds) (decimalValue ds)
  | minus {ds : List Char} (h : IsDigits ds) : Spells ('-' :: ds) (-decimalValue ds)

/-- The text begins with a spelling of the number, and no digit stands behind it. -/
def Leads (cs : List Char) (i : Int) : Prop :=
  ∃ w rest, cs = w ++ rest ∧ Spells w i ∧ Stops Char.isDigit rest

variable {cs ds : List Char} {i : Int}

/-! ## Reading digits -/

/-- Reading digits from left to right gives their value in the decimal system. -/
theorem ofDigits_eq_decimalValue (ds : List Char) : ofDigits ds = decimalValue ds := by
  induction ds using List.reverseRecOn with
  | nil => rfl
  | append_singleton ds c ih =>
    have hstep : ofDigits (ds ++ [c]) = 10 * ofDigits ds + (c.toNat - '0'.toNat) := by
      simp [ofDigits]
    rw [hstep, ih, decimalValue, decimalValue, List.reverse_append, List.reverse_singleton,
      List.singleton_append, List.map_cons, Nat.ofDigits_cons]
    exact Nat.add_comm _ _

theorem natural?_eq_some_iff {n : Nat} :
    natural? ds = some n ↔ IsDigits ds ∧ decimalValue ds = n := by
  rw [natural?, ofDigits_eq_decimalValue]
  constructor
  · intro h
    split at h
    · rename_i hds
      exact ⟨⟨hds.1, List.all_eq_true.1 hds.2⟩, Option.some.inj h⟩
    · cases h
  · rintro ⟨hds, rfl⟩
    exact if_pos ⟨hds.nonempty, List.all_eq_true.2 hds.digits⟩

/-- A text of digits does not begin with a sign. -/
theorem IsDigits.ne_sign {c : Char} (h : IsDigits (c :: ds)) : c ≠ '+' ∧ c ≠ '-' := by
  have hdigit := h.digits c List.mem_cons_self
  constructor <;> rintro rfl <;> cases hdigit

/-- **The texts that are read as a whole number are its spellings.** -/
theorem integer?_eq_some_iff : integer? cs = some i ↔ Spells cs i := by
  constructor
  · intro h
    unfold integer? at h
    split at h
    · obtain ⟨n, hn, rfl⟩ := Option.map_eq_some_iff.1 h
      obtain ⟨hds, rfl⟩ := natural?_eq_some_iff.1 hn
      exact .plus hds
    · obtain ⟨n, hn, rfl⟩ := Option.map_eq_some_iff.1 h
      obtain ⟨hds, rfl⟩ := natural?_eq_some_iff.1 hn
      exact .minus hds
    · obtain ⟨n, hn, rfl⟩ := Option.map_eq_some_iff.1 h
      obtain ⟨hds, rfl⟩ := natural?_eq_some_iff.1 hn
      exact .unsigned hds
  · intro h
    cases h with
    | plus h =>
      rw [integer?, natural?_eq_some_iff.2 ⟨h, rfl⟩]
      rfl
    | minus h =>
      rw [integer?, natural?_eq_some_iff.2 ⟨h, rfl⟩]
      rfl
    | unsigned h =>
      obtain ⟨c, ds, rfl⟩ := List.exists_cons_of_ne_nil h.nonempty
      have hread := natural?_eq_some_iff.2 ⟨h, rfl⟩
      unfold integer?
      split
      · rename_i hc
        exact absurd (List.cons.inj hc).1 h.ne_sign.1
      · rename_i hc
        exact absurd (List.cons.inj hc).1 h.ne_sign.2
      · rw [hread]
        rfl

/-- A reader for numbers of 64 bits takes the spellings of these. -/
theorem signed64?_eq_some_iff : signed64? cs = some i ↔ Spells cs i ∧ IsSigned64 i := by
  rw [signed64?, Option.filter_eq_some_iff, integer?_eq_some_iff]
  simp [IsSigned64]

/-! ## The number in front -/

/-- A spelling is taken whole from the front of a text. -/
theorem Spells.signedDigits_append {w rest : List Char} (h : Spells w i)
    (hrest : Stops Char.isDigit rest) : signedDigits (w ++ rest) = w := by
  have htake : ∀ {ds : List Char}, (∀ c ∈ ds, c.isDigit = true) →
      (ds ++ rest).takeWhile Char.isDigit = ds := fun hds =>
    Text.takeWhile_append_of_stops hds hrest
  cases h with
  | plus h => simp [signedDigits, htake h.digits]
  | minus h => simp [signedDigits, htake h.digits]
  | unsigned h =>
    obtain ⟨c, ds, rfl⟩ := List.exists_cons_of_ne_nil h.nonempty
    have hdigits := List.forall_mem_cons.1 h.digits
    simp [signedDigits, hdigits.1, htake hdigits.2]

theorem Spells.ne_nil (h : Spells cs i) : cs ≠ [] := by
  cases h with
  | unsigned h => exact h.nonempty
  | plus h | minus h => exact List.cons_ne_nil _ _

/-- A text that leads with a number begins with a character of numbers. -/
theorem Leads.exists_cons (h : Leads cs i) : ∃ c rest, cs = c :: rest ∧ c ∈ spellingChars := by
  obtain ⟨w, rest, rfl, hw, -⟩ := h
  obtain ⟨c, w, rfl⟩ := List.exists_cons_of_ne_nil hw.ne_nil
  have hchars := spelled_of_integer? (integer?_eq_some_iff.2 hw)
  exact ⟨c, w ++ rest, rfl, hchars c List.mem_cons_self⟩

theorem Spells.leads (h : Spells cs i) : Leads cs i :=
  ⟨cs, [], (List.append_nil cs).symm, h, Text.stops_nil⟩

/-- What is cut off the front of a text stands in front of it, and no digit stands behind it
unless nothing is cut off. -/
theorem exists_signedDigits_append (cs : List Char) :
    ∃ rest, cs = signedDigits cs ++ rest ∧ (signedDigits cs ≠ [] → Stops Char.isDigit rest) := by
  cases cs with
  | nil => exact ⟨[], rfl, fun _ => Text.stops_nil⟩
  | cons c cs =>
    rw [signedDigits]
    split
    · refine ⟨cs.dropWhile Char.isDigit, ?_, fun _ => Text.stops_dropWhile cs⟩
      rw [List.cons_append, List.takeWhile_append_dropWhile]
    · exact ⟨c :: cs, rfl, fun h => absurd rfl h⟩

/-- **What is cut off the front of a text is the spelling of the number that it leads with.** -/
theorem integer?_signedDigits_eq_some_iff : integer? (signedDigits cs) = some i ↔ Leads cs i := by
  rw [integer?_eq_some_iff]
  constructor
  · intro h
    obtain ⟨rest, hcs, hrest⟩ := exists_signedDigits_append cs
    exact ⟨signedDigits cs, rest, hcs, h, hrest h.ne_nil⟩
  · rintro ⟨w, rest, rfl, h, hrest⟩
    rwa [h.signedDigits_append hrest]

theorem integer?_signedDigits_eq_none_iff :
    integer? (signedDigits cs) = none ↔ ∀ i, ¬ Leads cs i := by
  rw [Option.eq_none_iff_forall_ne_some]
  exact forall_congr' fun i => not_congr integer?_signedDigits_eq_some_iff

/-! ## Whole numbers are decimals -/

/-- A spelling of a whole number is a decimal with nothing behind its period. -/
theorem Spells.exists_decimal (h : Spells cs i) :
    ∃ negative, decimal? cs = some ⟨negative, i.natAbs, 0⟩ := by
  obtain ⟨negative, ds, hds, hsplit, habs⟩ : ∃ negative ds, IsDigits ds ∧
      splitSign cs = (negative, ds) ∧ i.natAbs = decimalValue ds := by
    cases h with
    | plus h => exact ⟨false, _, h, rfl, Int.natAbs_natCast _⟩
    | minus h => exact ⟨true, _, h, rfl, by rw [Int.natAbs_neg, Int.natAbs_natCast]⟩
    | unsigned h =>
      obtain ⟨c, ds, rfl⟩ := List.exists_cons_of_ne_nil h.nonempty
      exact ⟨false, c :: ds, h, splitSign_signText false (h.digits c List.mem_cons_self),
        Int.natAbs_natCast _⟩
  have htake := Text.takeWhile_append_of_stops hds.digits Text.stops_nil
  have hdrop := Text.dropWhile_append_of_stops hds.digits Text.stops_nil
  rw [List.append_nil] at htake hdrop
  refine ⟨negative, ?_⟩
  rw [decimal?, hsplit]
  simp only [htake, hdrop, List.append_nil]
  rw [if_neg hds.nonempty, ofDigits_eq_decimalValue, habs]
  rfl

end Number

namespace Binary64

theorem binaryMagnitude_le (num den : Nat) : binaryMagnitude num den ≤ num.log2 := by
  unfold binaryMagnitude
  dsimp only
  split <;> omega

/-- A fraction is rounded to a floating point number unless it is far too large. -/
theorem isSome_ofRatio? {num den : Nat} (negative : Bool)
    (h : binaryMagnitude num den ≤ 1022) : (ofRatio? negative num den).isSome = true := by
  unfold ofRatio?
  split
  · rfl
  dsimp only
  generalize he : max (binaryMagnitude num den - 52) minExponent = e
  have hle : e + 1 ≤ maxExponent := by
    rw [← he, minExponent, maxExponent]
    omega
  rw [if_pos]
  · rfl
  split
  · exact hle
  · exact (Int.le_add_one (Int.le_refl e)).trans hle

/-- A whole number of at most 64 digits in the binary system is near a floating point number. -/
theorem isSome_ofDecimal?_of_lt {n : Nat} (negative : Bool) (h : n < 2 ^ 64) :
    (ofDecimal? negative n 0).isSome = true := by
  have hlength : (Nat.toDigits 10 n).length ≤ 20 :=
    (Nat.length_toDigits_le_iff (by decide) (by decide)).2 (h.trans (by decide))
  unfold ofDecimal?
  dsimp only
  split
  · rfl
  rename_i hzero
  rw [if_neg (by omega), if_pos (Int.le_refl 0)]
  have hself : n * tenTo (0 : Int).toNat = n := Nat.mul_one n
  have hlog : n.log2 < 64 := (Nat.log2_lt fun hn => hzero (Or.inl hn)).2 h
  rw [hself]
  exact isSome_ofRatio? negative ((binaryMagnitude_le n 1).trans (by omega))

end Binary64

/-- A spelling of a whole number of 64 bits is read as a floating point number. -/
theorem Number.Spells.isSome_float? {cs : List Char} {i : Int} (h : Number.Spells cs i)
    (hi : Number.IsSigned64 i) : (Number.float? cs).isSome = true := by
  obtain ⟨negative, hdecimal⟩ := h.exists_decimal
  have hlt : i.natAbs < 2 ^ 64 := by
    obtain ⟨hlow, hhigh⟩ := hi
    omega
  rw [Number.float?, hdecimal]
  exact Binary64.isSome_ofDecimal?_of_lt negative hlt

end SchemaScript
