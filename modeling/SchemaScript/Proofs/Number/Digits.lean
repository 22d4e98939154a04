import SchemaScript.Number.Integer

/-!
# Numbers as they are written

A number written in decimal digits is read as itself: as a natural number, as a word of 32 bits,
and with its sign as a number of 64 bits if it is one.
-/

namespace SchemaScript
namespace Number

theorem ofDigits_toDigits (n : Nat) : ofDigits (Nat.toDigits 10 n) = n :=
  Nat.ofDigitChars_toDigits (by decide) (by decide)

theorem all_isDigit_toDigits (n : Nat) : (Nat.toDigits 10 n).all Char.isDigit = true := by
  rw [List.all_eq_true]
  exact fun c hc => Nat.isDigit_of_mem_toDigits (by decide) (by decide) hc

theorem natural?_toDigits (n : Nat) : natural? (Nat.toDigits 10 n) = some n := by
  rw [natural?, if_pos ⟨Nat.toDigits_ne_nil, all_isDigit_toDigits n⟩, ofDigits_toDigits]

/-- A digit that digits begin with is no sign. -/
theorem toDigits_ne_sign {n : Nat} {c : Char} {ds : List Char} (h : Nat.toDigits 10 n = c :: ds) :
    c ≠ '+' ∧ c ≠ '-' := by
  have hdigit : c.isDigit = true :=
    Nat.isDigit_of_mem_toDigits (b := 10) (n := n) (by decide) (by decide) (by rw [h]; simp)
  constructor <;> rintro rfl <;> cases hdigit

theorem word32?_toDigits (n : UInt32) : word32? (Nat.toDigits 10 n.toNat) = some n := by
  have hnatural := natural?_toDigits n.toNat
  obtain ⟨c, ds, hds⟩ := List.exists_cons_of_ne_nil (Nat.toDigits_ne_nil (n := n.toNat) (b := 10))
  rw [hds] at hnatural ⊢
  dsimp only [word32?]
  split
  · rename_i h
    exact absurd (List.cons.inj h).1 (toDigits_ne_sign hds).1
  · rw [hnatural]
    simp [toWord32?, n.toNat_lt]

/-- The text of a number with its sign. -/
theorem toList_toString_int (i : Int) : (toString i).toList =
    if i < 0 then '-' :: Nat.toDigits 10 i.natAbs else Nat.toDigits 10 i.natAbs := by
  cases i with
  | ofNat n => simp [toString, Int.repr]
  | negSucc n => simp [toString, Int.repr]

/-- The characters that whole numbers are written with. -/
def numberChars : List Char :=
  [45, 48, 49, 50, 51, 52, 53, 54, 55, 56, 57].map Char.ofNat

theorem mem_numberChars_of_isDigit {c : Char} (h : c.isDigit = true) : c ∈ numberChars := by
  rw [Char.isDigit_iff_toNat] at h
  have hlow : 48 ≤ c.toNat := h.1
  have hhigh : c.toNat ≤ 57 := h.2
  rw [← Char.ofNat_toNat c]
  generalize c.toNat = n at hlow hhigh
  refine List.mem_map_of_mem ?_
  simp only [List.mem_cons, List.not_mem_nil, or_false]
  omega

theorem integer?_toString (i : Int) : integer? (toString i).toList = some i := by
  rw [toList_toString_int]
  have hnatural := natural?_toDigits i.natAbs
  split
  · rename_i h
    show (natural? (Nat.toDigits 10 i.natAbs)).map (fun n => -Int.ofNat n) = some i
    rw [hnatural, Option.map_some]
    congr 1
    show -(i.natAbs : Int) = i
    omega
  · rename_i h
    obtain ⟨c, ds, hds⟩ :=
      List.exists_cons_of_ne_nil (Nat.toDigits_ne_nil (n := i.natAbs) (b := 10))
    rw [hds] at hnatural ⊢
    dsimp only [integer?]
    split
    · rename_i hc
      exact absurd (List.cons.inj hc).1 (toDigits_ne_sign hds).1
    · rename_i hc
      exact absurd (List.cons.inj hc).1 (toDigits_ne_sign hds).2
    · rw [hnatural, Option.map_some]
      congr 1
      show (i.natAbs : Int) = i
      omega

/-- The numbers of 64 bits with a sign. -/
def IsSigned64 (i : Int) : Prop :=
  -0x8000000000000000 ≤ i ∧ i < 0x8000000000000000

instance (i : Int) : Decidable (IsSigned64 i) :=
  inferInstanceAs (Decidable (_ ∧ _))

theorem isSigned64_of_signed64? {cs : List Char} {i : Int} (h : signed64? cs = some i) :
    IsSigned64 i := by
  obtain ⟨-, hrange⟩ := Option.filter_eq_some_iff.1 h
  simpa [IsSigned64] using hrange

theorem signed64?_toString {i : Int} (h : IsSigned64 i) :
    signed64? (toString i).toList = some i := by
  rw [signed64?, integer?_toString, Option.filter_some, if_pos]
  simpa [IsSigned64] using h

end Number
end SchemaScript
