import SchemaScript.Text.AsciiCase

/-!
# Upper case across alphabets

A bare word is a keyword when its full Unicode upper case spells the keyword. Keywords
are ASCII, so of that map only the characters matter whose upper case consists of ASCII
letters: the ASCII letters themselves and the few characters listed here. All others stay
as they are, which leaves the answer unchanged, since neither they nor their upper case
can occur in a keyword.
-/

namespace SchemaScript
namespace Text

/-- The upper case of the characters beyond ASCII that upper-case to ASCII letters:
dotless i, long s, sharp s and the Latin ligatures. -/
def foreignUpper : List (Char × List Char) :=
  [('ı', ['I']), ('ſ', ['S']), ('ß', ['S', 'S']), ('ﬀ', ['F', 'F']), ('ﬁ', ['F', 'I']),
    ('ﬂ', ['F', 'L']), ('ﬃ', ['F', 'F', 'I']), ('ﬄ', ['F', 'F', 'L']), ('ﬅ', ['S', 'T']),
    ('ﬆ', ['S', 'T'])]

/-- The upper case of one character, as far as it can spell a keyword. -/
def fullUpperChar (c : Char) : List Char :=
  if c.toNat < 0x80 then [c.toUpper] else (foreignUpper.lookup c).getD [c]

/-- The upper case of a string, as far as it can spell a keyword. -/
def fullUpper (s : String) : String :=
  String.ofList (s.toList.flatMap fullUpperChar)

/-- On ASCII text both upper cases agree. -/
theorem fullUpper_of_ascii {s : String} (h : ∀ c ∈ s.toList, c.toNat < 0x80) :
    fullUpper s = upper s := by
  have key : ∀ cs : List Char, (∀ c ∈ cs, c.toNat < 0x80) →
      cs.flatMap fullUpperChar = cs.map Char.toUpper := by
    intro cs hcs
    induction cs with
    | nil => rfl
    | cons c cs ih =>
      simp only [List.mem_cons, forall_eq_or_imp] at hcs
      simp [fullUpperChar, hcs.1, ih hcs.2]
  rw [fullUpper, upper, key _ h]

end Text
end SchemaScript
