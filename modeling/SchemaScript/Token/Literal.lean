import SchemaScript.Text.Delimited
import SchemaScript.Token.Basic

/-!
# The values of string literals

How the text behind the opening quote of a literal is read. Plain, byte and raw strings
only know the doubled quote. National and hexadecimal strings also know the escapes of
`controlEscape`. Escaped strings add code points given in octal or hexadecimal, and
strings of code points give them after a backslash. A literal that is not closed, and an
escape that denotes no character, has no value.
-/

namespace SchemaScript
namespace Token

/-- The value of a hexadecimal digit. -/
def hexDigit? (c : Char) : Option Nat :=
  if '0' ≤ c ∧ c ≤ '9' then some (c.toNat - '0'.toNat)
  else if 'a' ≤ c ∧ c ≤ 'f' then some (c.toNat - 'a'.toNat + 10)
  else if 'A' ≤ c ∧ c ≤ 'F' then some (c.toNat - 'A'.toNat + 10)
  else none

/-- Whether the character is a hexadecimal digit. -/
def isHexDigit (c : Char) : Bool :=
  (hexDigit? c).isSome

/-- Whether the character is an octal digit. -/
def isOctalDigit (c : Char) : Bool :=
  '0' ≤ c && c ≤ '7'

/-- The number written by hexadecimal digits. -/
def hexValue? (digits : List Char) : Option Nat :=
  digits.foldlM (fun n c => (hexDigit? c).map (16 * n + ·)) 0

/-- The number written by octal digits. -/
def octalValue (digits : List Char) : Nat :=
  digits.foldl (fun n c => 8 * n + (c.toNat - '0'.toNat)) 0

/-- The character with the given code point, if there is one. -/
def scalar? (n : Nat) : Option Char :=
  if n.isValidChar then some (Char.ofNat n) else none

/-- The ASCII character whose code is the low byte of `n`. -/
def asciiByte? (n : Nat) : Option Char :=
  if n % 256 ≤ 127 then some (Char.ofNat (n % 256)) else none

/-- The characters that a backslash and a letter stand for in national strings. Any other
character stands for itself. -/
def controlEscape (c : Char) : Char :=
  match c with
  | '0' => Char.ofNat 0
  | 'a' => Char.ofNat 7
  | 'b' => Char.ofNat 8
  | 'f' => Char.ofNat 12
  | 'n' => '\n'
  | 'r' => '\r'
  | 't' => '\t'
  | 'Z' => Char.ofNat 26
  | _ => c

/-- The value of a string with doubled quotes and backslash escapes. -/
def backslashed? : List Char → Option (List Char × List Char)
  | [] => none
  | [c] => if c = '\'' then some ([], []) else none
  | c :: d :: cs =>
    if c = '\'' then
      if d = '\'' then (backslashed? cs).map fun r => ('\'' :: r.1, r.2) else some ([], d :: cs)
    else if c = '\\' then (backslashed? cs).map fun r => (controlEscape d :: r.1, r.2)
    else (backslashed? (d :: cs)).map fun r => (c :: r.1, r.2)

/-- The character given by exactly `n` characters, which spell its code point in
hexadecimal, possibly behind a plus sign. -/
def signedCodePoint? (n : Nat) (cs : List Char) : Option (Char × List Char) :=
  if cs.length < n then none
  else
    let digits := match cs.take n with
      | '+' :: ds => ds
      | ds => ds
    ((hexValue? digits).bind scalar?).map (·, cs.drop n)

/-- The character given by exactly `n` hexadecimal digits. -/
def codePoint? (n : Nat) (cs : List Char) : Option (Char × List Char) :=
  if cs.length < n then none
  else ((hexValue? (cs.take n)).bind scalar?).map (·, cs.drop n)

/-- The character behind `\x`: up to two hexadecimal digits, or the letter itself. -/
def hexEscape? (cs : List Char) : Option (Char × List Char) :=
  let digits := (cs.take 2).takeWhile isHexDigit
  if digits.isEmpty then some ('x', cs)
  else ((hexValue? digits).bind asciiByte?).map (·, cs.drop digits.length)

/-- The character given by one to three octal digits. -/
def octalEscape? (cs : List Char) : Option (Char × List Char) :=
  let digits := (cs.take 3).takeWhile isOctalDigit
  (asciiByte? (octalValue digits)).map (·, cs.drop digits.length)

/-- The character that the text behind a backslash stands for in an escaped string. -/
def escape? : List Char → Option (Char × List Char)
  | [] => none
  | c :: cs =>
    if c = 'b' then some (Char.ofNat 8, cs)
    else if c = 'f' then some (Char.ofNat 12, cs)
    else if c = 'n' then some ('\n', cs)
    else if c = 'r' then some ('\r', cs)
    else if c = 't' then some ('\t', cs)
    else if c = 'u' then signedCodePoint? 4 cs
    else if c = 'U' then signedCodePoint? 8 cs
    else if c = 'x' then hexEscape? cs
    else if isOctalDigit c then octalEscape? (c :: cs)
    else some (c, cs)

/-- The character that the text behind a backslash stands for in a string of code
points. -/
def codePointEscape? : List Char → Option (Char × List Char)
  | '\\' :: cs => some ('\\', cs)
  | '+' :: cs => codePoint? 6 cs
  | cs => codePoint? 4 cs

theorem signedCodePoint?_suffix {n : Nat} {cs : List Char} {r : Char × List Char}
    (h : signedCodePoint? n cs = some r) : r.2 <:+ cs := by
  simp only [signedCodePoint?] at h
  split at h
  · simp at h
  · obtain ⟨c, _, rfl⟩ := Option.map_eq_some_iff.1 h
    exact List.drop_suffix n cs

theorem codePoint?_suffix {n : Nat} {cs : List Char} {r : Char × List Char}
    (h : codePoint? n cs = some r) : r.2 <:+ cs := by
  simp only [codePoint?] at h
  split at h
  · simp at h
  · obtain ⟨c, _, rfl⟩ := Option.map_eq_some_iff.1 h
    exact List.drop_suffix n cs

theorem hexEscape?_suffix {cs : List Char} {r : Char × List Char}
    (h : hexEscape? cs = some r) : r.2 <:+ cs := by
  simp only [hexEscape?] at h
  split at h
  · cases h; exact List.suffix_refl _
  · obtain ⟨c, _, rfl⟩ := Option.map_eq_some_iff.1 h
    exact List.drop_suffix _ cs

theorem octalEscape?_suffix {cs : List Char} {r : Char × List Char}
    (h : octalEscape? cs = some r) (hcs : isOctalDigit (cs.headD 'x')) :
    r.2 <:+ cs.tail := by
  obtain ⟨c, _, rfl⟩ := Option.map_eq_some_iff.1 h
  cases cs with
  | nil => simp [isOctalDigit] at hcs
  | cons d ds =>
    have hd : isOctalDigit d = true := by simpa using hcs
    simp only [List.take_succ_cons, List.takeWhile_cons, hd, if_true, List.length_cons,
      List.drop_succ_cons, List.tail_cons]
    exact List.drop_suffix _ ds

/-- An escape takes at least one character. -/
theorem escape?_suffix {cs : List Char} {r : Char × List Char} (h : escape? cs = some r) :
    r.2 <:+ cs.tail := by
  cases cs with
  | nil => simp [escape?] at h
  | cons c cs =>
    simp only [escape?] at h
    split at h
    · cases h; exact List.suffix_refl _
    split at h
    · cases h; exact List.suffix_refl _
    split at h
    · cases h; exact List.suffix_refl _
    split at h
    · cases h; exact List.suffix_refl _
    split at h
    · cases h; exact List.suffix_refl _
    split at h
    · exact signedCodePoint?_suffix h
    split at h
    · exact signedCodePoint?_suffix h
    split at h
    · exact hexEscape?_suffix h
    split at h
    · rename_i hc
      exact octalEscape?_suffix h (by simpa using hc)
    · cases h; exact List.suffix_refl _

theorem codePointEscape?_suffix {cs : List Char} {r : Char × List Char}
    (h : codePointEscape? cs = some r) : r.2 <:+ cs := by
  unfold codePointEscape? at h
  split at h
  · cases h; exact List.suffix_cons _ _
  · exact (codePoint?_suffix h).trans (List.suffix_cons _ _)
  · exact codePoint?_suffix h

/-- The value of an escaped string. An escape that denotes the character NUL is refused. -/
def escaped? : List Char → Option (List Char × List Char)
  | [] => none
  | c :: cs =>
    if c = '\'' then
      match cs with
      | d :: ds =>
        if d = '\'' then (escaped? ds).map fun r => ('\'' :: r.1, r.2) else some ([], d :: ds)
      | [] => some ([], [])
    else if c = '\\' then
      match _h : escape? cs with
      | some (e, rest) =>
        if e = Char.ofNat 0 then none else (escaped? rest).map fun r => (e :: r.1, r.2)
      | none => none
    else (escaped? cs).map fun r => (c :: r.1, r.2)
termination_by cs => cs.length
decreasing_by
  · simp only [List.length_cons]; omega
  · have := (escape?_suffix _h).length_le
    simp only [List.length_tail] at this
    simp only [List.length_cons]; omega
  · simp only [List.length_cons]; omega

/-- The value of a string of code points. -/
def codePoints? : List Char → Option (List Char × List Char)
  | [] => none
  | c :: cs =>
    if c = '\'' then
      match cs with
      | d :: ds =>
        if d = '\'' then (codePoints? ds).map fun r => ('\'' :: r.1, r.2) else some ([], d :: ds)
      | [] => some ([], [])
    else if c = '\\' then
      match _h : codePointEscape? cs with
      | some (e, rest) => (codePoints? rest).map fun r => (e :: r.1, r.2)
      | none => none
    else (codePoints? cs).map fun r => (c :: r.1, r.2)
termination_by cs => cs.length
decreasing_by
  · simp only [List.length_cons]; omega
  · have := (codePointEscape?_suffix _h).length_le
    dsimp only at this
    simp only [List.length_cons]; omega
  · simp only [List.length_cons]; omega

theorem backslashed?_suffix {cs : List Char} {r : List Char × List Char}
    (h : backslashed? cs = some r) : r.2 <:+ cs := by
  fun_induction backslashed? cs generalizing r with
  | case1 => simp at h
  | case2 => cases h; simp
  | case3 => simp at h
  | case4 cs ih =>
    obtain ⟨r', hr', rfl⟩ := Option.map_eq_some_iff.1 h
    exact (ih hr').trans ((List.suffix_cons _ _).trans (List.suffix_cons _ _))
  | case5 => cases h; exact List.suffix_cons _ _
  | case6 d cs _ ih =>
    obtain ⟨r', hr', rfl⟩ := Option.map_eq_some_iff.1 h
    exact (ih hr').trans ((List.suffix_cons _ _).trans (List.suffix_cons _ _))
  | case7 c d cs _ _ ih =>
    obtain ⟨r', hr', rfl⟩ := Option.map_eq_some_iff.1 h
    exact (ih hr').trans (List.suffix_cons _ _)

theorem escaped?_suffix {cs : List Char} {r : List Char × List Char}
    (h : escaped? cs = some r) : r.2 <:+ cs := by
  fun_induction escaped? cs generalizing r with
  | case1 => simp at h
  | case2 ds ih =>
    obtain ⟨r', hr', rfl⟩ := Option.map_eq_some_iff.1 h
    exact (ih hr').trans ((List.suffix_cons _ _).trans (List.suffix_cons _ _))
  | case3 => cases h; exact List.suffix_cons _ _
  | case4 => cases h; simp
  | case5 => simp at h
  | case6 cs e rest he _ _ ih =>
    obtain ⟨r', hr', rfl⟩ := Option.map_eq_some_iff.1 h
    exact ((ih hr').trans ((escape?_suffix he).trans (List.tail_suffix cs))).trans
      (List.suffix_cons _ _)
  | case7 => simp at h
  | case8 c cs _ _ ih =>
    obtain ⟨r', hr', rfl⟩ := Option.map_eq_some_iff.1 h
    exact (ih hr').trans (List.suffix_cons _ _)

theorem codePoints?_suffix {cs : List Char} {r : List Char × List Char}
    (h : codePoints? cs = some r) : r.2 <:+ cs := by
  fun_induction codePoints? cs generalizing r with
  | case1 => simp at h
  | case2 ds ih =>
    obtain ⟨r', hr', rfl⟩ := Option.map_eq_some_iff.1 h
    exact (ih hr').trans ((List.suffix_cons _ _).trans (List.suffix_cons _ _))
  | case3 => cases h; exact List.suffix_cons _ _
  | case4 => cases h; simp
  | case5 cs e rest he _ ih =>
    obtain ⟨r', hr', rfl⟩ := Option.map_eq_some_iff.1 h
    exact ((ih hr').trans (codePointEscape?_suffix he)).trans (List.suffix_cons _ _)
  | case6 => simp at h
  | case7 c cs _ _ ih =>
    obtain ⟨r', hr', rfl⟩ := Option.map_eq_some_iff.1 h
    exact (ih hr').trans (List.suffix_cons _ _)

end Token
end SchemaScript
