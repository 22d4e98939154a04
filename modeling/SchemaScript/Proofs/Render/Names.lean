import SchemaScript.Dialect
import SchemaScript.Naming
import SchemaScript.Proofs.Reader.Names
import SchemaScript.Proofs.Token.Spaced

/-!
# Rendered names

Names with commas between them are the print of `nameTokens`, with whatever token a name is the
print of (`printAll_nameTokens_of_print`), and can stand apart if each of these tokens can
(`spaced_nameTokens_of_isAtom`).

Where names are rendered without quotes, a name has to be one word to be read back
(`Token.isAtom_word_of_isWord`): a letter or an underscore, and characters behind it that a word
goes on with. Plain names are words: an ASCII letter, and letters, digits and underscores of ASCII
behind it. In the backticks of MySQL and MariaDB any name can be rendered that does not hold one,
since the reader of names does not undo the doubling (`Dialect.IsNameable`).
-/

namespace SchemaScript

open Reader Token

/-! ## Lists of names -/

section Lists

variable {d : Dialect} {f : String → Token} {names : List String}

/-- Rendered names are the print of the tokens of their names. -/
theorem printAll_nameTokens_of_print (h : ∀ n ∈ names, (f n).print = (d.quoteColumn n).toList) :
    printAll (nameTokens f names) = (d.quoteColumns names).toList := by
  rw [Dialect.quoteColumns, String.toList_intercalate, List.map_map]
  induction names with
  | nil => rfl
  | cons n names ih =>
    have hn := h n List.mem_cons_self
    have ih := ih fun m hm => h m (List.mem_cons_of_mem n hm)
    cases names with
    | nil => simp [nameTokens, hn]
    | cons m names =>
      rw [nameTokens, printAll_cons, printAll_cons, printAll_cons, ih, hn]
      simp

theorem spaced_nameTokens_of_isAtom (h : ∀ n ∈ names, (f n).IsAtom) :
    Spaced (nameTokens f names) := by
  induction names with
  | nil => exact spaced_nil
  | cons n names ih =>
    have hn := h n List.mem_cons_self
    have ih := ih fun m hm => h m (List.mem_cons_of_mem n hm)
    cases names with
    | nil => exact spaced_atom hn
    | cons m names => exact ((ih.cons rfl).cons rfl).cons_atom hn (by simp [isSeparator])

end Lists

/-! ## Plain names -/

/-- Whether a name is an ASCII letter with ASCII letters, digits and underscores behind it. -/
def Naming.isPlain (s : String) : Bool :=
  match s.toList with
  | [] => false
  | c :: cs => c.isAlpha && cs.all fun d => d.isAlphanum || d == '_'

theorem toNat_lt_of_isAlphanum {c : Char} (h : c.isAlphanum = true) : c.toNat < 0x80 := by
  have hrange : (65 ≤ c.toNat ∧ c.toNat ≤ 90 ∨ 97 ≤ c.toNat ∧ c.toNat ≤ 122) ∨
      48 ≤ c.toNat ∧ c.toNat ≤ 57 := by
    unfold Char.isAlphanum Char.isAlpha Char.isUpper Char.isLower Char.isDigit at h
    simpa [UInt32.le_iff_toNat_le] using h
  omega

theorem Naming.isAlphanum_of_isPlain {n : String} (h : isPlain n = true) :
    ∀ c ∈ n.toList, (c.isAlphanum || c == '_') = true := by
  unfold isPlain at h
  split at h
  · cases h
  · rename_i d ds hn
    rw [Bool.and_eq_true, List.all_eq_true] at h
    rw [hn]
    exact List.forall_mem_cons.2 ⟨by simp [Char.isAlphanum, h.1], h.2⟩

theorem Naming.toNat_lt_of_isPlain {n : String} (h : isPlain n = true) {c : Char}
    (hc : c ∈ n.toList) : c.toNat < 0x80 := by
  have hpart := isAlphanum_of_isPlain h c hc
  rw [Bool.or_eq_true, beq_iff_eq] at hpart
  rcases hpart with hpart | rfl
  · exact toNat_lt_of_isAlphanum hpart
  · decide

/-- Whether a name is one bare word. -/
def Naming.isWord (s : String) : Bool :=
  match s.toList with
  | [] => false
  | c :: cs => isWordStart c && cs.all isWordPart

namespace Token

/-- The characters of a plain name go on with a word. -/
theorem isWordPart_of_isPlain {d : Char} (h : (d.isAlphanum || d == '_') = true) :
    isWordPart d = true := by
  rw [Bool.or_eq_true, beq_iff_eq] at h
  rcases h with h | rfl
  · rw [isWordPart, Text.isAlphabetic_of_ascii (toNat_lt_of_isAlphanum h)]
    rw [Char.isAlphanum, Bool.or_eq_true] at h
    rcases h with h | h <;> simp [h]
  · decide

theorem isWordStart_of_isAlpha {c : Char} (h : c.isAlpha = true) : isWordStart c = true := by
  have hascii : c.toNat < 0x80 := toNat_lt_of_isAlphanum (by simp [Char.isAlphanum, h])
  rw [isWordStart_of_ascii hascii, h]
  rfl

end Token

namespace Naming

variable {n : String}

theorem isWord_of_isPlain (h : isPlain n = true) : isWord n = true := by
  unfold isPlain at h
  unfold isWord
  split at h
  · cases h
  · rename_i c cs hn
    rw [Bool.and_eq_true, List.all_eq_true] at h
    rw [Bool.and_eq_true, List.all_eq_true]
    exact ⟨isWordStart_of_isAlpha h.1, fun d hd => isWordPart_of_isPlain (h.2 d hd)⟩

/-- A word begins with a character that words begin with. -/
theorem exists_of_isWord (h : isWord n = true) :
    ∃ c cs, n.toList = c :: cs ∧ isWordStart c = true ∧ ∀ d ∈ cs, isWordPart d = true := by
  unfold isWord at h
  split at h
  · cases h
  · rename_i c cs hn
    rw [Bool.and_eq_true, List.all_eq_true] at h
    exact ⟨c, cs, hn, h.1, h.2⟩

theorem isWordPart_of_isWord (h : isWord n = true) : ∀ c ∈ n.toList, isWordPart c = true := by
  obtain ⟨c, cs, hn, hc, hcs⟩ := exists_of_isWord h
  rw [hn]
  exact List.forall_mem_cons.2 ⟨isWordPart_of_isWordStart hc, hcs⟩

/-- What no word goes on with is not in a word. -/
theorem notMem_of_isWord (h : isWord n = true) {c : Char} (hc : isWordPart c = false) :
    c ∉ n.toList := by
  intro hmem
  rw [isWordPart_of_isWord h c hmem] at hc
  cases hc

/-- There are no blanks in a word. -/
theorem not_isBlank_of_isWord (h : isWord n = true) : ∀ c ∈ n.toList, Text.isBlank c = false := by
  intro c hc
  by_contra hblank
  refine notMem_of_isWord h ?_ hc
  have hall : ∀ k ∈ [9, 10, 11, 12, 13, 0x20, 0x85, 0xA0, 0x1680, 0x2000, 0x2001, 0x2002, 0x2003,
      0x2004, 0x2005, 0x2006, 0x2007, 0x2008, 0x2009, 0x200A, 0x2028, 0x2029, 0x202F, 0x205F,
      0x3000], isWordPart (Char.ofNat k) = false := by
    decide +kernel
  rw [← Char.ofNat_toNat c]
  refine hall _ ?_
  have hrange : Text.isBlank c = true := Bool.of_not_eq_false hblank
  simp only [Text.isBlank, Bool.or_eq_true, Bool.and_eq_true, decide_eq_true_eq, beq_iff_eq]
    at hrange
  simp only [List.mem_cons, List.not_mem_nil, or_false]
  omega

end Naming

namespace Token

/-- **A name that is a word is one token.** -/
theorem isAtom_word_of_isWord {n : String} (h : Naming.isWord n = true) : (word n).IsAtom := by
  refine isAtom_word ?_
  obtain ⟨c, cs, hn, hc, hcs⟩ := Naming.exists_of_isWord h
  have hstart : literalStart? c cs = none := by
    cases cs with
    | nil =>
      have hfollows : Follows [c] (word n) [] := follows_word_nil
      exact hfollows.2 c rfl
    | cons d ds =>
      have hd := hcs d List.mem_cons_self
      have hne : ∀ q ∈ ['\'', '"', '&'], d ≠ q := by
        have hall : ∀ q ∈ ['\'', '"', '&'], isWordPart q = false := by decide
        rintro q hq rfl
        rw [hall d hq] at hd
        cases hd
      exact literalStart?_cons_eq_none (hne _ (by decide)) (hne _ (by decide))
        (hne _ (by decide)) ds
  have htake := Text.takeWhile_append_of_stops hcs (Text.stops_nil (p := isWordPart))
  have hdrop := Text.dropWhile_append_of_stops hcs (Text.stops_nil (p := isWordPart))
  rw [List.append_nil] at htake hdrop
  rw [ReadsBack, print_word, hn, scan?_of_isWordStart hc, scanLetter?, hstart, scanWord, htake,
    hdrop, List.singleton_append, ← hn, String.ofList_toList]

end Token

/-! ## Names that are rendered -/

namespace Dialect

variable {d : Dialect} {n : String} {names : List String}

/-- Whether a name can be rendered and read back. -/
def IsNameable (d : Dialect) (n : String) : Prop :=
  if d.isMySqlFamily then '\x60' ∉ n.toList else Naming.isWord n = true

theorem isNameable_of_isMySqlFamily (hd : d.isMySqlFamily = true) (h : '\x60' ∉ n.toList) :
    d.IsNameable n := by
  rw [IsNameable, if_pos hd]
  exact h

theorem isNameable_of_isWord (d : Dialect) (h : Naming.isWord n = true) : d.IsNameable n := by
  unfold IsNameable
  split
  · exact Naming.notMem_of_isWord h (by decide)
  · exact h

theorem IsNameable.notMem_backtick (h : d.IsNameable n) : '\x60' ∉ n.toList := by
  unfold IsNameable at h
  split at h
  · exact h
  · exact Naming.notMem_of_isWord h (by decide)

/-- Whether a name can stand behind the words that create a table or an index. In SQL Server these
have no condition behind them, and the name `IF` would be taken for the beginning of one. -/
structure IsCreatedName (d : Dialect) (n : String) : Prop where
  nameable : d.IsNameable n
  unconditional : d = .sqlserver → (Token.word n).isKeyword "IF" = false

theorem isCreatedName_of_isMySqlFamily (hd : d.isMySqlFamily = true) (h : d.IsNameable n) :
    d.IsCreatedName n where
  nameable := h
  unconditional := by
    rintro rfl
    cases hd

/-- The token of the name of a column, an index or a constraint. -/
def nameToken (d : Dialect) (n : String) : Token :=
  if d.isMySqlFamily then .quotedWord .backtick n else .word n

/-- The token of the name of a table. -/
def tableToken (d : Dialect) (n : String) : Token :=
  if d.isMySqlFamily then .quotedWord .backtick n
  else if d = .postgresql then .quotedWord .double n
  else .word n

@[simp] theorem wordText?_nameToken (d : Dialect) (n : String) :
    (d.nameToken n).wordText? = some n := by
  unfold nameToken
  split <;> rfl

@[simp] theorem wordText?_tableToken (d : Dialect) (n : String) :
    (d.tableToken n).wordText? = some n := by
  unfold tableToken
  split
  · rfl
  split <;> rfl

theorem isAtom_nameToken (h : d.IsNameable n) : (d.nameToken n).IsAtom := by
  unfold IsNameable at h
  unfold nameToken
  split
  · rw [if_pos ‹_›] at h
    exact isAtom_quotedWord h
  · rw [if_neg ‹_›] at h
    exact isAtom_word_of_isWord h

theorem isAtom_tableToken (h : d.IsNameable n) : (d.tableToken n).IsAtom := by
  unfold IsNameable at h
  unfold tableToken
  split
  · rw [if_pos ‹_›] at h
    exact isAtom_quotedWord h
  · rw [if_neg ‹_›] at h
    split
    · exact isAtom_quotedWord (Naming.notMem_of_isWord h (by decide))
    · exact isAtom_word_of_isWord h

/-- A name in quotes that it does not hold is the print of its token. -/
theorem print_quotedWord_of_notMem {q : NameQuote} (h : q.char ∉ n.toList) :
    (Token.quotedWord q n).print = (Text.enclose q.char n).toList := by
  rw [Text.toList_enclose, Text.double_eq_self h]
  cases q <;> rfl

/-- A rendered name is the print of its token. -/
theorem print_nameToken (h : d.IsNameable n) : (d.nameToken n).print = (d.quoteColumn n).toList := by
  unfold nameToken quoteColumn
  split
  · exact print_quotedWord_of_notMem h.notMem_backtick
  · rfl

theorem print_tableToken (h : d.IsNameable n) :
    (d.tableToken n).print = (d.quoteTable n).toList := by
  cases d with
  | mysql | mariadb => exact print_quotedWord_of_notMem h.notMem_backtick
  | postgresql =>
    exact print_quotedWord_of_notMem (q := .double) (Naming.notMem_of_isWord h (by decide))
  | sqlite | sqlserver => rfl

/-- Rendered names are the print of their tokens. -/
theorem printAll_nameTokens (h : ∀ n ∈ names, d.IsNameable n) :
    printAll (nameTokens d.nameToken names) = (d.quoteColumns names).toList :=
  printAll_nameTokens_of_print fun n hn => print_nameToken (h n hn)

theorem spaced_nameTokens (h : ∀ n ∈ names, d.IsNameable n) :
    Spaced (nameTokens d.nameToken names) :=
  spaced_nameTokens_of_isAtom fun n hn => isAtom_nameToken (h n hn)

end Dialect
end SchemaScript
