import SchemaScript.Proofs.Text.Unqualified

/-!
# The last part of a qualified name

A qualified name is written part by part with periods between the parts. A part stands in double
quotes, in backticks or in square brackets, and then may hold anything but the character that
closes it, or it stands bare (`Naming.Part`).

The search for the last period knows of a text in front of it only which quote it leaves open
(`Naming.openQuote`). A written part leaves none open, whatever quotes of the other styles it
holds, and has no period outside its quotes. So the text behind the last period is the last part
as it is written (`Naming.lastText_qualifiedText`), and taking its quotes off leaves its content.
-/

namespace SchemaScript
namespace Naming

/-! ## Written parts -/

/-- What a part of a name may stand in. -/
inductive Quotes where
  | double
  | backticks
  | brackets
  deriving DecidableEq, Repr

namespace Quotes

/-- The character in front of the content. -/
def opening : Quotes → Char
  | double => '"'
  | backticks => '\x60'
  | brackets => '['

/-- The character behind the content. -/
def closing : Quotes → Char
  | double => '"'
  | backticks => '\x60'
  | brackets => ']'

theorem mem_delimiters (q : Quotes) : (q.opening, q.closing) ∈ delimiters := by
  cases q <;> decide

theorem closing?_opening (q : Quotes) : closing? q.opening = some q.closing := by
  cases q <;> rfl

theorem isBlank_opening (q : Quotes) : Text.isBlank q.opening = false := by
  cases q <;> rfl

theorem isBlank_closing (q : Quotes) : Text.isBlank q.closing = false := by
  cases q <;> rfl

end Quotes

/-- The characters that a bare part has none of, blanks aside. -/
def separators : List Char :=
  ['.', '"', '\x60', '[', ']']

/-- Whether a text can be written bare. -/
structure IsBare (cs : List Char) : Prop where
  ne_nil : cs ≠ []
  notBlank : ∀ c ∈ cs, Text.isBlank c = false
  noSeparator : ∀ c ∈ cs, c ∉ separators

/-- A part of a qualified name: its content, and what it stands in. -/
inductive Part where
  | quoted (quotes : Quotes) (content : String) (closed : quotes.closing ∉ content.toList)
  | bare (content : String) (isBare : IsBare content.toList)

namespace Part

/-- The name that the part is written for. -/
def content : Part → String
  | quoted _ content _ => content
  | bare content _ => content

/-- The part as it is written. -/
def text : Part → List Char
  | quoted q content _ => q.opening :: content.toList ++ [q.closing]
  | bare content _ => content.toList

end Part

/-- Parts with periods between them. -/
def qualifiedText (parts : List Part) : List Char :=
  ['.'].intercalate (parts.map Part.text)

/-! ## What a part leaves open -/

variable {quote : Option Char} {a b cs : List Char}

theorem openQuote_append (quote : Option Char) (a b : List Char) :
    openQuote quote (a ++ b) = openQuote (openQuote quote a) b := by
  induction a generalizing quote with
  | nil => rfl
  | cons c a ih => cases quote <;> exact ih _

/-- A quote stays open as long as it is not met. -/
theorem openQuote_of_notMem {q : Char} (h : q ∉ cs) : openQuote (some q) cs = some q := by
  induction cs with
  | nil => rfl
  | cons c cs ih =>
    obtain ⟨hc, hcs⟩ := not_or.1 (List.mem_cons.not.1 h)
    rw [openQuote, if_neg (Ne.symm hc), ih hcs]

/-- No period counts where a quote stays open. -/
theorem not_hasOuterPeriod_of_notMem {q : Char} (h : q ∉ cs) :
    ¬ HasOuterPeriod (some q) cs := by
  rintro ⟨a, b, rfl, ha⟩
  rw [openQuote_of_notMem fun hq => h (List.mem_append_left _ hq)] at ha
  cases ha

/-- A period counts in one of two texts, behind what the first one leaves open. -/
theorem hasOuterPeriod_append_iff :
    HasOuterPeriod quote (a ++ b) ↔
      HasOuterPeriod quote a ∨ HasOuterPeriod (openQuote quote a) b := by
  induction a generalizing quote with
  | nil => exact (or_iff_right not_hasOuterPeriod_nil).symm
  | cons c a ih =>
    have hopen : openQuote quote (c :: a) = openQuote (openQuote quote [c]) a :=
      openQuote_append quote [c] a
    rw [List.cons_append, hasOuterPeriod_cons_iff, hasOuterPeriod_cons_iff, ih, hopen, or_assoc]

theorem fst_mem_separators {p : Char × Char} (hp : p ∈ delimiters) : p.1 ∈ separators := by
  have hall : ∀ p ∈ delimiters, p.1 ∈ separators := by decide
  exact hall p hp

theorem closing?_eq_none_of_notMem {c : Char} (h : c ∉ separators) : closing? c = none := by
  rw [closing?, List.lookup_eq_none_iff]
  intro p hp
  rw [bne_iff_ne]
  rintro rfl
  exact h (fst_mem_separators hp)

theorem IsBare.openQuote (h : IsBare cs) : Naming.openQuote none cs = none := by
  have hcs := h.noSeparator
  clear h
  induction cs with
  | nil => rfl
  | cons c cs ih =>
    obtain ⟨hc, hcs⟩ := List.forall_mem_cons.1 hcs
    rw [Naming.openQuote, closing?_eq_none_of_notMem hc, ih hcs]

theorem IsBare.not_hasOuterPeriod (h : IsBare cs) : ¬ HasOuterPeriod quote cs := by
  rintro ⟨a, b, rfl, -⟩
  exact h.noSeparator '.' (by simp) (by decide)

/-- Behind the character that closes it, a quoted content is closed, and every period in it is
passed over. -/
theorem Quotes.openQuote_text (q : Quotes) (h : q.closing ∉ cs) :
    openQuote none (q.opening :: cs ++ [q.closing]) = none ∧
      ¬ HasOuterPeriod none (q.opening :: cs ++ [q.closing]) := by
  have hopening : openQuote none [q.opening] = some q.closing := by
    rw [openQuote, closing?_opening]
    rfl
  have hcontent : openQuote none (q.opening :: cs) = some q.closing := by
    rw [← List.singleton_append, openQuote_append, hopening, openQuote_of_notMem h]
  refine ⟨?_, ?_⟩
  · rw [openQuote_append, hcontent, openQuote, if_pos rfl]
    rfl
  · rw [hasOuterPeriod_append_iff, hcontent, hasOuterPeriod_cons_iff, hopening, not_or, not_or]
    refine ⟨⟨?_, not_hasOuterPeriod_of_notMem h⟩, ?_⟩
    · rintro ⟨hperiod, -⟩
      revert hperiod
      cases q <;> decide
    · rintro ⟨a, b, hab, ha⟩
      cases a with
      | nil => cases ha
      | cons c a => simp at hab

namespace Part

theorem openQuote_text (p : Part) : openQuote none p.text = none := by
  cases p with
  | quoted q content closed => exact (q.openQuote_text closed).1
  | bare content isBare => exact isBare.openQuote

theorem not_hasOuterPeriod_text (p : Part) : ¬ HasOuterPeriod none p.text := by
  cases p with
  | quoted q content closed => exact (q.openQuote_text closed).2
  | bare content isBare => exact isBare.not_hasOuterPeriod

end Part

/-! ## The text behind the last period -/

/-- The text behind the last period outside quotes, or all of it if there is none. -/
def lastText (cs : List Char) : List Char :=
  (behindLastPeriod? none cs).getD cs

theorem lastText_of_not_hasOuterPeriod (h : ¬ HasOuterPeriod none cs) : lastText cs = cs := by
  rw [lastText, behindLastPeriod?_eq_none_iff.2 h]
  rfl

/-- The search goes on behind a period in front of which no quote is open. -/
theorem behindLastPeriod?_append_period (h : openQuote quote a = none) (b : List Char) :
    behindLastPeriod? quote (a ++ '.' :: b) = some (lastText b) := by
  induction a generalizing quote with
  | nil =>
    obtain rfl : quote = none := h
    rfl
  | cons c a ih =>
    cases quote with
    | some q => exact ih h
    | none =>
      rw [openQuote] at h
      rw [List.cons_append, behindLastPeriod?]
      cases hclosing : closing? c with
      | some q =>
        rw [hclosing] at h
        exact ih h
      | none =>
        rw [hclosing] at h
        dsimp only
        rw [ih h]
        split <;> rfl

theorem lastText_append_period (h : openQuote none a = none) (b : List Char) :
    lastText (a ++ '.' :: b) = lastText b := by
  rw [lastText, behindLastPeriod?_append_period h]
  rfl

/-- **Behind the last period of a qualified name stands its last part as it is written.** -/
theorem lastText_qualifiedText {parts : List Part} (h : parts ≠ []) :
    lastText (qualifiedText parts) = (parts.getLast h).text := by
  induction parts with
  | nil => exact absurd rfl h
  | cons p parts ih =>
    cases parts with
    | nil =>
      have hsingle : qualifiedText [p] = p.text := List.intercalate_singleton
      rw [hsingle, lastText_of_not_hasOuterPeriod p.not_hasOuterPeriod_text, List.getLast_singleton]
    | cons q parts =>
      have hcons :
          qualifiedText (p :: q :: parts) = p.text ++ '.' :: qualifiedText (q :: parts) := by
        rw [qualifiedText, List.map_cons, List.map_cons, List.intercalate_cons_cons,
          List.append_assoc]
        rfl
      rw [hcons, lastText_append_period p.openQuote_text, ih (List.cons_ne_nil q parts),
        List.getLast_cons_cons]

/-! ## The content of a part -/

/-- Quotes around a text are taken off. -/
theorem unquoteChars_quoted (q : Quotes) (cs : List Char) :
    unquoteChars (q.opening :: cs ++ [q.closing]) = cs := by
  have hlast : (q.opening :: cs ++ [q.closing]).getLast? = some q.closing := List.getLast?_concat
  have htrim : Text.trim (q.opening :: cs ++ [q.closing]) = q.opening :: cs ++ [q.closing] := by
    refine Text.trim_append_of_ends (a := []) (by simp)
      (Text.stops_cons.2 q.isBlank_opening) fun c hc => ?_
    obtain rfl := Option.some.inj (hlast.symm.trans hc)
    exact q.isBlank_closing
  obtain ⟨d, rest, hrest⟩ := List.exists_cons_of_ne_nil (List.concat_ne_nil q.closing cs)
  have henclosed : IsEnclosed (q.opening :: d :: rest) :=
    ⟨_, q.mem_delimiters, cs, congrArg (q.opening :: ·) hrest.symm⟩
  rw [unquoteChars, htrim, List.cons_append, hrest]
  dsimp only
  rw [if_pos (isEnclosed_cons_iff.1 henclosed), ← hrest, List.dropLast_concat]

/-- A bare text has no quotes around it. -/
theorem IsBare.unquoteChars (h : IsBare cs) : Naming.unquoteChars cs = cs := by
  refine unquoteChars_eq_self_iff.2 ⟨Text.trim_eq_self h.notBlank, ?_⟩
  rintro ⟨p, hp, inner, rfl⟩
  exact h.noSeparator p.1 List.mem_cons_self (fst_mem_separators hp)

theorem Part.unquoteChars_text (p : Part) : unquoteChars p.text = p.content.toList := by
  cases p with
  | quoted q content _ => exact unquoteChars_quoted q content.toList
  | bare content isBare => exact isBare.unquoteChars

/-- **The last part of a qualified name is found**, whatever stands in the quotes of its parts. -/
theorem unqualified_qualifiedText (parts : List Part) (h : parts ≠ []) :
    unqualified (String.ofList (qualifiedText parts)) = (parts.getLast h).content := by
  have hlast : unqualified (String.ofList (qualifiedText parts)) =
      String.ofList (unquoteChars (lastText (qualifiedText parts))) := by
    rw [unqualified, String.toList_ofList]
    rfl
  rw [hlast, lastText_qualifiedText h, Part.unquoteChars_text, String.ofList_toList]

/-- Parts of all styles, with periods, blanks and quotes of other styles in them. -/
theorem unqualified_qualifiedText_styles :
    ∃ parts : List Part, ∃ h : parts ≠ [],
      qualifiedText parts = "\"my.`db\".`a [\".b`.dbo.[ Order \"Items. [ ]".toList ∧
        (parts.getLast h).content = " Order \"Items. [ " ∧
        unqualified (String.ofList (qualifiedText parts)) = (parts.getLast h).content :=
  ⟨[.quoted .double "my.`db" (by decide), .quoted .backticks "a [\".b" (by decide),
      .bare "dbo" ⟨by decide, by decide, by decide⟩,
      .quoted .brackets " Order \"Items. [ " (by decide)],
    List.cons_ne_nil _ _, by decide, rfl, unqualified_qualifiedText _ _⟩

end Naming
end SchemaScript
