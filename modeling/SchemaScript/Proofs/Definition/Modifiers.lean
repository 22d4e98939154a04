import SchemaScript.Proofs.Definition.Types
import SchemaScript.Proofs.Number.Shortest
import SchemaScript.Proofs.Render.Names
import SchemaScript.Proofs.Text.Quoted
import SchemaScript.Render.Literal

/-!
# Modifiers as they are written

A modifier is written as a text that is the print of its tokens (`Attribute.Writes`), and so is
the value of a default (`WritesValue`). Which values can be written is said by their texts
(`IsPlainValue`): numbers, strings, words in upper case and calls. They are read as the texts that
they are.

The modifiers of a column stand behind each other with a space in front of each
(`exists_areSpelled`).
-/

namespace SchemaScript
namespace ColumnDefinition

open Reader
open Token (AllBlank IsItem Spaced printAll)

/-! ## Values -/

/-- A text that is the print of the tokens of a value. -/
def WritesValue (text value : String) : Prop :=
  ∃ ts, printAll ts = text.toList ∧ Spaced ts ∧ IsItem ts ∧ SpellsValue ts value

/-- A text without blanks around it that does not begin with the first letter of null and of the
next value of a sequence stands for itself. -/
theorem ofText_eq_literal {s : String} {c : Char} {cs : List Char} (hs : s.toList = c :: cs)
    (hc : c.toLower ≠ 'n') (htrim : Text.trim s.toList = s.toList) :
    DefaultClause.ofText s = .declared (.literal s) := by
  have hnull : (Text.foldCase (c :: cs) == ['n', 'u', 'l', 'l']) = false := by
    rw [beq_eq_false_iff_ne]
    exact fun hx => hc (List.cons.inj hx).1
  have hbegins : ∀ d : Char, d.toLower = 'n' → ∀ ds,
      Text.startsWithIgnoringCase (c :: cs) (d :: ds) = false := by
    intro d hd ds
    rw [Text.startsWithIgnoringCase, hd, beq_eq_false_iff_ne.2 hc, Bool.false_and]
  have hcast : DefaultClause.isNullCast (c :: cs) = false := by
    rw [DefaultClause.isNullCast, Bool.and_eq_false_iff]
    exact Or.inl (hbegins 'N' rfl _)
  have hsequence : Text.startsWithIgnoringCase (c :: cs) "nextval(".toList = false :=
    hbegins 'n' rfl _
  have hlist : String.ofList (c :: cs) = s := by rw [← hs, String.ofList_toList]
  rw [DefaultClause.ofText]
  simp only [htrim]
  rw [hs, hnull, hcast, hsequence, hlist]
  rfl

/-- The texts of values that are written as they are kept: numbers, strings, words in upper case,
and calls with all their arguments. -/
inductive IsPlainValue : String → Prop
  | number {whole part power : List Char} (number : Token.IsNumber whole part power) :
      IsPlainValue (String.ofList (whole ++ part ++ power))
  | negative {whole part power : List Char} (number : Token.IsNumber whole part power) :
      IsPlainValue ("-" ++ String.ofList (whole ++ part ++ power))
  | string (value : String) : IsPlainValue (Text.enclose '\'' value)
  | word {w : String} (word : Naming.isWord w = true) (upper : Text.upper w = w) : IsPlainValue w
  | call {w : String} {gs : List Token} (word : Naming.isWord w = true) (spaced : Spaced gs)
      (closed : IsItem gs) (reads : DefaultClause.callArguments.run gs = (some gs, []))
      (ends : gs.getLast? = some (.mark .closeParen))
      (kept : callText w gs = w ++ String.ofList (printAll gs))
      (ordinary : Text.sameIgnoringCase w "nextval" = false) :
      IsPlainValue (w ++ String.ofList (printAll gs))

/-- Arguments begin with their parenthesis. -/
theorem exists_openParen_of_callArguments {gs : List Token}
    (h : DefaultClause.callArguments.run gs = (some gs, [])) :
    ∃ us, gs = .mark .openParen :: us := by
  rw [DefaultClause.callArguments, run_bind_of_some (run_skipBlanks gs)] at h
  cases hgs : gs.dropWhile Token.isBlank with
  | nil =>
    rw [hgs] at h
    cases h
  | cons t us =>
    rw [hgs, run_bind_of_some (run_seesMark _ _ _)] at h
    cases hopen : t.isMark .openParen with
    | false =>
      rw [hopen] at h
      cases h
    | true =>
      rw [hopen] at h
      have hgroup : parenthesized.run (t :: us) = (some gs, []) := h
      rw [run_parenthesized_of_pos hopen] at hgroup
      obtain rfl : t = .mark .openParen := by
        cases t with
        | mark m => rw [show m = .openParen by simpa [Token.isMark] using hopen]
        | _ => cases hopen
      exact ⟨_, (Option.some.inj (Prod.mk.inj hgroup).1).symm⟩

theorem not_isBlank_of_isNumber {whole part power : List Char}
    (h : Token.IsNumber whole part power) :
    ∀ c ∈ whole ++ part ++ power, Text.isBlank c = false := by
  have hdigit : ∀ c : Char, c.isDigit = true → Text.isBlank c = false := fun c hc => by
    have hall : ∀ c ∈ Number.numberChars, Text.isBlank c = false := by decide
    exact hall c (Number.mem_numberChars_of_isDigit hc)
  intro c hc
  rw [List.mem_append, List.mem_append] at hc
  rcases hc with (hc | hc) | hc
  · exact hdigit c (h.whole_digits c hc)
  · rcases h.fraction with rfl | ⟨ds, rfl, hds⟩
    · cases hc
    · rcases List.mem_cons.1 hc with rfl | hc
      · rfl
      · exact hdigit c (hds c hc)
  · rcases h.exponent with rfl | ⟨e, sign, ds, he, hsign, -, hds, rfl⟩
    · cases hc
    · rw [List.cons_append, List.mem_cons, List.mem_append] at hc
      rcases hc with rfl | hc | hc
      · rcases he with rfl | rfl <;> rfl
      · rcases hsign with rfl | rfl | rfl
        · cases hc
        · rw [List.mem_singleton.1 hc]
          rfl
        · rw [List.mem_singleton.1 hc]
          rfl
      · exact hdigit c (hds c hc)

namespace IsPlainValue

variable {v : String}

/-- **A plain value is written as it is kept.** -/
theorem writesValue (h : IsPlainValue v) : WritesValue v v := by
  cases h with
  | number h =>
    exact ⟨_, by simp, Token.spaced_atom (Token.isAtom_number h.readsBack), rfl, .number _⟩
  | negative h =>
    exact ⟨_, by simp, Token.spaced_minus h.readsBack, rfl, .minus Token.allBlank_nil _⟩
  | string value =>
    exact ⟨[.literal .plain value], by simp, Token.spaced_atom (Token.isAtom_plain value), rfl,
      .string rfl⟩
  | word h hupper =>
    refine ⟨[.word v], by simp, Token.spaced_atom (Token.isAtom_word_of_isWord h), rfl, ?_⟩
    have hspells := SpellsValue.word v
    rwa [hupper] at hspells
  | @call w gs h hspaced hclosed hreads _ hkept _ =>
    obtain ⟨us, hus⟩ := exists_openParen_of_callArguments hreads
    refine ⟨.word w :: gs, by simp, ?_, ?_, ?_⟩
    · refine hspaced.cons_atom (Token.isAtom_word_of_isWord h) fun u hu => ?_
      rw [hus] at hu
      exact Option.some.inj hu ▸ rfl
    · exact Token.IsItem.cons (fun m _ => rfl) hclosed
    · have hspells := SpellsValue.call w hclosed hreads
      rwa [hkept] at hspells

theorem toList_negative (cs : List Char) : ("-" ++ String.ofList cs).toList = '-' :: cs := by
  simp

/-- There are no blanks around a plain value. -/
theorem trim_eq (h : IsPlainValue v) : Text.trim v.toList = v.toList := by
  cases h with
  | number h =>
    rw [String.toList_ofList]
    exact Text.trim_eq_self (not_isBlank_of_isNumber h)
  | negative h =>
    rw [toList_negative]
    exact Text.trim_eq_self (List.forall_mem_cons.2 ⟨rfl, not_isBlank_of_isNumber h⟩)
  | string value => exact Text.trim_enclose value
  | word h _ => exact Text.trim_eq_self (Naming.not_isBlank_of_isWord h)
  | @call w gs h _ _ _ hends _ _ =>
    obtain ⟨c, cs, hcs, -, -⟩ := Naming.exists_of_isWord h
    have hblank := Naming.not_isBlank_of_isWord h
    obtain ⟨us, rfl⟩ := List.getLast?_eq_some_iff.1 hends
    have hlist : (w ++ String.ofList (printAll (us ++ [.mark .closeParen]))).toList =
        [] ++ (w.toList ++ printAll us ++ [')']) := by
      simp
    rw [hlist]
    refine Text.trim_append_of_ends nofun ?_ ?_
    · rw [hcs]
      exact Text.stops_cons.2 (hblank c (by rw [hcs]; exact List.mem_cons_self))
    · intro d hd
      rw [List.getLast?_concat] at hd
      exact Option.some.inj hd ▸ rfl

/-- What the text of a default begins with, if no null and no next value does. -/
theorem ofText_eq_of_not_startsWith (htrim : Text.trim v.toList = v.toList) (hne : v.toList ≠ [])
    (hnull : Text.sameIgnoringCase v "null" = false)
    (hcast : Text.startsWithIgnoringCase v.toList "NULL::".toList = false)
    (hsequence : Text.startsWithIgnoringCase v.toList "nextval(".toList = false) :
    DefaultClause.ofText v = .declared (.literal v) := by
  have hword : (Text.foldCase v.toList == ['n', 'u', 'l', 'l']) = false := hnull
  have hisCast : DefaultClause.isNullCast v.toList = false := by
    rw [DefaultClause.isNullCast, hcast, Bool.false_and]
  have hempty : v.toList.isEmpty = false := by simpa using hne
  rw [DefaultClause.ofText]
  simp only [htrim]
  rw [hword, hisCast, hsequence, hempty, String.ofList_toList]
  rfl

/-- A text that begins with another one holds its characters that are no letters. -/
theorem mem_of_startsWithIgnoringCase {cs start : List Char} {c : Char} (hc : c ∈ start)
    (hlow : c.toNat < 97) (hlower : c.toLower = c)
    (h : Text.startsWithIgnoringCase cs start = true) : c ∈ cs := by
  rw [Text.startsWithIgnoringCase_eq, List.isPrefixOf_iff_prefix] at h
  have hmem : c ∈ Text.foldCase start := by
    rw [← hlower]
    exact List.mem_map_of_mem hc
  obtain ⟨d, hd, hdc⟩ := List.mem_map.1 (h.subset hmem)
  rwa [Text.eq_of_toLower_eq hdc hlow] at hd

/-- A call is no null with a cast, and the next value of a sequence only by its name. -/
theorem startsWithIgnoringCase_call {w : String} (h : Naming.isWord w = true)
    (hordinary : Text.sameIgnoringCase w "nextval" = false) (more : List Char) :
    Text.startsWithIgnoringCase (w.toList ++ '(' :: more) "NULL::".toList = false ∧
      Text.startsWithIgnoringCase (w.toList ++ '(' :: more) "nextval(".toList = false := by
  have hparen : ∀ c ∈ Text.foldCase w.toList, (c != '(') = true := by
    intro c hc
    obtain ⟨d, hd, rfl⟩ := List.mem_map.1 hc
    rw [bne_iff_ne]
    intro hx
    rw [Text.eq_of_toLower_eq hx (by decide)] at hd
    exact Naming.notMem_of_isWord h (by decide) hd
  -- up to the parenthesis stands the word
  have hword : ∀ {a rest : List Char}, (∀ c ∈ a, (c != '(') = true) →
      Text.foldCase (w.toList ++ '(' :: more) = a ++ rest →
        Text.foldCase w.toList = a ++ rest.takeWhile (· != '(') := by
    intro a rest ha hrest
    have htake := congrArg (List.takeWhile (· != '(')) hrest
    rwa [Text.foldCase_append, List.takeWhile_append_of_pos hparen,
      List.takeWhile_append_of_pos ha, Text.foldCase_cons, List.takeWhile_cons_of_neg (by decide),
      List.append_nil] at htake
  constructor
  · rw [Text.startsWithIgnoringCase_eq, Bool.eq_false_iff, ne_eq, List.isPrefixOf_iff_prefix]
    rintro ⟨rest, hrest⟩
    have hcolon : ':' ∈ Text.foldCase w.toList := by
      rw [hword (by decide) hrest.symm]
      exact List.mem_append_left _ (by decide)
    obtain ⟨d, hd, hcase⟩ := List.mem_map.1 hcolon
    rw [Text.eq_of_toLower_eq hcase (by decide)] at hd
    exact Naming.notMem_of_isWord h (by decide) hd
  · rw [Text.startsWithIgnoringCase_eq, Bool.eq_false_iff, ne_eq, List.isPrefixOf_iff_prefix]
    rintro ⟨rest, hrest⟩
    have hsplit : Text.foldCase "nextval(".toList ++ rest = "nextval".toList ++ '(' :: rest := rfl
    rw [hsplit] at hrest
    have hname := hword (by decide) hrest.symm
    rw [List.takeWhile_cons_of_neg (by decide), List.append_nil] at hname
    have hsame : Text.sameIgnoringCase w "nextval" = true := by
      rw [Text.sameIgnoringCase, hname]
      rfl
    rw [hordinary] at hsame
    cases hsame

/-- **A plain value that is not null stands for itself.** -/
theorem ofText_eq (h : IsPlainValue v) (hnull : Text.sameIgnoringCase v "null" = false) :
    DefaultClause.ofText v = .declared (.literal v) := by
  have htrim := h.trim_eq
  cases h with
  | number h =>
    obtain ⟨c, cs, hcs, hc⟩ := h.head
    refine ofText_eq_literal (by rw [String.toList_ofList, hcs]) ?_ htrim
    rcases hc with hc | rfl
    · have hall : ∀ c ∈ Number.numberChars, c.toLower ≠ 'n' := by decide
      exact hall c (Number.mem_numberChars_of_isDigit hc)
    · decide
  | negative h => exact ofText_eq_literal (toList_negative _) (by decide) htrim
  | string value => exact ofText_eq_literal (Text.toList_enclose_eq value) (by decide) htrim
  | word h _ =>
    obtain ⟨c, cs, hcs, -, -⟩ := Naming.exists_of_isWord h
    refine ofText_eq_of_not_startsWith htrim (by rw [hcs]; exact List.cons_ne_nil c cs) hnull ?_ ?_
    · rw [Bool.eq_false_iff]
      exact fun hx => Naming.notMem_of_isWord h (by decide)
        (mem_of_startsWithIgnoringCase (c := ':') (by decide) (by decide) rfl hx)
    · rw [Bool.eq_false_iff]
      exact fun hx => Naming.notMem_of_isWord h (by decide)
        (mem_of_startsWithIgnoringCase (c := '(') (by decide) (by decide) rfl hx)
  | @call w gs h _ _ hreads _ _ hordinary =>
    obtain ⟨c, cs, hcs, -, -⟩ := Naming.exists_of_isWord h
    obtain ⟨us, rfl⟩ := exists_openParen_of_callArguments hreads
    have hlist : (w ++ String.ofList (printAll (.mark .openParen :: us))).toList =
        w.toList ++ '(' :: printAll us := by
      simp
    obtain ⟨hcast, hsequence⟩ := startsWithIgnoringCase_call h hordinary (printAll us)
    refine ofText_eq_of_not_startsWith htrim ?_ hnull ?_ ?_
    · rw [hlist, hcs]
      exact List.cons_ne_nil _ _
    · rw [hlist]
      exact hcast
    · rw [hlist]
      exact hsequence

/-! ### Values that are rendered -/

/-- A number without a sign is a plain value, and so is one with a minus sign. -/
theorem of_isNumber {whole part power : List Char} (negative : Bool)
    (h : Token.IsNumber whole part power) :
    IsPlainValue (String.ofList (Number.signText negative ++ (whole ++ part ++ power))) := by
  cases negative with
  | false => exact .number h
  | true =>
    have hlist : String.ofList (Number.signText true ++ (whole ++ part ++ power)) =
        "-" ++ String.ofList (whole ++ part ++ power) := by
      rw [← String.toList_inj, toList_negative, String.toList_ofList]
      rfl
    rw [hlist]
    exact .negative h

theorem of_digits {ds : List Char} (negative : Bool) (hne : ds ≠ [])
    (hds : ∀ c ∈ ds, c.isDigit = true) :
    IsPlainValue (String.ofList (Number.signText negative ++ ds)) := by
  have hvalue := of_isNumber negative (Token.isNumber_digits hne hds)
  rwa [List.append_nil, List.append_nil] at hvalue

theorem toString_int (i : Int) : IsPlainValue (toString i) := by
  have hdigits := List.all_eq_true.1 (Number.all_isDigit_toDigits i.natAbs)
  have htext : toString i =
      String.ofList (Number.signText (decide (i < 0)) ++ Nat.toDigits 10 i.natAbs) := by
    rw [← String.toList_inj, String.toList_ofList, Number.toList_toString_int]
    by_cases h : i < 0 <;> simp [h, Number.signText]
  rw [htext]
  exact of_digits _ Nat.toDigits_ne_nil hdigits

theorem plainText (x : Binary64) : IsPlainValue (String.ofList (Number.plainText x)) := by
  rw [Number.plainText]
  split
  · exact of_digits _ (List.cons_ne_nil _ _) (by decide)
  generalize Number.shortest .larger x = d
  have hdigits := Number.isDigit_digits d.digits
  unfold Number.Digits.positional
  dsimp only
  split
  · exact of_digits _ (List.append_ne_nil_of_left_ne_nil (Number.digits_ne_nil _) _)
      (List.forall_mem_append.2 ⟨hdigits, Number.isDigit_zeros _⟩)
  have hfraction {whole ds : List Char} (hne : whole ≠ [])
      (hwhole : ∀ c ∈ whole, c.isDigit = true) (hds : ∀ c ∈ ds, c.isDigit = true) :
      IsPlainValue (String.ofList (Number.signText x.negative ++ (whole ++ '.' :: ds))) := by
    have hnumber : Token.IsNumber whole ('.' :: ds) [] := by
      refine ⟨hwhole, Or.inr ⟨ds, rfl, hds⟩, Or.inl rfl, by simp, fun hperiod => ?_⟩
      obtain ⟨c, cs, rfl⟩ := List.exists_cons_of_ne_nil hne
      simp at hperiod
    have hvalue := of_isNumber x.negative hnumber
    rwa [List.append_nil] at hvalue
  split
  · rename_i hlt
    refine hfraction ?_ (fun c hc => hdigits c (List.mem_of_mem_take hc))
      fun c hc => hdigits c (List.mem_of_mem_drop hc)
    rw [ne_eq, List.take_eq_nil_iff, not_or]
    exact ⟨by omega, Number.digits_ne_nil _⟩
  · exact hfraction (List.cons_ne_nil '0' []) (by simp)
      (List.forall_mem_append.2 ⟨Number.isDigit_zeros _, hdigits⟩)

theorem floatText (s : String) : IsPlainValue (Literal.floatText s) := by
  unfold Literal.floatText
  split
  · exact plainText _
  · exact of_digits false (List.cons_ne_nil _ _) (by decide)

theorem booleanLiteral (d : Dialect) (b : Bool) : IsPlainValue (d.booleanLiteral b) := by
  have hdigit : ∀ c : Char, c.isDigit = true → IsPlainValue (String.ofList [c]) := fun c hc =>
    of_digits false (List.cons_ne_nil _ _) (by simpa using hc)
  cases b with
  | false =>
    cases d <;> first | exact hdigit '0' rfl | exact .word (by decide) (by decide)
  | true =>
    cases d <;> first | exact hdigit '1' rfl | exact .word (by decide) (by decide)

theorem null : IsPlainValue "NULL" :=
  .word (by decide) (by decide)

end IsPlainValue

/-! ## Modifiers -/

namespace Attribute

variable {a : Attribute} {text : String}

/-- A text that is the print of the tokens of a modifier. -/
def Writes (text : String) (a : Attribute) : Prop :=
  ∃ ts, printAll ts = text.toList ∧ Spaced ts ∧ IsItem ts ∧ Spells ts a

theorem writes_null : Writes "NULL" (nullable true) :=
  ⟨[.word "NULL"], by decide, Token.IsPlain.spaced (by decide), by decide, .null (by decide)⟩

theorem writes_notNull : Writes "NOT NULL" (nullable false) :=
  ⟨.word "NOT" :: ([.blank .space] ++ [.word "NULL"]), by decide,
    Token.IsPlain.spaced (by decide), by decide,
    .notNull (by decide) (Token.allBlank_singleton rfl) (by decide)⟩

theorem writes_primaryKey : Writes "PRIMARY KEY" primaryKey :=
  ⟨.word "PRIMARY" :: ([.blank .space] ++ [.word "KEY"]), by decide,
    Token.IsPlain.spaced (by decide), by decide,
    .primaryKey (by decide) (Token.allBlank_singleton rfl) (by decide)⟩

/-- The words that make a column count up. -/
theorem writes_autoIncrementWords {d : Dialect} {words : String}
    (h : d.autoIncrementWords? = some words) : Writes words counting := by
  cases d with
  | sqlite => cases h
  | mysql | mariadb =>
    cases h
    exact ⟨[.word "AUTO_INCREMENT"], by decide, Token.IsPlain.spaced (by decide), by decide,
      .counting (by decide)⟩
  | postgresql =>
    cases h
    have hone : AllBlank [.blank .space] := Token.allBlank_singleton rfl
    refine ⟨.word "GENERATED" :: ([.blank .space] ++ ((.word "BY" :: ([.blank .space] ++
      [.word "DEFAULT"])) ++ ([.blank .space] ++ .word "AS" :: ([.blank .space] ++
        .word "IDENTITY" :: [])))), by decide, Token.IsPlain.spaced (by decide), by decide, ?_⟩
    exact .generated (by decide) hone (.byDefault (by decide) hone (by decide)) hone (by decide)
      hone (by decide) rfl rfl
  | sqlserver =>
    cases h
    exact ⟨[.word "IDENTITY", .mark .openParen, .number "1", .mark .comma, .number "1",
      .mark .closeParen], by decide, Token.IsPlain.spaced (by decide), by decide,
      .identity (by decide) rfl rfl⟩

theorem writes_default {value : String} (h : WritesValue text value) :
    Writes ("DEFAULT " ++ text) (default value) := by
  obtain ⟨vs, hprint, hspaced, hitem, hspells⟩ := h
  refine ⟨.word "DEFAULT" :: ([.blank .space] ++ vs), by simp [hprint], ?_, by exact hitem,
    .default (by decide) (Token.allBlank_singleton rfl) hspells⟩
  exact hspaced.atom_space (Token.isAtom_word (by decide))

theorem writes_comment (text : String) :
    Writes ("COMMENT " ++ Text.enclose '\'' text) (comment text) := by
  refine ⟨.word "COMMENT" :: ([.blank .space] ++ [.literal .plain text]), by simp, ?_, by exact rfl,
    .comment (by decide) (Token.allBlank_singleton rfl) rfl⟩
  exact (Token.spaced_atom (Token.isAtom_plain text)).atom_space (Token.isAtom_word (by decide))

/-- **Modifiers that are written with a space in front of each** are spelled one by one. -/
theorem exists_areSpelled {texts : List String} {as : List Attribute}
    (h : List.Forall₂ Writes texts as) :
    ∃ ms, AreSpelled ms as ∧ Spaced ms ∧ IsItem ms ∧ (∀ u ∈ ms.head?, u.isSeparator = true) ∧
      printAll ms = texts.flatMap fun text => ' ' :: text.toList := by
  induction h with
  | nil => exact ⟨[], .done Token.allBlank_nil, Token.spaced_nil, rfl, nofun, rfl⟩
  | @cons text a texts as hone _ ih =>
    obtain ⟨ts, hprint, hspaced, hitem, hspells⟩ := hone
    obtain ⟨ms, hms, hspacedMs, hitemMs, hsep, hprintMs⟩ := ih
    have hspace : (Token.blank .space).isSeparator = true := rfl
    refine ⟨[.blank .space] ++ (ts ++ ms), .next (Token.allBlank_singleton rfl) hspells hms,
      (hspaced.append hspacedMs hsep).cons hspace, by exact hitem.append hitemMs, ?_, ?_⟩
    · intro u hu
      exact Option.some.inj hu ▸ hspace
    · rw [List.flatMap_cons, ← hprintMs, ← hprint]
      simp

end Attribute

/-! ## Columns -/

theorem toList_intercalate_space (first : String) (texts : List String) :
    (" ".intercalate (first :: texts)).toList =
      first.toList ++ texts.flatMap fun text => ' ' :: text.toList := by
  induction texts generalizing first with
  | nil => rw [String.intercalate_singleton, List.flatMap_nil, List.append_nil]
  | cons text texts ih =>
    rw [String.intercalate_cons_cons, String.toList_append, String.toList_append, ih,
      List.flatMap_cons]
    simp

variable {type : String} {ts : List Token} {p : ColumnDefinition} {texts : List String}
  {as : List Attribute} {t : Token} {n first : String}

/-- **A column is written as its name, its type and its modifiers**, and these tokens are read as
what the modifiers make of the type. -/
theorem WritesType.exists_tokens (h : WritesType type ts p) (ht : t.wordText? = some n)
    (hatom : t.IsAtom) (hprint : t.print = first.toList)
    (hmodifiers : List.Forall₂ Attribute.Writes texts as) :
    ∃ ms, printAll (t :: .blank .space :: (ts ++ ms)) =
        (" ".intercalate (first :: type :: texts)).toList ∧
      Spaced (t :: .blank .space :: (ts ++ ms)) ∧
      IsItem (t :: .blank .space :: (ts ++ ms)) ∧
      ColumnDefinition.ofTokens? (t :: .blank .space :: (ts ++ ms)) =
        some (as.foldl Attribute.apply { p with name := n }) := by
  obtain ⟨ms, hspelled, hspaced, hitem, hsep, hprintMs⟩ := Attribute.exists_areSpelled hmodifiers
  refine ⟨ms, ?_, ?_, ?_, h.ofTokens? ht hspelled⟩
  · have htext := toList_intercalate_space first (type :: texts)
    rw [htext, List.flatMap_cons, ← hprintMs, ← h.print, ← hprint]
    simp
  · exact (h.spaced.append hspaced hsep).atom_space hatom
  · have hmark : ∀ m, t.isMark m = false := by
      intro m
      cases t with
      | mark kind => cases ht
      | _ => rfl
    exact .cons (fun m _ => hmark m) (.cons (fun m _ => rfl) (h.closed.append hitem))

end ColumnDefinition
end SchemaScript
