import SchemaScript.Proofs.Definition.ColumnHead
import SchemaScript.Render.ForeignKey

/-!
# What the modifiers of a column say

A modifier of a column says one thing about it (`ColumnDefinition.Attribute`): whether it may be
null, that it is a key, what its default is, and so on. `Attribute.Spells` is the grammar of the
modifiers, with any blanks between the words, and `Attribute.apply` is what each of them changes.

A modifier that is spelled out says what it says in front of every other one
(`Attribute.Spells.run_modifier`). Most of them look further than they reach: a primary key looks
for an order, a unique key for `KEY`, a default for the parenthesis of a call and for a cast, and
a reference for its options. None of this begins a modifier, but `NOT` also begins the option
`NOT DEFERRABLE`, so a reference must look at the word behind it (`BeginsAttribute`).
-/

namespace SchemaScript
namespace ColumnDefinition

open Reader
open Token (AllBlank)

/-- What a modifier says about its column. -/
inductive Attribute where
  | nullable (allowed : Bool)
  | primaryKey
  | unique
  /-- The text of the value. -/
  | default (value : String)
  | comment (text : String)
  | counting
  | references (target : Reference)
  deriving DecidableEq, Repr

namespace Attribute

/-- The kind of the modifier. One that allows null and one that does not are of one kind. -/
def kind : Attribute → Clause
  | nullable _ => .null
  | primaryKey => .primary
  | unique => .unique
  | default _ => .default
  | comment _ => .comment
  | counting => .counting
  | references _ => .references

/-- The definition with what the modifier says. -/
def apply (d : ColumnDefinition) : Attribute → ColumnDefinition
  | nullable allowed => { d with nullable := allowed }
  | primaryKey => { d with primaryKey := true }
  | unique => { d with unique := true, uniqueName := none }
  | default value => applyDefault d (DefaultClause.ofText value)
  | comment text => { d with comment := some text }
  | counting => { d with autoIncrement := true }
  | references target => { d with references := some target, referencesName := none }

end Attribute

/-! ## How it is spelled -/

/-- A call as it is kept: the word in upper case if it has no arguments, and all as it stands
otherwise. -/
def callText (w : String) (group : List Token) : String :=
  if (DefaultClause.bareArguments (Token.printAll group)).isEmpty then Text.upper w ++ "()"
  else w ++ String.ofList (Token.printAll group)

/-- Tokens that are the value of a default: a number, one with a sign, a string, a bare word, or a
call with its arguments in closed parentheses. -/
inductive SpellsValue : List Token → String → Prop
  | number (text : String) : SpellsValue [.number text] text
  | plus {bs : List Token} (blanks : AllBlank bs) (text : String) :
      SpellsValue (.mark .plus :: (bs ++ [.number text])) text
  | minus {bs : List Token} (blanks : AllBlank bs) (text : String) :
      SpellsValue (.mark .minus :: (bs ++ [.number text])) ("-" ++ text)
  | string {t : Token} {value : String} (string : t.stringValue? = some value) :
      SpellsValue [t] (Text.enclose '\'' value)
  | word (text : String) : SpellsValue [.word text] (Text.upper text)
  | call (w : String) {gs group : List Token} (closed : Token.IsItem gs)
      (reads : DefaultClause.callArguments.run gs = (some group, [])) :
      SpellsValue (.word w :: gs) (callText w group)

/-- What an action of a reference may be on. -/
inductive ReferenceEvent where
  | delete
  | update

namespace ReferenceEvent

/-- The word of the event. -/
def word : ReferenceEvent → String
  | delete => "DELETE"
  | update => "UPDATE"

/-- The reference with the action on the event. -/
def set (r : Reference) (action : String) : ReferenceEvent → Reference
  | delete => { r with onDelete := some action }
  | update => { r with onUpdate := some action }

end ReferenceEvent

/-- Tokens that are actions of a reference, in front of which it is as the first one says and
behind which it is as the second one says. -/
inductive SpellsActions : List Token → Reference → Reference → Prop
  | done (r : Reference) : SpellsActions [] r r
  | on {event : ReferenceEvent} {t u : Token} {bs bs' bs'' as ts : List Token} {action : String}
      {r r' : Reference} (blanks : AllBlank bs) (opens : t.isKeyword "ON" = true)
      (blanks' : AllBlank bs') (word : u.isKeyword event.word = true) (blanks'' : AllBlank bs'')
      (reads : Reference.action.run as = (some action, [])) (known : action ∈ ForeignKey.actions)
      (next : SpellsActions ts (event.set r action) r') :
      SpellsActions (bs ++ t :: (bs' ++ u :: (bs'' ++ (as ++ ts)))) r r'

/-- Words for the time at which a value is generated. -/
inductive SpellsTime : List Token → Prop
  | always {t : Token} (word : t.isWord "ALWAYS" = true) : SpellsTime [t]
  | byDefault {t u : Token} {bs : List Token} (word : t.isWord "BY" = true)
      (blanks : AllBlank bs) (closes : u.isKeyword "DEFAULT" = true) :
      SpellsTime (t :: (bs ++ [u]))

namespace Attribute

/-- Tokens that are a modifier. -/
inductive Spells : List Token → Attribute → Prop
  | null {t : Token} (opens : t.isKeyword "NULL" = true) : Spells [t] (nullable true)
  | notNull {t u : Token} {bs : List Token} (opens : t.isKeyword "NOT" = true)
      (blanks : AllBlank bs) (closes : u.isKeyword "NULL" = true) :
      Spells (t :: (bs ++ [u])) (nullable false)
  | primaryKey {t u : Token} {bs : List Token} (opens : t.isKeyword "PRIMARY" = true)
      (blanks : AllBlank bs) (closes : u.isKeyword "KEY" = true) :
      Spells (t :: (bs ++ [u])) primaryKey
  | unique {t : Token} (opens : t.isKeyword "UNIQUE" = true) : Spells [t] unique
  | default {t : Token} {bs vs : List Token} {value : String}
      (opens : t.isKeyword "DEFAULT" = true) (blanks : AllBlank bs)
      (spells : SpellsValue vs value) :
      Spells (t :: (bs ++ vs)) (default value)
  | comment {t u : Token} {bs : List Token} {text : String} (opens : t.isKeyword "COMMENT" = true)
      (blanks : AllBlank bs) (string : u.stringValue? = some text) :
      Spells (t :: (bs ++ [u])) (comment text)
  | counting {t : Token} (opens : ["AUTO_INCREMENT", "AUTOINCREMENT"].any t.isWord = true) :
      Spells [t] counting
  | identity {t : Token} {gs : List Token} (opens : t.isWord "IDENTITY" = true)
      (closed : Token.IsItem gs)
      (takes : (parenthesized.run (gs.dropWhile Token.isBlank)).2 = []) :
      Spells (t :: gs) counting
  | generated {t u v : Token} {bs ws bs' bs'' gs : List Token}
      (opens : t.isWord "GENERATED" = true) (blanks : AllBlank bs) (time : SpellsTime ws)
      (blanks' : AllBlank bs') (introduces : u.isKeyword "AS" = true) (blanks'' : AllBlank bs'')
      (word : v.isWord "IDENTITY" = true) (closed : Token.IsItem gs)
      (takes : (parenthesized.run (gs.dropWhile Token.isBlank)).2 = []) :
      Spells (t :: (bs ++ (ws ++ (bs' ++ u :: (bs'' ++ v :: gs))))) counting
  | references {t : Token} {bs ns bs' cs ts : List Token} {table : String}
      {columns : List String} {target : Reference} (opens : t.isKeyword "REFERENCES" = true)
      (blanks : AllBlank bs) (reads : qualifiedName.run ns = (some table, []))
      (blanks' : AllBlank bs') (lists : nameList.run cs = (some columns, []))
      (actions : SpellsActions ts { table, columns } target) :
      Spells (t :: (bs ++ (ns ++ (bs' ++ (cs ++ ts))))) (references target)

end Attribute

/-! ## What a modifier may look at -/

/-- Tokens that begin with a modifier, or no tokens. What begins with `NOT` is `NOT NULL`. -/
def BeginsAttribute (ts : List Token) : Prop :=
  BeginsModifier ts ∧ ∀ t ∈ ts.head?, t.isKeyword "NOT" = true →
    ∀ u ∈ (ts.tail.dropWhile Token.isBlank).head?, u.isKeyword "NULL" = true

section
variable {t : Token} {bs ts more : List Token}

theorem isBlank_of_isKeyword {k : String} (h : t.isKeyword k = true) : t.isBlank = false := by
  cases t with
  | blank kind => cases h
  | _ => rfl

theorem isBlank_of_isWord {w : String} (h : t.isWord w = true) : t.isBlank = false := by
  cases t with
  | blank kind => cases h
  | _ => rfl

/-- The kind of a modifier is that of the keyword it begins with. -/
theorem ofToken_of_isKeyword {k : String} {clause : Clause} (h : t.isKeyword k = true)
    (hk : Clause.keywords.lookup k = some clause) : Clause.ofToken t = clause := by
  cases t with
  | word text =>
    have htext : Text.fullUpper text = k := by simpa [Token.isKeyword] using h
    rw [Clause.ofToken, htext, hk]
  | _ => cases h

theorem BeginsModifier.isBlank_head (h : BeginsModifier ts) :
    ∀ t ∈ ts.head?, t.isBlank = false := by
  intro t ht
  obtain ⟨k, -, hk⟩ := h t ht
  exact isBlank_of_isKeyword hk

/-- A word that is no keyword is the kind of a modifier in any case of its letters. -/
theorem ofToken_of_isWord {w : String} {clause : Clause} (ht : t.isWord w = true)
    (hascii : ∀ c ∈ w.toList, c.toNat < 0x80)
    (hkeyword : Clause.keywords.lookup (Text.upper w) = none)
    (hword : Clause.words.lookup (Text.upper w) = some clause) : Clause.ofToken t = clause := by
  cases t with
  | word text =>
    rw [Clause.ofToken, Text.fullUpper_eq_upper ht hascii, hkeyword]
    show (Clause.words.lookup (Text.upper text)).getD .other = _
    rw [Text.upper_eq_of_sameIgnoringCase ht, hword]
    rfl
  | _ => cases ht

theorem ofToken_counting (h : ["AUTO_INCREMENT", "AUTOINCREMENT"].any t.isWord = true) :
    Clause.ofToken t = .counting := by
  have hall : ∀ w ∈ ["AUTO_INCREMENT", "AUTOINCREMENT"], (∀ c ∈ w.toList, c.toNat < 0x80) ∧
      Clause.keywords.lookup (Text.upper w) = none ∧
        Clause.words.lookup (Text.upper w) = some .counting := by
    decide
  obtain ⟨w, hw, ht⟩ := List.any_eq_true.1 h
  obtain ⟨hascii, hkeyword, hword⟩ := hall w hw
  exact ofToken_of_isWord ht hascii hkeyword hword

/-- Tokens that no value and no key goes on with: behind blanks stands no order, no parenthesis
and no cast. -/
def EndsValue (ts : List Token) : Prop :=
  ∀ t ∈ (ts.dropWhile Token.isBlank).head?, ["ASC", "DESC"].any t.isWord = false ∧
    t.isMark .openParen = false ∧ t.isMark .cast = false

/-- No modifier is an order, an argument or a cast. -/
theorem BeginsModifier.endsValue (h : BeginsModifier (more.dropWhile Token.isBlank)) :
    EndsValue more := by
  intro t ht
  cases hmore : more.dropWhile Token.isBlank with
  | nil =>
    rw [hmore] at ht
    cases ht
  | cons u us =>
    rw [hmore] at h ht
    obtain rfl : u = t := Option.some.inj ht
    exact ⟨(excludes_any_isWord (by decide)).2 u us h, (excludes_isMark _).2 u us h,
      (excludes_isMark _).2 u us h⟩

theorem run_advancePastBlanks_append (t : Token) (hbs : AllBlank bs)
    (hts : ∀ u ∈ ts.head?, u.isBlank = false) :
    advancePastBlanks.run (t :: (bs ++ ts)) = (some (), ts) :=
  Prod.ext rfl (dropWhile_isBlank_append hbs hts)

/-! ## Defaults -/

theorem SpellsValue.head_isBlank {vs : List Token} {v : String} (h : SpellsValue vs v) :
    ∀ u ∈ (vs ++ more).head?, u.isBlank = false := by
  intro u hu
  cases h with
  | @string t value hvalue =>
    obtain rfl : t = u := Option.some.inj hu
    cases t with
    | blank kind => cases hvalue
    | _ => rfl
  | _ =>
    cases Option.some.inj hu
    rfl

/-- Closed arguments are read in front of anything. -/
theorem run_callArguments_append {gs group : List Token} (hclosed : Token.IsItem gs)
    (h : DefaultClause.callArguments.run gs = (some group, [])) (more : List Token) :
    DefaultClause.callArguments.run (gs ++ more) = (some group, more) := by
  rw [DefaultClause.callArguments, run_bind_of_some (run_skipBlanks _)] at h
  rw [DefaultClause.callArguments, run_bind_of_some (run_skipBlanks _)]
  have hitem := isItem_dropWhile hclosed
  cases hgs : gs.dropWhile Token.isBlank with
  | nil =>
    rw [hgs] at h
    cases h
  | cons u us =>
    rw [dropWhile_append_of_cons hgs]
    rw [hgs] at h hitem
    cases hopen : u.isMark .openParen with
    | false =>
      rw [run_bind_of_some (run_seesMark _ _ _), hopen] at h
      cases h
    | true =>
      rw [run_bind_of_some (run_seesMark _ _ _), hopen] at h ⊢
      have hrun := run_parenthesized_append hopen hitem more
      have halone : parenthesized.run (u :: us) = (some group, []) := h
      rw [halone] at hrun
      exact hrun

theorem run_callArguments_of_ends (h : EndsValue ts) :
    (attempt DefaultClause.callArguments).run ts = (some none, ts) := by
  refine run_attempt_of_none ?_
  unfold EndsValue at h
  rw [DefaultClause.callArguments, run_bind_of_some (run_skipBlanks ts)]
  generalize ts.dropWhile Token.isBlank = us at *
  cases us with
  | nil => rfl
  | cons u us =>
    have hsees : (seesMark .openParen).run (u :: us) = (some false, u :: us) := by
      rw [run_seesMark, (h u rfl).2.1]
    rw [run_bind_of_some hsees]
    rfl

theorem run_castRound_of_ends (h : EndsValue ts) (text : String) :
    (loop DefaultClause.castRound text).run ts = (some text, ts) := by
  have hcast : (DefaultClause.castMark.run ts).1 = none := by
    unfold EndsValue at h
    rw [DefaultClause.castMark, run_bind_of_some (run_skipBlanks ts)]
    generalize ts.dropWhile Token.isBlank = us at *
    cases us with
    | nil => rfl
    | cons u us => rw [run_mark_of_neg (h u rfl).2.2]
  refine run_loop_inr ?_
  rw [DefaultClause.castRound, run_bind_of_some (run_attempt_of_none hcast)]
  rfl

/-- A default says what the text of its value says, where nothing behind it carries it on. -/
theorem run_defaultReader {us : List Token} {w : String} (h : EndsValue ts)
    (hvalue : (DefaultClause.valueOf t).run (t :: us) = (some w, ts)) :
    DefaultClause.reader.run (t :: us) = (some (DefaultClause.ofText w), ts) := by
  have hrun : DefaultClause.text.run (t :: us) = (some w, ts) := by
    rw [DefaultClause.text, run_bind_of_some (run_peek _)]
    show Reader.run (do loop DefaultClause.castRound (← DefaultClause.valueOf t)) _ = _
    rw [run_bind_of_some hvalue, run_castRound_of_ends h]
  rw [DefaultClause.reader, run_bind_of_some (run_possibly_of_eq hrun)]
  rfl

/-- A value is read as it is spelled, where nothing behind it carries it on. -/
theorem SpellsValue.run_reader {vs : List Token} {v : String} (h : SpellsValue vs v)
    (hmore : EndsValue more) :
    DefaultClause.reader.run (vs ++ more) = (some (DefaultClause.ofText v), more) := by
  have hnumber : ∀ (sign : Token) {bs : List Token}, AllBlank bs → ∀ text,
      advancePastBlanks.run (sign :: (bs ++ .number text :: more)) =
        (some (), .number text :: more) := fun sign bs hbs text =>
    run_advancePastBlanks_append sign hbs fun u hu => by cases Option.some.inj hu; rfl
  cases h with
  | number => exact run_defaultReader (t := .number v) hmore rfl
  | @plus bs hbs _ =>
    rw [List.cons_append, ← List.append_cons]
    refine run_defaultReader hmore ?_
    rw [DefaultClause.valueOf, run_bind_of_some (hnumber _ hbs v)]
    rfl
  | @minus bs hbs text =>
    rw [List.cons_append, ← List.append_cons]
    refine run_defaultReader hmore ?_
    rw [DefaultClause.valueOf, run_bind_of_some (hnumber _ hbs text)]
    rfl
  | @string t value hvalue =>
    refine run_defaultReader (t := t) hmore ?_
    cases t with
    | literal form text => cases form <;> cases hvalue <;> rfl
    | _ => cases hvalue
  | word text =>
    refine run_defaultReader (t := .word text) hmore ?_
    rw [DefaultClause.valueOf, run_bind_of_some (run_advance _), List.tail_cons,
      DefaultClause.wordValue]
    exact run_bind_of_some (run_callArguments_of_ends hmore) _
  | @call w gs group hclosed hreads =>
    refine run_defaultReader (t := .word w) hmore ?_
    have hcall := run_callArguments_append hclosed hreads more
    show (DefaultClause.valueOf (.word w)).run (.word w :: (gs ++ more)) = _
    rw [DefaultClause.valueOf, run_bind_of_some (run_advance _), List.tail_cons,
      DefaultClause.wordValue, run_bind_of_some (run_attempt_of_some hcall), callText]
    dsimp only
    split <;> rfl

/-! ## References -/

/-- A known action is read in front of anything. -/
theorem run_action_append {as : List Token} {a : String}
    (h : Reference.action.run as = (some a, [])) (ha : a ∈ ForeignKey.actions)
    (more : List Token) : Reference.action.run (as ++ more) = (some a, more) := by
  cases as with
  | nil => cases h
  | cons t as =>
    cases ht : t.wordText? with
    | none =>
      rw [Reference.action, run_bind_of_none (run_token_of_none ht as)] at h
      cases h
    | some first =>
      rw [Reference.action, run_bind_of_some (run_token_of_some ht as)] at h
      rw [Reference.action, List.cons_append, run_bind_of_some (run_token_of_some ht _)]
      dsimp only at h ⊢
      split
      · rename_i htwo
        rw [if_pos htwo, run_bind_of_some (run_skipBlanks as)] at h
        -- a known action does not end with the first of two words
        have hone : Text.upper first ≠ a := by
          rintro rfl
          have hall : ∀ a ∈ ForeignKey.actions, (a == "SET" || a == "NO") = false := by decide
          rw [hall _ ha] at htwo
          cases htwo
        cases has : as.dropWhile Token.isBlank with
        | nil =>
          rw [has] at h
          exact absurd (Option.some.inj (Prod.mk.inj h).1) hone
        | cons u us =>
          rw [run_bind_of_some (run_skipBlanks _), dropWhile_append_of_cons has]
          rw [has] at h
          cases hu : u.wordText? with
          | none =>
            rw [run_bind_of_some (run_possibly_of_eq (run_token_of_none hu us))] at h
            exact absurd (Option.some.inj (Prod.mk.inj h).1) hone
          | some second =>
            rw [run_bind_of_some (run_possibly_of_eq (run_token_of_some hu us))] at h
            rw [run_bind_of_some (run_possibly_of_eq (run_token_of_some hu _))]
            cases h
            rfl
      · rename_i hone
        rw [if_neg hone] at h
        cases h
        rfl

/-- The reading of an event is that of its word and its action. -/
theorem run_event {event : ReferenceEvent} {t u : Token} {bs bs' as : List Token} {a : String}
    (r : Reference) (hbs : AllBlank bs) (hu : u.isKeyword event.word = true) (hbs' : AllBlank bs')
    (haction : Reference.action.run as = (some a, [])) (ha : a ∈ ForeignKey.actions)
    (more : List Token) :
    (Reference.event r).run (t :: (bs ++ u :: (bs' ++ (as ++ more)))) =
      (some (event.set r a), more) := by
  have hword : ∀ v ∈ (u :: (bs' ++ (as ++ more))).head?, v.isBlank = false := by
    intro v hv
    obtain rfl : u = v := Option.some.inj hv
    exact isBlank_of_isKeyword hu
  have hhead : ∀ v ∈ (as ++ more).head?, v.isBlank = false :=
    isBlank_head_of_run rfl (fun _ _ => rfl) haction more
  have hkeyword : ∀ k, u.isKeyword k = true →
      (keyword k).run (u :: (bs' ++ (as ++ more))) = (some (), as ++ more) := by
    intro k hk
    rw [run_keyword_of_pos hk, dropWhile_isBlank_append hbs' hhead]
  have hpossibly : (possibly Reference.action).run (as ++ more) = (some (some a), more) :=
    run_possibly_of_eq (run_action_append haction ha more)
  rw [Reference.event, run_bind_of_some (run_advancePastBlanks_append t hbs hword)]
  cases event with
  | delete =>
    rw [run_bind_of_some (run_possibly_of_eq (hkeyword "DELETE" hu))]
    exact run_bind_of_some hpossibly _
  | update =>
    have hdelete : u.isKeyword "DELETE" = false := isKeyword_eq_false_of_ne hu (by decide)
    rw [run_bind_of_some (run_possibly_of_eq (run_keyword_of_neg hdelete _))]
    dsimp only
    rw [run_bind_of_some (hkeyword "UPDATE" hu)]
    exact run_bind_of_some hpossibly _

/-- `NOT NULL` is not taken for `NOT DEFERRABLE`. -/
theorem run_seesNotDeferrable_of_begins (h : BeginsAttribute ts) :
    Reference.seesNotDeferrable.run ts = (some false, ts) := by
  cases ts with
  | nil => rfl
  | cons t ts =>
    have hsees : (seesKeyword "NOT").run (t :: ts) = (some (t.isKeyword "NOT"), t :: ts) :=
      run_seesKeyword _ t ts
    rw [Reference.seesNotDeferrable, run_bind_of_some hsees]
    cases hnot : t.isKeyword "NOT" with
    | false => rfl
    | true =>
      have hsecond := h.2 t rfl hnot
      rw [List.tail_cons] at hsecond
      have hpeek : peekSecond.run (t :: ts) =
          (some (ts.dropWhile Token.isBlank).head?, t :: ts) := rfl
      rw [if_pos rfl, run_bind_of_some hpeek]
      cases hu : (ts.dropWhile Token.isBlank).head? with
      | none => rfl
      | some u =>
        have hnull := hsecond u hu
        cases u with
        | word text =>
          have hword : Text.sameIgnoringCase text "DEFERRABLE" = false := by
            by_contra hn
            have hkeyword := isKeyword_of_isWord (t := .word text) (w := "DEFERRABLE")
              (Bool.not_eq_false _ ▸ hn) (by decide)
            rw [isKeyword_eq_false_of_ne hnull (by decide)] at hkeyword
            cases hkeyword
          show (some (Text.sameIgnoringCase text "DEFERRABLE"), _) = _
          rw [hword]
        | _ => cases hnull

/-- What begins a modifier does not carry on a reference. -/
theorem run_optionRound_of_begins (r : Reference)
    (h : BeginsAttribute (more.dropWhile Token.isBlank)) :
    (Reference.optionRound r).run more = (some (.inr r), more.dropWhile Token.isBlank) := by
  rw [Reference.optionRound, run_bind_of_some (run_skipBlanks more)]
  generalize more.dropWhile Token.isBlank = us at *
  rw [seesKeyword, run_bind_of_some (run_sees_of_excludes (excludes_isKeyword (by decide)) h.1),
    if_neg Bool.false_ne_true, seesWord,
    run_bind_of_some (run_sees_of_excludes (excludes_isWord (by decide) (by decide)) h.1),
    if_neg Bool.false_ne_true, seesAnyWord,
    run_bind_of_some (run_sees_of_excludes (excludes_any_isWord (by decide)) h.1),
    if_neg Bool.false_ne_true, run_bind_of_some (run_seesNotDeferrable_of_begins h),
    if_neg Bool.false_ne_true]
  rfl

/-- The actions of a reference are read until they end, blanks in front of them aside. -/
theorem SpellsActions.run_options {r r' : Reference} {us : List Token}
    (h : SpellsActions ts r r') (hmore : BeginsAttribute (more.dropWhile Token.isBlank))
    (hus : us.dropWhile Token.isBlank = (ts ++ more).dropWhile Token.isBlank) :
    (loop Reference.optionRound r).run us = (some r', more.dropWhile Token.isBlank) := by
  induction h generalizing us with
  | done r =>
    rw [List.nil_append] at hus
    have hround := run_optionRound_of_begins r (hus ▸ hmore)
    rw [hus] at hround
    exact run_loop_inr hround
  | @on event t u bs bs' bs'' as ts a r r' hbs hon hbs' hu hbs'' haction ha _ ih =>
    have hstart : us.dropWhile Token.isBlank =
        t :: (bs' ++ u :: (bs'' ++ (as ++ (ts ++ more)))) := by
      rw [hus, List.append_assoc, dropWhile_isBlank_append hbs]
      · simp only [List.cons_append, List.append_assoc]
      · intro v hv
        obtain rfl : t = v := Option.some.inj hv
        exact isBlank_of_isKeyword hon
    have hround : (Reference.optionRound r).run us =
        (some (.inl (event.set r a)), ts ++ more) := by
      have hsees : ∀ vs, (seesKeyword "ON").run (t :: vs) = (some true, t :: vs) := by
        intro vs
        rw [run_seesKeyword, hon]
      rw [Reference.optionRound, run_bind_of_some (run_skipBlanks us), hstart,
        run_bind_of_some (hsees _), if_pos rfl,
        run_bind_of_some (run_attempt_of_some (run_event r hbs' hu hbs'' haction ha _))]
      rfl
    have hlt : (ts ++ more).length < us.length :=
      length_lt_of_dropWhile hstart (by simp only [List.length_cons, List.length_append]; omega)
    rw [run_loop_inl hround hlt, ih rfl]

/-- A reference is read as it is spelled, and the blanks behind it are passed over. -/
theorem run_referenceReader {ns bs' cs : List Token} {table : String} {columns : List String}
    {target : Reference} (hbs : AllBlank bs) (hns : qualifiedName.run ns = (some table, []))
    (hbs' : AllBlank bs') (hcs : nameList.run cs = (some columns, []))
    (hts : SpellsActions ts { table, columns } target)
    (hmore : BeginsAttribute (more.dropWhile Token.isBlank)) :
    Reference.reader.run (bs ++ (ns ++ (bs' ++ (cs ++ (ts ++ more))))) =
      (some target, more.dropWhile Token.isBlank) := by
  have hname : ∀ us, ∀ v ∈ (ns ++ us).head?, v.isBlank = false :=
    isBlank_head_of_run rfl (fun _ _ => rfl) hns
  obtain ⟨t, cs', rfl, ht⟩ : ∃ t cs', cs = t :: cs' ∧ t.isMark .openParen = true := by
    obtain ⟨_, _, hopen, -⟩ := exists_of_run_bind hcs
    obtain ⟨t, cs', hcons, ht, -⟩ := exists_of_run_expect hopen
    exact ⟨t, cs', hcons, ht⟩
  obtain ⟨kind, rfl⟩ : ∃ kind, t = .mark kind := by
    cases t with
    | mark kind => exact ⟨kind, rfl⟩
    | _ => cases ht
  obtain rfl : kind = .openParen := by simpa [Token.isMark] using ht
  have hlist : (bs' ++ (.mark .openParen :: cs' ++ (ts ++ more))).dropWhile Token.isBlank =
      .mark .openParen :: cs' ++ (ts ++ more) :=
    dropWhile_isBlank_append hbs' fun v hv => by cases Option.some.inj hv; rfl
  have hbounded : Bounded (fun us => ∀ v ∈ us.head?, v.isMark .period = false) qualifiedName ns :=
    bounded_qualifiedName ⟨fun v hv => Token.isMark_eq_false_of_isBlank hv _,
      fun v us h => h v rfl⟩ hns
  obtain ⟨us, hus, hrun⟩ := hbounded (bs' ++ (.mark .openParen :: cs' ++ (ts ++ more)))
    (by rw [hlist]; intro v hv; cases Option.some.inj hv; rfl)
  obtain ⟨vs, hvs, hnames⟩ := bounded_nameList (q := fun _ => True) hcs (ts ++ more) trivial
  have hskip : skipBlanks.run (bs ++ (ns ++ (bs' ++ (.mark .openParen :: cs' ++ (ts ++ more))))) =
      (some (), ns ++ (bs' ++ (.mark .openParen :: cs' ++ (ts ++ more)))) := by
    rw [run_skipBlanks, dropWhile_isBlank_append hbs (hname _)]
  have hskip' : skipBlanks.run us = (some (), .mark .openParen :: cs' ++ (ts ++ more)) := by
    rw [run_skipBlanks, hus.dropWhile_eq, hlist]
  rw [hns, List.nil_append] at hrun
  rw [hcs, List.nil_append] at hnames
  rw [Reference.reader, run_bind_of_some hskip, run_bind_of_some hrun, run_bind_of_some hskip',
    List.cons_append, run_bind_of_some (run_seesMark _ _ _), ht, if_pos rfl]
  exact (run_bind_of_some hnames _).trans (hts.run_options hmore hvs.dropWhile_eq)

/-! ## Modifiers -/

/-- The first word of a modifier with the word behind it. -/
theorem run_advance_sees {k : String} {u : Token} (t : Token) (hbs : AllBlank bs)
    (hu : u.isKeyword k = true) (more : List Token) :
    advancePastBlanks.run (t :: (bs ++ u :: more)) = (some (), u :: more) ∧
      (seesKeyword k).run (u :: more) = (some true, u :: more) := by
  refine ⟨run_advancePastBlanks_append t hbs fun v hv => ?_, by rw [run_seesKeyword, hu]⟩
  obtain rfl : u = v := Option.some.inj hv
  exact isBlank_of_isKeyword hu

theorem run_notClause_of_null {u : Token} (t : Token) (hbs : AllBlank bs)
    (hu : u.isKeyword "NULL" = true) (d : Draft) :
    (notClause d).run (t :: (bs ++ u :: more)) =
      (some (d.update fun c => { c with nullable := false }), more) := by
  obtain ⟨hadvance, hsees⟩ := run_advance_sees t hbs hu more
  rw [notClause, run_bind_of_some hadvance, run_bind_of_some hsees]
  rfl

theorem run_sortOrder_of_ends (h : EndsValue ts) :
    (attempt sortOrder).run ts = (some none, ts) := by
  refine run_attempt_of_none ?_
  unfold EndsValue at h
  rw [sortOrder, run_bind_of_some (run_skipBlanks ts)]
  generalize ts.dropWhile Token.isBlank = us at *
  cases us with
  | nil => rfl
  | cons u us =>
    have hsees : (seesAnyWord ["ASC", "DESC"]).run (u :: us) = (some false, u :: us) := by
      rw [run_seesAnyWord, (h u rfl).1]
    rw [run_bind_of_some hsees]
    rfl

theorem run_primaryClause_of_key {u : Token} (t : Token) (hbs : AllBlank bs)
    (hu : u.isKeyword "KEY" = true) (hmore : EndsValue more) (d : Draft) :
    (primaryClause d).run (t :: (bs ++ u :: more)) =
      (some (d.update fun c => { c with primaryKey := true }).dropName, more) := by
  obtain ⟨hadvance, hsees⟩ := run_advance_sees t hbs hu more
  rw [primaryClause, run_bind_of_some hadvance, run_bind_of_some hsees, if_pos rfl,
    run_bind_of_some (run_advance _), List.tail_cons,
    run_bind_of_some (run_sortOrder_of_ends hmore)]
  rfl

/-- Parentheses that take all their tokens take no more of what stands behind. -/
theorem run_skipParenthesized_append {gs : List Token} (hclosed : Token.IsItem gs)
    (htakes : (parenthesized.run (gs.dropWhile Token.isBlank)).2 = [])
    (hmore : BeginsModifier (more.dropWhile Token.isBlank)) :
    ∃ more', AllOrPastBlanks more more' ∧
      skipParenthesized.run ((gs ++ more).dropWhile Token.isBlank) = (some (), more') := by
  obtain ⟨mid, hmid, hskip⟩ := bounded_skipBlanks (q := BeginsModifier) gs more hmore
  obtain ⟨more', hmore', hrun⟩ := bounded_skipParenthesized
    (bounded_parenthesized_of_isItem (excludes_isMark _) (isItem_dropWhile hclosed)) mid
    (hmid.dropWhile_eq ▸ hmore)
  have hdrop : (gs ++ more).dropWhile Token.isBlank = gs.dropWhile Token.isBlank ++ mid :=
    congrArg Prod.snd hskip
  refine ⟨more', hmid.trans hmore', ?_⟩
  rw [hdrop, hrun, run_skipParenthesized, htakes]
  rfl

theorem run_identityClause (t : Token) (d : Draft) {gs : List Token} (hclosed : Token.IsItem gs)
    (htakes : (parenthesized.run (gs.dropWhile Token.isBlank)).2 = [])
    (hmore : BeginsModifier (more.dropWhile Token.isBlank)) :
    ∃ more', AllOrPastBlanks more more' ∧ (identityClause d).run (t :: (gs ++ more)) =
      (some (d.update fun c => { c with autoIncrement := true }), more') := by
  obtain ⟨more', hmore', hrun⟩ := run_skipParenthesized_append hclosed htakes hmore
  refine ⟨more', hmore', ?_⟩
  rw [identityClause, run_bind_of_some (run_advancePastBlanks _), List.tail_cons,
    run_bind_of_some hrun]
  rfl

/-- The words for the time are taken with the blanks behind them. -/
theorem SpellsTime.run_generationTime {ws : List Token} (h : SpellsTime ws) (more : List Token) :
    generationTime.run (ws ++ more) = (some (), more.dropWhile Token.isBlank) := by
  cases h with
  | @always t ht =>
    have halways : (possibly (word "ALWAYS")).run (t :: more) =
        (some (some ()), more.dropWhile Token.isBlank) :=
      run_possibly_of_eq (run_expect_of_pos ht more)
    rw [generationTime, List.singleton_append, run_bind_of_some halways]
    rfl
  | @byDefault t u bs ht hbs hu =>
    have halways : t.isWord "ALWAYS" = false := by
      have hkeyword := isKeyword_of_isWord ht (by decide)
      by_contra hx
      have hother := isKeyword_of_isWord (Bool.of_not_eq_false hx) (by decide)
      rw [isKeyword_eq_false_of_ne hkeyword (by decide)] at hother
      cases hother
    have hdrop : (bs ++ u :: more).dropWhile Token.isBlank = u :: more :=
      dropWhile_isBlank_append hbs fun v hv => by
        obtain rfl : u = v := Option.some.inj hv
        exact isBlank_of_isKeyword hu
    have hnot : ∀ ts, (possibly (word "ALWAYS")).run (t :: ts) = (some none, t :: ts) :=
      fun ts => run_possibly_of_eq (run_expect_of_neg halways ts)
    have hby : ∀ ts, (possibly (word "BY")).run (t :: ts) =
        (some (some ()), ts.dropWhile Token.isBlank) :=
      fun ts => run_possibly_of_eq (run_expect_of_pos ht ts)
    have hdefault : (possibly (keyword "DEFAULT")).run (u :: more) =
        (some (some ()), more.dropWhile Token.isBlank) :=
      run_possibly_of_eq (run_expect_of_pos hu more)
    rw [generationTime, List.cons_append, ← List.append_cons, run_bind_of_some (hnot _)]
    dsimp only
    rw [run_bind_of_some (hby _), hdrop]
    dsimp only
    rw [run_bind_of_some hdefault]
    rfl

theorem SpellsTime.head_isBlank {ws : List Token} (h : SpellsTime ws) :
    ∀ u ∈ (ws ++ more).head?, u.isBlank = false := by
  intro u hu
  cases h with
  | always ht | byDefault ht => exact Option.some.inj hu ▸ isBlank_of_isWord ht

/-- An identity is generated whatever the time. -/
theorem run_generatedClause (t : Token) (d : Draft) {u v : Token}
    {bs' bs'' ws gs : List Token} (hbs : AllBlank bs) (hws : SpellsTime ws) (hbs' : AllBlank bs')
    (hu : u.isKeyword "AS" = true) (hbs'' : AllBlank bs'') (hv : v.isWord "IDENTITY" = true)
    (hclosed : Token.IsItem gs)
    (htakes : (parenthesized.run (gs.dropWhile Token.isBlank)).2 = [])
    (hmore : BeginsModifier (more.dropWhile Token.isBlank)) :
    ∃ more', AllOrPastBlanks more more' ∧
      (generatedClause d).run (t :: (bs ++ (ws ++ (bs' ++ u :: (bs'' ++ v :: (gs ++ more)))))) =
        (some (d.update fun c => { c with autoIncrement := true }), more') := by
  obtain ⟨more', hmore', hrun⟩ := run_skipParenthesized_append hclosed htakes hmore
  refine ⟨more', hmore', ?_⟩
  have has : (bs' ++ u :: (bs'' ++ v :: (gs ++ more))).dropWhile Token.isBlank =
      u :: (bs'' ++ v :: (gs ++ more)) :=
    dropWhile_isBlank_append hbs' fun w hw => by
      obtain rfl : u = w := Option.some.inj hw
      exact isBlank_of_isKeyword hu
  have hidentity : (bs'' ++ v :: (gs ++ more)).dropWhile Token.isBlank = v :: (gs ++ more) :=
    dropWhile_isBlank_append hbs'' fun w hw => by
      obtain rfl : v = w := Option.some.inj hw
      exact isBlank_of_isWord hv
  have hkeyword : ∀ ts, (possibly (keyword "AS")).run (u :: ts) =
      (some (some ()), ts.dropWhile Token.isBlank) :=
    fun ts => run_possibly_of_eq (run_expect_of_pos hu ts)
  rw [generatedClause, run_bind_of_some (run_advancePastBlanks_append t hbs hws.head_isBlank),
    run_bind_of_some (hws.run_generationTime _), has, run_bind_of_some (hkeyword _), hidentity]
  dsimp only
  rw [run_bind_of_some (run_seesWord _ _ _), hv, if_pos rfl,
    run_bind_of_some (run_advancePastBlanks _), List.tail_cons, run_bind_of_some hrun]
  rfl

theorem run_uniqueClause_of_begins (t : Token) (d : Draft)
    (hmore : BeginsModifier (more.dropWhile Token.isBlank)) :
    (uniqueClause d).run (t :: more) =
      (some (d.update fun c => { c with unique := true, uniqueName := d.pendingName }).dropName,
        more.dropWhile Token.isBlank) := by
  have hsees := run_sees_of_excludes (excludes_isKeyword (k := "KEY") (by decide)) hmore
  rw [uniqueClause, run_bind_of_some (run_advancePastBlanks _), List.tail_cons, seesKeyword,
    run_bind_of_some hsees]
  rfl

end

namespace Attribute

variable {a : Attribute} {ts more : List Token}

/-- A modifier begins with its word. -/
theorem Spells.begins (h : Spells ts a) (more : List Token) : BeginsAttribute (ts ++ more) := by
  have hword : ∀ {t : Token} {k : String} (us : List Token), t.isKeyword k = true →
      k ∈ modifierWords → k ≠ "NOT" → BeginsAttribute (t :: us) := by
    intro t k us hk hmem hnot
    refine ⟨fun u hu => ⟨k, hmem, Option.some.inj hu ▸ hk⟩, fun u hu hnot' => ?_⟩
    obtain rfl : t = u := Option.some.inj hu
    rw [isKeyword_eq_false_of_ne hk hnot] at hnot'
    cases hnot'
  cases h with
  | @notNull t u bs hnot hbs hnull =>
    refine ⟨fun v hv => ⟨"NOT", by decide, Option.some.inj hv ▸ hnot⟩, fun v _ _ w hw => ?_⟩
    have hdrop : (bs ++ [u] ++ more).dropWhile Token.isBlank = u :: more := by
      rw [← List.append_cons]
      exact dropWhile_isBlank_append hbs fun x hx => by
        obtain rfl : u = x := Option.some.inj hx
        exact isBlank_of_isKeyword hnull
    rw [List.cons_append, List.tail_cons, hdrop] at hw
    obtain rfl : u = w := Option.some.inj hw
    exact hnull
  | @counting t ht =>
    have hall : ∀ w ∈ ["AUTO_INCREMENT", "AUTOINCREMENT"], (∀ c ∈ w.toList, c.toNat < 0x80) ∧
        Text.upper w ∈ modifierWords ∧ Text.upper w ≠ "NOT" := by
      decide
    obtain ⟨w, hw, ht⟩ := List.any_eq_true.1 ht
    obtain ⟨hascii, hmem, hnot⟩ := hall w hw
    exact hword _ (isKeyword_of_isWord ht hascii) hmem hnot
  | identity ht | generated ht =>
    exact hword _ (isKeyword_of_isWord ht (by decide)) (by decide) (by decide)
  | _ => exact hword _ (by assumption) (by decide) (by decide)

/-- **A modifier says in front of any other what it says**, and nothing behind it is taken but
blanks. -/
theorem Spells.run_modifier (h : Spells ts a)
    (hmore : BeginsAttribute (more.dropWhile Token.isBlank)) (d : ColumnDefinition) :
    ∃ t us more', ts = t :: us ∧ AllOrPastBlanks more more' ∧
      (modifier { definition := d } (Clause.ofToken t)).run (ts ++ more) =
        (some { definition := a.apply d }, more') := by
  cases h with
  | @null t ht =>
    refine ⟨t, [], more, rfl, Or.inl rfl, ?_⟩
    rw [ofToken_of_isKeyword ht rfl]
    rfl
  | @notNull t u bs ht hbs hu =>
    refine ⟨t, _, more, rfl, Or.inl rfl, ?_⟩
    rw [ofToken_of_isKeyword ht rfl, List.cons_append, ← List.append_cons]
    exact run_notClause_of_null t hbs hu _
  | @primaryKey t u bs ht hbs hu =>
    refine ⟨t, _, more, rfl, Or.inl rfl, ?_⟩
    rw [ofToken_of_isKeyword ht rfl, List.cons_append, ← List.append_cons]
    exact run_primaryClause_of_key t hbs hu hmore.1.endsValue _
  | @unique t ht =>
    refine ⟨t, [], _, rfl, Or.inr rfl, ?_⟩
    rw [ofToken_of_isKeyword ht rfl]
    exact run_uniqueClause_of_begins t _ hmore.1
  | @default t bs vs value ht hbs hvalue =>
    refine ⟨t, _, more, rfl, Or.inl rfl, ?_⟩
    rw [ofToken_of_isKeyword ht rfl, List.cons_append, List.append_assoc, modifier, defaultClause,
      run_bind_of_some (run_advancePastBlanks_append t hbs hvalue.head_isBlank),
      run_bind_of_some (hvalue.run_reader hmore.1.endsValue)]
    rfl
  | @comment t u bs text ht hbs hu =>
    refine ⟨t, _, more, rfl, Or.inl rfl, ?_⟩
    have hadvance : advancePastBlanks.run (t :: (bs ++ u :: more)) = (some (), u :: more) := by
      refine run_advancePastBlanks_append t hbs fun v hv => ?_
      obtain rfl : u = v := Option.some.inj hv
      cases u with
      | blank kind => cases hu
      | _ => rfl
    rw [ofToken_of_isKeyword ht rfl, List.cons_append, ← List.append_cons, modifier, commentClause,
      run_bind_of_some hadvance, stringLiteral,
      run_bind_of_some (run_possibly_of_eq (run_token_of_some hu more))]
    rfl
  | @counting t ht =>
    refine ⟨t, [], more, rfl, Or.inl rfl, ?_⟩
    rw [ofToken_counting ht]
    rfl
  | @identity t gs ht hclosed htakes =>
    obtain ⟨more', hmore', hrun⟩ := run_identityClause t { definition := d } hclosed htakes hmore.1
    refine ⟨t, _, more', rfl, hmore', ?_⟩
    rw [ofToken_of_isWord ht (by decide) (by decide) rfl]
    exact hrun
  | @generated t u v bs ws bs' bs'' gs ht hbs hws hbs' hu hbs'' hv hclosed htakes =>
    obtain ⟨more', hmore', hrun⟩ := run_generatedClause t { definition := d } hbs hws hbs' hu hbs''
      hv hclosed htakes hmore.1
    refine ⟨t, _, more', rfl, hmore', ?_⟩
    have happ : t :: (bs ++ (ws ++ (bs' ++ u :: (bs'' ++ v :: gs)))) ++ more =
        t :: (bs ++ (ws ++ (bs' ++ u :: (bs'' ++ v :: (gs ++ more))))) := by
      simp only [List.cons_append, List.append_assoc]
    rw [ofToken_of_isWord ht (by decide) (by decide) rfl, happ]
    exact hrun
  | @references t bs ns bs' cs ts table columns target ht hbs hns hbs' hcs hts =>
    refine ⟨t, _, _, rfl, Or.inr rfl, ?_⟩
    have hread := run_referenceReader hbs hns hbs' hcs hts hmore
    have happ : t :: (bs ++ (ns ++ (bs' ++ (cs ++ ts)))) ++ more =
        t :: (bs ++ (ns ++ (bs' ++ (cs ++ (ts ++ more))))) := by
      simp only [List.cons_append, List.append_assoc]
    rw [ofToken_of_isKeyword ht rfl, happ, modifier, referencesClause,
      run_bind_of_some (run_advance _), List.tail_cons, run_bind_of_some (run_possibly_of_eq hread)]
    rfl

/-! ## Modifiers in a row -/

/-- Tokens that are modifiers, with blanks in front of each and behind the last one. -/
inductive AreSpelled : List Token → List Attribute → Prop
  | done {bs : List Token} (blanks : AllBlank bs) : AreSpelled bs []
  | next {bs ts ms : List Token} {a : Attribute} {as : List Attribute} (blanks : AllBlank bs)
      (spells : Spells ts a) (rest : AreSpelled ms as) : AreSpelled (bs ++ (ts ++ ms)) (a :: as)

variable {ms : List Token} {as : List Attribute}

theorem AreSpelled.blank_cons {t : Token} (h : AreSpelled ms as) (ht : t.isBlank = true) :
    AreSpelled (t :: ms) as := by
  have hcons : ∀ {bs : List Token}, AllBlank bs → AllBlank (t :: bs) := fun hbs u hu =>
    (List.mem_cons.1 hu).elim (fun heq => heq ▸ ht) (hbs u)
  cases h with
  | done hbs => exact .done (hcons hbs)
  | next hbs hspells hrest =>
    rw [← List.cons_append]
    exact .next (hcons hbs) hspells hrest

/-- Modifiers begin with a modifier, blanks aside. -/
theorem AreSpelled.begins (h : AreSpelled ms as) :
    BeginsAttribute (ms.dropWhile Token.isBlank) := by
  cases h with
  | done hbs =>
    rw [hbs.dropWhile]
    exact ⟨nofun, nofun⟩
  | next hbs hspells hrest =>
    rw [dropWhile_isBlank_append hbs (hspells.begins _).1.isBlank_head]
    exact hspells.begins _

/-- **Modifiers in a row are read one by one**, blanks in front of the first one aside. -/
theorem AreSpelled.run_modifiers (h : AreSpelled ms as) (d : ColumnDefinition) {us : List Token}
    (hus : us.dropWhile Token.isBlank = ms.dropWhile Token.isBlank) :
    (modifiers d).run us = (some (as.foldl apply d), []) := by
  rw [modifiers]
  induction h generalizing d us with
  | done hbs =>
    refine run_loop_inr ?_
    rw [modifierRound, run_bind_of_some (run_skipBlanks us), hus, hbs.dropWhile]
    rfl
  | @next bs ts ms a as hbs hspells hrest ih =>
    obtain ⟨t, ts', more, rfl, hmore, hread⟩ := hspells.run_modifier hrest.begins d
    have hstart : us.dropWhile Token.isBlank = t :: (ts' ++ ms) := by
      rw [hus]
      exact dropWhile_isBlank_append hbs (hspells.begins ms).1.isBlank_head
    have hround : (modifierRound { definition := d }).run us =
        (some (.inl { definition := a.apply d }), more) := by
      rw [modifierRound, run_bind_of_some (run_skipBlanks us), hstart,
        run_bind_of_some (run_peek _)]
      exact run_bind_of_some hread _
    have hle : more.length ≤ ms.length := by
      rcases hmore with rfl | rfl
      · exact Nat.le_refl _
      · exact length_dropWhile_le ms
    have hlt : more.length < us.length :=
      length_lt_of_dropWhile hstart (by rw [List.length_cons, List.length_append]; omega)
    rw [run_loop_inl hround hlt, ih (a.apply d) hmore.dropWhile_eq, List.foldl_cons]

end Attribute

end ColumnDefinition
end SchemaScript
