import SchemaScript.Definition.Assembly
import SchemaScript.Proofs.Definition.Modifiers
import SchemaScript.Proofs.Render.Literals
import SchemaScript.Proofs.Render.StringValue
import SchemaScript.Render.Column

/-!
# Strings as defaults

A text column that is defined with a string as its default keeps the string, quotes and all, in
its definition, and is written with a string literal again. The literal denotes what removing
casts leaves of the text, and there is none in SQLite if that asks for the current time
(`Column.defaultValue?_of_string`).

A default therefore keeps its text exactly if the text has no cast in it and, in SQLite, no call
of `now` (`ColumnDefinition.textDefault_denotes_iff`): casts are looked for in the quotes, too.
-/

namespace SchemaScript

/-! ## Writing -/

namespace Literal

theorem unquote?_enclose (s : String) : unquote? (Text.enclose '\'' s) = some s := by
  have hlist := Text.toList_enclose_eq s
  have hlast : (Text.quotedTail s.toList).getLast? = some '\'' := List.getLast?_concat
  have hinside : (Text.quotedTail s.toList).dropLast = Text.double '\'' s.toList :=
    List.dropLast_concat
  rw [unquote?, hlist]
  refine (if_pos hlast).trans ?_
  rw [hinside, Text.undouble_double, String.ofList_toList]

theorem isEmpty_enclose (s : String) : (Text.enclose '\'' s).isEmpty = false := by
  rw [← Bool.not_eq_true, String.isEmpty_iff, ← String.toList_inj, Text.toList_enclose_eq]
  exact List.cons_ne_nil _ _

theorem callsNow_enclose (s : String) : callsNow (Text.enclose '\'' s) = callsNow s :=
  Text.containsIgnoringCase_enclose (by decide) (by decide) s

end Literal

namespace Column

variable {d : Dialect} {c : Column} {s : String}

/-- A column whose default is neither a truth value nor a number. -/
structure KeepsDefault (c : Column) : Prop where
  notBoolean : c.isBoolean = false
  notInteger : c.isInteger = false
  notFractional : c.isFractional = false

/-- A string is written as it stands, or anew if it has a backslash. -/
theorem defaultLiteral_enclose (hc : c.KeepsDefault) (d : Dialect) (s : String) :
    c.defaultLiteral d (Text.enclose '\'' s) =
      if s.toList.contains '\\' then d.stringLiteral s else Text.enclose '\'' s := by
  rw [defaultLiteral, Literal.unquote?_enclose]
  simp [hc.notBoolean, hc.notInteger, hc.notFractional]

/-- Either way it is a literal of the string. -/
theorem readString?_defaultLiteral (hc : c.KeepsDefault) (d : Dialect) (s : String) :
    d.readString? (c.defaultLiteral d (Text.enclose '\'' s)).toList = some (s.toList, []) := by
  have hend : ([] : List Char).head? ≠ some '\'' := by simp
  rw [defaultLiteral_enclose hc, ← List.append_nil (String.toList _)]
  split
  · exact d.readString?_stringLiteral s hend
  · rename_i hslash
    have hno : '\\' ∉ s.toList := by simpa using hslash
    exact Dialect.readString?_enclose (fun _ => hno) hend

/-- **A string loses its casts as a default**, and in SQLite there is no default if what is left
asks for the current time. -/
theorem defaultValue?_of_string (hs : c.default = some (.literal (Text.enclose '\'' s)))
    (d : Dialect) :
    c.defaultValue? d =
      if d = .sqlite ∧ Literal.callsNow (Literal.withoutCasts s) = true then none
      else some (c.defaultLiteral d (Text.enclose '\'' (Literal.withoutCasts s))) := by
  have hnull := Literal.isNullWord_eq_false
    (Text.toList_enclose_eq (Literal.withoutCasts s)) (by decide)
  rw [defaultValue?, hs]
  dsimp only
  rw [Literal.stripCasts_enclose, Literal.isEmpty_enclose, hnull, Literal.callsNow_enclose]
  rfl

/-- A default that is written denotes what removing casts leaves of the string. -/
theorem readString?_of_defaultValue? (hc : c.KeepsDefault)
    (hs : c.default = some (.literal (Text.enclose '\'' s))) {literal : String}
    (h : c.defaultValue? d = some literal) :
    d.readString? literal.toList = some ((Literal.withoutCasts s).toList, []) := by
  rw [defaultValue?_of_string hs] at h
  split at h
  · cases h
  · cases h
    exact readString?_defaultLiteral hc d _

/-- A string keeps its text as a default exactly if there is no cast in it, nor a call that SQLite
does not know. -/
theorem defaultValue?_denotes_iff (hc : c.KeepsDefault)
    (hs : c.default = some (.literal (Text.enclose '\'' s))) (d : Dialect) :
    (∃ literal, c.defaultValue? d = some literal ∧
        d.readString? literal.toList = some (s.toList, [])) ↔
      ¬ Literal.HasCast s.toList ∧ ¬ (d = .sqlite ∧ Literal.callsNow s = true) := by
  rw [← Literal.withoutCasts_eq_self_iff]
  constructor
  · rintro ⟨literal, hvalue, hread⟩
    have hself : Literal.withoutCasts s = s := by
      rw [readString?_of_defaultValue? hc hs hvalue] at hread
      exact String.toList_inj.1 (congrArg Prod.fst (Option.some.inj hread))
    refine ⟨hself, fun hnow => ?_⟩
    rw [defaultValue?_of_string hs, hself, if_pos hnow] at hvalue
    cases hvalue
  · rintro ⟨hself, hnow⟩
    refine ⟨_, ?_, readString?_defaultLiteral hc d s⟩
    rw [defaultValue?_of_string hs, hself, if_neg hnow]

/-- The clauses of a column with nothing but a default. -/
theorem clauses_eq_default_iff {literal : String} (hnull : c.nullable = true)
    (hcounting : c.autoIncrement = false) (hdescription : c.description = none) :
    c.clauses d .none = [d.quoteColumn c.name, c.renderedType d, "DEFAULT " ++ literal] ↔
      c.defaultValue? d = some literal := by
  have hclauses : c.clauses d .none = [d.quoteColumn c.name, c.renderedType d,
      ((c.defaultValue? d).map ("DEFAULT " ++ ·)).getD "NULL"] := by
    cases hvalue : c.defaultValue? d <;>
      simp [clauses, nullWords, defaultClause?, visibleDescription?, hvalue, hnull, hcounting,
        hdescription]
  rw [hclauses]
  cases c.defaultValue? d with
  | none =>
    have hword : "NULL" ≠ "DEFAULT " ++ literal := by
      intro hx
      have hlist := congrArg String.toList hx
      rw [String.toList_append] at hlist
      exact absurd (List.cons.inj hlist).1 (by decide)
    simp [hword]
  | some value => simp

end Column

/-! ## Reading -/

namespace ColumnDefinition


/-- **A text column with a string as its default** is read as such. -/
theorem ofText?_textDefault (s : String) :
    ofText? ("c TEXT DEFAULT " ++ Text.enclose '\'' s) =
      some { name := "c", dataType := "TEXT",
             default := some (.literal (Text.enclose '\'' s)) } := by
  have hvalue : IsPlainValue (Text.enclose '\'' s) := .string s
  have hdefault : DefaultClause.ofText (Text.enclose '\'' s) =
      .declared (.literal (Text.enclose '\'' s)) :=
    hvalue.ofText_eq (Literal.isNullWord_eq_false (Text.toList_enclose_eq s) (by decide))
  have hname : (Token.word "c").print = "c".toList := rfl
  obtain ⟨ms, hprint, hspaced, -, hread⟩ := writesType_text.exists_tokens rfl
    (Token.isAtom_word (by decide)) hname
    (.cons (Attribute.writes_default hvalue.writesValue) .nil)
  have htext : "c TEXT DEFAULT " ++ Text.enclose '\'' s =
      " ".intercalate ["c", "TEXT", "DEFAULT " ++ Text.enclose '\'' s] := by
    simp [← String.toList_inj]
  rw [ofText?, htext, ← hprint, hspaced.tokenize, Option.bind_some, hread, List.foldl_cons,
    List.foldl_nil, Attribute.apply, hdefault]
  rfl

section TextDefault

variable {s literal : String} {p : ColumnDefinition}

theorem default_of_textDefault
    (hp : ofText? ("c TEXT DEFAULT " ++ Text.enclose '\'' s) = some p) :
    p.toColumn.KeepsDefault ∧ p.toColumn.default = some (.literal (Text.enclose '\'' s)) := by
  have hnoBoolean : DataType.isBoolean "TEXT" none = false := by decide
  have hnoInteger : DataType.isInteger "TEXT" = false := by decide
  have hnoFractional : DataType.isFractional "TEXT" = false := by decide
  rw [ofText?_textDefault] at hp
  cases hp
  exact ⟨⟨hnoBoolean, hnoInteger, hnoFractional⟩, rfl⟩

/-- A text column with a default is written with it, if it can be. -/
theorem clauses_of_textDefault (d : Dialect)
    (hp : ofText? ("c TEXT DEFAULT " ++ Text.enclose '\'' s) = some p) :
    p.toColumn.clauses d .none =
        [d.quoteColumn "c", p.toColumn.renderedType d, "DEFAULT " ++ literal] ↔
      p.toColumn.defaultValue? d = some literal := by
  rw [ofText?_textDefault] at hp
  cases hp
  exact Column.clauses_eq_default_iff rfl rfl rfl

end TextDefault

/-- **A string keeps its text as a default exactly if there is no cast in it**, nor, for SQLite, a
call for the current time. What is written is in any case a literal of the text without its
casts. -/
theorem textDefault_denotes_iff (d : Dialect) (s : String) :
    ∃ p, ofText? ("c TEXT DEFAULT " ++ Text.enclose '\'' s) = some p ∧
      (∀ literal, p.toColumn.clauses d .none =
          [d.quoteColumn "c", p.toColumn.renderedType d, "DEFAULT " ++ literal] →
        d.readString? literal.toList = some ((Literal.withoutCasts s).toList, [])) ∧
      ((∃ literal, p.toColumn.clauses d .none =
            [d.quoteColumn "c", p.toColumn.renderedType d, "DEFAULT " ++ literal] ∧
          d.readString? literal.toList = some (s.toList, [])) ↔
        ¬ Literal.HasCast s.toList ∧ ¬ (d = .sqlite ∧ Literal.callsNow s = true)) := by
  have hread := ofText?_textDefault s
  obtain ⟨hkeeps, hdefault⟩ := default_of_textDefault hread
  refine ⟨_, hread, fun literal hliteral => ?_, ?_⟩
  · rw [clauses_of_textDefault d hread] at hliteral
    exact Column.readString?_of_defaultValue? hkeeps hdefault hliteral
  · simp only [clauses_of_textDefault d hread]
    exact Column.defaultValue?_denotes_iff hkeeps hdefault d

/-- The text `a::text` is not kept. -/
theorem textDefault_cast :
    ∃ p, ofText? "c TEXT DEFAULT 'a::text'" = some p ∧
      ¬ ∃ literal, p.toColumn.clauses .mysql .none =
          [Dialect.mysql.quoteColumn "c", p.toColumn.renderedType .mysql, "DEFAULT " ++ literal] ∧
        Dialect.mysql.readString? literal.toList = some ("a::text".toList, []) := by
  have htext : "c TEXT DEFAULT 'a::text'" = "c TEXT DEFAULT " ++ Text.enclose '\'' "a::text" := by
    decide
  have hcast : Literal.HasCast "a::text".toList := ⟨['a'], 't', "ext".toList, rfl, rfl⟩
  have hread := ofText?_textDefault "a::text"
  obtain ⟨hkeeps, hdefault⟩ := default_of_textDefault hread
  rw [htext]
  refine ⟨_, hread, ?_⟩
  rintro ⟨literal, hclauses, hliteral⟩
  rw [clauses_of_textDefault .mysql hread] at hclauses
  have hkept := (Column.defaultValue?_denotes_iff hkeeps hdefault .mysql).1
    ⟨literal, hclauses, hliteral⟩
  exact hkept.1 hcast

end ColumnDefinition
end SchemaScript
