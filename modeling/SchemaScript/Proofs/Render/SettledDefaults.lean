import SchemaScript.Proofs.Render.Cells
import SchemaScript.Proofs.Render.Defaults
import SchemaScript.Proofs.Render.TypeFamilies

/-!
# Defaults that are rendered again

The literal that a default is rendered as is read as a default with the same literal
(`Column.defaultValue?_of_isRenderedAs`). Truth values and numbers are rendered anew, and it is the
rendered text that counts. A text in a column that holds neither is rendered as it stands, so it
has to be a value that the reader of defaults takes as it stands
(`ColumnDefinition.IsPlainValue`), without anything in it that looks like a cast, and without
backslashes where these are doubled.

The type of the column is read as a type of the same kind, with two exceptions: bit strings of
several bits are read as truth values, and years as whole numbers outside of MySQL and MariaDB. So
their defaults have to be spelled as truth values and whole numbers are.
-/

namespace SchemaScript

open ColumnDefinition (IsPlainValue WritesValue)

namespace Column

variable {d : Dialect} {c c' : Column} {text value raw : String}

/-- A default of a column that is rendered as a value that is read as itself. -/
structure HasSettledDefault (d : Dialect) (c : Column) (text : String) : Prop where
  bit : c.dataType = "BIT" → c.isBoolean = true ∨
    ∃ b, Literal.stripCasts text = d.booleanLiteral b
  year : c.dataType = "YEAR" → d.isMySqlFamily = true ∨
    ∃ i : Int, Number.IsSigned64 i ∧ Literal.stripCasts text = toString i
  plain : c.KeepsDefault → IsPlainValue (Literal.stripCasts text)
  castless : c.KeepsDefault →
    Literal.stripCasts (Literal.stripCasts text) = Literal.stripCasts text
  unescaped : c.KeepsDefault → d.escapesBackslash = true → '\\' ∉ (Literal.stripCasts text).toList

/-- Whether the default of a column is settled, if it is a literal that is rendered. -/
def HasStableDefault (d : Dialect) (c : Column) : Prop :=
  ∀ text, c.default = some (.literal text) → (c.defaultValue? d).isSome = true →
    c.HasSettledDefault d text

/-! ## Literals -/

/-- A literal that is read as itself, and rendered as itself in columns like a given one. -/
structure IsSettledLiteral (d : Dialect) (c : Column) (value : String) : Prop where
  plain : IsPlainValue value
  castless : Literal.stripCasts value = value
  nonempty : value.isEmpty = false
  notNull : Literal.isNullWord value = false
  known : ¬ (d = .sqlite ∧ Literal.callsNow value = true)
  rendered : ∀ c' : Column, c'.IsLike c → c'.defaultLiteral d value = value

/-- A decimal that columns like the given one are rendered with. -/
theorem isSettledLiteral_of_decimal? (hplain : IsPlainValue value)
    (hdecimal : (Number.decimal? value.toList).isSome = true)
    (hrendered : ∀ c' : Column, c'.IsLike c → c'.defaultLiteral d value = value) :
    c.IsSettledLiteral d value where
  plain := hplain
  castless := Literal.stripCasts_of_decimal? hdecimal
  nonempty := Literal.isEmpty_of_decimal? hdecimal
  notNull := Literal.isNullWord_of_decimal? hdecimal
  known := fun h => by simp [Literal.callsNow_of_decimal? hdecimal] at h
  rendered := hrendered

theorem isSettledLiteral_booleanLiteral (hc : c.isBoolean = true) (d : Dialect) (b : Bool) :
    c.IsSettledLiteral d (d.booleanLiteral b) := by
  have hall : ∀ d ∈ Dialect.all, ∀ b : Bool,
      Literal.stripCasts (d.booleanLiteral b) = d.booleanLiteral b ∧
        Literal.unquote? (d.booleanLiteral b) = none ∧
          Literal.isTruthy (d.booleanLiteral b) = b := by
    decide +kernel
  obtain ⟨hcasts, hquote, htruth⟩ := hall d (by cases d <;> decide) b
  refine ⟨.booleanLiteral d b, hcasts, ?_, d.isNullWord_booleanLiteral b, ?_, fun c' h => ?_⟩
  · cases d <;> cases b <;> decide
  · cases d <;> cases b <;> decide
  · rw [defaultLiteral, hquote, if_pos (h.boolean.trans hc)]
    exact congrArg d.booleanLiteral htruth

/-- What the default of a column of whole numbers is rendered as. -/
theorem isSettledLiteral_integerOf (hboolean : c.isBoolean = false) (hc : c.isInteger = true)
    (d : Dialect) (s : String) :
    c.IsSettledLiteral d (toString (Literal.integerOf s)) := by
  have hdecimal := Number.isSome_decimal?_toString (Literal.integerOf s)
  refine isSettledLiteral_of_decimal? (.toString_int _) hdecimal fun c' h => ?_
  have hvalue := Literal.integerOf_toString_int (Literal.isSigned64_integerOf s)
  rw [defaultLiteral, Literal.unquote?_of_decimal? hdecimal, Option.getD_none,
    h.boolean.trans hboolean, (h.integer hboolean).trans hc, hvalue]
  rfl

/-- What the default of a column of numbers with a fraction is rendered as. -/
theorem isSettledLiteral_floatText (hboolean : c.isBoolean = false) (hinteger : c.isInteger = false)
    (hc : c.isFractional = true) (d : Dialect) (s : String) :
    c.IsSettledLiteral d (Literal.floatText s) := by
  have hdecimal := Literal.isSome_decimal?_floatText s
  refine isSettledLiteral_of_decimal? (.floatText s) hdecimal fun c' h => ?_
  rw [defaultLiteral, Literal.unquote?_of_decimal? hdecimal, Option.getD_none,
    h.boolean.trans hboolean, (h.integer hboolean).trans hinteger,
    (h.fractional hboolean).trans hc, Literal.floatText_floatText]
  rfl

/-- A column like one that keeps its default keeps its default. -/
theorem KeepsDefault.of_isLike (hc : c.KeepsDefault) (h : c'.IsLike c) : c'.KeepsDefault :=
  ⟨h.boolean.trans hc.notBoolean, (h.integer hc.notBoolean).trans hc.notInteger,
    (h.fractional hc.notBoolean).trans hc.notFractional⟩

/-- A plain value is a string, or there are no quotes around it. -/
theorem eq_enclose_or_unquote?_eq_none (h : IsPlainValue raw) :
    (∃ s, raw = Text.enclose '\'' s) ∨ Literal.unquote? raw = none := by
  have hword : ∀ {w : String} {c : Char} {cs : List Char}, w.toList = c :: cs →
      Token.isWordStart c = true → c ≠ '\'' := by
    rintro w c cs - hc rfl
    cases hc
  cases h with
  | number h =>
    obtain ⟨c, cs, hcs, hc⟩ := h.head
    refine Or.inr (Literal.unquote?_eq_none (by rw [String.toList_ofList, hcs]) ?_)
    rintro rfl
    rcases hc with hc | hc <;> cases hc
  | negative h =>
    exact Or.inr (Literal.unquote?_eq_none (IsPlainValue.toList_negative _) (by decide))
  | string s => exact Or.inl ⟨s, rfl⟩
  | word h _ =>
    obtain ⟨c, cs, hcs, hc, -⟩ := Naming.exists_of_isWord h
    exact Or.inr (Literal.unquote?_eq_none hcs (hword hcs hc))
  | @call w gs h _ _ _ _ _ _ =>
    obtain ⟨c, cs, hcs, hc, -⟩ := Naming.exists_of_isWord h
    have hlist : (w ++ String.ofList (Token.printAll gs)).toList =
        c :: (cs ++ Token.printAll gs) := by
      simp [hcs]
    exact Or.inr (Literal.unquote?_eq_none hlist (hword hcs hc))

/-- **A plain value is kept as the default of a column** that keeps its default. -/
theorem defaultLiteral_of_isPlainValue (hc : c.KeepsDefault) (h : IsPlainValue raw)
    (hslash : d.escapesBackslash = true → '\\' ∉ raw.toList) : c.defaultLiteral d raw = raw := by
  rcases eq_enclose_or_unquote?_eq_none h with ⟨s, rfl⟩ | hquote
  · rw [defaultLiteral_enclose hc]
    split
    · rename_i hmem
      have hd : d.escapesBackslash = false := by
        by_contra hd
        have hslash := hslash (Bool.of_not_eq_false hd)
        rw [Text.toList_enclose] at hslash
        refine hslash (List.mem_append_left _ (List.mem_cons_of_mem _ (Text.subset_double _ _ ?_)))
        simpa using hmem
      have hpostgresql : d ≠ .postgresql := by
        rintro rfl
        cases hd
      rw [← String.toList_inj, Dialect.toList_stringLiteral, hd, if_neg hpostgresql]
      simp
    · rfl
  · rw [defaultLiteral, hquote]
    simp [hc.notBoolean, hc.notInteger, hc.notFractional]

/-- **The literal of a settled default is settled.** -/
theorem isSettledLiteral_defaultLiteral (h : c.HasSettledDefault d text)
    (hempty : (Literal.stripCasts text).isEmpty = false)
    (hword : Literal.isNullWord (Literal.stripCasts text) = false)
    (hnow : ¬ (d = .sqlite ∧ Literal.callsNow (Literal.stripCasts text) = true)) :
    c.IsSettledLiteral d (c.defaultLiteral d (Literal.stripCasts text)) := by
  cases hboolean : c.isBoolean with
  | true =>
    rw [defaultLiteral, if_pos hboolean]
    exact isSettledLiteral_booleanLiteral hboolean d _
  | false =>
    cases hinteger : c.isInteger with
    | true =>
      rw [defaultLiteral, hboolean, if_neg Bool.false_ne_true, if_pos hinteger]
      exact isSettledLiteral_integerOf hboolean hinteger d _
    | false =>
      cases hfractional : c.isFractional with
      | true =>
        rw [defaultLiteral, hboolean, hinteger, if_neg Bool.false_ne_true,
          if_neg Bool.false_ne_true, if_pos hfractional]
        exact isSettledLiteral_floatText hboolean hinteger hfractional d _
      | false =>
        have hc : c.KeepsDefault := ⟨hboolean, hinteger, hfractional⟩
        have hplain := h.plain hc
        rw [defaultLiteral_of_isPlainValue hc hplain (h.unescaped hc)]
        exact ⟨hplain, h.castless hc, hempty, hword, hnow, fun c' hlike =>
          defaultLiteral_of_isPlainValue (hc.of_isLike hlike) hplain (h.unescaped hc)⟩

/-! ## Defaults -/

/-- The default that a rendered value is read as. -/
def readDefault (value : String) : DefaultValue :=
  if Literal.isNullWord value then .null else .literal value

/-- Either way of rendering a default: as null, or as a literal. -/
theorem defaultValue?_cases (h : c.defaultValue? d = some value) :
    (value = "NULL" ∧ c.nullable = true) ∨
      ∃ text, c.default = some (.literal text) ∧
        (Literal.stripCasts text).isEmpty = false ∧
        Literal.isNullWord (Literal.stripCasts text) = false ∧
        ¬ (d = .sqlite ∧ Literal.callsNow (Literal.stripCasts text) = true) ∧
        c.defaultLiteral d (Literal.stripCasts text) = value := by
  have hnull : c.nullDefault? = some value → value = "NULL" ∧ c.nullable = true := by
    intro hx
    rw [nullDefault?] at hx
    split at hx
    · rename_i hnullable
      exact ⟨(Option.some.inj hx).symm, hnullable⟩
    · cases hx
  rw [defaultValue?] at h
  split at h
  · cases h
  · exact Or.inl (hnull h)
  · rename_i text hdefault
    dsimp only at h
    split at h
    · cases h
    rename_i hempty
    split at h
    · exact Or.inl (hnull h)
    rename_i hword
    split at h
    · cases h
    rename_i hnow
    exact Or.inr ⟨text, hdefault, Bool.eq_false_iff.2 hempty, Bool.eq_false_iff.2 hword, hnow,
      Option.some.inj h⟩

/-- A settled default is rendered as null, or as a settled literal. -/
theorem settled_of_defaultValue? (h : c.HasStableDefault d)
    (hvalue : c.defaultValue? d = some value) :
    (value = "NULL" ∧ c.nullable = true) ∨
      ∃ text, c.HasSettledDefault d text ∧
        c.defaultLiteral d (Literal.stripCasts text) = value ∧ c.IsSettledLiteral d value := by
  refine (defaultValue?_cases hvalue).imp_right ?_
  rintro ⟨text, hdefault, hempty, hword, hnow, rfl⟩
  have hsettled := h text hdefault (by rw [hvalue]; rfl)
  exact ⟨text, hsettled, rfl, isSettledLiteral_defaultLiteral hsettled hempty hword hnow⟩

/-- The rendered value of a settled default is written as it is kept, and read as a default. -/
theorem isPlainValue_of_defaultValue? (h : c.HasStableDefault d)
    (hvalue : c.defaultValue? d = some value) :
    IsPlainValue value ∧ DefaultClause.ofText value = .declared (readDefault value) := by
  rcases settled_of_defaultValue? h hvalue with ⟨rfl, -⟩ | ⟨-, -, -, hliteral⟩
  · exact ⟨.null, by decide⟩
  · refine ⟨hliteral.plain, ?_⟩
    rw [hliteral.plain.ofText_eq hliteral.notNull, readDefault, hliteral.notNull]
    rfl

/-- A settled literal is rendered as itself in a column like the one that its column is read
as. -/
theorem defaultLiteral_of_isLike (h : c.HasSettledDefault d text) (htype : c.HasSettledType d)
    (hliteral : c.IsSettledLiteral d value)
    (hvalue : c.defaultLiteral d (Literal.stripCasts text) = value)
    (hlike : c'.IsLike (c.rereadType d).toColumn) : c'.defaultLiteral d value = value := by
  -- what is rendered in a column that keeps its default is the text of the default
  have hkept : c.KeepsDefault → value = Literal.stripCasts text := fun hc =>
    hvalue.symm.trans (defaultLiteral_of_isPlainValue hc (h.plain hc) (h.unescaped hc))
  have hread : (c.rereadType d).toColumn.IsLike c → c'.defaultLiteral d value = value := fun hx =>
    hliteral.rendered c' (hlike.trans hx)
  by_cases hbit : c.dataType = "BIT"
  · have hyear : c.dataType ≠ "YEAR" := hbit ▸ by decide
    by_cases hboolean : c.isBoolean = true
    · exact hread (isLike_rereadType htype (fun _ => hboolean) fun hx => absurd hx hyear)
    · obtain ⟨b, hb⟩ := (h.bit hbit).resolve_left hboolean
      have hc : c.KeepsDefault := by
        refine ⟨Bool.eq_false_iff.2 hboolean, ?_, ?_⟩ <;>
          simp only [isInteger, isFractional, hbit] <;> decide
      have htruth := hlike.boolean.trans (isBoolean_rereadType_of_bit htype hbit)
      rw [hkept hc, hb]
      exact (isSettledLiteral_booleanLiteral htruth d b).rendered c' (.refl c')
  by_cases hyear : c.dataType = "YEAR"
  · by_cases hd : d.isMySqlFamily = true
    · exact hread (isLike_rereadType htype (fun hx => absurd hx hbit) fun _ => hd)
    · obtain ⟨i, hi, htext⟩ := (h.year hyear).resolve_left hd
      have hc : c.KeepsDefault := by
        refine ⟨?_, ?_, ?_⟩ <;> simp only [isBoolean, isInteger, isFractional, hyear]
        · have hfold : DataType.fold "YEAR" = "YEAR" := by decide
          simp [DataType.isBoolean, hfold]
        · decide
        · decide
      obtain ⟨hboolean, hinteger⟩ :=
        isInteger_rereadType_of_year (Bool.eq_false_iff.2 hd) htype hyear
      have hsettled := isSettledLiteral_integerOf (hlike.boolean.trans hboolean)
        ((hlike.integer hboolean).trans hinteger) d (toString i)
      rw [Literal.integerOf_toString_int hi] at hsettled
      rw [hkept hc, htext]
      exact hsettled.rendered c' (.refl c')
  · exact hread (isLike_rereadType htype (fun hx => absurd hx hbit) fun hx => absurd hx hyear)

/-- **What the rendered value of a settled default is read as is rendered in the same way**, in a
column whose type is like what the type of its column is read as. -/
theorem defaultValue?_readDefault (h : c.HasStableDefault d)
    (htype : c.HasSettledType d) (hvalue : c.defaultValue? d = some value)
    (hlike : c'.IsLike (c.rereadType d).toColumn)
    (hnullable : c'.nullable = c.nullable) (hdefault : c'.default = some (readDefault value)) :
    c'.defaultValue? d = some value := by
  rcases settled_of_defaultValue? h hvalue with ⟨rfl, hnull⟩ | ⟨text, hsettled, hsame, hliteral⟩
  · have hread : readDefault "NULL" = .null := by decide
    rw [defaultValue?, hdefault, hread]
    exact if_pos (hnullable.trans hnull)
  · rw [readDefault, hliteral.notNull, if_neg Bool.false_ne_true] at hdefault
    rw [defaultValue?, hdefault]
    dsimp only
    rw [hliteral.castless, hliteral.nonempty, hliteral.notNull, if_neg hliteral.known,
      defaultLiteral_of_isLike hsettled htype hliteral hsame hlike]
    rfl

end Column
end SchemaScript
