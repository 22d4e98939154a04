import SchemaScript.Proofs.Render.Clean

/-!
# Stable tables

A table is *stable* in a dialect if it is rendered as statements that are read as the same table
(`Table.IsStable`). What this asks for is different in the five dialects, as they do not quote and
escape in the same way. A table is *plain* if its names are words of ASCII letters, digits and
underscores that are not taken for something else where they stand, and its texts and defaults
have nothing special in them (`Table.isPlain`). Plain tables are stable in all dialects
(`Table.isStable_of_isPlain`).
-/

namespace SchemaScript

open ColumnDefinition (IsPlainValue)
open Script

namespace Table

variable {d : Dialect} {t : Table}

/-- Whether a table is rendered as statements that are read as the same table. -/
structure IsStable (d : Dialect) (t : Table) : Prop where
  names : t.IsNameable d
  texts : t.HasCleanTexts d
  /-- All types are read again but the one of SQL Server for points in time with a zone. -/
  types : ∀ c ∈ t.columns, c.renderedType d ≠ "DATETIMEOFFSET"
  /-- MySQL and MariaDB double backslashes that are not read as doubled ones. -/
  backslashes : d.isMySqlFamily = true → ∀ c ∈ t.columns,
    ∀ s ∈ c.description.toList ++ c.values, '\\' ∉ s.toList
  defaults : ∀ c ∈ t.columns, c.HasStableDefault d
  /-- The type of truth values does not count up when it is read. -/
  counting : ∀ c ∈ t.columns, c.isBoolean = true → c.isWrittenCounting d = false

theorem IsStable.isSettled (h : t.IsStable d)
    (hreadable : ∀ c ∈ t.columns, c.dataType ∈ DataType.readable) : t.IsSettled d := by
  refine isSettled_of_isNameable h.names fun c hc hname =>
    ⟨hname, ⟨hreadable c hc, h.types c hc, fun hd v hv => ?_⟩, h.defaults c hc,
      fun hd text htext => ?_, h.counting c hc⟩
  · exact h.backslashes hd c hc v (List.mem_append_right _ hv)
  · exact h.backslashes hd c hc text (List.mem_append_left _ (by simpa using htext))

end Table

/-! ## Plain names and texts -/

/-- Whether nothing in a text is escaped, tidied or taken for a quote of a name. -/
def Text.isPlain (s : String) : Bool :=
  s.toList.all fun c => !(['\\', '\n', '\r', '#', '"'].contains c)

namespace Text

variable {s : String}

theorem notMem_of_isPlain (h : isPlain s = true) :
    ∀ c ∈ s.toList, c ∉ ['\\', '\n', '\r', '#', '"'] :=
  fun c hc => by simpa using List.all_eq_true.1 h c hc

theorem isTidyName_of_isPlain (h : isPlain s = true) : IsTidyName s := fun c hc hx =>
  notMem_of_isPlain h c hc (List.mem_cons_of_mem _ hx)

theorem backslash_notMem_of_isPlain (h : isPlain s = true) : '\\' ∉ s.toList := fun hx =>
  notMem_of_isPlain h _ hx List.mem_cons_self

theorem isPlain_of_enclose (h : isPlain (enclose '\'' s) = true) : isPlain s = true := by
  refine List.all_eq_true.2 fun c hc => List.all_eq_true.1 h c ?_
  rw [toList_enclose]
  exact List.mem_append_left _ (List.mem_cons_of_mem _ (subset_double _ _ hc))

end Text

theorem Naming.isTidyName_of_isPlain {n : String} (h : isPlain n = true) : IsTidyName n := by
  intro c hc hx
  have hplain := isAlphanum_of_isPlain h c hc
  simp only [List.mem_cons, List.not_mem_nil, or_false] at hx
  rcases hx with rfl | rfl | rfl | rfl <;> cases hplain

/-! ## Plain columns -/

namespace Column

variable {d : Dialect} {c : Column} {text : String}

/-- Whether a default is rendered anew, as a number or a truth value, or else kept as it stands: a
quoted text or a word in upper case. -/
def isPlainDefault (c : Column) (text : String) : Bool :=
  (c.dataType != "BIT" || c.isBoolean) && c.dataType != "YEAR" &&
    (c.isBoolean || c.isInteger || c.isFractional ||
      Text.isPlain text && Literal.stripCasts text == text &&
        ((Literal.unquote? text).any (fun s => Text.enclose '\'' s == text) ||
          Naming.isWord text && Text.upper text == text))

/-- Whether a column is rendered in such a way that it is read as itself, in all dialects. -/
def isPlain (c : Column) : Bool :=
  c.renderedType .sqlserver != "DATETIMEOFFSET" &&
    (c.description.toList ++ c.values).all Text.isPlain && !(c.isBoolean && c.autoIncrement) &&
      match c.default with
      | some (.literal text) => c.isPlainDefault text
      | _ => true

/-- A plain default that is kept is a text in quotes or a word in upper case. -/
theorem cases_of_isPlainDefault (h : c.isPlainDefault text = true) (hc : c.KeepsDefault) :
    Text.isPlain text = true ∧ Literal.stripCasts text = text ∧
      ((∃ s, text = Text.enclose '\'' s) ∨ Naming.isWord text = true ∧ Text.upper text = text) := by
  simp only [isPlainDefault, Bool.and_eq_true, Bool.or_eq_true, hc.notBoolean, hc.notInteger,
    hc.notFractional, Bool.false_eq_true, false_or, beq_iff_eq] at h
  obtain ⟨-, ⟨hplain, hcasts⟩, hform⟩ := h
  refine ⟨hplain, hcasts, hform.imp_left fun hquoted => ?_⟩
  obtain ⟨s, -, hs⟩ := (Option.any_eq_true _ _).1 hquoted
  exact ⟨s, (beq_iff_eq.1 hs).symm⟩

theorem hasSettledDefault_of_isPlainDefault (h : c.isPlainDefault text = true) (d : Dialect) :
    c.HasSettledDefault d text := by
  have hform := cases_of_isPlainDefault h
  simp only [isPlainDefault, Bool.and_eq_true, Bool.or_eq_true, bne_iff_ne] at h
  obtain ⟨⟨hbit, hyear⟩, -⟩ := h
  refine ⟨fun hx => Or.inl (hbit.resolve_left fun hne => hne hx), fun hx => absurd hx hyear,
    fun hc => ?_, fun hc => ?_, fun hc _ => ?_⟩
  · obtain ⟨-, hcasts, ⟨s, hs⟩ | ⟨hword, hupper⟩⟩ := hform hc
    · rw [hcasts, hs]
      exact .string s
    · rw [hcasts]
      exact .word hword hupper
  · rw [(hform hc).2.1, (hform hc).2.1]
  · rw [(hform hc).2.1]
    exact Text.backslash_notMem_of_isPlain (hform hc).1

theorem isClean_of_isPlainDefault (h : c.isPlainDefault text = true) (hc : c.KeepsDefault) :
    IsClean (Literal.stripCasts text).toList := by
  obtain ⟨hplain, hcasts, ⟨s, rfl⟩ | ⟨hword, -⟩⟩ := cases_of_isPlainDefault h hc
  · rw [hcasts]
    exact .enclose (Text.isTidyName_of_isPlain (Text.isPlain_of_enclose hplain)).isTidyLiteral
  · rw [hcasts]
    exact Dialect.isClean_of_isWord hword (Text.isTidyName_of_isPlain hplain)

theorem isPlainDefault_of_isPlain (h : c.isPlain = true)
    (hdefault : c.default = some (.literal text)) : c.isPlainDefault text = true := by
  rw [isPlain, hdefault] at h
  exact (Bool.and_eq_true_iff.1 h).2

theorem isPlain_of_mem_texts (h : c.isPlain = true) {s : String}
    (hs : s ∈ c.description.toList ++ c.values) : Text.isPlain s = true := by
  simp only [isPlain, Bool.and_eq_true] at h
  exact List.all_eq_true.1 h.1.1.2 s hs

theorem hasCleanTexts_of_isPlain (h : c.isPlain = true) (d : Dialect) : c.HasCleanTexts d where
  default := fun _ htext _ hc => isClean_of_isPlainDefault (isPlainDefault_of_isPlain h htext) hc
  values := fun _ v hv => (Text.isTidyName_of_isPlain
    (isPlain_of_mem_texts h (List.mem_append_right _ hv))).isTidyLiteral
  description := fun _ text htext => (Text.isTidyName_of_isPlain
    (isPlain_of_mem_texts h (List.mem_append_left _ (by simpa using htext)))).isTidyLiteral

end Column

/-! ## Plain tables -/

namespace Table

variable {t : Table}

/-- Whether a table is rendered in such a way that it is read as itself, in all dialects. -/
def isPlain (t : Table) : Bool :=
  t.identifiers.all Naming.isPlain &&
    (t.name :: t.indexes.filterMap Index.name).all (fun n => !(Token.word n).isKeyword "IF") &&
    (t.foreignKeys.filterMap ForeignKey.name).all (fun n =>
      !(["PRIMARY", "UNIQUE", "FOREIGN", "CHECK"].any (Token.word n).isKeyword ||
        ColumnDefinition.isTypeWord (.word n))) &&
    t.columns.all Column.isPlain

theorem isNameable_of_isPlain (h : t.isPlain = true) (d : Dialect) : t.IsNameable d := by
  simp only [isPlain, Bool.and_eq_true, List.all_eq_true, Bool.not_eq_true', Bool.or_eq_false_iff]
    at h
  obtain ⟨⟨⟨hnames, hcreated⟩, hkeys⟩, -⟩ := h
  have hall : ∀ n ∈ t.identifiers, d.IsNameable n := fun n hn =>
    d.isNameable_of_isWord (Naming.isWord_of_isPlain (hnames n hn))
  refine ⟨hall, fun n hn => ⟨?_, fun _ => hcreated n hn⟩, fun n hn => ?_⟩
  · rcases List.mem_cons.1 hn with rfl | hn
    · exact forall_name_of_identifiers hall
    · obtain ⟨i, hi, hname⟩ := List.mem_filterMap.1 hn
      exact forall_indexes_of_identifiers hall i hi n (by simp [Index.identifiers, hname])
  · obtain ⟨k, hk, hname⟩ := List.mem_filterMap.1 hn
    have hnameable := forall_foreignKeys_of_identifiers hall k hk n
      (by simp [ForeignKey.identifiers, hname])
    by_cases hd : d.isMySqlFamily = true
    · exact Dialect.isConstraintName_of_isMySqlFamily hd hnameable
    · have htoken : d.nameToken n = .word n := if_neg hd
      refine ⟨hnameable, ?_, ?_⟩ <;> rw [htoken]
      · exact (hkeys n hn).1
      · exact (hkeys n hn).2

/-- **Plain tables are stable in all dialects.** -/
theorem isStable_of_isPlain (h : t.isPlain = true) (d : Dialect) : t.IsStable d := by
  have hnames := isNameable_of_isPlain h d
  simp only [isPlain, Bool.and_eq_true, List.all_eq_true] at h
  obtain ⟨⟨⟨hplain, -⟩, -⟩, hcolumns⟩ := h
  refine ⟨hnames, ⟨fun n hn => Naming.isTidyName_of_isPlain (hplain n hn), fun c hc =>
    Column.hasCleanTexts_of_isPlain (hcolumns c hc) d⟩, fun c hc => ?_, fun _ c hc s hs => ?_,
    fun c hc text htext _ => ?_, fun c hc hboolean => ?_⟩
  · by_cases hd : d = .sqlserver
    · have hc := hcolumns c hc
      simp only [Column.isPlain, Bool.and_eq_true, bne_iff_ne] at hc
      rw [hd]
      exact hc.1.1.1
    · exact Column.renderedType_ne_of_ne_sqlserver hd c
  · exact Text.backslash_notMem_of_isPlain (Column.isPlain_of_mem_texts (hcolumns c hc) hs)
  · exact Column.hasSettledDefault_of_isPlainDefault
      (Column.isPlainDefault_of_isPlain (hcolumns c hc) htext) d
  · have hc := hcolumns c hc
    simp only [Column.isPlain, Bool.and_eq_true, Bool.not_eq_true', hboolean, Bool.true_and] at hc
    rw [Column.isWrittenCounting, hc.1.2, Bool.false_and]

end Table
end SchemaScript
