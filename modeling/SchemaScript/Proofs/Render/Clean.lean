import SchemaScript.Proofs.Render.DerivedNames
import SchemaScript.Proofs.Render.Statements
import SchemaScript.Proofs.Script.Calm

/-!
# Rendered texts are clean

What is rendered for a table is neither tidied nor cut, if the names and texts of the table allow
it: names have no quotes, number signs and line ends in them (`IsTidyName`), and nothing that
tidying looks for is in descriptions, in the literals of value sets and in defaults that are kept
(`Column.HasCleanTexts`). Then every item of the body is clean, and all statements that are rendered
are written and tidy (`Table.isStatement_of_mem_renderedStatements`).
-/

namespace SchemaScript

open Script

/-- What is joined is part of the joined text. -/
theorem toList_subset_intercalate {sep s : String} {strings : List String} (h : s ∈ strings) :
    s.toList ⊆ (sep.intercalate strings).toList := by
  induction strings with
  | nil => cases h
  | cons t strings ih =>
    cases strings with
    | nil =>
      rw [List.mem_singleton.1 h, String.intercalate_singleton]
      exact List.Subset.refl _
    | cons u strings =>
      rw [String.intercalate_cons_cons, String.toList_append, String.toList_append]
      rcases List.mem_cons.1 h with rfl | h
      · exact fun x hx => List.mem_append_left _ (List.mem_append_left _ hx)
      · exact fun x hx => List.mem_append_right _ (ih h hx)

/-- Whether a text is a statement that is written and tidy, with its semicolon. -/
def IsStatement (s : String) : Prop :=
  (∃ w : String, s = w ++ ";" ∧ IsWritten w.toList) ∧ IsTidy s.toList

/-- What is clean is a statement with a semicolon behind it. -/
theorem isStatement_of_isClean {w s : String} (h : IsClean w.toList)
    (hhead : ∃ c ∈ w.toList.head?, c = 'C' ∨ c = 'I')
    (hlast : ∀ c ∈ w.toList.getLast?, Text.isBlank c = false) (hs : s = w ++ ";") :
    IsStatement s := by
  refine ⟨⟨w, hs, h.isSealed, hhead, hlast⟩, ?_⟩
  have hsemicolon : IsCalm ";".toList := .part (IsCalmPart.of_notMem (by decide))
  obtain ⟨c, hc, hkeyword⟩ := hhead
  rw [hs, String.toList_append]
  refine (h.isCalm.append hsemicolon).isTidy ⟨c, List.mem_append_left _ (List.mem_of_head? hc), ?_⟩
  rcases hkeyword with rfl | rfl <;> decide

/-- Whether a name is left as it is by tidying. -/
def IsTidyName (n : String) : Prop :=
  HasChars (· ∉ ['\n', '\r', '#', '"']) n

theorem IsTidyName.isCalmPart {n : String} (h : IsTidyName n) : IsCalmPart n.toList :=
  .of_notMem h

/-- A tidy name can stand between quotes. -/
theorem IsTidyName.isTidyLiteral {n : String} (h : IsTidyName n) : IsTidyLiteral n.toList := by
  have hlines := lines_of_notMem h.isCalmPart.noNewline
  refine ⟨⟨?_, ?_, ?_⟩, h.isCalmPart.noReturn⟩
  · rw [hlines]
    exact List.forall_mem_singleton.2
      (removeCollation_eq_self_iff.1 h.isCalmPart.removeCollation_eq)
  · rw [hlines]
    exact fun l hl => absurd hl List.not_mem_nil
  · rw [hlines]
    exact fun l hl => absurd hl List.not_mem_nil

/-- The type of the object that the guard of a table asks for. -/
theorem isTidyLiteral_objectType : IsTidyLiteral "U".toList := by
  have hname : IsTidyName "U" := by
    unfold IsTidyName HasChars
    decide
  exact hname.isTidyLiteral

/-! ## Names and literals -/

namespace Dialect

variable {d : Dialect} {n : String} {names : List String}

/-- A word without number signs is clean. -/
theorem isClean_of_isWord (h : Naming.isWord n = true) (ht : IsTidyName n) : IsClean n.toList :=
  ⟨IsSealed.of_inert (List.all_eq_true.2 fun c hc =>
    Mode.isInert_of_isWordPart (Naming.isWordPart_of_isWord h c hc)),
    .part (IsCalmPart.of_notMem ht)⟩

/-- A name in backticks is clean. -/
theorem isClean_enclose_backtick (ht : IsTidyName n) : IsClean (Text.enclose '\x60' n).toList := by
  refine ⟨IsSealed.enclose Mode.encloses_backtick n, .part (IsCalmPart.of_notMem fun c hc => ?_)⟩
  rw [Text.toList_enclose, List.cons_append, List.mem_cons, List.mem_append,
    List.mem_singleton] at hc
  rcases hc with rfl | hc | rfl
  · decide
  · exact ht c (Text.double_subset _ _ hc)
  · decide

theorem isClean_quoteColumn (h : d.IsNameable n) (ht : IsTidyName n) :
    IsClean (d.quoteColumn n).toList := by
  unfold IsNameable at h
  unfold quoteColumn
  split
  · exact isClean_enclose_backtick ht
  · rw [if_neg ‹_›] at h
    exact isClean_of_isWord h ht

theorem isClean_quoteColumns (h : ∀ n ∈ names, d.IsNameable n) (ht : ∀ n ∈ names, IsTidyName n) :
    IsClean (d.quoteColumns names).toList :=
  IsClean.string_intercalate (IsClean.keyword ", " rfl)
    (List.forall_mem_map.2 fun n hn => isClean_quoteColumn (h n hn) (ht n hn))

/-- A table name is clean behind a space. -/
theorem isClean_space_quoteTable (h : d.IsNameable n) (ht : IsTidyName n) :
    IsClean (" " ++ d.quoteTable n).toList := by
  have hspace : IsClean " ".toList := IsClean.keyword " " rfl
  cases d with
  | mysql | mariadb => exact hspace.string_append (isClean_enclose_backtick ht)
  | sqlite | sqlserver => exact hspace.string_append (isClean_of_isWord h ht)
  | postgresql =>
    have htidy : ∀ {c : Char}, c ∈ ['\n', '\r', '#', '"'] → c ∉ n.toList := fun hc hx => ht _ hx hc
    have hperiod : '.' ∉ n.toList := Naming.notMem_of_isWord h (by decide)
    have htext : (" " ++ Text.enclose '"' n).toList = ' ' :: '"' :: (n.toList ++ ['"']) := by
      simp [Text.double_eq_self (htidy (c := '"') (by decide))]
    obtain ⟨mode, hmode⟩ := Mode.exists_encloses_name .double
    have hsealed : IsSealed (" " ++ Text.enclose '"' n).toList :=
      hspace.isSealed.string_append (IsSealed.enclose hmode n)
    rw [htext] at hsealed
    show IsClean (" " ++ Text.enclose '"' n).toList
    rw [htext]
    refine ⟨hsealed, .part ⟨?_, ?_, ?_, ?_, by simp⟩⟩
    · simpa using htidy (c := '\n') (by decide)
    · simpa using htidy (c := '\r') (by decide)
    · simpa using htidy (c := '#') (by decide)
    · have hno : '.' ∉ ' ' :: '"' :: (n.toList ++ ['"']) := by simpa using hperiod
      refine List.Pairwise.isChain (List.pairwise_iff_forall_sublist.2 fun {a b} hab hx => ?_)
      exact hno (hx.1 ▸ hab.subset (by simp))

/-- A table name is clean behind a text that ends with a space. -/
theorem isClean_append_quoteTable (front : String) (hfront : front.toList.all isQuiet = true)
    (hlast : front.toList.getLast? = some ' ') (h : d.IsNameable n) (ht : IsTidyName n) :
    IsClean (front ++ d.quoteTable n).toList := by
  obtain ⟨cs, hcs⟩ := List.getLast?_eq_some_iff.1 hlast
  have hquiet : cs.all isQuiet = true := by
    rw [hcs, List.all_append, Bool.and_eq_true] at hfront
    exact hfront.1
  have hclean := (IsClean.of_quiet hquiet).append (isClean_space_quoteTable h ht)
  have hspace : " ".toList = [' '] := rfl
  rwa [String.toList_append, hspace, ← List.append_assoc, ← hcs, ← String.toList_append] at hclean

/-- A text that is tidy between quotes is a clean literal, with the backslashes in it doubled or
not. -/
theorem isClean_stringLiteral (h : IsTidyLiteral n.toList) :
    IsClean (d.stringLiteral n).toList := by
  have hbody : IsClean ('\'' :: (if d.escapesBackslash then
      Text.double '\\' (Text.double '\'' n.toList) else Text.double '\'' n.toList) ++ ['\'']) := by
    split
    · rw [Text.double_comm (by decide)]
      exact IsClean.literal h.double_backslash
    · exact IsClean.literal h
  rw [toList_stringLiteral, List.append_assoc]
  split
  · exact (IsClean.keyword "E" rfl).append hbody
  · exact hbody

theorem isClean_booleanLiteral (d : Dialect) (b : Bool) : IsClean (d.booleanLiteral b).toList := by
  cases d <;> cases b <;> exact IsClean.of_quiet rfl

end Dialect

/-! ## Columns -/

namespace Column

variable {d : Dialect} {c : Column}

/-- Whether tidying and cutting find nothing in the texts that are rendered for a column: in a
default that is kept as it stands, in the literals of a value set and in the description. -/
structure HasCleanTexts (d : Dialect) (c : Column) : Prop where
  default : ∀ text, c.default = some (.literal text) → (c.defaultValue? d).isSome = true →
    c.KeepsDefault → IsClean (Literal.stripCasts text).toList
  values : d.isMySqlFamily = true → ∀ v ∈ c.values, IsTidyLiteral v.toList
  description : (d.isMySqlFamily || d == .postgresql) = true →
    ∀ text ∈ c.description, IsTidyLiteral text.toList

/-- The arguments of a type are clean if the literals of a value set are tidy. -/
theorem isClean_text (a : ColumnDefinition.TypeArguments)
    (h : ∀ vs, a = .values vs → ∀ v ∈ vs, IsTidyLiteral v.toList) : IsClean a.text.toList := by
  have hopen : IsClean "(".toList := IsClean.keyword "(" rfl
  have hclose : IsClean ")".toList := IsClean.keyword ")" rfl
  cases a with
  | absent => exact IsClean.nil
  | length n => exact (hopen.string_append (IsClean.toString_nat _)).string_append hclose
  | lengthScale n scale =>
    exact (hopen.string_append (((IsClean.toString_nat _).string_append
      (IsClean.keyword ", " rfl)).string_append (IsClean.toString_nat _))).string_append hclose
  | values vs =>
    have hvalues : ∀ s ∈ vs.map (Text.enclose '\''), IsClean s.toList :=
      List.forall_mem_map.2 fun v hv => IsClean.enclose (h vs rfl v hv)
    exact (hopen.string_append
      (IsClean.string_intercalate (IsClean.keyword "," rfl) hvalues)).string_append hclose

theorem isClean_renderedType (h : c.HasCleanTexts d) (hc : c.HasSettledType d) :
    IsClean (c.renderedType d).toList := by
  rcases renderedType_cases d c with hmem | ⟨target, a, htakes, htext⟩ | ⟨hd, hset⟩
  · have hfixed : ∀ d ∈ Dialect.all, ∀ type ∈ d.fixedTypes, type.toList.all isQuiet = true := by
      decide +kernel
    exact IsClean.of_quiet (hfixed d (by cases d <;> decide) _ hmem)
  · have htargets : ∀ target ∈ Catalog.sizedTargets, target.toList.all isQuiet = true := by decide
    rw [htext]
    refine (IsClean.of_quiet (htargets _ (Catalog.mem_sizedTargets d _
      (Catalog.mem_of_takes htakes)))).string_append (isClean_text a fun vs ha => ?_)
    rw [ha] at htakes
    cases htakes
  · have hwords : ∀ w ∈ ["enum", "set"], w.toList.all isQuiet = true := by decide
    obtain ⟨hword, htext⟩ := renderedType_of_isValueSet hd hset
    rw [htext, escapedValues_eq_iff.2 (hc.values hd)]
    refine (IsClean.of_quiet (hwords _ hword)).string_append (isClean_text _ fun vs hvs => ?_)
    cases hvs
    exact h.values hd

theorem isClean_defaultValue? (h : c.HasCleanTexts d) (hc : c.IsSettled d) {value : String}
    (hvalue : c.defaultValue? d = some value) : IsClean value.toList := by
  rcases defaultValue?_cases hvalue with ⟨rfl, -⟩ | ⟨text, hdefault, -, -, -, rfl⟩
  · exact IsClean.keyword "NULL" rfl
  cases hboolean : c.isBoolean with
  | true =>
    rw [defaultLiteral, if_pos hboolean]
    exact Dialect.isClean_booleanLiteral d _
  | false =>
    cases hinteger : c.isInteger with
    | true =>
      rw [defaultLiteral, hboolean, if_neg Bool.false_ne_true, if_pos hinteger]
      exact IsClean.of_decimal? (Number.isSome_decimal?_toString _)
    | false =>
      cases hfractional : c.isFractional with
      | true =>
        rw [defaultLiteral, hboolean, hinteger, if_neg Bool.false_ne_true,
          if_neg Bool.false_ne_true, if_pos hfractional]
        exact IsClean.of_decimal? (Literal.isSome_decimal?_floatText _)
      | false =>
        have hkeeps : c.KeepsDefault := ⟨hboolean, hinteger, hfractional⟩
        have hrendered : (c.defaultValue? d).isSome = true := by
          rw [hvalue]
          rfl
        have hsettled := hc.default text hdefault hrendered
        rw [defaultLiteral_of_isPlainValue hkeeps (hsettled.plain hkeeps)
          (hsettled.unescaped hkeeps)]
        exact h.default text hdefault hrendered hkeeps

/-- **A rendered column is clean**, and there is a letter in it that ends no batch. -/
theorem isClean_rendered (h : c.HasCleanTexts d) (hc : c.IsSettled d) (hname : IsTidyName c.name)
    (role : KeyRole) : IsClean (c.rendered d role).toList := by
  have hnull : ∀ s ∈ c.nullWords d role, IsClean s.toList := by
    intro s hs
    unfold nullWords at hs
    split at hs
    · cases List.mem_singleton.1 hs
      exact IsClean.of_quiet rfl
    split at hs
    · cases List.mem_singleton.1 hs
      exact IsClean.of_quiet rfl
    · cases hs
  have hcounting : ∀ s ∈ c.countingWords? d, IsClean s.toList := by
    intro s hs
    unfold countingWords? at hs
    split at hs
    · cases d <;> cases hs <;> exact IsClean.of_quiet rfl
    · cases hs
  have hdefault : ∀ s ∈ c.defaultClause? d role, IsClean s.toList := by
    intro s hs
    rw [defaultClause?_eq] at hs
    obtain ⟨v, hv, rfl⟩ := Option.map_eq_some_iff.1 hs
    exact (IsClean.keyword "DEFAULT " rfl).string_append
      (isClean_defaultValue? h hc (eq_of_mem_writtenDefault? hv))
  have hdescription : d.isMySqlFamily = true → ∀ s ∈ c.visibleDescription?.map fun text =>
      "COMMENT " ++ d.stringLiteral text, IsClean s.toList := by
    intro hd s hs
    obtain ⟨text, htext, rfl⟩ := Option.map_eq_some_iff.1 hs
    exact (IsClean.keyword "COMMENT " rfl).string_append (Dialect.isClean_stringLiteral
      (h.description (by rw [hd]; rfl) text (Option.filter_eq_some_iff.1 htext).1))
  refine IsClean.string_intercalate (IsClean.keyword " " rfl) fun s hs => ?_
  simp only [clauses, List.mem_append, List.mem_cons, List.not_mem_nil, or_false] at hs
  rcases hs with (((((hs | hs) | hs) | hs) | hs) | hs) | hs
  · rw [hs]
    exact Dialect.isClean_quoteColumn hc.name hname
  · rw [hs]
    exact isClean_renderedType h hc.type
  · split at hs
    · cases List.mem_singleton.1 hs
      exact IsClean.of_quiet rfl
    · cases hs
  · exact hnull s hs
  · split at hs
    · exact hcounting s (Option.mem_toList.1 hs)
    · cases hs
  · exact hdefault s (Option.mem_toList.1 hs)
  · split at hs
    · exact hdescription ‹_› s (Option.mem_toList.1 hs)
    · cases hs

/-- Every column says whether it can be null, or has a default instead. -/
theorem exists_isMark_rendered (d : Dialect) (role : KeyRole) (c : Column) :
    ∃ x ∈ (c.rendered d role).toList, isMark x = true := by
  have hclause : ∃ s ∈ c.clauses d role, 'L' ∈ s.toList := by
    by_cases hnull : (!c.nullable || role != .none) = true
    · exact ⟨"NOT NULL", by simp [clauses, nullWords, hnull], by decide⟩
    · cases hdefault : c.defaultClause? d role with
      | none => exact ⟨"NULL", by simp [clauses, nullWords, hnull, hdefault], by decide⟩
      | some clause =>
        refine ⟨clause, by simp [clauses, hdefault], ?_⟩
        rw [defaultClause?_eq] at hdefault
        obtain ⟨value, -, rfl⟩ := Option.map_eq_some_iff.1 hdefault
        rw [String.toList_append]
        exact List.mem_append_left _ (by decide)
  obtain ⟨s, hs, hmem⟩ := hclause
  exact ⟨'L', toList_subset_intercalate hs hmem, by decide⟩

end Column

/-! ## Keys and indexes -/

namespace ForeignKey

theorem isClean_actionClause {event : String} (he : IsClean event.toList)
    (action : Option String) : IsClean (actionClause event action).toList := by
  have hall : ∀ a ∈ actions, a.toList.all isQuiet = true := by decide
  unfold actionClause
  split
  · rename_i a ha
    obtain ⟨text, -, htext⟩ := Option.bind_eq_some_iff.1 ha
    have haction : IsClean a.toList := IsClean.of_quiet (hall a (mem_actions_of_action? htext))
    exact (((IsClean.of_quiet rfl).string_append he).string_append
      (IsClean.of_quiet rfl)).string_append haction
  · exact IsClean.nil

theorem isClean_rendered {d : Dialect} {table : String} {k : ForeignKey}
    (hk : k.IsNameable d table) (hname : IsTidyName (k.nameFor table))
    (h : ∀ n ∈ k.identifiers, IsTidyName n) :
    IsClean (k.rendered { dialect := d } table).toList := by
  have hcolumns : IsClean (d.quoteColumns k.columns).toList :=
    Dialect.isClean_quoteColumns hk.columns fun n hn => h n (by simp [identifiers, hn])
  have hreferenced : IsClean (d.quoteColumns k.referencedColumns).toList :=
    Dialect.isClean_quoteColumns hk.referencedColumns fun n hn => h n (by simp [identifiers, hn])
  have htarget : IsClean (") REFERENCES " ++ d.quoteTable k.referencedTable).toList :=
    Dialect.isClean_append_quoteTable _ rfl rfl hk.referencedTable (h _ (by simp [identifiers]))
  have hupdate := isClean_actionClause (IsClean.keyword "ON UPDATE" rfl) k.onUpdate
  have hdelete := isClean_actionClause (IsClean.keyword "ON DELETE" rfl) k.onDelete
  have hkey := (IsClean.keyword "CONSTRAINT " rfl).string_append
      (Dialect.isClean_quoteColumn hk.name.nameable hname)
    |>.string_append (IsClean.keyword " FOREIGN KEY (" rfl) |>.string_append hcolumns
  have hreference := (hkey.string_append htarget).string_append (IsClean.keyword "(" rfl)
    |>.string_append hreferenced |>.string_append (IsClean.keyword ")" rfl)
  have hrendered := ((hreference.string_append hupdate).string_append hdelete).string_append
    (IsClean.keyword "" rfl)
  rw [← String.append_assoc] at hrendered
  exact hrendered

end ForeignKey

namespace Index

variable {d : Dialect} {table n : String} {i : Index}

theorem isClean_uniqueWord (i : Index) : IsClean i.uniqueWord.toList := by
  unfold uniqueWord
  split <;> exact IsClean.of_quiet rfl

theorem isClean_renderedInline (hn : i.name = some n) (hname : d.IsNameable n)
    (htidy : IsTidyName n) (hcolumns : ∀ m ∈ i.columns, d.IsNameable m)
    (hmore : ∀ m ∈ i.columns, IsTidyName m) :
    IsClean (i.renderedInline d).toList := by
  rw [renderedInline, hn, Option.getD_some]
  exact (((isClean_uniqueWord i).string_append (IsClean.keyword "INDEX " rfl)).string_append
    (Dialect.isClean_quoteColumn hname htidy)).string_append (IsClean.keyword " (" rfl)
    |>.string_append (Dialect.isClean_quoteColumns hcolumns hmore)
    |>.string_append (IsClean.keyword ")" rfl)

/-- An index as a statement is written and tidy. -/
theorem isStatement_renderedStatement (hn : i.name = some n) (hname : d.IsNameable n)
    (htidy : IsTidyName n) (hcolumns : ∀ m ∈ i.columns, d.IsNameable m)
    (hmore : ∀ m ∈ i.columns, IsTidyName m) (htable : d.IsNameable table)
    (htableTidy : IsTidyName table) : IsStatement (i.renderedStatement d table) := by
  have hguard : IsClean (if d.hasConditionalIndexes then "IF NOT EXISTS " else "").toList := by
    split <;> exact IsClean.of_quiet rfl
  have hclean := ((IsClean.keyword "CREATE " rfl).string_append
    (isClean_uniqueWord i)).string_append (IsClean.keyword "INDEX " rfl)
    |>.string_append hguard |>.string_append (Dialect.isClean_quoteColumn hname htidy)
    |>.string_append (Dialect.isClean_append_quoteTable " ON " rfl rfl htable htableTidy)
    |>.string_append (IsClean.keyword " (" rfl)
    |>.string_append (Dialect.isClean_quoteColumns hcolumns hmore)
    |>.string_append (IsClean.keyword ")" rfl)
  refine isStatement_of_isClean hclean ⟨'C', by simp, Or.inl rfl⟩ ?_ ?_
  · rw [String.toList_append, List.getLast?_append]
    exact fun c hc => Option.some.inj hc ▸ rfl
  · unfold renderedStatement
    rw [hn, Option.getD_some]
    simp only [String.append_assoc]
    rfl

end Index

/-! ## Statements -/

namespace Table

variable {d : Dialect} {t : Table}

/-- The names and texts of a table are left as they are by tidying. -/
structure HasCleanTexts (d : Dialect) (t : Table) : Prop where
  names : ∀ n ∈ t.identifiers, IsTidyName n
  columns : ∀ c ∈ t.columns, c.HasCleanTexts d

theorem isTidyName_underscore : IsTidyName "_" := by
  unfold IsTidyName HasChars
  decide

/-- The names of the indexes that are rendered are tidy. -/
theorem isTidyName_of_mem_allIndexes (h : t.HasCleanTexts d) {i : Index} (hi : i ∈ t.allIndexes) :
    (∀ n ∈ i.name, IsTidyName n) ∧ ∀ n ∈ i.columns, IsTidyName n := by
  obtain ⟨⟨n, hn, hname⟩, -⟩ := cases_of_mem_allIndexes isTidyName_underscore h.names hi
  refine ⟨fun m hm => ?_, forall_columns_of_mem_allIndexes h.names hi⟩
  obtain rfl : n = m := Option.some.inj (hn.symm.trans hm)
  rcases hname with ⟨j, hj, hgiven⟩ | ⟨s, rfl, hderived⟩
  · exact forall_indexes_of_identifiers h.names j hj n
      (List.mem_append_left _ (Option.mem_toList.2 hgiven))
  · have hstart : IsTidyName "idx_" := by
      unfold IsTidyName HasChars
      decide
    exact hstart.append hderived

theorem isTidyName_nameFor (h : t.HasCleanTexts d) {k : ForeignKey} (hk : k ∈ t.completeKeys) :
    IsTidyName (k.nameFor t.name) := by
  have hnames := forall_completeKeys_of_identifiers h.names k hk
  rcases k.nameFor_cases isTidyName_underscore (forall_name_of_identifiers h.names) (fun n hn =>
    hnames n (by simp [ForeignKey.identifiers, hn])) with hgiven | ⟨s, hs, hderived⟩
  · exact hnames _ (List.mem_append_left _ (List.mem_append_left _ (Option.mem_toList.2 hgiven)))
  · have hstart : IsTidyName "fk_" := by
      unfold IsTidyName HasChars
      decide
    rw [hs]
    exact hstart.append hderived

theorem isClean_of_mem_keyItems (h : t.HasCleanTexts d) (ht : t.IsSettled d) {s : String}
    (hs : s ∈ t.keyItems d) : IsClean s.toList ∧ ∃ x ∈ s.toList, isMark x = true := by
  have hkey : ∀ n ∈ t.renderedKey, IsTidyName n := by
    intro n hn
    obtain ⟨c, hc, rfl⟩ := List.mem_map.1 (mem_columns_of_mem_renderedKey hn)
    exact forall_columns_of_identifiers h.names c hc
  have hclean := ((IsClean.keyword "PRIMARY KEY(" rfl).string_append
    (Dialect.isClean_quoteColumns ht.key hkey)).string_append (IsClean.keyword ")" rfl)
  unfold keyItems at hs
  split at hs
  · obtain rfl := List.mem_singleton.1 hs
    refine ⟨hclean, 'P', ?_, by decide⟩
    rw [String.toList_append, String.toList_append, List.append_assoc]
    exact List.mem_append_left _ (by decide)
  · cases hs

theorem isClean_of_mem_foreignKeyItems (h : t.HasCleanTexts d) (ht : t.IsSettled d) {s : String}
    (hs : s ∈ t.foreignKeyItems { dialect := d }) :
    IsClean s.toList ∧ ∃ x ∈ s.toList, isMark x = true := by
  obtain ⟨k, hk, rfl⟩ := List.mem_map.1 hs
  refine ⟨ForeignKey.isClean_rendered (ht.foreignKeys k hk) (isTidyName_nameFor h hk)
    (forall_completeKeys_of_identifiers h.names k hk), 'C', ?_, by decide⟩
  unfold ForeignKey.rendered
  simp only [String.toList_append, List.append_assoc]
  exact List.mem_append_left _ (by decide)

theorem isClean_of_mem_indexItems (h : t.HasCleanTexts d) (ht : t.IsSettled d) {s : String}
    (hs : s ∈ t.indexItems { dialect := d }) :
    IsClean s.toList ∧ ∃ x ∈ s.toList, isMark x = true := by
  unfold indexItems at hs
  split at hs
  · obtain ⟨i, hi, rfl⟩ := List.mem_map.1 hs
    obtain ⟨⟨n, hn, hname⟩, hcolumns⟩ := ht.indexes i hi
    obtain ⟨htidy, hmore⟩ := isTidyName_of_mem_allIndexes h hi
    refine ⟨Index.isClean_renderedInline hn hname.nameable (htidy n hn) hcolumns hmore, 'I', ?_,
      by decide⟩
    unfold Index.renderedInline
    simp only [String.toList_append, List.append_assoc]
    exact List.mem_append_right _ (List.mem_append_left _ (by decide))
  · cases hs

/-- **The items of the body are clean**, and no item ends a batch. -/
theorem isClean_of_mem_bodyItems (h : t.HasCleanTexts d) (ht : t.IsSettled d) {s : String}
    (hs : s ∈ t.bodyItems { dialect := d }) :
    IsClean s.toList ∧ ∃ x ∈ s.toList, isMark x = true := by
  rw [bodyItems, List.mem_append, List.mem_append, List.mem_append] at hs
  rcases hs with ((hs | hs) | hs) | hs
  · obtain ⟨c, hc, rfl⟩ := List.mem_map.1 hs
    exact ⟨Column.isClean_rendered (h.columns c hc) (ht.columns c hc)
      (forall_columns_of_identifiers h.names c hc) _, Column.exists_isMark_rendered d _ c⟩
  · exact isClean_of_mem_keyItems h ht hs
  · exact isClean_of_mem_foreignKeyItems h ht hs
  · exact isClean_of_mem_indexItems h ht hs

/-- What stands in front of the body is sealed and tidy, on one line or on two. -/
theorem isTidy_headerText (h : t.HasCleanTexts d) (ht : t.IsSettled d) :
    IsSealed (t.headerText d).toList ∧ IsTidy (t.headerText d).toList := by
  have hname : IsTidyName t.name := forall_name_of_identifiers h.names
  have htable := Dialect.isClean_space_quoteTable ht.name.nameable hname
  have hcreate : ∀ front : String, front.toList.all isQuiet = true → 'C' ∈ front.toList →
      IsClean (front ++ (" " ++ d.quoteTable t.name)).toList ∧
        IsTidy (front ++ (" " ++ d.quoteTable t.name)).toList := by
    intro front hquiet hmem
    have hclean := (IsClean.keyword front hquiet).string_append htable
    refine ⟨hclean, hclean.isCalm.isTidy ⟨'C', ?_, by decide⟩⟩
    rw [String.toList_append]
    exact List.mem_append_left _ hmem
  unfold headerText
  split
  · obtain ⟨hclean, htidy⟩ := hcreate "CREATE TABLE" rfl (by decide)
    -- the guard is the first line, and there is a literal of its own at its end
    have hend : IsClean ", N'U') IS NULL".toList :=
      ((IsClean.keyword ", N" rfl).append (IsClean.literal isTidyLiteral_objectType)).append
        (IsClean.keyword ") IS NULL" rfl)
    have hguard := ((IsClean.keyword "IF OBJECT_ID(N" rfl).string_append
      (IsClean.enclose hname.isTidyLiteral)).string_append hend
    have hline : IsTidy
        ("IF OBJECT_ID(N" ++ Text.enclose '\'' t.name ++ ", N'U') IS NULL").toList := by
      refine hguard.isCalm.isTidy ⟨'I', ?_, by decide⟩
      simp only [String.toList_append, List.append_assoc]
      exact List.mem_append_left _ (by decide)
    have hlines := hline.append_newline htidy
    have hsealed := hguard.isSealed.append ((IsSealed.keyword "\n" rfl).append hclean.isSealed)
    have hsplit : ", N'U') IS NULL\nCREATE TABLE ".toList =
        ", N'U') IS NULL".toList ++ '\n' :: ("CREATE TABLE".toList ++ " ".toList) := by decide
    simp only [String.toList_append, List.append_assoc] at hlines hsealed
    simp only [String.toList_append, List.append_assoc, hsplit, List.cons_append]
    exact ⟨hsealed, hlines⟩
  · obtain ⟨hclean, htidy⟩ := hcreate "CREATE TABLE IF NOT EXISTS" rfl (by decide)
    rw [← String.append_assoc] at hclean htidy
    exact ⟨hclean.isSealed, htidy⟩

/-- Lines that are clean stay tidy when they are joined with commas. -/
theorem isTidy_intercalate {strings : List String}
    (h : ∀ s ∈ strings, IsClean s.toList ∧ ∃ x ∈ s.toList, isMark x = true) :
    IsTidy (",\n".intercalate strings).toList := by
  induction strings with
  | nil => exact .nil
  | cons s strings ih =>
    obtain ⟨⟨hclean, hmark⟩, hstrings⟩ := List.forall_mem_cons.1 h
    cases strings with
    | nil =>
      rw [String.intercalate_singleton]
      exact hclean.isCalm.isTidy hmark
    | cons u strings =>
      obtain ⟨x, hx, hmark⟩ := hmark
      have hline : IsTidy (s.toList ++ [',']) :=
        (hclean.append (IsClean.keyword "," rfl)).isCalm.isTidy
          ⟨x, List.mem_append_left _ hx, hmark⟩
      have hlines := hline.append_newline (ih hstrings)
      rw [List.append_assoc] at hlines
      rw [String.intercalate_cons_cons, String.toList_append, String.toList_append,
        List.append_assoc]
      exact hlines

/-- **The statement that creates a table is written and tidy.** -/
theorem isStatement_createStatement (h : t.HasCleanTexts d) (ht : t.IsSettled d) :
    IsStatement (t.createStatement { dialect := d }) := by
  obtain ⟨hsealed, hheader⟩ := isTidy_headerText h ht
  refine ⟨isWritten_of_isSealed hsealed fun s hs =>
    (isClean_of_mem_bodyItems h ht hs).1.isSealed, ?_⟩
  have hitems : IsTidy (",\n".intercalate
      ((t.bodyItems { dialect := d }).map ("\t" ++ ·))).toList := by
    refine isTidy_intercalate (List.forall_mem_map.2 fun s hs => ?_)
    obtain ⟨hclean, x, hx, hmark⟩ := isClean_of_mem_bodyItems h ht hs
    refine ⟨(IsClean.keyword "\t" rfl).string_append hclean, x, ?_, hmark⟩
    rw [String.toList_append]
    exact List.mem_append_right _ hx
  have hline : ∀ w : String, (∀ x ∈ w.toList, x ∉ ['\n', '\r', '#', '"']) →
      (∃ x ∈ w.toList, isMark x = true) → IsTidy w.toList :=
    fun w hw hmark => (IsCalm.part (.of_notMem hw)).isTidy hmark
  have hclose := hitems.append_newline (hline ");" (by decide) ⟨')', by decide, by decide⟩)
  have hopen := (hline "(" (by decide) ⟨'(', by decide, by decide⟩).append_newline hclose
  have hwhole := hheader.append_newline hopen
  unfold createStatement
  simp only [String.toList_append, List.append_assoc]
  exact hwhole

theorem isStatement_descriptionStatement (hname : d.IsNameable t.name) (htidy : IsTidyName t.name)
    {c : Column} (hcolumn : d.IsNameable c.name) (hmore : IsTidyName c.name) {text : String}
    (htext : IsTidyLiteral text.toList) : IsStatement (t.descriptionStatement d c text) := by
  have hclean := (Dialect.isClean_append_quoteTable "COMMENT ON COLUMN " rfl rfl hname
      htidy).string_append (IsClean.keyword "." rfl)
    |>.string_append (Dialect.isClean_quoteColumn hcolumn hmore)
    |>.string_append (IsClean.keyword " IS " rfl)
    |>.string_append (Dialect.isClean_stringLiteral (d := d) htext)
  refine isStatement_of_isClean hclean ⟨'C', by simp, Or.inl rfl⟩ ?_ rfl
  rw [String.toList_append, Dialect.toList_stringLiteral, List.getLast?_append]
  simp only [List.getLast?_append, List.getLast?_singleton]
  exact fun c hc => Option.some.inj hc ▸ rfl

/-- **The statements of a table are written and tidy.** -/
theorem isStatement_of_mem_renderedStatements (h : t.HasCleanTexts d) (ht : t.IsSettled d)
    {s : String} (hs : s ∈ t.renderedStatements { dialect := d }) : IsStatement s := by
  have hname := forall_name_of_identifiers h.names
  rw [renderedStatements, List.mem_append, List.mem_cons] at hs
  rcases hs with (rfl | hs) | hs
  · exact isStatement_createStatement h ht
  · unfold indexStatements at hs
    split at hs
    · cases hs
    · obtain ⟨i, hi, rfl⟩ := List.mem_map.1 hs
      obtain ⟨⟨n, hn, hindex⟩, hcolumns⟩ := ht.indexes i hi
      obtain ⟨htidy, hmore⟩ := isTidyName_of_mem_allIndexes h hi
      exact Index.isStatement_renderedStatement hn hindex.nameable (htidy n hn) hcolumns hmore
        ht.name.nameable hname
  · unfold descriptionStatements at hs
    split at hs
    · rename_i hd
      obtain ⟨c, hc, hstatement⟩ := List.mem_filterMap.1 hs
      obtain ⟨text, htext, rfl⟩ := Option.map_eq_some_iff.1 hstatement
      have hvisible : text ∈ c.description := (Option.filter_eq_some_iff.1 htext).1
      refine isStatement_descriptionStatement ht.name.nameable hname (ht.columns c hc).name
        (forall_columns_of_identifiers h.names c hc)
        ((h.columns c hc).description ?_ text hvisible)
      rw [show d = .postgresql from hd]
      rfl
    · cases hs

end Table
end SchemaScript
