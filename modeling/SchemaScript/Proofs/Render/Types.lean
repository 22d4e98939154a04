import SchemaScript.Definition.Assembly
import SchemaScript.Proofs.Definition.TypeNames
import SchemaScript.Proofs.Definition.Types
import SchemaScript.Render.Column

/-!
# Rendered types

The type of a column is rendered in one of three ways (`Column.renderedType_cases`): as one of
finitely many spellings of the dialect, as a type of its catalog with a length or a precision and
a scale, or, in the family of MySQL, as the literals of a value set. Each of these is written as
tokens that are read as a definition without modifiers (`ColumnDefinition.WritesType`). A spelling
is read by running the reader on it, and types with arguments by what is known about the reader of
arguments.

One type is not read: `DATETIMEOFFSET` is no word of the vocabulary.
-/

namespace SchemaScript

open ColumnDefinition (TypeArguments WritesType columnType)
open Reader

namespace Dialect

/-- A text is written between quotes, and the quotes and backslashes in it twice. -/
theorem stringLiteral_of_isMySqlFamily {d : Dialect} (hd : d.isMySqlFamily = true) (v : String) :
    d.stringLiteral v = Text.enclose '\'' (String.ofList (Text.double '\\' v.toList)) := by
  rw [← String.toList_inj, toList_stringLiteral_of_isMySqlFamily hd, Text.toList_enclose,
    String.toList_ofList]

/-- Without a backslash in it a text is written between quotes, and the quotes in it twice. -/
theorem stringLiteral_of_notMem {d : Dialect} (hd : d.isMySqlFamily = true) {v : String}
    (h : '\\' ∉ v.toList) : d.stringLiteral v = Text.enclose '\'' v := by
  rw [stringLiteral_of_isMySqlFamily hd, Text.double_eq_self h, String.ofList_toList]

end Dialect

namespace Catalog

variable {catalog : Catalog} {target : String}

/-- Whether a type is rendered with such arguments. -/
def takes (catalog : Catalog) (target : String) : TypeArguments → Bool
  | .length _ => catalog.isSized target || catalog.isScaled target
  | .lengthScale _ _ => catalog.isScaled target
  | .absent | .values _ => false

/-- The size of a column is written as arguments that the type takes, or it is not written. -/
theorem sizedType_cases (catalog : Catalog) (target : String) (length scale : Option UInt32) :
    catalog.sizedType target length scale = catalog.sizedType target none none ∨
      ∃ a, catalog.takes target a = true ∧
        catalog.sizedType target length scale = target ++ a.text := by
  unfold sizedType
  by_cases hparen : target.toList.contains '(' = true
  · simp only [if_pos hparen, true_or]
  simp only [if_neg hparen]
  by_cases hscaled : catalog.isScaled target = true
  · simp only [if_pos hscaled]
    cases length with
    | none => exact Or.inl rfl
    | some n =>
      refine Or.inr ?_
      cases scale with
      | none => exact ⟨.length n, by simp [takes, hscaled], withSize_eq _ _⟩
      | some s => exact ⟨.lengthScale n s, hscaled, withSize_eq _ _⟩
  simp only [if_neg hscaled]
  by_cases hsized : catalog.isSized target = true
  · simp only [if_pos hsized]
    cases length with
    | none => exact Or.inl rfl
    | some n => exact Or.inr ⟨.length n, by simp [takes, hsized], withSize_eq _ _⟩
  · simp only [if_neg hsized, true_or]

/-- Arguments that the type takes are written again for the sizes that they give. -/
theorem sizedType_of_takes {a : TypeArguments} (hparen : target.toList.contains '(' = false)
    (h : catalog.takes target a = true) :
    catalog.sizedType target a.length? a.scale? = target ++ a.text := by
  unfold sizedType
  rw [if_neg (by rw [hparen]; exact Bool.false_ne_true)]
  cases a with
  | absent | values vs => cases h
  | lengthScale n s =>
    rw [if_pos (show catalog.isScaled target = true from h)]
    exact withSize_eq _ _
  | length n =>
    by_cases hscaled : catalog.isScaled target = true
    · rw [if_pos hscaled]
      exact withSize_eq _ _
    · have hsized : catalog.isSized target = true := by simpa [takes, hscaled] using h
      rw [if_neg hscaled, if_pos hsized]
      exact withSize_eq _ _

theorem mem_of_takes {a : TypeArguments} (h : catalog.takes target a = true) :
    target ∈ catalog.sized ++ catalog.scaled := by
  cases a with
  | absent | values vs => cases h
  | length n => simpa [takes, isSized, isScaled] using h
  | lengthScale n s =>
    exact List.mem_append_right _ (by simpa [takes, isScaled] using h)

end Catalog

/-! ## The forms of rendered types -/

/-- The types of a dialect that are rendered with no size of the column, each once. -/
def Dialect.fixedTypes (d : Dialect) : List String :=
  (Column.booleanType d :: (Catalog.ofDialect d).fallback ::
    (Catalog.ofDialect d).entries.map fun e =>
      (Catalog.ofDialect d).sizedType e.2 none none).eraseDups

theorem Dialect.mem_fixedTypes {d : Dialect} {type : String} :
    type ∈ d.fixedTypes ↔ type = Column.booleanType d ∨ type = (Catalog.ofDialect d).fallback ∨
      ∃ e ∈ (Catalog.ofDialect d).entries,
        (Catalog.ofDialect d).sizedType e.2 none none = type := by
  rw [fixedTypes, List.mem_eraseDups, List.mem_cons, List.mem_cons, List.mem_map]

namespace Column

variable {d : Dialect} {c : Column}

/-- **How types are rendered**: in a fixed way, with a size, or as a value set. -/
theorem renderedType_cases (d : Dialect) (c : Column) :
    c.renderedType d ∈ d.fixedTypes ∨
      (∃ target a, (Catalog.ofDialect d).takes target a = true ∧
        c.renderedType d = target ++ a.text) ∨
      d.isMySqlFamily = true ∧ c.isValueSet = true := by
  rw [renderedType]
  by_cases hset : c.isValueSet = true
  · rw [if_pos hset, valueSetType]
    by_cases hd : d.isMySqlFamily = true
    · exact Or.inr (Or.inr ⟨hd, hset⟩)
    · have hsized : (Catalog.ofDialect d).isSized (Catalog.ofDialect d).varyingText = true := by
        cases d <;> decide
      rw [if_neg hd]
      exact Or.inr (Or.inl ⟨_, .length _, by simp [Catalog.takes, hsized], Catalog.withSize_eq _ _⟩)
  rw [if_neg hset]
  by_cases hboolean : c.isBoolean = true
  · rw [if_pos hboolean]
    exact Or.inl (Dialect.mem_fixedTypes.2 (Or.inl rfl))
  rw [if_neg hboolean]
  cases hlookup : c.catalogType? d with
  | none => exact Or.inl (Dialect.mem_fixedTypes.2 (Or.inr (Or.inl rfl)))
  | some target =>
    rcases (Catalog.ofDialect d).sizedType_cases target c.length c.scale with h | h
    · rw [catalogType?, Catalog.lookup] at hlookup
      obtain ⟨entry, hentry, rfl⟩ := Option.map_eq_some_iff.1 hlookup
      exact Or.inl (Dialect.mem_fixedTypes.2
        (Or.inr (Or.inr ⟨entry, List.mem_of_find?_eq_some hentry, h.symm⟩)))
    · exact Or.inr (Or.inl ⟨target, h⟩)

end Column

/-! ## Types in a fixed spelling -/

namespace Catalog

/-- The spellings that are read with another name, and these names. -/
def fixedNames : List (String × String) :=
  [("INTEGER", "INT"), ("DOUBLE PRECISION", "DOUBLE"), ("CHARACTER VARYING", "VARCHAR"),
    ("TIMESTAMP WITH TIME ZONE", "TIMESTAMPTZ"), ("TIMESTAMP WITHOUT TIME ZONE", "TIMESTAMP"),
    ("CHAR(36)", "CHAR"), ("VARCHAR(255)", "VARCHAR"), ("VARBINARY(255)", "VARBINARY"),
    ("NVARCHAR(255)", "NVARCHAR"), ("NVARCHAR(MAX)", "NVARCHAR"), ("VARBINARY(MAX)", "VARBINARY")]

/-- The name that a fixed spelling is read with. -/
def fixedName (type : String) : String :=
  (fixedNames.lookup type).getD type

end Catalog

namespace Dialect

/-- The tokens of a type. -/
def typeTokens (type : String) : List Token :=
  (Token.tokenize type.toList).getD []

/-- Whether the definition is that of a column with the type, and nothing else, and is rendered
with the type again. -/
def isFixedDefinition (d : Dialect) (type : String) (p : ColumnDefinition) : Bool :=
  p == { name := "", dataType := Catalog.fixedName type, length := p.length } &&
    p.toColumn.renderedType d == type && p.toColumn.isBoolean == (type == Column.booleanType d)

/-- Whether the type is written as its tokens and read as such a definition. -/
def IsReadFixed (d : Dialect) (type : String) : Prop :=
  Token.printAll (typeTokens type) = type.toList ∧ Token.IsPlain (typeTokens type) ∧
    Token.IsItem (typeTokens type) ∧ ((columnType "").run (typeTokens type)).2 = [] ∧
      ((columnType "").run (typeTokens type)).1.any (d.isFixedDefinition type) = true

instance (d : Dialect) (type : String) : Decidable (d.IsReadFixed type) :=
  inferInstanceAs (Decidable (_ ∧ _))

/-- MariaDB writes types as MySQL does. -/
theorem renderedType_mariadb : Column.renderedType .mariadb = Column.renderedType .mysql := by
  have hliteral : mariadb.stringLiteral = mysql.stringLiteral := rfl
  have hcatalog : Catalog.ofDialect mariadb = Catalog.ofDialect mysql := rfl
  have hboolean : Column.booleanType mariadb = Column.booleanType mysql := rfl
  have hfamily : mariadb.isMySqlFamily = mysql.isMySqlFamily := rfl
  funext c
  simp only [Column.renderedType, Column.valueSetType, Column.catalogType?, hliteral, hcatalog,
    hboolean, hfamily]

/-- The fixed types are read back, with one exception. -/
theorem isReadFixed_of_mem_fixedTypes (d : Dialect) :
    ∀ type ∈ d.fixedTypes, type ≠ "DATETIMEOFFSET" → d.IsReadFixed type := by
  have hmysql : ∀ type ∈ mysql.fixedTypes, type ≠ "DATETIMEOFFSET" → mysql.IsReadFixed type := by
    decide +kernel
  cases d with
  | sqlite => decide +kernel
  | mysql => exact hmysql
  | mariadb =>
    have htypes : mariadb.fixedTypes = mysql.fixedTypes := rfl
    have hsame : ∀ type, mariadb.IsReadFixed type ↔ mysql.IsReadFixed type := by
      intro type
      have hboolean : Column.booleanType mariadb = Column.booleanType mysql := rfl
      have hdefinition : mariadb.isFixedDefinition type = mysql.isFixedDefinition type := by
        funext p
        rw [isFixedDefinition, isFixedDefinition, renderedType_mariadb, hboolean]
      rw [IsReadFixed, IsReadFixed, hdefinition]
    intro type htype hoffset
    exact (hsame type).2 (hmysql type (htypes ▸ htype) hoffset)
  | postgresql => decide +kernel
  | sqlserver => decide +kernel

/-- **A type in a fixed spelling is written as its tokens**, which are read as a column that is
rendered with the type again. -/
theorem exists_writesType_of_mem_fixedTypes {d : Dialect} {type : String}
    (h : type ∈ d.fixedTypes) (hoffset : type ≠ "DATETIMEOFFSET") :
    ∃ p, WritesType type (typeTokens type) p ∧ d.isFixedDefinition type p = true := by
  obtain ⟨hprint, hplain, hitem, hrest, hany⟩ := isReadFixed_of_mem_fixedTypes d type h hoffset
  cases hp : ((columnType "").run (typeTokens type)).1 with
  | none =>
    rw [hp] at hany
    cases hany
  | some p =>
    rw [hp] at hany
    exact ⟨p, ColumnDefinition.writesType_of_run hprint hplain hitem (Prod.ext hp hrest), hany⟩

end Dialect

/-! ## Types with a size -/

namespace Catalog

/-- The tokens of a type that takes a size. -/
def targetTokens (target : String) : List Token :=
  if target = "CHARACTER VARYING" then [.word "CHARACTER", .blank .space, .word "VARYING"]
  else [.word target]

/-- The name that a type is read with. -/
def readName (target : String) : String :=
  if target = "CHARACTER VARYING" then "VARCHAR" else target

/-- The types that take a size in some dialect. -/
def sizedTargets : List String :=
  ["NVARCHAR", "VARCHAR", "CHAR", "BINARY", "VARBINARY", "TINYINT", "SMALLINT", "MEDIUMINT", "INT",
    "BIGINT", "DECIMAL", "CHARACTER VARYING", "NUMERIC", "NCHAR"]

theorem mem_sizedTargets (d : Dialect) :
    ∀ target ∈ (ofDialect d).sized ++ (ofDialect d).scaled, target ∈ sizedTargets := by
  cases d <;> decide

theorem contains_sizedTargets : ∀ target ∈ sizedTargets, target.toList.contains '(' = false := by
  decide

theorem readName_mem_readable : ∀ target ∈ sizedTargets, readName target ∈ DataType.readable := by
  simp only [DataType.mem_readable_iff]
  decide

/-- A type that takes a size is found under the name that it is read with. -/
theorem lookup_readName (d : Dialect) {target : String}
    (h : target ∈ (ofDialect d).sized ++ (ofDialect d).scaled) :
    (ofDialect d).lookup (readName target) = some target := by
  have hall : ∀ target ∈ (ofDialect d).sized ++ (ofDialect d).scaled,
      ((ofDialect d).entries.find? fun entry =>
        entry.1.toList.isPrefixOf (Text.foldCase (readName target).toList)).map Prod.snd =
          some target := by
    cases d <;> decide +kernel
  have hfold := DataType.fold_of_mem_readable _
    (readName_mem_readable target (mem_sizedTargets d target h))
  rw [lookup, hfold]
  exact hall target h

/-- A type that takes a size holds truth values only as a whole number of one byte. -/
theorem isBoolean_readName {target : String} (h : target ∈ sizedTargets) {n : UInt32}
    (hone : target = "TINYINT" → n ≠ 1) :
    DataType.isBoolean (readName target) (some n) = false := by
  have hnames : ∀ target ∈ sizedTargets, readName target ≠ "BOOLEAN" ∧ readName target ≠ "BIT" ∧
      (readName target = "TINYINT" → target = "TINYINT") := by
    decide
  obtain ⟨hboolean, hbit, htinyint⟩ := hnames target h
  have hfold := DataType.fold_of_mem_readable _ (readName_mem_readable target h)
  have hlength : readName target = "TINYINT" → n ≠ 1 := fun hname => hone (htinyint hname)
  simp only [DataType.isBoolean, hfold]
  simpa [hboolean, hbit] using hlength

/-! ### Reading them -/

theorem print_targetTokens {target : String} :
    Token.printAll (targetTokens target) = target.toList := by
  unfold targetTokens
  split
  · rename_i h
    rw [h]
    decide
  · exact List.append_nil _

/-- The tokens of a type and its arguments are atoms with separators between them. -/
theorem spaced_targetTokens {target : String} (h : target ∈ sizedTargets) {ts : List Token}
    (hts : Token.Spaced ts) (hsep : ∀ u ∈ ts.head?, u.isSeparator = true) :
    Token.Spaced (targetTokens target ++ ts) := by
  have hwords : ∀ target ∈ "CHARACTER" :: "VARYING" :: sizedTargets,
      target ≠ "CHARACTER VARYING" → (Token.word target).ReadsBack := by
    decide
  have hatom : ∀ {w : String}, w ∈ "CHARACTER" :: "VARYING" :: sizedTargets →
      w ≠ "CHARACTER VARYING" → (Token.word w).IsAtom := fun hw hne =>
    Token.isAtom_word (hwords _ hw hne)
  unfold targetTokens
  split
  · have hvarying := hts.cons_atom (hatom (w := "VARYING") (by simp) (by decide)) hsep
    exact (hvarying.cons rfl).cons_atom (hatom (w := "CHARACTER") (by simp) (by decide))
      (by simp [Token.isSeparator])
  · rename_i hne
    exact hts.cons_atom (hatom (by simp [h]) hne) hsep

/-- A type in front of its arguments is read with its name. -/
theorem run_dataTypeName_targetTokens {target : String} (h : target ∈ sizedTargets)
    (ts : List Token) :
    ColumnDefinition.dataTypeName.run (targetTokens target ++ .mark .openParen :: ts) =
      (some (readName target, false), .mark .openParen :: ts) := by
  unfold targetTokens readName
  split
  · rfl
  · rename_i hne
    have hall : ∀ w ∈ sizedTargets, w ≠ "CHARACTER VARYING" →
        ColumnDefinition.isTypeWord (.word w) = true ∧
          (Text.upper w == "TIMESTAMP" || Text.upper w == "TIME") = false ∧
            DataType.canonical (Text.upper w) = (w, false) := by
      decide
    obtain ⟨hword, htime, hcanonical⟩ := hall target h hne
    have hopen : ∀ t ∈ ((Token.mark .openParen :: ts).dropWhile Token.isBlank).head?,
        ["VARYING", "PRECISION", "WITHOUT"].any t.isWord = false ∧ t.isKeyword "WITH" = false ∧
          (t.isMark .openParen = true →
            (Text.upper target == "TIMESTAMP" || Text.upper target == "TIME") = false) := by
      intro t ht
      rw [← Option.some.inj ht]
      exact ⟨rfl, rfl, fun _ => htime⟩
    rw [List.singleton_append, ColumnDefinition.run_dataTypeName_of_isTypeWord hword hopen,
      hcanonical]

/-- The definition that a type with a size is read as. -/
theorem writesType_sized {d : Dialect} {target : String} {a : TypeArguments}
    (h : (ofDialect d).takes target a = true) :
    WritesType (target ++ a.text) (targetTokens target ++ a.tokens)
      (a.definition "" (readName target)) := by
  have htarget := mem_sizedTargets d target (mem_of_takes h)
  have hnames : ∀ target ∈ sizedTargets, DataType.isValueSet (readName target) = false := by
    decide
  obtain ⟨ts, hts⟩ : ∃ ts, a.tokens = .mark .openParen :: ts := by
    cases a with
    | absent | values vs => cases h
    | length n => exact ⟨_, rfl⟩
    | lengthScale n s => exact ⟨_, rfl⟩
  have hset : DataType.isValueSet (readName target) = a.isValues := by
    rw [hnames target htarget]
    cases a with
    | absent | length n | lengthScale n s => rfl
    | values vs => cases h
  have hname : ColumnDefinition.dataTypeName.run (targetTokens target ++ a.tokens) =
      (some (readName target, false), a.tokens) := by
    rw [hts]
    exact run_dataTypeName_targetTokens htarget ts
  refine ⟨?_, spaced_targetTokens htarget a.spaced_tokens ?_, ?_, fun n => ?_⟩
  · rw [Token.printAll_append, print_targetTokens, a.printAll_tokens, String.toList_append]
  · intro u hu
    rw [hts] at hu
    exact Option.some.inj hu ▸ rfl
  · have htokens : Token.IsItem (targetTokens target) := by
      unfold targetTokens
      split <;> rfl
    exact htokens.append a.isItem_tokens
  · exact ColumnDefinition.run_columnType_arguments n (by rw [hts]; exact List.cons_ne_nil _ _)
      hset hname

/-- What a type with a size is read as is rendered with the same size. -/
theorem renderedType_definition {d : Dialect} {target : String} {a : TypeArguments}
    (h : (ofDialect d).takes target a = true) (hone : target ++ a.text ≠ "TINYINT(1)")
    (n : String) :
    (a.definition n (readName target)).toColumn.isBoolean = false ∧
      (a.definition n (readName target)).toColumn.renderedType d = target ++ a.text := by
  have hmem := mem_of_takes h
  have htarget := mem_sizedTargets d target hmem
  obtain ⟨size, hlength, hliterals⟩ : ∃ n, a.length? = some n ∧ a.literals = [] := by
    cases a with
    | absent | values vs => cases h
    | length n => exact ⟨n, rfl, rfl⟩
    | lengthScale n s => exact ⟨n, rfl, rfl⟩
  have hset : (a.definition n (readName target)).toColumn.isValueSet = false := by
    show (DataType.isValueSet _ && !a.literals.isEmpty) = false
    rw [hliterals]
    exact Bool.and_false _
  have hboolean : (a.definition n (readName target)).toColumn.isBoolean = false := by
    show DataType.isBoolean (readName target) a.length? = false
    rw [hlength]
    refine isBoolean_readName htarget fun htinyint hn => hone ?_
    cases a with
    | absent | values vs => cases h
    | length m =>
      rw [Option.some.inj hlength, hn, htinyint]
      decide
    | lengthScale m s =>
      have hscaled : (ofDialect d).isScaled "TINYINT" = false := by cases d <;> decide
      have htakes : (ofDialect d).isScaled target = true := h
      rw [htinyint, hscaled] at htakes
      cases htakes
  have hlookup : (a.definition n (readName target)).toColumn.catalogType? d = some target :=
    lookup_readName d hmem
  refine ⟨hboolean, ?_⟩
  rw [Column.renderedType, if_neg (by rw [hset]; exact Bool.false_ne_true),
    if_neg (by rw [hboolean]; exact Bool.false_ne_true), hlookup]
  exact sizedType_of_takes (contains_sizedTargets target htarget) h

end Catalog

/-! ## Value sets -/

namespace Column

variable {d : Dialect} {c : Column}

/-- The literals of a value set as they are written, the quotes around them and in them aside. -/
def escapedValues (c : Column) : List String :=
  c.values.map fun v => String.ofList (Text.double '\\' v.toList)

theorem escapedValues_eq_iff : c.escapedValues = c.values ↔ ∀ v ∈ c.values, '\\' ∉ v.toList := by
  have hiff : ∀ v : String, String.ofList (Text.double '\\' v.toList) = v ↔ '\\' ∉ v.toList := by
    intro v
    rw [← Text.double_eq_self_iff, ← String.toList_inj, String.toList_ofList]
  rw [escapedValues]
  constructor
  · intro h v hv
    have hsame := List.map_inj_left.1 (h.trans (List.map_id _).symm) v hv
    exact (hiff v).1 hsame
  · intro h
    exact (List.map_congr_left fun v hv => (hiff v).2 (h v hv)).trans (List.map_id _)

theorem escapedValues_inj {c c' : Column} :
    c.escapedValues = c'.escapedValues ↔ c.values = c'.values := by
  refine List.map_inj_right fun v v' h => ?_
  have hchars := congrArg (fun s : String => Text.undouble '\\' s.toList) h
  rw [← String.toList_inj]
  simpa [Text.undouble_double] using hchars

/-- A value set of MySQL is its word and its literals. -/
theorem renderedType_of_isValueSet (hd : d.isMySqlFamily = true) (h : c.isValueSet = true) :
    Text.lower c.dataType ∈ ["enum", "set"] ∧ c.renderedType d =
      Text.lower c.dataType ++ (TypeArguments.values c.escapedValues).text := by
  refine ⟨?_, ?_⟩
  · obtain ⟨v, hv, hsame⟩ := List.any_eq_true.1 (Bool.and_eq_true_iff.1 h).1
    have hlower : Text.lower c.dataType = Text.lower v := by
      rw [Text.lower, Text.lower, beq_iff_eq.1 hsame]
    have hall : ∀ v ∈ ["ENUM", "SET"], Text.lower v ∈ ["enum", "set"] := by decide
    rw [hlower]
    exact hall v hv
  · have hliterals : c.values.map d.stringLiteral = c.escapedValues.map (Text.enclose '\'') := by
      rw [escapedValues, List.map_map]
      exact List.map_congr_left fun v _ => Dialect.stringLiteral_of_isMySqlFamily hd v
    rw [renderedType, if_pos h, valueSetType, if_pos hd, hliterals]
    simp [TypeArguments.text, String.append_assoc]

/-- A value set is read with the literals that stand between the quotes. -/
theorem writesType_values {w : String} (hw : w ∈ ["enum", "set"]) (vs : List String) :
    WritesType (w ++ (TypeArguments.values vs).text)
      (.word w :: (TypeArguments.values vs).tokens)
      ((TypeArguments.values vs).definition "" (Text.upper w)) := by
  have hall : ∀ w ∈ ["enum", "set"], (Token.word w).ReadsBack ∧
      ColumnDefinition.isTypeWord (.word w) = true ∧
        (Text.upper w == "TIMESTAMP" || Text.upper w == "TIME") = false ∧
          DataType.canonical (Text.upper w) = (Text.upper w, false) ∧
            DataType.isValueSet (Text.upper w) = true := by
    decide
  obtain ⟨hback, hword, htime, hcanonical, hset⟩ := hall w hw
  have hname : ColumnDefinition.dataTypeName.run (.word w :: (TypeArguments.values vs).tokens) =
      (some (Text.upper w, false), (TypeArguments.values vs).tokens) := by
    rw [ColumnDefinition.run_dataTypeName_of_isTypeWord hword ?_, hcanonical]
    intro t ht
    rw [← Option.some.inj ht]
    exact ⟨rfl, rfl, fun _ => htime⟩
  refine ⟨?_, (TypeArguments.spaced_tokens _).cons_atom (Token.isAtom_word hback) ?_,
    (TypeArguments.isItem_tokens _).cons fun m _ => rfl, fun n => ?_⟩
  · rw [Token.printAll_cons, TypeArguments.printAll_tokens, String.toList_append]
    rfl
  · intro u hu
    exact Option.some.inj hu ▸ rfl
  · exact ColumnDefinition.run_columnType_arguments (a := .values vs) n (List.cons_ne_nil _ _) hset
      hname

end Column
end SchemaScript
