import SchemaScript.Proofs.Render.Constraints
import SchemaScript.Proofs.Render.SettledDefaults

/-!
# Rendered columns

A column is rendered as its name, its type and its modifiers (`Column.attributes`). What is read
from it is `Column.read`, a definition whose column is rendered in the same way once more
(`rendered_toColumn_read`), although it need not be the column that was rendered: a type may have
settled as another one, a default of `yes` is read back as the number one, and a column of a key
has lost its default.

Descriptions are rendered with a column in MySQL and MariaDB only. PostgreSQL has statements of
their own for them, so `Column.described` is the column that is read in the end.
-/

namespace SchemaScript

open Reader Token TableDefinition ColumnDefinition

namespace Column

variable {d : Dialect} {c : Column} {role : KeyRole}

/-! ## The modifiers of a column -/

/-- The default of a column outside of the key, as it is rendered. -/
def writtenDefault? (d : Dialect) (role : KeyRole) (c : Column) : Option String :=
  if role = .none then c.defaultValue? d else none

/-- Whether a column is rendered as one that is not null. -/
def isWrittenNotNull (role : KeyRole) (c : Column) : Bool :=
  !c.nullable || role != .none

/-- Whether a column is rendered as one that counts up. -/
def isWrittenCounting (d : Dialect) (c : Column) : Bool :=
  c.autoIncrement && (c.countingWords? d).isSome

/-- The description that is rendered with a column. -/
def writtenComment? (d : Dialect) (c : Column) : Option String :=
  if d.isMySqlFamily then c.visibleDescription? else none

/-- The modifiers of a column. -/
def attributes (d : Dialect) (role : KeyRole) (c : Column) : List Attribute :=
  (if role = .whole then [.primaryKey] else []) ++
    (if c.isWrittenNotNull role then [.nullable false]
      else if (c.writtenDefault? d role).isNone then [.nullable true] else []) ++
    (if c.isWrittenCounting d then [.counting] else []) ++
    (c.writtenDefault? d role).toList.map .default ++
    (c.writtenComment? d).toList.map .comment

/-- What the reading of a column goes back and forth with: a name, a type and a default that are
read as they are rendered, a description that is rendered without escapes where it is rendered with
the column, and no truth values that count up. -/
structure IsSettled (d : Dialect) (c : Column) : Prop where
  name : d.IsNameable c.name
  type : c.HasSettledType d
  default : c.HasStableDefault d
  description : d.isMySqlFamily = true → ∀ text ∈ c.description, '\\' ∉ text.toList
  counting : c.isBoolean = true → c.isWrittenCounting d = false

theorem defaultClause?_eq (d : Dialect) (role : KeyRole) (c : Column) :
    c.defaultClause? d role = (c.writtenDefault? d role).map ("DEFAULT " ++ ·) := by
  rw [defaultClause?, writtenDefault?]
  split <;> rfl

theorem eq_of_mem_writtenDefault? {value : String} (h : value ∈ c.writtenDefault? d role) :
    c.defaultValue? d = some value := by
  rw [writtenDefault?] at h
  split at h
  · exact h
  · cases h

/-- **The clauses of a column are its name, its type and its modifiers.** -/
theorem exists_clauses_eq (h : c.IsSettled d) (role : KeyRole) :
    ∃ texts, c.clauses d role = d.quoteColumn c.name :: c.renderedType d :: texts ∧
      List.Forall₂ Attribute.Writes texts (c.attributes d role) := by
  have hkey : List.Forall₂ Attribute.Writes (if role = .whole then ["PRIMARY KEY"] else [])
      (if role = .whole then [.primaryKey] else []) := by
    split
    · exact .cons Attribute.writes_primaryKey .nil
    · exact .nil
  have hnull : List.Forall₂ Attribute.Writes (c.nullWords d role)
      (if c.isWrittenNotNull role then [.nullable false]
        else if (c.writtenDefault? d role).isNone then [.nullable true] else []) := by
    rw [nullWords, defaultClause?_eq, Option.isNone_map, isWrittenNotNull]
    split
    · exact .cons Attribute.writes_notNull .nil
    split
    · exact .cons Attribute.writes_null .nil
    · exact .nil
  have hcounting : List.Forall₂ Attribute.Writes
      (if c.autoIncrement then (c.countingWords? d).toList else [])
      (if c.isWrittenCounting d then [.counting] else []) := by
    rw [isWrittenCounting]
    cases c.autoIncrement with
    | false => exact .nil
    | true =>
      cases hwords : c.countingWords? d with
      | none => exact .nil
      | some words =>
        rw [countingWords?] at hwords
        split at hwords
        · exact .cons (Attribute.writes_autoIncrementWords hwords) .nil
        · cases hwords
  have hdefault : List.Forall₂ Attribute.Writes (c.defaultClause? d role).toList
      ((c.writtenDefault? d role).toList.map .default) := by
    rw [defaultClause?_eq]
    cases hvalue : c.writtenDefault? d role with
    | none => exact .nil
    | some value =>
      have hplain := (isPlainValue_of_defaultValue? h.default (eq_of_mem_writtenDefault? hvalue)).1
      exact .cons (Attribute.writes_default hplain.writesValue) .nil
  have hcomment : List.Forall₂ Attribute.Writes
      (if d.isMySqlFamily then
        (c.visibleDescription?.map fun text => "COMMENT " ++ d.stringLiteral text).toList
      else []) ((c.writtenComment? d).toList.map .comment) := by
    rw [writtenComment?]
    split
    · rename_i hd
      cases htext : c.visibleDescription? with
      | none => exact .nil
      | some text =>
        have hmem : text ∈ c.description := (Option.filter_eq_some_iff.1 htext).1
        rw [Option.map_some, Dialect.stringLiteral_of_notMem hd (h.description hd text hmem)]
        exact .cons (Attribute.writes_comment text) .nil
    · exact .nil
  refine ⟨_, ?_, List.rel_append (List.rel_append (List.rel_append
    (List.rel_append hkey hnull) hcounting) hdefault) hcomment⟩
  simp only [clauses, List.cons_append, List.nil_append, List.append_assoc]

/-! ## What is read -/

/-- The definition that a rendered column is read as. -/
def read (d : Dialect) (role : KeyRole) (c : Column) : ColumnDefinition where
  name := c.name
  dataType := (c.rereadType d).dataType
  length := (c.rereadType d).length
  scale := (c.rereadType d).scale
  values := (c.rereadType d).values
  nullable := !c.isWrittenNotNull role
  default := (c.writtenDefault? d role).map readDefault
  primaryKey := role == .whole
  autoIncrement := c.isWrittenCounting d
  comment := c.writtenComment? d

@[simp] theorem name_read (d : Dialect) (role : KeyRole) (c : Column) :
    (c.read d role).name = c.name := rfl

/-- What the modifiers make of the type is the definition that is read. -/
theorem foldl_attributes (h : c.IsSettled d) :
    (c.attributes d role).foldl Attribute.apply { c.rereadType d with name := c.name } =
      c.read d role := by
  have hkey : ∀ p : ColumnDefinition, p.primaryKey = false →
      (if role = .whole then [.primaryKey] else []).foldl Attribute.apply p =
        { p with primaryKey := role == .whole } := by
    intro p hp
    cases p
    cases hp
    cases role <;> rfl
  have hnull : ∀ p : ColumnDefinition, p.nullable = true →
      (if c.isWrittenNotNull role then [.nullable false]
        else if (c.writtenDefault? d role).isNone then [.nullable true] else []).foldl
          Attribute.apply p = { p with nullable := !c.isWrittenNotNull role } := by
    intro p hp
    cases p
    cases hp
    cases c.isWrittenNotNull role with
    | true => rfl
    | false => cases (c.writtenDefault? d role).isNone <;> rfl
  have hcounting : ∀ p : ColumnDefinition, p.autoIncrement = false →
      (if c.isWrittenCounting d then [.counting] else []).foldl Attribute.apply p =
        { p with autoIncrement := c.isWrittenCounting d } := by
    intro p hp
    cases p
    cases hp
    cases c.isWrittenCounting d <;> rfl
  have hdefault : ∀ p : ColumnDefinition, p.default = none →
      ((c.writtenDefault? d role).toList.map .default).foldl Attribute.apply p =
        { p with default := (c.writtenDefault? d role).map readDefault } := by
    intro p hp
    cases p
    cases hp
    cases hvalue : c.writtenDefault? d role with
    | none => rfl
    | some value =>
      have hread := (isPlainValue_of_defaultValue? h.default (eq_of_mem_writtenDefault? hvalue)).2
      simp only [Option.toList_some, List.map_cons, List.map_nil, List.foldl_cons, List.foldl_nil,
        Attribute.apply, hread]
      rfl
  have hcomment : ∀ p : ColumnDefinition, p.comment = none →
      ((c.writtenComment? d).toList.map .comment).foldl Attribute.apply p =
        { p with comment := c.writtenComment? d } := by
    intro p hp
    cases p
    cases hp
    cases c.writtenComment? d <;> rfl
  have htype := isTypeOnly_rereadType h.type
  rw [attributes, List.foldl_append, List.foldl_append, List.foldl_append, List.foldl_append,
    hkey _ (by rw [htype]), hnull _ (by rw [htype]), hcounting _ (by rw [htype]),
    hdefault _ (by rw [htype]), hcomment _ (by rw [htype]), read, htype]

/-- **A rendered column is an item.** -/
theorem writes_column (h : c.IsSettled d) (role : KeyRole) :
    Item.Writes (c.rendered d role) (.column (c.read d role)) := by
  obtain ⟨texts, hclauses, hwrites⟩ := exists_clauses_eq h role
  obtain ⟨ts, hts⟩ := exists_writesType_rereadType h.type
  obtain ⟨ms, hprint, hspaced, hitem, hread⟩ := hts.exists_tokens (d.wordText?_nameToken c.name)
    (Dialect.isAtom_nameToken h.name) (Dialect.print_nameToken h.name) hwrites
  rw [foldl_attributes h] at hread
  refine ⟨_, by rw [rendered, hclauses, hprint], writtenAs_column hspaced hitem ?_ hread⟩
  exact ⟨_, rfl, isBlank_of_wordText? (d.wordText?_nameToken c.name)⟩

/-! ## Columns settle -/

/-- The column that is read in the end, with its description. -/
def described (d : Dialect) (role : KeyRole) (c : Column) : Column :=
  { (c.read d role).toColumn with
    description := if d.isMySqlFamily || d == .postgresql then c.visibleDescription? else none }

@[simp] theorem name_described (d : Dialect) (role : KeyRole) (c : Column) :
    (c.described d role).name = c.name := rfl

/-- Where descriptions are rendered they are read, unless they are empty. -/
theorem visibleDescription?_described (h : (d.isMySqlFamily || d == .postgresql) = true) :
    (c.described d role).visibleDescription? = c.visibleDescription? := by
  have htext : (c.described d role).description = c.visibleDescription? := if_pos h
  rw [visibleDescription?, htext, visibleDescription?]
  cases c.description with
  | none => rfl
  | some text => cases text.isEmpty <;> simp

/-- Elsewhere the column that is read is the one that was defined. -/
theorem described_eq (h : d ≠ .postgresql) :
    c.described d role = (c.read d role).toColumn := by
  have hcomment : (if d.isMySqlFamily || d == .postgresql then c.visibleDescription? else none) =
      c.writtenComment? d := by
    rw [writtenComment?, beq_eq_false_iff_ne.2 h, Bool.or_false]
  rw [described, hcomment]
  rfl

theorem isLike_described (d : Dialect) (c : Column) (role : KeyRole) :
    (c.described d role).IsLike (c.rereadType d).toColumn :=
  ⟨rfl, fun _ => rfl, fun _ => rfl⟩

/-- Whole numbers are read as whole numbers, and truth values as truth values. -/
theorem isLike_described_of_isInteger (h : c.HasSettledType d) (hc : c.isInteger = true) :
    (c.described d role).IsLike c := by
  have hmem := DataType.mem_of_isInteger h.readable hc
  have hne : c.dataType ≠ "BIT" ∧ c.dataType ≠ "YEAR" := by
    constructor <;> intro hx <;> rw [hx] at hmem <;> revert hmem <;> decide
  exact (isLike_described d c role).trans
    (isLike_rereadType h (fun hx => absurd hx hne.1) fun hx => absurd hx hne.2)

/-- What is read counts up if the column did. -/
theorem isWrittenCounting_described (h : c.IsSettled d) :
    (c.described d role).isWrittenCounting d = c.isWrittenCounting d := by
  have hauto : (c.described d role).autoIncrement = c.isWrittenCounting d := rfl
  rw [isWrittenCounting, hauto]
  cases hcounting : c.isWrittenCounting d with
  | false => rfl
  | true =>
    have hboolean : c.isBoolean = false := by
      by_contra hx
      rw [h.counting (Bool.of_not_eq_false hx)] at hcounting
      cases hcounting
    have hsome : (c.countingWords? d).isSome = true := (Bool.and_eq_true_iff.1 hcounting).2
    have hinteger : c.isInteger = true := by
      by_contra hx
      rw [countingWords?, if_neg hx] at hsome
      cases hsome
    have hlike : (c.described d role).IsLike c := isLike_described_of_isInteger h.type hinteger
    rw [countingWords?, (hlike.integer hboolean).trans hinteger, if_pos rfl]
    rw [countingWords?, if_pos hinteger] at hsome
    exact hsome

/-- Outside of the key the default of what is read is rendered as the one it was read from. -/
theorem defaultValue?_described (h : c.IsSettled d) :
    (c.described d .none).defaultValue? d = c.defaultValue? d := by
  have hdefault : (c.described d .none).default = (c.defaultValue? d).map readDefault := rfl
  cases hvalue : c.defaultValue? d with
  | none =>
    rw [hvalue] at hdefault
    rw [defaultValue?, hdefault]
    rfl
  | some value =>
    rw [hvalue] at hdefault
    have hnullable : (c.described d .none).nullable = c.nullable := by
      show (!(!c.nullable || KeyRole.none != .none)) = c.nullable
      cases c.nullable <;> rfl
    exact defaultValue?_readDefault h.default h.type hvalue (isLike_described d c .none)
      hnullable hdefault

/-- **What a rendered column is read as is rendered in the same way.** -/
theorem rendered_described (h : c.IsSettled d) :
    (c.described d role).rendered d role = c.rendered d role := by
  have htype : (c.described d role).renderedType d = c.renderedType d :=
    renderedType_rereadType h.type
  have hnull : (c.described d role).isWrittenNotNull role = c.isWrittenNotNull role := by
    show (!!c.isWrittenNotNull role || role != .none) = c.isWrittenNotNull role
    rw [Bool.not_not, isWrittenNotNull, Bool.or_assoc, Bool.or_self]
  have hdefault : (c.described d role).defaultClause? d role = c.defaultClause? d role := by
    rw [defaultClause?, defaultClause?]
    by_cases hrole : role = .none
    · subst hrole
      rw [if_pos rfl, if_pos rfl, defaultValue?_described h]
    · rw [if_neg hrole, if_neg hrole]
  have hwords : (c.described d role).nullWords d role = c.nullWords d role := by
    have hboth := hnull
    rw [isWrittenNotNull, isWrittenNotNull] at hboth
    rw [nullWords, nullWords, hboth, hdefault]
  have hcounting : ∀ c : Column, (if c.autoIncrement then (c.countingWords? d).toList else []) =
      if c.isWrittenCounting d then d.autoIncrementWords?.toList else [] := by
    intro c
    rw [isWrittenCounting, countingWords?]
    cases c.autoIncrement <;> cases c.isInteger <;> cases d.autoIncrementWords? <;> rfl
  have hclause : (if d.isMySqlFamily then
        ((c.described d role).visibleDescription?.map fun text =>
          "COMMENT " ++ d.stringLiteral text).toList
      else []) = if d.isMySqlFamily then
        (c.visibleDescription?.map fun text => "COMMENT " ++ d.stringLiteral text).toList
      else [] := by
    split
    · rename_i hd
      rw [visibleDescription?_described (by rw [hd]; rfl)]
    · rfl
  rw [rendered, rendered, clauses, clauses, name_described, htype, hwords, hcounting, hcounting,
    isWrittenCounting_described h, hdefault, hclause]

end Column
end SchemaScript
