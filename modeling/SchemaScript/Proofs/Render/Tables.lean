import SchemaScript.Proofs.Definition.Assembly
import SchemaScript.Proofs.Definition.ExistenceGuard
import SchemaScript.Proofs.Render.Columns
import SchemaScript.Proofs.Render.Indexes

/-!
# Rendering a table that has been read from its rendering

A table for MySQL or MariaDB is rendered as one statement. Its tokens are known
(`Table.statementTokens`): the header, and then the items of the body on lines of their own, each
of which is read as the column or the constraint that it was rendered from. The table assembled
from these is in general not the one that was rendered, since types have settled and names have
been given to keys and indexes. But it is rendered as the same text (`ofStatement_rendered`), so
rendering and reading do not change a table any more after the first time.
-/

namespace SchemaScript

open Reader Token TableDefinition

namespace TableDefinition

variable {cores : List (List Token)} {texts : List String}

/-- The print of a body is the text with each item on a line of its own. -/
theorem printAll_bodyTokens (hne : cores ≠ [])
    (h : List.Forall₂ (fun core text => printAll core = text.toList) cores texts) :
    printAll (bodyTokens cores) =
      '\n' :: ((",\n".intercalate (texts.map ("\t" ++ ·))).toList ++ ['\n']) := by
  have hlines : printAll ([Token.mark .comma].intercalate
      (cores.map fun core => .blank .newline :: .blank .tab :: core)) =
        '\n' :: (",\n".intercalate (texts.map ("\t" ++ ·))).toList := by
    induction h with
    | nil => exact absurd rfl hne
    | @cons core text cores texts hcore hcores ih =>
      cases hcores with
      | nil => simp [hcore]
      | @cons core' text' cores texts hcore' hcores =>
        have ih := ih (List.cons_ne_nil _ _)
        rw [List.map_cons, List.intercalate_cons_of_ne_nil (by simp), printAll_append, ih]
        simp [hcore]
  rw [bodyTokens, printAll_append, hlines]
  simp

theorem spaced_bodyTokens (h : ∀ core ∈ cores, Spaced core) : Spaced (bodyTokens cores) := by
  have hlines : Spaced ([Token.mark .comma].intercalate
      (cores.map fun core => .blank .newline :: .blank .tab :: core)) := by
    induction cores with
    | nil => exact spaced_nil
    | cons core cores ih =>
      have hcore : Spaced (.blank .newline :: .blank .tab :: core) :=
        ((h core List.mem_cons_self).cons rfl).cons rfl
      have ih := ih fun core' hcore' => h core' (List.mem_cons_of_mem core hcore')
      cases cores with
      | nil => simpa using hcore
      | cons core' cores =>
        rw [List.map_cons, List.intercalate_cons_of_ne_nil (by simp), List.append_assoc]
        exact hcore.between rfl ih
  exact hlines.append (spaced_nil.cons rfl) (by simp [isSeparator])

end TableDefinition

namespace ForeignKey

/-- The names that a foreign key gives. -/
def identifiers (k : ForeignKey) : List String :=
  k.name.toList ++ k.columns ++ k.referencedTable :: k.referencedColumns

end ForeignKey

namespace Index

/-- The names that an index gives. -/
def identifiers (i : Index) : List String :=
  i.name.toList ++ i.columns

end Index

namespace Table

variable {d : Dialect} {t : Table}

/-- All names in a table. -/
def identifiers (t : Table) : List String :=
  t.name :: t.columns.map Column.name ++ t.primaryKey ++
    t.foreignKeys.flatMap ForeignKey.identifiers ++ t.indexes.flatMap Index.identifiers

/-- The role of a column in the key. -/
def role (t : Table) (c : Column) : Column.KeyRole :=
  .inKey t.renderedKey c.name

/-- The foreign keys that are rendered. -/
def completeKeys (t : Table) : List ForeignKey :=
  t.foreignKeys.filter ForeignKey.isComplete

/-- The indexes that are rendered. -/
def allIndexes (t : Table) : List Index :=
  Index.emitted t.name t.renderedKey t.indexes t.completeKeys

/-- The constraints that are rendered in the body. -/
def constraints (d : Dialect) (t : Table) : List Constraint :=
  (if 1 < t.renderedKey.length then [.primaryKey t.renderedKey] else []) ++
    t.completeKeys.map (fun k => .foreignKey (some (k.nameFor t.name)) k.columns k.target) ++
    if d.hasInlineIndexes then
      t.allIndexes.map fun i => .ofIndex i.unique (some (i.name.getD "")) i.columns
    else []

/-- The columns as they are read. -/
def definitions (d : Dialect) (t : Table) : List ColumnDefinition :=
  t.columns.map fun c => c.read d (t.role c)

/-- The tokens of the condition that a table does not exist. -/
def guardTokens (n : String) : List Token :=
  [.word "IF", .blank .space] ++ ([.word "OBJECT_ID"] ++ (.mark .openParen ::
    ([.literal .national n, .mark .comma, .blank .space, .literal .national "U"] ++
      .mark .closeParen :: ([.blank .space] ++ ([.word "IS", .blank .space] ++
        [.word "NULL", .blank .newline])))))

/-- The tokens in front of the name of a rendered table. -/
def headerTokens (d : Dialect) (n : String) : List Token :=
  if d = .sqlserver then
    guardTokens n ++ [.word "CREATE", .blank .space, .word "TABLE", .blank .space]
  else
    [.word "CREATE", .blank .space, .word "TABLE", .blank .space, .word "IF", .blank .space,
      .word "NOT", .blank .space, .word "EXISTS", .blank .space]

/-- The tokens of a rendered table whose items have the given tokens, with some tokens behind the
parenthesis at its end. -/
def statementTokens (d : Dialect) (n : String) (cores : List (List Token)) (behind : List Token) :
    List Token :=
  headerTokens d n ++ d.tableToken n :: .blank .newline :: .mark .openParen ::
    (bodyTokens cores ++ .mark .closeParen :: behind)

/-- What rendering and reading a table go back and forth with. -/
structure IsSettled (d : Dialect) (t : Table) : Prop where
  name : d.IsCreatedName t.name
  columns : ∀ c ∈ t.columns, c.IsSettled d
  foreignKeys : ∀ k ∈ t.completeKeys, k.IsNameable d t.name
  indexes : ∀ i ∈ t.allIndexes, (∃ n, i.name = some n ∧ d.IsCreatedName n) ∧
    ∀ n ∈ i.columns, d.IsNameable n

theorem mem_columns_of_mem_renderedKey {n : String} (h : n ∈ t.renderedKey) :
    n ∈ t.columns.map Column.name :=
  hasColumn_iff.1 (List.mem_filter.1 h).2

/-- The names of the key are those of columns, so they can be rendered as well. -/
theorem IsSettled.key (h : t.IsSettled d) : ∀ n ∈ t.renderedKey, d.IsNameable n := by
  intro n hn
  obtain ⟨c, hc, rfl⟩ := List.mem_map.1 (mem_columns_of_mem_renderedKey hn)
  exact (h.columns c hc).name

/-- **The items of a rendered body are the columns and constraints of the table.** -/
theorem writes_bodyItems (h : t.IsSettled d) :
    List.Forall₂ Item.Writes (t.bodyItems { dialect := d })
      ((t.definitions d).map .column ++ (t.constraints d).map .constraint) := by
  have hsame : ∀ {α : Type} {l : List α} {f : α → String} {g : α → Item},
      (∀ a ∈ l, Item.Writes (f a) (g a)) → List.Forall₂ Item.Writes (l.map f) (l.map g) := by
    intro α l f g hl
    rw [List.forall₂_map_left_iff, List.forall₂_map_right_iff, List.forall₂_same]
    exact hl
  rw [bodyItems, constraints, List.map_append, List.map_append, ← List.append_assoc,
    ← List.append_assoc, definitions, List.map_map, List.map_map]
  refine List.rel_append (List.rel_append (List.rel_append ?_ ?_) ?_) ?_
  · exact hsame fun c hc => Column.writes_column (h.columns c hc) (t.role c)
  · rw [keyItems]
    split
    · exact .cons (Constraint.writes_key h.key) .nil
    · exact .nil
  · exact hsame fun k hk => ForeignKey.writes_foreignKey (h.foreignKeys k hk)
  · rw [indexItems]
    split
    · rename_i hd
      rw [List.map_map]
      refine hsame fun i hi => ?_
      obtain ⟨⟨n, hn, hname⟩, hcolumns⟩ := h.indexes i hi
      show Item.Writes _ (.constraint (.ofIndex i.unique (some (i.name.getD "")) i.columns))
      rw [hn, Option.getD_some]
      exact Constraint.writes_index hd hn hname.nameable hcolumns
    · exact .nil

/-- The rendered header and name are the print of their tokens. -/
theorem printAll_headerTokens (h : d.IsNameable t.name) :
    printAll (headerTokens d t.name ++ [d.tableToken t.name]) = (t.headerText d).toList := by
  rw [printAll_append, headerText, headerTokens]
  have hname := Dialect.print_tableToken h
  have hkind : (Text.enclose '\'' "U").toList = "'U'".toList := by decide
  split <;> simp [guardTokens, hname, hkind]

/-- A rendered table is the print of its tokens. -/
theorem printAll_statementTokens (h : t.IsSettled d) (hcolumns : t.columns ≠ [])
    {cores : List (List Token)}
    (hcores : List.Forall₂ (fun core text => printAll core = text.toList) cores
      (t.bodyItems { dialect := d })) :
    printAll (statementTokens d t.name cores [.mark .semicolon]) =
      (t.createStatement { dialect := d }).toList := by
  have hne : cores ≠ [] := by
    rintro rfl
    have hnil : t.bodyItems { dialect := d } = [] := List.forall₂_nil_left_iff.1 hcores
    obtain ⟨c, cs, hcs⟩ := List.exists_cons_of_ne_nil hcolumns
    simp [bodyItems, columnItems, hcs] at hnil
  have hbody := printAll_bodyTokens hne hcores
  have hheader := printAll_headerTokens h.name.nameable
  rw [printAll_append, printAll_cons, printAll_nil, List.append_nil] at hheader
  rw [createStatement]
  simp only [String.toList_append, ← hheader]
  simp [statementTokens, hbody]

/-- The tokens of a rendered table are atoms with separators between them. -/
theorem spaced_statementTokens (h : t.IsSettled d) {cores : List (List Token)}
    (hcores : ∀ core ∈ cores, Spaced core) {behind : List Token} (hbehind : Spaced behind) :
    Spaced (statementTokens d t.name cores behind) := by
  have hbody : Spaced (d.tableToken t.name :: .blank .newline :: .mark .openParen ::
      (bodyTokens cores ++ .mark .closeParen :: behind)) :=
    ((((spaced_bodyTokens hcores).append (hbehind.cons rfl) (by simp [isSeparator])).cons
      rfl).cons rfl).cons_atom (Dialect.isAtom_tableToken h.name.nameable) (by simp [isSeparator])
  have hword : ∀ w ∈ ["CREATE", "TABLE", "IF", "NOT", "EXISTS", "OBJECT_ID", "IS", "NULL"],
      (Token.word w).ReadsBack := by
    decide
  have hatom : ∀ {w : String}, w ∈ ["CREATE", "TABLE", "IF", "NOT", "EXISTS", "OBJECT_ID", "IS",
      "NULL"] → (Token.word w).IsAtom := fun hw => isAtom_word (hword _ hw)
  rw [statementTokens, headerTokens]
  split
  · rename_i hd
    have hname := h.name.nameable
    rw [hd] at hname
    have hslash : '\\' ∉ t.name.toList := Naming.notMem_of_isWord hname (by decide)
    have hcreate := (hbody.atom_space (hatom (w := "TABLE") (by decide))).atom_space
      (hatom (w := "CREATE") (by decide))
    have his := ((hcreate.cons (t := .blank .newline) rfl).cons_atom
      (hatom (w := "NULL") (by decide)) (by simp [isSeparator])).atom_space
        (hatom (w := "IS") (by decide))
    have htype : (literal .national "U").IsAtom := isAtom_national (by decide)
    have hobject := ((((his.cons (t := .blank .space) rfl).cons (t := .mark .closeParen)
      rfl).cons_atom htype (by simp [isSeparator])).cons (t := .blank .space) rfl).cons
        (t := .mark .comma) rfl
    exact (((hobject.cons_atom (isAtom_national hslash) (by simp [isSeparator])).cons
      (t := .mark .openParen) rfl).cons_atom (hatom (w := "OBJECT_ID") (by decide))
        (by simp [isSeparator])).atom_space (hatom (w := "IF") (by decide))
  · have hcreate : Spaced (wordTokens ["CREATE", "TABLE", "IF", "NOT", "EXISTS"] ++
        d.tableToken t.name :: .blank .newline :: .mark .openParen ::
          (bodyTokens cores ++ .mark .closeParen :: behind)) :=
      hbody.behind_words fun w hw => hword w (List.mem_append_left ["OBJECT_ID", "IS", "NULL"] hw)
    exact hcreate

/-- The header is read up to the name of the table. -/
theorem run_headerTokens (h : t.IsSettled d) (ts : List Token) :
    header.run ((headerTokens d t.name ++ d.tableToken t.name :: ts).dropWhile Token.isBlank) =
      (some (), d.tableToken t.name :: ts) := by
  have hblank : (d.tableToken t.name).isBlank = false :=
    isBlank_of_wordText? (d.wordText?_tableToken t.name)
  rw [headerTokens]
  split
  · rename_i hd
    have hif : (d.tableToken t.name).isKeyword "IF" = false := by
      rw [hd]
      exact h.name.unconditional hd
    have hone : AllBlank [.blank .space] := allBlank_singleton rfl
    have hstep : ∀ {u : Token} {us : List Token}, u ≠ .mark .openParen → u ≠ .mark .closeParen →
        IsBalanced us → IsBalanced (u :: us) := fun hopen hclose hus =>
      show Closes 0 _ from (closes_cons_of_ne hopen hclose).2 hus
    have hinner : IsBalanced [.literal .national t.name, .mark .comma, .blank .space,
        .literal .national "U"] :=
      hstep nofun nofun (hstep (by decide) (by decide) (hstep nofun nofun
        (hstep nofun nofun (closes_nil_iff.2 rfl))))
    have hguard : IsGuard (guardTokens t.name) :=
      .parts (.cons (by decide) hone) (.cons (by decide) fun _ hu => absurd hu List.not_mem_nil)
        hinner hone (.cons (by decide) hone) (.cons (by decide) (allBlank_singleton rfl))
    rw [List.append_assoc]
    show header.run (guardTokens t.name ++ _) = _
    exact (run_header_guard hguard rfl (by decide) _).trans (run_header hblank hif ts)
  · exact run_header_ifNotExists hblank ts

/-- What stands behind the parenthesis at the end is not read. -/
theorem ofTokens_statementTokens (h : t.IsSettled d) {cores : List (List Token)}
    (hne : cores ≠ [])
    (hcores : List.Forall₂ (fun core item => Item.WrittenAs item core) cores
      ((t.definitions d).map .column ++ (t.constraints d).map .constraint)) (behind : List Token) :
    TableDefinition.ofTokens (statementTokens d t.name cores behind) =
      .ok ⟨t.name, t.definitions d, t.constraints d, []⟩ := by
  obtain ⟨tss, hbody, hreads⟩ := body_of_writtenAs hne hcores behind
  have hcolumn : ((t.definitions d).map Item.column ++
      (t.constraints d).map Item.constraint).filterMap Item.column? = t.definitions d := by
    simp [Function.comp_def, Item.column?]
  have hconstraint : ((t.definitions d).map Item.column ++
      (t.constraints d).map Item.constraint).filterMap Item.constraint? = t.constraints d := by
    simp [Function.comp_def, Item.constraint?]
  have hheader := run_headerTokens h (.blank .newline :: .mark .openParen ::
    (bodyTokens cores ++ .mark .closeParen :: behind))
  have hbehind : (some (), d.tableToken t.name :: .blank .newline :: .mark .openParen ::
      (bodyTokens cores ++ .mark .closeParen :: behind)) =
    (some (), d.tableToken t.name :: ([.blank .newline] ++ .mark .openParen ::
      (bodyTokens cores ++ .mark .closeParen :: behind))) := rfl
  rw [statementTokens, ofTokens_of_header (hheader.trans hbehind) (d.wordText?_tableToken t.name)
    rfl, hbody]
  show Except.ok (ofItems t.name tss) = _
  rw [ofItems_of_reads hreads, hcolumn, hconstraint]

/-- **The definition in a rendered table**, with or without its semicolon. -/
theorem ofText_rendered (h : t.IsSettled d) (hcolumns : t.columns ≠ []) {text : String}
    (htext : t.createStatement { dialect := d } = text ∨
      t.createStatement { dialect := d } = text ++ ";") :
    TableDefinition.ofText text = .ok ⟨t.name, t.definitions d, t.constraints d, []⟩ := by
  obtain ⟨cores, hprints, hwritten⟩ := Item.exists_cores (writes_bodyItems h)
  have hprint := printAll_statementTokens h hcolumns hprints
  have hne : cores ≠ [] := by
    rintro rfl
    have hnil := List.forall₂_nil_left_iff.1 hwritten
    obtain ⟨c, cs, hcs⟩ := List.exists_cons_of_ne_nil hcolumns
    simp [definitions, hcs] at hnil
  have hspaced : ∀ core ∈ cores, Spaced core := by
    have hboth := List.Forall₂.imp
      (S := fun core _ => Spaced core ∧ True) (fun _ _ hitem => ⟨hitem.spaced, trivial⟩) hwritten
    exact ((List.forall₂_and_left _ _).1 hboth).1
  have hread : ∀ behind : List Token, Spaced behind →
      printAll (statementTokens d t.name cores behind) = text.toList →
        TableDefinition.ofText text = .ok ⟨t.name, t.definitions d, t.constraints d, []⟩ := by
    intro behind hbehind hbehindText
    rw [TableDefinition.ofText, ← hbehindText,
      (spaced_statementTokens h hspaced hbehind).tokenize]
    exact ofTokens_statementTokens h hne hwritten behind
  rcases htext with rfl | hw
  · exact hread [.mark .semicolon] (spaced_nil.cons rfl) hprint
  · refine hread [] spaced_nil ?_
    have hsplit : statementTokens d t.name cores [.mark .semicolon] =
        statementTokens d t.name cores [] ++ [.mark .semicolon] := by
      simp [statementTokens]
    rw [hw, hsplit, printAll_append, String.toList_append] at hprint
    exact List.append_cancel_right hprint

end Table

/-! ## Foreign keys settle -/

namespace ForeignKey

variable {k : ForeignKey} {table : String}

/-- A foreign key as it is read. -/
def read (table : String) (k : ForeignKey) : ForeignKey :=
  k.target.toForeignKey (some (k.nameFor table)) k.columns

theorem columns_ne_nil_of_isComplete (h : k.isComplete = true) : k.columns ≠ [] := by
  simp only [isComplete, Bool.and_eq_true] at h
  simpa using h.1.1

/-- A complete foreign key refers to the columns that it names. -/
theorem referencedColumns_read (h : k.isComplete = true) :
    (k.read table).referencedColumns = k.referencedColumns := by
  have hlength : k.referencedColumns.length = k.columns.length := by
    simp only [isComplete, Bool.and_eq_true] at h
    simpa using h.2
  have hne : k.referencedColumns.isEmpty = false := by
    cases hcolumns : k.referencedColumns with
    | nil =>
      rw [hcolumns] at hlength
      exact absurd (List.length_eq_zero_iff.1 hlength.symm) (columns_ne_nil_of_isComplete h)
    | cons n ns => rfl
  show (if k.referencedColumns.isEmpty then k.columns else k.referencedColumns) = _
  rw [hne, if_neg Bool.false_ne_true]

theorem isComplete_read (h : k.isComplete = true) : (k.read table).isComplete = true := by
  have hcolumns : (k.read table).columns = k.columns := rfl
  have hreferencedTable : (k.read table).referencedTable = k.referencedTable := rfl
  rw [isComplete, hcolumns, hreferencedTable, referencedColumns_read h, ← isComplete, h]

/-- An action that is known is known by its own name. -/
theorem bind_action?_idem (action : Option String) :
    (action.bind action?).bind action? = action.bind action? := by
  have hall : ∀ a ∈ actions, action? a = some a := by decide
  cases h : action.bind action? with
  | none => rfl
  | some a =>
    obtain ⟨text, -, htext⟩ := Option.bind_eq_some_iff.1 h
    rw [Option.bind_some, hall a (mem_actions_of_action? htext)]

theorem actionClause_bind (event : String) (action : Option String) :
    actionClause event (action.bind action?) = actionClause event action := by
  rw [actionClause, actionClause, bind_action?_idem]

theorem isBlankString_nameFor (k : ForeignKey) (table : String) :
    Text.isBlankString (k.nameFor table) = false := by
  have hprefix : Text.isBlankString "fk_" = false := by decide
  refine Index.isBlankString_givenName ?_
  rw [String.append_assoc, String.append_assoc]
  exact Index.isBlankString_append hprefix _

/-- **What a rendered foreign key is read as is rendered in the same way.** -/
theorem rendered_read (options : RenderOptions) (h : k.isComplete = true) :
    (k.read table).rendered options table = k.rendered options table := by
  have hname : (k.read table).nameFor table = k.nameFor table := by
    have hblank := isBlankString_nameFor k table
    show givenName (some (k.nameFor table)) _ = _
    simp [givenName, hblank]
  have hupdate : actionClause "ON UPDATE" (k.read table).onUpdate =
      actionClause "ON UPDATE" k.onUpdate := actionClause_bind _ _
  have hdelete : actionClause "ON DELETE" (k.read table).onDelete =
      actionClause "ON DELETE" k.onDelete := actionClause_bind _ _
  unfold rendered
  rw [hname, hupdate, hdelete, referencedColumns_read h]
  rfl

end ForeignKey

namespace Table

variable {d : Dialect} {t t' : Table}

theorem columns_ne_nil_of_mem_completeKeys : ∀ k ∈ t.completeKeys, k.columns ≠ [] :=
  fun _ hk => ForeignKey.columns_ne_nil_of_isComplete (List.mem_filter.1 hk).2

theorem isCovering_allIndexes (t : Table) :
    Index.IsCovering (Index.keySignatures t.renderedKey) t.allIndexes :=
  Index.isCovering_emitted _ _ _ columns_ne_nil_of_mem_completeKeys

/-- The foreign keys that are rendered are read as foreign keys. -/
theorem filterMap_foreignKey?_constraints (d : Dialect) (t : Table) :
    (t.constraints d).filterMap Constraint.foreignKey? =
      t.completeKeys.map (ForeignKey.read t.name) := by
  have hkey : (if 1 < t.renderedKey.length then [Constraint.primaryKey t.renderedKey]
      else []).filterMap Constraint.foreignKey? = [] := by
    split <;> rfl
  have hindexes : (if d.hasInlineIndexes then t.allIndexes.map fun i =>
      Constraint.ofIndex i.unique (some (i.name.getD "")) i.columns else []).filterMap
        Constraint.foreignKey? = [] := by
    split
    · rw [List.filterMap_map, List.filterMap_eq_nil_iff]
      intro i _
      show (Constraint.ofIndex i.unique _ _).foreignKey? = none
      cases i.unique <;> rfl
    · rfl
  rw [constraints, List.filterMap_append, List.filterMap_append, hkey, hindexes,
    List.nil_append, List.append_nil, List.filterMap_map]
  exact congrFun List.filterMap_eq_map _

/-- The indexes that are rendered in the body are read as indexes. -/
theorem filterMap_index?_constraints (d : Dialect) (t : Table) :
    (t.constraints d).filterMap Constraint.index? =
      if d.hasInlineIndexes then t.allIndexes else [] := by
  have hkey : (if 1 < t.renderedKey.length then [Constraint.primaryKey t.renderedKey]
      else []).filterMap Constraint.index? = [] := by
    split <;> rfl
  have hforeign : (t.completeKeys.map fun k =>
      Constraint.foreignKey (some (k.nameFor t.name)) k.columns k.target).filterMap
        Constraint.index? = [] := by
    rw [List.filterMap_map, List.filterMap_eq_nil_iff]
    exact fun _ _ => rfl
  have hone : ∀ i ∈ t.allIndexes,
      (Constraint.ofIndex i.unique (some (i.name.getD "")) i.columns).index? = some i := by
    intro i hi
    obtain ⟨n, hn, -⟩ := (isCovering_allIndexes t).named i hi
    obtain ⟨name, columns, unique⟩ := i
    cases hn
    cases unique <;> rfl
  rw [constraints, List.filterMap_append, List.filterMap_append, hkey, hforeign, List.nil_append,
    List.nil_append]
  split
  · rw [List.filterMap_map]
    refine (List.filterMap_congr fun i hi => ?_).trans List.filterMap_some
    exact hone i hi
  · rfl

/-- What is read from a rendered table, with all that is rendered for it. -/
structure IsReadFrom (d : Dialect) (t' t : Table) : Prop where
  name : t'.name = t.name
  columns : t'.columns.map Column.unflagged = t.columns.map fun c => c.described d (t.role c)
  key : t'.renderedKey = t.renderedKey
  foreignKeys : t'.foreignKeys = t.completeKeys.map (ForeignKey.read t.name)
  indexes : t'.indexes = t.allIndexes

namespace IsReadFrom

variable (h : t'.IsReadFrom d t)
include h

theorem completeKeys : t'.completeKeys = t.completeKeys.map (ForeignKey.read t.name) := by
  rw [Table.completeKeys, h.foreignKeys]
  refine List.filter_eq_self.2 fun k hk => ?_
  obtain ⟨k', hk', rfl⟩ := List.mem_map.1 hk
  exact ForeignKey.isComplete_read (List.mem_filter.1 hk').2

theorem allIndexes : t'.allIndexes = t.allIndexes := by
  have hcolumns : t'.completeKeys.map ForeignKey.columns =
      t.completeKeys.map ForeignKey.columns := by
    rw [h.completeKeys, List.map_map]
    rfl
  rw [Table.allIndexes, h.name, h.key, h.indexes]
  exact Index.emitted_emitted _ _ _ columns_ne_nil_of_mem_completeKeys hcolumns

/-- The columns that are read are rendered as they were, in the same key. -/
theorem columnItems (ht : t.IsSettled d) : t'.columnItems d = t.columnItems d := by
  have hunflagged : ∀ cs : List Column,
      cs.map (fun c => c.rendered d (.inKey t.renderedKey c.name)) =
        (cs.map Column.unflagged).map fun c => c.rendered d (.inKey t.renderedKey c.name) := by
    intro cs
    rw [List.map_map]
    rfl
  rw [Table.columnItems, Table.columnItems, h.key, hunflagged, h.columns, List.map_map]
  exact List.map_congr_left fun c hc => Column.rendered_described (ht.columns c hc)

theorem createStatement (ht : t.IsSettled d) :
    t'.createStatement { dialect := d } = t.createStatement { dialect := d } := by
  have hheader : t'.headerText d = t.headerText d := by
    rw [headerText, headerText, h.name]
  have hkey : t'.keyItems d = t.keyItems d := by
    rw [keyItems, keyItems, h.key]
  have hforeign : t'.foreignKeyItems { dialect := d } = t.foreignKeyItems { dialect := d } := by
    show t'.completeKeys.map (ForeignKey.rendered _ t'.name) =
      t.completeKeys.map (ForeignKey.rendered _ t.name)
    rw [h.completeKeys, h.name, List.map_map]
    refine List.map_congr_left fun k hk => ?_
    exact ForeignKey.rendered_read _ (List.mem_filter.1 hk).2
  have hindexes : t'.indexItems { dialect := d } = t.indexItems { dialect := d } := by
    have hall : t'.emittedIndexes { dialect := d } = t.emittedIndexes { dialect := d } :=
      h.allIndexes
    rw [indexItems, indexItems, hall]
  rw [Table.createStatement, Table.createStatement, bodyItems, bodyItems, hheader, hforeign,
    hindexes, hkey, h.columnItems ht]

/-- The descriptions that are read are rendered as they were. -/
theorem descriptionStatements : t'.descriptionStatements d = t.descriptionStatements d := by
  rw [Table.descriptionStatements, Table.descriptionStatements]
  split
  · rename_i hd
    have hunflagged : ∀ cs : List Column,
        cs.filterMap (fun c => c.visibleDescription?.map (t'.descriptionStatement d c)) =
          (cs.map Column.unflagged).filterMap fun c =>
            c.visibleDescription?.map (t'.descriptionStatement d c) := by
      intro cs
      rw [List.filterMap_map]
      rfl
    rw [hunflagged, h.columns, List.filterMap_map]
    refine List.filterMap_congr fun c _ => ?_
    have hvisible : (c.described d (t.role c)).visibleDescription? = c.visibleDescription? :=
      Column.visibleDescription?_described (by rw [hd]; rfl)
    have hstatement (text : String) :
        t'.descriptionStatement d (c.described d (t.role c)) text =
          t.descriptionStatement d c text := by
      unfold descriptionStatement
      rw [h.name, Column.name_described]
    rw [Function.comp_apply, hvisible, funext hstatement]
  · rfl

/-- **A table that was read from a rendered one is rendered in the same way.** -/
theorem renderedStatements (ht : t.IsSettled d) :
    t'.renderedStatements { dialect := d } = t.renderedStatements { dialect := d } := by
  have hindexes : t'.indexStatements { dialect := d } = t.indexStatements { dialect := d } := by
    have hall : t'.emittedIndexes { dialect := d } = t.emittedIndexes { dialect := d } :=
      h.allIndexes
    rw [indexStatements, indexStatements, hall, h.name]
  rw [Table.renderedStatements, Table.renderedStatements, h.createStatement ht, hindexes,
    h.descriptionStatements]

theorem renderedText (ht : t.IsSettled d) :
    t'.renderedText { dialect := d } = t.renderedText { dialect := d } := by
  rw [Table.renderedText, Table.renderedText, h.renderedStatements ht]

end IsReadFrom

end Table
end SchemaScript
