import SchemaScript.Proofs.Definition.Body
import SchemaScript.Proofs.Definition.Clauses
import SchemaScript.Proofs.Render.Names
import SchemaScript.Render.Index

/-!
# Rendered constraints as items

The text of a key, an index or a foreign key is the print of the tokens that
`Constraint.keyTokens` and its like give, and these are an item of a body
(`TableDefinition.Item.Writes`). Indexes are items only in MySQL and MariaDB. Where names are not
quoted, the name of a foreign key stands at a place where a word for the kind of a constraint, or a
word for a type, would be taken for something else (`Dialect.IsConstraintName`).
-/

namespace SchemaScript

open Reader Token TableDefinition

section Names

variable {d : Dialect} {n : String} {names : List String}

theorem isFlat_nameTokens (d : Dialect) (names : List String) :
    IsFlat (nameTokens d.nameToken names) := by
  have hname : ∀ n, (d.nameToken n).isMark .openParen = false ∧
      (d.nameToken n).isMark .closeParen = false := fun n =>
    ⟨isMark_of_wordText? (d.wordText?_nameToken n) _,
      isMark_of_wordText? (d.wordText?_nameToken n) _⟩
  induction names with
  | nil => exact fun _ ht => absurd ht List.not_mem_nil
  | cons n names ih =>
    cases names with
    | nil =>
      intro t ht
      rw [List.mem_singleton.1 ht]
      exact hname n
    | cons m names =>
      intro t ht
      rw [nameTokens] at ht
      rcases List.mem_cons.1 ht with rfl | ht
      · exact hname n
      rcases List.mem_cons.1 ht with rfl | ht
      · exact ⟨rfl, rfl⟩
      rcases List.mem_cons.1 ht with rfl | ht
      · exact ⟨rfl, rfl⟩
      · exact ih t ht

/-- Names in parentheses can stand in front of what begins with a separator. -/
theorem spaced_parens (h : ∀ n ∈ names, d.IsNameable n) {ts : List Token} (hts : Spaced ts) :
    Spaced (.mark .openParen :: (nameTokens d.nameToken names ++ .mark .closeParen :: ts)) :=
  ((Dialect.spaced_nameTokens h).between rfl hts).cons rfl

end Names

/-! ## Keys and indexes -/

/-- The words of rendered constraints. -/
def constraintWords : List String :=
  ["PRIMARY", "KEY", "UNIQUE", "INDEX", "CONSTRAINT", "FOREIGN", "REFERENCES", "ON", "UPDATE",
    "DELETE", "NO", "ACTION", "SET", "NULL", "DEFAULT", "RESTRICT", "CASCADE"]

theorem isAtom_constraintWord {w : String} (hw : w ∈ constraintWords) : (Token.word w).IsAtom := by
  have hall : ∀ w ∈ constraintWords, (Token.word w).ReadsBack := by decide
  exact isAtom_word (hall w hw)

/-- A word with a space behind it can stand in front of spaced tokens. -/
theorem spaced_word_space {w : String} (hw : w ∈ constraintWords) {ts : List Token}
    (hts : Spaced ts) : Spaced (.word w :: .blank .space :: ts) :=
  hts.atom_space (isAtom_constraintWord hw)

theorem isItem_parens (d : Dialect) (names : List String) {ts : List Token} (hts : IsItem ts) :
    IsItem (.mark .openParen :: (nameTokens d.nameToken names ++ .mark .closeParen :: ts)) :=
  .group (isFlat_nameTokens d names) hts

namespace Constraint

variable {d : Dialect} {names : List String}

/-- **A rendered key is an item.** -/
theorem writes_key (h : ∀ n ∈ names, d.IsNameable n) :
    Item.Writes ("PRIMARY KEY(" ++ d.quoteColumns names ++ ")")
      (.constraint (.primaryKey names)) := by
  have hkey : Spaced (.word "KEY" :: .mark .openParen ::
      (nameTokens d.nameToken names ++ [.mark .closeParen])) :=
    (spaced_parens h spaced_nil).cons_atom
      (isAtom_constraintWord (w := "KEY") (by simp [constraintWords])) (by simp [isSeparator])
  refine ⟨keyTokens d.nameToken names, ?_, ?_⟩
  · simp [keyTokens, Dialect.printAll_nameTokens h]
  refine writtenAs_constraint rfl (spaced_word_space (by simp [constraintWords]) hkey) ?_
    (by decide) ⟨rfl, by decide⟩ fun post _ => ?_
  · exact isItem_parens d names rfl
  · rw [run_keyTokens (fun n _ => d.wordText?_nameToken n)]

/-- In quotes no word is a keyword or the name of a type. -/
theorem nameToken_of_isMySqlFamily (hd : d.isMySqlFamily = true) (n : String) :
    d.nameToken n = .quotedWord .backtick n :=
  if_pos hd

/-- **A rendered index is an item** where indexes are rendered as items. -/
theorem writes_index (hd : d.isMySqlFamily = true) {i : Index} {n : String}
    (hn : i.name = some n) (hname : d.IsNameable n) (h : ∀ n ∈ i.columns, d.IsNameable n) :
    Item.Writes (i.renderedInline d) (.constraint (ofIndex i.unique (some n) i.columns)) := by
  have htoken := nameToken_of_isMySqlFamily hd n
  refine ⟨indexTokens i.unique (d.nameToken n) d.nameToken i.columns, ?_, ?_⟩
  · rw [Index.renderedInline, hn, Index.uniqueWord]
    cases i.unique <;>
      simp [indexTokens, Dialect.printAll_nameTokens h, Dialect.print_nameToken hname]
  have hbehind : Spaced (d.nameToken n :: .blank .space :: .mark .openParen ::
      (nameTokens d.nameToken i.columns ++ [.mark .closeParen])) :=
    (spaced_parens h spaced_nil).atom_space (Dialect.isAtom_nameToken hname)
  have hindex : Spaced (.word "INDEX" :: .blank .space :: d.nameToken n :: .blank .space ::
      .mark .openParen :: (nameTokens d.nameToken i.columns ++ [.mark .closeParen])) :=
    spaced_word_space (by simp [constraintWords]) hbehind
  have hclosed : IsItem (d.nameToken n :: .blank .space :: .mark .openParen ::
      (nameTokens d.nameToken i.columns ++ [.mark .closeParen])) := by
    rw [htoken]
    exact isItem_parens d i.columns rfl
  have hread : ∀ post, (reader.run
      (indexTokens i.unique (d.nameToken n) d.nameToken i.columns ++ post)).1 =
        some (ofIndex i.unique (some n) i.columns) := by
    intro post
    rw [run_indexTokens i.unique (d.wordText?_nameToken n) (by rw [htoken]; rfl)
      (by rw [htoken]; rfl) fun n _ => d.wordText?_nameToken n]
  cases hunique : i.unique with
  | false =>
    rw [hunique] at hread
    exact writtenAs_constraint rfl hindex hclosed (by decide) (by rw [htoken]; exact ⟨rfl, rfl⟩)
      fun post _ => hread post
  | true =>
    rw [hunique] at hread
    exact writtenAs_constraint rfl (spaced_word_space (by simp [constraintWords]) hindex) hclosed
      (by decide) ⟨rfl, by decide⟩ fun post _ => hread post

end Constraint

/-- Whether a name can be given to a constraint. Without quotes it must not be a word for the kind
of a constraint, nor a word for a type. -/
structure Dialect.IsConstraintName (d : Dialect) (n : String) : Prop where
  nameable : d.IsNameable n
  notKind : ["PRIMARY", "UNIQUE", "FOREIGN", "CHECK"].any (d.nameToken n).isKeyword = false
  notType : ColumnDefinition.isTypeWord (d.nameToken n) = false

theorem Dialect.isConstraintName_of_isMySqlFamily {d : Dialect} {n : String}
    (hd : d.isMySqlFamily = true) (h : d.IsNameable n) : d.IsConstraintName n := by
  have htoken := Constraint.nameToken_of_isMySqlFamily hd n
  refine ⟨h, ?_, ?_⟩
  · rw [htoken]
    rfl
  · rw [htoken]
    rfl

/-! ## Foreign keys -/

namespace ForeignKey

/-- What a foreign key refers to, with those of its actions that are known. -/
def target (k : ForeignKey) : Reference where
  table := k.referencedTable
  columns := k.referencedColumns
  onUpdate := k.onUpdate.bind action?
  onDelete := k.onDelete.bind action?

theorem mem_actions_of_action? {text a : String} (h : action? text = some a) : a ∈ actions := by
  unfold action? at h
  split at h
  · rename_i hmem
    rw [← Option.some.inj h]
    simpa using hmem
  · cases h

end ForeignKey

namespace Reference

variable {a : String}

theorem printAll_actionTokens (h : a ∈ ForeignKey.actions) :
    printAll (actionTokens a) = a.toList := by
  have hall : ∀ a ∈ ForeignKey.actions, printAll (actionTokens a) = a.toList := by decide
  exact hall a h

/-- The tokens of a known action are words with spaces between them. -/
theorem spaced_actionTokens (h : a ∈ ForeignKey.actions) : Spaced (actionTokens a) := by
  have hone : ∀ w ∈ constraintWords, Spaced [.word w] := fun w hw =>
    spaced_atom (isAtom_constraintWord hw)
  have hmem : a = "NO ACTION" ∨ a = "RESTRICT" ∨ a = "CASCADE" ∨ a = "SET NULL" ∨
      a = "SET DEFAULT" := by
    simpa [ForeignKey.actions] using h
  rcases hmem with rfl | rfl | rfl | rfl | rfl
  · exact spaced_word_space (by simp [constraintWords]) (hone "ACTION" (by simp [constraintWords]))
  · exact hone "RESTRICT" (by simp [constraintWords])
  · exact hone "CASCADE" (by simp [constraintWords])
  · exact spaced_word_space (by simp [constraintWords]) (hone "NULL" (by simp [constraintWords]))
  · exact spaced_word_space (by simp [constraintWords])
      (hone "DEFAULT" (by simp [constraintWords]))

theorem isItem_actionTokens (h : a ∈ ForeignKey.actions) : IsItem (actionTokens a) := by
  have hall : ∀ a ∈ ForeignKey.actions, IsItem (actionTokens a) := by decide
  exact hall a h

/-- The clause of an event is the print of its tokens. -/
theorem printAll_eventTokens (event : String) (action : Option String) :
    printAll (eventTokens event (action.bind ForeignKey.action?)) =
      (ForeignKey.actionClause ("ON " ++ event) action).toList := by
  rw [ForeignKey.actionClause]
  cases h : action.bind ForeignKey.action? with
  | none => rfl
  | some a =>
    obtain ⟨text, -, htext⟩ := Option.bind_eq_some_iff.1 h
    simp [eventTokens, printAll_actionTokens (ForeignKey.mem_actions_of_action? htext)]

theorem spaced_eventTokens {event : String} (hevent : event ∈ constraintWords)
    {action : Option String} (h : ∀ a ∈ action, a ∈ ForeignKey.actions) :
    Spaced (eventTokens event action) := by
  cases action with
  | none => exact spaced_nil
  | some a =>
    exact (spaced_word_space (by simp [constraintWords])
      (spaced_word_space hevent (spaced_actionTokens (h a rfl)))).cons rfl

theorem isItem_eventTokens (event : String) {action : Option String}
    (h : ∀ a ∈ action, a ∈ ForeignKey.actions) : IsItem (eventTokens event action) := by
  cases action with
  | none => rfl
  | some a => exact isItem_actionTokens (h a rfl)

end Reference

namespace ForeignKey

variable {d : Dialect} {k : ForeignKey} {table : String}

/-- The tokens of a rendered foreign key. -/
def tokens (d : Dialect) (table : String) (k : ForeignKey) : List Token :=
  Constraint.foreignKeyTokens (d.nameToken (k.nameFor table)) (d.tableToken k.referencedTable)
    d.nameToken k.columns k.target

/-- The names that are rendered with a foreign key can be read back. -/
structure IsNameable (d : Dialect) (table : String) (k : ForeignKey) : Prop where
  name : d.IsConstraintName (k.nameFor table)
  referencedTable : d.IsNameable k.referencedTable
  columns : ∀ n ∈ k.columns, d.IsNameable n
  referencedColumns : ∀ n ∈ k.referencedColumns, d.IsNameable n

/-- A rendered foreign key is the print of its tokens. -/
theorem printAll_tokens (h : k.IsNameable d table) :
    printAll (k.tokens d table) = (k.rendered { dialect := d } table).toList := by
  have hname := Dialect.print_nameToken h.name.nameable
  have htable := Dialect.print_tableToken h.referencedTable
  have hcolumns := Dialect.printAll_nameTokens h.columns
  have hreferenced := Dialect.printAll_nameTokens h.referencedColumns
  have hupdate := Reference.printAll_eventTokens "UPDATE" k.onUpdate
  have hdelete := Reference.printAll_eventTokens "DELETE" k.onDelete
  have htokens : printAll (k.tokens d table) = "CONSTRAINT ".toList ++
      ((d.nameToken (k.nameFor table)).print ++ (" FOREIGN KEY (".toList ++
        (printAll (nameTokens d.nameToken k.columns) ++ (") REFERENCES ".toList ++
          ((d.tableToken k.referencedTable).print ++ ('(' ::
            (printAll (nameTokens d.nameToken k.referencedColumns) ++ (')' ::
              (printAll (Reference.eventTokens "UPDATE" (k.onUpdate.bind action?)) ++
                printAll (Reference.eventTokens "DELETE" (k.onDelete.bind action?))))))))))) := by
    simp [tokens, Constraint.foreignKeyTokens, Reference.tokens, target]
  rw [htokens, hname, htable, hcolumns, hreferenced, hupdate, hdelete]
  unfold rendered
  dsimp only
  simp

theorem mem_actions_of_mem_bind {o : Option String} : ∀ a ∈ o.bind action?, a ∈ actions := by
  intro a ha
  obtain ⟨text, -, htext⟩ := Option.bind_eq_some_iff.1 ha
  exact mem_actions_of_action? htext

theorem spaced_tokens (h : k.IsNameable d table) : Spaced (k.tokens d table) := by
  have hevents : Spaced (Reference.eventTokens "UPDATE" k.target.onUpdate ++
      Reference.eventTokens "DELETE" k.target.onDelete) := by
    refine (Reference.spaced_eventTokens (by simp [constraintWords])
      mem_actions_of_mem_bind).append (Reference.spaced_eventTokens (by simp [constraintWords])
        mem_actions_of_mem_bind) fun u hu => ?_
    cases hdelete : k.target.onDelete with
    | none =>
      rw [hdelete] at hu
      cases hu
    | some a =>
      rw [hdelete] at hu
      rw [← Option.some.inj hu]
      rfl
  have htarget : Spaced (k.target.tokens (d.tableToken k.referencedTable) d.nameToken) :=
    (spaced_parens h.referencedColumns hevents).cons_atom
      (Dialect.isAtom_tableToken h.referencedTable) (by simp [isSeparator])
  have hreferences : Spaced (.blank .space :: .word "REFERENCES" :: .blank .space ::
      k.target.tokens (d.tableToken k.referencedTable) d.nameToken) :=
    (spaced_word_space (by simp [constraintWords]) htarget).cons rfl
  exact spaced_word_space (by simp [constraintWords])
    ((spaced_word_space (by simp [constraintWords])
      (spaced_word_space (by simp [constraintWords])
        (spaced_parens h.columns hreferences))).atom_space
          (Dialect.isAtom_nameToken h.name.nameable))

theorem isItem_tokens (d : Dialect) (table : String) (k : ForeignKey) :
    IsItem (k.tokens d table) := by
  have hname : ∀ {t : Token} {n : String} {ts : List Token}, t.wordText? = some n → IsItem ts →
      IsItem (t :: ts) := fun ht hts => .cons (fun m _ => isMark_of_wordText? ht m) hts
  have hword : ∀ {w : String} {ts : List Token}, IsItem ts →
      IsItem (.word w :: .blank .space :: ts) := fun hts =>
    .cons (fun _ _ => rfl) (.cons (fun _ _ => rfl) hts)
  have htarget : IsItem (k.target.tokens (d.tableToken k.referencedTable) d.nameToken) :=
    hname (d.wordText?_tableToken _) (isItem_parens d k.referencedColumns
      ((Reference.isItem_eventTokens "UPDATE" mem_actions_of_mem_bind).append
        (Reference.isItem_eventTokens "DELETE" mem_actions_of_mem_bind)))
  have hkey := hword (w := "FOREIGN") (hword (w := "KEY") (isItem_parens d k.columns
    (.cons (t := .blank .space) (fun _ _ => rfl) (hword (w := "REFERENCES") htarget))))
  exact hword (hname (d.wordText?_nameToken _) (.cons (fun _ _ => rfl) hkey))

/-- **A rendered foreign key is an item.** -/
theorem writes_foreignKey (h : k.IsNameable d table) :
    Item.Writes (k.rendered { dialect := d } table)
      (.constraint (.foreignKey (some (k.nameFor table)) k.columns k.target)) := by
  have hblank : (d.nameToken (k.nameFor table)).isBlank = false :=
    isBlank_of_wordText? (d.wordText?_nameToken _)
  have hread : ∀ post, AllBlank post → Constraint.reader.run (k.tokens d table ++ post) =
      (some (.foreignKey (some (k.nameFor table)) k.columns k.target), []) := fun post hpost =>
    Constraint.run_foreignKeyTokens k.target (d.wordText?_nameToken _) h.name.notKind
      (fun n _ => d.wordText?_nameToken n) (d.wordText?_tableToken _)
      (fun n _ => d.wordText?_nameToken n) mem_actions_of_mem_bind mem_actions_of_mem_bind
      hpost.dropWhile
  refine ⟨k.tokens d table, printAll_tokens h, ?_⟩
  exact writtenAs_constraint rfl (spaced_tokens h) (isItem_tokens d table k) (by decide)
    ⟨hblank, h.name.notType⟩ fun post hpost => congrArg Prod.fst (hread post hpost)

end ForeignKey
end SchemaScript
