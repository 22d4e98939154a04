import Mathlib.Data.List.Forall2
import SchemaScript.Proofs.Render.Parts
import SchemaScript.Proofs.Text.Respacing

/-!
# What becomes of foreign keys

A foreign key that has columns, a table to refer to and as many columns there is rendered as one
clause; any other one is reported and not rendered. In a clause an action is written if it is a
known one, however its words are spaced and whatever their case (`ForeignKey.Spells`); an action
that is neither known nor blank is reported with its text.

`ForeignKey.ActionAccount` says this of one action and `ForeignKey.KeyAccount` of one key. Every
key of a table has an account, and the clauses and notices of the table are those of the accounts
(`Table.exists_keyAccounts`).
-/

namespace SchemaScript
namespace ForeignKey

variable {options : RenderOptions} {table constraint event text action : String}

/-! ## Actions -/

/-- A text spells an action if it has the words of the action, the case of ASCII letters aside. -/
def Spells (text action : String) : Prop :=
  (Text.words text.toList).map (·.map Char.toUpper) = Text.words action.toList

theorem map_intercalate (f : Char → Char) (sep : List Char) (ws : List (List Char)) :
    (sep.intercalate ws).map f = (sep.map f).intercalate (ws.map (·.map f)) := by
  induction ws with
  | nil => rfl
  | cons w ws ih =>
    cases ws with
    | nil => simp
    | cons v vs =>
      rw [List.intercalate_cons_cons, List.map_append, List.map_append, ih]
      exact List.intercalate_cons_cons.symm

theorem toList_normalAction (text : String) :
    (normalAction text).toList =
      [' '].intercalate ((Text.words text.toList).map (·.map Char.toUpper)) := by
  have hwords : ((Text.words text.toList).map String.ofList).map String.toList =
      Text.words text.toList := by
    simp [Function.comp_def]
  rw [normalAction, Text.toList_upper, String.toList_intercalate, hwords, map_intercalate]
  rfl

/-- The normal spelling of an action has the words of the text in upper case. -/
theorem words_normalAction (text : String) : Text.words (normalAction text).toList =
    (Text.words text.toList).map (·.map Char.toUpper) := by
  rw [toList_normalAction]
  refine Text.words_intercalate fun w hw => ?_
  obtain ⟨v, hv, rfl⟩ := List.mem_map.1 hw
  rw [Text.words_map Text.isBlank_toUpper, Text.words_of_mem_words hv, List.map_singleton]

/-- The known actions are their words with single spaces between them. -/
theorem toList_of_mem_actions (h : action ∈ actions) :
    action.toList = [' '].intercalate (Text.words action.toList) := by
  have hall : ∀ a ∈ actions, a.toList = [' '].intercalate (Text.words a.toList) := by decide
  exact hall action h

/-- The normal spelling of an action is the action exactly if the text spells it. -/
theorem normalAction_eq_iff (h : action ∈ actions) :
    normalAction text = action ↔ Spells text action := by
  rw [Spells]
  constructor
  · intro heq
    rw [← words_normalAction, heq]
  · intro hspells
    rw [← String.toList_inj, toList_normalAction, hspells, ← toList_of_mem_actions h]

/-- **The known action that a text spells.** -/
theorem action?_eq_some_iff :
    action? text = some action ↔ action ∈ actions ∧ Spells text action := by
  rw [action?]
  constructor
  · intro h
    split at h
    · rename_i hmem
      obtain rfl := Option.some.inj h
      have haction : normalAction text ∈ actions := List.contains_iff_mem.1 hmem
      exact ⟨haction, (normalAction_eq_iff haction).1 rfl⟩
    · cases h
  · rintro ⟨haction, hspells⟩
    rw [(normalAction_eq_iff haction).2 hspells, if_pos (List.contains_iff_mem.2 haction)]

/-- What becomes of the action on an event: the parts of the clause that it makes up, and what is
reported of it. -/
inductive ActionAccount (table constraint event : String) :
    Option String → List String → List Notice → Prop where
  | absent : ActionAccount table constraint event none [] []
  | blank {text : String} (blank : Text.isBlankString text = true) :
      ActionAccount table constraint event (some text) [] []
  | known {text action : String} (known : action ∈ actions) (spells : Spells text action) :
      ActionAccount table constraint event (some text) [event ++ " " ++ action] []
  | unknown {text : String} (blank : Text.isBlankString text = false)
      (unknown : ∀ action ∈ actions, ¬ Spells text action) :
      ActionAccount table constraint event (some text) []
        [.invalidAction table constraint text]

/-- The part of a clause for an action. -/
def actionParts (event : String) (action : Option String) : List String :=
  ((action.bind action?).map fun a => event ++ " " ++ a).toList

/-- **Every action is written, blank or reported.** -/
theorem actionAccount (table constraint event : String) (action : Option String) :
    ActionAccount table constraint event action (actionParts event action)
      (actionNotices table constraint action) := by
  cases action with
  | none => exact .absent
  | some text =>
    rw [actionParts, Option.bind_some, actionNotices]
    cases hspelled : action? text with
    | some a =>
      obtain ⟨ha, hspells⟩ := action?_eq_some_iff.1 hspelled
      rw [Option.isSome_some, Bool.or_true]
      exact .known ha hspells
    | none =>
      have hunknown : ∀ a ∈ actions, ¬ Spells text a := by
        intro a ha hspells
        rw [action?_eq_some_iff.2 ⟨ha, hspells⟩] at hspelled
        cases hspelled
      rw [Option.isSome_none, Bool.or_false]
      cases hblank : Text.isBlankString text with
      | true => exact .blank hblank
      | false => exact .unknown hblank hunknown

/-! ## Keys -/

/-- The text of a key in front of its actions. -/
def reference (d : Dialect) (table : String) (k : ForeignKey) : String :=
  "CONSTRAINT " ++ d.quoteColumn (k.nameFor table) ++
    " FOREIGN KEY (" ++ d.quoteColumns k.columns ++
    ") REFERENCES " ++ d.quoteTable k.referencedTable ++
    "(" ++ d.quoteColumns k.referencedColumns ++ ")"

/-- The words for a check at the end of the transaction, which PostgreSQL alone has. -/
def deferral (options : RenderOptions) : List String :=
  if options.dialect = .postgresql ∧ options.deferrable = true then
    ["DEFERRABLE INITIALLY DEFERRED"]
  else []

/-- What becomes of a foreign key: its clauses, of which there is one or none, and what is reported
of it. -/
inductive KeyAccount (options : RenderOptions) (table : String) :
    ForeignKey → List String → List Notice → Prop where
  | complete {k : ForeignKey} {updates deletes : List String}
      {updateNotices deleteNotices : List Notice} (columns : k.columns ≠ [])
      (target : Text.isBlankString k.referencedTable = false)
      (pairs : k.referencedColumns.length = k.columns.length)
      (update : ActionAccount table (k.nameFor table) "ON UPDATE" k.onUpdate updates updateNotices)
      (delete : ActionAccount table (k.nameFor table) "ON DELETE" k.onDelete deletes deleteNotices) :
      KeyAccount options table k
        [" ".intercalate
          (k.reference options.dialect table :: (updates ++ deletes ++ deferral options))]
        (updateNotices ++ deleteNotices)
  | incomplete {k : ForeignKey}
      (incomplete : k.columns = [] ∨ Text.isBlankString k.referencedTable = true ∨
        k.referencedColumns.length ≠ k.columns.length) :
      KeyAccount options table k [] [.incompleteForeignKey table (k.nameFor table)]

theorem intercalate_concat (first last : String) (parts : List String) :
    " ".intercalate (first :: (parts ++ [last])) =
      " ".intercalate (first :: parts) ++ (" " ++ last) := by
  induction parts generalizing first with
  | nil =>
    rw [List.nil_append, String.intercalate_cons_cons, String.intercalate_singleton,
      String.intercalate_singleton, String.append_assoc]
  | cons part parts ih =>
    rw [List.cons_append, String.intercalate_cons_cons, ih, String.intercalate_cons_cons,
      String.append_assoc, String.append_assoc, String.append_assoc]

/-- The clause of an action stands behind a space. -/
theorem intercalate_append_actionParts (first : String) (parts : List String) (event : String)
    (action : Option String) :
    " ".intercalate (first :: (parts ++ actionParts event action)) =
      " ".intercalate (first :: parts) ++ actionClause event action := by
  rw [actionParts, actionClause]
  cases action.bind action? with
  | none => rw [Option.map_none, Option.toList_none, List.append_nil, String.append_empty]
  | some a =>
    rw [Option.map_some, Option.toList_some, intercalate_concat]
    simp only [String.append_assoc]

theorem intercalate_append_deferral (first : String) (parts : List String)
    (options : RenderOptions) :
    " ".intercalate (first :: (parts ++ deferral options)) =
      " ".intercalate (first :: parts) ++
        if options.deferrable && options.dialect.hasDeferrableKeys then
          " DEFERRABLE INITIALLY DEFERRED"
        else "" := by
  have hdialect : options.dialect.hasDeferrableKeys = true ↔ options.dialect = .postgresql := by
    cases options.dialect <;> decide
  have hdeferral : (options.deferrable && options.dialect.hasDeferrableKeys) = true ↔
      options.dialect = .postgresql ∧ options.deferrable = true := by
    rw [Bool.and_eq_true, hdialect, and_comm]
  rw [deferral]
  by_cases h : options.dialect = .postgresql ∧ options.deferrable = true
  · rw [if_pos h, if_pos (hdeferral.2 h), intercalate_concat]
    rfl
  · rw [if_neg h, if_neg (mt hdeferral.1 h), List.append_nil, String.append_empty]

/-- A complete key is rendered as its parts with spaces between them. -/
theorem rendered_eq (options : RenderOptions) (table : String) (k : ForeignKey) :
    k.rendered options table =
      " ".intercalate (k.reference options.dialect table ::
        (actionParts "ON UPDATE" k.onUpdate ++ actionParts "ON DELETE" k.onDelete ++
          deferral options)) := by
  have hupdate := intercalate_append_actionParts (k.reference options.dialect table) [] "ON UPDATE"
    k.onUpdate
  rw [List.nil_append, String.intercalate_singleton] at hupdate
  rw [intercalate_append_deferral, intercalate_append_actionParts, hupdate]
  unfold rendered
  rfl

/-- The clauses of a key: one if it is complete, none otherwise. -/
def clauses (options : RenderOptions) (table : String) (k : ForeignKey) : List String :=
  if k.isComplete then [k.rendered options table] else []

theorem isComplete_iff {k : ForeignKey} : k.isComplete = true ↔
    k.columns ≠ [] ∧ Text.isBlankString k.referencedTable = false ∧
      k.referencedColumns.length = k.columns.length := by
  simp [isComplete, and_assoc]

/-- **Every key is rendered or reported.** -/
theorem keyAccount (options : RenderOptions) (table : String) (k : ForeignKey) :
    KeyAccount options table k (k.clauses options table) (k.notices table) := by
  rw [clauses, notices]
  by_cases h : k.isComplete = true
  · rw [if_pos h, if_pos h, rendered_eq]
    obtain ⟨hcolumns, htarget, hpairs⟩ := isComplete_iff.1 h
    exact .complete hcolumns htarget hpairs (actionAccount _ _ _ _) (actionAccount _ _ _ _)
  · rw [if_neg h, if_neg h]
    refine .incomplete ?_
    rw [isComplete_iff] at h
    by_contra hnone
    obtain ⟨hcolumns, htarget, hpairs⟩ : k.columns ≠ [] ∧
        Text.isBlankString k.referencedTable ≠ true ∧
          k.referencedColumns.length = k.columns.length := by
      simpa [not_or] using hnone
    exact h ⟨hcolumns, Bool.eq_false_iff.2 htarget, hpairs⟩

end ForeignKey

namespace Table

open ForeignKey (KeyAccount)

variable {options : RenderOptions}

theorem foreignKeyItems_eq (hincluded : options.foreignKeys = true) (t : Table) :
    t.foreignKeyItems options = t.foreignKeys.flatMap (ForeignKey.clauses options t.name) := by
  rw [foreignKeyItems, emittedForeignKeys, if_pos hincluded]
  induction t.foreignKeys with
  | nil => rfl
  | cons k ks ih =>
    rw [List.flatMap_cons, ← ih, ForeignKey.clauses]
    by_cases h : k.isComplete = true
    · rw [List.filter_cons_of_pos h, if_pos h]
      rfl
    · rw [List.filter_cons_of_neg h, if_neg h]
      rfl

/-- **Every foreign key and every action is accounted for.** Each key has an account, in order: a
complete one has a clause with those of its actions that are known, and notices of those that are
not; any other one has a notice of its own and no clause. The clauses of the body and the notices
about foreign keys are those of the accounts. -/
theorem exists_keyAccounts (hincluded : options.foreignKeys = true) (t : Table) :
    ∃ accounts : List (List String × List Notice),
      List.Forall₂ (fun k a => KeyAccount options t.name k a.1 a.2) t.foreignKeys accounts ∧
      (t.itemsBehindColumns options).filter (Text.begins "CONSTRAINT ") =
        accounts.flatMap Prod.fst ∧
      (t.notices options).filter Notice.isOfForeignKey = accounts.flatMap Prod.snd := by
  refine ⟨t.foreignKeys.map fun k => (k.clauses options t.name, k.notices t.name), ?_, ?_, ?_⟩
  · rw [List.forall₂_map_right_iff, List.forall₂_same]
    exact fun k _ => k.keyAccount options t.name
  · rw [filter_foreignKeyItem, foreignKeyItems_eq hincluded, List.flatMap_map]
  · rw [filter_isOfForeignKey hincluded, List.flatMap_map]

/-- A table with a key whose actions are spaced and spelled oddly, one of them unknown, and with a
key that refers to too few columns. -/
def referringTable : Table where
  name := "t"
  columns := [{ name := "a", dataType := "INT" }, { name := "b", dataType := "INT" }]
  foreignKeys :=
    [{ columns := ["a"], referencedTable := "u", referencedColumns := ["id"],
       onUpdate := some " set\t null", onDelete := some "explode" },
     { columns := ["a", "b"], referencedTable := "v", referencedColumns := ["id"] }]

theorem exists_keyAccounts_referringTable :
    ({ dialect := .postgresql, deferrable := true } : RenderOptions).foreignKeys = true ∧
    ∃ accounts : List (List String × List Notice),
      List.Forall₂ (fun k a =>
        KeyAccount { dialect := .postgresql, deferrable := true } "t" k a.1 a.2)
          referringTable.foreignKeys accounts ∧
      ["CONSTRAINT fk_t_a FOREIGN KEY (a) REFERENCES \"u\"(id) ON UPDATE SET NULL " ++
        "DEFERRABLE INITIALLY DEFERRED"] = accounts.flatMap Prod.fst ∧
      [.invalidAction "t" "fk_t_a" "explode", .incompleteForeignKey "t" "fk_t_a"] =
        accounts.flatMap Prod.snd := by
  have hincluded :
      ({ dialect := .postgresql, deferrable := true } : RenderOptions).foreignKeys = true := rfl
  obtain ⟨accounts, hkeys, hclauses, hnotices⟩ := exists_keyAccounts hincluded referringTable
  refine ⟨hincluded, accounts, hkeys, hclauses ▸ ?_, hnotices ▸ ?_⟩
  · decide +kernel
  · decide +kernel

end Table
end SchemaScript
