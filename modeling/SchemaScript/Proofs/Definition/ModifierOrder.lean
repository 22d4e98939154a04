import Mathlib.Data.List.Nodup
import SchemaScript.Proofs.Definition.Attributes
import SchemaScript.Proofs.Token.Newline

/-!
# The order of the modifiers of a column

The modifiers of a column may stand in any order: two texts with the same head and the same
modifiers, of which no two are of one kind, define the same column
(`ColumnDefinition.ofText?_eq_of_perm`).

Two things come together. Modifiers in a row are read one by one, whichever stand next to each
other, so the column is what they say about it in turn (`SpellsColumn.ofText?_eq`). And what
modifiers of different kinds say can be said in any order (`Attribute.apply_comm`), although two
of them write to one field: a default that is the next value of a sequence makes the column count
up, as the word for a counting column does.

Which texts are meant is said by their tokens (`SpellsColumn`). Texts of single modifiers with
spaces between them are among these in every order (`spellsColumn_intercalate`).
-/

namespace SchemaScript
namespace ColumnDefinition

open Reader
open Token (AllBlank tokenize)

namespace Attribute

/-- **What modifiers of different kinds say can be said in any order.** -/
theorem apply_comm {a b : Attribute} (h : a.kind ≠ b.kind) (d : ColumnDefinition) :
    b.apply (a.apply d) = a.apply (b.apply d) := by
  have hdefault : ∀ value, ∀ c : Attribute, c.kind ≠ .default →
      c.apply (applyDefault d (DefaultClause.ofText value)) =
        applyDefault (c.apply d) (DefaultClause.ofText value) := by
    intro value c hc
    cases DefaultClause.ofText value <;> cases c <;> first | rfl | exact absurd rfl hc
  cases a with
  | default value => exact hdefault value b (Ne.symm h)
  | _ =>
    cases b with
    | default value => exact (hdefault value _ h).symm
    | _ => first | rfl | exact absurd rfl h

/-- Modifiers that are all of different kinds say the same in any order. -/
theorem foldl_apply_eq_of_perm {as as' : List Attribute} (hkinds : (as.map kind).Nodup)
    (h : as.Perm as') (d : ColumnDefinition) : as.foldl apply d = as'.foldl apply d := by
  refine h.foldl_eq' (fun a ha b hb d => ?_) d
  by_cases hab : a.kind = b.kind
  · rw [List.inj_on_of_nodup_map hkinds ha hb hab]
  · exact (apply_comm hab d)

end Attribute

/-! ## The whole column -/

/-- The tokens of the text are the head of a column and its modifiers. -/
def SpellsColumn (text : String) (d : ColumnDefinition) (as : List Attribute) : Prop :=
  ∃ hs ms, tokenize text.toList = some (hs ++ ms) ∧ IsHead hs d ∧ Attribute.AreSpelled ms as

variable {text text' : String} {d : ColumnDefinition} {as as' : List Attribute}

/-- Behind a head the modifiers change the definition in turn. -/
theorem IsHead.ofTokens?_append {hs ms : List Token} (hhead : IsHead hs d)
    (hms : Attribute.AreSpelled ms as) :
    ofTokens? (hs ++ ms) = some (as.foldl Attribute.apply d) := by
  obtain ⟨more, hmore, hrun⟩ := hhead.run_append hms.begins.1
  have hread : reader.run (hs ++ ms) = (some (as.foldl Attribute.apply d), []) := by
    rw [reader_eq, run_bind_of_some hrun]
    exact hms.run_modifiers d hmore.dropWhile_eq
  exact congrArg Prod.fst hread

/-- A column is what its modifiers say about it in turn. -/
theorem SpellsColumn.ofText?_eq (h : SpellsColumn text d as) :
    ofText? text = some (as.foldl Attribute.apply d) := by
  obtain ⟨hs, ms, htext, hhead, hms⟩ := h
  rw [ofText?, htext]
  exact hhead.ofTokens?_append hms

/-- Texts of a head and of single modifiers, with a space in front of each modifier, are a
column. -/
theorem spellsColumn_intercalate {column : String} {hs : List Token}
    (hcolumn : tokenize column.toList = some hs) (hlast : ∀ t ∈ hs.getLast?, t.isBlank = false)
    (hhead : IsHead hs d) {ps : List (String × Attribute)}
    (hps : ∀ p ∈ ps, ∃ ts, tokenize p.1.toList = some ts ∧
      (∀ t ∈ ts.getLast?, t.isBlank = false) ∧ p.2.Spells ts) :
    SpellsColumn (" ".intercalate (column :: ps.map Prod.fst)) d (ps.map Prod.snd) := by
  have hall : ∀ {first : String} {ts : List Token}, tokenize first.toList = some ts →
      (∀ t ∈ ts.getLast?, t.isBlank = false) → ∃ ms,
        tokenize (" ".intercalate (first :: ps.map Prod.fst)).toList = some (ts ++ ms) ∧
          Attribute.AreSpelled ms (ps.map Prod.snd) := by
    induction ps with
    | nil =>
      intro first ts hfirst _
      refine ⟨[], ?_, .done nofun⟩
      rw [List.map_nil, String.intercalate_singleton, List.append_nil, hfirst]
    | cons p ps ih =>
      intro first ts hfirst hlast
      obtain ⟨us, hus, hlast', hspells⟩ := hps p List.mem_cons_self
      obtain ⟨ms, hms, hrest⟩ := ih (fun p' hp' => hps p' (List.mem_cons_of_mem _ hp')) hus hlast'
      refine ⟨.blank .space :: (us ++ ms), ?_,
        .blank_cons (.next Token.allBlank_nil hspells hrest) rfl⟩
      have hspace : (" " : String).toList = [' '] := rfl
      rw [List.map_cons, String.intercalate_cons_cons, String.toList_append, String.toList_append,
        hspace, List.append_assoc, List.singleton_append,
        Token.tokenize_append_space hfirst hlast, hms]
      rfl
  obtain ⟨ms, hms, hspelled⟩ := hall hcolumn hlast
  exact ⟨hs, ms, hms, hhead, hspelled⟩

/-- **The modifiers of a column may stand in any order.** Texts with one head and the same
modifiers, of which no two are of one kind, define the same column, and they do define one. -/
theorem ofText?_eq_of_perm (h : SpellsColumn text d as) (h' : SpellsColumn text' d as')
    (hkinds : (as.map Attribute.kind).Nodup) (hperm : as.Perm as') :
    ofText? text' = ofText? text ∧ ofText? text = some (as.foldl Attribute.apply d) := by
  rw [h.ofText?_eq, h'.ofText?_eq, Attribute.foldl_apply_eq_of_perm hkinds hperm]
  exact ⟨rfl, rfl⟩

/-- Four modifiers of a column and what they say. -/
def fourModifiers : List (String × Attribute) :=
  [("NOT NULL", .nullable false), ("DEFAULT -5", .default "-5"), ("COMMENT 'c'", .comment "c"),
    ("REFERENCES t (a) ON DELETE SET NULL",
      .references { table := "t", columns := ["a"], onDelete := some "SET NULL" })]

theorem spells_fourModifiers : ∀ p ∈ fourModifiers, ∃ ts, tokenize p.1.toList = some ts ∧
    (∀ t ∈ ts.getLast?, t.isBlank = false) ∧ p.2.Spells ts := by
  have hspace : AllBlank [.blank .space] := Token.allBlank_singleton rfl
  intro p hp
  simp only [fourModifiers, List.mem_cons, List.not_mem_nil, or_false] at hp
  rcases hp with rfl | rfl | rfl | rfl
  · have hspells := Attribute.Spells.notNull (t := .word "NOT") (u := .word "NULL") (by decide)
      hspace (by decide)
    exact ⟨_, by decide +kernel, by decide, hspells⟩
  · have hspells := Attribute.Spells.default (t := .word "DEFAULT") (by decide) hspace
      (.minus Token.allBlank_nil "5")
    exact ⟨_, by decide +kernel, by decide, hspells⟩
  · have hspells := Attribute.Spells.comment (t := .word "COMMENT") (u := .literal .plain "c")
      (by decide) hspace rfl
    exact ⟨_, by decide +kernel, by decide, hspells⟩
  · have hdelete : Reference.action.run [.word "SET", .blank .space, .word "NULL"] =
        (some "SET NULL", []) := by
      decide +kernel
    have hactions := @SpellsActions.on .delete (.word "ON") (.word "DELETE") _ _ _ _ [] _
      { table := "t", columns := ["a"] } _ hspace (by decide) hspace (by decide) hspace hdelete
      (by decide) (.done _)
    have hspells := Attribute.Spells.references (t := .word "REFERENCES") (by decide) hspace
      (show qualifiedName.run [.word "t"] = (some "t", []) by decide +kernel) hspace
      (show nameList.run [.mark .openParen, .word "a", .mark .closeParen] = (some ["a"], []) by
        decide +kernel) hactions
    exact ⟨_, by decide +kernel, by decide, hspells⟩

/-- Four modifiers, and the same ones from the last to the first. -/
theorem ofText?_eq_of_perm_fourModifiers :
    ofText? "n INT REFERENCES t (a) ON DELETE SET NULL COMMENT 'c' DEFAULT -5 NOT NULL" =
        ofText? "n INT NOT NULL DEFAULT -5 COMMENT 'c' REFERENCES t (a) ON DELETE SET NULL" ∧
      ofText? "n INT NOT NULL DEFAULT -5 COMMENT 'c' REFERENCES t (a) ON DELETE SET NULL" =
        some ((fourModifiers.map Prod.snd).foldl Attribute.apply
          { name := "n", dataType := "INT" }) := by
  have htokens : tokenize "n INT".toList = some [.word "n", .blank .space, .word "INT"] := by
    decide +kernel
  have hhead : IsHead [.word "n", .blank .space, .word "INT"] { name := "n", dataType := "INT" } :=
    @IsHead.behind_blanks [] [.word "n"] [.blank .space] [.word "INT"] "n" _ nofun rfl
      (Token.allBlank_singleton rfl) rfl (by decide)
  have hspells := spellsColumn_intercalate htokens (by decide) hhead spells_fourModifiers
  have hreverse := spellsColumn_intercalate htokens (by decide) hhead
    (show ∀ p ∈ fourModifiers.reverse, _ from
      fun p hp => spells_fourModifiers p (List.mem_reverse.1 hp))
  exact ofText?_eq_of_perm hspells hreverse (by decide)
    ((List.reverse_perm fourModifiers).symm.map Prod.snd)

end ColumnDefinition
end SchemaScript
