import SchemaScript.Proofs.Script.CommentLines
import SchemaScript.Render.Script

/-!
# Comments for dropped tables

The tables that a script drops are named in line comments in front of the tables that it was
converted to. A name may hold newlines, and it is written with them, so a comment for it may have
several lines, of which the first is the only one that is made a comment.

The comments are a block of comments exactly if in each name all lines but the first look like
comments by themselves (`Conversion.ofScript_dropBlock`), as is the case for names without
newlines. Then the block holds nothing: converting it drops nothing, creates nothing and reports
nothing. Quoting a name for a dialect changes nothing about this, since quotes are neither hyphens
nor spaces nor newlines.
-/

namespace SchemaScript

open Script

variable {start : List Char}

/-- The lines of texts with newlines between them are those of the texts. -/
theorem eachLineBegins_intercalate {texts : List String} (hne : texts ≠ []) :
    EachLineBegins start ("\n".intercalate texts).toList ↔
      ∀ text ∈ texts, EachLineBegins start text.toList := by
  induction texts with
  | nil => exact absurd rfl hne
  | cons text texts ih =>
    cases texts with
    | nil => simp
    | cons next texts =>
      have hmore := ih (List.cons_ne_nil next texts)
      rw [String.intercalate_cons_of_ne_nil (List.cons_ne_nil _ _), String.toList_append,
        String.toList_append, List.append_assoc, List.forall_mem_cons, ← hmore]
      exact eachLineBegins_append_newline _ _

/-- A quoted name has the lines of the name, but for quotes. -/
theorem lowerLinesBegin_enclose (hstart : '\n' ∉ start) {q : Char} (hq : q ∉ start)
    (hnewline : q ≠ '\n') (s : String) :
    LowerLinesBegin start (Text.enclose q s).toList ↔ LowerLinesBegin start s.toList := by
  rw [Text.toList_enclose, lowerLinesBegin_concat hstart hq hnewline,
    lowerLinesBegin_cons_of_ne hnewline, lowerLinesBegin_double hstart hq hnewline]

namespace Dialect

theorem lowerLinesBegin_quoteTable (d : Dialect) (name : String) :
    LowerLinesBegin "-- ".toList (d.quoteTable name).toList ↔
      LowerLinesBegin "-- ".toList name.toList := by
  have hstart : '\n' ∉ "-- ".toList := by decide
  cases d with
  | mysql | mariadb => exact lowerLinesBegin_enclose hstart (by decide) (by decide) name
  | postgresql => exact lowerLinesBegin_enclose hstart (by decide) (by decide) name
  | sqlite | sqlserver => exact Iff.rfl

end Dialect

namespace Conversion

theorem dropBlock_of_ne_nil (d : Dialect) {names : List String} (h : names ≠ []) :
    dropBlock d names = ["\n".intercalate
      (names.map fun name => "-- DROP TABLE IF EXISTS " ++ d.quoteTable name ++ ";")] :=
  if_neg (List.isEmpty_iff.not.2 h)

/-- The comment for a dropped table is a comment on its first line. -/
theorem eachLineBegins_dropComment (d : Dialect) (name : String) :
    EachLineBegins "-- ".toList ("-- DROP TABLE IF EXISTS " ++ d.quoteTable name ++ ";").toList ↔
      LowerLinesBegin "-- ".toList name.toList := by
  have hstart : '\n' ∉ "-- ".toList := by decide
  have hfirst : "-- ".toList <+:
      "-- DROP TABLE IF EXISTS ".toList ++ ((d.quoteTable name).toList ++ ";".toList) := ⟨_, rfl⟩
  rw [String.toList_append, String.toList_append, List.append_assoc, eachLineBegins_iff hstart,
    and_iff_right hfirst, lowerLinesBegin_append_of_notMem (by decide)]
  exact (lowerLinesBegin_concat hstart (by decide) (by decide) _).trans
    (d.lowerLinesBegin_quoteTable name)

/-- **Dropped tables are comments unless their names break out of them.** Of a script that drops
tables, the conversion to any dialect begins with a block of comments, one for each dropped table.
Each line of this block is a comment exactly if in each of the names all lines but the first begin
as comments do. In that case there is nothing in the block but comments: read as a script of its
own it creates no tables, drops none and leaves nothing to report. -/
theorem ofScript_dropBlock (target : String) (options : RenderOptions) {script : String}
    (hdropped : (Contents.ofScript script).dropped ≠ []) :
    ∃ block tables : String,
      block = "\n".intercalate ((Contents.ofScript script).dropped.map fun name =>
        "-- DROP TABLE IF EXISTS " ++ (Dialect.resolve target).1.quoteTable name ++ ";") ∧
      tables = (Table.renderAll { options with dialect := (Dialect.resolve target).1 } false
        (Contents.ofScript script).tables).sql ∧
      (ofScript target options script).sql = "\n\n".intercalate (block :: tableBlock tables) ∧
      (EachLineBegins "-- ".toList block.toList ↔
        ∀ name ∈ (Contents.ofScript script).dropped, LowerLinesBegin "-- ".toList name.toList) ∧
      (EachLineBegins "-- ".toList block.toList →
        Contents.ofScript block = { tables := [], dropped := [], notices := [] }) := by
  refine ⟨_, _, rfl, rfl, ?_, ?_, fun h => Contents.ofScript_of_comments fun l hl => ?_⟩
  · simp only [ofScript, ofContents, dropBlock_of_ne_nil _ hdropped, List.singleton_append]
  · rw [eachLineBegins_intercalate (List.map_eq_nil_iff.not.2 hdropped), List.forall_mem_map]
    exact forall₂_congr fun name _ => eachLineBegins_dropComment _ name
  · have hmark : ['-', '-'] <+: "-- ".toList := ⟨[' '], rfl⟩
    exact hmark.trans (h l hl)

/-- A script that drops two tables, one with a name that goes on as a comment on its second line. -/
def commentedDrop : String :=
  "DROP TABLE IF EXISTS a, \"b\"\";\n-- DELIMITER $$\";\nCREATE TABLE t (id INT);"

/-- What stands in the name does not come out of the comments. -/
theorem ofScript_dropBlock_commentedDrop :
    (Contents.ofScript commentedDrop).dropped ≠ [] ∧
    ∃ block tables : String,
      (ofScript "postgresql" {} commentedDrop).sql =
        "\n\n".intercalate (block :: tableBlock tables) ∧
      EachLineBegins "-- ".toList block.toList ∧
      Contents.ofScript block = { tables := [], dropped := [], notices := [] } := by
  have hdropped : (Contents.ofScript commentedDrop).dropped = ["a", "b\";\n-- DELIMITER $$"] := by
    decide +kernel
  have hne : (Contents.ofScript commentedDrop).dropped ≠ [] := by
    rw [hdropped]
    exact List.cons_ne_nil _ _
  obtain ⟨block, tables, -, -, hsql, hcomments, hcontents⟩ :=
    ofScript_dropBlock "postgresql" {} hne
  have hblock : EachLineBegins "-- ".toList block.toList := by
    rw [hcomments, hdropped]
    decide
  exact ⟨hne, block, tables, hsql, hblock, hcontents hblock⟩

/-- A script that drops a table whose name goes on with a statement on its second line. -/
def escapingDrop : String :=
  "DROP TABLE IF EXISTS \"x\nCREATE TABLE y (id INT);--\";"

/-- The second line of the name is no comment, and read again it creates a table. -/
theorem ofScript_escapingDrop :
    (Contents.ofScript escapingDrop).dropped = ["x\nCREATE TABLE y (id INT);--"] ∧
    (ofScript "postgresql" {} escapingDrop).sql =
      "-- DROP TABLE IF EXISTS \"x\nCREATE TABLE y (id INT);--\";" ∧
    ¬ EachLineBegins "-- ".toList (ofScript "postgresql" {} escapingDrop).sql.toList ∧
    (Contents.ofScript (ofScript "postgresql" {} escapingDrop).sql).tables.map Table.name =
      ["y"] := by
  have hsql : (ofScript "postgresql" {} escapingDrop).sql =
      "-- DROP TABLE IF EXISTS \"x\nCREATE TABLE y (id INT);--\";" := by decide +kernel
  refine ⟨by decide +kernel, hsql, ?_, ?_⟩
  · rw [hsql]
    decide
  · rw [hsql]
    decide +kernel

end Conversion
end SchemaScript
