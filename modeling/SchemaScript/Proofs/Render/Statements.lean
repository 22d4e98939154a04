import SchemaScript.Proofs.Render.Inserts
import SchemaScript.Proofs.Render.Sealed
import SchemaScript.Proofs.Script.Written
import SchemaScript.Render.Script

/-!
# Cutting a rendered script

The script of some tables for MySQL or MariaDB is cut into the statements it was rendered as, for
each table the one that creates it and then its inserts (`Table.statements_renderAll`). Names,
descriptions, literals and rows may hold anything, semicolons and lines that look like directives
included. The scanner is led through each statement without meeting the end of one, because
all parts of a statement are sealed; and a statement is no empty text with a comment, because it
begins with a keyword.

Defaults are excepted that are the literals of columns without truth values and numbers: these are
rendered as they were given, and they need not be sealed.
-/

namespace SchemaScript

open Script

/-- Joined lists of texts that are joined with the same separator. -/
theorem intercalate_map_intercalate {sep : String} {lists : List (List String)}
    (h : ∀ l ∈ lists, l ≠ []) :
    sep.intercalate (lists.map sep.intercalate) = sep.intercalate lists.flatten := by
  induction lists with
  | nil => rfl
  | cons l lists ih =>
    have hl := h l List.mem_cons_self
    have ih := ih fun l' hl' => h l' (List.mem_cons_of_mem l hl')
    cases lists with
    | nil => simp
    | cons m lists =>
      have hm := h m (by simp)
      have hflat : (m :: lists).flatten ≠ [] := by
        rw [List.flatten_cons]
        exact List.append_ne_nil_of_left_ne_nil hm _
      rw [List.flatten_cons, String.intercalate_append_of_ne_nil hl hflat, ← ih, List.map_cons,
        ← List.singleton_append,
        String.intercalate_append_of_ne_nil (List.cons_ne_nil _ _) (by simp),
        String.intercalate_singleton]

namespace Table

variable {options : RenderOptions} {t : Table}

/-- A statement that creates a table is written if its parts are sealed. -/
theorem isWritten_of_isSealed (hheader : IsSealed (t.headerText options.dialect).toList)
    (hitems : ∀ s ∈ t.bodyItems options, IsSealed s.toList) :
    ∃ w : String, t.createStatement options = w ++ ";" ∧ IsWritten w.toList := by
  have hlines : ∀ s ∈ (t.bodyItems options).map ("\t" ++ ·), IsSealed s.toList :=
    List.forall_mem_map.2 fun s hs => (IsSealed.keyword "\t" rfl).string_append (hitems s hs)
  have hsealed := (hheader.string_append (IsSealed.keyword "\n(\n" rfl)).string_append
    (IsSealed.string_intercalate (IsSealed.keyword ",\n" rfl) hlines)
      |>.string_append (IsSealed.keyword "\n)" rfl)
  have hhead : ∃ c ∈ (t.headerText options.dialect).toList.head?, c = 'C' ∨ c = 'I' := by
    rw [headerText]
    split
    · exact ⟨'I', by simp, Or.inr rfl⟩
    · exact ⟨'C', by simp, Or.inl rfl⟩
  refine ⟨_, ?_, hsealed, ?_, ?_⟩
  · have hend : "\n);" = "\n)" ++ ";" := rfl
    rw [createStatement, hend, ← String.append_assoc]
  · obtain ⟨c, hc, hkeyword⟩ := hhead
    obtain ⟨cs, hcs⟩ := List.head?_eq_some_iff.1 hc
    exact ⟨c, by simp [hcs], hkeyword⟩
  · rw [String.toList_append, List.getLast?_append]
    exact fun c hc => Option.some.inj hc ▸ rfl

/-- The statement that creates a table is written. -/
theorem isWritten_createStatement (hd : options.dialect.isMySqlFamily = true)
    (ht : ∀ c ∈ t.columns, c.HasNumericDefault) :
    ∃ w : String, t.createStatement options = w ++ ";" ∧ IsWritten w.toList := by
  refine isWritten_of_isSealed ?_ fun s hs => isSealed_of_mem_bodyItems hd ht hs
  rw [headerText_of_isMySqlFamily hd]
  exact (IsSealed.keyword "CREATE TABLE IF NOT EXISTS " rfl).string_append
    (IsSealed.enclose Mode.encloses_backtick t.name)

/-- An insert of some rows is written. -/
theorem isWritten_insertStatement {d : Dialect} (hd : d.isMySqlFamily = true)
    (ht : ∀ c ∈ t.columns, c.HasNumericDefault) {rows : List Row} (hne : rows ≠ []) :
    ∃ w : String, t.insertStatement d rows = w ++ ";" ∧ IsWritten w.toList := by
  have hheader := (IsSealed.keyword "INSERT INTO " rfl).string_append
    (Dialect.isSealed_quoteTable hd t.name) |>.string_append (IsSealed.keyword " (" rfl)
      |>.string_append (Dialect.isSealed_quoteColumns hd (t.columns.map Column.name))
      |>.string_append (IsSealed.keyword ") VALUES" rfl)
  have hrows : ∀ s ∈ rows.map (t.renderedRow d), IsSealed s.toList :=
    List.forall_mem_map.2 fun row _ => isSealed_renderedRow hd ht row
  have hsealed := (hheader.string_append (IsSealed.keyword "\n" rfl)).string_append
    (IsSealed.string_intercalate (IsSealed.keyword ",\n" rfl) hrows)
  -- the last row ends in its parenthesis
  have hlast : (",\n".intercalate (rows.map (t.renderedRow d))).toList.getLast? = some ')' := by
    obtain ⟨before, row, rfl⟩ := (List.eq_nil_or_concat rows).resolve_left hne
    have hrow : (t.renderedRow d row).toList.getLast? = some ')' := by
      rw [renderedRow, String.toList_append, List.getLast?_append]
      rfl
    rw [List.concat_eq_append, List.map_append, List.map_singleton]
    cases before with
    | nil => simpa using hrow
    | cons first before =>
      rw [String.intercalate_append_of_ne_nil (by simp) (by simp), String.intercalate_singleton,
        String.toList_append, List.getLast?_append, hrow]
      rfl
  refine ⟨_, rfl, hsealed, ⟨'I', ?_, Or.inr rfl⟩, ?_⟩
  · simp [insertHeader]
  · rw [String.toList_append, List.getLast?_append, hlast]
    exact fun c hc => Option.some.inj hc ▸ rfl

/-- The script of some tables is made of its statements. -/
theorem sql_renderAll (hd : options.dialect.isMySqlFamily = true) (withRows : Bool)
    (tables : List Table) :
    (renderAll options withRows tables).sql = "\n\n".intercalate (tables.flatMap fun t =>
      t.createStatement options :: if withRows then t.insertStatements options else []) := by
  rw [List.flatMap, ← intercalate_map_intercalate
    (List.forall_mem_map.2 fun t _ => List.cons_ne_nil _ _), List.map_map]
  refine congrArg "\n\n".intercalate (List.map_congr_left fun t _ => ?_)
  rw [renderedBlock, renderedText_of_isMySqlFamily hd]
  rfl

/-- **A script of rendered tables is cut into the statements that were rendered.** -/
theorem statements_renderAll (hd : options.dialect.isMySqlFamily = true) {tables : List Table}
    (hdefaults : ∀ t ∈ tables, ∀ c ∈ t.columns, ∀ text, c.default = some (.literal text) →
      c.isBoolean = true ∨ c.isInteger = true ∨ c.isFractional = true)
    (withRows : Bool) :
    (statements (renderAll options withRows tables).sql).map (fun s => s.text ++ ";") =
      tables.flatMap fun t =>
        t.createStatement options :: if withRows then t.insertStatements options else [] := by
  rw [sql_renderAll hd]
  refine texts_statements_intercalate fun s hs => ?_
  obtain ⟨t, ht, hs⟩ := List.mem_flatMap.1 hs
  have hcolumns : ∀ c ∈ t.columns, c.HasNumericDefault := hdefaults t ht
  rcases List.mem_cons.1 hs with rfl | hs
  · exact isWritten_createStatement hd hcolumns
  · split at hs
    · unfold insertStatements at hs
      split at hs
      · cases hs
      · obtain ⟨rows, hrows, rfl⟩ := List.mem_map.1 hs
        have hne : rows ≠ [] := (isBatching_batches _ t.rows).ne_nil rows hrows
        exact isWritten_insertStatement hd hcolumns hne
    · cases hs

/-- A table whose names and texts hold quotes, semicolons, comments and directives. -/
def trapped : Table where
  name := "a\x60;\nDELIMITER $$\n"
  columns :=
    [{ name := "x';", dataType := "ENUM", values := ["/*", "\\'"], description := some "--\n;" },
      { name := "n", dataType := "INT", nullable := false, default := some (.literal "-5") }]
  rows := [⟨[("x';", .string "\\';\nDELIMITER //\n")], rfl⟩]

theorem statements_renderAll_trapped :
    (statements (renderAll {} true [trapped, trapped]).sql).map (fun s => s.text ++ ";") =
      [trapped, trapped].flatMap fun t =>
        t.createStatement {} :: t.insertStatements {} := by
  refine statements_renderAll rfl ?_ true
  simp only [trapped, List.forall_mem_cons]
  exact ⟨⟨nofun, fun _ _ => Or.inr (Or.inl (by decide)), nofun⟩,
    ⟨nofun, fun _ _ => Or.inr (Or.inl (by decide)), nofun⟩, nofun⟩

end Table
end SchemaScript
