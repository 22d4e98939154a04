import Mathlib.Algebra.Order.Floor.Div
import SchemaScript.Render.Insert

/-!
# Rows in inserts

The rows of a table are cut into pieces, and each piece becomes one insert. What the pieces are is
said without the way they are cut (`Table.IsBatching`): joined again they are the rows in their
order, none of them is empty, and all but the last are full. This decides how many there are
(`Table.IsBatching.length_eq`), and it passes from the rows to their texts
(`Table.IsBatching.map`).

* `Table.isBatching_batches`: the pieces that are cut off one after the other are such pieces.
* `Table.insertStatements_batching`: the inserts of a table hold the text of each row once and in
  order, and the cells of a text stand in the order of the columns that the inserts begin with,
  each of them decided by what its row has under the name of its column.
-/

namespace SchemaScript

/-- A piece that is not empty and not too long is one. -/
theorem ceilDiv_eq_one {n size : Nat} (hpos : 0 < n) (hle : n ≤ size) : n ⌈/⌉ size = 1 := by
  rw [Nat.ceilDiv_eq_add_pred_div, show n + size - 1 = n - 1 + size by omega,
    Nat.add_div_right _ (by omega), Nat.div_eq_of_lt (by omega)]

/-- A full piece counts for one. -/
theorem ceilDiv_add_left {size : Nat} (hsize : 0 < size) (n : Nat) :
    (size + n) ⌈/⌉ size = n ⌈/⌉ size + 1 := by
  rw [Nat.ceilDiv_eq_add_pred_div, Nat.ceilDiv_eq_add_pred_div, Nat.add_assoc,
    Nat.add_sub_assoc (by omega), Nat.add_div_left _ hsize]

namespace Table

variable {α β : Type} {size : Nat} {rows : List α} {pieces : List (List α)}

/-! ## Pieces of a list -/

/-- The pieces are the members of a list in order, at most so many in each and at least one, and
only the last may hold fewer than the others. -/
structure IsBatching (size : Nat) (rows : List α) (pieces : List (List α)) : Prop where
  flatten_eq : pieces.flatten = rows
  ne_nil : ∀ piece ∈ pieces, piece ≠ []
  length_le : ∀ piece ∈ pieces, piece.length ≤ size
  length_of_mem_dropLast : ∀ piece ∈ pieces.dropLast, piece.length = size

namespace IsBatching

theorem nil : IsBatching size ([] : List α) [] where
  flatten_eq := rfl
  ne_nil := by simp
  length_le := by simp
  length_of_mem_dropLast := by simp

/-- A piece goes in front of others, and it has to be full if there are any. -/
theorem cons {piece : List α} (h : IsBatching size rows pieces) (hne : piece ≠ [])
    (hle : piece.length ≤ size) (hfull : pieces ≠ [] → piece.length = size) :
    IsBatching size (piece ++ rows) (piece :: pieces) where
  flatten_eq := by rw [List.flatten_cons, h.flatten_eq]
  ne_nil := List.forall_mem_cons.2 ⟨hne, h.ne_nil⟩
  length_le := List.forall_mem_cons.2 ⟨hle, h.length_le⟩
  length_of_mem_dropLast := by
    cases pieces with
    | nil => simp
    | cons next pieces =>
      rw [List.dropLast_cons_cons]
      exact List.forall_mem_cons.2 ⟨hfull (List.cons_ne_nil _ _), h.length_of_mem_dropLast⟩

/-- The texts of the members are cut as the members are. -/
theorem map (h : IsBatching size rows pieces) (f : α → β) :
    IsBatching size (rows.map f) (pieces.map (List.map f)) where
  flatten_eq := by rw [← List.map_flatten, h.flatten_eq]
  ne_nil := List.forall_mem_map.2 fun piece hpiece => by
    rw [Ne, List.map_eq_nil_iff]
    exact h.ne_nil piece hpiece
  length_le := List.forall_mem_map.2 fun piece hpiece => by
    rw [List.length_map]
    exact h.length_le piece hpiece
  length_of_mem_dropLast := by
    rw [← List.map_dropLast]
    refine List.forall_mem_map.2 fun piece hpiece => ?_
    rw [List.length_map]
    exact h.length_of_mem_dropLast piece hpiece

/-- **There are as many pieces as the members need.** A full piece in front counts for one, and so
does the last, which is not empty. -/
theorem length_eq (h : IsBatching size rows pieces) (hsize : 0 < size) :
    pieces.length = rows.length ⌈/⌉ size := by
  obtain ⟨hflatten, hne, hle, hfull⟩ := h
  subst hflatten
  induction pieces with
  | nil => simp
  | cons piece pieces ih =>
    rw [List.forall_mem_cons] at hne hle
    cases pieces with
    | nil =>
      rw [List.flatten_singleton, ceilDiv_eq_one (List.length_pos_of_ne_nil hne.1) hle.1]
      rfl
    | cons next pieces =>
      rw [List.dropLast_cons_cons, List.forall_mem_cons] at hfull
      have hrest := ih hne.2 hle.2 hfull.2
      rw [List.flatten_cons, List.length_append, hfull.1, ceilDiv_add_left hsize, ← hrest,
        List.length_cons]

end IsBatching

/-- The pieces that are cut off the front are full as long as something is left. -/
theorem isBatching_batches (size : Nat) (rows : List α) :
    IsBatching (size + 1) rows (batches size rows) := by
  fun_induction batches size rows with
  | case1 => exact .nil
  | case2 r rs ih =>
    have hrows : r :: rs = (r :: rs.take size) ++ rs.drop size := by
      rw [List.cons_append, List.take_append_drop]
    rw [hrows]
    refine ih.cons (List.cons_ne_nil _ _) ?_ fun hrest => ?_
    · rw [List.length_cons, List.length_take]
      omega
    · have hdrop : rs.drop size ≠ [] := fun hdrop => hrest (by rw [hdrop, batches])
      have hlength : size < rs.length := List.drop_eq_nil_iff.not.1 hdrop |> Nat.lt_of_not_le
      rw [List.length_cons, List.length_take, Nat.min_eq_left hlength.le]

/-! ## Inserts -/

variable {t : Table}

/-- A row has one cell for each column. -/
@[simp] theorem length_cells (d : Dialect) (t : Table) (row : Row) :
    (t.cells d row).length = t.columns.length :=
  List.length_map _

/-- The cell in the place of a column is that of the value under its name. -/
theorem getElem?_cells (d : Dialect) (row : Row) {i : Nat} {c : Column}
    (hc : t.columns[i]? = some c) :
    (t.cells d row)[i]? =
      some (c.cell d (t.effectiveKey.contains c.name) (row.cell? c.name)) := by
  rw [cells, List.getElem?_map, hc, Option.map_some]

/-- **Rows are inserted once each, in order and aligned with the header.** The inserts of a table
with columns are as many as its rows need, with as many rows in each as were asked for, or one if
none were. Each is the same header, a line break, the texts of its rows with commas and line breaks
between them, and a semicolon; the texts in all inserts together are those of the rows in their
order. The header names the columns in their order. The text of a row has one cell in the place of
each of them, and this cell depends on nothing of the row but what it has under the name of the
column. -/
theorem insertStatements_batching (options : RenderOptions) (hcolumns : t.columns ≠ []) :
    (t.insertStatements options).length = t.rows.length ⌈/⌉ max 1 options.batchSize ∧
    (∃ pieces : List (List String),
      IsBatching (max 1 options.batchSize) (t.rows.map (t.renderedRow options.dialect)) pieces ∧
      t.insertStatements options = pieces.map fun tuples =>
        t.insertHeader options.dialect ++ "\n" ++ ",\n".intercalate tuples ++ ";") ∧
    t.insertHeader options.dialect =
      "INSERT INTO " ++ options.dialect.quoteTable t.name ++ " (" ++
        ", ".intercalate (t.columns.map fun c => options.dialect.quoteColumn c.name) ++
          ") VALUES" ∧
    ∀ row : Row, ∃ cells : List String,
      t.renderedRow options.dialect row = "(" ++ ", ".intercalate cells ++ ")" ∧
      cells.length = t.columns.length ∧
      ∀ (i : Nat) (c : Column), t.columns[i]? = some c →
        cells[i]? =
          some (c.cell options.dialect (t.effectiveKey.contains c.name) (row.cell? c.name)) := by
  have hsize : options.batchSize - 1 + 1 = max 1 options.batchSize := by omega
  have hpieces : IsBatching (max 1 options.batchSize) t.rows
      (batches (options.batchSize - 1) t.rows) :=
    hsize ▸ isBatching_batches (options.batchSize - 1) t.rows
  have hinserts : t.insertStatements options =
      (batches (options.batchSize - 1) t.rows).map (t.insertStatement options.dialect) := by
    rw [insertStatements, if_neg (by simpa using hcolumns)]
  refine ⟨?_, ⟨_, hpieces.map (t.renderedRow options.dialect), ?_⟩, ?_, fun row =>
    ⟨t.cells options.dialect row, rfl, length_cells _ t row, fun i c hc =>
      getElem?_cells _ row hc⟩⟩
  · rw [hinserts, List.length_map]
    exact hpieces.length_eq (by omega)
  · rw [hinserts, List.map_map]
    rfl
  · rw [insertHeader, Dialect.quoteColumns, List.map_map]
    rfl

/-- A table with a row that has a cell too many and one that has a cell too few. -/
def sparse : Table where
  name := "t"
  columns := [{ name := "a", dataType := "INT" }, { name := "b", dataType := "TEXT" }]
  rows :=
    [⟨[("a", .number (.integer 1)), ("aa", .bool true), ("b", .string "x")], rfl⟩,
      ⟨[("b", .string "y")], rfl⟩,
      ⟨[("a", .number (.integer 3)), ("b", .null)], rfl⟩]

/-- Two inserts for three rows, two at most in each; no cell moves to another column. -/
theorem insertStatements_sparse :
    sparse.columns ≠ [] ∧
    sparse.insertStatements { dialect := .sqlite, batchSize := 2 } =
      ["INSERT INTO t (a, b) VALUES\n(1, 'x'),\n(null, 'y');",
        "INSERT INTO t (a, b) VALUES\n(3, null);"] ∧
    (sparse.insertStatements { dialect := .sqlite, batchSize := 2 }).length =
      sparse.rows.length ⌈/⌉ max 1 2 :=
  ⟨by decide, by decide +kernel, (insertStatements_batching _ (by decide)).1⟩

end Table
end SchemaScript
