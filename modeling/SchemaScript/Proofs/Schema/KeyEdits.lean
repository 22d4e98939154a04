import Mathlib.Data.List.Induction
import SchemaScript.Proofs.Render.KeyPlacement

/-!
# The key of an edited table

A table that is put together by hand gets its columns one by one, has some of them marked as its
key, and may have its declared key replaced at any time. So the declared key may repeat names and
name columns that do not exist, names of columns may repeat, and a column may be flagged without
being declared.

What holds of the key all the same is collected in `Table.HasKeyLaws`: what the effective key
lists and in which order, what marking a column changes and what it does not, and that declaring
the effective key settles it. Each of the laws holds of every table (`Table.hasKeyLaws`). Of a
table that a run of edits has reached, `Table.hasKeyLaws_edited` says besides where its columns
and its flags come from. An edit does not take a flag away, so that the flags are those that some
edit of the run has set (`Table.mem_flaggedNames_edited_iff`).
-/

namespace SchemaScript

/-- What a table is put together with. -/
inductive KeyEdit where
  | addColumn (c : Column)
  | markPrimary (name : String)
  /-- Replaces the declared key. -/
  | declare (key : List String)

namespace KeyEdit

/-- The column that an edit adds. -/
def column? : KeyEdit → Option Column
  | addColumn c => some c
  | _ => none

/-- The edit flags a column of the name. -/
def Flags (t : Table) (n : String) : KeyEdit → Prop
  | addColumn c => c.primaryKey = true ∧ c.name = n
  | markPrimary m => m = n ∧ ∃ c ∈ t.columns, c.name = n
  | declare _ => False

end KeyEdit

namespace Table

/-- One edit. -/
def edit (t : Table) : KeyEdit → Table
  | .addColumn c => { t with columns := t.columns ++ [c] }
  | .markPrimary n => (t.markPrimary n).1
  | .declare key => { t with primaryKey := key }

/-- The table that a run of edits reaches from an empty one. -/
def edited (name : String) (edits : List KeyEdit) : Table :=
  edits.foldl edit { name }

variable {t : Table} {n : String}

/-! ## What the key lists -/

theorem mem_flaggedNames_iff :
    n ∈ t.flaggedNames ↔ ∃ c ∈ t.columns, c.primaryKey = true ∧ c.name = n := by
  simp only [flaggedNames, List.mem_map, List.mem_filter, and_assoc]

theorem nodup_effectiveKey (t : Table) : t.effectiveKey.Nodup :=
  nodup_foldl_insertNew _ List.nodup_nil

theorem mem_effectiveKey_iff :
    n ∈ t.effectiveKey ↔ n ∈ t.primaryKey ∨ n ∈ t.flaggedNames := by
  rw [effectiveKey_eq_append, List.mem_append, List.mem_eraseDups, List.mem_eraseDups,
    List.mem_filter, Bool.not_eq_true', ← Bool.not_eq_true, List.contains_iff_mem]
  tauto

/-- A declared key that has all the flagged names and repeats none is the effective one. -/
theorem effectiveKey_eq_primaryKey (hnodup : t.primaryKey.Nodup)
    (hflagged : t.flaggedNames ⊆ t.primaryKey) : t.effectiveKey = t.primaryKey := by
  have hnone : (t.flaggedNames.filter fun n => !t.primaryKey.contains n) = [] :=
    List.filter_eq_nil_iff.2 fun n hn => by simpa using hflagged hn
  rw [effectiveKey_eq_append, hnone, eraseDups_of_nodup hnodup]
  exact List.append_nil _

/-- **Declaring the effective key settles it.** -/
theorem effectiveKey_declare_effectiveKey (t : Table) :
    (t.edit (.declare t.effectiveKey)).effectiveKey = t.effectiveKey :=
  effectiveKey_eq_primaryKey (t := t.edit (.declare t.effectiveKey)) t.nodup_effectiveKey
    fun _ hn => mem_effectiveKey_iff.2 (Or.inr hn)

/-! ## What marking changes -/

theorem exists_flagFirst_eq {cs : List Column} (h : n ∈ cs.map Column.name) :
    ∃ before c behind, cs = before ++ c :: behind ∧ c.name = n ∧ (∀ d ∈ before, d.name ≠ n) ∧
      flagFirst n cs = before ++ { c with primaryKey := true } :: behind := by
  induction cs with
  | nil => cases h
  | cons c cs ih =>
    by_cases hname : c.name = n
    · exact ⟨[], c, cs, rfl, hname, by simp, by rw [flagFirst, if_pos hname]; rfl⟩
    · obtain ⟨before, d, behind, hcs, hd, hbefore, hflag⟩ :=
        ih ((List.mem_cons.1 h).resolve_left fun hx => hname hx.symm)
      refine ⟨c :: before, d, behind, by rw [hcs]; rfl, hd, ?_, ?_⟩
      · exact List.forall_mem_cons.2 ⟨hname, hbefore⟩
      · rw [flagFirst, if_neg hname, hflag]
        rfl

theorem flagFirst_flagFirst (n : String) (cs : List Column) :
    flagFirst n (flagFirst n cs) = flagFirst n cs := by
  induction cs with
  | nil => rfl
  | cons c cs ih =>
    by_cases hname : c.name = n
    · simp [flagFirst, hname]
    · simp [flagFirst, hname, ih]

theorem insertNew_insertNew (names : List String) (n : String) :
    insertNew (insertNew names n) n = insertNew names n := by
  have hmem : (insertNew names n).contains n = true :=
    List.contains_iff_mem.2 (mem_insertNew.2 (Or.inr rfl))
  rw [insertNew, if_pos hmem]

/-- Marking a column that exists flags the first one of its name and declares it. -/
theorem exists_markPrimary_eq (h : t.hasColumn n = true) :
    ∃ before c behind, t.columns = before ++ c :: behind ∧ c.name = n ∧
      (∀ d ∈ before, d.name ≠ n) ∧
      (t.markPrimary n).1 =
        { t with
          columns := before ++ { c with primaryKey := true } :: behind
          primaryKey := if n ∈ t.primaryKey then t.primaryKey else t.primaryKey ++ [n] } := by
  obtain ⟨before, c, behind, hcolumns, hname, hbefore, hflag⟩ :=
    exists_flagFirst_eq (hasColumn_iff.1 h)
  refine ⟨before, c, behind, hcolumns, hname, hbefore, ?_⟩
  rw [fst_markPrimary_of_hasColumn h, hflag, insertNew]
  simp only [List.contains_iff_mem]

/-- **Marking a name twice is marking it once.** -/
theorem markPrimary_markPrimary (t : Table) (n : String) :
    (t.markPrimary n).1.markPrimary n = t.markPrimary n := by
  cases hn : t.hasColumn n with
  | false => rw [markPrimary_of_not_hasColumn hn, markPrimary_of_not_hasColumn hn]
  | true =>
    rw [markPrimary, hasColumn_markPrimary, if_pos hn, fst_markPrimary_of_hasColumn hn,
      flagFirst_flagFirst, insertNew_insertNew, markPrimary, if_pos hn]

theorem snd_markPrimary_iff : (t.markPrimary n).2 = true ↔ ∃ c ∈ t.columns, c.name = n := by
  rw [snd_markPrimary, hasColumn_iff, List.mem_map]

/-! ## The laws -/

/-- The laws of the key of a table. -/
structure HasKeyLaws (t : Table) : Prop where
  nodup : t.effectiveKey.Nodup
  mem_iff : ∀ n, n ∈ t.effectiveKey ↔
    n ∈ t.primaryKey ∨ ∃ c ∈ t.columns, c.primaryKey = true ∧ c.name = n
  /-- The declared names where they come first, then the others in the order of the columns. -/
  order : t.effectiveKey = t.primaryKey.eraseDups ++
    (((t.columns.filter (·.primaryKey)).map (·.name)).filter (· ∉ t.primaryKey)).eraseDups
  /-- Marking a name answers whether it is the name of a column. -/
  marks_iff : ∀ n, (t.markPrimary n).2 = true ↔ ∃ c ∈ t.columns, c.name = n
  /-- Only the first column of the name and the declared key change. -/
  marked : ∀ n, (t.markPrimary n).2 = true → ∃ before c behind,
    t.columns = before ++ c :: behind ∧ c.name = n ∧ (∀ d ∈ before, d.name ≠ n) ∧
    (t.markPrimary n).1 =
      { t with
        columns := before ++ { c with primaryKey := true } :: behind
        primaryKey := if n ∈ t.primaryKey then t.primaryKey else t.primaryKey ++ [n] }
  marked_twice : ∀ n, (t.markPrimary n).1.markPrimary n = t.markPrimary n
  not_marked : ∀ n, (t.markPrimary n).2 = false → (t.markPrimary n).1 = t
  settled : { t with primaryKey := t.effectiveKey : Table }.effectiveKey = t.effectiveKey

theorem hasKeyLaws (t : Table) : t.HasKeyLaws where
  nodup := t.nodup_effectiveKey
  mem_iff n := by rw [mem_effectiveKey_iff, mem_flaggedNames_iff]
  order := by
    rw [effectiveKey_eq_append]
    refine congrArg (fun names => _ ++ List.eraseDups names) (List.filter_congr fun n _ => ?_)
    rw [Bool.eq_iff_iff]
    simp
  marks_iff _ := snd_markPrimary_iff
  marked n h := exists_markPrimary_eq (snd_markPrimary t n ▸ h)
  marked_twice := t.markPrimary_markPrimary
  not_marked n h := by rw [markPrimary_of_not_hasColumn (snd_markPrimary t n ▸ h)]
  settled := t.effectiveKey_declare_effectiveKey

/-! ## Runs of edits -/

theorem edited_concat (name : String) (edits : List KeyEdit) (e : KeyEdit) :
    edited name (edits ++ [e]) = (edited name edits).edit e := by
  rw [edited, List.foldl_append]
  rfl

/-- An edit adds its column, if it has one, and changes nothing but flags of the others. -/
theorem map_unflagged_edit (t : Table) (e : KeyEdit) :
    (t.edit e).columns.map Column.unflagged =
      t.columns.map Column.unflagged ++ e.column?.toList.map Column.unflagged := by
  cases e with
  | addColumn c => exact List.map_append
  | markPrimary n => exact (map_unflagged_markPrimary t n).trans (List.append_nil _).symm
  | declare key => exact (List.append_nil _).symm

/-- Marking a column adds its name to the flagged ones, and no other. -/
theorem mem_flaggedNames_markPrimary (t : Table) (n m : String) :
    m ∈ (t.markPrimary n).1.flaggedNames ↔
      m ∈ t.flaggedNames ∨ (n = m ∧ ∃ c ∈ t.columns, c.name = m) := by
  cases hn : t.hasColumn n with
  | false =>
    rw [markPrimary_of_not_hasColumn hn]
    refine (or_iff_left ?_).symm
    rintro ⟨rfl, hcolumn⟩
    rw [← snd_markPrimary_iff, snd_markPrimary, hn] at hcolumn
    cases hcolumn
  | true =>
    obtain ⟨before, c, behind, hcolumns, rfl, -, hmarked⟩ := exists_markPrimary_eq hn
    simp only [mem_flaggedNames_iff, hmarked, hcolumns, List.mem_append, List.mem_cons]
    constructor
    · rintro ⟨d, hd | rfl | hd, hflag, rfl⟩
      · exact Or.inl ⟨d, Or.inl hd, hflag, rfl⟩
      · exact Or.inr ⟨rfl, c, Or.inr (Or.inl rfl), rfl⟩
      · exact Or.inl ⟨d, Or.inr (Or.inr hd), hflag, rfl⟩
    · rintro (⟨d, hd | rfl | hd, hflag, rfl⟩ | ⟨rfl, -⟩)
      · exact ⟨d, Or.inl hd, hflag, rfl⟩
      · exact ⟨_, Or.inr (Or.inl rfl), rfl, rfl⟩
      · exact ⟨d, Or.inr (Or.inr hd), hflag, rfl⟩
      · exact ⟨_, Or.inr (Or.inl rfl), rfl, rfl⟩

/-- An edit takes no flag away, and sets those that it says. -/
theorem mem_flaggedNames_edit (t : Table) (e : KeyEdit) (n : String) :
    n ∈ (t.edit e).flaggedNames ↔ n ∈ t.flaggedNames ∨ e.Flags t n := by
  cases e with
  | addColumn c =>
    have hone : n ∈ (List.filter (·.primaryKey) [c]).map Column.name ↔
        c.primaryKey = true ∧ c.name = n := by
      cases hflag : c.primaryKey <;> simp [hflag, eq_comm]
    rw [KeyEdit.Flags, ← hone, ← List.mem_append, flaggedNames, flaggedNames, ← List.map_append,
      ← List.filter_append]
    rfl
  | markPrimary m => exact mem_flaggedNames_markPrimary t m n
  | declare key => exact (or_iff_left id).symm

/-- The columns of a run are the added ones, in their order, whatever their flags are. -/
theorem map_unflagged_edited (name : String) (edits : List KeyEdit) :
    (edited name edits).columns.map Column.unflagged =
      (edits.filterMap KeyEdit.column?).map Column.unflagged := by
  induction edits using List.reverseRecOn with
  | nil => rfl
  | append_singleton edits e ih =>
    rw [edited_concat, map_unflagged_edit, ih, List.filterMap_append, List.map_append]
    cases e <;> rfl

/-- **The flags of a run are those that its edits have set.** -/
theorem mem_flaggedNames_edited_iff (name : String) (edits : List KeyEdit) (n : String) :
    n ∈ (edited name edits).flaggedNames ↔ ∃ before e behind,
      edits = before ++ e :: behind ∧ e.Flags (edited name before) n := by
  induction edits using List.reverseRecOn with
  | nil => simp [edited, flaggedNames]
  | append_singleton edits e ih =>
    rw [edited_concat, mem_flaggedNames_edit, ih]
    constructor
    · rintro (⟨before, f, behind, rfl, hflags⟩ | hflags)
      · exact ⟨before, f, behind ++ [e], by simp, hflags⟩
      · exact ⟨edits, e, [], rfl, hflags⟩
    · rintro ⟨before, f, behind, hedits, hflags⟩
      cases behind using List.reverseRecOn with
      | nil =>
        obtain ⟨rfl, hlast⟩ := List.append_inj' hedits rfl
        cases hlast
        exact Or.inr hflags
      | append_singleton behind g =>
        rw [← List.cons_append, ← List.append_assoc] at hedits
        exact Or.inl ⟨before, f, behind, (List.append_inj' hedits rfl).1, hflags⟩

/-- **The key laws hold behind every run of edits.** Its columns are the added ones, in their
order and whatever their flags are; a name is flagged if some edit of the run has flagged it, and
the key lists what is declared then, or flagged. -/
theorem hasKeyLaws_edited (name : String) (edits : List KeyEdit) :
    (edited name edits).HasKeyLaws ∧
    (edited name edits).columns.map Column.unflagged =
      (edits.filterMap KeyEdit.column?).map Column.unflagged ∧
    ∀ n, n ∈ (edited name edits).effectiveKey ↔ n ∈ (edited name edits).primaryKey ∨
      ∃ before e behind, edits = before ++ e :: behind ∧ e.Flags (edited name before) n := by
  refine ⟨hasKeyLaws _, map_unflagged_edited name edits, fun n => ?_⟩
  rw [mem_effectiveKey_iff, mem_flaggedNames_edited_iff]

example : (edited "t" [.addColumn { name := "a", dataType := "INT" }, .markPrimary "a",
    .addColumn { name := "b", dataType := "INT", primaryKey := true },
    .addColumn { name := "a", dataType := "TEXT" }, .markPrimary "c",
    .declare ["c", "b", "c"], .markPrimary "b"]).effectiveKey = ["c", "b", "a"] := by
  decide

end Table
end SchemaScript
