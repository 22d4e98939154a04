import SchemaScript.Proofs.Render.FixedPoint
import SchemaScript.Proofs.Script.Accounts
import SchemaScript.Proofs.Script.AdditionStatements

/-!
# Additions that are rendered for a table

Outside of MySQL and MariaDB the indexes of a table are rendered as statements of their own, and in
PostgreSQL the descriptions of its columns are, too. These statements are read as additions to the
table (`Table.forall₂_additions`), and the table that is read from the statement that creates it is
the rendered one once they are made (`Table.isReadFrom_applyAll`).

An addition is made to the first table of its name. So the additions of several tables do not get
in each other's way if a table with additions has no other of its name in front of it
(`Addition.foldl_attach_flatMap`).
-/

namespace SchemaScript

/-! ## Additions to one table -/

namespace Column

variable {cs : List Column}

/-- A description of the first column of its name. -/
theorem describeFirst_append_cons {before : List Column} {c : Column} {n : String}
    (hc : c.name = n) (hbefore : ∀ b ∈ before, b.name ≠ n) (text : String) (cs : List Column) :
    describeFirst n text (before ++ c :: cs) =
      before ++ { c with description := some text } :: cs := by
  induction before with
  | nil => rw [List.nil_append, describeFirst, if_pos hc, List.nil_append]
  | cons b before ih =>
    obtain ⟨hb, hrest⟩ := List.forall_mem_cons.1 hbefore
    rw [List.cons_append, describeFirst, if_neg hb, ih hrest, List.cons_append]

theorem map_unflagged_describeFirst (name text : String) (cs : List Column) :
    (describeFirst name text cs).map unflagged = describeFirst name text (cs.map unflagged) := by
  induction cs with
  | nil => rfl
  | cons c cs ih =>
    rw [List.map_cons, describeFirst, describeFirst, name_unflagged]
    split
    · rfl
    · rw [List.map_cons, ih]

/-- The columns with some descriptions set, one after the other. -/
def describeAll (descriptions : List (String × String)) (cs : List Column) : List Column :=
  descriptions.foldl (fun cs p => describeFirst p.1 p.2 cs) cs

theorem map_unflagged_describeAll (descriptions : List (String × String)) (cs : List Column) :
    (describeAll descriptions cs).map unflagged = describeAll descriptions (cs.map unflagged) := by
  induction descriptions generalizing cs with
  | nil => rfl
  | cons p descriptions ih =>
    rw [describeAll, List.foldl_cons]
    exact (ih _).trans (by rw [map_unflagged_describeFirst]; rfl)

/-- The descriptions of some columns that are rendered, with the names of their columns. -/
def visibleDescriptions (cs : List Column) : List (String × String) :=
  cs.filterMap fun c => c.visibleDescription?.map (Prod.mk c.name)

/-- **Columns of different names get the descriptions that are rendered for them.** -/
theorem describeAll_visibleDescriptions {g : Column → Column} (hg : ∀ c, (g c).name = c.name)
    (hnodup : (cs.map name).Nodup) :
    describeAll (visibleDescriptions cs) (cs.map g) = cs.map fun c =>
      { g c with description := c.visibleDescription?.or (g c).description } := by
  -- columns of other names stand in front of those that are still to be described
  have hbehind : ∀ before : List Column, (∀ b ∈ before, b.name ∉ cs.map name) →
      describeAll (visibleDescriptions cs) (before ++ cs.map g) = before ++ cs.map fun c =>
        { g c with description := c.visibleDescription?.or (g c).description } := by
    induction cs with
    | nil => exact fun before _ => rfl
    | cons c cs ih =>
      intro before hbefore
      obtain ⟨hc, hcs⟩ := List.nodup_cons.1 hnodup
      have hmore : ∀ c' : Column, c'.name = c.name →
          ∀ b ∈ before ++ [c'], b.name ∉ cs.map name := by
        intro c' hc' b hb
        rcases List.mem_append.1 hb with hb | hb
        · exact fun hx => hbefore b hb (List.mem_cons_of_mem _ hx)
        · rw [List.mem_singleton.1 hb, hc']
          exact hc
      cases htext : c.visibleDescription? with
      | none =>
        have ih := ih hcs (before ++ [g c]) (hmore _ (hg c))
        have hskip : visibleDescriptions (c :: cs) = visibleDescriptions cs := by
          rw [visibleDescriptions, List.filterMap_cons, htext]
          rfl
        rw [hskip, List.map_cons, List.map_cons, htext]
        simpa only [List.append_assoc, List.singleton_append, Option.none_or] using ih
      | some text =>
        have ih := ih hcs (before ++ [{ g c with description := some text }]) (hmore _ (hg c))
        have hfirst : visibleDescriptions (c :: cs) = (c.name, text) :: visibleDescriptions cs := by
          rw [visibleDescriptions, List.filterMap_cons, htext]
          rfl
        have hnew : ∀ b ∈ before, b.name ≠ c.name := fun b hb hx =>
          hbefore b hb (hx ▸ List.mem_cons_self)
        rw [hfirst, List.map_cons, List.map_cons, htext, describeAll, List.foldl_cons,
          describeFirst_append_cons (hg c) hnew, Option.some_or]
        rwa [List.append_assoc, List.append_assoc] at ih
  exact hbehind [] (fun _ hb => absurd hb List.not_mem_nil)

end Column

namespace Addition

variable {t : Table}

/-- The table with some additions, made one after the other. -/
def applyAll (additions : List Addition) (t : Table) : Table :=
  additions.foldl (fun t a => a.apply t) t

theorem applyAll_append (as bs : List Addition) (t : Table) :
    applyAll (as ++ bs) t = applyAll bs (applyAll as t) :=
  List.foldl_append

theorem name_applyAll (additions : List Addition) (t : Table) :
    (applyAll additions t).name = t.name := by
  induction additions generalizing t with
  | nil => rfl
  | cons a additions ih => exact (ih (a.apply t)).trans (name_apply a t)

/-- An addition leaves the key as it is. -/
theorem renderedKey_apply (a : Addition) (t : Table) : (a.apply t).renderedKey = t.renderedKey := by
  cases a with
  | index table i => rfl
  | description table column text =>
    have hkeyed := Column.map_describeFirst (f := Column.keyed) (fun _ _ => rfl) column text
      t.columns
    have hflagged : ∀ cs : List Column, (cs.filter Column.primaryKey).map Column.name =
        ((cs.map Column.keyed).filter Prod.snd).map Prod.fst := by
      intro cs
      rw [List.filter_map, List.map_map]
      rfl
    have hnames : ∀ (cs : List Column) (n : String), (cs.any fun c => c.name == n) =
        (cs.map Column.keyed).any fun p => p.1 == n := by
      intro cs n
      rw [List.any_map]
      rfl
    have heffective : ((description table column text).apply t).effectiveKey = t.effectiveKey := by
      rw [Table.effectiveKey, Table.effectiveKey, Table.flaggedNames, Table.flaggedNames, hflagged,
        hflagged]
      exact congrArg (fun keyed => (t.primaryKey ++
        (keyed.filter Prod.snd).map Prod.fst).foldl insertNew []) hkeyed
    rw [Table.renderedKey, Table.renderedKey, heffective]
    refine List.filter_congr fun n _ => ?_
    rw [Table.hasColumn, Table.hasColumn, hnames, hnames]
    exact congrArg (fun keyed => keyed.any fun p : String × Bool => p.1 == n) hkeyed

theorem renderedKey_applyAll (additions : List Addition) (t : Table) :
    (applyAll additions t).renderedKey = t.renderedKey := by
  induction additions generalizing t with
  | nil => rfl
  | cons a additions ih => exact (ih (a.apply t)).trans (renderedKey_apply a t)

theorem applyAll_indexes (table : String) (is : List Index) (t : Table) :
    applyAll (is.map (index table)) t = { t with indexes := t.indexes ++ is } := by
  induction is generalizing t with
  | nil =>
    rw [List.append_nil]
    rfl
  | cons i is ih => exact (ih _).trans (by simp [apply])

theorem applyAll_descriptions (table : String) (descriptions : List (String × String))
    (t : Table) :
    applyAll (descriptions.map fun p => description table p.1 p.2) t =
      { t with columns := Column.describeAll descriptions t.columns } := by
  induction descriptions generalizing t with
  | nil => rfl
  | cons p descriptions ih => exact ih _

/-! ## Additions to several tables -/

/-- An addition is made to the first table of its name. -/
theorem attach_append_cons {before : List Table} {a : Addition} (ha : a.table = t.name)
    (hbefore : ∀ u ∈ before, u.name ≠ t.name) (tables : List Table) :
    attach (before ++ t :: tables) a = before ++ a.apply t :: tables := by
  have hfirst : (before ++ t :: tables).findIdx? (fun u => u.name == a.table) =
      some before.length := by
    rw [List.findIdx?_append, List.findIdx?_eq_none_iff.2 fun u hu => by
      rw [ha]; exact beq_eq_false_iff_ne.2 (hbefore u hu), List.findIdx?_cons, ha]
    simp
  simp [attach, position?, hfirst, List.modify_eq_take_drop]

theorem foldl_attach_append_cons {before : List Table} {additions : List Addition}
    (ha : ∀ a ∈ additions, a.table = t.name)
    (hbefore : additions ≠ [] → ∀ u ∈ before, u.name ≠ t.name) (tables : List Table) :
    additions.foldl attach (before ++ t :: tables) =
      before ++ applyAll additions t :: tables := by
  induction additions generalizing t with
  | nil => rfl
  | cons a additions ih =>
    obtain ⟨hfirst, hmore⟩ := List.forall_mem_cons.1 ha
    have hfree := hbefore (List.cons_ne_nil _ _)
    rw [List.foldl_cons, attach_append_cons hfirst hfree]
    exact ih (t := a.apply t) (by rwa [name_apply]) fun _ => by rwa [name_apply]

/-- **The additions of several tables are made to these tables**, if a table with additions has no
other of its name in front of it. -/
theorem foldl_attach_flatMap {blocks : List (Table × List Addition)}
    (hnames : ∀ b ∈ blocks, ∀ a ∈ b.2, a.table = b.1.name)
    (hblocks : blocks.Pairwise fun b b' => b'.2 ≠ [] → b.1.name ≠ b'.1.name) :
    (blocks.flatMap Prod.snd).foldl attach (blocks.map Prod.fst) =
      blocks.map fun b => applyAll b.2 b.1 := by
  have hbehind : ∀ before : List Table,
      (∀ b ∈ blocks, b.2 ≠ [] → ∀ u ∈ before, u.name ≠ b.1.name) →
      (blocks.flatMap Prod.snd).foldl attach (before ++ blocks.map Prod.fst) =
        before ++ blocks.map fun b => applyAll b.2 b.1 := by
    induction blocks with
    | nil => exact fun before _ => rfl
    | cons b blocks ih =>
      intro before hbefore
      obtain ⟨hb, hrest⟩ := List.pairwise_cons.1 hblocks
      obtain ⟨hbNames, hrestNames⟩ := List.forall_mem_cons.1 hnames
      obtain ⟨hbFree, hrestFree⟩ := List.forall_mem_cons.1 hbefore
      have ih := ih hrestNames hrest (before ++ [applyAll b.2 b.1]) (by
        intro b' hb' hne u hu
        rcases List.mem_append.1 hu with hu | hu
        · exact hrestFree b' hb' hne u hu
        · rw [List.mem_singleton.1 hu, name_applyAll]
          exact hb b' hb' hne)
      rw [List.flatMap_cons, List.foldl_append, List.map_cons,
        foldl_attach_append_cons hbNames hbFree]
      simpa only [List.append_assoc, List.singleton_append, List.map_cons] using ih
  exact hbehind [] fun _ _ _ _ hu => absurd hu List.not_mem_nil

end Addition

/-! ## Additions that are rendered -/

namespace Table

variable {d : Dialect} {t t' : Table}

/-- The additions to a table that its statements are read as. -/
def additions (d : Dialect) (t : Table) : List Addition :=
  (if d.hasInlineIndexes then [] else t.allIndexes.map (.index t.name)) ++
    if d = .postgresql then
      (Column.visibleDescriptions t.columns).map fun p => .description t.name p.1 p.2
    else []

/-- Whether a statement is read as an addition, with or without its semicolon. -/
def IsReadAsAddition (statement : String) (a : Addition) : Prop :=
  ∀ text, statement = text ∨ statement = text ++ ";" → StatementKind.ofText text = .addition a

theorem table_of_mem_additions {a : Addition} (h : a ∈ t.additions d) : a.table = t.name := by
  rw [additions, List.mem_append] at h
  rcases h with h | h
  · split at h
    · cases h
    · obtain ⟨i, -, rfl⟩ := List.mem_map.1 h
      rfl
  · split at h
    · obtain ⟨p, -, rfl⟩ := List.mem_map.1 h
      rfl
    · cases h

theorem isReadAsAddition_index (hd : d.isMySqlFamily = false) (ht : t.IsSettled d) {i : Index}
    (hi : i ∈ t.allIndexes) :
    IsReadAsAddition (i.renderedStatement d t.name) (.index t.name i) := by
  have hword : ∀ {n : String}, d.IsNameable n → Naming.isWord n = true := by
    intro n hn
    rwa [Dialect.IsNameable, hd, if_neg Bool.false_ne_true] at hn
  obtain ⟨⟨n, hn, hname⟩, hcolumns⟩ := ht.indexes i hi
  intro text htext
  refine StatementKind.ofText_renderedStatement hd hn (hword hname.nameable) (fun hguard => ?_)
    (fun c hc => hword (hcolumns c hc)) (Or.inr (hword ht.name.nameable)) htext
  refine hname.unconditional ?_
  cases d with
  | sqlserver => rfl
  | postgresql | sqlite => cases hguard
  | mysql | mariadb => cases hd

/-- **The statements behind the one that creates a table are read as additions.** -/
theorem forall₂_additions (ht : t.IsSettled d) :
    List.Forall₂ IsReadAsAddition
      (t.indexStatements { dialect := d } ++ t.descriptionStatements d) (t.additions d) := by
  refine List.rel_append ?_ ?_
  · rw [indexStatements]
    split
    · exact .nil
    · rename_i hd
      rw [List.forall₂_map_left_iff, List.forall₂_map_right_iff]
      exact List.forall₂_same.2 fun i hi => isReadAsAddition_index (Bool.eq_false_iff.2 hd) ht hi
  · rw [descriptionStatements]
    split
    · rename_i hd
      subst hd
      rw [Column.visibleDescriptions, List.map_filterMap]
      have hone : ∀ c ∈ t.columns, ∀ text, IsReadAsAddition
          (t.descriptionStatement .postgresql c text) (.description t.name c.name text) :=
        fun c hc _ _ hw => StatementKind.ofText_descriptionStatement (ht.columns c hc).name hw
      generalize t.columns = cs at hone
      induction cs with
      | nil => exact .nil
      | cons c cs ih =>
        obtain ⟨hc, hcs⟩ := List.forall_mem_cons.1 hone
        rw [List.filterMap_cons, List.filterMap_cons]
        cases c.visibleDescription? with
        | none => exact ih hcs
        | some text => exact .cons (hc text) (ih hcs)
    · exact .nil

/-- **A created table with its additions is the table that was rendered**, as it is read. -/
theorem isReadFrom_applyAll (hnodup : (t.columns.map Column.name).Nodup)
    (h : t'.MadeOf t.name ((t.definitions d).map ColumnDefinition.toColumn) t.renderedKey
      (t.constraints d)) : (Addition.applyAll (t.additions d) t').IsReadFrom d t := by
  have hindexes : t'.indexes ++ (if d.hasInlineIndexes then [] else t.allIndexes) =
      t.allIndexes := by
    rw [h.indexes, filterMap_index?_constraints]
    split
    · rw [List.append_nil]
    · rfl
  have hcolumns : t'.columns.map Column.unflagged =
      t.columns.map fun c => (c.read d (t.role c)).toColumn := by
    rw [h.columns, definitions, List.map_map]
    rfl
  have hfront : Addition.applyAll
      (if d.hasInlineIndexes then [] else t.allIndexes.map (.index t.name)) t' =
        { t' with indexes := t.allIndexes } := by
    have hmap : (if d.hasInlineIndexes then [] else t.allIndexes.map (Addition.index t.name)) =
        (if d.hasInlineIndexes then [] else t.allIndexes).map (.index t.name) := by
      split <;> rfl
    rw [hmap, Addition.applyAll_indexes, hindexes]
  have happly : ∃ cs : List Column,
      cs.map Column.unflagged = t.columns.map (fun c => c.described d (t.role c)) ∧
        Addition.applyAll (t.additions d) t' =
          { t' with indexes := t.allIndexes, columns := cs } := by
    rw [additions, Addition.applyAll_append, hfront]
    split
    · rename_i hd
      rw [Addition.applyAll_descriptions]
      refine ⟨_, ?_, rfl⟩
      have hdescribed := Column.describeAll_visibleDescriptions
        (g := fun c => (c.read d (t.role c)).toColumn) (fun _ => rfl) hnodup
      show (Column.describeAll _ t'.columns).map Column.unflagged = _
      rw [Column.map_unflagged_describeAll, hcolumns, hdescribed]
      refine List.map_congr_left fun c _ => ?_
      subst hd
      show _ = { (c.read .postgresql (t.role c)).toColumn with
        description := c.visibleDescription? }
      have hnone : (c.read .postgresql (t.role c)).toColumn.description = none := rfl
      rw [hnone, Option.or_none]
    · rename_i hd
      refine ⟨t'.columns, ?_, rfl⟩
      rw [hcolumns]
      exact List.map_congr_left fun c _ => (Column.described_eq hd).symm
  obtain ⟨cs, hcs, happly⟩ := happly
  have hkey := Addition.renderedKey_applyAll (t.additions d) t'
  refine ⟨?_, ?_, hkey.trans h.key, ?_, ?_⟩
  · rw [Addition.name_applyAll, h.name]
  · rw [happly]
    exact hcs
  · rw [happly]
    exact h.foreignKeys.trans (filterMap_foreignKey?_constraints d t)
  · rw [happly]

end Table
end SchemaScript
