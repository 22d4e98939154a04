import Mathlib.Data.List.Basic
import SchemaScript.Proofs.Render.TypeSpellings

/-!
# Rendered types and the families of types

A column whose type is rendered and read again holds truth values if it did before, and whole
numbers or numbers with a fraction if it did before (`Column.isLike_rereadType`), so that its
default is rendered as before, too. Two types are exceptions: a bit string of several bits is
rendered as the type of truth values, and a year as a whole number outside of MySQL and MariaDB.

What has been read from a script has one of the types that columns can be read with. For such a
column no type is rendered as `TINYINT(1)`, because a column of this type holds truth values.
-/

namespace SchemaScript

open ColumnDefinition (TypeArguments WritesType)

namespace Catalog

variable {n target : String}

/-- A type that columns are read with is looked up under its own name. -/
theorem lookup_of_mem_readable (catalog : Catalog) (h : n ∈ DataType.readable) :
    catalog.lookup n = (catalog.entries.find? fun entry =>
      entry.1.toList.isPrefixOf (Text.foldCase n.toList)).map Prod.snd := by
  rw [lookup, DataType.fold_of_mem_readable n h]

/-- Whether two types hold whole numbers both or neither, and numbers with a fraction both or
neither. -/
def sameNumbers (n m : String) : Bool :=
  DataType.integerNames.contains n == DataType.integerNames.contains m &&
    DataType.fractionalNames.contains n == DataType.fractionalNames.contains m

/-- Whether a type in a fixed spelling is read as a type with the same numbers, and as truth values
only if these are what it held before. -/
def keepsFixed (d : Dialect) (n type : String) : Bool :=
  type == "DATETIMEOFFSET" ||
    sameNumbers n (fixedName type) && (type != Column.booleanType d || n == "BOOLEAN")

/-- Whether the catalog keeps the numbers of a type, rendered with a size or without. -/
def keepsNumbers (d : Dialect) (n : String) : Bool :=
  match (ofDialect d).entries.find? fun entry =>
      entry.1.toList.isPrefixOf (Text.foldCase n.toList) with
  | none => keepsFixed d n (ofDialect d).fallback
  | some entry =>
    (!((ofDialect d).sized ++ (ofDialect d).scaled).contains entry.2 ||
        sameNumbers n (readName entry.2)) &&
      keepsFixed d n ((ofDialect d).sizedType entry.2 none none)

/-- The catalogs keep the numbers of all types but two. -/
theorem keepsNumbers_of_mem_readable (d : Dialect) (h : n ∈ DataType.readable) (hbit : n ≠ "BIT")
    (hyear : n = "YEAR" → d.isMySqlFamily = true) : keepsNumbers d n = true := by
  have hall : ∀ d ∈ Dialect.all, ∀ n ∈ DataType.readableNames, n ≠ "BIT" →
      (n = "YEAR" → d.isMySqlFamily = true) → keepsNumbers d n = true := by
    decide +kernel
  exact hall d (by cases d <;> decide) n (DataType.mem_readable_iff.1 h) hbit hyear

theorem keepsFixed_of_lookup_eq_none {d : Dialect} (hn : n ∈ DataType.readable)
    (h : keepsNumbers d n = true) (hlookup : (ofDialect d).lookup n = none) :
    keepsFixed d n (ofDialect d).fallback = true := by
  rw [lookup_of_mem_readable _ hn, Option.map_eq_none_iff] at hlookup
  rwa [keepsNumbers, hlookup] at h

theorem keepsFixed_of_lookup {d : Dialect} (hn : n ∈ DataType.readable)
    (h : keepsNumbers d n = true) (hlookup : (ofDialect d).lookup n = some target) :
    (target ∈ (ofDialect d).sized ++ (ofDialect d).scaled →
        sameNumbers n (readName target) = true) ∧
      keepsFixed d n ((ofDialect d).sizedType target none none) = true := by
  rw [lookup_of_mem_readable _ hn] at hlookup
  obtain ⟨entry, hentry, rfl⟩ := Option.map_eq_some_iff.1 hlookup
  rw [keepsNumbers, hentry] at h
  obtain ⟨hsized, hfixed⟩ := Bool.and_eq_true_iff.1 h
  refine ⟨fun hmem => ?_, hfixed⟩
  rw [List.contains_iff_mem.2 hmem] at hsized
  exact hsized

/-- What is rendered without a size, as the type of a column that is looked up. -/
theorem mem_fixedTypes_of_lookup {d : Dialect} (h : (ofDialect d).lookup n = some target) :
    (ofDialect d).sizedType target none none ∈ d.fixedTypes := by
  obtain ⟨entry, hentry, rfl⟩ := Option.map_eq_some_iff.1 h
  exact Dialect.mem_fixedTypes.2 (Or.inr (Or.inr ⟨entry, List.mem_of_find?_eq_some hentry, rfl⟩))

theorem fixedName_mem_readable {d : Dialect} :
    ∀ type ∈ d.fixedTypes, type ≠ "DATETIMEOFFSET" → fixedName type ∈ DataType.readable := by
  simp only [DataType.mem_readable_iff]
  cases d <;> decide

end Catalog

/-! ## Truth values of one byte -/

namespace Catalog

/-- A size with the type in front of it gives both. -/
theorem withSize_inj {target target' size size' : String} (h : '(' ∉ target.toList)
    (h' : '(' ∉ target'.toList) (heq : withSize target size = withSize target' size') :
    target = target' ∧ size = size' := by
  have hstart : ∀ {t : String} (s : String), '(' ∉ t.toList →
      (withSize t s).toList.takeWhile (· != '(') = t.toList := by
    intro t s ht
    have hlist : (withSize t s).toList = t.toList ++ '(' :: (s.toList ++ [')']) := by
      simp [withSize]
    rw [hlist, List.takeWhile_append_of_pos fun c hc => bne_iff_ne.2 (ne_of_mem_of_not_mem hc ht)]
    simp
  have htarget : target = target' := by
    rw [← String.toList_inj, ← hstart size h, heq, hstart size' h']
  refine ⟨htarget, ?_⟩
  subst htarget
  rw [← String.toList_inj]
  simpa [withSize, ← String.toList_inj] using heq

theorem eq_of_withSize_tinyint {size : String} (h : '(' ∉ target.toList)
    (heq : withSize target size = "TINYINT(1)") : target = "TINYINT" ∧ size = "1" := by
  have hsize : "TINYINT(1)" = withSize "TINYINT" "1" := by decide
  rw [hsize] at heq
  exact withSize_inj h (by decide) heq

/-- Only one type that is read is rendered as a whole number of one byte. -/
theorem eq_of_lookup_tinyint {d : Dialect} (h : n ∈ DataType.readable)
    (hlookup : (ofDialect d).lookup n = some "TINYINT") : n = "TINYINT" := by
  have hall : ∀ d ∈ Dialect.all, ∀ n ∈ DataType.readableNames,
      ((ofDialect d).entries.find? fun entry =>
        entry.1.toList.isPrefixOf (Text.foldCase n.toList)).map Prod.snd = some "TINYINT" →
          n = "TINYINT" := by
    decide +kernel
  rw [lookup_of_mem_readable _ h] at hlookup
  exact hall d (by cases d <;> decide) n (DataType.mem_readable_iff.1 h) hlookup

/-- A type of the catalog is written as a whole number of one digit only with this length. -/
theorem eq_of_sizedType_tinyint {d : Dialect} {length scale : Option UInt32}
    (h : (ofDialect d).sizedType target length scale = "TINYINT(1)")
    (htarget : target ≠ "TINYINT(1)") : target = "TINYINT" ∧ length = some 1 := by
  have htinyint : (ofDialect d).isScaled "TINYINT" = false ∧
      (ofDialect d).defaultSize? "TINYINT" = none := by
    cases d <;> decide
  unfold sizedType at h
  split at h
  · exact absurd h htarget
  rename_i hparen
  have hopen : '(' ∉ target.toList := by simpa using hparen
  split at h
  · rename_i hscaled
    have hnot : ∀ size, withSize target size ≠ "TINYINT(1)" := by
      intro size heq
      rw [(eq_of_withSize_tinyint hopen heq).1, htinyint.1] at hscaled
      cases hscaled
    split at h
    · exact absurd h (hnot _)
    · exact absurd h (hnot _)
    · exact absurd h htarget
  split at h
  · cases length with
    | some size =>
      obtain ⟨rfl, hsize⟩ := eq_of_withSize_tinyint hopen h
      have hdigits : Nat.toDigits 10 size.toNat = ['1'] := by
        simpa [toString, Nat.repr] using congrArg String.toList hsize
      have hread := Number.word32?_toDigits size
      have hone : Number.word32? ['1'] = some 1 := by decide
      rw [hdigits, hone] at hread
      exact ⟨rfl, hread.symm⟩
    | none =>
      cases hsize : (ofDialect d).defaultSize? target with
      | some size =>
        rw [hsize] at h
        rw [(eq_of_withSize_tinyint hopen h).1, htinyint.2] at hsize
        cases hsize
      | none =>
        rw [hsize] at h
        exact absurd h htarget
  · exact absurd h htarget

end Catalog

namespace Column

variable {d : Dialect} {c : Column}

/-- A column that does not hold truth values is not rendered as a whole number of one digit. -/
theorem renderedType_ne_tinyint (h : c.dataType ∈ DataType.readable) :
    c.renderedType d ≠ "TINYINT(1)" := by
  have hentries : ∀ entry ∈ (Catalog.ofDialect d).entries, entry.2 ≠ "TINYINT(1)" := by
    cases d <;> decide
  rw [renderedType]
  by_cases hset : c.isValueSet = true
  · rw [if_pos hset, valueSetType]
    by_cases hd : d.isMySqlFamily = true
    · rw [if_pos hd]
      intro hx
      have hfirst := congrArg (fun s => s.toList.head?) hx
      rcases DataType.eq_of_isValueSet h (Bool.and_eq_true_iff.1 hset).1 with hname | hname <;>
        simp [hname, Text.lower] at hfirst
    · rw [if_neg hd]
      intro hx
      have hopen : '(' ∉ (Catalog.ofDialect d).varyingText.toList := by cases d <;> decide
      have hne : (Catalog.ofDialect d).varyingText ≠ "TINYINT" := by cases d <;> decide
      exact hne (Catalog.eq_of_withSize_tinyint hopen hx).1
  rw [if_neg hset]
  by_cases hboolean : c.isBoolean = true
  · rw [if_pos hboolean]
    cases d <;> decide
  rw [if_neg hboolean]
  cases hlookup : c.catalogType? d with
  | none =>
    show (Catalog.ofDialect d).fallback ≠ _
    cases d <;> decide
  | some target =>
    intro hx
    rw [catalogType?] at hlookup
    obtain ⟨entry, hentry, rfl⟩ := Option.map_eq_some_iff.1 hlookup
    obtain ⟨htarget, hlength⟩ := Catalog.eq_of_sizedType_tinyint hx
      (hentries entry (List.mem_of_find?_eq_some hentry))
    rw [htarget] at hlookup
    have hname := Catalog.eq_of_lookup_tinyint h hlookup
    refine hboolean ?_
    rw [isBoolean, hname, hlength]
    decide

/-! ## Types that are read again -/

/-- A column with a type that columns can be read with, which is rendered as a type that can be
read and without backslashes in the literals of a value set. -/
structure HasSettledType (d : Dialect) (c : Column) : Prop where
  readable : c.dataType ∈ DataType.readable
  isRead : c.renderedType d ≠ "DATETIMEOFFSET"
  values : d.isMySqlFamily = true → ∀ v ∈ c.values, '\\' ∉ v.toList

/-- The definition that the rendered type of a column is read as. -/
def rereadType (d : Dialect) (c : Column) : ColumnDefinition :=
  (ColumnDefinition.ofText? ("c " ++ c.renderedType d)).getD { name := "c", dataType := c.dataType }

/-- The type of the column is written as tokens that are read as this definition. -/
theorem exists_writesType_rereadType (h : c.HasSettledType d) :
    ∃ ts, WritesType (c.renderedType d) ts (c.rereadType d) := by
  obtain ⟨ts, p, hp⟩ := exists_writesType d c h.isRead
  refine ⟨ts, hp.print, hp.spaced, hp.closed, fun n => ?_⟩
  rw [hp.reads n, rereadType, hp.ofText?]
  rfl

/-- **What a rendered type is read as is rendered in the same way.** -/
theorem renderedType_rereadType (h : c.HasSettledType d) :
    (c.rereadType d).toColumn.renderedType d = c.renderedType d := by
  have hsame := rerendered?_renderedType d c h.isRead (renderedType_ne_tinyint h.readable)
    fun hd _ => h.values hd
  obtain ⟨p, hp, htype⟩ := Option.map_eq_some_iff.1 hsame
  rw [rereadType, hp]
  exact htype

/-- A definition that has a name and a type and nothing else. -/
def IsTypeOnly (p : ColumnDefinition) : Prop :=
  p = { name := p.name, dataType := p.dataType, length := p.length, scale := p.scale,
        values := p.values }

theorem rereadType_of_writesType {ts : List Token} {p : ColumnDefinition}
    (h : WritesType (c.renderedType d) ts p) : c.rereadType d = { p with name := "c" } := by
  rw [rereadType, h.ofText?]
  rfl

theorem isTypeOnly_rereadType (h : c.HasSettledType d) : IsTypeOnly (c.rereadType d) := by
  rcases renderedType_cases d c with hfixed | ⟨target, a, htakes, htext⟩ | ⟨hd, hset⟩
  · obtain ⟨p, hp, hfixed⟩ := Dialect.exists_writesType_of_mem_fixedTypes hfixed h.isRead
    simp only [Dialect.isFixedDefinition, Bool.and_eq_true, beq_iff_eq] at hfixed
    rw [rereadType_of_writesType hp, hfixed.1.1]
    rfl
  · rw [rereadType_of_writesType (htext ▸ Catalog.writesType_sized htakes)]
    rfl
  · obtain ⟨hw, htext⟩ := renderedType_of_isValueSet hd hset
    rw [rereadType_of_writesType (htext ▸ writesType_values hw _)]
    rfl

/-- A column that holds truth values if another one does, and numbers of a kind if that one does. -/
structure IsLike (c' c : Column) : Prop where
  boolean : c'.isBoolean = c.isBoolean
  integer : c.isBoolean = false → c'.isInteger = c.isInteger
  fractional : c.isBoolean = false → c'.isFractional = c.isFractional

theorem IsLike.refl (c : Column) : c.IsLike c :=
  ⟨rfl, fun _ => rfl, fun _ => rfl⟩

theorem IsLike.trans {a b c : Column} (hab : a.IsLike b) (hbc : b.IsLike c) : a.IsLike c where
  boolean := hab.boolean.trans hbc.boolean
  integer := fun hc => (hab.integer (hbc.boolean.trans hc)).trans (hbc.integer hc)
  fractional := fun hc => (hab.fractional (hbc.boolean.trans hc)).trans (hbc.fractional hc)

theorem isLike_of_sameNumbers {c' : Column} {n m : String} (hn : c.dataType = n)
    (hm : c'.dataType = m) (hread : n ∈ DataType.readable) (hread' : m ∈ DataType.readable)
    (hboolean : c'.isBoolean = c.isBoolean)
    (h : c.isBoolean = false → Catalog.sameNumbers n m = true) : c'.IsLike c := by
  have hsame : c.isBoolean = false → c'.isInteger = c.isInteger ∧
      c'.isFractional = c.isFractional := by
    intro hc
    have hnumbers := h hc
    rw [Catalog.sameNumbers, Bool.and_eq_true, beq_iff_eq, beq_iff_eq] at hnumbers
    rw [isInteger, isInteger, isFractional, isFractional, DataType.isInteger, DataType.isInteger,
      DataType.isFractional, DataType.isFractional, hn, hm, DataType.fold_of_mem_readable n hread,
      DataType.fold_of_mem_readable m hread', hnumbers.1, hnumbers.2]
    exact ⟨rfl, rfl⟩
  exact ⟨hboolean, fun hc => (hsame hc).1, fun hc => (hsame hc).2⟩

/-- What is read of a type in a fixed spelling. -/
theorem dataType_rereadType_of_fixed (h : c.HasSettledType d)
    (hfixed : c.renderedType d ∈ d.fixedTypes) :
    (c.rereadType d).toColumn.dataType = Catalog.fixedName (c.renderedType d) ∧
      (c.rereadType d).toColumn.isBoolean = (c.renderedType d == booleanType d) := by
  obtain ⟨p, hp, hdefinition⟩ := Dialect.exists_writesType_of_mem_fixedTypes hfixed h.isRead
  simp only [Dialect.isFixedDefinition, Bool.and_eq_true, beq_iff_eq] at hdefinition
  obtain ⟨⟨hdata, -⟩, htruth⟩ := hdefinition
  rw [rereadType_of_writesType hp]
  exact ⟨congrArg ColumnDefinition.dataType hdata, htruth⟩

/-- A column whose type is rendered as a fixed one is read as a column like it. -/
theorem isLike_rereadType_of_fixed (h : c.HasSettledType d)
    (hfixed : c.renderedType d ∈ d.fixedTypes)
    (hboolean : c.isBoolean = true → c.renderedType d = booleanType d)
    (hkeeps : c.isBoolean = false →
      Catalog.keepsFixed d c.dataType (c.renderedType d) = true) :
    (c.rereadType d).toColumn.IsLike c := by
  obtain ⟨htype, htruth⟩ := dataType_rereadType_of_fixed h hfixed
  have hsplit : c.isBoolean = false → Catalog.sameNumbers c.dataType
      (Catalog.fixedName (c.renderedType d)) = true ∧
        (c.renderedType d = booleanType d → c.dataType = "BOOLEAN") := by
    intro hc
    have hk := hkeeps hc
    simp only [Catalog.keepsFixed, Bool.or_eq_true, Bool.and_eq_true, beq_iff_eq, bne_iff_ne]
      at hk
    obtain ⟨hnumbers, hname⟩ := hk.resolve_left h.isRead
    exact ⟨hnumbers, fun hx => hname.resolve_left fun hne => hne hx⟩
  refine isLike_of_sameNumbers rfl htype h.readable
    (Catalog.fixedName_mem_readable _ hfixed h.isRead) ?_ fun hc => (hsplit hc).1
  rw [htruth]
  cases hc : c.isBoolean with
  | true => rw [hboolean hc, beq_self_eq_true]
  | false =>
    rw [beq_eq_false_iff_ne]
    intro hx
    have htrue : DataType.isBoolean "BOOLEAN" c.length = true := by
      have hfold : DataType.fold "BOOLEAN" = "BOOLEAN" := by decide
      simp [DataType.isBoolean, hfold]
    rw [isBoolean, (hsplit hc).2 hx, htrue] at hc
    cases hc

/-- A column whose type is rendered with a size is read as a column like it. -/
theorem isLike_rereadType_of_takes (h : c.HasSettledType d) {target : String} {a : TypeArguments}
    (htakes : (Catalog.ofDialect d).takes target a = true)
    (htext : c.renderedType d = target ++ a.text) (hboolean : c.isBoolean = false)
    (hnumbers : Catalog.sameNumbers c.dataType (Catalog.readName target) = true) :
    (c.rereadType d).toColumn.IsLike c := by
  have hone : target ++ a.text ≠ "TINYINT(1)" := htext ▸ renderedType_ne_tinyint h.readable
  have hp' := rereadType_of_writesType (htext ▸ Catalog.writesType_sized htakes)
  have htarget := Catalog.mem_sizedTargets d target (Catalog.mem_of_takes htakes)
  rw [hp']
  refine isLike_of_sameNumbers rfl rfl h.readable
    (Catalog.readName_mem_readable target htarget) ?_ fun _ => hnumbers
  rw [hboolean]
  exact (Catalog.renderedType_definition htakes hone "c").1

/-- What is rendered of a type without an entry in the catalog. -/
theorem renderedType_of_catalogType?_eq_none (hset : c.isValueSet = false)
    (hboolean : c.isBoolean = false) (hlookup : c.catalogType? d = none) :
    c.renderedType d = (Catalog.ofDialect d).fallback := by
  rw [renderedType, hset, hboolean, hlookup]
  exact (if_neg Bool.false_ne_true).trans (if_neg Bool.false_ne_true)

/-- What is rendered of a type with an entry in the catalog. -/
theorem renderedType_of_catalogType?_eq_some {target : String} (hset : c.isValueSet = false)
    (hboolean : c.isBoolean = false) (hlookup : c.catalogType? d = some target) :
    c.renderedType d = (Catalog.ofDialect d).sizedType target c.length c.scale := by
  rw [renderedType, hset, hboolean, hlookup]
  exact (if_neg Bool.false_ne_true).trans (if_neg Bool.false_ne_true)

/-- A value set is read as a value set, or as a text. -/
theorem isLike_rereadType_of_isValueSet (h : c.HasSettledType d) (hset : c.isValueSet = true) :
    (c.rereadType d).toColumn.IsLike c := by
  have hname := DataType.eq_of_isValueSet h.readable (Bool.and_eq_true_iff.1 hset).1
  have hnot : ∀ length, DataType.isBoolean c.dataType length = false := by
    intro length
    rw [DataType.isBoolean, DataType.fold_of_mem_readable _ h.readable]
    rcases hname with hname | hname <;> simp [hname]
  by_cases hd : d.isMySqlFamily = true
  · obtain ⟨hw, htext⟩ := renderedType_of_isValueSet hd hset
    have hupper : Text.upper (Text.lower c.dataType) = c.dataType := by
      rcases hname with hname | hname <;> rw [hname] <;> decide
    rw [rereadType_of_writesType (htext ▸ writesType_values hw _)]
    refine isLike_of_sameNumbers rfl hupper h.readable h.readable ?_
      fun _ => by simp [Catalog.sameNumbers]
    show DataType.isBoolean (Text.upper (Text.lower c.dataType)) _ = _
    rw [hupper, hnot, isBoolean, hnot]
  · have hsized : (Catalog.ofDialect d).isSized (Catalog.ofDialect d).varyingText = true ∧
        ∀ n ∈ ["ENUM", "SET"], Catalog.sameNumbers n
          (Catalog.readName (Catalog.ofDialect d).varyingText) = true := by
      cases d <;> decide
    refine isLike_rereadType_of_takes (a := .length (c.maxValueLength + 2)) h
      (by simp [Catalog.takes, hsized.1]) ?_ (hnot _) (hsized.2 _ (by simpa using hname))
    rw [renderedType, if_pos hset, valueSetType, if_neg hd]
    exact Catalog.withSize_eq _ _

/-- What the catalog renders is read as a column like the one it was rendered for, if the catalog
keeps the numbers of its type. -/
theorem isLike_rereadType_of_keepsNumbers (h : c.HasSettledType d) (hset : c.isValueSet = false)
    (hboolean : c.isBoolean = false) (hkeeps : Catalog.keepsNumbers d c.dataType = true) :
    (c.rereadType d).toColumn.IsLike c := by
  have hfixed : ∀ {type : String}, c.renderedType d = type → type ∈ d.fixedTypes →
      Catalog.keepsFixed d c.dataType type = true → (c.rereadType d).toColumn.IsLike c := by
    intro type htype hmem hfixed
    subst htype
    refine isLike_rereadType_of_fixed h hmem (fun hc => ?_) fun _ => hfixed
    rw [hboolean] at hc
    cases hc
  cases hlookup : c.catalogType? d with
  | none =>
    exact hfixed (renderedType_of_catalogType?_eq_none hset hboolean hlookup)
      (Dialect.mem_fixedTypes.2 (Or.inr (Or.inl rfl)))
      (Catalog.keepsFixed_of_lookup_eq_none h.readable hkeeps hlookup)
  | some target =>
    have hcatalog := renderedType_of_catalogType?_eq_some hset hboolean hlookup
    obtain ⟨hsized, hunsized⟩ := Catalog.keepsFixed_of_lookup h.readable hkeeps hlookup
    rcases (Catalog.ofDialect d).sizedType_cases target c.length c.scale with hsame | htakes
    · exact hfixed (hcatalog.trans hsame) (Catalog.mem_fixedTypes_of_lookup hlookup) hunsized
    · obtain ⟨a, htakes, htext⟩ := htakes
      exact isLike_rereadType_of_takes h htakes (hcatalog.trans htext) hboolean
        (hsized (Catalog.mem_of_takes htakes))

/-- **A rendered type is read as a type of the same family**, apart from the types of bit strings
and years. -/
theorem isLike_rereadType (h : c.HasSettledType d) (hbit : c.dataType = "BIT" → c.isBoolean = true)
    (hyear : c.dataType = "YEAR" → d.isMySqlFamily = true) :
    (c.rereadType d).toColumn.IsLike c := by
  cases hset : c.isValueSet with
  | true => exact isLike_rereadType_of_isValueSet h hset
  | false =>
    cases hboolean : c.isBoolean with
    | true =>
      have htype : c.renderedType d = booleanType d := by
        rw [renderedType, hset, hboolean]
        exact (if_neg Bool.false_ne_true).trans (if_pos rfl)
      exact isLike_rereadType_of_fixed h (htype ▸ Dialect.mem_fixedTypes.2 (Or.inl rfl))
        (fun _ => htype) fun hc => absurd (hboolean.symm.trans hc) (by decide)
    | false =>
      exact isLike_rereadType_of_keepsNumbers h hset hboolean
        (Catalog.keepsNumbers_of_mem_readable d h.readable
          (fun hx => absurd (hboolean.symm.trans (hbit hx)) (by decide)) hyear)

/-! ## Bit strings and years -/

/-- A type that takes no size in the catalog is rendered without one. -/
theorem renderedType_of_lookup {target : String} (hset : c.isValueSet = false)
    (hboolean : c.isBoolean = false) (hlookup : c.catalogType? d = some target)
    (hplain : target ∉ (Catalog.ofDialect d).sized ++ (Catalog.ofDialect d).scaled) :
    c.renderedType d = (Catalog.ofDialect d).sizedType target none none := by
  rw [renderedType_of_catalogType?_eq_some hset hboolean hlookup]
  rcases (Catalog.ofDialect d).sizedType_cases target c.length c.scale with hsame | ⟨a, htakes, -⟩
  · exact hsame
  · exact absurd (Catalog.mem_of_takes htakes) hplain

/-- **Bit strings are rendered as the type of truth values**, and read as such. -/
theorem isBoolean_rereadType_of_bit (h : c.HasSettledType d) (hbit : c.dataType = "BIT") :
    (c.rereadType d).toColumn.isBoolean = true := by
  have htarget : ∀ d : Dialect, (Catalog.ofDialect d).lookup "BIT" = some (booleanType d) ∧
      booleanType d ∉ (Catalog.ofDialect d).sized ++ (Catalog.ofDialect d).scaled ∧
      (Catalog.ofDialect d).sizedType (booleanType d) none none = booleanType d := by
    intro d
    cases d <;> decide +kernel
  have hset : c.isValueSet = false := by
    rw [isValueSet, hbit]
    exact Bool.and_eq_false_imp.2 fun hx => absurd hx (by decide)
  have htype : c.renderedType d = booleanType d := by
    cases hboolean : c.isBoolean with
    | true => rw [renderedType, hset, hboolean]; rfl
    | false =>
      obtain ⟨hlookup, hplain, hsame⟩ := htarget d
      rw [renderedType_of_lookup hset hboolean ((congrArg _ hbit).trans hlookup) hplain, hsame]
  rw [(dataType_rereadType_of_fixed h (htype ▸ Dialect.mem_fixedTypes.2 (Or.inl rfl))).2, htype,
    beq_self_eq_true]

/-- **Years are rendered as whole numbers** outside of MySQL and MariaDB, and read as such. -/
theorem isInteger_rereadType_of_year (hd : d.isMySqlFamily = false) (h : c.HasSettledType d)
    (hyear : c.dataType = "YEAR") :
    (c.rereadType d).toColumn.isBoolean = false ∧ (c.rereadType d).toColumn.isInteger = true := by
  have htarget : ∀ d : Dialect, d.isMySqlFamily = false → ∃ target,
      (Catalog.ofDialect d).lookup "YEAR" = some target ∧
      target ∉ (Catalog.ofDialect d).sized ++ (Catalog.ofDialect d).scaled ∧
      (Catalog.ofDialect d).sizedType target none none ≠ booleanType d ∧
      DataType.isInteger (Catalog.fixedName
        ((Catalog.ofDialect d).sizedType target none none)) = true := by
    intro d hd
    cases d with
    | mysql | mariadb => cases hd
    | postgresql | sqlserver => exact ⟨"SMALLINT", by decide +kernel⟩
    | sqlite => exact ⟨"INTEGER", by decide +kernel⟩
  obtain ⟨target, hlookup, hplain, hne, hinteger⟩ := htarget d hd
  have hset : c.isValueSet = false := by
    rw [isValueSet, hyear]
    exact Bool.and_eq_false_imp.2 fun hx => absurd hx (by decide)
  have hboolean : c.isBoolean = false := by
    rw [isBoolean, hyear]
    have hfold : DataType.fold "YEAR" = "YEAR" := by decide
    simp [DataType.isBoolean, hfold]
  have hlookup : c.catalogType? d = some target := (congrArg _ hyear).trans hlookup
  have htype := renderedType_of_lookup hset hboolean hlookup hplain
  obtain ⟨hdata, htruth⟩ := dataType_rereadType_of_fixed h
    (htype ▸ Catalog.mem_fixedTypes_of_lookup hlookup)
  refine ⟨?_, ?_⟩
  · rw [htruth, htype]
    exact beq_eq_false_iff_ne.2 hne
  · rw [isInteger, hdata, htype]
    exact hinteger

end Column
end SchemaScript
