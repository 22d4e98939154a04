import Mathlib.Data.List.Infix
import Mathlib.Data.List.Nodup
import SchemaScript.Catalog

/-!
# The longest beginning of a type name

A catalog renders a type by the first entry whose beginning the name of the type has. Among all
the entries that fit, that is the one with the longest beginning, and there is no second one of
that length (`Catalog.lookup_eq_longest`): a `datetime2` is taken neither for a `datetime` nor for
a `date`.

Two beginnings of one name that are equally long are equal, so it suffices that a catalog has its
longer beginnings first and none of them twice (`Catalog.isOrdered_ofDialect`).
-/

namespace SchemaScript
namespace Catalog

variable {entries : List (String × String)} {entry other : String × String} {name : List Char}

/-- The name that the beginnings of the entries are compared with: folded, in lower case. -/
def searchName (typeName : String) : List Char :=
  Text.foldCase (DataType.fold typeName).toList

/-- An entry fits a name that has its beginning. -/
def Fits (entry : String × String) (name : List Char) : Prop :=
  entry.1.toList <+: name

/-- An entry that fits the name, with no longer beginning among the entries that do. -/
structure IsLongest (entries : List (String × String)) (name : List Char)
    (entry : String × String) : Prop where
  mem : entry ∈ entries
  fits : Fits entry name
  longest : ∀ other ∈ entries, Fits other name → other.1.length ≤ entry.1.length

/-- Longer beginnings stand before shorter ones, and none stands twice. -/
structure IsOrdered (entries : List (String × String)) : Prop where
  longerFirst : entries.Pairwise fun first second => second.1.length ≤ first.1.length
  distinct : (entries.map Prod.fst).Nodup

/-! ## Beginnings of one name -/

/-- Two beginnings of one name that are equally long are equal. -/
theorem Fits.fst_eq (h : Fits entry name) (h' : Fits other name)
    (hlength : entry.1.length = other.1.length) : entry.1 = other.1 := by
  have hlist : entry.1.toList.length = other.1.toList.length := by
    simpa only [String.length_toList] using hlength
  have hbegins : entry.1.toList <+: other.1.toList :=
    List.prefix_of_prefix_length_le h h' hlist.le
  exact String.toList_inj.1 (hbegins.eq_of_length hlist)

/-- No two entries of an ordered catalog are the longest ones for a name. -/
theorem IsLongest.unique (hordered : IsOrdered entries) (h : IsLongest entries name entry)
    (h' : IsLongest entries name other) : entry = other := by
  have hlength : entry.1.length = other.1.length :=
    le_antisymm (h'.longest entry h.mem h.fits) (h.longest other h'.mem h'.fits)
  exact List.inj_on_of_nodup_map hordered.distinct h.mem h'.mem (h.fits.fst_eq h'.fits hlength)

/-! ## The first entry that fits -/

/-- The first entry that fits is a longest one, if longer beginnings stand first. -/
theorem IsOrdered.isLongest_of_find? (hordered : IsOrdered entries)
    (h : entries.find? (fun entry => entry.1.toList.isPrefixOf name) = some entry) :
    IsLongest entries name entry := by
  obtain ⟨hfits, before, after, hentries, hbefore⟩ := List.find?_eq_some_iff_append.1 h
  refine ⟨List.mem_of_find?_eq_some h, List.isPrefixOf_iff_prefix.1 hfits, ?_⟩
  intro other hmem hother
  have hlonger := hordered.longerFirst
  rw [hentries, List.pairwise_append, List.pairwise_cons] at hlonger
  rw [hentries, List.mem_append, List.mem_cons] at hmem
  rcases hmem with hmem | rfl | hmem
  · -- before the first entry that fits there is none that does
    have hnot := hbefore other hmem
    rw [List.isPrefixOf_iff_prefix.2 hother] at hnot
    cases hnot
  · exact le_rfl
  · exact hlonger.2.1.1 other hmem

/-- In an ordered catalog the first entry that fits is the longest one. -/
theorem IsOrdered.find?_eq_some_iff (hordered : IsOrdered entries) :
    entries.find? (fun entry => entry.1.toList.isPrefixOf name) = some entry ↔
      IsLongest entries name entry := by
  refine ⟨hordered.isLongest_of_find?, fun h => ?_⟩
  have hsome : (entries.find? fun entry => entry.1.toList.isPrefixOf name).isSome = true :=
    List.find?_isSome.2 ⟨entry, h.mem, List.isPrefixOf_iff_prefix.2 h.fits⟩
  obtain ⟨first, hfirst⟩ := Option.isSome_iff_exists.1 hsome
  rw [hfirst, (hordered.isLongest_of_find? hfirst).unique hordered h]

/-! ## The catalogs -/

/-- The catalog of every dialect has its longer beginnings first, and none of them twice. -/
theorem isOrdered_ofDialect (d : Dialect) : IsOrdered (ofDialect d).entries := by
  constructor
  · cases d <;> decide +kernel
  · cases d <;> decide +kernel

/-- **A type is rendered by the longest beginning of its name.** A dialect renders a type by the
one entry of its catalog that has the longest beginning among those that fit the folded,
lower-case name, and by none exactly if no entry fits. -/
theorem lookup_eq_longest (d : Dialect) (typeName : String) :
    (∀ target, (ofDialect d).lookup typeName = some target ↔
      ∃ entry, (∀ other, IsLongest (ofDialect d).entries (searchName typeName) other ↔
        other = entry) ∧ entry.2 = target) ∧
    ((ofDialect d).lookup typeName = none ↔
      ∀ entry ∈ (ofDialect d).entries, ¬ Fits entry (searchName typeName)) := by
  have hordered := isOrdered_ofDialect d
  constructor
  · intro target
    rw [lookup, Option.map_eq_some_iff]
    refine exists_congr fun entry => and_congr_left fun _ => ?_
    rw [hordered.find?_eq_some_iff]
    constructor
    · intro h other
      exact ⟨fun hother => hother.unique hordered h, fun hother => hother ▸ h⟩
    · intro h
      exact (h entry).2 rfl
  · rw [lookup, Option.map_eq_none_iff, List.find?_eq_none]
    refine forall₂_congr fun entry _ => not_congr ?_
    exact List.isPrefixOf_iff_prefix

/-- A longer beginning wins: `datetime2` over `datetime` and `date`. -/
example : (ofDialect .sqlserver).lookup "DateTime2" = some "DATETIME2" := by decide +kernel

end Catalog
end SchemaScript
