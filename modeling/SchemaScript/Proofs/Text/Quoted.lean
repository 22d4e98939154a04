import SchemaScript.Proofs.Text.Blanks
import SchemaScript.Proofs.Text.Case

/-!
# Searching quoted texts

Between quotes a text has its quotes doubled and is otherwise the same. What is looked for without
a quote in it is therefore found in the quoted text where it is found in the text itself: at the
beginning (`stripStart?_quotedTail`), and anywhere inside (`containsIgnoringCase_enclose`).
-/

namespace SchemaScript
namespace Text

/-- A quoted text behind its opening quote. -/
def quotedTail (cs : List Char) : List Char :=
  double '\'' cs ++ ['\'']

@[simp] theorem quotedTail_nil : quotedTail [] = ['\''] := rfl

@[simp] theorem quotedTail_quote (cs : List Char) :
    quotedTail ('\'' :: cs) = '\'' :: '\'' :: quotedTail cs := by
  simp [quotedTail]

theorem quotedTail_cons {c : Char} (h : c ≠ '\'') (cs : List Char) :
    quotedTail (c :: cs) = c :: quotedTail cs := by
  simp [quotedTail, double_cons_of_ne h]

theorem toList_enclose_eq (s : String) :
    (enclose '\'' s).toList = '\'' :: quotedTail s.toList := by
  simp [quotedTail]

theorem stripStart?_quotedTail {start : List Char} (h : '\'' ∉ start) (cs : List Char) :
    stripStart? start (quotedTail cs) = (stripStart? start cs).map quotedTail := by
  induction start generalizing cs with
  | nil => simp
  | cons s start ih =>
    rw [List.mem_cons, not_or] at h
    cases cs with
    | nil => simp [stripStart?, Ne.symm h.1]
    | cons c cs =>
      by_cases hc : c = '\''
      · subst hc
        simp [stripStart?, Ne.symm h.1]
      · rw [quotedTail_cons hc, stripStart?, stripStart?]
        split
        · exact ih h.2 cs
        · rfl

theorem foldCase_quotedTail (cs : List Char) :
    foldCase (quotedTail cs) = quotedTail (foldCase cs) := by
  induction cs with
  | nil => rfl
  | cons c cs ih =>
    by_cases hc : c = '\''
    · subst hc
      simp [ih, show '\''.toLower = '\'' from rfl]
    · have hlower : c.toLower ≠ '\'' := fun hx => hc (eq_of_toLower_eq hx (by decide))
      rw [quotedTail_cons hc, foldCase_cons, foldCase_cons, quotedTail_cons hlower, ih]

/-- The quotes protect the blanks of a text from being trimmed off. -/
theorem trim_enclose (s : String) : trim (enclose '\'' s).toList = (enclose '\'' s).toList := by
  have hlast : ∀ c ∈ ('\'' :: quotedTail s.toList).getLast?, isBlank c = false := by
    intro c hc
    rw [quotedTail, ← List.cons_append, List.getLast?_concat] at hc
    cases hc
    rfl
  rw [toList_enclose_eq]
  exact trim_append_of_ends (a := []) (by simp) (stops_cons.2 (by decide)) hlast

/-- Doubling quotes drops no character. -/
theorem subset_double (q : Char) (cs : List Char) : cs ⊆ double q cs := by
  induction cs with
  | nil => exact List.Subset.refl _
  | cons c cs ih =>
    by_cases h : c = q
    · subst h
      rw [double_quote]
      exact List.cons_subset_cons c (List.subset_cons_of_subset c ih)
    · rw [double_cons_of_ne h]
      exact List.cons_subset_cons c ih

/-- A text is found only where its characters are. -/
theorem subset_of_occursIn {needle cs : List Char} (h : occursIn needle cs = true) :
    needle ⊆ cs := by
  induction cs with
  | nil => exact List.isEmpty_iff.1 h ▸ List.Subset.refl _
  | cons c cs ih =>
    rw [occursIn, Bool.or_eq_true, List.isPrefixOf_iff_prefix] at h
    rcases h with h | h
    · exact h.subset
    · exact List.subset_cons_of_subset c (ih h)

/-- A text is not found at a character that it does not have. -/
theorem occursIn_cons_of_notMem {needle : List Char} {c : Char} (hne : needle ≠ [])
    (h : c ∉ needle) (cs : List Char) : occursIn needle (c :: cs) = occursIn needle cs := by
  have hno : needle.isPrefixOf (c :: cs) = false := by
    rw [← Bool.not_eq_true, List.isPrefixOf_iff_prefix, List.prefix_cons_iff]
    rintro (hnil | ⟨ns, rfl, -⟩)
    · exact hne hnil
    · exact h List.mem_cons_self
  rw [occursIn, hno, Bool.false_or]

theorem occursIn_quotedTail {needle : List Char} (hne : needle ≠ []) (h : '\'' ∉ needle)
    (cs : List Char) : occursIn needle (quotedTail cs) = occursIn needle cs := by
  have hprefix : ∀ ds, needle.isPrefixOf (quotedTail ds) = needle.isPrefixOf ds := by
    intro ds
    rw [Bool.eq_iff_iff, List.isPrefixOf_iff_prefix, List.isPrefixOf_iff_prefix,
      ← stripStart?_isSome_iff, ← stripStart?_isSome_iff, stripStart?_quotedTail h,
      Option.isSome_map]
  have hquote := occursIn_cons_of_notMem hne h
  induction cs with
  | nil => rw [quotedTail_nil, hquote]
  | cons c cs ih =>
    by_cases hc : c = '\''
    · subst hc
      rw [quotedTail_quote, hquote, hquote, hquote, ih]
    · have hstart := hprefix (c :: cs)
      rw [quotedTail_cons hc] at hstart ⊢
      rw [occursIn, occursIn, hstart, ih]

/-- A text without quotes in it stands in a quoted text where it stands in the text itself. -/
theorem containsIgnoringCase_enclose {needle : String} (hne : needle.toList ≠ [])
    (h : '\'' ∉ needle.toList) (s : String) :
    containsIgnoringCase (enclose '\'' s) needle = containsIgnoringCase s needle := by
  have hfold : '\'' ∉ foldCase needle.toList := by
    intro hx
    obtain ⟨c, hc, hlower⟩ := List.mem_map.1 hx
    rw [eq_of_toLower_eq hlower (by decide)] at hc
    exact h hc
  have hfoldne : foldCase needle.toList ≠ [] := fun hx => hne (List.map_eq_nil_iff.1 hx)
  have hopening : '\''.toLower = '\'' := rfl
  rw [containsIgnoringCase, containsIgnoringCase, toList_enclose_eq, foldCase_cons, hopening,
    occursIn_cons_of_notMem hfoldne hfold, foldCase_quotedTail, occursIn_quotedTail hfoldne hfold]

end Text
end SchemaScript
