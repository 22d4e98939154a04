import Mathlib.Data.List.Chain
import SchemaScript.Proofs.Script.SealedNumbers
import SchemaScript.Proofs.Script.TidyQuoted
import SchemaScript.Proofs.Text.Case

/-!
# Texts that are neither tidied nor cut

Tidying a script does not touch a *calm* text: between its literals there is nothing that tidying
looks for, and the texts of its literals are tidy between quotes (`IsCalm`). Calm texts can be put
behind each other, for the parts between literals are such that nothing tidying looks for comes
about where two of them meet (`IsCalmPart.append`).

The lines of a calm text are tidy lines if the first one is, and that one is unless it ends a batch
(`IsCalm.map_tidyLine`). A text that is calm and sealed is *clean*: it can be part of a script and
is left as it is, wherever it stands.
-/

namespace SchemaScript

open Text (double)

namespace Script

/-! ## Parts of lines -/

/-- Whether a part of a line has nothing in it that tidying looks for: neither a number sign nor
the period and the quote in the name of the default collation. -/
structure IsCalmPart (p : List Char) : Prop where
  noNewline : '\n' ∉ p
  noReturn : '\r' ∉ p
  noHash : '#' ∉ p
  noName : p.IsChain fun c d => ¬ (c = '.' ∧ d = '"')
  start : p.head? ≠ some '"'

/-- There is a quote behind a period in the name of the default collation. -/
theorem exists_of_behindCollation? {cs rest : List Char} (h : behindCollation? cs = some rest) :
    ∃ a b, cs = a ++ '.' :: '"' :: b := by
  simp only [behindCollation?, Option.bind_eq_some_iff] at h
  obtain ⟨x, hx, y, hy, z, hz, hlast⟩ := h
  obtain ⟨front, hfront⟩ : z <:+ cs := ((dropIndent?_suffix hz).trans
    (stripIgnoringCase?_suffix hy)).trans (dropIndent?_suffix hx)
  have hstarts : Text.startsWithIgnoringCase z "pg_catalog.\"default\"".toList = true := by
    unfold stripIgnoringCase? at hlast
    split at hlast
    · assumption
    · cases hlast
  rw [Text.startsWithIgnoringCase_eq, List.isPrefixOf_iff_prefix] at hstarts
  obtain ⟨more, hmore⟩ := hstarts
  have hname : Text.foldCase "pg_catalog.\"default\"".toList =
      "pg_catalog".toList ++ '.' :: '"' :: "default\"".toList := by
    decide
  rw [hname, List.append_assoc, List.cons_append, List.cons_append, Text.foldCase, eq_comm,
    List.map_eq_append_iff] at hmore
  obtain ⟨a, behind, rfl, -, hbehind⟩ := hmore
  obtain ⟨c, behind, rfl, hc, hbehind⟩ := List.map_eq_cons_iff.1 hbehind
  obtain ⟨d, behind, rfl, hd, -⟩ := List.map_eq_cons_iff.1 hbehind
  obtain rfl := Text.eq_of_toLower_eq hc (by decide)
  obtain rfl := Text.eq_of_toLower_eq hd (by decide)
  exact ⟨front ++ a, behind, by rw [← hfront, List.append_assoc]⟩

namespace IsCalmPart

variable {p q : List Char}

theorem of_notMem (h : ∀ c ∈ p, c ∉ ['\n', '\r', '#', '"']) : IsCalmPart p where
  noNewline := fun hx => h _ hx (by decide)
  noReturn := fun hx => h _ hx (by decide)
  noHash := fun hx => h _ hx (by decide)
  noName := by
    refine List.Pairwise.isChain (List.pairwise_iff_forall_sublist.2 fun {c d} hcd hx => ?_)
    exact h d (hcd.subset (by simp)) (by simp [hx.2])
  start := fun hx => h _ (List.mem_of_head? hx) (by decide)

theorem nil : IsCalmPart [] :=
  of_notMem fun _ hc => absurd hc List.not_mem_nil

theorem append (hp : IsCalmPart p) (hq : IsCalmPart q) : IsCalmPart (p ++ q) where
  noNewline := List.mem_append.not.2 (not_or.2 ⟨hp.noNewline, hq.noNewline⟩)
  noReturn := List.mem_append.not.2 (not_or.2 ⟨hp.noReturn, hq.noReturn⟩)
  noHash := List.mem_append.not.2 (not_or.2 ⟨hp.noHash, hq.noHash⟩)
  noName := List.isChain_append.2 ⟨hp.noName, hq.noName, fun _ _ d hd hx =>
    hq.start (hx.2 ▸ hd)⟩
  start := by
    cases p with
    | nil => exact hq.start
    | cons c p => exact hp.start

theorem removeCollation_eq (h : IsCalmPart p) : removeCollation p = p := by
  refine removeCollation_eq_self_iff.2 ?_
  rintro ⟨a, b, rfl, hb⟩
  obtain ⟨rest, hrest⟩ := Option.isSome_iff_exists.1 hb
  obtain ⟨x, y, rfl⟩ := exists_of_behindCollation? hrest
  have hname := h.noName
  rw [← List.append_assoc, List.isChain_append_cons_cons] at hname
  exact hname.2.1 ⟨rfl, rfl⟩

theorem isHashComment_eq (h : IsCalmPart p) : isHashComment p = false := by
  refine beq_eq_false_iff_ne.2 fun hx => h.noHash ?_
  exact (List.dropWhile_suffix _).mem (List.mem_of_head? hx)

end IsCalmPart

/-- Whether a character is in no line that ends a batch. -/
def isMark (c : Char) : Bool :=
  !isIndent c && c != ';' && c.toLower != 'g' && c.toLower != 'o'

/-- A line that ends a batch has nothing in it besides. -/
theorem isBatchEnd_eq_false {l : List Char} (h : ∃ c ∈ l, isMark c = true) :
    isBatchEnd l = false := by
  obtain ⟨c, hc, hmark⟩ := h
  simp only [isMark, Bool.and_eq_true, Bool.not_eq_true', bne_iff_ne] at hmark
  obtain ⟨⟨⟨hindent, hsemicolon⟩, hg⟩, ho⟩ := hmark
  -- the character stands behind everything that is dropped
  have hdrop : ∀ {cs : List Char}, c ∈ cs → c ∈ cs.dropWhile isIndent := by
    intro cs hcs
    rw [← List.takeWhile_append_dropWhile (p := isIndent) (l := cs), List.mem_append] at hcs
    refine hcs.resolve_left fun hx => ?_
    rw [List.mem_takeWhile_imp hx] at hindent
    cases hindent
  have hstrip : ∀ {cs rest : List Char}, c ∈ cs →
      stripIgnoringCase? "GO".toList cs = some rest → c ∈ rest := by
    intro cs rest hcs hrest
    unfold stripIgnoringCase? at hrest
    split at hrest
    · rename_i hstarts
      cases hrest
      rcases cs with _ | ⟨x, _ | ⟨y, cs⟩⟩
      · cases hstarts
      · simp [Text.startsWithIgnoringCase] at hstarts
      · have hletters : x.toLower = 'g' ∧ y.toLower = 'o' := by
          simpa [Text.startsWithIgnoringCase] using hstarts
        rcases List.mem_cons.1 hcs with rfl | hcs
        · exact absurd hletters.1 hg
        rcases List.mem_cons.1 hcs with rfl | hcs
        · exact absurd hletters.2 ho
        · exact hcs
    · cases hrest
  rw [isBatchEnd]
  cases hword : stripIgnoringCase? "GO".toList (l.dropWhile isIndent) with
  | none => rfl
  | some rest =>
    have hrest : c ∈ rest.dropWhile isIndent := hdrop (hstrip (hdrop hc) hword)
    dsimp only
    split
    · rename_i behind hbehind
      rw [hbehind] at hrest
      have hmem := (List.mem_cons.1 hrest).resolve_left hsemicolon
      rw [Bool.eq_false_iff]
      intro hall
      rw [List.all_eq_true.1 hall c hmem] at hindent
      cases hindent
    · exact List.isEmpty_eq_false_iff.2 (List.ne_nil_of_mem hrest)

/-! ## Texts with literals -/

/-- Whether a text can stand between quotes without being tidied. -/
structure IsTidyLiteral (v : List Char) : Prop where
  tidy : IsTidyQuoted v
  noReturn : '\r' ∉ v

theorem lines_double {q : Char} (hq : q ≠ '\n') (cs : List Char) :
    lines (double q cs) = (lines cs).map (double q) := by
  have hne : (lines cs).map (double q) ≠ [] := by simpa using lines_ne_nil cs
  have hlines := lines_unlines hne (List.forall_mem_map.2 fun l hl hx =>
    newline_notMem_of_mem_lines hl (Text.double_subset _ _ hx))
  rwa [unlines_map_double hq (lines_ne_nil cs), unlines_lines] at hlines

/-- A text stays tidy between quotes when its backslashes are doubled. -/
theorem IsTidyLiteral.double_backslash {v : List Char} (h : IsTidyLiteral v) :
    IsTidyLiteral (double '\\' v) := by
  have hlines : lines (double '\\' v) = (lines v).map (double '\\') := lines_double (by decide) v
  refine ⟨⟨?_, ?_, ?_⟩, fun hx => h.noReturn (Text.double_subset _ _ hx)⟩
  · rw [hlines]
    refine List.forall_mem_map.2 fun l hl => removeCollation_eq_self_iff.1 ?_
    rw [isForeign_backslash.removeCollation_double,
      removeCollation_eq_self_iff.2 (h.tidy.noCollation l hl)]
  · rw [hlines, ← List.map_tail, ← List.map_dropLast]
    refine List.forall_mem_map.2 fun l hl => ?_
    rw [isForeign_backslash.isBatchEnd_double]
    exact h.tidy.noBatchEnd l hl
  · rw [hlines, ← List.map_tail]
    refine List.forall_mem_map.2 fun l hl => ?_
    rw [isForeign_backslash.isHashComment_double]
    exact h.tidy.noComment l hl

/-- Whether tidying leaves a text as it is, whatever stands around it. -/
inductive IsCalm : List Char → Prop
  | part {p : List Char} (calm : IsCalmPart p) : IsCalm p
  | quoted {p v w : List Char} (calm : IsCalmPart p) (literal : IsTidyLiteral v)
      (rest : IsCalm w) : IsCalm (p ++ '\'' :: (double '\'' v ++ '\'' :: w))

namespace IsCalm

variable {v w : List Char}

theorem append (hv : IsCalm v) (hw : IsCalm w) : IsCalm (v ++ w) := by
  induction hv with
  | part hp =>
    cases hw with
    | part hq => exact .part (hp.append hq)
    | quoted hq hv hw =>
      rw [← List.append_assoc]
      exact .quoted (hp.append hq) hv hw
  | quoted hp hv _ ih =>
    rw [List.append_assoc, List.cons_append, List.append_assoc, List.cons_append]
    exact .quoted hp hv ih

theorem literal (h : IsTidyLiteral v) : IsCalm ('\'' :: double '\'' v ++ ['\'']) :=
  .quoted .nil h (.part .nil)

theorem noReturn (h : IsCalm w) : '\r' ∉ w := by
  induction h with
  | part hp => exact hp.noReturn
  | quoted hp hv _ ih =>
    have hdouble : ∀ v : List Char, '\r' ∉ v → '\r' ∉ double '\'' v := fun v hv hx =>
      hv (Text.double_subset _ _ hx)
    simp [hp.noReturn, hdouble _ hv.noReturn, ih]

/-- The lines of a quoted text with more lines behind it. -/
theorem lines_double_append_of_lines {m : List Char} {ms : List (List Char)} (h : lines w = m :: ms)
    (v : List Char) : lines (double '\'' v ++ '\'' :: w) = quotedLines m (lines v) ++ ms := by
  have hlines : ∀ l ∈ m :: ms, '\n' ∉ l := fun l hl =>
    newline_notMem_of_mem_lines (h ▸ hl)
  obtain ⟨hm, hms⟩ := List.forall_mem_cons.1 hlines
  have hw := unlines_lines w
  rw [h] at hw
  cases ms with
  | nil =>
    obtain rfl : m = w := hw
    rw [lines_double_append hm, List.append_nil]
  | cons m' ms =>
    have hsplit : double '\'' v ++ '\'' :: w =
        (double '\'' v ++ '\'' :: m) ++ '\n' :: unlines (m' :: ms) := by
      rw [← hw, unlines_cons (List.cons_ne_nil _ _), List.append_assoc, List.cons_append]
    rw [hsplit, lines_append_newline, lines_double_append hm,
      lines_unlines (List.cons_ne_nil _ _) hms]

/-- Behind a quote all lines of a calm text are tidy. -/
theorem tidyBehindQuote_lines (h : IsCalm w) : tidyBehindQuote (lines w) = lines w := by
  induction h with
  | part hp =>
    rw [lines_of_notMem hp.noNewline, tidyBehindQuote, hp.removeCollation_eq, List.map_nil]
  | @quoted p v w hp hv _ ih =>
    obtain ⟨m, ms, hm⟩ := exists_lines_eq_cons w
    rw [hm, tidyBehindQuote, List.cons.injEq] at ih
    obtain ⟨hkeeps, htidy⟩ := isTidyQuoted_iff.1 hv.tidy
    have hbetween : tidyBetween (lines v) = lines v := by rw [← lines_tidyQuoted, htidy]
    have hquoted := tidyBehindQuote_quotedLines ih.1 hkeeps
    rw [hbetween] at hquoted
    have hlines := lines_double_append_of_lines hm v
    have hne : '\'' ≠ '\n' := by decide
    have hnonempty : quotedLines m (lines v) ≠ [] := quotedLines_ne_nil (lines_ne_nil v)
    obtain ⟨x, xs, hx⟩ := List.exists_cons_of_ne_nil hnonempty
    rw [hx, tidyBehindQuote, List.cons.injEq] at hquoted
    rw [hx, List.cons_append] at hlines
    rw [lines_append_of_notMem hp.noNewline, lines_cons_of_ne hne hlines, List.modifyHead_cons,
      tidyBehindQuote, isForeign_quote.removeCollation_append_cons, hp.removeCollation_eq,
      hquoted.1, List.map_append, hquoted.2, ih.2]

/-- **The lines of a calm text are tidy**, if the text does not only consist of what a line that
ends a batch does. -/
theorem map_tidyLine (h : IsCalm w) (hmark : ∃ c ∈ w, isMark c = true) :
    (lines w).map tidyLine = lines w := by
  have hbehind := h.tidyBehindQuote_lines
  obtain ⟨l, ls, hl⟩ := exists_lines_eq_cons w
  rw [hl, tidyBehindQuote, List.cons.injEq] at hbehind
  rw [hl, List.map_cons, hbehind.2]
  congr 1
  cases h with
  | part hp =>
    rw [lines_of_notMem hp.noNewline, List.cons.injEq] at hl
    obtain ⟨rfl, -⟩ := hl
    rw [tidyLine, hp.removeCollation_eq, isBatchEnd_eq_false hmark, hp.isHashComment_eq]
    rfl
  | @quoted p v w hp hv hw =>
    obtain ⟨x, xs, hx⟩ := exists_lines_eq_cons (double '\'' v ++ '\'' :: w)
    have hne : '\'' ≠ '\n' := by decide
    rw [lines_append_of_notMem hp.noNewline, lines_cons_of_ne hne hx, List.modifyHead_cons,
      List.cons.injEq] at hl
    obtain ⟨rfl, -⟩ := hl
    have hfirst := hbehind.1
    rw [isForeign_quote.removeCollation_append_cons] at hfirst
    rw [tidyLine_append_quote, hfirst, hp.removeCollation_eq, hp.isHashComment_eq]
    rfl

end IsCalm

/-! ## Clean texts -/

/-- Whether a character opens nothing, and tidying looks for it nowhere but in a name. -/
def isQuiet (c : Char) : Bool :=
  Mode.isInert c && c != '\n' && c != '\r' && c != '#'

/-- Whether a text is neither cut nor tidied, whatever stands around it. -/
structure IsClean (w : List Char) : Prop where
  isSealed : IsSealed w
  isCalm : IsCalm w

namespace IsClean

variable {v w : List Char} {a b : String}

theorem append (hv : IsClean v) (hw : IsClean w) : IsClean (v ++ w) :=
  ⟨hv.isSealed.append hw.isSealed, hv.isCalm.append hw.isCalm⟩

theorem of_quiet (h : w.all isQuiet = true) : IsClean w := by
  have hall : ∀ c ∈ w, Mode.isInert c = true ∧ c ∉ ['\n', '\r', '#', '"'] := by
    intro c hc
    have hquiet := List.all_eq_true.1 h c hc
    simp only [isQuiet, Bool.and_eq_true, bne_iff_ne] at hquiet
    obtain ⟨⟨⟨hinert, hnewline⟩, hreturn⟩, hhash⟩ := hquiet
    refine ⟨hinert, ?_⟩
    rintro hx
    simp only [List.mem_cons, List.not_mem_nil, or_false] at hx
    rcases hx with hx | hx | hx | rfl
    · exact hnewline hx
    · exact hreturn hx
    · exact hhash hx
    · cases hinert
  exact ⟨IsSealed.of_inert (List.all_eq_true.2 fun c hc => (hall c hc).1),
    .part (IsCalmPart.of_notMem fun c hc => (hall c hc).2)⟩

theorem nil : IsClean [] :=
  of_quiet rfl

theorem literal (h : IsTidyLiteral v) : IsClean ('\'' :: double '\'' v ++ ['\'']) :=
  ⟨IsSealed.enclosed Mode.encloses_single v, IsCalm.literal h⟩

theorem keyword (word : String) (h : word.toList.all isQuiet = true) : IsClean word.toList :=
  of_quiet h

theorem string_append (ha : IsClean a.toList) (hb : IsClean b.toList) :
    IsClean (a ++ b).toList := by
  rw [String.toList_append]
  exact ha.append hb

theorem string_intercalate {sep : String} {strings : List String} (hsep : IsClean sep.toList)
    (h : ∀ s ∈ strings, IsClean s.toList) : IsClean (sep.intercalate strings).toList := by
  induction strings with
  | nil => exact nil
  | cons s strings ih =>
    obtain ⟨hs, hstrings⟩ := List.forall_mem_cons.1 h
    have ih := ih hstrings
    cases strings with
    | nil => rwa [String.intercalate_singleton]
    | cons t strings =>
      rw [String.intercalate_cons_cons]
      exact (hs.string_append hsep).string_append ih

theorem enclose {s : String} (h : IsTidyLiteral s.toList) :
    IsClean (Text.enclose '\'' s).toList := by
  rw [Text.toList_enclose]
  exact literal h

/-- Texts that are read as numbers are clean. -/
theorem of_decimal? (h : (Number.decimal? w).isSome = true) : IsClean w := by
  have hall : ∀ c ∈ Number.spellingChars, c ∉ ['\n', '\r', '#', '"'] := by decide
  exact ⟨Number.isSealed_of_decimal? h, .part (IsCalmPart.of_notMem fun c hc =>
    hall c ((Number.spelled_of_decimal? h).2 c hc))⟩

theorem toString_nat (n : Nat) : IsClean (toString n).toList :=
  of_decimal? (Number.isSome_decimal?_toString (n : Int))

end IsClean

/-! ## Tidy texts -/

/-- Whether tidying leaves a text as it is, line by line. -/
structure IsTidy (cs : List Char) : Prop where
  noReturn : '\r' ∉ cs
  lines : (lines cs).map tidyLine = lines cs

namespace IsTidy

variable {cs ds : List Char}

theorem nil : IsTidy [] where
  noReturn := List.not_mem_nil
  lines := by decide +kernel

/-- A text without special characters is tidy if none of its lines can end a batch. -/
theorem of_splitOn (hchars : cs.all (fun c => !(['\r', '#', '"'].contains c)) = true)
    (hlines : (cs.splitOn '\n').all (fun l => l.isEmpty || l.any isMark) = true) : IsTidy cs := by
  have hnot : ∀ c ∈ cs, c ∉ ['\r', '#', '"'] := fun c hc => by
    simpa using List.all_eq_true.1 hchars c hc
  refine ⟨fun hx => hnot _ hx List.mem_cons_self,
    (List.map_congr_left fun l hl => ?_).trans (List.map_id _)⟩
  have hnewline := newline_notMem_of_mem_lines hl
  have hpart : IsCalmPart l := .of_notMem fun c hc hx => by
    rcases List.mem_cons.1 hx with rfl | hx
    · exact hnewline hc
    · exact hnot c (subset_of_mem_lines hl hc) hx
  rw [← lines_eq_splitOn] at hlines
  rcases Bool.or_eq_true_iff.1 (List.all_eq_true.1 hlines l hl) with hempty | hmark
  · rw [List.isEmpty_iff.1 hempty]
    exact List.singleton_injective nil.lines
  · have htidy := IsCalm.map_tidyLine (.part hpart) (List.any_eq_true.1 hmark)
    rw [lines_of_notMem hnewline] at htidy
    exact List.singleton_injective htidy

/-- Tidy texts stay tidy on lines of their own. -/
theorem append_newline (hcs : IsTidy cs) (hds : IsTidy ds) : IsTidy (cs ++ '\n' :: ds) where
  noReturn := by simp [hcs.noReturn, hds.noReturn]
  lines := by rw [lines_append_newline, List.map_append, hcs.lines, hds.lines]

theorem string_intercalate {sep : String} {strings : List String}
    (hsep : sep = "\n" ∨ sep = "\n\n") (h : ∀ s ∈ strings, IsTidy s.toList) :
    IsTidy (sep.intercalate strings).toList := by
  induction strings with
  | nil => exact nil
  | cons s strings ih =>
    obtain ⟨hs, hstrings⟩ := List.forall_mem_cons.1 h
    have ih := ih hstrings
    cases strings with
    | nil => rwa [String.intercalate_singleton]
    | cons t strings =>
      rw [String.intercalate_cons_cons, String.toList_append, String.toList_append,
        List.append_assoc]
      rcases hsep with rfl | rfl
      · exact hs.append_newline ih
      · exact hs.append_newline (nil.append_newline ih)

/-- **A tidy text is left as it is**, unless it begins with a byte order mark. -/
theorem tidyChars_eq (h : IsTidy cs) (hmark : ∀ c ∈ cs.head?, c.toNat ≠ 0xFEFF) :
    tidyChars cs = cs := by
  have hdrop : dropByteOrderMark cs = cs := by
    cases cs with
    | nil => rfl
    | cons c cs => exact if_neg (hmark c rfl)
  rw [tidyChars, hdrop, singleNewlines_of_notMem h.noReturn, h.lines, unlines_lines]

end IsTidy

theorem IsCalm.isTidy {w : List Char} (h : IsCalm w) (hmark : ∃ c ∈ w, isMark c = true) :
    IsTidy w :=
  ⟨h.noReturn, h.map_tidyLine hmark⟩

end Script
end SchemaScript
