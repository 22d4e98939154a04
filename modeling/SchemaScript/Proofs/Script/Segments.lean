import SchemaScript.Proofs.Script.Enclosures
import SchemaScript.Proofs.Script.Run

/-!
# The segments of a script

A semicolon counts if it stands outside quotes and comments, that is, behind a closed text
(`IsCut`). The semicolons that count cut a text into segments, and joined by semicolons the
segments are the text again (`IsSegmentation`). There is exactly one such list of segments: the
first one goes up to the first semicolon that counts, and the others are the segments of what
stands behind it (`isSegmentation_cons_iff`). Texts in which no semicolon counts and that close
what they open are the segments of what they are joined to (`isSegmentation_intercalate`).

A script without directives is read segment by segment. The scanner takes a segment in, since none
of its semicolons counts, and ends a statement behind it. So the statements of a script are those
of its segments, and nothing else is left out, moved or repeated (`statements_segments`).
-/

namespace SchemaScript
namespace Script

/-! ## Segments -/

/-- Whether a semicolon outside quotes and comments stands in a text behind `a`. -/
def IsCut (cs a : List Char) : Prop :=
  IsClosed a ∧ a ++ [';'] <+: cs

/-- Whether a semicolon joins two of the segments behind `a`. -/
def IsJoint (segments : List (List Char)) (a : List Char) : Prop :=
  ∃ front behind, segments = front ++ behind ∧ front ≠ [] ∧ behind ≠ [] ∧
    [';'].intercalate front = a

/-- Whether the segments are what the semicolons outside quotes and comments make of a text: joined
by semicolons they are the text, and the semicolons that join them are the ones that count. -/
structure IsSegmentation (cs : List Char) (segments : List (List Char)) : Prop where
  ne_nil : segments ≠ []
  joined : [';'].intercalate segments = cs
  cuts : ∀ a, IsCut cs a ↔ IsJoint segments a

/-- The statements of segments, of which the first stands behind `before`: the ones with content,
without the blanks around them, each on the line of its first character. -/
def statementsOf (before : List Char) : List (List Char) → List Statement
  | [] => []
  | segment :: more =>
    let rest := statementsOf (before ++ segment ++ [';']) more
    if hasContent segment then
      { text := String.ofList (Text.trim segment)
        line := 1 + countNewlines (before ++ segment.takeWhile Text.isBlank) } :: rest
    else rest

variable {cs segment next a b rest : List Char} {more segments : List (List Char)}

/-! ## The first segment -/

theorem not_isJoint_singleton : ¬ IsJoint [segment] a := by
  rintro ⟨front, behind, happ, hfront, hbehind, -⟩
  rcases List.append_eq_singleton_iff.1 happ.symm with ⟨hnil, -⟩ | ⟨-, hnil⟩
  · exact hfront hnil
  · exact hbehind hnil

theorem intercalate_cons (hne : segments ≠ []) : [';'].intercalate (segment :: segments) =
    segment ++ ';' :: [';'].intercalate segments := by
  rw [List.intercalate_cons_of_ne_nil hne, List.append_assoc]
  rfl

theorem isJoint_cons_iff : IsJoint (segment :: next :: more) a ↔
    a = segment ∨ ∃ b, a = segment ++ ';' :: b ∧ IsJoint (next :: more) b := by
  constructor
  · rintro ⟨front, behind, happ, hfront, hbehind, rfl⟩
    obtain ⟨first, front, rfl⟩ := List.exists_cons_of_ne_nil hfront
    rw [List.cons_append, List.cons.injEq] at happ
    obtain ⟨rfl, happ⟩ := happ
    by_cases hnil : front = []
    · rw [hnil]
      exact Or.inl List.intercalate_singleton
    · exact Or.inr ⟨_, intercalate_cons hnil, front, behind, happ, hnil, hbehind, rfl⟩
  · rintro (rfl | ⟨b, rfl, front, behind, happ, hfront, hbehind, rfl⟩)
    · exact ⟨[a], next :: more, rfl, List.cons_ne_nil _ _, List.cons_ne_nil _ _,
        List.intercalate_singleton⟩
    · exact ⟨segment :: front, behind, by rw [happ]; rfl, List.cons_ne_nil _ _, hbehind,
        intercalate_cons hfront⟩

/-- A text in which no semicolon counts. -/
def IsWhole (cs : List Char) : Prop :=
  ∀ a, ¬ IsCut cs a

theorem IsCut.length_lt (h : IsCut cs a) : a.length < cs.length := by
  have hle := h.2.length_le
  rw [List.length_append, List.length_singleton] at hle
  omega

theorem isCut_append_cons_iff (hclosed : IsClosed segment) (hwhole : IsWhole segment) :
    IsCut (segment ++ ';' :: rest) a ↔
      a = segment ∨ ∃ b, a = segment ++ ';' :: b ∧ IsCut rest b := by
  constructor
  · rintro ⟨ha, x, hx⟩
    rw [List.append_assoc, List.singleton_append] at hx
    rcases List.append_eq_append_iff.1 hx with ⟨b, hb, hsemi⟩ | ⟨b, hb, hsemi⟩
    · cases b with
      | nil => exact Or.inl (by rw [hb, List.append_nil])
      | cons c b =>
        obtain ⟨rfl, -⟩ := List.cons.inj hsemi
        exact absurd ⟨ha, b, by rw [hb, List.append_assoc]; rfl⟩ (hwhole a)
    · cases b with
      | nil => exact Or.inl (by rw [hb, List.append_nil])
      | cons c b =>
        obtain ⟨rfl, hrest⟩ := List.cons.inj hsemi
        rw [hb, isClosed_append_cons_iff (Or.inl rfl) hclosed] at ha
        exact Or.inr ⟨b, hb, ha, x, by rw [List.append_assoc]; exact hrest.symm⟩
  · rintro (rfl | ⟨b, rfl, hb, hpre⟩)
    · exact ⟨hclosed, rest, by simp⟩
    · refine ⟨(isClosed_append_cons_iff (Or.inl rfl) hclosed b).2 hb, ?_⟩
      rw [List.append_assoc, List.prefix_append_right_inj, List.cons_append,
        List.cons_prefix_cons]
      exact ⟨rfl, hpre⟩

/-- Behind a first segment everything is said of what goes on behind it. -/
theorem exists_behind_iff {p : List Char → Prop} :
    (segment ++ ';' :: b = segment ∨ ∃ b', segment ++ ';' :: b = segment ++ ';' :: b' ∧ p b') ↔
      p b := by
  constructor
  · rintro (hx | ⟨b', hb', hp⟩)
    · simp at hx
    · obtain rfl : b = b' := by simpa using hb'
      exact hp
  · exact fun hp => Or.inr ⟨b, rfl, hp⟩

theorem isSegmentation_singleton_iff :
    IsSegmentation cs [segment] ↔ segment = cs ∧ IsWhole cs := by
  constructor
  · intro h
    exact ⟨by rw [← h.joined, List.intercalate_singleton],
      fun a ha => not_isJoint_singleton ((h.cuts a).1 ha)⟩
  · rintro ⟨rfl, hwhole⟩
    exact ⟨List.cons_ne_nil _ _, List.intercalate_singleton,
      fun a => ⟨fun h => absurd h (hwhole a), fun h => absurd h not_isJoint_singleton⟩⟩

/-- **The first segment goes up to the first semicolon that counts.** -/
theorem isSegmentation_cons_iff :
    IsSegmentation cs (segment :: next :: more) ↔ IsClosed segment ∧ IsWhole segment ∧
      ∃ rest, cs = segment ++ ';' :: rest ∧ IsSegmentation rest (next :: more) := by
  constructor
  · intro h
    have hcs := h.joined.symm.trans (intercalate_cons (List.cons_ne_nil next more))
    have hclosed : IsClosed segment := ((h.cuts segment).2 (isJoint_cons_iff.2 (Or.inl rfl))).1
    have hwhole : IsWhole segment := by
      intro a ha
      have hlt := ha.length_lt
      have hcut : IsCut cs a := ⟨ha.1, ha.2.trans ⟨_, hcs.symm⟩⟩
      rcases isJoint_cons_iff.1 ((h.cuts a).1 hcut) with rfl | ⟨b, rfl, -⟩
      · omega
      · rw [List.length_append] at hlt
        omega
    refine ⟨hclosed, hwhole, _, hcs, List.cons_ne_nil _ _, rfl, fun b => ?_⟩
    have hcut := h.cuts (segment ++ ';' :: b)
    rwa [hcs, isCut_append_cons_iff hclosed hwhole, exists_behind_iff, isJoint_cons_iff,
      exists_behind_iff] at hcut
  · rintro ⟨hclosed, hwhole, rest, rfl, h⟩
    refine ⟨List.cons_ne_nil _ _, ?_, fun a => ?_⟩
    · rw [intercalate_cons (List.cons_ne_nil _ _), h.joined]
    · rw [isCut_append_cons_iff hclosed hwhole, isJoint_cons_iff]
      simp only [h.cuts]

/-! ## There is one segmentation -/

/-- A text in which a semicolon counts has a first such semicolon. -/
theorem exists_first_cut (h : ¬ IsWhole cs) :
    ∃ segment rest, cs = segment ++ ';' :: rest ∧ IsClosed segment ∧ IsWhole segment := by
  obtain ⟨a, ha⟩ := not_forall_not.1 h
  induction hn : a.length using Nat.strong_induction_on generalizing a with
  | _ n ih =>
    subst hn
    by_cases hwhole : IsWhole a
    · obtain ⟨rest, hrest⟩ := ha.2
      exact ⟨a, rest, by rw [← hrest, List.append_assoc]; rfl, ha.1, hwhole⟩
    · obtain ⟨b, hb⟩ := not_forall_not.1 hwhole
      exact ih _ hb.length_lt b
        ⟨hb.1, hb.2.trans ((List.prefix_append a [';']).trans ha.2)⟩ rfl

theorem exists_isSegmentation (cs : List Char) : ∃ segments, IsSegmentation cs segments := by
  induction hn : cs.length using Nat.strong_induction_on generalizing cs with
  | _ n ih =>
    subst hn
    by_cases hwhole : IsWhole cs
    · exact ⟨[cs], isSegmentation_singleton_iff.2 ⟨rfl, hwhole⟩⟩
    · obtain ⟨segment, rest, rfl, hclosed, hfirst⟩ := exists_first_cut hwhole
      obtain ⟨segments, hrest⟩ := ih rest.length (by simp; omega) rest rfl
      obtain ⟨next, more, rfl⟩ := List.exists_cons_of_ne_nil hrest.ne_nil
      exact ⟨segment :: next :: more,
        isSegmentation_cons_iff.2 ⟨hclosed, hfirst, rest, rfl, hrest⟩⟩

/-- The first segment is not longer than a closed text in front of a semicolon. -/
theorem eq_of_append_cons {segment' rest' : List Char} (hclosed : IsClosed segment)
    (hwhole : IsWhole segment) (hclosed' : IsClosed segment') (hwhole' : IsWhole segment')
    (h : segment ++ ';' :: rest = segment' ++ ';' :: rest') :
    segment = segment' ∧ rest = rest' := by
  have hcut : IsCut (segment' ++ ';' :: rest') segment := by
    rw [← h]
    exact (isCut_append_cons_iff hclosed hwhole).2 (Or.inl rfl)
  rcases (isCut_append_cons_iff hclosed' hwhole').1 hcut with rfl | ⟨b, rfl, -⟩
  · exact ⟨rfl, by simpa using h⟩
  · exact absurd ⟨hclosed', b, by simp⟩ (hwhole segment')

theorem IsSegmentation.unique {segments' : List (List Char)} (h : IsSegmentation cs segments)
    (h' : IsSegmentation cs segments') : segments = segments' := by
  induction segments generalizing cs segments' with
  | nil => exact absurd rfl h.ne_nil
  | cons segment segments ih =>
    obtain ⟨segment', segments', rfl⟩ := List.exists_cons_of_ne_nil h'.ne_nil
    cases segments with
    | nil =>
      obtain ⟨rfl, hwhole⟩ := isSegmentation_singleton_iff.1 h
      cases segments' with
      | nil => rw [(isSegmentation_singleton_iff.1 h').1]
      | cons next' more' =>
        obtain ⟨hclosed', hwhole', rest', rfl, -⟩ := isSegmentation_cons_iff.1 h'
        exact absurd ((isCut_append_cons_iff hclosed' hwhole').2 (Or.inl rfl)) (hwhole _)
    | cons next more =>
      obtain ⟨hclosed, hwhole, rest, rfl, hrest⟩ := isSegmentation_cons_iff.1 h
      cases segments' with
      | nil =>
        obtain ⟨rfl, hwhole'⟩ := isSegmentation_singleton_iff.1 h'
        exact absurd ((isCut_append_cons_iff hclosed hwhole).2 (Or.inl rfl)) (hwhole' _)
      | cons next' more' =>
        obtain ⟨hclosed', hwhole', rest', hcs, hrest'⟩ := isSegmentation_cons_iff.1 h'
        obtain ⟨rfl, rfl⟩ := eq_of_append_cons hclosed hwhole hclosed' hwhole' hcs
        rw [ih hrest hrest']

/-- Texts that lead from normal mode back to it are segments when semicolons join them. -/
theorem isSegmentation_intercalate (hne : segments ≠ [])
    (h : ∀ segment ∈ segments, Mode.normal.behind? segment = some .normal) :
    IsSegmentation ([';'].intercalate segments) segments := by
  have hwhole : ∀ segment ∈ segments, IsWhole segment := by
    rintro segment hsegment a ⟨hclosed, b, rfl⟩
    have hbehind := h _ hsegment
    rw [List.append_assoc] at hbehind
    exact Mode.after_ne_normal_of_behind? hbehind (isClosed_iff_after.1 hclosed)
  induction segments with
  | nil => exact absurd rfl hne
  | cons segment segments ih =>
    obtain ⟨hsegment, hsegments⟩ := List.forall_mem_cons.1 h
    obtain ⟨hfirst, hmore⟩ := List.forall_mem_cons.1 hwhole
    cases segments with
    | nil =>
      rw [List.intercalate_singleton]
      exact isSegmentation_singleton_iff.2 ⟨rfl, hfirst⟩
    | cons next more =>
      have hne' : next :: more ≠ [] := List.cons_ne_nil next more
      exact isSegmentation_cons_iff.2 ⟨isClosed_iff_after.2 (Mode.after_of_behind? hsegment),
        hfirst, _, intercalate_cons hne', ih hne' hsegments hmore⟩

/-! ## Reading the segments -/

/-- The texts of the statements of segments. -/
theorem map_text_statementsOf (before : List Char) (segments : List (List Char)) :
    (statementsOf before segments).map Statement.text =
      (segments.filter hasContent).map fun segment => String.ofList (Text.trim segment) := by
  induction segments generalizing before with
  | nil => rfl
  | cons segment segments ih =>
    rw [statementsOf, List.filter_cons]
    split
    · rw [List.map_cons, List.map_cons, ih]
    · exact ih _

theorem HasDirectiveWord.cons {c : Char} (hc : Token.isWordPart c = false)
    (h : HasDirectiveWord cs) (a : List Char) : HasDirectiveWord (a ++ c :: cs) := by
  obtain ⟨x, y, rfl, hx, hy⟩ := h
  refine ⟨a ++ c :: x, y, by simp, fun d hd => ?_, hy⟩
  rw [List.getLast?_append, List.getLast?_cons] at hd
  cases hlast : x.getLast? with
  | none =>
    rw [hlast] at hd
    cases hd
    exact hc
  | some e =>
    rw [hlast] at hd
    cases hd
    exact hx e hlast

namespace Scanner

variable {s : Scanner}

/-- A fresh scanner takes in a text in which no semicolon counts. -/
theorem IsFresh.exists_extends (hs : s.IsFresh) (hwhole : IsWhole segment)
    (hrest : rest = [] ∨ ∃ more, rest = ';' :: more) (hplain : Undirected [] (segment ++ rest)) :
    ∃ s', s.Extends s' segment ∧ s'.mode = Mode.normal.after segment ∧ s'.AtWord ∧
      s.run (segment ++ rest) = s'.run rest := by
  have htext : s.text = [] := hs.text_eq_nil
  refine Scanner.exists_extends rest hs.mode hs.atWord ?_ (htext ▸ hplain)
    fun a b hab hb ha hpre => ?_
  · rcases hrest with rfl | ⟨more, rfl⟩ <;> simp [Mode.isSettled]
  · obtain ⟨c, b, rfl⟩ := List.exists_cons_of_ne_nil hb
    rw [hs.delimiter] at hpre
    obtain rfl : ';' = c := (List.cons_prefix_cons.1 hpre).1
    exact hwhole a ⟨isClosed_iff_after.2 ha, b, by rw [hab, List.append_assoc]; rfl⟩

/-- The statement of a scanner that has read a segment. -/
theorem statementsOf_singleton {s' : Scanner} {before : List Char} (he : s.Extends s' segment)
    (hs : s.text = []) (hline : s.firstLine = 1 + countNewlines before) :
    s'.statement?.toList = statementsOf before [segment] := by
  have htext : s'.text = segment := by rw [he.text, hs, List.nil_append]
  rw [statement?, htext, statementsOf, statementsOf, he.firstLine, hline]
  split
  · rw [Option.toList_some, countNewlines_append, Nat.add_assoc]
  · rfl

theorem statementsOf_cons (before segment : List Char) (more : List (List Char)) :
    statementsOf before (segment :: more) =
      statementsOf before [segment] ++ statementsOf (before ++ segment ++ [';']) more := by
  simp only [statementsOf]
  split <;> rfl

/-- **A fresh scanner finds the statements of the segments**, if no directive stands in them. -/
theorem IsFresh.statements_eq {before : List Char} (hs : s.IsFresh)
    (hline : s.line = s.firstLine) (hfirst : s.firstLine = 1 + countNewlines before)
    (h : IsSegmentation cs segments) (hplain : ¬ HasDirectiveWord cs) :
    s.statements cs = statementsOf before segments := by
  induction segments generalizing s cs before with
  | nil => exact absurd rfl h.ne_nil
  | cons segment segments ih =>
    have htext : s.text = [] := hs.text_eq_nil
    have hundirected : Undirected [] cs := undirected_of_not_hasDirectiveWord hplain
    cases segments with
    | nil =>
      obtain ⟨rfl, hwhole⟩ := isSegmentation_singleton_iff.1 h
      rw [← List.append_nil segment] at hundirected
      obtain ⟨s', he, -, -, hrun⟩ := hs.exists_extends hwhole (Or.inl rfl) hundirected
      rw [List.append_nil, run_nil] at hrun
      rw [statements_eq_run, hrun, List.nil_append, statementsOf_singleton he htext hfirst]
    | cons next more =>
      obtain ⟨hclosed, hwhole, rest, rfl, hrest⟩ := isSegmentation_cons_iff.1 h
      obtain ⟨s', he, hmode, hword, hrun⟩ :=
        hs.exists_extends hwhole (Or.inr ⟨rest, rfl⟩) hundirected
      have hdelimiter : s'.delimiter = .semicolon := he.delimiter.trans hs.delimiter
      have hnormal : s'.mode = .normal := hmode.trans (isClosed_iff_after.1 hclosed)
      have hsemi := statements_semicolon rest hdelimiter hnormal hword
        (he.undirected (htext ▸ hundirected))
      -- the scanner behind the semicolon is fresh again, on the line of the semicolon
      have hline' : s'.line = 1 + countNewlines (before ++ segment ++ [';']) := by
        rw [he.line, hline, hfirst]
        simp [countNewlines, Nat.add_assoc]
      have hbehind := ih (s := { s'.restart with atLineStart := false })
        ⟨hdelimiter, hnormal, rfl⟩ rfl hline' hrest
        fun hx => hplain (hx.cons (by decide) segment)
      rw [statements_eq_run, hrun, ← statements_eq_run, hsemi, hbehind,
        statementsOf_singleton he htext hfirst, ← statementsOf_cons]

end Scanner

/-- **The statements of a script are those of its segments.** The semicolons outside quotes and
comments cut a script into segments in exactly one way. If the script has no word of a directive
with a space or tab behind it, its statements are, in order, its segments with content, without
the blanks around them, each on the line of its first character that is not blank. -/
theorem statements_segments {script : String} (h : ¬ HasDirectiveWord script.toList) :
    ∃ segments, IsSegmentation script.toList segments ∧
      (∀ others, IsSegmentation script.toList others → others = segments) ∧
      statements script = statementsOf [] segments := by
  obtain ⟨segments, hsegments⟩ := exists_isSegmentation script.toList
  refine ⟨segments, hsegments, fun others hothers => hothers.unique hsegments, ?_⟩
  exact Scanner.isFresh_start.statements_eq rfl rfl hsegments h

/-- A script with semicolons in quotes, in both kinds of comments and in an empty statement, and
with a quote that is not closed. -/
def quotedScript : String :=
  "\n-- one;\nSELECT ';''\"' /* ;\n/* ; */\n;;\n\n\tDELIMITER; SELECT \"it's"

/-- The comment belongs to the first statement, on the second line; the word of a directive alone
is a statement, and the quote takes the rest of the script in. -/
theorem statements_segments_quotedScript : ¬ HasDirectiveWord quotedScript.toList ∧
    ∃ segments, IsSegmentation quotedScript.toList segments ∧
      (∀ others, IsSegmentation quotedScript.toList others → others = segments) ∧
      statementsOf [] segments =
        [⟨"-- one;\nSELECT ';''\"' /* ;\n/* ; */", 2⟩, ⟨"DELIMITER", 7⟩, ⟨"SELECT \"it's", 7⟩] := by
  have hword : ¬ HasDirectiveWord quotedScript.toList := fun h =>
    absurd h.occursIn (by decide +kernel)
  obtain ⟨segments, hsegments, hunique, hstatements⟩ := statements_segments hword
  refine ⟨hword, segments, hsegments, hunique, ?_⟩
  rw [← hstatements]
  decide +kernel

end Script
end SchemaScript
