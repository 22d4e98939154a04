import SchemaScript.Proofs.Script.Content
import SchemaScript.Proofs.Script.Run
import SchemaScript.Proofs.Script.Sealed

/-!
# Cutting a script that was written

A script that was put together from statements, each with a semicolon behind it and newlines in
between (`IsScript`), is cut into these statements again, if every one of them is *written*
(`IsWritten`): it is sealed, so no semicolon in it counts, and it begins with a keyword, so
no directive in it counts, for what stands in front of one has content
(`IsWritten.undirected`). At the newlines between two statements no directive begins.

A scanner that has taken in one statement is as fresh as in the beginning, apart from the line it
is on (`Scanner.exists_isFresh`), so the scripts are cut by induction on their statements
(`texts_statements_of_isScript`).
-/

namespace SchemaScript
namespace Script

open Token Mode

/-- Whether a text is a statement as it is written: sealed, with a keyword in front and no blank at
its end. -/
structure IsWritten (w : List Char) : Prop where
  isSealed : IsSealed w
  keyword : ∃ c ∈ w.head?, c = 'C' ∨ c = 'I'
  last : ∀ c ∈ w.getLast?, Text.isBlank c = false

/-! ## Content -/

/-- What begins with a word has content. -/
theorem hasContent_of_word {c : Char} {cs : List Char} (hc : isWordStart c = true)
    (hs : literalStart? c cs = none) : hasContent (c :: cs) = true := by
  have hscan : scan? (c :: cs) =
      some (word (String.ofList (c :: cs.takeWhile isWordPart)), cs.dropWhile isWordPart) := by
    rw [scan?_of_isWordStart hc, scanLetter?, hs]
    rfl
  have hblank : Text.isBlank c = false := by
    by_contra hb
    have hpart := isWordPart_of_isWordStart hc
    rw [isWordPart_of_isBlank (Bool.not_eq_false _ ▸ hb)] at hpart
    cases hpart
  rw [hasContent, tokenize_of_scan? hscan]
  cases tokenize (cs.dropWhile isWordPart) with
  | none => simp [Text.allBlank, hblank]
  | some ts => rfl

/-- The keywords that statements are written with begin with these two letters. -/
theorem hasContent_of_keyword {c : Char} (hc : c = 'C' ∨ c = 'I') (cs : List Char) :
    hasContent (c :: cs) = true := by
  rcases hc with rfl | rfl <;> exact hasContent_of_word (by decide) rfl

/-- A directive begins with neither a newline nor a keyword of a statement. -/
theorem isDirective_cons {c : Char} (hc : c = '\n' ∨ c = 'C' ∨ c = 'I') (cs : List Char) :
    Scanner.isDirective (c :: cs) = false := by
  rcases hc with rfl | rfl | rfl <;> rfl

/-- What stands in front of a directive behind a keyword has content. -/
theorem hasContent_of_isDirective_of_keyword {c : Char} (hc : c = 'C' ∨ c = 'I')
    {cs x y : List Char} (hxy : c :: cs = x ++ y) (hy : Scanner.isDirective y = true) :
    hasContent x = true := by
  cases x with
  | nil =>
    rw [List.nil_append] at hxy
    rw [← hxy, isDirective_cons (Or.inr hc)] at hy
    cases hy
  | cons d x =>
    rw [← (List.cons.inj hxy).1]
    exact hasContent_of_keyword hc x

/-- Whether a text consists of newlines. -/
def IsGap (a : List Char) : Prop :=
  ∀ c ∈ a, c = '\n'

variable {a w : List Char}

theorem IsWritten.hasContent (h : IsWritten w) (ha : IsGap a) : hasContent (a ++ w) = true := by
  induction a with
  | nil =>
    obtain ⟨c, hw, hc⟩ := h.keyword
    obtain ⟨w, rfl⟩ := List.head?_eq_some_iff.1 hw
    exact hasContent_of_keyword hc w
  | cons c a ih =>
    rw [ha c List.mem_cons_self, List.cons_append, hasContent_newline_cons]
    exact ih fun d hd => ha d (List.mem_cons_of_mem c hd)

/-- What stands in front of a directive has content, in a statement that is written and behind
it. -/
theorem IsWritten.hasContent_of_isDirective (h : IsWritten w) (ha : IsGap a)
    {cs x y : List Char} (hxy : a ++ (w ++ cs) = x ++ y) (hy : Scanner.isDirective y = true) :
    Script.hasContent x = true := by
  induction a generalizing x with
  | nil =>
    obtain ⟨c, hw, hc⟩ := h.keyword
    obtain ⟨w, rfl⟩ := List.head?_eq_some_iff.1 hw
    exact hasContent_of_isDirective_of_keyword hc hxy hy
  | cons c a ih =>
    have hc := ha c List.mem_cons_self
    cases x with
    | nil =>
      rw [List.nil_append] at hxy
      rw [← hxy, List.cons_append, isDirective_cons (Or.inl hc)] at hy
      cases hy
    | cons d x =>
      obtain ⟨hd, hrest⟩ := List.cons.inj hxy
      rw [← hd, hc, hasContent_newline_cons]
      exact ih (fun e he => ha e (List.mem_cons_of_mem c he)) hrest

/-- No directive counts in a statement that is written, nor behind it. -/
theorem IsWritten.undirected (h : IsWritten w) (ha : IsGap a) (cs : List Char) :
    Undirected [] (a ++ w ++ cs) := by
  intro x y hxy hy _
  rw [List.append_assoc] at hxy
  exact h.hasContent_of_isDirective ha hxy hy

/-! ## Scanning -/

namespace Scanner

/-- **A statement that is written is found**, and the scanner is fresh behind it. -/
theorem exists_isFresh {s : Scanner} (hs : s.IsFresh) (h : IsWritten w) (ha : IsGap a)
    (rest : List Char) :
    ∃ (st : Statement) (s' : Scanner), s'.IsFresh ∧ st.text.toList = w ∧
      s.statements (a ++ w ++ ';' :: rest) = st :: s'.statements rest := by
  have htext : s.text = [] := hs.text_eq_nil
  have hgap : IsSealed a :=
    IsSealed.of_inert (List.all_eq_true.2 fun c hc => by rw [ha c hc]; rfl)
  have hmode : Mode.normal.behind? (a ++ w) = some .normal := by
    have hsealed := (hgap.append h.isSealed) []
    rwa [List.append_nil, Mode.behind?_nil] at hsealed
  have hplain : Undirected s.text (a ++ w ++ ';' :: rest) := by
    rw [htext]
    exact h.undirected ha _
  obtain ⟨s₁, hs₁, hrun⟩ := exists_isBehind hmode (s := s) (';' :: rest) hs.delimiter hs.mode
    hs.atWord (by simp [Mode.isSettled]) hplain
  have hsemi := statements_semicolon rest hs₁.delimiter hs₁.mode hs₁.atWord
    (hs₁.undirected hplain)
  have htext₁ : s₁.text = a ++ w := by rw [hs₁.text, htext, List.nil_append]
  have htrim : Text.trim s₁.text = w := by
    rw [htext₁]
    refine Text.trim_append_of_ends (fun c hc => by rw [ha c hc]; rfl) ?_ ?_
    · obtain ⟨c, hw, hc⟩ := h.keyword
      intro d hd
      rw [Option.mem_unique hd hw]
      rcases hc with rfl | rfl <;> rfl
    · exact h.last
  have hstatement : ∃ st, s₁.statement? = some st ∧ st.text.toList = w := by
    rw [statement?, if_pos (htext₁ ▸ h.hasContent ha)]
    exact ⟨_, rfl, by rw [String.toList_ofList, htrim]⟩
  obtain ⟨st, hst, hword⟩ := hstatement
  refine ⟨st, { s₁.restart with atLineStart := false }, ⟨hs₁.delimiter, hs₁.mode, rfl⟩, hword, ?_⟩
  rw [hrun, hsemi, hst]
  rfl

theorem IsFresh.statements_nil {s : Scanner} (hs : s.IsFresh) : s.statements [] = [] := by
  rw [Scanner.statements_nil, statement?_of_text_eq_nil hs.text_eq_nil]
  rfl

end Scanner

/-- Whether a text consists of written statements, each with newlines in front of it and its
semicolon behind it. -/
inductive IsScript : List Char → List (List Char) → Prop
  | nil : IsScript [] []
  | cons {a w cs : List Char} {ws : List (List Char)} (gap : IsGap a) (written : IsWritten w)
      (rest : IsScript cs ws) : IsScript (a ++ w ++ ';' :: cs) ((w ++ [';']) :: ws)

namespace IsScript

variable {cs ds : List Char} {vs ws : List (List Char)}

theorem singleton (h : IsWritten w) : IsScript (w ++ [';']) [w ++ [';']] :=
  .cons (a := []) (fun _ hc => absurd hc List.not_mem_nil) h .nil

theorem append (hcs : IsScript cs ws) (hds : IsScript ds vs) : IsScript (cs ++ ds) (ws ++ vs) := by
  induction hcs with
  | nil => exact hds
  | cons ha hw _ ih =>
    rw [List.append_assoc, List.cons_append]
    exact .cons ha hw ih

/-- Newlines can stand in front of the first statement. -/
theorem behind_gap (ha : IsGap a) (h : IsScript cs ws) (hne : ws ≠ []) : IsScript (a ++ cs) ws := by
  cases h with
  | nil => exact absurd rfl hne
  | @cons b w cs ws hb hw hcs =>
    rw [← List.append_assoc, ← List.append_assoc]
    exact .cons (fun c hc => (List.mem_append.1 hc).elim (ha c) (hb c)) hw hcs

/-- Scripts that are joined with newlines make up a script. -/
theorem intercalate {sep : List Char} (hsep : IsGap sep) {css : List (List Char)}
    {wss : List (List (List Char))} (h : List.Forall₂ IsScript css wss)
    (hne : ∀ ws ∈ wss, ws ≠ []) : IsScript (sep.intercalate css) wss.flatten := by
  induction h with
  | nil => exact .nil
  | @cons cs ws css wss hcs hcss ih =>
    obtain ⟨hws, hwss⟩ := List.forall_mem_cons.1 hne
    have ih := ih hwss
    cases hcss with
    | nil => simpa using hcs
    | @cons ds vs css wss =>
      have hmore : (vs :: wss).flatten ≠ [] := by
        rw [List.flatten_cons]
        exact List.append_ne_nil_of_left_ne_nil (hwss vs List.mem_cons_self) _
      rw [List.intercalate_cons_cons, List.append_assoc, List.flatten_cons]
      exact hcs.append (ih.behind_gap hsep hmore)

/-- A script begins with a newline or with a keyword. -/
theorem head (h : IsScript cs ws) : ∀ c ∈ cs.head?, c = '\n' ∨ c = 'C' ∨ c = 'I' := by
  cases h with
  | nil => exact fun _ hc => absurd hc (by simp)
  | @cons a w cs ws ha hw hcs =>
    cases a with
    | nil =>
      obtain ⟨c, hc, hkeyword⟩ := hw.keyword
      obtain ⟨w, rfl⟩ := List.head?_eq_some_iff.1 hc
      exact fun d hd => Option.some.inj hd ▸ Or.inr hkeyword
    | cons e a => exact fun d hd => Option.some.inj hd ▸ Or.inl (ha e List.mem_cons_self)

/-- **Written statements are found one by one.** -/
theorem map_statements (h : IsScript cs ws) {s : Scanner} (hs : s.IsFresh) :
    (s.statements cs).map (fun st => st.text.toList ++ [';']) = ws := by
  induction h generalizing s with
  | nil =>
    rw [hs.statements_nil]
    rfl
  | @cons a w cs ws ha hw _ ih =>
    obtain ⟨st, s', hs', hst, hrun⟩ := Scanner.exists_isFresh hs hw ha cs
    rw [hrun, List.map_cons, hst, ih hs']

end IsScript

/-- **A script of written statements is cut into them again.** -/
theorem texts_statements_of_isScript {script : String} {written : List String}
    (h : IsScript script.toList (written.map String.toList)) :
    (statements script).map (fun st => st.text ++ ";") = written := by
  have hcut := h.map_statements (s := {}) Scanner.isFresh_start
  have hsame : (fun st : Statement => st.text.toList ++ [';']) =
      String.toList ∘ fun st => st.text ++ ";" :=
    funext fun st => by simp
  rw [hsame, ← List.map_map] at hcut
  exact List.map_injective_iff.2 (fun _ _ => String.toList_inj.1) hcut

/-- Statements that are written make up a script when they are joined with newlines. -/
theorem isScript_intercalate {sep : String} (hsep : IsGap sep.toList) {written : List String}
    (h : ∀ s ∈ written, ∃ w : String, s = w ++ ";" ∧ IsWritten w.toList) :
    IsScript (sep.intercalate written).toList (written.map String.toList) := by
  have hone : List.Forall₂ IsScript (written.map String.toList)
      (written.map fun s => [s.toList]) := by
    rw [List.forall₂_map_left_iff, List.forall₂_map_right_iff, List.forall₂_same]
    intro s hs
    obtain ⟨w, rfl, hw⟩ := h s hs
    rw [String.toList_append]
    exact .singleton hw
  have hjoined := IsScript.intercalate hsep hone
    (List.forall_mem_map.2 fun s _ => List.cons_ne_nil _ _)
  rw [← List.flatMap, ← List.map_eq_flatMap] at hjoined
  rw [String.toList_intercalate]
  exact hjoined

/-- **A script of statements that are written, with empty lines between them, is cut into them
again.** -/
theorem texts_statements_intercalate {written : List String}
    (h : ∀ s ∈ written, ∃ w : String, s = w ++ ";" ∧ IsWritten w.toList) :
    (statements ("\n\n".intercalate written)).map (fun st => st.text ++ ";") = written :=
  texts_statements_of_isScript (isScript_intercalate (by simp [IsGap]) h)

end Script
end SchemaScript
