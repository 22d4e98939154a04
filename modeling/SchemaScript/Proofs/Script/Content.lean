import SchemaScript.Proofs.Token.Filler
import SchemaScript.Script.Split

/-!
# What makes a text a statement

A text between two delimiters is a statement if it has content, which is to say that it does not
consist of blanks and comments (`hasContent_eq_false_iff_isFiller`). Blanks and comments in front
of a text make no difference (`hasContent_append_of_isFiller`), and the newline that stands in
front of a delimiter takes no content away (`hasContent_newline`): it belongs to a blank or is
one, unless it becomes part of a word. Where nothing but blanks stands in front of a semicolon,
that is a token (`semicolon_mem_of_blanks`).
-/

namespace SchemaScript
namespace Script

open Token

/-- A text with a token besides blanks has content. -/
theorem hasContent_of_tokenize {cs : List Char} {ts : List Token} (h : tokenize cs = some ts)
    (hts : ∃ t ∈ ts, t.isBlank = false) : hasContent cs = true := by
  obtain ⟨t, ht, hblank⟩ := hts
  rw [hasContent, h]
  exact List.any_eq_true.2 ⟨t, ht, by rw [hblank]; rfl⟩

theorem hasContent_eq_false_iff {cs : List Char} :
    hasContent cs = false ↔ tokensBehindBlanks? cs = some [] := by
  unfold hasContent
  split
  · rename_i hnone
    rw [Bool.not_eq_false']
    constructor
    · exact fun h => tokensBehindBlanks?_of_isFiller (isFiller_of_allBlank h)
    · rw [tokensBehindBlanks?, hnone]
      exact fun h => by cases h
  · rename_i ts hts
    rw [tokensBehindBlanks?, hts, Option.map_some, Option.some.injEq, List.dropWhile_eq_nil_iff]
    simp

theorem hasContent_of_allBlank {cs : List Char} (h : Text.allBlank cs = true) :
    hasContent cs = false :=
  hasContent_eq_false_iff.2 (tokensBehindBlanks?_of_isFiller (isFiller_of_allBlank h))

theorem allBlank_of_hasContent {cs : List Char} (h : hasContent cs = true) :
    Text.allBlank cs = false := by
  by_contra hblank
  rw [hasContent_of_allBlank (Bool.not_eq_false _ ▸ hblank)] at h
  cases h

/-- **What has no content is blanks and comments**, the last of which the end of the text may
close. -/
theorem hasContent_eq_false_iff_isFiller {cs : List Char} :
    hasContent cs = false ↔ IsFiller (cs ++ ['\n']) :=
  hasContent_eq_false_iff.trans tokensBehindBlanks?_eq_some_nil_iff

theorem hasContent_append_of_isFiller {a : List Char} (h : IsFiller a) (cs : List Char) :
    hasContent (a ++ cs) = hasContent cs := by
  rw [Bool.eq_iff_iff, ← not_iff_not, Bool.not_eq_true, Bool.not_eq_true, hasContent_eq_false_iff,
    hasContent_eq_false_iff, tokensBehindBlanks?_append h]

theorem hasContent_newline_cons (cs : List Char) : hasContent ('\n' :: cs) = hasContent cs :=
  hasContent_append_of_isFiller (.blank rfl .nil) cs

/-- A text with content keeps it with a newline behind. -/
theorem hasContent_newline {cs : List Char} (h : hasContent cs = true) :
    hasContent (cs ++ ['\n']) = true := by
  by_contra hn
  rw [Bool.not_eq_true, hasContent_eq_false_iff_isFiller] at hn
  rcases hn.of_append_newline with hfiller | ⟨x, body, -, hbody, hcs⟩
  · rw [hasContent_eq_false_iff_isFiller.2 hfiller] at h
    cases h
  · -- the newline would stand in the comment
    have hend := congrArg List.getLast? hcs
    rw [List.getLast?_concat, List.getLast?_append, List.getLast?_cons, List.getLast?_cons] at hend
    cases hlast : body.getLast? with
    | none => simp [hlast] at hend
    | some d =>
      obtain rfl : '\n' = d := by simpa [hlast] using hend
      exact hbody (List.mem_of_getLast? hlast)

/-- Behind nothing but blanks a semicolon is a token. -/
theorem semicolon_mem_of_blanks {a b : List Char} {ts : List Token}
    (ha : ∀ c ∈ a, Text.isBlank c = true) (h : tokenize (a ++ ';' :: b) = some ts) :
    mark .semicolon ∈ ts := by
  generalize hcs : a ++ ';' :: b = cs at h
  induction h using tokenize_induction generalizing a with
  | nil => simp at hcs
  | cons w t rest ts hs ht hne ih =>
    rw [← hcs] at hs
    cases a with
    | nil =>
      have hop : scanOperator? (';' :: b) = some (mark .semicolon, b) := by
        simp [scanOperator?, operators, Text.stripStart?]
      rw [List.nil_append, scan?_of_opensSign (by decide)
        (not_opensComment (by decide) (by decide) b), scanSign?, hop] at hs
      cases hs
      exact List.mem_cons_self
    | cons c a =>
      have ha' : ∀ d ∈ a, Text.isBlank d = true := fun d hd => ha d (List.mem_cons_of_mem c hd)
      refine List.mem_cons_of_mem t ?_
      rcases (scan?_of_isBlank (ha c List.mem_cons_self) hs).2 with hrest | hrest
      · exact ih ha' hrest.symm
      · cases a with
        | nil => exact ih ha' hrest.symm
        | cons d a =>
          have hdrop : rest = dropNewline (d :: (a ++ ';' :: b)) := hrest
          by_cases hd : d = '\n'
          · rw [dropNewline, if_pos hd] at hdrop
            exact ih (fun x hx => ha' x (List.mem_cons_of_mem d hx)) hdrop.symm
          · rw [dropNewline, if_neg hd] at hdrop
            exact ih ha' hdrop.symm

end Script
end SchemaScript
