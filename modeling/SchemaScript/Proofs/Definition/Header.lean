import SchemaScript.Definition.Table
import SchemaScript.Proofs.Reader.Names

/-!
# The header of a table definition

What stands in front of the body is read word by word. Here the header is run on the two
forms of it that statements are written with, and a statement whose name and opening
parenthesis follow comes down to its body (`TableDefinition.ofTokens_of_header`).
-/

namespace SchemaScript
namespace TableDefinition

open Reader

/-- A statement that does not begin with the guard is left as it is. -/
theorem run_skipExistenceGuard {t : Token} (h : t.isKeyword "IF" = false) (ts : List Token) :
    skipExistenceGuard.run (t :: ts) = (some (), t :: ts) := by
  have hguard : (existenceGuard.run (t :: ts)).1 = none := by
    rw [existenceGuard, run_bind_of_none (run_keyword_of_neg h ts)]
  rw [skipExistenceGuard, run_bind_of_some (run_attempt_of_none hguard)]
  rfl

/-- Without the word for a temporary table nothing is taken. -/
theorem run_skipTemporary {t : Token} (h : t.isKeyword "TEMPORARY" = false)
    (h' : t.isWord "TEMP" = false) (ts : List Token) :
    skipTemporary.run (t :: ts) = (some (), t :: ts) := by
  have hsees : (sees fun t => t.isKeyword "TEMPORARY" || t.isWord "TEMP").run (t :: ts) =
      (some false, t :: ts) := by
    rw [run_sees, List.head?_cons, Option.any_some, h, h']
    rfl
  rw [skipTemporary, run_bind_of_some hsees]
  rfl

/-- The header `CREATE TABLE`. -/
theorem run_header {t : Token} (ht : t.isBlank = false) (hif : t.isKeyword "IF" = false)
    (ts : List Token) :
    header.run (.word "CREATE" :: .blank .space :: .word "TABLE" :: .blank .space :: t :: ts) =
      (some (), t :: ts) := by
  rw [header, run_bind_of_some (run_skipExistenceGuard (by decide) _),
    run_bind_of_some (run_keyword_of_pos (by decide) _), dropWhile_isBlank_blank,
    dropWhile_isBlank_cons rfl,
    run_bind_of_some (run_skipTemporary (by decide) (by decide) _),
    run_bind_of_some (run_keyword_of_pos (by decide) _), dropWhile_isBlank_blank,
    dropWhile_isBlank_cons ht, ifNotExists,
    run_bind_of_some (run_possibly_of_eq (run_keyword_of_neg hif ts))]
  rfl

/-- Behind the name `IF` the header breaks off, since it takes it for the beginning of a
condition. -/
theorem run_header_if {t u : Token} {ts us : List Token} (ht : t.isBlank = false)
    (hif : t.isKeyword "IF" = true) (hts : ts.dropWhile Token.isBlank = u :: us)
    (hnot : u.isKeyword "NOT" = false) :
    header.run (.word "CREATE" :: .blank .space :: .word "TABLE" :: .blank .space :: t :: ts) =
      (none, u :: us) := by
  rw [header, run_bind_of_some (run_skipExistenceGuard (by decide) _),
    run_bind_of_some (run_keyword_of_pos (by decide) _), dropWhile_isBlank_blank,
    dropWhile_isBlank_cons rfl,
    run_bind_of_some (run_skipTemporary (by decide) (by decide) _),
    run_bind_of_some (run_keyword_of_pos (by decide) _), dropWhile_isBlank_blank,
    dropWhile_isBlank_cons ht, ifNotExists,
    run_bind_of_some (run_possibly_of_eq (run_keyword_of_pos hif ts)), hts]
  exact run_bind_of_none (run_keyword_of_neg hnot us) _

/-- The header `CREATE TABLE IF NOT EXISTS`. -/
theorem run_header_ifNotExists {t : Token} (ht : t.isBlank = false) (ts : List Token) :
    header.run (.word "CREATE" :: .blank .space :: .word "TABLE" :: .blank .space ::
        .word "IF" :: .blank .space :: .word "NOT" :: .blank .space :: .word "EXISTS" ::
          .blank .space :: t :: ts) =
      (some (), t :: ts) := by
  rw [header, run_bind_of_some (run_skipExistenceGuard (by decide) _),
    run_bind_of_some (run_keyword_of_pos (by decide) _), dropWhile_isBlank_blank,
    dropWhile_isBlank_cons rfl,
    run_bind_of_some (run_skipTemporary (by decide) (by decide) _),
    run_bind_of_some (run_keyword_of_pos (by decide) _), dropWhile_isBlank_blank,
    dropWhile_isBlank_cons rfl, ifNotExists,
    run_bind_of_some (run_possibly_of_eq (run_keyword_of_pos (by decide) _)),
    dropWhile_isBlank_blank, dropWhile_isBlank_cons rfl,
    run_bind_of_some (run_keyword_of_pos (by decide) _), dropWhile_isBlank_blank,
    dropWhile_isBlank_cons rfl, run_keyword_of_pos (by decide),
    dropWhile_isBlank_blank, dropWhile_isBlank_cons ht]

/-- Behind its header, name and opening parenthesis a statement is its body. -/
theorem ofTokens_of_qualifiedName {ts afterHeader blanks body : List Token} {n : String}
    (hheader : header.run (ts.dropWhile Token.isBlank) = (some (), afterHeader))
    (hname : qualifiedName.run afterHeader = (some n, blanks ++ .mark .openParen :: body))
    (hblanks : blanks.dropWhile Token.isBlank = []) :
    ofTokens ts =
      match bodyItems? (body.dropWhile Token.isBlank) with
      | none => .error (.openColumnList n)
      | some (items, _) => .ok (ofItems n items) := by
  have hdrop : (blanks ++ Token.mark .openParen :: body).dropWhile Token.isBlank =
      Token.mark .openParen :: body := by
    rw [List.dropWhile_append, hblanks]
    rfl
  have hopen : (mark .openParen).run (Token.mark .openParen :: body) =
      (some (), body.dropWhile Token.isBlank) := run_mark_of_pos rfl body
  cases hitems : bodyItems? (body.dropWhile Token.isBlank) <;>
    simp only [ofTokens, hheader, hname, hdrop, hopen, hitems]

/-- The name may be a single word. -/
theorem ofTokens_of_header {ts body : List Token} {t : Token} {n : String} {blanks : List Token}
    (hheader : header.run (ts.dropWhile Token.isBlank) =
      (some (), t :: (blanks ++ .mark .openParen :: body)))
    (ht : t.wordText? = some n) (hblanks : blanks.dropWhile Token.isBlank = []) :
    ofTokens ts =
      match bodyItems? (body.dropWhile Token.isBlank) with
      | none => .error (.openColumnList n)
      | some (items, _) => .ok (ofItems n items) := by
  refine ofTokens_of_qualifiedName hheader (run_qualifiedName ht ?_) hblanks
  rw [List.dropWhile_append, hblanks]
  rfl

end TableDefinition
end SchemaScript
