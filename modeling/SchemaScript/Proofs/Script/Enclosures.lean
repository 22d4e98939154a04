import SchemaScript.Proofs.Script.Modes

/-!
# Texts that close their quotes and comments

What stands in quotes or in a comment is an *enclosure*, from the character that opens it to the
one that closes it: between two equal quotes stands any other character, between two hyphens
and the end of the line anything, and a comment in brackets ends at the first bracket that closes
one, so comments do not nest (`IsEnclosure`). A text is *closed* if it consists of enclosures and
of characters that open none (`IsClosed`).

This says nothing of scanners. The modes agree with it: a text that is entered in normal mode
leads back to normal mode exactly if it is closed (`isClosed_iff_after`). From this it follows
that nothing else can be read into a text: a character behind a closed text, if it opens nothing,
leaves the texts that go on behind it as they are (`isClosed_append_cons_iff`).
-/

namespace SchemaScript
namespace Script

/-- A stretch of text in quotes or in a comment. -/
inductive IsEnclosure : List Char → Prop where
  /-- Between two quotes stands no third one. -/
  | quoted {q : Char} {body : List Char} (hq : q ∈ ['\'', '"', '\x60']) (h : q ∉ body) :
    IsEnclosure (q :: (body ++ [q]))
  /-- A comment up to the end of its line. -/
  | lineComment {body : List Char} (h : '\n' ∉ body) : IsEnclosure ('-' :: '-' :: (body ++ ['\n']))
  /-- A comment in brackets, up to the first one that closes it. -/
  | blockComment {body : List Char} (h : ¬ ['*', '/'] <:+: body ++ ['*']) :
    IsEnclosure ('/' :: '*' :: (body ++ ['*', '/']))

/-- Whether a text begins with what opens an enclosure. -/
def OpensEnclosure (cs : List Char) : Prop :=
  (∃ q ∈ ['\'', '"', '\x60'], cs.head? = some q) ∨ ['-', '-'] <+: cs ∨ ['/', '*'] <+: cs

/-- A text in which all quotes and comments are closed. -/
inductive IsClosed : List Char → Prop where
  | nil : IsClosed []
  | char {c : Char} {cs : List Char} (h : ¬ OpensEnclosure (c :: cs)) (hcs : IsClosed cs) :
    IsClosed (c :: cs)
  | enclosure {w cs : List Char} (hw : IsEnclosure w) (hcs : IsClosed cs) : IsClosed (w ++ cs)

theorem pair_prefix_cons_iff {x y c : Char} {cs : List Char} :
    [x, y] <+: c :: cs ↔ c = x ∧ cs.head? = some y := by
  rw [List.cons_prefix_cons, eq_comm]
  cases cs with
  | nil => simp
  | cons d cs => simp [List.cons_prefix_cons, eq_comm]

theorem opensEnclosure_cons_iff {c : Char} {cs : List Char} :
    OpensEnclosure (c :: cs) ↔
      c ∈ ['\'', '"', '\x60'] ∨ (c = '-' ∧ cs.head? = some '-') ∨
        (c = '/' ∧ cs.head? = some '*') := by
  simp only [OpensEnclosure, pair_prefix_cons_iff, List.head?_cons, Option.some.injEq,
    exists_eq_right']

/-- A text with a closing bracket in it is cut at the first one. -/
theorem exists_append_of_infix {cs : List Char} (h : ['*', '/'] <:+: cs) :
    ∃ body rest, cs = body ++ '*' :: '/' :: rest ∧ ¬ ['*', '/'] <:+: body ++ ['*'] := by
  induction cs with
  | nil => simp at h
  | cons c cs ih =>
    by_cases hc : ['*', '/'] <+: c :: cs
    · obtain ⟨rest, hrest⟩ := hc
      exact ⟨[], rest, hrest.symm, by decide⟩
    · obtain ⟨body, rest, rfl, hbody⟩ := ih ((List.infix_cons_iff.1 h).resolve_left hc)
      refine ⟨c :: body, rest, rfl, fun hx => ?_⟩
      rw [List.cons_append, List.infix_cons_iff] at hx
      rcases hx with hx | hx
      · have hstar : ('*' :: '/' :: rest).head? ≠ some '/' := by simp
        have hhead := Mode.head?_append_iff hstar body
        rw [pair_prefix_cons_iff, Mode.head?_append_iff (by simp), ← hhead,
          ← pair_prefix_cons_iff] at hx
        exact hc hx
      · exact hbody hx

namespace Mode

/-! ## How the modes end -/

/-- A mode with a character that ends it goes on up to that character. -/
theorem after_cons_of_closer {mode : Mode} {q : Char} (hq : Scanner.closer? mode = some q)
    (c : Char) (cs : List Char) :
    mode.after (c :: cs) = if c = q then normal.after cs else mode.after cs := by
  have hne : mode ≠ .normal ∧ mode ≠ .blockComment := by
    constructor <;> rintro rfl <;> cases hq
  have hiff : Scanner.closer? mode = some c ↔ c = q := by
    rw [hq, Option.some.injEq, eq_comm]
  rw [after, if_neg hne.1, if_neg (fun hx => hne.2 hx.1)]
  simp only [hiff]
  split <;> rfl

/-- A mode with a character that ends it ends at the first one. -/
theorem after_closer {mode : Mode} {q : Char} (hq : Scanner.closer? mode = some q)
    {body : List Char} (hbody : q ∉ body) (cs : List Char) :
    mode.after (body ++ q :: cs) = normal.after cs := by
  induction body with
  | nil => rw [List.nil_append, after_cons_of_closer hq, if_pos rfl]
  | cons c body ih =>
    rw [List.mem_cons, not_or] at hbody
    rw [List.cons_append, after_cons_of_closer hq, if_neg (Ne.symm hbody.1)]
    exact ih hbody.2

theorem after_of_notMem {mode : Mode} {q : Char} (hq : Scanner.closer? mode = some q)
    {body : List Char} (hbody : q ∉ body) : mode.after body = mode := by
  induction body with
  | nil => exact after_nil mode
  | cons c body ih =>
    rw [List.mem_cons, not_or] at hbody
    rw [after_cons_of_closer hq, if_neg (Ne.symm hbody.1)]
    exact ih hbody.2

/-- A comment in brackets ends at the first bracket that closes it. -/
theorem after_blockComment {body : List Char} (h : ¬ ['*', '/'] <:+: body ++ ['*'])
    (cs : List Char) : blockComment.after (body ++ '*' :: '/' :: cs) = normal.after cs := by
  induction body with
  | nil => rw [List.nil_append, after, if_neg (by decide), if_pos ⟨rfl, rfl, rfl⟩]; rfl
  | cons c body ih =>
    have hrest : ¬ ['*', '/'] <:+: body ++ ['*'] := fun hx => h (List.infix_cons hx)
    have hc : ¬ (c = '*' ∧ (body ++ '*' :: '/' :: cs).head? = some '/') := by
      rintro ⟨rfl, hx⟩
      rw [head?_append_iff (by simp),
        ← head?_append_iff (show ['*'].head? ≠ some '/' by simp)] at hx
      exact h (List.IsPrefix.isInfix (pair_prefix_cons_iff.2 ⟨rfl, hx⟩))
    rw [List.cons_append, after, if_neg (by decide), if_neg (fun hx => hc hx.2)]
    exact ih hrest

theorem after_blockComment_of_open {body : List Char} (h : ¬ ['*', '/'] <:+: body) :
    blockComment.after body = blockComment := by
  induction body with
  | nil => exact after_nil _
  | cons c body ih =>
    have hc : ¬ (c = '*' ∧ body.head? = some '/') := fun hx =>
      h (List.IsPrefix.isInfix (pair_prefix_cons_iff.2 hx))
    rw [after, if_neg (by decide), if_neg (fun hx => hc hx.2)]
    exact ih fun hx => h (List.infix_cons hx)

/-! ## How the modes begin -/

/-- The quote that opens a mode closes it. -/
theorem closer?_openedBy_of_quote {q : Char} (hq : q ∈ ['\'', '"', '\x60']) (cs : List Char) :
    Scanner.closer? (Scanner.openedBy q cs) = some q := by
  simp only [List.mem_cons, List.not_mem_nil, or_false] at hq
  rcases hq with rfl | rfl | rfl <;> rfl

theorem after_quote {q : Char} (hq : q ∈ ['\'', '"', '\x60']) (cs : List Char) :
    normal.after (q :: cs) = (Scanner.openedBy q cs).after cs := by
  rw [after, if_pos rfl, if_neg]
  rintro ⟨rfl, -⟩
  revert hq
  decide

theorem after_hyphens (cs : List Char) :
    normal.after ('-' :: '-' :: cs) = lineComment.after cs := by
  simp [after, Scanner.openedBy, Scanner.closer?]

theorem after_bracket (cs : List Char) :
    normal.after ('/' :: '*' :: cs) = blockComment.after cs := by
  rw [after, if_pos rfl, if_pos ⟨rfl, rfl⟩]
  rfl

/-- A character that opens nothing leaves normal mode as it is. -/
theorem after_cons_of_not_opens {c : Char} {cs : List Char} (h : ¬ OpensEnclosure (c :: cs)) :
    normal.after (c :: cs) = normal.after cs := by
  rw [opensEnclosure_cons_iff, not_or, not_or] at h
  obtain ⟨hquote, hhyphen, hbracket⟩ := h
  simp only [List.mem_cons, List.not_mem_nil, or_false, not_or] at hquote
  rw [after, if_pos rfl, if_neg hbracket, Scanner.openedBy, if_neg hhyphen, if_neg hquote.1,
    if_neg hquote.2.1, if_neg hquote.2.2]

/-- An enclosure leads from normal mode to normal mode. -/
theorem after_enclosure {w : List Char} (hw : IsEnclosure w) (cs : List Char) :
    normal.after (w ++ cs) = normal.after cs := by
  cases hw with
  | @quoted q body hq h =>
    rw [List.cons_append, List.append_assoc, after_quote hq]
    exact after_closer (closer?_openedBy_of_quote hq _) h cs
  | @lineComment body h =>
    rw [List.cons_append, List.cons_append, List.append_assoc, after_hyphens]
    exact after_closer rfl h cs
  | @blockComment body h =>
    rw [List.cons_append, List.cons_append, List.append_assoc, after_bracket]
    exact after_blockComment h cs

/-- A text that leads back to normal mode ends the enclosure that it begins with. -/
theorem exists_enclosure_append {cs : List Char} (hopens : OpensEnclosure cs)
    (h : normal.after cs = .normal) : ∃ w rest, cs = w ++ rest ∧ IsEnclosure w ∧ w ≠ [] := by
  cases cs with
  | nil => simp [OpensEnclosure] at hopens
  | cons c cs =>
    rcases opensEnclosure_cons_iff.1 hopens with hq | ⟨rfl, hhyphen⟩ | ⟨rfl, hstar⟩
    · rw [after_quote hq] at h
      have hcloser := closer?_openedBy_of_quote hq cs
      have hmem : c ∈ cs := by
        by_contra hn
        rw [after_of_notMem hcloser hn] at h
        rw [h] at hcloser
        cases hcloser
      obtain ⟨body, rest, rfl, hbody⟩ := List.eq_append_cons_of_mem hmem
      exact ⟨c :: (body ++ [c]), rest, by simp, .quoted hq hbody, List.cons_ne_nil _ _⟩
    · obtain ⟨cs, rfl⟩ := List.head?_eq_some_iff.1 hhyphen
      rw [after_hyphens] at h
      have hmem : '\n' ∈ cs := by
        by_contra hn
        rw [after_of_notMem rfl hn] at h
        cases h
      obtain ⟨body, rest, rfl, hbody⟩ := List.eq_append_cons_of_mem hmem
      exact ⟨'-' :: '-' :: (body ++ ['\n']), rest, by simp, .lineComment hbody,
        List.cons_ne_nil _ _⟩
    · obtain ⟨cs, rfl⟩ := List.head?_eq_some_iff.1 hstar
      rw [after_bracket] at h
      have hmem : ['*', '/'] <:+: cs := by
        by_contra hn
        rw [after_blockComment_of_open hn] at h
        cases h
      obtain ⟨body, rest, rfl, hbody⟩ := exists_append_of_infix hmem
      exact ⟨'/' :: '*' :: (body ++ ['*', '/']), rest, by simp, .blockComment hbody,
        List.cons_ne_nil _ _⟩

end Mode

open Mode

/-! ## Closed texts -/

/-- **A text is closed exactly if it leads from normal mode to normal mode.** -/
theorem isClosed_iff_after {cs : List Char} : IsClosed cs ↔ normal.after cs = .normal := by
  constructor
  · intro h
    induction h with
    | nil => exact after_nil _
    | char h _ ih => rw [after_cons_of_not_opens h, ih]
    | enclosure hw _ ih => rw [after_enclosure hw, ih]
  · intro h
    induction hn : cs.length using Nat.strong_induction_on generalizing cs with
    | _ n ih =>
      subst hn
      by_cases hopens : OpensEnclosure cs
      · obtain ⟨w, rest, rfl, hw, hne⟩ := exists_enclosure_append hopens h
        rw [after_enclosure hw] at h
        have hpos := List.length_pos_of_ne_nil hne
        exact .enclosure hw (ih _ (by rw [List.length_append]; omega) h rfl)
      · cases cs with
        | nil => exact .nil
        | cons c cs =>
          rw [after_cons_of_not_opens hopens] at h
          exact .char hopens (ih _ (Nat.lt_succ_self _) h rfl)

/-- A closed text leads as far as what stands behind it, unless the two make up a bracket. -/
theorem IsClosed.after_append {a cs : List Char} (ha : IsClosed a)
    (hcs : ∀ c ∈ cs.head?, isSettled c = true) : normal.after (a ++ cs) = normal.after cs := by
  induction ha with
  | nil => rfl
  | @char c a h _ ih =>
    rw [List.cons_append, after_cons_of_not_opens, ih]
    rw [opensEnclosure_cons_iff, head?_append_iff_of_isSettled hcs rfl,
      head?_append_iff_of_isSettled hcs rfl, ← opensEnclosure_cons_iff]
    exact h
  | @enclosure w a hw _ ih => rw [List.append_assoc, after_enclosure hw, ih]

/-- Behind a closed text a semicolon or the end of a line makes no difference to what stands
behind it. -/
theorem isClosed_append_cons_iff {d : Char} (hd : d = ';' ∨ d = '\n') {a : List Char}
    (ha : IsClosed a) (cs : List Char) : IsClosed (a ++ d :: cs) ↔ IsClosed cs := by
  have hopens : ¬ OpensEnclosure (d :: cs) := by
    rw [opensEnclosure_cons_iff]
    rcases hd with rfl | rfl <;> simp
  rw [isClosed_iff_after, isClosed_iff_after, ha.after_append, after_cons_of_not_opens hopens]
  rcases hd with rfl | rfl <;> simp [isSettled]

end Script
end SchemaScript
