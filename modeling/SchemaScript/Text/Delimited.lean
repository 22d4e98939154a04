import SchemaScript.Text.Doubling

/-!
# Text up to a delimiter

The three ways in which a script ends a stretch of text: at a given text (`upTo?`), at a
quote that is not doubled (`quoted?`), and at a fixed beginning that is stripped off
(`stripStart?`). Each answers what was read and what is left, and what is left is always
the end of the text it was given.
-/

namespace SchemaScript
namespace Text

/-- What follows `start` in a text that begins with it. -/
def stripStart? : List Char → List Char → Option (List Char)
  | [], cs => some cs
  | _ :: _, [] => none
  | s :: start, c :: cs => if s = c then stripStart? start cs else none

/-- The text before the first occurrence of `delimiter`, and the text behind it. -/
def upTo? (delimiter : List Char) : List Char → Option (List Char × List Char)
  | [] => (stripStart? delimiter []).map ([], ·)
  | c :: cs =>
    match stripStart? delimiter (c :: cs) with
    | some rest => some ([], rest)
    | none => (upTo? delimiter cs).map fun r => (c :: r.1, r.2)

/-- The value of a quoted text, read behind the opening quote `q`: a doubled quote stands
for one, and a single quote ends the text. -/
def quoted? (q : Char) : List Char → Option (List Char × List Char)
  | [] => none
  | [c] => if c = q then some ([], []) else none
  | c :: d :: cs =>
    if c = q then
      if d = q then (quoted? q cs).map fun r => (q :: r.1, r.2) else some ([], d :: cs)
    else (quoted? q (d :: cs)).map fun r => (c :: r.1, r.2)

@[simp] theorem stripStart?_nil (cs : List Char) : stripStart? [] cs = some cs := by
  cases cs <;> rfl

@[simp] theorem stripStart?_cons_self (c : Char) (start cs : List Char) :
    stripStart? (c :: start) (c :: cs) = stripStart? start cs := by
  simp [stripStart?]

/-- Stripping a beginning succeeds exactly when the text is that beginning and a rest. -/
theorem stripStart?_eq_some_iff {start cs rest : List Char} :
    stripStart? start cs = some rest ↔ cs = start ++ rest := by
  induction start generalizing cs with
  | nil => simp [eq_comm]
  | cons s start ih =>
    cases cs with
    | nil => simp [stripStart?]
    | cons c cs =>
      by_cases h : s = c
      · subst h; simp [ih]
      · simp [stripStart?, h, Ne.symm h]

@[simp] theorem stripStart?_append (start cs : List Char) :
    stripStart? start (start ++ cs) = some cs :=
  stripStart?_eq_some_iff.2 rfl

theorem stripStart?_suffix {start cs rest : List Char} (h : stripStart? start cs = some rest) :
    rest <:+ cs :=
  ⟨start, (stripStart?_eq_some_iff.1 h).symm⟩

/-- The parts before and behind the delimiter make up the text. -/
theorem eq_append_of_upTo? {delimiter cs : List Char} {r : List Char × List Char}
    (h : upTo? delimiter cs = some r) : cs = r.1 ++ delimiter ++ r.2 := by
  induction cs generalizing r with
  | nil =>
    simp only [upTo?, Option.map_eq_some_iff] at h
    obtain ⟨rest, hr, rfl⟩ := h
    simpa using stripStart?_eq_some_iff.1 hr
  | cons c cs ih =>
    simp only [upTo?] at h
    split at h
    · rename_i rest hr
      cases h
      simpa using stripStart?_eq_some_iff.1 hr
    · obtain ⟨r', hr', rfl⟩ := Option.map_eq_some_iff.1 h
      simp [← ih hr']

theorem upTo?_suffix {delimiter cs : List Char} {r : List Char × List Char}
    (h : upTo? delimiter cs = some r) : r.2 <:+ cs :=
  ⟨r.1 ++ delimiter, (eq_append_of_upTo? h).symm⟩

theorem quoted?_suffix {q : Char} {cs : List Char} {r : List Char × List Char}
    (h : quoted? q cs = some r) : r.2 <:+ cs := by
  fun_induction quoted? q cs generalizing r with
  | case1 => simp at h
  | case2 => cases h; simp
  | case3 => simp at h
  | case4 cs ih =>
    obtain ⟨r', hr', rfl⟩ := Option.map_eq_some_iff.1 h
    exact (ih hr').trans ((List.suffix_cons _ _).trans (List.suffix_cons _ _))
  | case5 => cases h; exact List.suffix_cons _ _
  | case6 c d cs _ ih =>
    obtain ⟨r', hr', rfl⟩ := Option.map_eq_some_iff.1 h
    exact (ih hr').trans (List.suffix_cons _ _)

/-- A doubled text between quotes is read back, whatever follows it, as long as no further
quote does. -/
theorem quoted?_double {q : Char} (cs rest : List Char) (h : rest.head? ≠ some q) :
    quoted? q (double q cs ++ q :: rest) = some (cs, rest) := by
  induction cs with
  | nil =>
    cases rest with
    | nil => simp [quoted?]
    | cons d rest =>
      have hd : d ≠ q := by simpa using h
      simp [quoted?, hd]
  | cons c cs ih =>
    by_cases hc : c = q
    · subst hc; simp [quoted?, ih]
    · rw [double_cons_of_ne hc, List.cons_append]
      cases hx : double q cs ++ q :: rest with
      | nil => simp at hx
      | cons d ds => rw [quoted?, if_neg hc, ← hx, ih]; rfl

end Text
end SchemaScript
