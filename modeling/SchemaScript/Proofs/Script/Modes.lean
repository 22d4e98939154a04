import SchemaScript.Proofs.Text.Runs
import SchemaScript.Script.Split

/-!
# The modes a text leads through

A scanner that cuts a script into statements knows of a text only what it is in the middle of.
`Mode.behind?` follows this mode through a text and gives up at a semicolon that stands in
normal mode, where a statement would end; `Mode.after` follows it whatever ends.

Most characters are inert: they leave normal mode as it is. A quote enters a mode that the
next quote leaves, so that a text with its quotes doubled leads through quotes and back
(`Encloses.quoted?`). Two texts lead where the first and then the second leads, unless a
bracket of a comment stands across the place where they meet (`behind?_append`).
-/

namespace SchemaScript
namespace Script

/-- The mode behind a text that is entered in the mode, unless a semicolon stands in it where
it ends a statement. -/
def Mode.behind? (mode : Mode) (cs : List Char) : Option Mode :=
  match cs with
  | [] => some mode
  | c :: cs =>
    if mode = .normal then
      if c = ';' then none
      else if c = '/' ∧ cs.head? = some '*' then Mode.behind? .blockComment cs.tail
      else Mode.behind? (Scanner.openedBy c cs) cs
    else if mode = .blockComment ∧ c = '*' ∧ cs.head? = some '/' then
      Mode.behind? .normal cs.tail
    else Mode.behind? (if Scanner.closer? mode = some c then .normal else mode) cs
termination_by cs.length
decreasing_by all_goals simp only [List.length_cons, List.length_tail]; omega

/-- The mode behind a text that is entered in the mode, whatever ends in it. -/
def Mode.after (mode : Mode) (cs : List Char) : Mode :=
  match cs with
  | [] => mode
  | c :: cs =>
    if mode = .normal then
      if c = '/' ∧ cs.head? = some '*' then Mode.after .blockComment cs.tail
      else Mode.after (Scanner.openedBy c cs) cs
    else if mode = .blockComment ∧ c = '*' ∧ cs.head? = some '/' then
      Mode.after .normal cs.tail
    else Mode.after (if Scanner.closer? mode = some c then .normal else mode) cs
termination_by cs.length
decreasing_by all_goals simp only [List.length_cons, List.length_tail]; omega

namespace Mode

/-! ## Single characters -/

@[simp] theorem behind?_nil (mode : Mode) : mode.behind? [] = some mode := by
  rw [behind?]

/-- Whether a character leaves a scanner in normal mode, whatever stands behind it. -/
def isInert (c : Char) : Bool :=
  c != ';' && c != '\'' && c != '"' && c != '\x60' && c != '-' && c != '/'

theorem behind?_inert {c : Char} (h : isInert c = true) (cs : List Char) :
    normal.behind? (c :: cs) = normal.behind? cs := by
  simp only [isInert, Bool.and_eq_true, bne_iff_ne] at h
  obtain ⟨⟨⟨⟨⟨h1, h2⟩, h3⟩, h4⟩, h5⟩, h6⟩ := h
  rw [behind?, if_pos rfl, if_neg h1, if_neg (fun hx => h6 hx.1), Scanner.openedBy,
    if_neg (fun hx => h5 hx.1), if_neg h2, if_neg h3, if_neg h4]

theorem behind?_inert_append {w : List Char} (h : ∀ c ∈ w, isInert c = true) (cs : List Char) :
    normal.behind? (w ++ cs) = normal.behind? cs := by
  induction w with
  | nil => rfl
  | cons c w ih =>
    rw [List.cons_append, behind?_inert (h c List.mem_cons_self)]
    exact ih fun d hd => h d (List.mem_cons_of_mem c hd)

/-- What does not hold of quotes, semicolons, hyphens and slashes holds of inert characters
only. -/
theorem isInert_of_forall {p : Char → Bool} {c : Char}
    (hp : ∀ d ∈ [';', '\'', '"', '\x60', '-', '/'], p d = false) (hc : p c = true) :
    isInert c = true := by
  have hne : ∀ d ∈ [';', '\'', '"', '\x60', '-', '/'], c ≠ d := by
    rintro d hd rfl
    rw [hp c hd] at hc
    cases hc
  simp only [isInert, Bool.and_eq_true, bne_iff_ne]
  exact ⟨⟨⟨⟨⟨hne ';' (by decide), hne '\'' (by decide)⟩, hne '"' (by decide)⟩,
    hne '\x60' (by decide)⟩, hne '-' (by decide)⟩, hne '/' (by decide)⟩

theorem isInert_of_isWordPart {c : Char} (h : Token.isWordPart c = true) : isInert c = true :=
  isInert_of_forall (p := Token.isWordPart) (by decide) h

theorem isInert_of_isWordStart {c : Char} (h : Token.isWordStart c = true) : isInert c = true :=
  isInert_of_forall (p := Token.isWordStart) (by decide) h

theorem isInert_of_isDigit {c : Char} (h : c.isDigit = true) : isInert c = true :=
  isInert_of_forall (p := Char.isDigit) (by decide) h

theorem isInert_of_isBlank {c : Char} (h : Text.isBlank c = true) : isInert c = true :=
  isInert_of_forall (p := Text.isBlank) (by decide) h

/-- A run of characters that are all inert is passed. -/
theorem behind?_takeWhile {p : Char → Bool}
    (hp : ∀ d ∈ [';', '\'', '"', '\x60', '-', '/'], p d = false) (cs : List Char) :
    normal.behind? cs = normal.behind? (cs.dropWhile p) := by
  conv_lhs => rw [← List.takeWhile_append_dropWhile (p := p) (l := cs)]
  exact behind?_inert_append
    (fun _ hc => isInert_of_forall hp (List.mem_takeWhile_imp hc)) _

/-- A hyphen alone opens nothing. -/
theorem behind?_hyphen {cs : List Char} (h : cs.head? ≠ some '-') :
    normal.behind? ('-' :: cs) = normal.behind? cs := by
  rw [behind?, if_pos rfl, if_neg (by decide), if_neg (fun hx => absurd hx.1 (by decide)),
    Scanner.openedBy, if_neg (fun hx => h hx.2), if_neg (by decide), if_neg (by decide),
    if_neg (by decide)]

/-- A slash alone opens nothing. -/
theorem behind?_slash {cs : List Char} (h : cs.head? ≠ some '*') :
    normal.behind? ('/' :: cs) = normal.behind? cs := by
  rw [behind?, if_pos rfl, if_neg (by decide), if_neg (fun hx => h hx.2), Scanner.openedBy,
    if_neg (fun hx => absurd hx.1 (by decide)), if_neg (by decide), if_neg (by decide),
    if_neg (by decide)]

/-! ## Quotes -/

/-- Whether the mode is entered and left at the quote. -/
def Encloses (mode : Mode) (q : Char) : Prop :=
  (mode = .singleQuoted ∧ q = '\'') ∨ (mode = .doubleQuoted ∧ q = '"') ∨
    (mode = .backticked ∧ q = '\x60')

theorem Encloses.open {mode : Mode} {q : Char} (h : mode.Encloses q) (cs : List Char) :
    normal.behind? (q :: cs) = mode.behind? cs := by
  rcases h with ⟨rfl, rfl⟩ | ⟨rfl, rfl⟩ | ⟨rfl, rfl⟩ <;>
    simp [behind?, Scanner.openedBy]

theorem Encloses.close {mode : Mode} {q : Char} (h : mode.Encloses q) (cs : List Char) :
    mode.behind? (q :: cs) = normal.behind? cs := by
  rcases h with ⟨rfl, rfl⟩ | ⟨rfl, rfl⟩ | ⟨rfl, rfl⟩ <;>
    simp [behind?, Scanner.closer?]

theorem Encloses.pass {mode : Mode} {q c : Char} (h : mode.Encloses q) (hc : c ≠ q)
    (cs : List Char) : mode.behind? (c :: cs) = mode.behind? cs := by
  rcases h with ⟨rfl, rfl⟩ | ⟨rfl, rfl⟩ | ⟨rfl, rfl⟩ <;>
    simp [behind?, Scanner.closer?, Ne.symm hc]

theorem Encloses.pass_append {mode : Mode} {q : Char} (h : mode.Encloses q) {w : List Char}
    (hw : q ∉ w) (cs : List Char) : mode.behind? (w ++ cs) = mode.behind? cs := by
  induction w with
  | nil => rfl
  | cons c w ih =>
    simp only [List.mem_cons, not_or] at hw
    rw [List.cons_append, h.pass (Ne.symm hw.1), ih hw.2]

/-- A quote that stands twice is one that closes and one that opens. -/
theorem Encloses.twice {mode : Mode} {q : Char} (h : mode.Encloses q) (cs : List Char) :
    mode.behind? (q :: q :: cs) = mode.behind? cs := by
  rw [h.close, h.open]

/-- Doubled quotes do not lead out of the mode. -/
theorem Encloses.double_append {mode : Mode} {q : Char} (h : mode.Encloses q)
    (v cs : List Char) : mode.behind? (Text.double q v ++ cs) = mode.behind? cs := by
  induction v with
  | nil => rfl
  | cons c v ih =>
    by_cases hc : c = q
    · subst hc
      rw [Text.double_quote, List.cons_append, List.cons_append, h.twice, ih]
    · rw [Text.double_cons_of_ne hc, List.cons_append, h.pass hc, ih]

theorem Encloses.double {mode : Mode} {q : Char} (h : mode.Encloses q) (v cs : List Char) :
    mode.behind? (Text.double q v ++ q :: cs) = normal.behind? cs := by
  rw [h.double_append, h.close]

/-- A text up to its closing quote leads back to normal mode. -/
theorem Encloses.quoted? {mode : Mode} {q : Char} (h : mode.Encloses q) {cs v rest : List Char}
    (hv : Text.quoted? q cs = some (v, rest)) : mode.behind? cs = normal.behind? rest := by
  rw [Text.eq_double_of_quoted? hv]
  exact h.double v rest

theorem encloses_single : singleQuoted.Encloses '\'' :=
  Or.inl ⟨rfl, rfl⟩

theorem encloses_backtick : backticked.Encloses '\x60' :=
  Or.inr (Or.inr ⟨rfl, rfl⟩)

theorem exists_encloses_string (q : StringQuote) : ∃ mode : Mode, mode.Encloses q.char := by
  cases q with
  | single => exact ⟨_, encloses_single⟩
  | double => exact ⟨doubleQuoted, Or.inr (Or.inl ⟨rfl, rfl⟩)⟩

theorem exists_encloses_name (q : NameQuote) : ∃ mode : Mode, mode.Encloses q.char := by
  cases q with
  | double => exact ⟨doubleQuoted, Or.inr (Or.inl ⟨rfl, rfl⟩)⟩
  | backtick => exact ⟨backticked, encloses_backtick⟩

/-! ## Texts behind each other -/

/-- A character that opens or closes no bracket of a comment with what stands behind a text. -/
def isSettled (c : Char) : Bool :=
  c != '-' && c != '/' && c != '*'

theorem bracket_append_iff {c d e : Char} {w : List Char} (cs : List Char)
    (h : ∀ x ∈ (c :: w).getLast?, isSettled x = true) (hd : isSettled d = false) :
    (c = d ∧ (w ++ cs).head? = some e) ↔ (c = d ∧ w.head? = some e) := by
  cases w with
  | nil =>
    have hc : c ≠ d := by
      rintro rfl
      have hx := h c rfl
      rw [hd] at hx
      cases hx
    constructor <;> exact fun hx => absurd hx.1 hc
  | cons x w => rfl

theorem tail_append_of_head? {w : List Char} {d : Char} (h : w.head? = some d)
    (cs : List Char) : (w ++ cs).tail = w.tail ++ cs := by
  cases w with
  | nil => cases h
  | cons x w => rfl

/-- A text is entered in the mode that the text in front of it leads to. -/
theorem behind?_append {mode : Mode} {w : List Char} (cs : List Char)
    (h : ∀ c ∈ w.getLast?, isSettled c = true) :
    mode.behind? (w ++ cs) = (mode.behind? w).bind fun m => m.behind? cs := by
  have hcons : ∀ {c : Char} {w : List Char}, (∀ x ∈ (c :: w).getLast?, isSettled x = true) →
      ∀ x ∈ w.getLast?, isSettled x = true := by
    intro c w hx x hw
    refine hx x ?_
    rw [List.getLast?_cons, Option.mem_def.1 hw]
    rfl
  have htail : ∀ {w : List Char}, (∀ x ∈ w.getLast?, isSettled x = true) →
      ∀ x ∈ w.tail.getLast?, isSettled x = true := by
    intro w hx
    cases w with
    | nil => exact hx
    | cons c w => exact hcons hx
  fun_induction behind? mode w with
  | case1 mode => rfl
  | case2 w => rw [List.cons_append, behind?, if_pos rfl, if_pos rfl]; rfl
  | case3 c w hc hopen ih =>
    have hx := (bracket_append_iff cs h rfl).2 hopen
    rw [List.cons_append, behind?, if_pos rfl, if_neg hc, if_pos hx,
      tail_append_of_head? hopen.2, ih (htail (hcons h))]
  | case4 c w hc hopen ih =>
    have hx := fun hb => hopen ((bracket_append_iff (c := c) (w := w) cs h rfl).1 hb)
    have hline : Scanner.openedBy c (w ++ cs) = Scanner.openedBy c w := by
      simp only [Scanner.openedBy, bracket_append_iff (c := c) (w := w) cs h
        (show isSettled '-' = false from rfl)]
    rw [List.cons_append, behind?, if_pos rfl, if_neg hc, if_neg hx, hline, ih (hcons h)]
  | case5 mode c w hm hclose ih =>
    have hx := (bracket_append_iff cs h rfl).2 hclose.2
    rw [List.cons_append, behind?, if_neg hm, if_pos ⟨hclose.1, hx⟩,
      tail_append_of_head? hclose.2.2, ih (htail (hcons h))]
  | case6 mode c w hm hclose ih =>
    have hx := fun hb : mode = .blockComment ∧ c = '*' ∧ (w ++ cs).head? = some '/' =>
      hclose ⟨hb.1, (bracket_append_iff cs h rfl).1 hb.2⟩
    rw [List.cons_append, behind?, if_neg hm, if_neg hx]
    exact ih (hcons h)

/-- What a text begins with shows in the text alone, unless it is empty. -/
theorem head?_append_iff {rest : List Char} {e : Char} (h : rest.head? ≠ some e) (w : List Char) :
    (w ++ rest).head? = some e ↔ w.head? = some e := by
  cases w with
  | nil => simpa using h
  | cons x w => rfl

theorem head?_append_iff_of_isSettled {cs : List Char}
    (hcs : ∀ c ∈ cs.head?, isSettled c = true) {e : Char} (he : isSettled e = false)
    (w : List Char) : (w ++ cs).head? = some e ↔ w.head? = some e := by
  refine head?_append_iff (fun hx => ?_) w
  rw [hcs e hx] at he
  cases he

/-- A semicolon that ends a statement stands in normal mode. -/
theorem exists_of_behind?_eq_none {mode : Mode} {cs : List Char} (h : mode.behind? cs = none) :
    ∃ a b, cs = a ++ ';' :: b ∧ mode.behind? a = some .normal := by
  have hhead : ∀ {a b : List Char} {e : Char}, e ≠ ';' →
      ((a ++ ';' :: b).head? = some e ↔ a.head? = some e) :=
    fun {a b e} he => head?_append_iff (by simpa using Ne.symm he) a
  fun_induction behind? mode cs with
  | case1 => cases h
  | case2 w => exact ⟨[], w, rfl, behind?_nil _⟩
  | case3 c w hc hopen ih =>
    obtain ⟨rfl, hw⟩ := hopen
    obtain ⟨w, rfl⟩ := List.head?_eq_some_iff.1 hw
    obtain ⟨a, b, hab, ha⟩ := ih h
    rw [List.tail_cons] at hab
    subst hab
    refine ⟨'/' :: '*' :: a, b, rfl, ?_⟩
    rw [behind?, if_pos rfl, if_neg hc, if_pos ⟨rfl, rfl⟩]
    exact ha
  | case4 c w hc hopen ih =>
    obtain ⟨a, b, rfl, ha⟩ := ih h
    rw [hhead (by decide)] at hopen
    have hline : Scanner.openedBy c (a ++ ';' :: b) = Scanner.openedBy c a := by
      simp only [Scanner.openedBy, hhead (a := a) (b := b) (show '-' ≠ ';' by decide)]
    refine ⟨c :: a, b, rfl, ?_⟩
    rw [behind?, if_pos rfl, if_neg hc, if_neg hopen, ← hline]
    exact ha
  | case5 mode c w hm hclose ih =>
    obtain ⟨hblock, rfl, hw⟩ := hclose
    obtain ⟨w, rfl⟩ := List.head?_eq_some_iff.1 hw
    obtain ⟨a, b, hab, ha⟩ := ih h
    rw [List.tail_cons] at hab
    subst hab
    refine ⟨'*' :: '/' :: a, b, rfl, ?_⟩
    rw [behind?, if_neg hm, if_pos ⟨hblock, rfl, rfl⟩]
    exact ha
  | case6 mode c w hm hclose ih =>
    obtain ⟨a, b, rfl, ha⟩ := ih h
    rw [hhead (by decide)] at hclose
    refine ⟨c :: a, b, rfl, ?_⟩
    rw [behind?, if_neg hm, if_neg hclose]
    exact ha

/-! ## Modes whatever ends -/

@[simp] theorem after_nil (mode : Mode) : mode.after [] = mode := by
  rw [after]

/-- What begins behind a text without a pair of characters begins behind its beginnings
without it. -/
theorem not_head?_of_append {c x y : Char} {a b : List Char}
    (h : ¬ (c = x ∧ (a ++ b).head? = some y)) : ¬ (c = x ∧ a.head? = some y) := by
  rintro ⟨rfl, ha⟩
  refine h ⟨rfl, ?_⟩
  rw [List.head?_append, ha]
  rfl

/-- A text in which no statement ends leads to the same mode. -/
theorem after_of_behind? {mode m : Mode} {cs : List Char} (h : mode.behind? cs = some m) :
    mode.after cs = m := by
  fun_induction behind? mode cs with
  | case1 mode => rw [after_nil, Option.some.inj h]
  | case2 => cases h
  | case3 c w hc hopen ih => rw [after, if_pos rfl, if_pos hopen, ih h]
  | case4 c w hc hopen ih => rw [after, if_pos rfl, if_neg hopen, ih h]
  | case5 mode c w hm hclose ih => rw [after, if_neg hm, if_pos hclose, ih h]
  | case6 mode c w hm hclose ih =>
    rw [after, if_neg hm, if_neg hclose]
    exact ih h

/-- Where no statement ends, every semicolon stands inside quotes or comments. -/
theorem after_ne_normal_of_behind? {mode m : Mode} {a b : List Char}
    (h : mode.behind? (a ++ ';' :: b) = some m) : mode.after a ≠ .normal := by
  have hhead : ∀ {w : List Char} {e : Char}, e ≠ ';' →
      ((w ++ ';' :: b).head? = some e ↔ w.head? = some e) :=
    fun {w e} he => head?_append_iff (by simpa using Ne.symm he) w
  fun_induction after mode a with
  | case1 mode =>
    rintro rfl
    rw [List.nil_append, behind?, if_pos rfl, if_pos rfl] at h
    cases h
  | case2 c w hopen ih =>
    obtain ⟨rfl, hw⟩ := hopen
    obtain ⟨w, rfl⟩ := List.head?_eq_some_iff.1 hw
    rw [List.cons_append, behind?, if_pos rfl, if_neg (by decide), if_pos ⟨rfl, rfl⟩] at h
    exact ih h
  | case3 c w hopen ih =>
    have hline : Scanner.openedBy c (w ++ ';' :: b) = Scanner.openedBy c w := by
      simp only [Scanner.openedBy, hhead (w := w) (show '-' ≠ ';' by decide)]
    rw [← hhead (by decide)] at hopen
    rw [List.cons_append, behind?, if_pos rfl, if_neg hopen, hline] at h
    split at h
    · cases h
    · exact ih h
  | case4 mode c w hm hclose ih =>
    obtain ⟨hblock, rfl, hw⟩ := hclose
    obtain ⟨w, rfl⟩ := List.head?_eq_some_iff.1 hw
    rw [List.cons_append, behind?, if_neg hm, if_pos ⟨hblock, rfl, rfl⟩] at h
    exact ih h
  | case5 mode c w hm hclose ih =>
    rw [← hhead (by decide)] at hclose
    rw [List.cons_append, behind?, if_neg hm, if_neg hclose] at h
    exact ih h

end Mode
end Script
end SchemaScript
