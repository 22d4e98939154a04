import Mathlib.Data.List.Chain
import Mathlib.Data.List.Induction
import SchemaScript.Proofs.Definition.ColumnHead
import SchemaScript.Proofs.Reader.Answers
import SchemaScript.Proofs.Reader.Names

/-!
# Names of inline constraints

A name behind `CONSTRAINT` waits for the unique key or the reference that takes it. What becomes
of it can be followed without the definition it ends up in, because a modifier takes the same
tokens whatever has been read before (`ColumnDefinition.exists_run_modifier`). So the tokens
behind the type of a column are cut into pieces, one for each modifier, in just one way
(`IsCut.eq`), and the names are what the pieces make of them in turn.

A unique key, or a reference, has the name of a `CONSTRAINT` in front of it if all the pieces
between the two are of modifiers that leave a waiting name alone (`IsNamed`). A key, a default and
a check drop the name. `NOT NULL` and `NULL`, which may be named as well, are among those that
leave it, and so the name of one of them goes to a later unique key or reference. The name is that
of the `CONSTRAINT` directly in front (`IsIntroduced`) where no named `CONSTRAINT` has such a
modifier behind it (`ofText?_constraintNames`).
-/

namespace SchemaScript

/-- The last entry with a property, at the end of a list or in front of it. -/
theorem exists_last_concat_iff {α : Type} {p : List α → α → Prop} {q : α → Prop} {l : List α}
    {a : α} :
    (∃ before x behind, l ++ [a] = before ++ x :: behind ∧ p before x ∧ ∀ y ∈ behind, q y) ↔
      p l a ∨ (q a ∧ ∃ before x behind, l = before ++ x :: behind ∧ p before x ∧
        ∀ y ∈ behind, q y) := by
  constructor
  · rintro ⟨before, x, behind, hl, hp, hq⟩
    cases behind using List.reverseRecOn with
    | nil =>
      obtain ⟨rfl, hx⟩ := List.append_inj' hl rfl
      cases hx
      exact Or.inl hp
    | append_singleton behind b =>
      rw [← List.cons_append, ← List.append_assoc] at hl
      obtain ⟨rfl, hb⟩ := List.append_inj' hl rfl
      cases hb
      exact Or.inr ⟨hq a (by simp), before, x, behind, rfl, hp, fun y hy => hq y (by simp [hy])⟩
  · rintro (hp | ⟨ha, before, x, behind, rfl, hp, hq⟩)
    · exact ⟨l, a, [], rfl, hp, by simp⟩
    · refine ⟨before, x, behind ++ [a], by simp, hp, fun y hy => ?_⟩
      rcases List.mem_append.1 hy with hy | hy
      · exact hq y hy
      · exact List.mem_singleton.1 hy ▸ ha

namespace ColumnDefinition

open Reader
open Token (AllBlank)

/-! ## What a modifier does to names -/

/-- The names of a definition in the making. -/
structure Names where
  waiting : Option String := none
  unique : Option String := none
  references : Option String := none

/-- The names in a draft. -/
def Draft.names (d : Draft) : Names where
  waiting := d.pendingName
  unique := d.definition.uniqueName
  references := d.definition.referencesName

namespace Clause

/-- What a modifier makes of the names; `given` is the one behind its first word. -/
def rename (given : Option String) (s : Names) : Clause → Names
  | constraint => { s with waiting := given }
  | unique => { s with waiting := none, unique := s.waiting }
  | references => { s with waiting := none, references := s.waiting }
  | primary | default | check => { s with waiting := none }
  | not | null | comment | counting | identity | generated | named | characterSet | onUpdate
  | other => s

/-- The modifiers that leave a waiting name alone. -/
def keepsName : Clause → Bool
  | constraint | unique | references | primary | default | check => false
  | not | null | comment | counting | identity | generated | named | characterSet | onUpdate
  | other => true

/-- The name that the last modifier of a kind has taken. -/
def taken (s : Names) : Clause → Option String
  | unique => s.unique
  | references => s.references
  | _ => none

end Clause

/-- The readers answer on any tokens, leave the same of them for all drafts, and do `g` to the
names. -/
def Renames (g : Names → Names) (f : Draft → Reader Draft) : Prop :=
  ∀ ts, ∃ rest, ∀ d, ∃ d', (f d).run ts = (some d', rest) ∧ d'.names = g d.names

variable {α : Type} {g : Names → Names}

theorem renames_pure {f : Draft → Draft} (h : ∀ d, (f d).names = g d.names) :
    Renames g fun d => pure (f d) :=
  fun ts => ⟨ts, fun d => ⟨f d, rfl, h d⟩⟩

/-- What comes first must not depend on the draft. -/
theorem renames_bind {r : Reader α} {f : Draft → α → Reader Draft} (hr : Total r)
    (h : ∀ a, Renames g fun d => f d a) : Renames g fun d => r >>= f d := by
  intro ts
  obtain ⟨a, mid, hrun⟩ := hr.exists_run ts
  obtain ⟨rest, hrest⟩ := h a mid
  refine ⟨rest, fun d => ?_⟩
  rw [run_bind_of_some hrun]
  exact hrest d

theorem renames_ite {b : Bool} {f f' : Draft → Reader Draft} (h : Renames g f)
    (h' : Renames g f') : Renames g fun d => if b then f d else f' d := by
  cases b with
  | true => exact h
  | false => exact h'

theorem total_defaultReader : Total DefaultClause.reader := by
  refine (total_possibly DefaultClause.text).bind fun t => ?_
  cases t with
  | some t => exact total_pure _
  | none => exact total_pure _

theorem total_generationTime : Total generationTime := by
  refine (total_possibly _).bind fun always => ?_
  cases always with
  | some _ => exact total_pure ()
  | none =>
    refine (total_possibly _).bind fun byDefault => ?_
    cases byDefault with
    | some _ => exact (total_possibly _).bind fun _ => total_pure ()
    | none => exact total_pure ()

/-- Every modifier but `CONSTRAINT` does the same to the names whatever stands behind it. -/
theorem renames_modifier {c : Clause} (hc : c ≠ .constraint) (given : Option String) :
    Renames (c.rename given) fun d => modifier d c := by
  have hskip : ∀ {f : Draft → Reader Draft}, Renames (c.rename given) f →
      Renames (c.rename given) fun d => skipParenthesized >>= fun _ => f d :=
    fun h => renames_bind total_skipParenthesized fun _ => h
  cases c with
  | constraint => exact absurd rfl hc
  | not =>
    exact renames_bind total_advancePastBlanks fun _ => renames_bind (total_sees _) fun _ =>
      renames_ite (renames_bind total_advance fun _ => renames_pure fun _ => rfl)
        (renames_pure fun _ => rfl)
  | null => exact renames_bind total_advance fun _ => renames_pure fun _ => rfl
  | primary =>
    exact renames_bind total_advancePastBlanks fun _ => renames_bind (total_sees _) fun _ =>
      renames_ite
        (renames_bind total_advance fun _ => renames_bind (total_attempt _) fun _ =>
          renames_pure fun _ => rfl)
        (renames_pure fun _ => rfl)
  | unique =>
    exact renames_bind total_advancePastBlanks fun _ => renames_bind (total_sees _) fun _ =>
      renames_ite (renames_bind total_advance fun _ => renames_pure fun _ => rfl)
        (renames_pure fun _ => rfl)
  | default =>
    refine renames_bind total_advancePastBlanks fun _ => renames_bind total_defaultReader
      fun clause => renames_pure fun d => ?_
    cases clause <;> rfl
  | comment =>
    exact renames_bind total_advancePastBlanks fun _ => renames_bind (total_possibly _) fun _ =>
      renames_pure fun _ => rfl
  | counting => exact renames_bind total_advance fun _ => renames_pure fun _ => rfl
  | identity =>
    exact renames_bind total_advancePastBlanks fun _ => hskip (renames_pure fun _ => rfl)
  | generated =>
    refine renames_bind total_advancePastBlanks fun _ => renames_bind total_generationTime
      fun _ => renames_bind (total_possibly _) fun as => ?_
    cases as with
    | none => exact renames_pure fun _ => rfl
    | some _ =>
      exact renames_bind (total_sees _) fun _ =>
        renames_ite
          (renames_bind total_advancePastBlanks fun _ => hskip (renames_pure fun _ => rfl))
          (hskip (renames_pure fun _ => rfl))
  | references =>
    exact renames_bind total_advance fun _ => renames_bind (total_possibly _) fun _ =>
      renames_pure fun _ => rfl
  | check =>
    exact renames_bind total_advancePastBlanks fun _ => hskip (renames_pure fun _ => rfl)
  | named =>
    exact renames_bind total_advancePastBlanks fun _ =>
      renames_bind total_skipNameOrString fun _ => renames_pure fun _ => rfl
  | characterSet =>
    refine renames_bind total_advancePastBlanks fun _ => renames_bind (total_possibly _)
      fun set => ?_
    cases set with
    | none => exact renames_pure fun _ => rfl
    | some _ => exact renames_bind total_skipNameOrString fun _ => renames_pure fun _ => rfl
  | onUpdate =>
    refine renames_bind total_advancePastBlanks fun _ => renames_bind (total_possibly _)
      fun update => ?_
    cases update with
    | none => exact renames_pure fun _ => rfl
    | some _ =>
      exact renames_bind total_advancePastBlanks fun _ => hskip (renames_pure fun _ => rfl)
  | other =>
    exact renames_bind (total_sees _) fun _ =>
      renames_ite (hskip (renames_pure fun _ => rfl))
        (renames_bind total_advance fun _ => renames_pure fun _ => rfl)

/-- **A modifier takes the same tokens and does the same to the names whatever the definition
is.** -/
theorem exists_run_modifier (c : Clause) (ts : List Token) :
    ∃ rest, ∀ d, ∃ d', (modifier d c).run ts = (some d', rest) ∧
      d'.names = c.rename (Reader.name.run (ts.tail.dropWhile Token.isBlank)).1 d.names := by
  by_cases hc : c = .constraint
  · subst hc
    exact ⟨_, fun d => ⟨_, rfl, rfl⟩⟩
  · exact renames_modifier hc _ ts

/-! ## Cutting the modifiers into pieces -/

/-- The tokens of a modifier. -/
structure Piece where
  /-- The word that says which modifier it is. -/
  opening : Token
  more : List Token

namespace Piece

def tokens (p : Piece) : List Token :=
  p.opening :: p.more

theorem length_lt_tokens_append (p : Piece) (rest : List Token) :
    rest.length < (p.tokens ++ rest).length := by
  rw [tokens, List.cons_append, List.length_cons, List.length_append]
  omega

def clause (p : Piece) : Clause :=
  Clause.ofToken p.opening

/-- The name that stands behind the first word, if nothing else does. -/
def name? (p : Piece) : Option String :=
  match Reader.name.run (p.more.dropWhile Token.isBlank) with
  | (some n, []) => some n
  | _ => none

/-- The name that the word `CONSTRAINT` gives. -/
def given? (p : Piece) : Option String :=
  if p.clause = .constraint then p.name? else none

/-- What the piece makes of the names. -/
def rename (s : Names) (p : Piece) : Names :=
  p.clause.rename p.name? s

end Piece

/-- The tokens are cut into the pieces of modifiers: each of them is what its modifier takes, and
there are only blanks in front of it, and behind the last one. -/
inductive IsCut : List Token → List Piece → Prop
  | done {ts : List Token} (h : AllBlank ts) : IsCut ts []
  | piece {blanks rest : List Token} {p : Piece} {ps : List Piece} {d : Draft}
      (hblanks : AllBlank blanks) (hopening : p.opening.isBlank = false)
      (hread : ((modifier d p.clause).run (p.tokens ++ rest)).2 = rest) (h : IsCut rest ps) :
      IsCut (blanks ++ (p.tokens ++ rest)) (p :: ps)

theorem dropWhile_append_tokens {blanks : List Token} (hblanks : AllBlank blanks) {p : Piece}
    (hp : p.opening.isBlank = false) (rest : List Token) :
    (blanks ++ (p.tokens ++ rest)).dropWhile Token.isBlank = p.tokens ++ rest := by
  rw [List.dropWhile_append_of_pos hblanks]
  exact dropWhile_isBlank_cons hp _

/-- A draft to read modifiers with. -/
def blankDraft : Draft where
  definition := { name := "", dataType := "" }

/-- A piece begins with the first token that is not blank. -/
theorem IsCut.next {ts rest : List Token} {p : Piece} {ps : List Piece}
    (hdrop : ts.dropWhile Token.isBlank = p.tokens ++ rest)
    (hread : ((modifier blankDraft p.clause).run (p.tokens ++ rest)).2 = rest)
    (h : IsCut rest ps) : IsCut ts (p :: ps) := by
  have hopening : p.opening.isBlank = false := by
    simpa [hdrop, Piece.tokens] using List.head?_dropWhile_not Token.isBlank ts
  rw [← List.takeWhile_append_dropWhile (p := Token.isBlank) (l := ts), hdrop]
  exact .piece (fun t ht => List.mem_takeWhile_imp ht) hopening hread h

/-- The word that a modifier begins with is the first one that is not blank, and what it takes
does not depend on the draft. -/
theorem IsCut.cases_of {ts : List Token} {ps : List Piece} (h : IsCut ts ps) :
    (ps = [] ∧ ts.dropWhile Token.isBlank = []) ∨ ∃ p qs rest, ps = p :: qs ∧
      ts.dropWhile Token.isBlank = p.tokens ++ rest ∧ IsCut rest qs ∧
      ∀ d, ((modifier d p.clause).run (p.tokens ++ rest)).2 = rest := by
  cases h with
  | done h => exact Or.inl ⟨rfl, List.dropWhile_eq_nil_iff.2 h⟩
  | @piece blanks rest p ps d hblanks hopening hread h =>
    refine Or.inr ⟨p, ps, rest, rfl, dropWhile_append_tokens hblanks hopening rest, h, ?_⟩
    obtain ⟨rest', hrest⟩ := exists_run_modifier p.clause (p.tokens ++ rest)
    have hsame : ∀ d, ((modifier d p.clause).run (p.tokens ++ rest)).2 = rest' := by
      intro d
      obtain ⟨d', hrun, -⟩ := hrest d
      rw [hrun]
    intro d'
    rw [hsame, ← hsame d, hread]

/-- Any tokens can be cut. -/
theorem exists_isCut (ts : List Token) : ∃ ps, IsCut ts ps := by
  induction hn : ts.length using Nat.strongRecOn generalizing ts with
  | ind n ih =>
    cases hdrop : ts.dropWhile Token.isBlank with
    | nil => exact ⟨[], .done (List.dropWhile_eq_nil_iff.1 hdrop)⟩
    | cons t behind =>
      have hlt := length_modifier_lt blankDraft (Clause.ofToken t) t behind
      obtain ⟨taken, htaken⟩ :=
        (modifier blankDraft (Clause.ofToken t)).rest_suffix (t :: behind)
      generalize hread : ((modifier blankDraft (Clause.ofToken t)).run (t :: behind)).2 = rest
        at hlt htaken
      cases taken with
      | nil =>
        obtain rfl : rest = t :: behind := htaken
        exact absurd hlt (Nat.lt_irrefl _)
      | cons u more =>
        obtain ⟨rfl, rfl⟩ := List.cons.inj htaken
        have hle := length_dropWhile_le ts
        rw [hdrop] at hle
        obtain ⟨ps, hps⟩ := ih rest.length (by omega) rest rfl
        exact ⟨⟨u, more⟩ :: ps, .next (p := ⟨u, more⟩) hdrop hread hps⟩

/-- **There is just one way to cut them.** -/
theorem IsCut.eq {ts : List Token} {ps qs : List Piece} (h : IsCut ts ps) (h' : IsCut ts qs) :
    ps = qs := by
  induction hn : ts.length using Nat.strongRecOn generalizing ts ps qs with
  | ind n ih =>
    rcases h.cases_of with ⟨rfl, hnil⟩ | ⟨p, ps, rest, rfl, hdrop, hrest, hread⟩ <;>
      rcases h'.cases_of with ⟨rfl, hnil'⟩ | ⟨q, qs, rest', rfl, hdrop', hrest', hread'⟩
    · rfl
    · rw [hnil] at hdrop'
      cases hdrop'
    · rw [hnil'] at hdrop
      cases hdrop
    · have htokens : p.tokens ++ rest = q.tokens ++ rest' := hdrop.symm.trans hdrop'
      have hopening : p.opening = q.opening := (List.cons.inj htokens).1
      have hsame : rest = rest' := by
        rw [← hread blankDraft, ← hread' blankDraft, htokens, Piece.clause, Piece.clause, hopening]
      subst hsame
      obtain rfl : p = q := by
        have hmore := (List.cons.inj (List.append_cancel_right htokens)).2
        cases p
        cases q
        cases hopening
        cases hmore
        rfl
      have hlt : rest.length < ts.length :=
        length_lt_of_dropWhile hdrop (p.length_lt_tokens_append _)
      rw [ih _ (hn ▸ hlt) hrest hrest' rfl]

/-! ## The names of the pieces -/

/-- A name that stands in front of the tokens that are left is all that stands there. -/
theorem name?_of_run_name {p : Piece} {rest : List Token}
    (hread : (Reader.name.run ((p.more ++ rest).dropWhile Token.isBlank)).2 = rest) :
    (Reader.name.run ((p.more ++ rest).dropWhile Token.isBlank)).1 = p.name? := by
  rw [Piece.name?]
  rw [List.dropWhile_append] at hread ⊢
  split at hread
  · rename_i hblank
    rw [List.isEmpty_iff.1 hblank]
    cases hname : Reader.name.run (rest.dropWhile Token.isBlank) with
    | mk a left =>
      rw [hname] at hread
      cases a with
      | none => exact congrArg Prod.fst hname
      | some n =>
        have hlt := takes_name (p := fun _ => True) _ n (by rw [hname]) trivial
        have hle := length_dropWhile_le rest
        rw [hname] at hlt
        obtain rfl : left = rest := hread
        exact absurd hlt (Nat.not_lt.2 hle)
  · rename_i hblank
    rw [if_neg hblank]
    cases hname : Reader.name.run (p.more.dropWhile Token.isBlank ++ rest) with
    | mk a left =>
      rw [hname] at hread
      obtain rfl : left = rest := hread
      cases a with
      | none =>
        have hmore := List.append_left_eq_self.1 (run_name_of_none hname).symm
        exact absurd (List.isEmpty_iff.2 hmore) hblank
      | some n => rw [run_name_of_append hname]

/-- **The names are what the pieces make of them in turn.** -/
theorem IsCut.exists_run {ts : List Token} {ps : List Piece} (h : IsCut ts ps) (d : Draft) :
    ∃ d' : Draft, (loop modifierRound d).run ts = (some d'.definition, []) ∧
      d'.names = ps.foldl Piece.rename d.names := by
  induction ps generalizing ts d with
  | nil =>
    rcases h.cases_of with ⟨-, hnil⟩ | ⟨p, ps, rest, hps, -⟩
    · refine ⟨d, run_loop_inr ?_, rfl⟩
      rw [modifierRound, run_bind_of_some (run_skipBlanks ts), hnil]
      rfl
    · cases hps
  | cons p ps ih =>
    rcases h.cases_of with ⟨hps, -⟩ | ⟨q, qs, rest, hps, hdrop, hrest, hread⟩
    · cases hps
    · cases hps
      obtain ⟨rest', hrun⟩ := exists_run_modifier p.clause (p.tokens ++ rest)
      obtain ⟨d', hd', hnames⟩ := hrun d
      obtain rfl : rest' = rest := by
        rw [← hread d, hd']
      have hround : (modifierRound d).run ts = (some (.inl d'), rest') := by
        rw [modifierRound, run_bind_of_some (run_skipBlanks ts), hdrop,
          run_bind_of_some (run_peek _)]
        exact run_bind_of_some hd' _
      have hlt : rest'.length < ts.length :=
        length_lt_of_dropWhile hdrop (p.length_lt_tokens_append _)
      have hrename : d'.names = p.rename d.names := by
        rw [hnames, Piece.rename]
        by_cases hconstraint : p.clause = .constraint
        · have hname := hread d
          rw [hconstraint] at hname ⊢
          have hgiven : (Reader.name.run ((p.more ++ rest').dropWhile Token.isBlank)).1 = p.name? :=
            name?_of_run_name hname
          rw [← hgiven]
          rfl
        · cases hclause : p.clause <;> first | rfl | exact absurd hclause hconstraint
      obtain ⟨e, he, henames⟩ := ih hrest d'
      refine ⟨e, by rw [run_loop_inl hround hlt, he], ?_⟩
      rw [henames, hrename, List.foldl_cons]

/-- A name waits behind the pieces: a `CONSTRAINT` gives it, and what follows leaves it alone. -/
def Waits (ps : List Piece) (n : String) : Prop :=
  ∃ before c between, ps = before ++ c :: between ∧ c.given? = some n ∧
    ∀ p ∈ between, p.clause.keepsName = true

/-- The last modifier of a kind takes the name that waits in front of it. -/
def IsNamed (ps : List Piece) (kind : Clause) (n : String) : Prop :=
  ∃ before p behind, ps = before ++ p :: behind ∧ (p.clause = kind ∧ Waits before n) ∧
    ∀ q ∈ behind, q.clause ≠ kind

/-- The last modifier of a kind stands directly behind a `CONSTRAINT` that gives the name. -/
def IsIntroduced (ps : List Piece) (kind : Clause) (n : String) : Prop :=
  ∃ before c p behind, ps = before ++ c :: p :: behind ∧ c.given? = some n ∧ p.clause = kind ∧
    ∀ q ∈ behind, q.clause ≠ kind

theorem waiting_rename_iff {s : Names} {p : Piece} {n : String} :
    (p.rename s).waiting = some n ↔
      p.given? = some n ∨ (p.clause.keepsName = true ∧ s.waiting = some n) := by
  rw [Piece.rename, Piece.given?]
  cases p.clause <;> simp [Clause.rename, Clause.keepsName]

theorem taken_rename_iff {kind : Clause} (hkind : kind = .unique ∨ kind = .references)
    {s : Names} {p : Piece} {n : String} :
    kind.taken (p.rename s) = some n ↔ (p.clause = kind ∧ s.waiting = some n) ∨
      (p.clause ≠ kind ∧ kind.taken s = some n) := by
  rw [Piece.rename]
  rcases hkind with rfl | rfl <;> cases p.clause <;> simp [Clause.rename, Clause.taken]

theorem waiting_foldl_iff {ps : List Piece} {n : String} :
    (ps.foldl Piece.rename {}).waiting = some n ↔ Waits ps n := by
  induction ps using List.reverseRecOn with
  | nil => simp [Waits]
  | append_singleton ps p ih =>
    rw [List.foldl_concat, waiting_rename_iff, ih]
    exact (exists_last_concat_iff (p := fun _ (c : Piece) => c.given? = some n)
      (q := fun c => c.clause.keepsName = true)).symm

/-- **Each modifier that takes a name has the one that waits in front of it.** -/
theorem taken_foldl_iff {kind : Clause} (hkind : kind = .unique ∨ kind = .references)
    {ps : List Piece} {n : String} :
    kind.taken (ps.foldl Piece.rename {}) = some n ↔ IsNamed ps kind n := by
  induction ps using List.reverseRecOn with
  | nil => rcases hkind with rfl | rfl <;> simp [IsNamed, Clause.taken]
  | append_singleton ps p ih =>
    rw [List.foldl_concat, taken_rename_iff hkind, waiting_foldl_iff, ih]
    exact (exists_last_concat_iff (p := fun before p => p.clause = kind ∧ Waits before n)
      (q := fun p => p.clause ≠ kind)).symm

/-- Where a given name is not left alone by what follows it, it is given directly in front. -/
theorem isNamed_iff_isIntroduced {kind : Clause} {ps : List Piece}
    (h : ps.IsChain fun c p => c.given? ≠ none → p.clause.keepsName = false) {n : String} :
    IsNamed ps kind n ↔ IsIntroduced ps kind n := by
  constructor
  · rintro ⟨before, p, behind, rfl, ⟨hp, first, c, between, rfl, hc, hbetween⟩, hbehind⟩
    cases between with
    | nil => exact ⟨first, c, p, behind, by simp, hc, hp, hbehind⟩
    | cons q between =>
      have hkeeps := hbetween q List.mem_cons_self
      have hnext : q.clause.keepsName = false := by
        rw [List.append_assoc, List.cons_append, List.cons_append] at h
        exact (List.isChain_cons_cons.1 h.right_of_append).1 (by simp [hc])
      rw [hnext] at hkeeps
      cases hkeeps
  · rintro ⟨before, c, p, behind, rfl, hc, hp, hbehind⟩
    exact ⟨before ++ [c], p, behind, by simp, ⟨hp, before, c, [], rfl, hc, by simp⟩, hbehind⟩

/-! ## The names of a column -/

/-- A definition has no names before its modifiers are read. -/
theorem names_of_head {ts tail : List Token} {d : ColumnDefinition}
    (h : head.run ts = (some d, tail)) : Draft.names { definition := d } = {} := by
  have hanswers : Answers (fun d => Draft.names { definition := d } = {}) head := by
    refine answers_bind fun _ => answers_bind fun n => answers_bind fun _ =>
      answers_bind fun type => answers_bind fun _ => answers_bind fun opens => ?_
    cases opens with
    | false => exact answers_answer rfl
    | true =>
      refine answers_bind fun _ => ?_
      split
      · exact answers_bind fun _ => answers_pure rfl
      · exact answers_bind fun _ => answers_bind fun _ => answers_pure rfl
  exact hanswers ts d (by rw [h])

/-- The modifiers of the column that a text defines are cut into these pieces. -/
def IsCutOf (text : String) (ps : List Piece) : Prop :=
  ∃ ts d tail, Token.tokenize text.toList = some ts ∧ head.run ts = (some d, tail) ∧ IsCut tail ps

theorem IsCutOf.eq {text : String} {ps qs : List Piece} (h : IsCutOf text ps)
    (h' : IsCutOf text qs) : ps = qs := by
  obtain ⟨ts, d, tail, hts, hhead, hcut⟩ := h
  obtain ⟨ts', d', tail', hts', hhead', hcut'⟩ := h'
  cases hts.symm.trans hts'
  cases hhead.symm.trans hhead'
  exact hcut.eq hcut'

/-- **The names of a column come from the `CONSTRAINT`s in front of what takes them.** A unique
key or a reference has a name exactly if a `CONSTRAINT` gives it and all modifiers between the two
leave it alone. So it has the name of the `CONSTRAINT` directly in front of it and no other, where
no given name is left alone by the modifier behind it. -/
theorem ofText?_constraintNames {text : String} {d : ColumnDefinition}
    (h : ofText? text = some d) :
    ∃ ps, IsCutOf text ps ∧ (∀ qs, IsCutOf text qs → qs = ps) ∧
      (∀ n, d.uniqueName = some n ↔ IsNamed ps .unique n) ∧
      (∀ n, d.referencesName = some n ↔ IsNamed ps .references n) ∧
      ((ps.IsChain fun c p => c.given? ≠ none → p.clause.keepsName = false) →
        (∀ n, d.uniqueName = some n ↔ IsIntroduced ps .unique n) ∧
        ∀ n, d.referencesName = some n ↔ IsIntroduced ps .references n) := by
  obtain ⟨ts, hts, hread⟩ := Option.bind_eq_some_iff.1 h
  rw [ofTokens?, reader_eq] at hread
  obtain ⟨d₀, tail, hhead, hmodifiers⟩ := exists_of_run_bind (Prod.ext hread rfl)
  obtain ⟨ps, hps⟩ := exists_isCut tail
  obtain ⟨d', hrun, hnames⟩ := hps.exists_run { definition := d₀ }
  obtain rfl : d'.definition = d := by
    rw [modifiers, hrun] at hmodifiers
    exact Option.some.inj (Prod.mk.inj hmodifiers).1
  rw [names_of_head hhead] at hnames
  have hcut : IsCutOf text ps := ⟨ts, d₀, tail, hts, hhead, hps⟩
  have hunique : ∀ n, d'.definition.uniqueName = some n ↔ IsNamed ps .unique n := fun n => by
    rw [← taken_foldl_iff (Or.inl rfl), ← hnames]
    rfl
  have hreferences : ∀ n, d'.definition.referencesName = some n ↔ IsNamed ps .references n :=
    fun n => by
      rw [← taken_foldl_iff (Or.inr rfl), ← hnames]
      rfl
  exact ⟨ps, hcut, fun qs hqs => hqs.eq hcut, hunique, hreferences, fun hchain =>
    ⟨fun n => (hunique n).trans (isNamed_iff_isIntroduced hchain),
      fun n => (hreferences n).trans (isNamed_iff_isIntroduced hchain)⟩⟩

/-- The word `CONSTRAINT` and a name. -/
def constraintPiece (n : String) : Piece :=
  ⟨.word "CONSTRAINT", [.blank .space, .word n]⟩

/-- A check of nothing. -/
def checkPiece : Piece :=
  ⟨.word "CHECK", [.blank .space, .mark .openParen, .mark .closeParen]⟩

/-- A named unique key, and a check behind it: the column and its pieces. -/
theorem isCutOf_namedUnique :
    ofText? "a INT CONSTRAINT uq UNIQUE CHECK ()" = some
        { name := "a", dataType := "INT", unique := true, uniqueName := some "uq" } ∧
      IsCutOf "a INT CONSTRAINT uq UNIQUE CHECK ()"
        [constraintPiece "uq", ⟨.word "UNIQUE", [.blank .space]⟩, checkPiece] := by
  have hnil : IsCut [] [] := .done nofun
  have hcheck : IsCut checkPiece.tokens [checkPiece] :=
    hnil.next rfl rfl
  have hkey : IsCut (.blank .space :: .word "UNIQUE" :: .blank .space :: checkPiece.tokens)
      [⟨.word "UNIQUE", [.blank .space]⟩, checkPiece] :=
    hcheck.next rfl rfl
  have hall : IsCut ((constraintPiece "uq").tokens ++
      .blank .space :: .word "UNIQUE" :: .blank .space :: checkPiece.tokens)
        [constraintPiece "uq", ⟨.word "UNIQUE", [.blank .space]⟩, checkPiece] :=
    hkey.next rfl rfl
  exact ⟨by decide +kernel, .word "a" :: .blank .space :: .word "INT" :: .blank .space ::
    ((constraintPiece "uq").tokens ++
      .blank .space :: .word "UNIQUE" :: .blank .space :: checkPiece.tokens),
    { name := "a", dataType := "INT" }, _, by decide +kernel, rfl, hall⟩

/-- `NOT NULL` with a name, and a unique key without one: the column and its pieces. -/
theorem isCutOf_namedNotNull :
    ofText? "a INT CONSTRAINT nn NOT NULL UNIQUE" = some
        { name := "a", dataType := "INT", nullable := false, unique := true,
          uniqueName := some "nn" } ∧
      IsCutOf "a INT CONSTRAINT nn NOT NULL UNIQUE"
        [constraintPiece "nn", ⟨.word "NOT", [.blank .space, .word "NULL"]⟩,
          ⟨.word "UNIQUE", []⟩] := by
  have hnil : IsCut [] [] := .done nofun
  have hkey : IsCut [.blank .space, .word "UNIQUE"] [⟨.word "UNIQUE", []⟩] :=
    hnil.next rfl rfl
  have hnull : IsCut [.blank .space, .word "NOT", .blank .space, .word "NULL", .blank .space,
      .word "UNIQUE"] [⟨.word "NOT", [.blank .space, .word "NULL"]⟩, ⟨.word "UNIQUE", []⟩] :=
    hkey.next rfl rfl
  have hall : IsCut ((constraintPiece "nn").tokens ++ [.blank .space, .word "NOT", .blank .space,
      .word "NULL", .blank .space, .word "UNIQUE"])
        [constraintPiece "nn", ⟨.word "NOT", [.blank .space, .word "NULL"]⟩,
          ⟨.word "UNIQUE", []⟩] :=
    hnull.next rfl rfl
  exact ⟨by decide +kernel, .word "a" :: .blank .space :: .word "INT" :: .blank .space ::
    ((constraintPiece "nn").tokens ++ [.blank .space, .word "NOT", .blank .space,
      .word "NULL", .blank .space, .word "UNIQUE"]),
    { name := "a", dataType := "INT" }, _, by decide +kernel, rfl, hall⟩

theorem ofText?_constraintNames_namedUnique :
    ∃ d ps, ofText? "a INT CONSTRAINT uq UNIQUE CHECK ()" = some d ∧
      IsCutOf "a INT CONSTRAINT uq UNIQUE CHECK ()" ps ∧
      (ps.IsChain fun c p => c.given? ≠ none → p.clause.keepsName = false) ∧
      d.uniqueName = some "uq" ∧ IsIntroduced ps .unique "uq" := by
  obtain ⟨hread, hpieces⟩ := isCutOf_namedUnique
  obtain ⟨ps, hcut, -, -, -, hnames⟩ := ofText?_constraintNames hread
  obtain rfl := hcut.eq hpieces
  have hchain : [constraintPiece "uq", ⟨.word "UNIQUE", [.blank .space]⟩, checkPiece].IsChain
      fun c p => c.given? ≠ none → p.clause.keepsName = false := by
    decide
  exact ⟨_, _, hread, hcut, hchain, rfl, ((hnames hchain).1 "uq").1 rfl⟩

/-- **A name for `NOT NULL` goes to a unique key behind it.** -/
theorem not_isIntroduced_namedNotNull :
    ∃ d ps, ofText? "a INT CONSTRAINT nn NOT NULL UNIQUE" = some d ∧
      IsCutOf "a INT CONSTRAINT nn NOT NULL UNIQUE" ps ∧
      d.uniqueName = some "nn" ∧ ¬ IsIntroduced ps .unique "nn" := by
  obtain ⟨hread, hpieces⟩ := isCutOf_namedNotNull
  refine ⟨_, _, hread, hpieces, rfl, ?_⟩
  rintro ⟨before, c, p, behind, hps, hc, hp, -⟩
  have hchain : [constraintPiece "nn", ⟨.word "NOT", [.blank .space, .word "NULL"]⟩,
      ⟨.word "UNIQUE", []⟩].IsChain fun c p => p.clause = .unique → c.given? = none := by
    decide
  rw [hps] at hchain
  have hnone := (List.isChain_cons_cons.1 hchain.right_of_append).1 hp
  rw [hc] at hnone
  cases hnone

end ColumnDefinition
end SchemaScript
