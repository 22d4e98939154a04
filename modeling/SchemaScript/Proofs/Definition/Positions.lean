import SchemaScript.Definition.Column
import SchemaScript.Proofs.Definition.ExistenceGuard
import SchemaScript.Proofs.Reader.QualifiedNames

/-!
# Positions of readers

A reader takes tokens off a list. Seen from a list that is kept as it is, it moves a position in
that list: it starts behind the tokens in front of the position, and what it leaves are the tokens
behind another position (`Reader.drop_snd_runAt`). This module collects what can be relied on
where readers are tried one after the other from a position (`Reader.KeepsPlace`).

No operation leaves the list, and none but a jump goes back. An operation that reads one thing and
does not find it stays where it is; that is so for single tokens at once, and for names because a
bracket that is not closed, and a period that no name follows, are given back. Two operations are
described by the tokens that they pass over: a qualified name ends in a name, and the guard in
front of a definition is passed over as a whole or not at all.
-/

namespace SchemaScript
namespace Reader

open Token TableDefinition

variable {α : Type} {ts us rest : List Token} {pos : ℕ}

/-! ## Readers at a position -/

/-- The answer of a reader that starts at a position, and the position behind it. -/
def runAt (r : Reader α) (ts : List Token) (pos : ℕ) : Option α × ℕ :=
  ((r.run (ts.drop pos)).1, ts.length - (r.run (ts.drop pos)).2.length)

/-- The tokens from one position to another. -/
def between (ts : List Token) (pos pos' : ℕ) : List Token :=
  (ts.drop pos).take (pos' - pos)

theorem rest_suffix_drop (r : Reader α) (ts : List Token) (pos : ℕ) :
    (r.run (ts.drop pos)).2 <:+ ts :=
  (r.rest_suffix _).trans (List.drop_suffix pos ts)

/-- **What a reader leaves are the tokens behind its position.** -/
theorem drop_snd_runAt (r : Reader α) (ts : List Token) (pos : ℕ) :
    ts.drop (r.runAt ts pos).2 = (r.run (ts.drop pos)).2 :=
  (List.suffix_iff_eq_drop.1 (rest_suffix_drop r ts pos)).symm

theorem snd_runAt_le (r : Reader α) (ts : List Token) (pos : ℕ) :
    (r.runAt ts pos).2 ≤ ts.length :=
  Nat.sub_le _ _

theorem le_snd_runAt (r : Reader α) (hpos : pos ≤ ts.length) : pos ≤ (r.runAt ts pos).2 := by
  have hle := r.length_rest_le (ts.drop pos)
  rw [List.length_drop] at hle
  show pos ≤ ts.length - _
  omega

/-- What a reader has taken stands between its positions. -/
theorem between_runAt (r : Reader α) (hpos : pos ≤ ts.length)
    (h : ts.drop pos = us ++ (r.run (ts.drop pos)).2) :
    between ts pos (r.runAt ts pos).2 = us := by
  have hlength := congrArg List.length h
  rw [List.length_drop, List.length_append] at hlength
  have htaken : (r.runAt ts pos).2 - pos = us.length := by
    show ts.length - _ - pos = _
    omega
  rw [between, htaken, h, List.take_left]

/-! ## Readers that stay where they are -/

/-- Whether a reader leaves the tokens as they are when it does not answer. -/
def Backtracks (r : Reader α) : Prop :=
  ∀ ts, (r.run ts).1 = none → (r.run ts).2 = ts

theorem Backtracks.snd_runAt {r : Reader α} (hr : Backtracks r) (hpos : pos ≤ ts.length)
    (h : (r.runAt ts pos).1 = none) : (r.runAt ts pos).2 = pos := by
  have hrest := congrArg List.length (hr _ h)
  rw [List.length_drop] at hrest
  show ts.length - _ = pos
  omega

theorem backtracks_token (f : Token → Option α) : Backtracks (token f) := by
  intro ts h
  cases ts with
  | nil => rfl
  | cons t ts =>
    cases hf : f t with
    | none => rw [run_token_of_none hf]
    | some a =>
      rw [run_token_of_some hf] at h
      cases h

theorem backtracks_expect (p : Token → Bool) : Backtracks (expect p) := by
  intro ts h
  cases ts with
  | nil => rfl
  | cons t ts =>
    cases hp : p t with
    | false => rw [run_expect_of_neg hp]
    | true =>
      rw [run_expect_of_pos hp] at h
      cases h

theorem backtracks_name : Backtracks name :=
  fun _ h => run_name_of_none (Prod.ext h rfl)

theorem backtracks_qualifiedName : Backtracks qualifiedName :=
  fun _ h => run_qualifiedName_of_none (Prod.ext h rfl)

/-! ## Operations -/

/-- The reader without its answer. -/
def forget (r : Reader α) : Reader Unit :=
  r >>= fun _ => answer ()

/-- Takes the tokens up to the end of an item of a body. -/
def skipItem : Reader Unit where
  run ts := (some (), (itemRun 0 ts).2)
  rest_suffix ts := ⟨_, itemRun_append 0 ts⟩

/-- What the readers of this library are put together from. -/
inductive Operation where
  | atEnd
  | peek
  | peekSecond
  | sees (p : Token → Bool)
  | advance
  | skipBlanks
  | keyword (k : String)
  | word (w : String)
  | expect (p : Token → Bool)
  | name
  | qualifiedName
  | nameList
  | size
  | stringLiteral
  | skipParenthesized
  | skipItem

namespace Operation

/-- What the operation does with the tokens. -/
def reader : Operation → Reader Unit
  | atEnd => forget Reader.atEnd
  | peek => forget Reader.peek
  | peekSecond => forget Reader.peekSecond
  | sees p => forget (Reader.sees p)
  | advance => Reader.advance
  | skipBlanks => Reader.skipBlanks
  | keyword k => Reader.keyword k
  | word w => Reader.word w
  | expect p => Reader.expect p
  | name => forget Reader.name
  | qualifiedName => forget Reader.qualifiedName
  | nameList => forget Reader.nameList
  | size => forget ColumnDefinition.size
  | stringLiteral => forget Reader.stringLiteral
  | skipParenthesized => Reader.skipParenthesized
  | skipItem => Reader.skipItem

/-- Whether the operation asks for one thing, which may not be there. -/
def asks : Operation → Bool
  | keyword _ | word _ | expect _ | name | qualifiedName | size | stringLiteral => true
  | _ => false

end Operation

/-- What can be done with a position. -/
inductive Move where
  /-- Goes to a position, and to the end if there is none. -/
  | jump (n : ℕ)
  | operate (op : Operation)

/-- The position behind a move. -/
def Move.position (ts : List Token) (pos : ℕ) : Move → ℕ
  | jump n => min n ts.length
  | operate op => (op.reader.runAt ts pos).2

/-- The position behind a run of moves. -/
def positionAfter (ts : List Token) (pos : ℕ) (moves : List Move) : ℕ :=
  moves.foldl (Move.position ts) pos

theorem Backtracks.forget {r : Reader α} (hr : Backtracks r) : Backtracks (forget r) := by
  intro ts h
  cases hrun : r.run ts with
  | mk a rest =>
    cases a with
    | none =>
      have hrest := hr ts (congrArg Prod.fst hrun)
      rw [hrun] at hrest
      rw [Reader.forget, run_bind_of_none hrun, ← hrest]
    | some a =>
      rw [Reader.forget, run_bind_of_some hrun] at h
      cases h

/-- **What asks for one thing gives back what it took when that is not there.** -/
theorem Operation.backtracks {op : Operation} (h : op.asks = true) : Backtracks op.reader := by
  cases op with
  | keyword | word | expect => exact backtracks_expect _
  | name => exact backtracks_name.forget
  | qualifiedName => exact backtracks_qualifiedName.forget
  | size | stringLiteral => exact (backtracks_token _).forget
  | _ => cases h

theorem Move.position_le (m : Move) (ts : List Token) (pos : ℕ) :
    m.position ts pos ≤ ts.length := by
  cases m with
  | jump n => exact Nat.min_le_right _ _
  | operate op => exact snd_runAt_le _ _ _

/-- No run of moves leaves the tokens. -/
theorem positionAfter_le (hpos : pos ≤ ts.length) (moves : List Move) :
    positionAfter ts pos moves ≤ ts.length := by
  induction moves generalizing pos with
  | nil => exact hpos
  | cons m moves ih => exact ih (m.position_le ts pos)

/-- No run of operations goes back. -/
theorem le_positionAfter (hpos : pos ≤ ts.length) (ops : List Operation) :
    pos ≤ positionAfter ts pos (ops.map .operate) := by
  induction ops generalizing pos with
  | nil => exact Nat.le_refl pos
  | cons op ops ih => exact (le_snd_runAt _ hpos).trans (ih (snd_runAt_le _ _ _))

/-! ## The laws of positions -/

/-- What can be relied on at a position. -/
structure KeepsPlace (ts : List Token) (pos : ℕ) : Prop where
  /-- Reading goes on with the tokens behind the new position. -/
  goesOn : ∀ op : Operation,
    (op.reader.run (ts.drop pos)).2 = ts.drop (op.reader.runAt ts pos).2
  inside : ∀ moves, positionAfter ts pos moves ≤ ts.length
  forward : ∀ ops : List Operation, pos ≤ positionAfter ts pos (ops.map .operate)
  stays : ∀ op : Operation, op.asks = true → (op.reader.runAt ts pos).1 = none →
    (op.reader.runAt ts pos).2 = pos
  /-- A qualified name ends in a name, and no further part stands behind it. -/
  name : ∀ n pos', qualifiedName.runAt ts pos = (some n, pos') →
    IsQualifiedName (between ts pos pos') n ∧ ∀ us m, IsPart us m → ¬ us <+: ts.drop pos'
  /-- A guard is passed over as a whole, or else there is none. -/
  guard : ∀ pos', (skipExistenceGuard.runAt ts pos).2 = pos' →
    IsGuard (between ts pos pos') ∨ pos' = pos ∧ ∀ us, IsGuard us → ¬ us <+: ts.drop pos

theorem isQualifiedName_between (hpos : pos ≤ ts.length) {n : String} {pos' : ℕ}
    (h : qualifiedName.runAt ts pos = (some n, pos')) :
    IsQualifiedName (between ts pos pos') n ∧ ∀ us m, IsPart us m → ¬ us <+: ts.drop pos' := by
  have hanswer : (qualifiedName.run (ts.drop pos)).1 = some n := congrArg Prod.fst h
  obtain rfl : (qualifiedName.runAt ts pos).2 = pos' := congrArg Prod.snd h
  obtain ⟨us, hus, hname, hend⟩ := exists_isQualifiedName_append (Prod.ext hanswer rfl)
  rw [drop_snd_runAt]
  rw [← between_runAt _ hpos hus] at hname
  exact ⟨hname, hend⟩

theorem isGuard_between (hpos : pos ≤ ts.length) {pos' : ℕ}
    (h : (skipExistenceGuard.runAt ts pos).2 = pos') :
    IsGuard (between ts pos pos') ∨ pos' = pos ∧ ∀ us, IsGuard us → ¬ us <+: ts.drop pos := by
  subst h
  obtain ⟨rest, hrun, hcases⟩ := run_skipExistenceGuard_cases (ts.drop pos)
  have hrest : (skipExistenceGuard.run (ts.drop pos)).2 = rest := congrArg Prod.snd hrun
  refine hcases.imp ?_ (And.imp_left fun hsame => ?_)
  · rintro ⟨us, hus, hguard⟩
    rw [← hrest] at hus
    rwa [between_runAt _ hpos hus]
  · have hlength := congrArg List.length (hrest.trans hsame)
    rw [List.length_drop] at hlength
    show ts.length - _ = pos
    omega

/-- **Readers keep their place.** At every position in every list of tokens the laws of positions
hold. -/
theorem keepsPlace (ts : List Token) {pos : ℕ} (hpos : pos ≤ ts.length) : KeepsPlace ts pos where
  goesOn op := (drop_snd_runAt op.reader ts pos).symm
  inside := positionAfter_le hpos
  forward := le_positionAfter hpos
  stays _ hasks := (Operation.backtracks hasks).snd_runAt hpos
  name _ _ := isQualifiedName_between hpos
  guard _ := isGuard_between hpos

/-- A qualified name with a period too many, behind another token: the last period is left. -/
theorem keepsPlace_trailingPeriod :
    let ts : List Token := [.word "TABLE", .word "a", .mark .period, .blank .space, .word "b",
      .mark .period, .mark .openParen]
    1 ≤ ts.length ∧ KeepsPlace ts 1 ∧ qualifiedName.runAt ts 1 = (some "b", 5) :=
  ⟨by decide, keepsPlace _ (by decide), by decide +kernel⟩

end Reader
end SchemaScript
