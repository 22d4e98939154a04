import SchemaScript.Proofs.Definition.ColumnEnd
import SchemaScript.Proofs.Reader.Bounded
import SchemaScript.Proofs.Text.Case

/-!
# The name and the type of a column

A column definition begins with its head, the name and the type with its arguments, and the
modifiers are read behind it (`ColumnDefinition.reader_eq`).

The type looks for more: for the further words of a long name, for a time zone, and for a
parenthesis with arguments. No modifier begins with one of these, so a head that takes all of its
tokens takes the same ones in front of a modifier (`IsHead.run_append`). The parentheses must be
closed for that, because what stands in an open one reaches up to wherever it is closed.
-/

namespace SchemaScript
namespace ColumnDefinition

open Reader
open Token (AllBlank IsItem)

/-! ## What modifiers begin with -/

/-- The words that the modifiers of a column begin with. -/
def modifierWords : List String :=
  ["NOT", "NULL", "PRIMARY", "UNIQUE", "DEFAULT", "COMMENT", "AUTO_INCREMENT", "AUTOINCREMENT",
    "IDENTITY", "GENERATED", "REFERENCES"]

/-- Tokens that begin with the first word of a modifier, or no tokens. -/
def BeginsModifier (ts : List Token) : Prop :=
  ∀ t ∈ ts.head?, ∃ k ∈ modifierWords, t.isKeyword k = true

/-- The word of a modifier is a word. -/
theorem excludes_of_word {p : Token → Bool} (hblank : ∀ kind, p (.blank kind) = false)
    (hword : ∀ text, p (.word text) = false) : Excludes BeginsModifier p := by
  refine ⟨fun t ht => ?_, fun t us h => ?_⟩
  · cases t with
    | blank kind => exact hblank kind
    | _ => cases ht
  · obtain ⟨k, -, hk⟩ := h t rfl
    cases t with
    | word text => exact hword text
    | _ => cases hk

theorem excludes_isMark (m : Mark) : Excludes BeginsModifier (Token.isMark m) :=
  excludes_of_word (fun _ => rfl) fun _ => rfl

/-- A token is one keyword at most. -/
theorem isKeyword_eq_false_of_ne {t : Token} {k k' : String} (h : t.isKeyword k = true)
    (hne : k ≠ k') : t.isKeyword k' = false := by
  cases t with
  | word text =>
    have htext : Text.fullUpper text = k := by simpa [Token.isKeyword] using h
    rw [Token.isKeyword, htext]
    exact beq_eq_false_iff_ne.2 hne
  | _ => rfl

theorem excludes_isKeyword {k : String} (hk : k ∉ modifierWords) :
    Excludes BeginsModifier (Token.isKeyword k) := by
  refine ⟨fun t => isKeyword_of_isBlank t, fun t us h => ?_⟩
  obtain ⟨k', hmem, hk'⟩ := h t rfl
  exact isKeyword_eq_false_of_ne hk' (ne_of_mem_of_not_mem hmem hk)

/-- What is the same word in ASCII is the same keyword. -/
theorem isKeyword_of_isWord {t : Token} {w : String} (h : t.isWord w = true)
    (hw : ∀ c ∈ w.toList, c.toNat < 0x80) : t.isKeyword (Text.upper w) = true := by
  cases t with
  | word text =>
    simp only [Token.isKeyword, beq_iff_eq]
    exact Text.fullUpper_eq_upper h hw
  | _ => cases h

theorem excludes_isWord {w : String} (hw : ∀ c ∈ w.toList, c.toNat < 0x80)
    (hk : Text.upper w ∉ modifierWords) : Excludes BeginsModifier (Token.isWord w) := by
  refine ⟨fun t => isWord_of_isBlank t, fun t us h => ?_⟩
  by_contra hn
  have hkeyword := isKeyword_of_isWord (Bool.not_eq_false _ ▸ hn) hw
  rw [(excludes_isKeyword hk).2 t us h] at hkeyword
  cases hkeyword

/-- None of the words begins a modifier. -/
theorem excludes_any_isWord {ws : List String}
    (h : ∀ w ∈ ws, (∀ c ∈ w.toList, c.toNat < 0x80) ∧ Text.upper w ∉ modifierWords) :
    Excludes BeginsModifier fun t => ws.any t.isWord := by
  refine ⟨fun t ht => List.any_eq_false.2 fun w _ => by simp [isWord_of_isBlank t ht],
    fun t us hmore => List.any_eq_false.2 fun w hw => ?_⟩
  obtain ⟨hascii, hnot⟩ := h w hw
  simp [(excludes_isWord hascii hnot).2 t us hmore]

/-! ## The type -/

section
variable {ts : List Token}

theorem bounded_timeZone (ts : List Token) : Bounded BeginsModifier timeZone ts := by
  have hwith := excludes_isKeyword (k := "WITH") (by decide)
  have hwithout := excludes_isWord (w := "WITHOUT") (by decide) (by decide)
  have hzoned : Excludes BeginsModifier fun t =>
      (if t.isKeyword "WITH" then some true
      else if t.isWord "WITHOUT" then some false else none).isSome := by
    refine ⟨fun t ht => ?_, fun t us h => ?_⟩
    · simp [hwith.1 t ht, hwithout.1 t ht]
    · simp [hwith.2 t us h, hwithout.2 t us h]
  exact (bounded_token hzoned ts).bind fun _ _ _ => (bounded_skipBlanks _).bind fun _ _ _ =>
    (bounded_expect (excludes_isWord (by decide) (by decide)) _).bind fun _ _ _ =>
      (bounded_expect (excludes_isWord (by decide) (by decide)) _).bind fun _ _ _ =>
        bounded_pure _ _

theorem isItem_dropWhile (h : IsItem ts) : IsItem (ts.dropWhile Token.isBlank) := by
  have hblank : AllBlank (ts.takeWhile Token.isBlank) := fun t ht => List.mem_takeWhile_imp ht
  have hsplit := Token.depthAfter_append 0 (ts.takeWhile Token.isBlank)
    (ts.dropWhile Token.isBlank)
  rw [List.takeWhile_append_dropWhile, Token.depthAfter_of_allBlank hblank] at hsplit
  exact hsplit.symm.trans h

/-- A further word of a type is taken if it is there. -/
theorem bounded_expectedWord {w : String} (hw : Excludes BeginsModifier (Token.isWord w))
    (n : String) (ts : List Token) :
    Bounded BeginsModifier (do
      let .true ← seesWord w | fail
      advance
      return n) ts := by
  refine (bounded_sees hw ts).bind fun seen mid hmid => ?_
  cases seen with
  | false => exact bounded_fail _
  | true =>
    obtain ⟨t, us, -, rfl, -⟩ := exists_of_run_sees hmid
    exact (bounded_advance t us).bind fun _ _ _ => bounded_pure n _

theorem bounded_longTypeName (first : String) (h : IsItem ts) :
    Bounded BeginsModifier (longTypeName first) ts := by
  refine (bounded_skipBlanks ts).bind fun _ mid hmid => ?_
  obtain rfl : ts.dropWhile Token.isBlank = mid := (Prod.mk.inj hmid).2
  split
  · exact bounded_expectedWord (excludes_isWord (by decide) (by decide)) _ _
  split
  · exact bounded_expectedWord (excludes_isWord (by decide) (by decide)) _ _
  split
  · have hzone : ∀ us, Bounded BeginsModifier (timeZone >>= fun zoned =>
        (if (first == "TIME") = true then pure "TIME"
        else pure (if zoned = true then "TIMESTAMPTZ" else "TIMESTAMP") : Reader String)) us := by
      refine fun us => (bounded_timeZone us).bind fun zoned _ _ => ?_
      split
      · exact bounded_pure _ _
      · exact bounded_pure _ _
    refine (bounded_sees (excludes_isMark _) _).bind fun opens mid hmid => ?_
    obtain rfl : ts.dropWhile Token.isBlank = mid := (Prod.mk.inj hmid).2
    cases opens with
    | true =>
      exact (bounded_skipParenthesized
        (bounded_parenthesized_of_isItem (excludes_isMark _) (isItem_dropWhile h))).bind
          fun _ _ _ => (bounded_skipBlanks _).bind fun _ _ _ => hzone _
    | false => exact hzone _
  · exact bounded_fail _

/-- A type is bounded if its parentheses are closed. -/
theorem bounded_dataTypeName {type : String × Bool} {rest : List Token}
    (hrun : dataTypeName.run ts = (some type, rest)) (h : IsItem ts) :
    Bounded BeginsModifier dataTypeName ts := by
  cases ts with
  | nil => cases hrun
  | cons t ts =>
    have hts : IsItem ts := by
      cases t with
      | word text => exact h
      | _ => cases hrun
    refine (bounded_token_cons _ t ts).bind fun first mid hfirst => ?_
    obtain rfl := rest_of_run_token hfirst
    refine (bounded_longTypeName first hts).attempt.bind fun n _ _ => ?_
    cases n with
    | none => exact bounded_pure _ _
    | some n => exact bounded_pure _ _

/-! ## Its arguments -/

/-- A round that goes on, or answers, has found what it takes. -/
theorem bounded_valueRound {values : List String} {a : List String ⊕ List String}
    {rest : List Token} (h : (valueRound values).run ts = (some a, rest)) :
    Bounded BeginsModifier (valueRound values) ts := by
  intro more hmore
  rw [run_valueRound] at h ⊢
  rw [run_valueRound]
  cases hts : ts.dropWhile Token.isBlank with
  | nil =>
    rw [hts] at h
    cases h
  | cons t us =>
    rw [dropWhile_append_of_cons hts]
    obtain ⟨more', hmore', hrun⟩ := bounded_skipBlanks (q := BeginsModifier) us more hmore
    have hdrop : (us ++ more).dropWhile Token.isBlank = us.dropWhile Token.isBlank ++ more' :=
      congrArg Prod.snd hrun
    dsimp only
    cases t.stringValue? with
    | some v => exact ⟨more, Or.inl rfl, rfl⟩
    | none =>
      dsimp only
      split
      · exact ⟨more', hmore', by rw [hdrop]⟩
      · exact ⟨more, Or.inl rfl, rfl⟩

/-- What is passed over is bounded if the parenthesis is closed. -/
theorem bounded_argumentRest {rest : List Token}
    (h : (loop argumentRestRound ()).run ts = (some (), rest)) :
    Bounded BeginsModifier (loop argumentRestRound ()) ts := by
  intro more hmore
  rw [run_argumentRest] at h ⊢
  rw [run_argumentRest]
  cases hts : ts.dropWhile fun t => !t.isMark .closeParen with
  | nil =>
    rw [hts] at h
    cases h
  | cons t us =>
    rw [dropWhile_append_of_cons hts]
    obtain ⟨more', hmore', hrun⟩ := bounded_skipBlanks (q := BeginsModifier) us more hmore
    exact ⟨more', hmore', Prod.ext rfl (congrArg Prod.snd hrun)⟩

theorem bounded_sizes (ts : List Token) : Bounded BeginsModifier sizes ts := by
  have hsize : ∀ us, Bounded BeginsModifier size us :=
    bounded_token (excludes_of_word (fun _ => rfl) fun _ => rfl)
  refine (bounded_sees (excludes_isWord (by decide) (by decide)) ts).bind fun max mid hmid => ?_
  cases max with
  | true =>
    obtain ⟨t, us, -, rfl, -⟩ := exists_of_run_sees hmid
    exact (bounded_advancePastBlanks t us).bind fun _ _ _ => bounded_pure _ _
  | false =>
    refine (hsize mid).possibly.bind fun length _ _ => (bounded_skipBlanks _).bind fun _ _ _ =>
      (bounded_expect (excludes_isMark _) _).possibly.bind fun comma _ _ => ?_
    cases comma with
    | none => exact bounded_pure _ _
    | some _ =>
      exact (hsize _).possibly.bind fun _ _ _ => (bounded_skipBlanks _).bind fun _ _ _ =>
        bounded_pure _ _

/-- Arguments that are read to their end are bounded. -/
theorem bounded_arguments {d d' : ColumnDefinition} {rest : List Token}
    (h : (arguments d).run ts = (some d', rest)) : Bounded BeginsModifier (arguments d) ts := by
  refine Bounded.bind_of_some h (bounded_expect (excludes_isMark _) ts) fun _ mid _ h => ?_
  split
  · rename_i hvalues
    rw [if_pos hvalues] at h
    obtain ⟨values, us, hloop, -⟩ := exists_of_run_bind h
    exact (bounded_loop_of_some takes_valueRound (fun _ _ _ _ _ hround => bounded_valueRound hround)
      hloop).bind fun _ _ _ => bounded_pure _ _
  · rename_i hvalues
    rw [if_neg hvalues] at h
    refine Bounded.bind_of_some h (bounded_sizes mid) fun sizes us _ h => ?_
    obtain ⟨_, _, hloop, -⟩ := exists_of_run_bind h
    exact (bounded_argumentRest hloop).bind fun _ _ _ => bounded_pure _ _

end

/-! ## The head -/

/-- The type of a column with its arguments, behind the name. -/
def columnType (columnName : String) : Reader ColumnDefinition := do
  let (dataType, counting) ← dataTypeName
  skipBlanks
  let d : ColumnDefinition := { name := columnName, dataType, autoIncrement := counting }
  if ← seesMark .openParen then arguments d else answer d

/-- The name and the type of a column. -/
def head : Reader ColumnDefinition := do
  skipBlanks
  let columnName ← Reader.name
  skipBlanks
  columnType columnName

/-- The modifiers are read behind the name and the type. -/
theorem reader_eq : reader = head >>= modifiers := by
  have hite : ∀ (b : Bool) (r r' : Reader ColumnDefinition),
      (if b then r else r') >>= modifiers = if b then r >>= modifiers else r' >>= modifiers := by
    intro b r r'
    cases b <;> rfl
  simp only [head, columnType, bind_bind, hite]
  rfl

theorem bounded_columnType {n : String} {d : ColumnDefinition} {ts rest : List Token}
    (hrun : (columnType n).run ts = (some d, rest)) (h : IsItem ts) :
    Bounded BeginsModifier (columnType n) ts := by
  obtain ⟨type, mid, htype, -⟩ := exists_of_run_bind hrun
  refine Bounded.bind_of_some hrun (bounded_dataTypeName htype h) fun type mid _ hrun =>
    Bounded.bind_of_some hrun (bounded_skipBlanks mid) fun _ us _ hrun =>
      Bounded.bind_of_some hrun (bounded_sees (excludes_isMark _) us) fun opens vs _ hrun => ?_
  cases opens with
  | true => exact bounded_arguments hrun
  | false => exact bounded_answer _ _

/-- Tokens that are the name of a column and its type, with blanks in front of each of them, and
the definition of a column without modifiers. -/
inductive IsHead : List Token → ColumnDefinition → Prop
  | behind_blanks {bs ns bs' ts : List Token} {n : String} {d : ColumnDefinition}
      (blanks : AllBlank bs) (name : Reader.name.run ns = (some n, [])) (apart : AllBlank bs')
      (type : (columnType n).run ts = (some d, [])) (closed : IsItem ts) :
      IsHead (bs ++ (ns ++ (bs' ++ ts))) d

/-- **A head is read in front of a modifier as it is alone.** -/
theorem IsHead.run_append {hs more : List Token} {d : ColumnDefinition} (h : IsHead hs d)
    (hmore : BeginsModifier (more.dropWhile Token.isBlank)) :
    ∃ more', AllOrPastBlanks more more' ∧ head.run (hs ++ more) = (some d, more') := by
  obtain @⟨bs, ns, bs', ts, n, _, hbs, hname, hbs', htype, hitem⟩ := h
  obtain ⟨more', hmore', hrun⟩ := bounded_columnType htype hitem more hmore
  refine ⟨more', hmore', ?_⟩
  have hns : ∀ us, ∀ t ∈ (ns ++ us).head?, t.isBlank = false :=
    isBlank_head_of_run rfl (fun _ _ => rfl) hname
  have hts : ∀ t ∈ (ts ++ more).head?, t.isBlank = false :=
    isBlank_head_of_run rfl (fun _ _ => rfl) htype more
  have hskip : skipBlanks.run (bs ++ (ns ++ (bs' ++ ts)) ++ more) =
      (some (), ns ++ (bs' ++ ts) ++ more) := by
    rw [run_skipBlanks, List.append_assoc, List.append_assoc,
      dropWhile_isBlank_append hbs (hns _)]
  have hskip' : skipBlanks.run (bs' ++ ts ++ more) = (some (), ts ++ more) := by
    rw [run_skipBlanks, List.append_assoc, dropWhile_isBlank_append hbs' hts]
  rw [head, run_bind_of_some hskip, List.append_assoc, run_bind_of_some (run_name_append hname _),
    List.nil_append, run_bind_of_some hskip', hrun, htype]
  rfl

end ColumnDefinition
end SchemaScript
