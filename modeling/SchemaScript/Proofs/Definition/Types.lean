import Mathlib.Data.List.DropRight
import SchemaScript.Proofs.Definition.Body
import SchemaScript.Proofs.Definition.ModifierOrder
import SchemaScript.Proofs.Text.Blanks
import SchemaScript.Proofs.Token.Spaced

/-!
# Types as they are written

A written type is words with or without arguments: a length, a length with a scale, or the
literals of a value set. The arguments are read as the numbers and literals that they were made
of, and the words as the name of a type unless they go on.

`WritesType` says of the tokens of a type all that a column needs to know of them: they are read
back from their print, their parentheses are closed, and behind the name of a column they are
read as a definition without modifiers. Whether a text is such a type is decided for a single one
by running the reader (`writesType_of_run`).
-/

namespace SchemaScript
namespace ColumnDefinition

open Reader

/-- The arguments of a type as they are written. -/
inductive TypeArguments where
  | absent
  | length (n : UInt32)
  | lengthScale (n scale : UInt32)
  | values (vs : List String)

namespace TypeArguments

/-- Whether the arguments are the literals of a value set. -/
def isValues : TypeArguments → Bool
  | values _ => true
  | absent | length _ | lengthScale _ _ => false

/-- The text of the arguments. -/
def text : TypeArguments → String
  | absent => ""
  | length n => "(" ++ toString n.toNat ++ ")"
  | lengthScale n scale => "(" ++ (toString n.toNat ++ ", " ++ toString scale.toNat) ++ ")"
  | values vs => "(" ++ ",".intercalate (vs.map (Text.enclose '\'')) ++ ")"

/-- The tokens of literals with commas between them. -/
def literalTokens : List String → List Token
  | [] => []
  | [v] => [.literal .plain v]
  | v :: w :: vs => .literal .plain v :: .mark .comma :: literalTokens (w :: vs)

/-- The tokens of the arguments. -/
def tokens : TypeArguments → List Token
  | absent => []
  | length n => [.mark .openParen, Token.digitsToken n.toNat, .mark .closeParen]
  | lengthScale n scale =>
    [.mark .openParen, Token.digitsToken n.toNat, .mark .comma, .blank .space,
      Token.digitsToken scale.toNat, .mark .closeParen]
  | values vs => .mark .openParen :: (literalTokens vs ++ [.mark .closeParen])

/-- The length that the arguments give. -/
def length? : TypeArguments → Option UInt32
  | length n | lengthScale n _ => some n
  | absent | values _ => none

/-- The scale that the arguments give. -/
def scale? : TypeArguments → Option UInt32
  | lengthScale _ scale => some scale
  | absent | length _ | values _ => none

/-- The literals that the arguments give. -/
def literals : TypeArguments → List String
  | values vs => vs
  | absent | length _ | lengthScale _ _ => []

/-- The definition of a column that has a name and a type only. -/
def definition (n type : String) (a : TypeArguments) : ColumnDefinition where
  name := n
  dataType := type
  length := a.length?
  scale := a.scale?
  values := a.literals

/-! ## Text and tokens -/

theorem printAll_literalTokens (vs : List String) :
    Token.printAll (literalTokens vs) =
      (",".intercalate (vs.map (Text.enclose '\''))).toList := by
  induction vs with
  | nil => rfl
  | cons v vs ih =>
    cases vs with
    | nil => simp [literalTokens]
    | cons w vs =>
      rw [literalTokens, Token.printAll_cons, Token.printAll_cons, ih]
      simp

/-- The text of the arguments is the print of their tokens. -/
theorem printAll_tokens (a : TypeArguments) : Token.printAll a.tokens = a.text.toList := by
  cases a with
  | absent => rfl
  | length n => simp [tokens, text, Token.digitsToken]
  | lengthScale n scale => simp [tokens, text, Token.digitsToken]
  | values vs => simp [tokens, text, printAll_literalTokens]

theorem spaced_literalTokens (vs : List String) : Token.Spaced (literalTokens vs) := by
  induction vs with
  | nil => exact Token.spaced_nil
  | cons v vs ih =>
    cases vs with
    | nil => exact Token.spaced_atom (Token.isAtom_plain v)
    | cons w vs =>
      exact (ih.cons rfl).cons_atom (Token.isAtom_plain v) (by simp [Token.isSeparator])

/-- The tokens of the arguments are atoms with separators between them. -/
theorem spaced_tokens (a : TypeArguments) : Token.Spaced a.tokens := by
  have hnumber : ∀ {n : Nat} {ts : List Token}, Token.Spaced ts →
      (∀ u ∈ ts.head?, u.isSeparator = true) → Token.Spaced (Token.digitsToken n :: ts) :=
    fun hts hsep => hts.cons_atom (Token.isAtom_number (Token.readsBack_digitsToken _)) hsep
  have hclose : Token.Spaced [.mark .closeParen] := Token.spaced_nil.cons rfl
  have hlast : ∀ n : Nat, Token.Spaced [Token.digitsToken n, .mark .closeParen] := fun n =>
    hnumber hclose (by simp [Token.isSeparator])
  cases a with
  | absent => exact Token.spaced_nil
  | length n => exact (hlast n.toNat).cons rfl
  | lengthScale n scale =>
    exact (hnumber (((hlast scale.toNat).cons rfl).cons rfl) (by simp [Token.isSeparator])).cons
      rfl
  | values vs =>
    exact ((spaced_literalTokens vs).between rfl Token.spaced_nil).cons rfl

theorem isFlat_literalTokens (vs : List String) : Token.IsFlat (literalTokens vs) := by
  induction vs with
  | nil => exact fun _ ht => absurd ht List.not_mem_nil
  | cons v vs ih =>
    cases vs with
    | nil =>
      intro t ht
      rw [List.mem_singleton.1 ht]
      exact ⟨rfl, rfl⟩
    | cons w vs =>
      intro t ht
      rw [literalTokens] at ht
      rcases List.mem_cons.1 ht with rfl | ht
      · exact ⟨rfl, rfl⟩
      rcases List.mem_cons.1 ht with rfl | ht
      · exact ⟨rfl, rfl⟩
      · exact ih t ht

/-- The parentheses of the arguments are closed. -/
theorem isItem_tokens (a : TypeArguments) : Token.IsItem a.tokens := by
  cases a with
  | values vs => exact Token.IsItem.group (isFlat_literalTokens vs) rfl
  | _ => rfl

/-! ## Reading arguments -/

/-- The rounds of a list of literals, up to its closing parenthesis. -/
theorem run_literalTokens (vs acc : List String) (ts : List Token) :
    (loop valueRound acc).run (literalTokens vs ++ .mark .closeParen :: ts) =
      (some (acc ++ vs), ts.dropWhile Token.isBlank) := by
  have hliteral : ∀ (acc : List String) (v : String) (us : List Token),
      (loop valueRound acc).run (.literal .plain v :: us) =
        (loop valueRound (acc ++ [v])).run us := by
    intro acc v us
    refine run_loop_inl ?_ (Nat.lt_succ_self _)
    rw [run_valueRound]
    rfl
  induction vs generalizing acc with
  | nil =>
    rw [List.append_nil]
    refine run_loop_inr ?_
    rw [literalTokens, List.nil_append, run_valueRound]
    rfl
  | cons v vs ih =>
    cases vs with
    | nil =>
      rw [literalTokens, List.singleton_append, hliteral]
      refine run_loop_inr ?_
      rw [run_valueRound]
      rfl
    | cons w vs =>
      have hcomma : (loop valueRound (acc ++ [v])).run
          (.mark .comma :: (literalTokens (w :: vs) ++ .mark .closeParen :: ts)) =
            (loop valueRound (acc ++ [v])).run
              (literalTokens (w :: vs) ++ .mark .closeParen :: ts) := by
        refine run_loop_inl ?_ (Nat.lt_succ_self _)
        rw [run_valueRound]
        rfl
      rw [literalTokens, List.cons_append, List.cons_append, hliteral, hcomma, ih]
      simp

/-- A size is read as it is written. -/
theorem run_size (n : UInt32) (ts : List Token) :
    (possibly size).run (Token.digitsToken n.toNat :: ts) = (some (some n), ts) := by
  refine run_possibly_of_eq (run_token_of_some ?_ ts)
  show Number.word32? (String.ofList (Nat.toDigits 10 n.toNat)).toList = some n
  rw [String.toList_ofList, Number.word32?_toDigits]

/-- **The arguments of a type are read as they are written.** -/
theorem run_arguments (n : String) {type : String} {a : TypeArguments} (ha : a.tokens ≠ [])
    (hset : DataType.isValueSet type = a.isValues) (ts : List Token) :
    (arguments { name := n, dataType := type }).run (a.tokens ++ ts) =
      (some (a.definition n type), ts.dropWhile Token.isBlank) := by
  have hrest : ∀ us, (loop argumentRestRound ()).run (.mark .closeParen :: us) =
      (some (), us.dropWhile Token.isBlank) := by
    intro us
    rw [run_argumentRest]
    rfl
  have hmax : ∀ n us, (seesWord "MAX").run (Token.digitsToken n :: us) =
      (some false, Token.digitsToken n :: us) := fun n us => rfl
  have hnumbers : ∀ {t : Token} {us : List Token} {length scale : Option UInt32},
      a.isValues = false →
        sizes.run (t :: us) = (some (length, scale), .mark .closeParen :: ts) →
          t.isBlank = false →
            (arguments { name := n, dataType := type }).run (.mark .openParen :: t :: us) =
              (some { name := n, dataType := type, length := length, scale := scale },
                ts.dropWhile Token.isBlank) := by
    intro t us length scale hvalues hsizes ht
    rw [arguments, run_bind_of_some (run_mark_of_pos rfl _), dropWhile_isBlank_cons ht,
      if_neg (by rw [hset, hvalues]; exact Bool.false_ne_true), run_bind_of_some hsizes]
    exact run_bind_of_some (hrest ts) _
  cases a with
  | absent => exact absurd rfl ha
  | length size =>
    have hsizes : sizes.run (Token.digitsToken size.toNat :: .mark .closeParen :: ts) =
        (some (some size, none), .mark .closeParen :: ts) := by
      rw [sizes, run_bind_of_some (hmax _ _), if_neg Bool.false_ne_true,
        run_bind_of_some (run_size size _)]
      rfl
    exact hnumbers rfl hsizes rfl
  | lengthScale size scale =>
    have hcomma : ∀ us, (possibly (mark .comma)).run (.mark .comma :: .blank .space :: us) =
        (some (some ()), us.dropWhile Token.isBlank) := fun us =>
      run_possibly_of_eq (run_mark_of_pos rfl _)
    have hsizes : sizes.run (Token.digitsToken size.toNat :: .mark .comma :: .blank .space ::
        Token.digitsToken scale.toNat :: .mark .closeParen :: ts) =
          (some (some size, some scale), .mark .closeParen :: ts) := by
      rw [sizes, run_bind_of_some (hmax _ _), if_neg Bool.false_ne_true,
        run_bind_of_some (run_size size _), run_bind_of_some (run_skipBlanks _),
        dropWhile_isBlank_cons rfl, run_bind_of_some (hcomma _), dropWhile_isBlank_cons rfl]
      show Reader.run (do
        let scale ← possibly ColumnDefinition.size
        skipBlanks
        return (some size, scale)) _ = _
      rw [run_bind_of_some (run_size scale _)]
      rfl
    exact hnumbers rfl hsizes rfl
  | values vs =>
    have htrue : DataType.isValueSet type = true := hset
    have hdrop : (literalTokens vs ++ Token.mark .closeParen :: ts).dropWhile Token.isBlank =
        literalTokens vs ++ Token.mark .closeParen :: ts := by
      cases vs with
      | nil => rfl
      | cons v vs => cases vs <;> rfl
    have htokens : (values vs).tokens ++ ts =
        .mark .openParen :: (literalTokens vs ++ .mark .closeParen :: ts) := by
      simp [tokens]
    rw [htokens, arguments, run_bind_of_some (run_mark_of_pos rfl _), hdrop, if_pos htrue,
      run_bind_of_some (run_literalTokens vs [] ts)]
    rfl

end TypeArguments

/-! ## Reading the name of a type -/

/-- No type of several words begins where none of its further words stands. -/
theorem run_longTypeName {first : String} {ts : List Token}
    (h : ∀ t ∈ (ts.dropWhile Token.isBlank).head?,
      ["VARYING", "PRECISION", "WITHOUT"].any t.isWord = false ∧ t.isKeyword "WITH" = false ∧
        (t.isMark .openParen = true → (first == "TIMESTAMP" || first == "TIME") = false)) :
    ((longTypeName first).run ts).1 = none := by
  rw [longTypeName, run_bind_of_some (run_skipBlanks ts)]
  generalize ts.dropWhile Token.isBlank = us at h
  cases us with
  | nil =>
    split
    · rfl
    split
    · rfl
    split
    · rfl
    · rfl
  | cons u us =>
    obtain ⟨hwords, hwith, hopen⟩ := h u rfl
    simp only [List.any_cons, List.any_nil, Bool.or_false, Bool.or_eq_false_iff] at hwords
    obtain ⟨hvarying, hprecision, hwithout⟩ := hwords
    have hzone : timeZone.run (u :: us) = (none, u :: us) := by
      rw [timeZone, run_bind_of_none (run_token_of_none ?_ us)]
      rw [hwith, hwithout]
      rfl
    split
    · rw [run_bind_of_some (run_seesWord _ _ _), hvarying]
      rfl
    split
    · rw [run_bind_of_some (run_seesWord _ _ _), hprecision]
      rfl
    split
    · rename_i htime
      have hsees : (seesMark .openParen).run (u :: us) = (some false, u :: us) := by
        have hmark : u.isMark .openParen = false := by
          by_contra hx
          rw [hopen (Bool.of_not_eq_false hx)] at htime
          cases htime
        rw [run_seesMark, hmark]
      rw [run_bind_of_some hsees, if_neg Bool.false_ne_true, run_bind_of_none hzone]
    · rfl

/-- A word that names a type is read as its canonical name, where no further words of a type
stand behind it. -/
theorem run_dataTypeName_of_isTypeWord {w : String} (hw : isTypeWord (.word w) = true)
    {ts : List Token}
    (h : ∀ t ∈ (ts.dropWhile Token.isBlank).head?,
      ["VARYING", "PRECISION", "WITHOUT"].any t.isWord = false ∧ t.isKeyword "WITH" = false ∧
        (t.isMark .openParen = true →
          (Text.upper w == "TIMESTAMP" || Text.upper w == "TIME") = false)) :
    dataTypeName.run (.word w :: ts) = (some (DataType.canonical (Text.upper w)), ts) := by
  have hword : typeWord.run (.word w :: ts) = (some (Text.upper w), ts) := by
    refine run_token_of_some ?_ ts
    rw [if_pos hw]
    rfl
  rw [dataTypeName, run_bind_of_some hword,
    run_bind_of_some (run_attempt_of_none (run_longTypeName h))]
  rfl

/-! ## Types behind the name of a column -/

/-- The name of a column has no part in the reading of its type. -/
theorem run_arguments_name (d : ColumnDefinition) (n : String) (ts : List Token) :
    (arguments { d with name := n }).run ts =
      (((arguments d).run ts).1.map fun p => { p with name := n }, ((arguments d).run ts).2) := by
  unfold arguments
  rw [run_bind, run_bind]
  cases (mark .openParen).run ts with
  | mk opened us =>
    cases opened with
    | none => rfl
    | some _ =>
      dsimp only
      cases DataType.isValueSet d.dataType with
      | true =>
        simp only [if_true, run_bind]
        cases (loop valueRound []).run us with
        | mk values vs => cases values <;> rfl
      | false =>
        simp only [Bool.false_eq_true, if_false, run_bind]
        cases sizes.run us with
        | mk read vs =>
          cases read with
          | none => rfl
          | some read =>
            dsimp only
            cases (loop argumentRestRound ()).run vs with
            | mk closed ws => cases closed <;> rfl

theorem run_columnType_name (n : String) (ts : List Token) :
    (columnType n).run ts =
      (((columnType "").run ts).1.map fun p => { p with name := n },
        ((columnType "").run ts).2) := by
  unfold columnType
  rw [run_bind, run_bind]
  cases dataTypeName.run ts with
  | mk type us =>
    cases type with
    | none => rfl
    | some type =>
      obtain ⟨type, counting⟩ := type
      dsimp only
      rw [run_bind_of_some (run_skipBlanks us), run_bind_of_some (run_skipBlanks us)]
      generalize us.dropWhile Token.isBlank = vs
      have hsees : (seesMark .openParen).run vs =
          (some (vs.head?.any (Token.isMark .openParen)), vs) := rfl
      rw [run_bind_of_some hsees, run_bind_of_some hsees]
      cases vs.head?.any (Token.isMark .openParen) with
      | true =>
        rw [if_pos rfl, if_pos rfl]
        exact run_arguments_name { name := "", dataType := type, autoIncrement := counting } n vs
      | false => rfl

/-- A text that is the print of the tokens of a type, with the definition of a column that has
this type and nothing else. -/
structure WritesType (type : String) (ts : List Token) (p : ColumnDefinition) : Prop where
  print : Token.printAll ts = type.toList
  spaced : Token.Spaced ts
  closed : Token.IsItem ts
  reads : ∀ n, (columnType n).run ts = (some { p with name := n }, [])

/-- A text is a type if the reader takes all its tokens. -/
theorem writesType_of_run {type : String} {ts : List Token} {p : ColumnDefinition}
    (hprint : Token.printAll ts = type.toList) (hplain : Token.IsPlain ts) (hclosed : Token.IsItem ts)
    (hrun : (columnType "").run ts = (some p, [])) : WritesType type ts p :=
  ⟨hprint, hplain.spaced, hclosed, fun n => by rw [run_columnType_name, hrun]; rfl⟩

theorem writesType_text : WritesType "TEXT" [.word "TEXT"] { name := "", dataType := "TEXT" } :=
  writesType_of_run (by decide) (by decide) (by decide) (by decide +kernel)

/-- The words of a type are read as its name and the arguments as they are written. -/
theorem run_columnType_arguments (n : String) {ts : List Token} {type : String}
    {a : TypeArguments} (ha : a.tokens ≠ []) (hset : DataType.isValueSet type = a.isValues)
    (hname : dataTypeName.run ts = (some (type, false), a.tokens)) :
    (columnType n).run ts = (some (a.definition n type), []) := by
  obtain ⟨us, hus⟩ : ∃ us, a.tokens = .mark .openParen :: us := by
    cases a with
    | absent => exact absurd rfl ha
    | _ => exact ⟨_, rfl⟩
  have harguments := TypeArguments.run_arguments n ha hset []
  rw [List.append_nil] at harguments
  rw [columnType, run_bind_of_some hname, run_bind_of_some (run_skipBlanks _), hus,
    dropWhile_isBlank_cons rfl, ← hus]
  have hsees : (seesMark .openParen).run a.tokens = (some true, a.tokens) := by
    rw [hus]
    rfl
  rw [run_bind_of_some hsees, if_pos rfl, harguments]
  rfl

variable {type : String} {ts ms : List Token} {p : ColumnDefinition} {as : List Attribute}

/-- The name of a column and its type. -/
theorem WritesType.isHead (h : WritesType type ts p) {t : Token} {n : String}
    (ht : t.wordText? = some n) : IsHead (t :: .blank .space :: ts) { p with name := n } := by
  have hname : Reader.name.run [t] = (some n, []) := run_name ht []
  exact @IsHead.behind_blanks [] [t] [.blank .space] _ _ _ nofun hname
    (Token.allBlank_singleton rfl) (h.reads n) h.closed

/-- **A column is read as its name, its type and what its modifiers say.** -/
theorem WritesType.ofTokens? (h : WritesType type ts p) {t : Token} {n : String}
    (ht : t.wordText? = some n) (hms : Attribute.AreSpelled ms as) :
    ofTokens? (t :: .blank .space :: (ts ++ ms)) =
      some (as.foldl Attribute.apply { p with name := n }) :=
  IsHead.ofTokens?_append (h.isHead ht) hms

/-- A type behind a bare name is read as a column without modifiers. -/
theorem WritesType.ofText? (h : WritesType type ts p) :
    ofText? ("c " ++ type) = some { p with name := "c" } := by
  have hspaced : Token.Spaced (.word "c" :: .blank .space :: ts) :=
    h.spaced.atom_space (Token.isAtom_word (by decide))
  have hprint : Token.printAll (.word "c" :: .blank .space :: ts) = ("c " ++ type).toList := by
    simp [h.print]
  have hread := h.ofTokens? (t := .word "c") rfl (.done Token.allBlank_nil)
  rw [List.append_nil] at hread
  rw [ColumnDefinition.ofText?, ← hprint, hspaced.tokenize]
  exact hread

end ColumnDefinition
end SchemaScript
