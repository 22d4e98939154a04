import Mathlib.Data.List.DropRight
import Mathlib.Data.List.Forall2
import SchemaScript.Proofs.Definition.ColumnEnd
import SchemaScript.Proofs.Definition.Header
import SchemaScript.Proofs.Token.Spaced

/-!
# The body of a table

A body is cut at the commas outside of its parentheses, so items with commas between them come
out as they went in (`bodyItems?_intercalate`), each is printed and read again, and the
definition holds what they are read as, in their order (`ofItems_of_reads`). Blanks in front of
an item and behind it make no difference: the first item of a body has lost the ones in front of
it, and the last one has those in front of the closing parenthesis.
-/

namespace SchemaScript

open Reader Token

namespace Token

/-! ## Items -/

/-- Tokens that no parenthesis is among. -/
def IsFlat (ts : List Token) : Prop :=
  ∀ t ∈ ts, t.isMark .openParen = false ∧ t.isMark .closeParen = false

theorem IsItem.append {a b : List Token} (ha : IsItem a) (hb : IsItem b) : IsItem (a ++ b) := by
  rw [IsItem, depthAfter_append, ha]
  exact hb

/-- A token that is no parenthesis and no comma can stand in front of an item. -/
theorem IsItem.cons {t : Token} {ts : List Token}
    (ht : ∀ m ∈ [Mark.openParen, .closeParen, .comma], t.isMark m = false) (h : IsItem ts) :
    IsItem (t :: ts) := by
  have hopen := ht .openParen (by simp)
  have hclose := ht .closeParen (by simp)
  have hcomma := ht .comma (by simp)
  simpa [IsItem, depthAfter, hopen, hclose, hcomma] using h

theorem depthAfter_of_isFlat {ts : List Token} (h : IsFlat ts) (depth : Nat) :
    depthAfter (depth + 1) ts = some (depth + 1) := by
  induction ts with
  | nil => rfl
  | cons t ts ih =>
    obtain ⟨hopen, hclose⟩ := h t List.mem_cons_self
    have hzero : (t.isMark .comma && depth + 1 == 0) = false := by simp
    simp only [depthAfter, hopen, hclose, hzero, Bool.false_eq_true, if_false]
    exact ih fun u hu => h u (List.mem_cons_of_mem t hu)

/-- Tokens in parentheses can stand in front of an item, commas among them or not. -/
theorem IsItem.group {a b : List Token} (ha : IsFlat a) (hb : IsItem b) :
    IsItem (mark .openParen :: (a ++ mark .closeParen :: b)) := by
  show depthAfter 1 (a ++ mark .closeParen :: b) = some 0
  rw [depthAfter_append, depthAfter_of_isFlat ha]
  exact hb

/-- Blanks in front of an item do not count. -/
theorem isItem_dropWhile {ts : List Token} (h : IsItem ts) :
    IsItem (ts.dropWhile Token.isBlank) := by
  induction ts with
  | nil => exact h
  | cons t ts ih =>
    by_cases ht : t.isBlank = true
    · rw [List.dropWhile_cons_of_pos ht]
      refine ih ?_
      simpa [IsItem, depthAfter, isMark_eq_false_of_isBlank ht] using h
    · rwa [List.dropWhile_cons_of_neg ht]

/-- The print of a token that reads back and is no blank holds a character that is none. -/
theorem ReadsBack.exists_notBlank {t : Token} (h : t.ReadsBack) (ht : t.isBlank = false) :
    ∃ c ∈ t.print, Text.isBlank c = false := by
  obtain ⟨c, cs, hp⟩ := List.exists_cons_of_ne_nil h.print_ne_nil
  refine ⟨c, by rw [hp]; exact List.mem_cons_self, ?_⟩
  by_contra hc
  rw [ReadsBack, hp] at h
  rw [(scan?_of_isBlank (by simpa using hc) h).1] at ht
  cases ht

end Token

theorem ColumnDefinition.ofTokens?_dropWhile (ts : List Token) :
    ofTokens? (ts.dropWhile Token.isBlank) = ofTokens? ts := by
  have hidem : (ts.dropWhile Token.isBlank).dropWhile Token.isBlank =
      ts.dropWhile Token.isBlank := List.dropWhile_idempotent Token.isBlank ts
  rw [ofTokens?, ofTokens?, reader, run_bind_of_some (run_skipBlanks _),
    run_bind_of_some (run_skipBlanks _), hidem]

namespace TableDefinition

/-! ## Cutting a body -/

/-- The tokens of an item run up to the comma behind it, or to the parenthesis that closes the
body. -/
theorem itemRun_of_depthAfter {depth : Nat} {ts rest : List Token} {close : Token}
    (hclose : (close.isMark .comma || close.isMark .closeParen) = true)
    (h : depthAfter depth ts = some 0) :
    itemRun depth (ts ++ close :: rest) = (ts, close :: rest) := by
  induction ts generalizing depth with
  | nil =>
    have hzero : depth = 0 := Option.some.inj h
    subst hzero
    simp [itemRun, hclose]
  | cons t ts ih =>
    simp only [depthAfter] at h
    rw [List.cons_append]
    by_cases hopen : t.isMark .openParen = true
    · rw [if_pos hopen] at h
      have hno : t.isMark .comma = false ∧ t.isMark .closeParen = false := by
        cases t with
        | mark kind =>
          cases kind with
          | openParen => exact ⟨rfl, rfl⟩
          | _ => cases hopen
        | _ => cases hopen
      cases depth with
      | zero => simp [itemRun, hopen, hno.1, hno.2, ih h]
      | succ depth => simp [itemRun, hopen, ih h]
    rw [if_neg hopen] at h
    by_cases hcl : t.isMark .closeParen = true
    · rw [if_pos hcl] at h
      cases depth with
      | zero => cases h
      | succ depth => simp [itemRun, hopen, hcl, ih h]
    · rw [if_neg hcl] at h
      split at h
      · cases h
      · rename_i hcomma
        cases depth with
        | zero =>
          have hno : t.isMark .comma = false := by simpa using hcomma
          simp [itemRun, hopen, hcl, hno, ih h]
        | succ depth => simp [itemRun, hopen, hcl, ih h]

/-- **A body is cut into the items it is made of.** -/
theorem bodyItems?_intercalate {items : List (List Token)} (hne : items ≠ [])
    (h : ∀ ts ∈ items, IsItem ts) (rest : List Token) :
    bodyItems? ([Token.mark .comma].intercalate items ++ Token.mark .closeParen :: rest) =
      some (items, rest) := by
  induction items with
  | nil => exact absurd rfl hne
  | cons ts items ih =>
    have hts := h ts List.mem_cons_self
    cases items with
    | nil =>
      have hrun : itemRun 0 (ts ++ Token.mark .closeParen :: rest) =
          (ts, Token.mark .closeParen :: rest) := itemRun_of_depthAfter rfl hts
      rw [List.intercalate_singleton, bodyItems?]
      split
      · rename_i hn
        rw [hrun] at hn
        cases hn
      · rename_i t more hs
        rw [hrun] at hs ⊢
        cases hs
        rfl
    | cons us items =>
      have hrest := ih (List.cons_ne_nil _ _) fun ts hts => h ts (List.mem_cons_of_mem _ hts)
      have htokens : [Token.mark .comma].intercalate (ts :: us :: items) ++
          Token.mark .closeParen :: rest = ts ++ Token.mark .comma ::
            ([Token.mark .comma].intercalate (us :: items) ++ Token.mark .closeParen :: rest) := by
        simp
      have hrun : itemRun 0 (ts ++ Token.mark .comma ::
          ([Token.mark .comma].intercalate (us :: items) ++ Token.mark .closeParen :: rest)) =
            (ts, Token.mark .comma ::
              ([Token.mark .comma].intercalate (us :: items) ++ Token.mark .closeParen :: rest)) :=
        itemRun_of_depthAfter rfl hts
      rw [htokens, bodyItems?]
      split
      · rename_i hn
        rw [hrun] at hn
        cases hn
      · rename_i t more hs
        rw [hrun] at hs ⊢
        cases hs
        rw [if_neg (by decide), hrest]
        rfl

/-! ## Reading the items -/

/-- The column that an item defines. -/
def Item.column? : Item → Option ColumnDefinition
  | column d => some d
  | constraint _ => none

/-- The constraint that an item is. -/
def Item.constraint? : Item → Option Constraint
  | column _ => none
  | constraint c => some c

/-- What defines a column is read as a column first: behind its name stands a type. -/
theorem columnFirst_of_ofTokens? {ts : List Token} {p : ColumnDefinition}
    (h : ColumnDefinition.ofTokens? ts = some p) : columnFirst ts = true := by
  unfold columnFirst
  cases hts : ts.dropWhile Token.isBlank with
  | nil => rfl
  | cons t rest =>
    dsimp only
    by_cases hlead : Constraint.isLead t = true
    · obtain ⟨text, rfl⟩ : ∃ text, t = Token.word text := by
        cases t with
        | word text => exact ⟨text, rfl⟩
        | _ => cases hlead
      have hname : Reader.name.run (Token.word text :: rest) = (some text, rest) := rfl
      rw [ColumnDefinition.ofTokens?, ColumnDefinition.reader, run_bind_of_some (run_skipBlanks ts),
        hts, run_bind_of_some hname, run_bind_of_some (run_skipBlanks rest)] at h
      rw [hlead, Bool.not_true, Bool.false_or]
      cases hrest : rest.dropWhile Token.isBlank with
      | nil =>
        rw [hrest] at h
        cases h
      | cons u us =>
        rw [hrest] at h
        by_contra hu
        have hword : ColumnDefinition.typeWord.run (u :: us) = (none, u :: us) := by
          have hfalse : ColumnDefinition.isTypeWord u = false := by simpa using hu
          simp [ColumnDefinition.typeWord, Reader.token, hfalse]
        rw [run_bind, ColumnDefinition.dataTypeName, run_bind_of_none hword] at h
        cases h
    · rw [Bool.not_eq_true] at hlead
      rw [hlead]
      rfl

/-- Whether the tokens are read as the item once they are printed. -/
def ReadsAs (ts : List Token) (item : Item) : Prop :=
  (∃ c ∈ printAll ts, Text.isBlank c = false) ∧ Item.ofText? (printAll ts) = some item

/-- **The definition in a body holds what its items are read as**, in their order. -/
theorem ofItems_of_reads {name : String} {tss : List (List Token)} {items : List Item}
    (h : List.Forall₂ ReadsAs tss items) :
    ofItems name tss =
      ⟨name, items.filterMap Item.column?, items.filterMap Item.constraint?, []⟩ := by
  induction h with
  | nil => rfl
  | @cons ts item tss items hts _ ih =>
    obtain ⟨⟨c, hc, hcb⟩, hitem⟩ := hts
    have hnot : Text.allBlank (printAll ts) = false := by
      rw [Text.allBlank, List.all_eq_false]
      exact ⟨c, hc, by simp [hcb]⟩
    have htexts : itemTexts (ts :: tss) = printAll ts :: itemTexts tss := by
      simp [itemTexts, hnot]
    have hofItems : ofItems name (ts :: tss) = consItem (printAll ts) (ofItems name tss) := by
      rw [ofItems, htexts]
      rfl
    rw [hofItems, ih, consItem, hitem]
    cases item <;> rfl

/-! ## Items with blanks around them -/

/-- Whether all tokens are spaces, tabs and line ends. -/
def AllSpace (ts : List Token) : Prop :=
  ∀ t ∈ ts, t.isBlank = true ∧ t.isSeparator = true

theorem AllSpace.allBlank {ts : List Token} (h : AllSpace ts) : AllBlank ts :=
  fun t ht => (h t ht).1

theorem AllSpace.spaced_append {pre ts : List Token} (h : AllSpace pre) (hts : Spaced ts) :
    Spaced (pre ++ ts) := by
  induction pre with
  | nil => exact hts
  | cons t pre ih =>
    exact (ih fun u hu => h u (List.mem_cons_of_mem t hu)).cons (h t List.mem_cons_self).2

theorem allSpace_nil : AllSpace [] :=
  fun _ ht => absurd ht List.not_mem_nil

/-- Tokens that an item can be written with. They are read back from their print, no comma in
them cuts the item apart, and whatever blanks stand behind them they are read as the item. -/
structure Item.WrittenAs (item : Item) (ts : List Token) : Prop where
  spaced : Spaced ts
  isItem : IsItem ts
  begins : ∃ t ∈ ts.head?, t.isBlank = false
  reads : ∀ post, AllBlank post → Item.ofTokens? (ts ++ post) = some item

/-- A text that is the print of tokens that the item can be written with. -/
def Item.Writes (text : String) (item : Item) : Prop :=
  ∃ ts, printAll ts = text.toList ∧ item.WrittenAs ts

/-- Texts of items are printed from tokens of items. -/
theorem Item.exists_cores {texts : List String} {items : List Item}
    (h : List.Forall₂ Item.Writes texts items) :
    ∃ cores, List.Forall₂ (fun core text => printAll core = text.toList) cores texts ∧
      List.Forall₂ (fun core item => Item.WrittenAs item core) cores items := by
  induction h with
  | nil => exact ⟨[], .nil, .nil⟩
  | cons hone _ ih =>
    obtain ⟨core, hprint, hwritten⟩ := hone
    obtain ⟨cores, hprints, hall⟩ := ih
    exact ⟨core :: cores, .cons hprint hprints, .cons hwritten hall⟩

/-- Whether the second list is the first one with blanks around it. -/
def Pads (core ts : List Token) : Prop :=
  ∃ pre post, AllSpace pre ∧ AllSpace post ∧ ts = pre ++ (core ++ post)

theorem columnFirst_append_blank {pre : List Token} (h : AllBlank pre) (ts : List Token) :
    columnFirst (pre ++ ts) = columnFirst ts := by
  rw [columnFirst, columnFirst, List.dropWhile_append, h.dropWhile]
  rfl

/-- Blanks in front of an item do not count. -/
theorem Item.ofTokens?_append_blank {pre : List Token} (h : AllBlank pre) (ts : List Token) :
    Item.ofTokens? (pre ++ ts) = Item.ofTokens? ts := by
  have hdrop : (pre ++ ts).dropWhile Token.isBlank = ts.dropWhile Token.isBlank := by
    rw [List.dropWhile_append, h.dropWhile]
    rfl
  have hcolumn : ColumnDefinition.ofTokens? (pre ++ ts) = ColumnDefinition.ofTokens? ts := by
    rw [← ColumnDefinition.ofTokens?_dropWhile, hdrop, ColumnDefinition.ofTokens?_dropWhile]
  have hconstraint : Constraint.reader.run (pre ++ ts) = Constraint.reader.run ts := by
    rw [Constraint.reader, run_bind_of_some (run_skipBlanks _), run_bind_of_some (run_skipBlanks _),
      hdrop]
  rw [Item.ofTokens?, Item.ofTokens?, columnFirst_append_blank h, hcolumn, hconstraint]

namespace Item.WrittenAs

variable {item : Item} {core ts : List Token}

theorem isItem_of_pads (h : item.WrittenAs core) (hts : Pads core ts) : IsItem ts := by
  obtain ⟨pre, post, hpre, hpost, rfl⟩ := hts
  exact IsItem.append (depthAfter_of_allBlank hpre.allBlank 0)
    (h.isItem.append (depthAfter_of_allBlank hpost.allBlank 0))

/-- An item is read with the blanks around it. -/
theorem readsAs_of_pads (h : item.WrittenAs core) (hts : Pads core ts) : ReadsAs ts item := by
  obtain ⟨pre, post, hpre, hpost, rfl⟩ := hts
  obtain ⟨t, ht, hblank⟩ := h.begins
  have hmem : t ∈ core := List.mem_of_mem_head? ht
  have hspaced : Spaced (pre ++ (core ++ post)) := by
    have hpost' : Spaced post := by
      have hspaced := hpost.spaced_append spaced_nil
      rwa [List.append_nil] at hspaced
    exact hpre.spaced_append (h.spaced.append hpost' fun u hu =>
      (hpost u (List.mem_of_mem_head? hu)).2)
  have hback : t.ReadsBack := by
    rcases h.spaced.token t hmem with hsep | hatom
    · exact readsBack_of_isSeparator hsep
    · exact hatom.readsBack
  constructor
  · obtain ⟨c, hc, hcb⟩ := hback.exists_notBlank hblank
    refine ⟨c, ?_, hcb⟩
    simp only [printAll_append, List.mem_append]
    exact Or.inr (Or.inl (List.mem_flatMap.2 ⟨t, hmem, hc⟩))
  · rw [Item.ofText?, hspaced.tokenize, Option.bind_some,
      Item.ofTokens?_append_blank hpre.allBlank, h.reads post hpost.allBlank]

end Item.WrittenAs

/-- Tokens that define a column are an item. -/
theorem writtenAs_column {ts : List Token} {d : ColumnDefinition} (hspaced : Spaced ts)
    (hitem : IsItem ts) (hbegins : ∃ t ∈ ts.head?, t.isBlank = false)
    (h : ColumnDefinition.ofTokens? ts = some d) : Item.WrittenAs (.column d) ts := by
  refine ⟨hspaced, hitem, hbegins, fun post hpost => ?_⟩
  have hsame : SameButEnd ts (ts ++ post) :=
    ⟨ts, [], post, 0, (List.append_nil ts).symm, rfl, by simp [AllBlank], hpost, hitem⟩
  have hd : ColumnDefinition.ofTokens? (ts ++ post) = some d := by
    rw [← ColumnDefinition.ofTokens?_eq_of_sameButEnd hsame, h]
  rw [Item.ofTokens?, if_pos (columnFirst_of_ofTokens? hd), hd]

/-- Tokens that begin like a constraint and are read as one are an item. -/
theorem writtenAs_constraint {ts : List Token} {c : Constraint} {t u : Token}
    {more : List Token} (hts : ts = t :: .blank .space :: u :: more) (hspaced : Spaced ts)
    (hitem : IsItem ts) (hlead : Constraint.isLead t = true)
    (hu : u.isBlank = false ∧ ColumnDefinition.isTypeWord u = false)
    (h : ∀ post, AllBlank post → (Constraint.reader.run (ts ++ post)).1 = some c) :
    Item.WrittenAs (.constraint c) ts := by
  have ht : t.isBlank = false := by
    cases t with
    | word text => rfl
    | _ => cases hlead
  refine ⟨hspaced, hitem, ⟨t, by rw [hts]; rfl, ht⟩, fun post hpost => ?_⟩
  have hfirst : columnFirst (ts ++ post) = false := by
    rw [hts, columnFirst, List.cons_append, dropWhile_isBlank_cons ht]
    show (!Constraint.isLead t || ((u :: (more ++ post)).dropWhile Token.isBlank).head?.any
      ColumnDefinition.isTypeWord) = false
    rw [dropWhile_isBlank_cons hu.1, hlead]
    exact hu.2
  rw [Item.ofTokens?, hfirst, h post hpost]
  rfl

/-! ## Laying a body out -/

/-- The tokens of a body with each item on a line of its own. -/
def bodyTokens (cores : List (List Token)) : List Token :=
  [Token.mark .comma].intercalate
    (cores.map fun core => .blank .newline :: .blank .tab :: core) ++ [.blank .newline]

/-- Laid out on lines the items have blanks around them. -/
theorem exists_pads_bodyTokens {cores : List (List Token)} (hne : cores ≠ []) :
    ∃ tss, bodyTokens cores = [Token.mark .comma].intercalate tss ∧
      List.Forall₂ Pads cores tss := by
  have hpre : AllSpace [.blank .newline, .blank .tab] := by
    simp [AllSpace, Token.isBlank, isSeparator]
  have hpost : AllSpace [.blank .newline] := by
    simp [AllSpace, Token.isBlank, isSeparator]
  induction cores with
  | nil => exact absurd rfl hne
  | cons core cores ih =>
    cases cores with
    | nil =>
      refine ⟨[.blank .newline :: .blank .tab :: (core ++ [.blank .newline])], ?_, ?_⟩
      · simp [bodyTokens]
      · exact .cons ⟨_, _, hpre, hpost, rfl⟩ .nil
    | cons core' cores =>
      obtain ⟨tss, htss, hpads⟩ := ih (List.cons_ne_nil _ _)
      have hne' : tss ≠ [] := by
        rintro rfl
        cases hpads
      refine ⟨(.blank .newline :: .blank .tab :: core) :: tss, ?_, ?_⟩
      · rw [List.intercalate_cons_of_ne_nil hne', ← htss]
        simp [bodyTokens]
      · exact .cons ⟨_, [], hpre, allSpace_nil, by simp⟩ hpads

/-- Items with blanks around them are still items and are still read. -/
theorem forall₂_of_pads {cores tss : List (List Token)} {items : List Item}
    (hpads : List.Forall₂ Pads cores tss)
    (h : List.Forall₂ (fun core item => Item.WrittenAs item core) cores items) :
    List.Forall₂ (fun ts item => IsItem ts ∧ ReadsAs ts item) tss items := by
  induction hpads generalizing items with
  | nil =>
    cases h
    exact .nil
  | cons hts _ ih =>
    cases h with
    | cons hitem hitems =>
      exact .cons ⟨hitem.isItem_of_pads hts, hitem.readsAs_of_pads hts⟩ (ih hitems)

/-- **A body laid out on lines is read as its items.** -/
theorem body_of_writtenAs {cores : List (List Token)} {items : List Item} (hne : cores ≠ [])
    (h : List.Forall₂ (fun core item => Item.WrittenAs item core) cores items)
    (rest : List Token) :
    ∃ tss, bodyItems? ((bodyTokens cores ++ Token.mark .closeParen :: rest).dropWhile
        Token.isBlank) = some (tss, rest) ∧ List.Forall₂ ReadsAs tss items := by
  obtain ⟨tss, htss, hpads⟩ := exists_pads_bodyTokens hne
  cases hpads with
  | nil => exact absurd rfl hne
  | @cons core ts cores tss hts hrest =>
    cases h with
    | @cons _ item _ items hitem hitems =>
      obtain ⟨pre, post, hpre, hpost, rfl⟩ := hts
      have hpads : List.Forall₂ Pads (core :: cores) ((core ++ post) :: tss) :=
        .cons ⟨[], post, allSpace_nil, hpost, rfl⟩ hrest
      have hdrop : (bodyTokens (core :: cores) ++ Token.mark .closeParen :: rest).dropWhile
          Token.isBlank = [Token.mark .comma].intercalate ((core ++ post) :: tss) ++
            Token.mark .closeParen :: rest := by
        obtain ⟨t, ht, hblank⟩ := hitem.begins
        obtain ⟨more, rfl⟩ := List.head?_eq_some_iff.1 ht
        have hpre' : [Token.mark .comma].intercalate ((pre ++ (t :: more ++ post)) :: tss) =
            pre ++ [Token.mark .comma].intercalate ((t :: more ++ post) :: tss) := by
          cases tss <;> simp
        have hbegins : ∃ us, [Token.mark .comma].intercalate ((t :: more ++ post) :: tss) =
            t :: us := by
          cases tss <;> exact ⟨_, List.intercalate_cons_cons_left⟩
        obtain ⟨us, hus⟩ := hbegins
        rw [htss, hpre', List.append_assoc, List.dropWhile_append, hpre.allBlank.dropWhile, hus,
          List.cons_append]
        exact dropWhile_isBlank_cons hblank _
      have hall := forall₂_of_pads hpads (.cons hitem hitems)
      obtain ⟨hisItem, hreads⟩ := (List.forall₂_and_left _ _).1 hall
      refine ⟨(core ++ post) :: tss, ?_, hreads⟩
      rw [hdrop]
      exact bodyItems?_intercalate (List.cons_ne_nil _ _) hisItem rest

end TableDefinition
end SchemaScript
