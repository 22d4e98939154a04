import SchemaScript.Proofs.Text.Blanks
import SchemaScript.Proofs.Token.Follow

/-!
# Every scanned token settles

A text can be cut at the end of a token and continued differently: what stands behind a
scanned token follows it (`follows_of_scan?`), and the token is scanned again in front of
whatever else follows it (`scan?_append`). The operators are the reason why this is more than
a remark about runs of characters. The first spelling in the table that fits is read, and
that it is not cut short depends on the order of the table (`operators_pairwise`) and on
every longer operator being reached one character at a time (`operators_closed`).
-/

namespace SchemaScript
namespace Token

open Text (Stops isAlphabetic isNumeric)

/-! ## Comments -/

theorem scan?_hyphens (cs : List Char) : scan? ('-' :: '-' :: cs) = some (scanLineComment cs) := by
  have hword : isWordStart '-' = false := by decide
  simp [scan?, scanBlank?, scanOther?, hword]

theorem scan?_bracket (cs : List Char) : scan? ('/' :: '*' :: cs) = scanBlockComment? cs := by
  have hword : isWordStart '/' = false := by decide
  simp [scan?, scanBlank?, scanOther?, hword]

theorem settles_lineComment (cs : List Char) :
    Settles ('-' :: '-' :: cs) (scanLineComment cs).1 (scanLineComment cs).2 := by
  have hrun : ∀ c ∈ cs.takeWhile (· != '\n'), (c != '\n') = true := fun _ => List.mem_takeWhile_imp
  have hstop := Text.stops_dropWhile (p := (· != '\n')) cs
  have happ : cs.takeWhile (· != '\n') ++ cs.dropWhile (· != '\n') = cs :=
    List.takeWhile_append_dropWhile
  simp only [scanLineComment]
  generalize cs.takeWhile (· != '\n') = line at *
  generalize cs.dropWhile (· != '\n') = behind at *
  subst happ
  cases behind with
  | nil =>
    refine ⟨'-' :: '-' :: line, by simp, fun _ => rfl, fun y hy => ?_⟩
    have hlast : (String.ofList line).toList.getLast? ≠ some '\n' := by
      intro hl
      rw [String.toList_ofList] at hl
      have hmem := hrun '\n' (List.mem_of_getLast? hl)
      simp at hmem
    have hnil : y = [] := hy hlast
    subst hnil
    have htake := Text.takeWhile_append_of_stops hrun (Text.stops_nil (p := (· != '\n')))
    have hdrop := Text.dropWhile_append_of_stops hrun (Text.stops_nil (p := (· != '\n')))
    rw [List.cons_append, List.cons_append, scan?_hyphens]
    simp only [scanLineComment, htake, hdrop]
  | cons c rest =>
    have hc : c = '\n' := by simpa using Text.stops_cons.1 hstop
    subst hc
    refine ⟨'-' :: '-' :: (line ++ ['\n']), by simp, ?_, fun y _ => ?_⟩
    · intro hl
      simp at hl
    · have hy : Stops (· != '\n') ('\n' :: y) := Text.stops_cons.2 rfl
      rw [List.cons_append, List.cons_append, List.append_assoc, List.cons_append,
        List.nil_append, scan?_hyphens]
      simp only [scanLineComment, Text.takeWhile_append_of_stops hrun hy,
        Text.dropWhile_append_of_stops hrun hy]

theorem settles_blockComment {cs v rest : List Char}
    (hv : blockComment? 0 cs = some (v, rest)) :
    Settles ('/' :: '*' :: cs) (blank (.blockComment (String.ofList v))) rest := by
  obtain ⟨rfl, hy⟩ := blockComment?_settled hv
  refine ⟨'/' :: '*' :: (v ++ ['*', '/']), by simp, trivial, fun y _ => ?_⟩
  have happ : v ++ ['*', '/'] ++ y = v ++ '*' :: '/' :: y := by simp
  rw [List.cons_append, List.cons_append, happ, scan?_bracket, scanBlockComment?, hy y]
  rfl

/-! ## Operators -/

/-- An operator that does not begin in front of `rest` does not begin in front of a text
that makes no longer operator. -/
theorem not_prefix_of_stopsOperator {w rest y : List Char} (hy : StopsOperator w y)
    {entry : List Char × Token} (he : entry ∈ operators) (h : ¬ entry.1 <+: w ++ rest) :
    ¬ entry.1 <+: w ++ y := by
  intro hp
  by_cases hlen : entry.1.length ≤ w.length
  · exact h ((Text.prefix_append_congr hlen rest y).2 hp)
  · cases y with
    | nil =>
      have := hp.length_le
      rw [List.append_nil] at this
      omega
    | cons d y =>
      refine (hy d rfl).1 entry he ?_
      have hle : (w ++ [d]).length ≤ entry.1.length := by
        rw [List.length_append, List.length_singleton]
        omega
      have hd : w ++ [d] <+: w ++ d :: y := ⟨y, by simp⟩
      exact List.prefix_of_prefix_length_le hd hp hle

/-- An operator is found again in front of a text that makes no longer one. -/
theorem scanOperator?_append {w rest y : List Char} {t : Token}
    (h : scanOperator? (w ++ rest) = some (t, rest)) (hy : StopsOperator w y) :
    scanOperator? (w ++ y) = some (t, y) := by
  have hne : ∀ entry ∈ operators, ¬ entry.1 <+: w ++ rest → ¬ entry.1 <+: w ++ y :=
    fun entry he => not_prefix_of_stopsOperator hy he
  unfold scanOperator? at h ⊢
  generalize operators = entries at h hne
  induction entries with
  | nil => cases h
  | cons entry entries ih =>
    rw [List.findSome?_cons] at h ⊢
    cases hs : Text.stripStart? entry.1 (w ++ rest) with
    | none =>
      have hnone : Text.stripStart? entry.1 (w ++ y) = none := by
        rw [Text.stripStart?_eq_none_iff] at hs ⊢
        exact hne entry List.mem_cons_self hs
      rw [hs] at h
      rw [hnone]
      exact ih h fun e he => hne e (List.mem_cons_of_mem _ he)
    | some r =>
      rw [hs] at h
      obtain ⟨ht, rfl⟩ := Prod.mk.inj (Option.some.inj h)
      have hw : w = entry.1 := List.append_cancel_right (Text.stripStart?_eq_some_iff.1 hs)
      rw [hw, Text.stripStart?_append, ← ht]
      rfl

/-- Where no operator begins, none begins in front of a text that makes none. -/
theorem scanOperator?_append_eq_none {w rest y : List Char}
    (h : scanOperator? (w ++ rest) = none) (hy : StopsOperator w y) :
    scanOperator? (w ++ y) = none := by
  unfold scanOperator? at h ⊢
  rw [List.findSome?_eq_none_iff] at h ⊢
  intro entry he
  have hs := h entry he
  rw [Option.map_eq_none_iff, Text.stripStart?_eq_none_iff] at hs ⊢
  exact not_prefix_of_stopsOperator hy he hs

/-- Of two operators with a common beginning the longer one comes first. -/
theorem operators_pairwise : operators.Pairwise fun a b => ¬ a.1 <+: b.1 := by
  decide

/-- Every beginning of an operator with at least two characters is an operator. -/
theorem operators_closed : ∀ entry ∈ operators, ∀ n < entry.1.length, 2 ≤ n →
    entry.1.take n ∈ operators.map Prod.fst := by
  decide

/-- The first entry to answer stands at or before every entry that answers. -/
theorem exists_of_findSome?_pairwise {α β : Type} {R : α → α → Prop} {f : α → Option β}
    {entries : List α} {r : β} (hp : entries.Pairwise R) (h : entries.findSome? f = some r)
    {e : α} (he : e ∈ entries) (hf : f e ≠ none) :
    ∃ e' ∈ entries, f e' = some r ∧ (e' = e ∨ R e' e) := by
  induction entries with
  | nil => cases he
  | cons a entries ih =>
    rw [List.findSome?_cons] at h
    cases ha : f a with
    | some b =>
      rw [ha] at h
      cases h
      rcases List.mem_cons.1 he with rfl | he
      · exact ⟨e, List.mem_cons_self, ha, Or.inl rfl⟩
      · exact ⟨a, List.mem_cons_self, ha, Or.inr ((List.pairwise_cons.1 hp).1 e he)⟩
    | none =>
      rw [ha] at h
      rcases List.mem_cons.1 he with rfl | he
      · exact absurd ha hf
      · obtain ⟨e', he', hfe, hor⟩ := ih (List.pairwise_cons.1 hp).2 h he
        exact ⟨e', List.mem_cons_of_mem _ he', hfe, hor⟩

/-- A longer operator would have been read. -/
theorem stopsOperator_of_scanOperator? {w rest : List Char} (hw : w ≠ [])
    (h : scanOperator? (w ++ rest) = none ∨ ∃ t, scanOperator? (w ++ rest) = some (t, rest))
    (hd : w = ['-'] → rest.head? ≠ some '-') (hs : w = ['/'] → rest.head? ≠ some '*') :
    StopsOperator w rest := by
  intro d hrest
  refine ⟨fun entry he hp => ?_, ?_, ?_⟩
  · -- the operator begins with one that has one character more than `w`
    obtain ⟨more, rfl⟩ := List.head?_eq_some_iff.1 hrest
    have hlen : 2 ≤ (w ++ [d]).length := by
      have := List.length_pos_iff.2 hw
      rw [List.length_append, List.length_singleton]
      omega
    obtain ⟨e, hemem, heq⟩ : ∃ e ∈ operators, e.1 = w ++ [d] := by
      by_cases hlt : (w ++ [d]).length < entry.1.length
      · have hmem := operators_closed entry he _ hlt hlen
        rw [← List.prefix_iff_eq_take.1 hp] at hmem
        obtain ⟨e, hemem, heq⟩ := List.mem_map.1 hmem
        exact ⟨e, hemem, heq⟩
      · exact ⟨entry, he, (hp.eq_of_length_le (by omega)).symm⟩
    have hsome : (Text.stripStart? e.1 (w ++ d :: more)).map (e.2, ·) = some (e.2, more) := by
      have happ : w ++ d :: more = e.1 ++ more := by rw [heq]; simp
      rw [happ, Text.stripStart?_append]
      rfl
    rcases h with h | ⟨t, h⟩
    · unfold scanOperator? at h
      rw [List.findSome?_eq_none_iff] at h
      have hnone := h e hemem
      rw [hsome] at hnone
      cases hnone
    · obtain ⟨e', he', hf, hor⟩ := exists_of_findSome?_pairwise operators_pairwise h hemem
        (by rw [hsome]; exact Option.some_ne_none _)
      obtain ⟨r, hr, hpair⟩ := Option.map_eq_some_iff.1 hf
      obtain ⟨-, rfl⟩ := Prod.mk.inj hpair
      have hw' : w = e'.1 := List.append_cancel_right (Text.stripStart?_eq_some_iff.1 hr)
      rcases hor with rfl | hnot
      · rw [← hw'] at heq
        have := congrArg List.length heq
        rw [List.length_append, List.length_singleton] at this
        omega
      · exact hnot (by rw [heq, ← hw']; exact List.prefix_append w [d])
  · rintro ⟨hm, rfl⟩
    exact hd hm hrest
  · rintro ⟨hm, rfl⟩
    exact hs hm hrest

/-- Two characters that begin no operator do not become the beginning of one. -/
theorem stopsOperator_of_two {w rest : List Char} (hw : 2 ≤ w.length)
    (h : scanOperator? (w ++ rest) = none) (y : List Char) : StopsOperator w y := by
  have hone : ∀ c, w ≠ [c] := by
    rintro c rfl
    simp at hw
  refine fun d _ => ⟨fun entry he hp => ?_, fun hm => hone _ hm.1, fun hm => hone _ hm.1⟩
  have hlt : w.length < entry.1.length := by
    have := hp.length_le
    rw [List.length_append, List.length_singleton] at this
    omega
  have hmem := operators_closed entry he _ hlt hw
  rw [← List.prefix_iff_eq_take.1 ((List.prefix_append w [d]).trans hp)] at hmem
  obtain ⟨e, hemem, rfl⟩ := List.mem_map.1 hmem
  unfold scanOperator? at h
  rw [List.findSome?_eq_none_iff] at h
  have hnone := h e hemem
  rw [Text.stripStart?_append] at hnone
  cases hnone

/-- What the table of operators gives to read: marks other than the period, and signs that
are none of those with a scanner of their own. -/
theorem operators_tokens : ∀ entry ∈ operators,
    (match entry.2 with
      | mark kind => kind != .period
      | sign _ => true
      | _ => false) = true ∧
    entry.1 ≠ ['#'] ∧ entry.1 ≠ ['@'] ∧ entry.1 ≠ ['@', '@'] ∧ entry.1 ≠ ['/'] ∧
    entry.1.head? ≠ some '?' ∧ entry.1.head? ≠ some '$' ∧
    ¬ ['-', '-'] <+: entry.1 ∧ ¬ ['/', '*'] <+: entry.1 := by
  decide

/-- A text follows an operator when it makes no longer one. -/
theorem follows_operator_iff {p y : List Char} {t : Token} (hp : (p, t) ∈ operators) :
    Follows p t y ↔ StopsOperator p y := by
  obtain ⟨ht, h1, h2, h3, -, h4, h5, -, -⟩ := operators_tokens _ hp
  cases t with
  | mark kind =>
    cases kind with
    | period => cases ht
    | _ => exact Iff.rfl
  | sign text =>
    refine ⟨fun h => h.1, fun h => ⟨h, ?_, ?_, ?_, ?_⟩⟩
    · rintro (hw | hw)
      · exact absurd hw h1
      · exact absurd hw h3
    · exact fun hw => absurd hw h2
    · exact fun hw => absurd hw h4
    · exact fun hw => absurd hw h5
  | _ => cases ht

theorem settles_operator {p rest : List Char} {t : Token} (hp : (p, t) ∈ operators)
    (h : scanOperator? (p ++ rest) = some (t, rest))
    (hd : p = ['-'] → rest.head? ≠ some '-') : Settles (p ++ rest) t rest := by
  obtain ⟨-, -, -, -, hslash, -, -, hdash, hstar⟩ := operators_tokens _ hp
  have hne : p ≠ [] := operators_ne_nil _ hp
  refine ⟨p, rfl, ?_, fun y hy => ?_⟩
  · rw [follows_operator_iff hp]
    exact stopsOperator_of_scanOperator? hne (Or.inr ⟨t, h⟩) hd fun hs => absurd hs hslash
  · rw [follows_operator_iff hp] at hy
    have hop := scanOperator?_append h hy
    obtain ⟨c, cs, rfl⟩ := List.exists_cons_of_ne_nil hne
    obtain ⟨hc, -⟩ := operators_opensSign _ hp c rfl
    have hcom : ¬ OpensComment c (cs ++ y) := by
      cases cs with
      | nil =>
        rintro (⟨rfl, hy'⟩ | ⟨rfl, -⟩)
        · exact (hy _ hy').2.1 ⟨rfl, rfl⟩
        · exact hslash rfl
      | cons d cs =>
        rintro (⟨rfl, hy'⟩ | ⟨rfl, hy'⟩)
        · obtain rfl : d = '-' := by simpa using hy'
          exact hdash ⟨cs, rfl⟩
        · obtain rfl : d = '*' := by simpa using hy'
          exact hstar ⟨cs, rfl⟩
    rw [List.cons_append] at hop ⊢
    rw [scan?_of_opensSign hc hcom]
    unfold scanSign?
    rw [hop]

/-! ## Signs -/

/-- Where no operator begins, a sign is read by its first character. -/
theorem scanSign?_of_none {c : Char} {cs : List Char} (h : scanOperator? (c :: cs) = none) :
    scanSign? c cs =
      if c = '#' then some (scanNumberSign cs)
      else if c = '@' then some (scanAtSign cs)
      else if c = '?' then
        some (sign (String.ofList ('?' :: cs.takeWhile isNumeric)), cs.dropWhile isNumeric)
      else if c = '$' then scanDollar? cs
      else if Text.isBlank c then some (blank .space, cs)
      else some (sign (String.ofList [c]), cs) := by
  unfold scanSign?
  rw [h]

theorem not_opensComment {c : Char} (h1 : c ≠ '-') (h2 : c ≠ '/') (cs : List Char) :
    ¬ OpensComment c cs := by
  rintro (⟨h, -⟩ | ⟨h, -⟩)
  · exact h1 h
  · exact h2 h

/-- A character that no operator and no comment begins with. -/
def BeginsNoOperator (c : Char) : Prop :=
  (∀ entry ∈ operators, entry.1.head? ≠ some c) ∧ c ≠ '-' ∧ c ≠ '/'

theorem BeginsNoOperator.stops {c : Char} (h : BeginsNoOperator c) (cs y : List Char) :
    StopsOperator (c :: cs) y := by
  refine fun d _ => ⟨fun entry he hp => ?_, ?_, ?_⟩
  · obtain ⟨z, hz⟩ := hp
    exact h.1 entry he (by rw [← hz]; rfl)
  · rintro ⟨hc, -⟩
    exact h.2.1 (List.cons.inj hc).1
  · rintro ⟨hc, -⟩
    exact h.2.2 (List.cons.inj hc).1

theorem BeginsNoOperator.scanOperator? {c : Char} (h : BeginsNoOperator c) (cs : List Char) :
    Token.scanOperator? (c :: cs) = none := by
  unfold Token.scanOperator?
  rw [List.findSome?_eq_none_iff]
  intro entry he
  rw [Option.map_eq_none_iff, Text.stripStart?_eq_none_iff]
  rintro ⟨z, hz⟩
  cases hentry : entry.1 with
  | nil => exact operators_ne_nil entry he hentry
  | cons d ds =>
    rw [hentry] at hz
    exact h.1 entry he (by rw [hentry, (List.cons.inj hz).1]; rfl)

theorem beginsNoOperator_question : BeginsNoOperator '?' :=
  ⟨by decide, by decide, by decide⟩

theorem beginsNoOperator_dollar : BeginsNoOperator '$' :=
  ⟨by decide, by decide, by decide⟩

/-- A word that begins with two characters given to it settles, if it is read where no operator
begins. -/
theorem settles_scanWord (start : List Char) {cs : List Char} (hlen : 2 ≤ start.length)
    (h : scanOperator? (start ++ cs) = none)
    (hscan : ∀ x, scanOperator? (start ++ x) = none →
      scan? (start ++ x) = some (scanWord start x)) :
    Settles (start ++ cs) (scanWord start cs).1 (scanWord start cs).2 := by
  have hstop := Text.stops_dropWhile (p := isWordPart) cs
  have hrun : ∀ c ∈ cs.takeWhile isWordPart, isWordPart c = true := fun _ => List.mem_takeWhile_imp
  have happ : cs.takeWhile isWordPart ++ cs.dropWhile isWordPart = cs :=
    List.takeWhile_append_dropWhile
  simp only [scanWord]
  generalize cs.takeWhile isWordPart = run at *
  generalize cs.dropWhile isWordPart = rest at *
  subst happ
  refine ⟨start ++ run, by rw [List.append_assoc], ⟨hstop, ?_⟩, fun y hy => ?_⟩
  · intro c hc
    have := congrArg List.length hc
    rw [List.length_append, List.length_singleton] at this
    omega
  · have hnone : scanOperator? (start ++ (run ++ y)) = none :=
      scanOperator?_append_eq_none h (stopsOperator_of_two hlen h _)
    rw [List.append_assoc, hscan _ hnone]
    simp only [scanWord, Text.takeWhile_append_of_stops hrun hy.1,
      Text.dropWhile_append_of_stops hrun hy.1]

theorem settles_numberSign {cs : List Char} (h : scanOperator? ('#' :: cs) = none) :
    Settles ('#' :: cs) (scanNumberSign cs).1 (scanNumberSign cs).2 := by
  have hscan : ∀ x, scanOperator? ('#' :: x) = none →
      scan? ('#' :: x) = some (scanNumberSign x) := by
    intro x hx
    rw [scan?_of_opensSign (by decide) (not_opensComment (by decide) (by decide) x),
      scanSign?_of_none hx, if_pos rfl]
  have halone : ∀ y, Follows ['#'] (sign "#") y → scan? ('#' :: y) = some (sign "#", y) := by
    rintro y ⟨hop, hsign⟩
    rw [hscan y (scanOperator?_append_eq_none (w := ['#']) h hop)]
    cases y with
    | nil => rfl
    | cons d y =>
      have hd : d = ' ' := hsign.1 (Or.inl rfl) d rfl
      subst hd
      rfl
  have hstop : StopsOperator ['#'] cs :=
    stopsOperator_of_scanOperator? (List.cons_ne_nil _ _) (Or.inl h) (by simp) (by simp)
  cases cs with
  | nil => exact ⟨['#'], rfl, ⟨hstop, by simp [StopsSign, scanNumberSign]⟩, halone⟩
  | cons c cs =>
    by_cases hc : c = ' '
    · subst hc
      exact ⟨['#'], rfl, ⟨hstop, by simp [StopsSign, scanNumberSign]⟩, halone⟩
    · have hword : ∀ x, scanNumberSign (c :: x) = scanWord ['#', c] x := by
        intro x
        simp only [scanNumberSign, if_neg hc]
      rw [hword cs]
      refine settles_scanWord ['#', c] (by simp) h fun x hx => ?_
      rw [List.cons_append] at hx ⊢
      rw [hscan _ hx, List.cons_append, List.nil_append, hword x]

theorem settles_atSign {cs : List Char} (h : scanOperator? ('@' :: cs) = none) :
    Settles ('@' :: cs) (scanAtSign cs).1 (scanAtSign cs).2 := by
  have hscan : ∀ x, scanOperator? ('@' :: x) = none →
      scan? ('@' :: x) = some (scanAtSign x) := by
    intro x hx
    rw [scan?_of_opensSign (by decide) (not_opensComment (by decide) (by decide) x),
      scanSign?_of_none hx, if_neg (by decide), if_pos rfl]
  have halone : ∀ y, Follows ['@'] (sign "@") y → scan? ('@' :: y) = some (sign "@", y) := by
    rintro y ⟨hop, hsign⟩
    rw [hscan y (scanOperator?_append_eq_none (w := ['@']) h hop)]
    cases y with
    | nil => rfl
    | cons d y => rcases hsign.2.1 rfl d rfl with rfl | rfl | rfl | rfl <;> rfl
  have hstop : StopsOperator ['@'] cs :=
    stopsOperator_of_scanOperator? (List.cons_ne_nil _ _) (Or.inl h) (by simp) (by simp)
  cases cs with
  | nil => exact ⟨['@'], rfl, ⟨hstop, by simp [StopsSign, scanAtSign]⟩, halone⟩
  | cons c cs =>
    by_cases hat : c = '@'
    · subst hat
      have htwo : ∀ y, Follows ['@', '@'] (sign "@@") y →
          scan? ('@' :: '@' :: y) = some (sign "@@", y) := by
        rintro y ⟨hop, hsign⟩
        rw [hscan ('@' :: y) (scanOperator?_append_eq_none (w := ['@', '@']) h hop)]
        cases y with
        | nil => rfl
        | cons d y =>
          have hd : d = ' ' := hsign.1 (Or.inr rfl) d rfl
          subst hd
          rfl
      have hstop2 : ∀ y, StopsOperator ['@', '@'] y := stopsOperator_of_two (by simp) h
      cases cs with
      | nil => exact ⟨['@', '@'], rfl, ⟨hstop2 _, by simp [StopsSign, scanAtSign]⟩, htwo⟩
      | cons d cs =>
        by_cases hd : d = ' '
        · subst hd
          exact ⟨['@', '@'], rfl, ⟨hstop2 _, by simp [StopsSign, scanAtSign]⟩, htwo⟩
        · have hword : ∀ x, scanAtSign ('@' :: d :: x) = scanWord ['@', '@', d] x := by
            intro x
            simp only [scanAtSign, if_true, if_neg hd]
          rw [hword cs]
          refine settles_scanWord ['@', '@', d] (by simp) h fun x hx => ?_
          rw [List.cons_append] at hx ⊢
          rw [hscan _ hx, List.cons_append, List.cons_append, List.nil_append, hword x]
    · by_cases hc : c = ' ' ∨ c = '\'' ∨ c = '"' ∨ c = '\x60'
      · have hread : scanAtSign (c :: cs) = (sign "@", c :: cs) := by simp [scanAtSign, hat, hc]
        rw [hread]
        exact ⟨['@'], rfl, ⟨hstop, by simpa [StopsSign] using hc⟩, halone⟩
      · have hword : ∀ x, scanAtSign (c :: x) = scanWord ['@', c] x := by
          intro x
          simp only [scanAtSign, if_neg hat, if_neg hc]
        rw [hword cs]
        refine settles_scanWord ['@', c] (by simp) h fun x hx => ?_
        rw [List.cons_append] at hx ⊢
        rw [hscan _ hx, List.cons_append, List.nil_append, hword x]

theorem settles_placeholder (cs : List Char) :
    Settles ('?' :: cs) (sign (String.ofList ('?' :: cs.takeWhile isNumeric)))
      (cs.dropWhile isNumeric) := by
  have hstop := Text.stops_dropWhile (p := isNumeric) cs
  have hrun : ∀ c ∈ cs.takeWhile isNumeric, isNumeric c = true := fun _ => List.mem_takeWhile_imp
  have happ : cs.takeWhile isNumeric ++ cs.dropWhile isNumeric = cs :=
    List.takeWhile_append_dropWhile
  generalize cs.takeWhile isNumeric = run at *
  generalize cs.dropWhile isNumeric = rest at *
  subst happ
  refine ⟨'?' :: run, rfl, ⟨beginsNoOperator_question.stops _ _, ?_⟩, fun y hy => ?_⟩
  · exact ⟨by simp, by simp, fun _ => hstop, by simp⟩
  · have hy' : Stops isNumeric y := hy.2.2.2.1 rfl
    rw [List.cons_append, scan?_of_opensSign (by decide)
      (not_opensComment (by decide) (by decide) _),
      scanSign?_of_none (beginsNoOperator_question.scanOperator? _), if_neg (by decide),
      if_neg (by decide), if_pos rfl, Text.takeWhile_append_of_stops hrun hy',
      Text.dropWhile_append_of_stops hrun hy']

/-- Behind its tag a second dollar sign opens a string. -/
theorem scanDollar?_tag {tag : List Char} (htag : ∀ c ∈ tag, isTagPart c = true)
    (cs : List Char) :
    scanDollar? (tag ++ '$' :: cs) = scanLiteral? (.dollar (String.ofList tag)) cs := by
  have hstop : Stops isTagPart ('$' :: cs) := Text.stops_cons.2 (by decide)
  have htake : (tag ++ '$' :: cs).takeWhile
      (fun c => isAlphabetic c || isNumeric c || c == '_') = tag :=
    Text.takeWhile_append_of_stops htag hstop
  simp only [scanDollar?, htake, List.drop_left]

/-- Without a second dollar sign behind its tag the first one is a sign. -/
theorem scanDollar?_sign {tag rest : List Char} (htag : ∀ c ∈ tag, isTagPart c = true)
    (hrest : Stops isTagPart rest) (hd : rest.head? ≠ some '$') :
    scanDollar? (tag ++ rest) = some (sign (String.ofList ('$' :: tag)), rest) := by
  have htake : (tag ++ rest).takeWhile
      (fun c => isAlphabetic c || isNumeric c || c == '_') = tag :=
    Text.takeWhile_append_of_stops htag hrest
  simp only [scanDollar?, htake, List.drop_left]
  split
  · exact absurd rfl hd
  · rfl

theorem settles_dollar {cs rest : List Char} {t : Token} (h : scanDollar? cs = some (t, rest)) :
    Settles ('$' :: cs) t rest := by
  have hscan : ∀ x, scan? ('$' :: x) = scanDollar? x := by
    intro x
    rw [scan?_of_opensSign (by decide) (not_opensComment (by decide) (by decide) x),
      scanSign?_of_none (beginsNoOperator_dollar.scanOperator? x), if_neg (by decide),
      if_neg (by decide), if_neg (by decide), if_pos rfl]
  have hstop := Text.stops_dropWhile (p := isTagPart) cs
  have hrun : ∀ c ∈ cs.takeWhile isTagPart, isTagPart c = true := fun _ => List.mem_takeWhile_imp
  have happ : cs.takeWhile isTagPart ++ cs.dropWhile isTagPart = cs :=
    List.takeWhile_append_dropWhile
  generalize cs.takeWhile isTagPart = tag at *
  generalize cs.dropWhile isTagPart = behind at *
  subst happ
  by_cases hd : behind.head? = some '$'
  · obtain ⟨more, rfl⟩ := List.head?_eq_some_iff.1 hd
    rw [scanDollar?_tag hrun] at h
    obtain ⟨v, hv, he⟩ := Option.map_eq_some_iff.1 h
    obtain ⟨rfl, rfl⟩ := Prod.mk.inj he
    obtain ⟨a, hmore, -, ha⟩ := literalValue?_settled (v := v.1) hv
    subst hmore
    refine ⟨'$' :: (tag ++ '$' :: a), by simp, ?_, fun y _ => ?_⟩
    · simp [Follows, Closed]
    · have happ : tag ++ '$' :: a ++ y = tag ++ '$' :: (a ++ y) := by simp
      rw [List.cons_append, hscan, happ, scanDollar?_tag hrun]
      simp only [scanLiteral?, ha y trivial]
      rfl
  · rw [scanDollar?_sign hrun hstop hd] at h
    obtain ⟨rfl, rfl⟩ := Prod.mk.inj (Option.some.inj h)
    refine ⟨'$' :: tag, rfl, ⟨beginsNoOperator_dollar.stops _ _, ?_⟩, fun y hy => ?_⟩
    · exact ⟨by simp, by simp, by simp, fun _ => ⟨hstop, hd⟩⟩
    · obtain ⟨htag, hne⟩ := hy.2.2.2.2 rfl
      rw [List.cons_append, hscan, scanDollar?_sign hrun htag hne]

theorem settles_other {c : Char} {cs : List Char} (hc : opensSign c = true)
    (hb : Text.isBlank c = false) (h : scanOperator? (c :: cs) = none)
    (hs : c ∉ ['#', '@', '?', '$']) (hcom : ¬ OpensComment c cs) :
    Settles (c :: cs) (sign (String.ofList [c])) cs := by
  simp only [List.mem_cons, List.not_mem_nil, or_false, not_or] at hs
  obtain ⟨h1, h2, h3, h4⟩ := hs
  have hstop : StopsOperator [c] cs := by
    refine stopsOperator_of_scanOperator? (List.cons_ne_nil _ _) (Or.inl h) ?_ ?_
    · rintro hm hd
      exact hcom (Or.inl ⟨(List.cons.inj hm).1, hd⟩)
    · rintro hm hd
      exact hcom (Or.inr ⟨(List.cons.inj hm).1, hd⟩)
  refine ⟨[c], rfl, ⟨hstop, by simp [StopsSign, h1, h2, h3, h4]⟩, fun y hy => ?_⟩
  have hnone : scanOperator? (c :: y) = none := scanOperator?_append_eq_none (w := [c]) h hy.1
  have hcom' : ¬ OpensComment c y := by
    rintro (⟨rfl, hd⟩ | ⟨rfl, hd⟩)
    · exact (hy.1 _ hd).2.1 ⟨rfl, rfl⟩
    · exact (hy.1 _ hd).2.2 ⟨rfl, rfl⟩
  rw [List.cons_append, List.nil_append, scan?_of_opensSign hc hcom', scanSign?_of_none hnone,
    if_neg h1, if_neg h2, if_neg h3, if_neg h4, hb]
  rfl

/-- A blank other than a space, tab or line end is read as a space. -/
theorem scan?_foreignBlank {c : Char} (hc : opensSign c = true) (hb : Text.isBlank c = true)
    (cs : List Char) : scan? (c :: cs) = some (blank .space, cs) := by
  have hne : ∀ d : Char, Text.isBlank d = false → c ≠ d := by
    rintro d hd rfl
    rw [hd] at hb
    cases hb
  have hno : BeginsNoOperator c := by
    refine ⟨fun entry he hh => ?_, hne _ (by decide), hne _ (by decide)⟩
    rw [(operators_opensSign entry he c hh).2.1] at hb
    cases hb
  rw [scan?_of_opensSign hc (not_opensComment hno.2.1 hno.2.2 cs),
    scanSign?_of_none (hno.scanOperator? cs), if_neg (hne _ (by decide)),
    if_neg (hne _ (by decide)), if_neg (hne _ (by decide)), if_neg (hne _ (by decide)), if_pos hb]

theorem settles_foreignBlank {c : Char} {cs : List Char} (hc : opensSign c = true)
    (hb : Text.isBlank c = true) : Settles (c :: cs) (blank .space) cs :=
  ⟨[c], rfl, trivial, fun y _ => scan?_foreignBlank hc hb y⟩

/-! ## All tokens settle -/

theorem settles_of_scanned {cs rest : List Char} {t : Token} (h : Scanned cs t rest) :
    Settles cs t rest := by
  cases h with
  | space cs => exact ⟨[' '], rfl, trivial, fun y _ => by simp [scan?, scanBlank?]⟩
  | tab cs => exact ⟨['\t'], rfl, trivial, fun y _ => by simp [scan?, scanBlank?]⟩
  | newline cs => exact ⟨['\n'], rfl, by simp [Follows], fun y _ => by simp [scan?, scanBlank?]⟩
  | carriageReturn cs => exact settles_carriageReturn cs
  | literal hc hs hv => exact settles_literal hc hs hv
  | word hc hs => exact settles_word hc hs
  | plain hv => exact settles_plain hv
  | quotedWord hv => exact settles_quotedWord hv
  | number h => exact settles_scannedNumber h
  | lineComment cs => exact settles_lineComment cs
  | blockComment hv => exact settles_blockComment hv
  | operator hp h hd => exact settles_operator hp h hd
  | numberSign h => exact settles_numberSign h
  | atSign h => exact settles_atSign h
  | placeholder cs => exact settles_placeholder cs
  | dollar h => exact settles_dollar h
  | foreignBlank hc hb => exact settles_foreignBlank hc hb
  | other hc hb h hs hcom => exact settles_other hc hb h hs hcom

/-- **What stands behind a scanned token follows it.** -/
theorem follows_of_scan? {w rest : List Char} {t : Token}
    (h : scan? (w ++ rest) = some (t, rest)) : Follows w t rest := by
  obtain ⟨w', hw, hfollows, -⟩ := settles_of_scanned (scanned_of_scan? h)
  rwa [List.append_cancel_right hw]

/-- **A scanned token is scanned again in front of whatever follows it.** -/
theorem scan?_append {w rest y : List Char} {t : Token}
    (h : scan? (w ++ rest) = some (t, rest)) (hy : Follows w t y) :
    scan? (w ++ y) = some (t, y) := by
  obtain ⟨w', hw, -, happ⟩ := settles_of_scanned (scanned_of_scan? h)
  rw [← List.append_cancel_right hw] at happ
  exact happ y hy

/-! ## Blank characters -/

/-- No word goes on with a blank character. -/
theorem isWordPart_of_isBlank {c : Char} (h : Text.isBlank c = true) : isWordPart c = false := by
  have hall : ∀ b ∈ Text.blanks, isWordPart b = false := by decide +kernel
  exact hall c (Text.mem_blanks_of_isBlank h)

/-- A text that begins with a blank character begins with a blank token, which takes that
character and perhaps a newline behind it. -/
theorem exists_scan?_of_isBlank {c : Char} (h : Text.isBlank c = true) (cs : List Char) :
    ∃ t rest, scan? (c :: cs) = some (t, rest) ∧ t.isBlank = true ∧
      (rest = cs ∨ rest = dropNewline cs) := by
  have hall : ∀ d ∈ Text.blanks, d = ' ' ∨ d = '\t' ∨ d = '\n' ∨ d = '\r' ∨
      opensSign d = true := by
    decide +kernel
  rcases hall c (Text.mem_blanks_of_isBlank h) with rfl | rfl | rfl | rfl | hc
  · exact ⟨_, _, rfl, rfl, Or.inl rfl⟩
  · exact ⟨_, _, rfl, rfl, Or.inl rfl⟩
  · exact ⟨_, _, rfl, rfl, Or.inl rfl⟩
  · exact ⟨_, _, rfl, rfl, Or.inr rfl⟩
  · exact ⟨_, _, scan?_foreignBlank hc h cs, rfl, Or.inl rfl⟩

theorem scan?_of_isBlank {c : Char} (h : Text.isBlank c = true) {cs rest : List Char}
    {t : Token} (hs : scan? (c :: cs) = some (t, rest)) :
    t.isBlank = true ∧ (rest = cs ∨ rest = dropNewline cs) := by
  obtain ⟨t', rest', hs', ht', hrest'⟩ := exists_scan?_of_isBlank h cs
  rw [hs] at hs'
  cases hs'
  exact ⟨ht', hrest'⟩

end Token
end SchemaScript
