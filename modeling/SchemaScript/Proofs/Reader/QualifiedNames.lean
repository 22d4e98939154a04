import SchemaScript.Proofs.Reader.Bounded

/-!
# The tokens of a qualified name

A further part of a qualified name is a period with a name behind it, and there may be blanks
around the period (`IsPart`). A qualified name is a name with any number of further parts
(`IsQualifiedName`).

A further part is read off tokens of this form and off no others (`run_qualifiedPart_iff`). A
qualified name is read as far as it goes: what is taken ends in the tokens of a name, and no
further part stands behind it, so that a period that no name follows is left where it is
(`exists_isQualifiedName_append`). Only tokens that begin with no name have no answer, and they
are left as they are (`run_qualifiedName_of_none`).
-/

namespace SchemaScript
namespace Reader

open Token (AllBlank exists_allBlank_append isMark_iff)

variable {t : Token} {ts us : List Token} {n : String}

/-! ## The tokens of qualified names -/

/-- A period with a name behind it, and blanks in front of both. -/
inductive IsPart : List Token → String → Prop where
  | period {before behind us : List Token} {n : String} (hbefore : AllBlank before)
    (hbehind : AllBlank behind) (h : IsName us n) :
    IsPart (before ++ .mark .period :: (behind ++ us)) n

/-- The tokens of a qualified name, and its last part. -/
inductive IsQualifiedName : List Token → String → Prop where
  | name {us : List Token} {n : String} (h : IsName us n) : IsQualifiedName us n
  | part {us vs : List Token} {m n : String} (h : IsQualifiedName us m) (hpart : IsPart vs n) :
    IsQualifiedName (us ++ vs) n

/-! ## One part -/

/-- **A further part is read off a period with a name behind it**, and off nothing else. -/
theorem run_qualifiedPart_iff {rest : List Token} :
    qualifiedPart.run ts = (some n, rest) ↔ ∃ us, ts = us ++ rest ∧ IsPart us n := by
  constructor
  · intro h
    obtain ⟨_, mid, hmid, h⟩ := exists_of_run_bind h
    obtain ⟨period, mid', hperiod, h⟩ := exists_of_run_bind h
    cases period with
    | false => cases h
    | true =>
      obtain ⟨t, us, rfl, rfl, ht⟩ := exists_of_run_sees hperiod
      obtain rfl := isMark_iff.1 ht
      obtain ⟨_, mid, hadvance, h⟩ := exists_of_run_bind h
      obtain ⟨before, hbefore, hts⟩ := exists_allBlank_append ts
      obtain ⟨behind, hbehind, hus⟩ := exists_allBlank_append us
      have hdrop : ts.dropWhile Token.isBlank = .mark .period :: us := congrArg Prod.snd hmid
      obtain rfl : us.dropWhile Token.isBlank = mid := congrArg Prod.snd hadvance
      obtain ⟨vs, hvs, hname⟩ := run_name_iff.1 h
      refine ⟨_, ?_, .period hbefore hbehind hname⟩
      rw [hts, hdrop, List.append_assoc, List.cons_append, List.append_assoc, ← hvs, ← hus]
  · rintro ⟨_, rfl, h⟩
    cases h with
    | @period before behind us _ hbefore hbehind h =>
      have hskip :
          (before ++ Token.mark .period :: (behind ++ us) ++ rest).dropWhile Token.isBlank =
            Token.mark .period :: (behind ++ (us ++ rest)) := by
        rw [List.append_assoc, List.cons_append, List.append_assoc]
        exact dropWhile_isBlank_append hbefore fun t ht => by cases ht; rfl
      have hadvance : advancePastBlanks.run (Token.mark .period :: (behind ++ (us ++ rest))) =
          (some (), us ++ rest) := by
        rw [run_advancePastBlanks, List.tail_cons,
          dropWhile_isBlank_append hbehind (h.isBlank_head rest)]
      rw [qualifiedPart, run_bind_of_some (run_skipBlanks _), hskip,
        run_bind_of_some (run_seesMark _ _ _)]
      exact (run_bind_of_some hadvance _).trans (run_name_iff.2 ⟨us, rfl, h⟩)

/-! ## All parts -/

/-- Reading goes on from part to part, and ends where no further part stands. -/
theorem exists_run_loop_qualifiedRound {last : String} (h : IsQualifiedName us last)
    (ts : List Token) :
    ∃ n vs rest, (loop qualifiedRound last).run ts = (some n, rest) ∧ ts = vs ++ rest ∧
      IsQualifiedName (us ++ vs) n ∧ (qualifiedPart.run rest).1 = none := by
  induction hlength : ts.length using Nat.strongRecOn generalizing us last ts with
  | _ length ih =>
    cases hpart : (qualifiedPart.run ts).1 with
    | none =>
      have hloop := run_loop_inr (run_qualifiedRound_of_none last hpart)
      exact ⟨last, [], ts, hloop, rfl, by rwa [List.append_nil], hpart⟩
    | some m =>
      have hrun : qualifiedPart.run ts = (some m, (qualifiedPart.run ts).2) := Prod.ext hpart rfl
      have hlt : (qualifiedPart.run ts).2.length < ts.length :=
        takes_qualifiedPart ts m hpart trivial
      obtain ⟨vs, hvs, hm⟩ := run_qualifiedPart_iff.1 hrun
      obtain ⟨n, ws, rest, hloop, hws, hn, hend⟩ := ih _ (hlength ▸ hlt) (h.part hm) _ rfl
      refine ⟨n, vs ++ ws, rest, ?_, ?_, ?_, hend⟩
      · rw [run_loop_inl (run_qualifiedRound_of_some last hrun) hlt, hloop]
      · rw [List.append_assoc, ← hws, ← hvs]
      · rwa [← List.append_assoc]

/-- **A qualified name is read as far as it goes**, and ends in a name. -/
theorem exists_isQualifiedName_append {rest : List Token}
    (h : qualifiedName.run ts = (some n, rest)) :
    ∃ us, ts = us ++ rest ∧ IsQualifiedName us n ∧
      ∀ vs m, IsPart vs m → ¬ vs <+: rest := by
  obtain ⟨first, mid, hname, hloop⟩ := exists_of_run_bind h
  obtain ⟨us, rfl, hfirst⟩ := run_name_iff.1 hname
  obtain ⟨n', vs, rest', hrun, rfl, hn, hend⟩ := exists_run_loop_qualifiedRound (.name hfirst) mid
  obtain ⟨rfl, rfl⟩ : n = n' ∧ rest = rest' := by simpa using hloop.symm.trans hrun
  refine ⟨us ++ vs, (List.append_assoc ..).symm, hn, ?_⟩
  rintro ws m hws ⟨more, rfl⟩
  rw [run_qualifiedPart_iff.2 ⟨ws, rfl, hws⟩] at hend
  cases hend

/-- What begins with no name is no qualified name, and is left as it is. -/
theorem run_qualifiedName_of_none {rest : List Token} (h : qualifiedName.run ts = (none, rest)) :
    rest = ts := by
  cases hname : name.run ts with
  | mk first mid =>
    cases first with
    | none =>
      rw [qualifiedName, run_bind_of_none hname] at h
      cases h
      exact run_name_of_none hname
    | some first =>
      obtain ⟨us, -, hfirst⟩ := run_name_iff.1 hname
      obtain ⟨n, vs, rest', hrun, -⟩ := exists_run_loop_qualifiedRound (.name hfirst) mid
      rw [run_qualifiedName_of_name hname, hrun] at h
      cases h

end Reader
end SchemaScript
