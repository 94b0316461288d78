import QueryClauses.Proofs.Sql.Conjunction

/-!
# Conditions one by one

Conditions that are added one by one make the statement that they make together: up to its WHERE as
it was, what is left of its predicate and the conditions joined by AND, and the clauses that follow
(`withConditions`). The first condition makes the statement one with a condition
(`conjoins_addCondition`), and the others leave it one (`Conjoins.addCondition`).
-/

namespace QueryClauses.Sql

/-! ## What conditions make -/

/-- A predicate as the first of several conditions: none if it is empty, in parentheses if it has OR
at top level. -/
def conjuncts (predicate : Text) : List Text :=
  if predicate.isEmpty then []
  else if hasKeyword "OR" predicate then ['(' :: (predicate ++ [')'])]
  else [predicate]

/-- The statement with conditions behind its predicate, all joined by AND. -/
def withConditions (conditions : List Text) (s : Text) : Text :=
  followedBy (whereFront s ++ ' ' ::
    " AND ".toList.intercalate (conjuncts (wherePredicate s) ++ conditions)) (cutTail s).2

theorem conjoin_eq_intercalate (predicate condition : Text) :
    conjoin predicate condition = " AND ".toList.intercalate (conjuncts predicate ++ [condition]) := by
  unfold conjoin conjuncts
  split
  · simp
  split
  · simp
  · simp

theorem addCondition_eq_withConditions (condition s : Text) :
    addCondition condition s = withConditions [condition] s := by
  unfold addCondition withConditions whereFront wherePredicate
  cases h : cutKeyword "WHERE" (cutTail s).1 with
  | none => simp [h, splice, conjuncts]
  | some p => simp [h, splice, conjoin_eq_intercalate]

/-! ## The first condition -/

section First

variable {s c : Text} (hs : WellFormed s) (hline : ∀ t ∈ lex s, t.isLineComment = false)
  (hc : IsCondition c)
include hs

theorem cutBefore_rest :
    cutBefore opensTail 0 (cutBefore opensTail 0 (lex s)).2 =
      ([], (cutBefore opensTail 0 (lex s)).2) := by
  rcases cutBefore_snd opensTail 0 (lex s) with hnil | ⟨t, rest, hcons, -, hcut⟩
  · rw [hnil]
    rfl
  · rw [hs.depthFrom_cutBefore] at hcut
    rw [hcons]
    exact hcut

theorem isBalanced_cutBefore : IsBalanced (cutBefore opensTail 0 (lex s)).1 ∧
    IsBalanced (cutBefore opensTail 0 (lex s)).2 := by
  apply IsBalanced.of_append
  · rw [cutBefore_append]
    exact hs.balanced
  · exact hs.depthFrom_cutBefore opensTail

theorem topWords_eq_cutBefore : topWords s =
    topWordsFrom 0 (cutBefore opensTail 0 (lex s)).1 ++
      topWordsFrom 0 (cutBefore opensTail 0 (lex s)).2 := by
  have happ := topWordsFrom_append 0 (cutBefore opensTail 0 (lex s)).1
    (cutBefore opensTail 0 (lex s)).2
  rwa [cutBefore_append, (isBalanced_cutBefore hs).1.depthFrom_eq] at happ

include hline hc

/-- A statement with a condition, from the elements that stand in front of the condition. -/
theorem conjunction_of_leadTokens {front body : List Token}
    (hlead : leadTokens (cutBefore opensTail 0 (lex s)).1 = front ++ blank ' ' :: body)
    (hcomment : ∀ t ∈ front ++ body, t.isLineComment = false) (hends : EndsOnWhere front)
    (hfront : IsBalanced front) (hbody : IsBalanced body) (htrimmed : Trimmed (body ++ lex c))
    (hor : ∀ w ∈ topWordsFrom 0 body, isKeyword "OR" w = false)
    (hnone : noneOpens opensTail (topWordsFrom 0 (cutBefore opensTail 0 (lex s)).2).head?
      (topWordsFrom 0 front ++ (topWordsFrom 0 body ++ topWordsFrom 0 (lex c))) = true) :
    Conjunction front (body ++ lex c) (cutBefore opensTail 0 (lex s)).2 (addCondition c s) := by
  have hclosed : ∀ t ∈ lex c, t.isClosed = true := fun t ht =>
    Token.isClosed_of_isTame (hc.tame t ht)
  obtain ⟨hlex, hleadClosed⟩ := lex_conditionLead hs (endsInLineComment_cutTail hline)
  rw [hlex, hlead] at hleadClosed
  have hlex' : lex (addCondition c s) = front ++ blank ' ' ::
      (body ++ lex c ++ follow (cutBefore opensTail 0 (lex s)).2) := by
    rw [lex_addCondition hs (endsInLineComment_cutTail hline) hclosed, hlex, hlead]
    simp
  have hwords : topWordsFrom 0 (body ++ lex c) = topWordsFrom 0 body ++ topWordsFrom 0 (lex c) := by
    rw [topWordsFrom_append, hbody.depthFrom_eq]
  refine
    { lex_eq := hlex'
      ends := hends
      balanced_front := hfront
      balanced_body := hbody.append hc.balanced
      balanced_rest := (isBalanced_cutBefore hs).2
      trimmed := htrimmed
      cut_rest := cutBefore_rest hs
      noneOpens := by rw [hwords]; exact hnone
      closed := ?_
      noOr := ?_ }
  · intro t ht
    rw [hlex'] at ht
    have hmem : t ∈ front ++ body ∨ t = blank ' ' ∨ t ∈ lex c ∨
        t ∈ (cutBefore opensTail 0 (lex s)).2 := by
      rw [follow_eq] at ht
      simp only [List.mem_append, List.mem_cons] at ht ⊢
      have hgap : t ∈ gap (cutBefore opensTail 0 (lex s)).2 → t = blank ' ' := by
        cases (cutBefore opensTail 0 (lex s)).2 with
        | nil => simp [gap]
        | cons u rest => simp [gap]
      tauto
    rcases hmem with ht | rfl | ht | ht
    · refine ⟨hleadClosed t ?_, hcomment t ht⟩
      simp only [List.mem_append, List.mem_cons] at ht ⊢
      tauto
    · exact ⟨rfl, rfl⟩
    · exact ⟨hclosed t ht, isLineComment_of_isTame ht (hc.tame t ht)⟩
    · have hmem := mem_lex_of_mem_cutBefore_snd opensTail ht
      have hl := hline t hmem
      exact ⟨(hs.closed t hmem).resolve_right (by simp [hl]), hl⟩
  · intro w hw
    rw [hwords] at hw
    rcases List.mem_append.1 hw with hw | hw
    · exact hor w hw
    · rw [hc.words w hw]
      rfl

end First

/-! ## The predicate in front of a condition -/

theorem isBalanced_trimBlanks {ts : List Token} (h : IsBalanced ts) :
    IsBalanced (trimBlanks ts) ∧ topWordsFrom 0 (trimBlanks ts) = topWordsFrom 0 ts := by
  obtain ⟨hwords, hdepth⟩ := topWordsFrom_dropWhile 0 ts
  obtain ⟨hwords', hdepth'⟩ := topWordsFrom_rdropWhile 0 (ts.dropWhile Token.isBlank)
  refine ⟨?_, hwords'.trans hwords⟩
  have hblanks : ∀ t ∈ ts.takeWhile Token.isBlank, t.kind = .other ∨ t.kind = .comment :=
    fun t ht => .inl (kind_of_isBlank (List.mem_takeWhile_imp ht))
  have hfront := (topWordsFrom_of_forall hblanks 0).2
  rw [← List.takeWhile_append_dropWhile (p := Token.isBlank) (l := ts)] at h
  have hdrop := (h.of_append hfront).2
  rw [← List.rdropWhile_append_rtakeWhile (p := Token.isBlank) (l := ts.dropWhile _)] at hdrop
  refine (hdrop.of_append ?_).1
  rw [List.rdropWhile_append_rtakeWhile] at hdrop
  rw [hdepth']
  exact hdrop.depthFrom_eq

/-- A predicate that conditions are joined to: balanced, without OR at top level, and with its words
at top level, if it is not in parentheses, in front of the AND. -/
theorem conjunctTokens_spec {p : List Token} (h : IsBalanced p) (hp : p ≠ [] → Trimmed p) :
    IsBalanced (conjunctTokens p) ∧
      (∀ w ∈ topWordsFrom 0 (conjunctTokens p), isKeyword "OR" w = false) ∧
      (∀ ts, Trimmed (conjunctTokens p ++ group ts)) ∧
      ((∀ w ∈ topWordsFrom 0 (conjunctTokens p), w = "AND".toList) ∨
        topWordsFrom 0 (conjunctTokens p) = topWordsFrom 0 p ++ ["AND".toList]) := by
  have hand : IsBalanced (spaced "AND") := by decide
  have hands : topWordsFrom 0 (spaced "AND") = ["AND".toList] := by decide
  unfold conjunctTokens
  by_cases hnil : p = []
  · rw [if_pos hnil]
    exact ⟨rfl, by simp [topWordsFrom], fun ts => trimmed_group ts, .inl (by simp [topWordsFrom])⟩
  rw [if_neg hnil]
  by_cases hor : (topWordsFrom 0 p).any (isKeyword "OR") = true
  · rw [if_pos hor]
    have hwords : topWordsFrom 0 (group p ++ spaced "AND") = ["AND".toList] := by
      rw [topWordsFrom_append, topWordsFrom_group h, h.group.depthFrom_eq, hands]
      rfl
    rw [hwords]
    refine ⟨h.group.append hand, ?_, fun ts => (trimmed_group p).append (trimmed_group ts) _,
      .inl (by simp)⟩
    intro w hw
    rw [List.mem_singleton.1 hw]
    rfl
  · rw [if_neg hor]
    have hwords : topWordsFrom 0 (p ++ spaced "AND") = topWordsFrom 0 p ++ ["AND".toList] := by
      rw [topWordsFrom_append, h.depthFrom_eq, hands]
    refine ⟨h.append hand, ?_, fun ts => (hp hnil).append (trimmed_group ts) _, .inr hwords⟩
    rw [hwords]
    intro w hw
    rcases List.mem_append.1 hw with hw | hw
    · rw [Bool.not_eq_true, List.any_eq_false] at hor
      simpa using hor w hw
    · rw [List.mem_singleton.1 hw]
      rfl

/-! ## Conditions one by one -/

/-- How many words are WHERE. -/
def whereCount (ws : List Text) : Nat := ws.countP (isKeyword "WHERE")

@[simp] theorem whereCount_append (u v : List Text) :
    whereCount (u ++ v) = whereCount u + whereCount v := List.countP_append

theorem whereCount_of_forall {ws : List Text} (h : ∀ w ∈ ws, w = "AND".toList) :
    whereCount ws = 0 := by
  rw [whereCount, List.countP_eq_zero]
  intro w hw
  rw [h w hw]
  decide

theorem Conjunction.topWords_eq {front body rest : List Token} {s : Text}
    (h : Conjunction front body rest s) :
    topWords s = topWordsFrom 0 front ++ topWordsFrom 0 body ++ topWordsFrom 0 rest := by
  have hgap := isBalanced_gap rest
  rw [topWords, h.lex_eq, follow_eq, topWordsFrom_append, h.balanced_front.depthFrom_eq,
    topWordsFrom_blank, topWordsFrom_append, h.balanced_body.depthFrom_eq, topWordsFrom_append,
    hgap.depthFrom_eq, topWordsFrom_gap, List.nil_append, List.append_assoc]

/-- What conditions that were added to a statement made of it: up to the WHERE and from the clauses
that follow on it is as it was, and between them are what is left of the predicate and the
conditions, joined by AND. No further WHERE came in if there was one. -/
def Conjoins (s : Text) (conditions : List Text) (s' : Text) : Prop :=
  ∃ front body rest, Conjunction front body rest s' ∧ textOf front = whereFront s ∧
    textOf body = " AND ".toList.intercalate (conjuncts (wherePredicate s) ++ conditions) ∧
    textOf rest = (cutTail s).2 ∧
    whereCount (topWords s') ≤
      whereCount (topWords s) + if (cutKeyword "WHERE" (cutTail s).1).isSome then 0 else 1

section Where

variable {s c : Text} {front predicate : List Token} (hs : WellFormed s)
  (hline : ∀ t ∈ lex s, t.isLineComment = false) (hc : IsCondition c)
  (hcut : cutAfter "WHERE" 0 (cutBefore opensTail 0 (lex s)).1 = some (front, predicate))
include hcut

theorem mem_lex_of_cutAfter {t : Token} (ht : t ∈ front ++ predicate) : t ∈ lex s := by
  rw [cutAfter_append hcut] at ht
  exact mem_lex_of_mem_cutBefore_fst opensTail ht

theorem cutKeyword_of_cutAfter :
    cutKeyword "WHERE" (cutTail s).1 = some (textOf front, textOf predicate) := by
  rw [cutKeyword_cutTail, hcut]
  rfl

theorem whereFront_of_cutAfter : whereFront s = textOf front := by
  obtain ⟨a, w, hfront, hw, -⟩ := endsOnWhere_of_cutAfter hcut
  have hlexed := lex_cutTail_fst s
  rw [cutTail, ← cutAfter_append hcut] at hlexed
  have hlexedFront := lex_textOf_prefix hlexed
  rw [whereFront, cutKeyword_of_cutAfter hcut]
  rw [hfront] at hlexedFront ⊢
  exact trimEnd_textOf_of_isTopWord hlexedFront hw

include hs hline

theorem lex_wherePredicate : lex (wherePredicate s) = trimBlanks predicate := by
  have hlexed := lex_cutTail_fst s
  rw [cutTail, ← cutAfter_append hcut] at hlexed
  have hpredicate := lex_textOf_suffix hlexed
  have hmem : ∀ t ∈ lex (textOf predicate), t ∈ lex s := by
    intro t ht
    rw [hpredicate] at ht
    exact mem_lex_of_cutAfter hcut (List.mem_append_right _ ht)
  rw [wherePredicate, cutKeyword_of_cutAfter hcut]
  refine (lex_trim (fun t ht => hs.closed t (hmem t ht)) ?_).trans (by rw [hpredicate])
  exact endsInLineComment_of_forall fun t ht => hline t (hmem t ht)

theorem textOf_conjunctTokens_append : textOf (conjunctTokens (trimBlanks predicate) ++ lex c) =
    " AND ".toList.intercalate (conjuncts (wherePredicate s) ++ [c]) := by
  have hpredicate := lex_wherePredicate hs hline hcut
  have hclosed : ∀ t ∈ lex (wherePredicate s), t.isClosed = true := by
    intro t ht
    rw [hpredicate] at ht
    have hmem := mem_lex_of_cutAfter hcut (List.mem_append_right front (mem_of_mem_trimBlanks ht))
    exact (hs.closed t hmem).resolve_right (by simp [hline t hmem])
  have hjoined := congrArg textOf (lex_conjoin hclosed)
  rw [textOf_lex, hpredicate] at hjoined
  rw [textOf_append, ← hjoined, textOf_lex, ← conjoin_eq, conjoin_eq_intercalate]

omit hs in
theorem isLineComment_of_mem_conjunctTokens :
    ∀ t ∈ front ++ conjunctTokens (trimBlanks predicate), t.isLineComment = false := by
  intro t ht
  rcases List.mem_append.1 ht with ht | ht
  · exact hline t (mem_lex_of_cutAfter hcut (List.mem_append_left _ ht))
  · rcases mem_conjunctTokens ht with ht | ht
    · exact hline t (mem_lex_of_cutAfter hcut (List.mem_append_right _ (mem_of_mem_trimBlanks ht)))
    · exact ht.2

include hc

/-- The first condition of a statement with a WHERE. -/
theorem conjoins_of_where : Conjoins s [c] (addCondition c s) := by
  have hends := endsOnWhere_of_cutAfter hcut
  have hbefore := (isBalanced_cutBefore hs).1
  have hopens := @noneOpens_cutBefore opensTail 0 (lex s)
  have htopWords := topWords_eq_cutBefore hs
  rw [hbefore.depthFrom_eq] at hopens
  rw [← cutAfter_append hcut] at hbefore hopens htopWords
  rw [topWordsFrom_append, hends.depthFrom_eq] at hopens htopWords
  obtain ⟨hbalancedFront, hbalancedPredicate⟩ := hbefore.of_append hends.depthFrom_eq
  -- The predicate without the blanks around it is what the condition is joined to.
  obtain ⟨hbalanced, hwords⟩ := isBalanced_trimBlanks hbalancedPredicate
  obtain ⟨hbalancedBody, hor, htrimmed, hbody⟩ := conjunctTokens_spec hbalanced trimmed_trimBlanks
  rw [hwords] at hbody
  have hlead : leadTokens (cutBefore opensTail 0 (lex s)).1 =
      front ++ blank ' ' :: conjunctTokens (trimBlanks predicate) := by
    rw [leadTokens, hcut]
  obtain ⟨g, hg⟩ := hc.grouped
  have hconj := conjunction_of_leadTokens hs hline hc hlead
    (isLineComment_of_mem_conjunctTokens hline hcut) hends hbalancedFront hbalancedBody
    (by rw [hg]; exact htrimmed g) hor (hends.noneOpens hopens hbody hc.words)
  refine ⟨front, _, _, hconj, (whereFront_of_cutAfter hcut).symm,
    textOf_conjunctTokens_append hs hline hcut, rfl, ?_⟩
  have hbodyCount : whereCount (topWordsFrom 0 (conjunctTokens (trimBlanks predicate))) ≤
      whereCount (topWordsFrom 0 predicate) := by
    rcases hbody with hands | hbody
    · rw [whereCount_of_forall hands]
      exact Nat.zero_le _
    · rw [hbody, whereCount_append]
      exact Nat.le_refl _
  rw [hconj.topWords_eq, htopWords, cutKeyword_of_cutAfter hcut, topWordsFrom_append,
    hbalancedBody.depthFrom_eq]
  have hcount := whereCount_of_forall hc.words
  simp only [whereCount_append, Option.isSome_some, if_true]
  omega

end Where

/-- The elements of a statement without a WHERE up to the one that is made. -/
def madeFront (s : Text) : List Token :=
  (cutBefore opensTail 0 (lex s)).1.rdropWhile Token.isBlank ++ [blank ' ', word "WHERE".toList]

section NoWhere

variable {s c : Text} (hs : WellFormed s) (hline : ∀ t ∈ lex s, t.isLineComment = false)
  (hc : IsCondition c) (hcut : cutAfter "WHERE" 0 (cutBefore opensTail 0 (lex s)).1 = none)
include hs

theorem topWordsFrom_dropBlanks :
    topWordsFrom 0 ((cutBefore opensTail 0 (lex s)).1.rdropWhile Token.isBlank) =
        topWordsFrom 0 (cutBefore opensTail 0 (lex s)).1 ∧
      depthFrom 0 ((cutBefore opensTail 0 (lex s)).1.rdropWhile Token.isBlank) = 0 := by
  obtain ⟨hwords, hdepth⟩ := topWordsFrom_rdropWhile 0 (cutBefore opensTail 0 (lex s)).1
  rw [(isBalanced_cutBefore hs).1.depthFrom_eq] at hdepth
  exact ⟨hwords, hdepth⟩

theorem topWordsFrom_madeFront : topWordsFrom 0 (madeFront s) =
    topWordsFrom 0 (cutBefore opensTail 0 (lex s)).1 ++ ["WHERE".toList] := by
  obtain ⟨hwords, hdepth⟩ := topWordsFrom_dropBlanks hs
  rw [madeFront, topWordsFrom_append, hdepth, hwords]
  rfl

theorem isBalanced_madeFront : IsBalanced (madeFront s) := by
  have hbefore := (isBalanced_cutBefore hs).1
  rw [← List.rdropWhile_append_rtakeWhile (p := Token.isBlank)
    (l := (cutBefore opensTail 0 (lex s)).1)] at hbefore
  exact (hbefore.of_append (topWordsFrom_dropBlanks hs).2).1.append (by decide)

include hcut

theorem endsOnWhere_madeFront : EndsOnWhere (madeFront s) := by
  obtain ⟨hwords, hdepth⟩ := topWordsFrom_dropBlanks hs
  refine ⟨(cutBefore opensTail 0 (lex s)).1.rdropWhile Token.isBlank ++ [blank ' '],
    word "WHERE".toList, by simp [madeFront], ?_, rfl, ?_⟩
  · rw [depthFrom_append, hdepth]
    rfl
  · rw [cutAfter_eq_none_iff, topWordsFrom_append, hdepth, hwords]
    simpa [topWordsFrom, Token.isTopWord, blank] using cutAfter_eq_none_iff.1 hcut

include hline

theorem whereFront_eq_madeFront : whereFront s = textOf (madeFront s) := by
  have hclosed : ∀ t ∈ lex (cutTail s).1, t.isClosed = true ∨ t.isLineComment = true := by
    intro t ht
    rw [lex_cutTail_fst] at ht
    exact hs.closed t (mem_lex_of_mem_cutBefore_fst opensTail ht)
  have htrim := lex_trimEnd hclosed (endsInLineComment_cutTail hline)
  rw [lex_cutTail_fst] at htrim
  rw [whereFront, cutKeyword_cutTail, hcut, madeFront, textOf_append, ← htrim, textOf_lex]
  rfl

include hc

/-- The first condition of a statement without a WHERE. -/
theorem conjoins_of_no_where : Conjoins s [c] (addCondition c s) := by
  have hkeyword : cutKeyword "WHERE" (cutTail s).1 = none := by
    rw [cutKeyword_cutTail, hcut]
    rfl
  have hlead : leadTokens (cutBefore opensTail 0 (lex s)).1 = madeFront s ++ [blank ' '] := by
    rw [leadTokens, hcut]
    simp [madeFront, spaced, word]
  have hcomment : ∀ t ∈ madeFront s ++ [], t.isLineComment = false := by
    intro t ht
    rw [List.append_nil] at ht
    rcases List.mem_append.1 ht with ht | ht
    · exact hline t (mem_lex_of_mem_cutBefore_fst opensTail
        ((List.rdropWhile_prefix _ _).subset ht))
    · have hall : ∀ t ∈ [blank ' ', word "WHERE".toList], t.isLineComment = false := by decide
      exact hall t ht
  have hopens := @noneOpens_cutBefore opensTail 0 (lex s)
  rw [(isBalanced_cutBefore hs).1.depthFrom_eq] at hopens
  have hnoneOpens : noneOpens opensTail (topWordsFrom 0 (cutBefore opensTail 0 (lex s)).2).head?
      (topWordsFrom 0 (madeFront s) ++ (topWordsFrom 0 [] ++ topWordsFrom 0 (lex c))) = true := by
    rw [topWordsFrom_madeFront hs, List.append_assoc, noneOpens_append, Bool.and_eq_true]
    refine ⟨noneOpens_mono hopens fun v hv => opensTail_of_some rfl rfl _ hv, ?_⟩
    refine noneOpens_of_forall (List.forall_mem_cons.2 ⟨.inl rfl, fun v hv => ?_⟩) _
    exact .inr (hc.words v hv)
  obtain ⟨g, hg⟩ := hc.grouped
  have hconj := conjunction_of_leadTokens hs hline hc hlead hcomment
    (endsOnWhere_madeFront hs hcut) (isBalanced_madeFront hs) rfl
    (by rw [hg]; exact trimmed_group g) (by simp [topWordsFrom]) hnoneOpens
  refine ⟨_, _, _, hconj, (whereFront_eq_madeFront hs hline hcut).symm, ?_, rfl, ?_⟩
  · simp [wherePredicate, hkeyword, conjuncts]
  · have hone : whereCount ["WHERE".toList] = 1 := by decide
    rw [hconj.topWords_eq, topWords_eq_cutBefore hs, hkeyword, topWordsFrom_madeFront hs,
      List.nil_append]
    simp only [whereCount_append, whereCount_of_forall hc.words, hone, Option.isSome_none]
    rw [if_neg Bool.false_ne_true]
    omega

end NoWhere

/-- The first condition of a statement. -/
theorem conjoins_addCondition {s c : Text} (hs : WellFormed s)
    (hline : ∀ t ∈ lex s, t.isLineComment = false) (hc : IsCondition c) :
    Conjoins s [c] (addCondition c s) := by
  cases hcut : cutAfter "WHERE" 0 (cutBefore opensTail 0 (lex s)).1 with
  | none => exact conjoins_of_no_where hs hline hc hcut
  | some p => exact conjoins_of_where hs hline hc hcut

theorem intercalate_append_singleton (sep c : Text) {parts : List Text} (h : parts ≠ []) :
    sep.intercalate (parts ++ [c]) = sep.intercalate parts ++ sep ++ c := by
  induction parts with
  | nil => exact absurd rfl h
  | cons part parts ih =>
    cases parts with
    | nil => simp
    | cons part' parts =>
      have ih := ih (List.cons_ne_nil part' parts)
      rw [List.cons_append, List.cons_append, List.intercalate_cons_cons, ← List.cons_append, ih,
        List.intercalate_cons_cons]
      simp

section Further

variable {s s' : Text} {conditions : List Text} (h : Conjoins s conditions s')
include h

/-- A further condition of a statement. -/
theorem Conjoins.addCondition {c : Text} (hc : IsCondition c) (hne : conditions ≠ []) :
    Conjoins s (conditions ++ [c]) (addCondition c s') := by
  obtain ⟨front, body, rest, hconj, hfront, hbody, hrest, hcount⟩ := h
  have hconj' := hconj.addCondition hc
  have hands : IsBalanced (spaced "AND") := by decide
  refine ⟨front, _, rest, hconj', hfront, ?_, hrest, ?_⟩
  · rw [← List.append_assoc, intercalate_append_singleton _ _ (by simp [hne]), ← hbody,
      textOf_append, textOf_append, textOf_lex]
    rfl
  · rw [hconj.topWords_eq] at hcount
    rw [hconj'.topWords_eq, topWordsFrom_append, topWordsFrom_append,
      (hconj.balanced_body.append hands).depthFrom_eq, hconj.balanced_body.depthFrom_eq]
    have hand : whereCount (topWordsFrom 0 (spaced "AND")) = 0 := by decide
    simp only [whereCount_append, hand, whereCount_of_forall hc.words] at hcount ⊢
    exact hcount

/-- The text that conditions make. -/
theorem Conjoins.eq_withConditions : s' = withConditions conditions s := by
  obtain ⟨front, body, rest, hconj, hfront, hbody, hrest, -⟩ := h
  have hblank : ∀ t ∈ rest.head?, t.isBlank = false := by
    have := @isBlank_cutBefore_snd opensTail s'
    rwa [hconj.cutBefore_lex] at this
  rw [withConditions, ← hfront, ← hbody, ← hrest, followedBy_textOf _ hconj.lexed_rest hblank,
    ← textOf_lex s', hconj.lex_eq]
  simp [blank]

end Further

end QueryClauses.Sql
