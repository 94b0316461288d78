import QueryClauses.Proofs.Sql.Conjoining

/-!
# Conditions that stay whole

A condition that was added to a well-formed statement stays there element by element when further
conditions are added (`infix_lex_addCondition`): where the statement is cut for them, it is never cut
within a condition, since the only words of a condition at top level are ANDs. The statement stays
well-formed (`WellFormed.addCondition`).
-/

namespace QueryClauses.Sql

variable {s c d : Text}

/-- Where a list is cut, a part of it lies on one side, or the cut goes through it. -/
theorem infix_of_append_eq {α : Type} {a b x y p : List α} (h : a ++ b = x ++ p ++ y) :
    p <:+: a ∨ p <:+: b ∨
      ∃ u v, u ≠ [] ∧ v ≠ [] ∧ p = u ++ v ∧ a = x ++ u ∧ b = v ++ y := by
  rw [List.append_assoc] at h
  rcases List.append_eq_append_iff.1 h with ⟨z, -, hb⟩ | ⟨u, rfl, hpy⟩
  · exact .inr (.inl ⟨z, y, by rw [hb, List.append_assoc]⟩)
  rcases List.append_eq_append_iff.1 hpy with ⟨z, hu, -⟩ | ⟨v, hp, hb⟩
  · exact .inl ⟨x, z, by rw [hu, List.append_assoc]⟩
  by_cases hu : u = []
  · subst hu
    exact .inr (.inl ⟨[], y, by rw [hb, hp]; rfl⟩)
  by_cases hv : v = []
  · subst hv
    exact .inl ⟨x, [], by rw [hp]; simp⟩
  exact .inr (.inr ⟨u, v, hu, hv, hp, rfl, hb⟩)

/-! ## Words of a condition at top level -/

theorem IsBalanced.depthFrom_nonneg {a b : List Token} (h : IsBalanced (a ++ b)) :
    0 ≤ depthFrom 0 a := by
  rw [IsBalanced, Sql.open?_append] at h
  cases ha : open? 0 a with
  | none =>
    rw [ha] at h
    cases h
  | some n =>
    have := depthFrom_of_open? ha
    rw [Int.natCast_zero] at this
    omega

theorem opensTail_and (next : Option Text) : opensTail "AND".toList next = false := by
  have h := @noneOpens_of_forall ["AND".toList] (by simp) next
  simpa [noneOpens] using h

section Condition

variable (hc : IsCondition c)
include hc

theorem IsCondition.ne_nil : lex c ≠ [] := by
  obtain ⟨g, hg⟩ := hc.grouped
  rw [hg]
  exact List.cons_ne_nil _ _

theorem IsCondition.trimmed : Trimmed (lex c) := by
  obtain ⟨g, hg⟩ := hc.grouped
  rw [hg]
  exact trimmed_group g

/-- Wherever a condition stands, its words at top level are ANDs. -/
theorem IsCondition.eq_and {n : Int} (hn : 0 ≤ n) {a b : List Token} {w : Token}
    (h : lex c = a ++ w :: b) (hw : w.isTopWord (depthFrom n a) = true) : w.text = "AND".toList := by
  have hmem : w.text ∈ topWordsFrom n (lex c) := by
    rw [h, topWordsFrom_append, topWordsFrom, if_pos hw]
    exact List.mem_append_right _ List.mem_cons_self
  rcases Int.le_iff_lt_or_eq.1 hn with hpos | rfl
  · have hnone := topWordsFrom_of_open? hc.balanced hpos
    rw [Int.natCast_zero, Int.zero_add] at hnone
    rw [hnone] at hmem
    cases hmem
  · exact hc.words _ hmem

/-! ## Cuts beside a condition -/

theorem infix_cutBefore {ts : List Token} (hts : IsBalanced ts) (h : lex c <:+: ts) :
    lex c <:+: (cutBefore opensTail 0 ts).1 ∨ lex c <:+: (cutBefore opensTail 0 ts).2 := by
  obtain ⟨x, y, hxy⟩ := h
  have happ := cutBefore_append opensTail 0 ts
  rcases infix_of_append_eq (happ.trans hxy.symm) with h | h | ⟨u, v, -, hv, hcut, hfst, hsnd⟩
  · exact .inl h
  · exact .inr h
  exfalso
  obtain ⟨w, v, rfl⟩ := List.exists_cons_of_ne_nil hv
  rcases cutBefore_snd opensTail 0 ts with hnil | ⟨t, rest, hcons, htop, hopens⟩
  · rw [hnil] at hsnd
    cases hsnd
  rw [hcons] at hsnd
  cases hsnd
  have hnonneg : 0 ≤ depthFrom 0 x := by
    rw [← hxy, List.append_assoc] at hts
    exact hts.depthFrom_nonneg
  rw [hfst, depthFrom_append] at htop hopens
  have hand := hc.eq_and hnonneg hcut htop
  simp only [cutBefore, hand, opensTail_and, Bool.and_false, Bool.false_eq_true, if_false,
    Prod.mk.injEq, reduceCtorEq, false_and] at hopens

theorem infix_cutAfter {ts front predicate : List Token} (hts : IsBalanced ts)
    (hcut : cutAfter "WHERE" 0 ts = some (front, predicate)) (h : lex c <:+: ts) :
    lex c <:+: front ∨ lex c <:+: predicate := by
  obtain ⟨x, y, hxy⟩ := h
  have happ : front ++ predicate = ts := cutAfter_append hcut
  rcases infix_of_append_eq (happ.trans hxy.symm) with h | h | ⟨u, v, hu, -, hsplit, hfst, -⟩
  · exact .inl h
  · exact .inr h
  exfalso
  obtain ⟨a, w, hfront, htop, hk, -⟩ := cutAfter_eq_some hcut
  obtain ⟨u', w', rfl⟩ : ∃ u' w', u = u' ++ [w'] := by
    rcases List.eq_nil_or_concat u with hnil | ⟨u', w', hconcat⟩
    · exact absurd hnil hu
    · exact ⟨u', w', by rw [hconcat, List.concat_eq_append]⟩
  dsimp only at hfront
  rw [hfront, ← List.append_assoc] at hfst
  obtain ⟨rfl, hw⟩ := List.append_inj' hfst rfl
  cases hw
  have hnonneg : 0 ≤ depthFrom 0 x := by
    rw [← hxy, List.append_assoc] at hts
    exact hts.depthFrom_nonneg
  rw [depthFrom_append] at htop
  rw [List.append_assoc] at hsplit
  have hand := hc.eq_and hnonneg hsplit htop
  rw [hand] at hk
  exact absurd hk (by decide)

/-! ## In front of a further condition -/

theorem infix_dropWhile {ts : List Token} (h : lex c <:+: ts) :
    lex c <:+: ts.dropWhile Token.isBlank := by
  obtain ⟨x, y, rfl⟩ := h
  obtain ⟨t, ht, hb⟩ := hc.trimmed.head
  obtain ⟨r, hr⟩ := List.head?_eq_some_iff.1 ht
  induction x with
  | nil =>
    rw [List.nil_append, hr, List.cons_append, List.dropWhile_cons_of_neg (by simp [hb])]
    exact ⟨[], y, rfl⟩
  | cons u x ih =>
    by_cases hu : u.isBlank = true
    · rw [List.cons_append, List.cons_append, List.dropWhile_cons_of_pos hu]
      exact ih
    · rw [List.cons_append, List.cons_append, List.dropWhile_cons_of_neg hu]
      exact ⟨u :: x, y, rfl⟩

theorem infix_rdropWhile {ts : List Token} (h : lex c <:+: ts) :
    lex c <:+: ts.rdropWhile Token.isBlank := by
  obtain ⟨x, y, rfl⟩ := h
  obtain ⟨t, ht, hb⟩ := hc.trimmed.last
  obtain ⟨r, hr⟩ := List.getLast?_eq_some_iff.1 ht
  induction y using List.reverseRecOn with
  | nil =>
    rw [List.append_nil, hr, ← List.append_assoc, List.rdropWhile_concat_neg _ _ _ (by simp [hb])]
    exact ⟨x, [], by simp⟩
  | append_singleton y u ih =>
    by_cases hu : u.isBlank = true
    · rw [← List.append_assoc, List.rdropWhile_concat_pos _ _ _ hu]
      exact ih
    · rw [← List.append_assoc, List.rdropWhile_concat_neg _ _ _ hu]
      exact ⟨x, y ++ [u], by simp⟩

theorem infix_conjunctTokens {predicate : List Token} (h : lex c <:+: predicate) :
    lex c <:+: conjunctTokens predicate := by
  have hne : predicate ≠ [] := by
    rintro rfl
    exact hc.ne_nil (List.infix_nil.1 h)
  have hgroup : predicate <:+: group predicate := ⟨[parenOpen], [parenClose], rfl⟩
  unfold conjunctTokens
  rw [if_neg hne]
  apply List.IsInfix.trans _ (List.prefix_append _ _).isInfix
  split
  · exact h.trans hgroup
  · exact h

theorem infix_leadTokens {before : List Token} (hbefore : IsBalanced before)
    (h : lex c <:+: before) : lex c <:+: leadTokens before := by
  unfold leadTokens
  cases hcut : cutAfter "WHERE" 0 before with
  | none => exact (infix_rdropWhile hc h).trans (List.prefix_append _ _).isInfix
  | some p =>
    rcases infix_cutAfter hc hbefore hcut h with h | h
    · exact h.trans (List.prefix_append _ _).isInfix
    · have hbody := infix_conjunctTokens hc (infix_rdropWhile hc (infix_dropWhile hc h))
      exact hbody.trans ((List.suffix_cons _ _).trans (List.suffix_append _ _)).isInfix

end Condition

/-! ## Statements with further conditions -/

theorem isBalanced_leadTokens {before : List Token} (h : IsBalanced before) :
    IsBalanced (leadTokens before) := by
  unfold leadTokens
  cases hcut : cutAfter "WHERE" 0 before with
  | none => exact (isBalanced_rdropWhile h).append (by decide)
  | some p =>
    obtain ⟨front, predicate⟩ := p
    rw [← cutAfter_append hcut] at h
    obtain ⟨hfront, hpredicate⟩ := h.of_append (endsOnWhere_of_cutAfter hcut).depthFrom_eq
    have hbody := (conjunctTokens_spec (isBalanced_trimBlanks hpredicate).1 trimmed_trimBlanks).1
    exact hfront.append hbody

section AddCondition

variable (hs : WellFormed s) (h : endsInLineComment (cutTail s).1 = false) (hc : IsCondition c)
include hs h hc

theorem WellFormed.addCondition : WellFormed (addCondition c s) := by
  obtain ⟨hbefore, hrest⟩ := isBalanced_cutBefore hs
  obtain ⟨hlead, hclosed⟩ := lex_conditionLead hs h
  have hcondition : ∀ t ∈ lex c, t.isClosed = true := fun t ht =>
    Token.isClosed_of_isTame (hc.tame t ht)
  have hlex := lex_addCondition hs h hcondition
  rw [follow_eq] at hlex
  constructor
  · intro t ht
    rw [hlex] at ht
    rcases List.mem_append.1 ht with ht | ht
    · rcases List.mem_append.1 ht with ht | ht
      · exact .inl (hclosed t ht)
      · exact .inl (hcondition t ht)
    · rcases List.mem_append.1 ht with ht | ht
      · exact .inl (isClosed_of_isBlank (isBlank_of_mem_gap ht))
      · exact hs.closed t (mem_lex_of_mem_cutBefore_snd opensTail ht)
  · rw [hlex, hlead]
    exact ((isBalanced_leadTokens hbefore).append hc.balanced).append
      ((isBalanced_gap _).append hrest)

theorem infix_lex_addCondition_self : lex c <:+: lex (Sql.addCondition c s) := by
  rw [lex_addCondition hs h fun t ht => Token.isClosed_of_isTame (hc.tame t ht)]
  exact List.infix_append _ _ _

theorem infix_lex_addCondition (hd : IsCondition d) (hstands : lex d <:+: lex s) :
    lex d <:+: lex (Sql.addCondition c s) := by
  rw [lex_addCondition hs h fun t ht => Token.isClosed_of_isTame (hc.tame t ht)]
  rcases infix_cutBefore hd hs.balanced hstands with hfst | hsnd
  · rw [(lex_conditionLead hs h).1, List.append_assoc]
    exact (infix_leadTokens hd (isBalanced_cutBefore hs).1 hfst).trans
      (List.prefix_append _ _).isInfix
  · rw [follow_eq]
    exact hsnd.trans ((List.suffix_append _ _).trans (List.suffix_append _ _)).isInfix

end AddCondition

end QueryClauses.Sql
