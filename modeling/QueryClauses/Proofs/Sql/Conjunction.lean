import QueryClauses.Proofs.Sql.Extension
import QueryClauses.Proofs.Sql.Names

/-!
# Statements with a condition

A statement with a condition has its WHERE in front of a body without OR at top level, and behind it
the clauses that follow (`Conjunction`). A further condition only makes the body longer
(`Conjunction.addCondition`), although the text is cut and searched for its WHERE anew.
-/

namespace QueryClauses.Sql

/-! ## What conditions are added to -/

/-- A statement up to its WHERE, which is made if it has none. -/
def whereFront (s : Text) : Text :=
  match cutKeyword "WHERE" (cutTail s).1 with
  | some (front, _) => Text.trimEnd front
  | none => Text.trimEnd (cutTail s).1 ++ " WHERE".toList

/-- What stands between the WHERE of a statement and the clauses that follow, without the white
space at both ends; nothing if it has no WHERE. -/
def wherePredicate (s : Text) : Text :=
  match cutKeyword "WHERE" (cutTail s).1 with
  | some (_, predicate) => Text.trim predicate
  | none => []

/-! ## Elements without blanks at their ends -/

/-- Elements of which the first and the last are no blanks. -/
structure Trimmed (ts : List Token) : Prop where
  head : ∃ t, ts.head? = some t ∧ t.isBlank = false
  last : ∃ t, ts.getLast? = some t ∧ t.isBlank = false

section Trimmed

variable {a b : List Token}

theorem Trimmed.append (ha : Trimmed a) (hb : Trimmed b) (ts : List Token) :
    Trimmed (a ++ ts ++ b) := by
  obtain ⟨t, ht, htb⟩ := ha.head
  obtain ⟨u, hu, hub⟩ := hb.last
  refine ⟨⟨t, ?_, htb⟩, ⟨u, ?_, hub⟩⟩
  · rw [List.append_assoc, List.head?_append, ht]
    rfl
  · rw [List.getLast?_append, hu]
    rfl

theorem trimmed_group (ts : List Token) : Trimmed (group ts) :=
  ⟨⟨parenOpen, rfl, rfl⟩, ⟨parenClose, by rw [group, List.getLast?_concat], rfl⟩⟩

theorem rdropWhile_append_of_all {ts bs : List Token} (hb : ∀ t ∈ bs, t.isBlank = true) :
    (ts ++ bs).rdropWhile Token.isBlank = ts.rdropWhile Token.isBlank := by
  induction bs using List.reverseRecOn with
  | nil => simp
  | append_singleton bs t ih =>
    rw [← List.append_assoc, List.rdropWhile_concat_pos _ _ _ (hb t (by simp))]
    exact ih fun u hu => hb u (by simp [hu])

theorem Trimmed.trimBlanks_eq (ha : Trimmed a) {bs bs' : List Token}
    (hb : ∀ t ∈ bs, t.isBlank = true) (hb' : ∀ t ∈ bs', t.isBlank = true) :
    trimBlanks (bs ++ a ++ bs') = a := by
  obtain ⟨t, ht, htb⟩ := ha.head
  obtain ⟨u, hu, hub⟩ := ha.last
  obtain ⟨a', rfl⟩ := List.head?_eq_some_iff.1 ht
  have hfront : (bs ++ (t :: a') ++ bs').dropWhile Token.isBlank = t :: a' ++ bs' := by
    rw [List.append_assoc, List.dropWhile_append_of_pos hb, List.cons_append,
      List.dropWhile_cons_of_neg (by simp [htb])]
  obtain ⟨a'', heq⟩ := List.getLast?_eq_some_iff.1 hu
  rw [trimBlanks, hfront, rdropWhile_append_of_all hb', heq,
    List.rdropWhile_concat_neg _ _ _ (by simp [hub])]

theorem trimmed_trimBlanks {ts : List Token} (h : trimBlanks ts ≠ []) : Trimmed (trimBlanks ts) := by
  unfold trimBlanks at *
  have hlast := List.rdropWhile_last_not Token.isBlank (ts.dropWhile Token.isBlank) h
  refine ⟨?_, ⟨_, List.getLast?_eq_some_getLast h, by simpa using hlast⟩⟩
  -- The first element of what is left is the first one behind the blanks in front.
  obtain ⟨bs, hbs⟩ := List.rdropWhile_prefix Token.isBlank (ts.dropWhile Token.isBlank)
  obtain ⟨t, r, ht⟩ := List.exists_cons_of_ne_nil h
  rw [ht] at hbs ⊢
  refine ⟨t, rfl, ?_⟩
  have hhead := List.head?_dropWhile_not Token.isBlank ts
  rw [← hbs] at hhead
  simpa using hhead

end Trimmed

/-! ## Balanced parts -/

theorem IsBalanced.of_append {a b : List Token} (h : IsBalanced (a ++ b)) (ha : depthFrom 0 a = 0) :
    IsBalanced a ∧ IsBalanced b := by
  unfold IsBalanced at h
  rw [Sql.open?_append] at h
  cases ho : open? 0 a with
  | none =>
    rw [ho] at h
    cases h
  | some n =>
    have hn := depthFrom_of_open? ho
    rw [show ((0 : Nat) : Int) = 0 from rfl, ha] at hn
    have hzero : n = 0 := by omega
    subst hzero
    rw [ho] at h
    exact ⟨ho, h⟩

theorem isBalanced_rdropWhile {ts : List Token} (h : IsBalanced ts) :
    IsBalanced (ts.rdropWhile Token.isBlank) := by
  have hdepth := (topWordsFrom_rdropWhile 0 ts).2
  rw [h.depthFrom_eq] at hdepth
  rw [← List.rdropWhile_append_rtakeWhile (p := Token.isBlank) (l := ts)] at h
  exact (h.of_append hdepth).1

/-! ## Words that open no clause -/

/-- Which clause a word opens does not depend on a word behind it other than BY and UPDATE. -/
theorem opensTail_of_some {v w : Text} (hby : isKeyword "BY" v = false)
    (hupdate : isKeyword "UPDATE" v = false) (next : Option Text)
    (h : opensTail w (some v) = true) : opensTail w next = true := by
  simp only [opensTail, opensPaging, Option.any_some, hby, hupdate, Bool.and_false, Bool.false_or,
    Bool.or_false, Bool.or_eq_true] at h ⊢
  rcases h with h | h
  · exact .inl (.inr h)
  · exact .inr (.inl h)

/-- Behind a WHERE and behind an AND any clause may follow. -/
theorem noneOpens_of_forall {ws : List Text}
    (h : ∀ w ∈ ws, isKeyword "WHERE" w = true ∨ w = "AND".toList) (next : Option Text) :
    noneOpens opensTail next ws = true := by
  have hword : ∀ w next, isKeyword "WHERE" w = true ∨ w = "AND".toList →
      opensTail w next = false := by
    intro w next hw
    have hkey : ∀ k : String, Text.sameWord "WHERE".toList k.toList = false →
        Text.sameWord "AND".toList k.toList = false → isKeyword k w = false := by
      intro k hk₁ hk₂
      rcases hw with hw | rfl
      · simp only [isKeyword, Text.sameWord, beq_iff_eq] at hw
        rw [isKeyword, Text.sameWord, hw]
        exact hk₁
      · exact hk₂
    simp [opensTail, opensPaging, hkey "GROUP" rfl rfl, hkey "ORDER" rfl rfl,
      hkey "HAVING" rfl rfl, hkey "LIMIT" rfl rfl, hkey "OFFSET" rfl rfl, hkey "FETCH" rfl rfl,
      hkey "FOR" rfl rfl]
  induction ws with
  | nil => rfl
  | cons w ws ih =>
    simp only [noneOpens, Bool.and_eq_true, Bool.not_eq_true']
    exact ⟨hword w _ (h w List.mem_cons_self), ih fun v hv => h v (List.mem_cons_of_mem w hv)⟩

/-! ## Statements with a condition -/

/-- A text that is added as a condition: parts in parentheses, with nothing but AND between them. -/
structure IsCondition (c : Text) : Prop where
  tame : ∀ t ∈ lex c, t.isTame = true
  balanced : IsBalanced (lex c)
  grouped : ∃ ts, lex c = group ts
  words : ∀ w ∈ topWordsFrom 0 (lex c), w = "AND".toList

/-- The blank in front of the clauses that follow, if there are any. -/
def gap : List Token → List Token
  | [] => []
  | _ :: _ => [blank ' ']

theorem follow_eq (rest : List Token) : follow rest = gap rest ++ rest := by
  cases rest <;> rfl

theorem isBalanced_gap (rest : List Token) : IsBalanced (gap rest) := by
  cases rest <;> rfl

theorem isBlank_of_mem_gap {rest : List Token} {t : Token} (h : t ∈ gap rest) :
    t.isBlank = true := by
  cases rest with
  | nil => simp [gap] at h
  | cons u rest =>
    rw [gap, List.mem_singleton] at h
    rw [h]
    rfl

theorem isSpace_of_mem_gap (rest : List Token) :
    ∀ c ∈ textOf (gap rest), CharClass.isSpace c = true := by
  intro c hc
  obtain ⟨t, ht, hc⟩ := List.mem_flatMap.1 hc
  have hblank := isBlank_of_mem_gap ht
  simp only [Token.isBlank, Bool.and_eq_true, List.all_eq_true] at hblank
  exact hblank.2 c hc

/-- Elements up to the first WHERE at top level. -/
def EndsOnWhere (front : List Token) : Prop :=
  ∃ a w, front = a ++ [w] ∧ w.isTopWord (depthFrom 0 a) = true ∧
    isKeyword "WHERE" w.text = true ∧ cutAfter "WHERE" 0 a = none

/-- A statement with a WHERE: the elements up to it, its body, and the clauses that follow. -/
structure Conjunction (front body rest : List Token) (s : Text) : Prop where
  lex_eq : lex s = front ++ blank ' ' :: (body ++ follow rest)
  closed : ∀ t ∈ lex s, t.isClosed = true ∧ t.isLineComment = false
  ends : EndsOnWhere front
  balanced_front : IsBalanced front
  balanced_body : IsBalanced body
  balanced_rest : IsBalanced rest
  trimmed : Trimmed body
  noOr : ∀ w ∈ topWordsFrom 0 body, isKeyword "OR" w = false
  cut_rest : cutBefore opensTail 0 rest = ([], rest)
  noneOpens : noneOpens opensTail (topWordsFrom 0 rest).head?
    (topWordsFrom 0 front ++ topWordsFrom 0 body) = true

theorem EndsOnWhere.cutAfter {front : List Token} (h : EndsOnWhere front) (ts : List Token) :
    Sql.cutAfter "WHERE" 0 (front ++ ts) = some (front, ts) := by
  obtain ⟨a, w, rfl, hw, hk, hnone⟩ := h
  have hself : Sql.cutAfter "WHERE" 0 (a ++ [w]) = some (a ++ [w], []) := by
    rw [cutAfter_append_of_none hnone]
    simp [Sql.cutAfter, hw, hk]
  have := cutAfter_append_right hself (b := ts)
  simpa using this

theorem endsOnWhere_of_cutAfter {before front predicate : List Token}
    (h : Sql.cutAfter "WHERE" 0 before = some (front, predicate)) : EndsOnWhere front :=
  cutAfter_eq_some h

theorem EndsOnWhere.depthFrom_eq {front : List Token} (h : EndsOnWhere front) :
    depthFrom 0 front = 0 := by
  obtain ⟨a, w, rfl, hw, -⟩ := h
  simp only [Token.isTopWord, Bool.and_eq_true, beq_iff_eq] at hw
  rw [depthFrom_append, depthFrom_cons, depthFrom_nil, hw.1, hw.2]
  rfl

/-- Of the words behind a WHERE, those of the predicate matter only if they stay at top level. -/
theorem EndsOnWhere.noneOpens {front : List Token} (h : EndsOnWhere front) {next : Option Text}
    {ws vs ands : List Text}
    (hopens : Sql.noneOpens opensTail next (topWordsFrom 0 front ++ ws) = true)
    (hvs : (∀ v ∈ vs, v = "AND".toList) ∨ vs = ws ++ ["AND".toList])
    (hands : ∀ v ∈ ands, v = "AND".toList) :
    Sql.noneOpens opensTail next (topWordsFrom 0 front ++ (vs ++ ands)) = true := by
  obtain ⟨a, w, rfl, hw, hk, -⟩ := h
  have hwords : topWordsFrom 0 (a ++ [w]) = topWordsFrom 0 a ++ [w.text] := by
    rw [topWordsFrom_append]
    simp [topWordsFrom, hw]
  rcases hvs with hvs | rfl
  · rw [hwords, List.append_assoc, noneOpens_append, Bool.and_eq_true] at hopens ⊢
    refine ⟨hopens.1, noneOpens_of_forall ?_ _⟩
    intro v hv
    simp only [List.cons_append, List.nil_append, List.mem_cons, List.mem_append] at hv
    rcases hv with rfl | hv | hv
    · exact .inl hk
    · exact .inr (hvs v hv)
    · exact .inr (hands v hv)
  · rw [List.append_assoc, ← List.append_assoc, noneOpens_append, Bool.and_eq_true]
    refine ⟨noneOpens_mono hopens fun v hv => opensTail_of_some rfl rfl _ hv, ?_⟩
    exact noneOpens_of_forall (List.forall_mem_cons.2 ⟨.inr rfl, fun v hv => .inr (hands v hv)⟩) _

theorem topWordsFrom_blank (d : Int) (ts : List Token) :
    topWordsFrom d (blank ' ' :: ts) = topWordsFrom d ts := rfl

theorem topWordsFrom_gap (rest : List Token) : topWordsFrom 0 (gap rest) = [] := by
  cases rest <;> rfl

theorem endsInLineComment_of_forall {s : Text} (h : ∀ t ∈ lex s, t.isLineComment = false) :
    endsInLineComment s = false := by
  unfold endsInLineComment
  cases hlast : ((lex s).filter (!·.isBlank)).getLast? with
  | none => rfl
  | some t => exact h t (List.mem_of_mem_filter (List.mem_of_getLast? hlast))

theorem endsInLineComment_cutTail {s : Text} (h : ∀ t ∈ lex s, t.isLineComment = false) :
    endsInLineComment (cutTail s).1 = false := by
  apply endsInLineComment_of_forall
  intro t ht
  rw [lex_cutTail_fst] at ht
  exact h t (mem_lex_of_mem_cutBefore_fst opensTail ht)

/-- An element on one line is no line comment with its end. -/
theorem isLineComment_of_isTame {s : Text} {t : Token} (ht : t ∈ lex s) (h : t.isTame = true) :
    t.isLineComment = false := by
  obtain ⟨c, body, htext, hb⟩ := begins_of_mem_lex ht
  simp only [Token.isTame, Bool.and_eq_true, Bool.not_eq_true', List.contains_eq_mem,
    decide_eq_false_iff_not] at h
  obtain ⟨hclosed, hline⟩ := h
  generalize ([] : Text) = r at hb
  cases hb with
  | @line s body _ hm =>
    exfalso
    have hlast : body.getLast? = some '\n' := by simpa [Token.isClosed] using hclosed
    exact hline (by simp [List.mem_of_getLast? hlast])
  | quoted | block | opening | closing | cast | placeholder | word | other =>
    simp [Token.isLineComment]

section Conjunction

variable {front body rest : List Token} {s : Text} (h : Conjunction front body rest s)
include h

theorem Conjunction.wellFormed : WellFormed s where
  closed := fun t ht => .inl (h.closed t ht).1
  balanced := by
    have hblank : IsBalanced (blank ' ' :: (body ++ follow rest)) := by
      rw [follow_eq]
      exact h.balanced_body.append ((isBalanced_gap rest).append h.balanced_rest)
    rw [h.lex_eq]
    exact h.balanced_front.append hblank

theorem Conjunction.cutBefore_lex : cutBefore opensTail 0 (lex s) =
    (front ++ blank ' ' :: (body ++ gap rest), rest) := by
  have hlead : IsBalanced (front ++ blank ' ' :: (body ++ gap rest)) :=
    h.balanced_front.append (h.balanced_body.append (isBalanced_gap rest))
  have hwords : topWordsFrom 0 (front ++ blank ' ' :: (body ++ gap rest)) =
      topWordsFrom 0 front ++ topWordsFrom 0 body := by
    rw [topWordsFrom_append, h.balanced_front.depthFrom_eq, topWordsFrom_blank, topWordsFrom_append,
      h.balanced_body.depthFrom_eq, topWordsFrom_gap, List.append_nil]
  have hsplit : lex s = front ++ blank ' ' :: (body ++ gap rest) ++ rest := by
    rw [h.lex_eq, follow_eq]
    simp
  rw [hsplit, cutBefore_of_noneOpens, hlead.depthFrom_eq, h.cut_rest, List.append_nil]
  rw [hlead.depthFrom_eq, hwords]
  exact h.noneOpens

theorem Conjunction.cutAfter_where : cutAfter "WHERE" 0 (cutBefore opensTail 0 (lex s)).1 =
    some (front, blank ' ' :: (body ++ gap rest)) := by
  rw [h.cutBefore_lex]
  exact h.ends.cutAfter _

theorem Conjunction.lexed_front : lex (textOf front) = front := lex_textOf_prefix h.lex_eq

theorem Conjunction.lexed_rest : lex (textOf rest) = rest := by
  refine @lex_textOf_suffix s (front ++ blank ' ' :: (body ++ gap rest)) rest ?_
  rw [h.lex_eq, follow_eq]
  simp

theorem Conjunction.lexed_body : lex (textOf body) = body := by
  have hsuffix : lex (textOf (body ++ follow rest)) = body ++ follow rest := by
    refine @lex_textOf_suffix s (front ++ [blank ' ']) _ ?_
    rw [h.lex_eq]
    simp
  exact lex_textOf_prefix hsuffix

theorem Conjunction.cutKeyword_where : cutKeyword "WHERE" (cutTail s).1 =
    some (textOf front, textOf (blank ' ' :: (body ++ gap rest))) := by
  rw [cutKeyword_cutTail, h.cutAfter_where]
  rfl

theorem Conjunction.whereFront_eq : whereFront s = textOf front := by
  obtain ⟨a, w, hfront, hw, -⟩ := h.ends
  have hlexed := h.lexed_front
  rw [whereFront, h.cutKeyword_where]
  rw [hfront] at hlexed ⊢
  exact trimEnd_textOf_of_isTopWord hlexed hw

theorem Conjunction.trimBlanks_eq : trimBlanks (blank ' ' :: (body ++ gap rest)) = body := by
  have hblank : ∀ t ∈ [blank ' '], t.isBlank = true := by decide
  exact h.trimmed.trimBlanks_eq hblank fun t ht => isBlank_of_mem_gap ht

theorem Conjunction.wherePredicate_eq : wherePredicate s = textOf body := by
  have hlex := lex_cutTail_fst s
  have hmem : ∀ t ∈ blank ' ' :: (body ++ gap rest), t ∈ lex s := by
    intro t ht
    apply mem_lex_of_mem_cutBefore_fst opensTail
    rw [h.cutBefore_lex]
    exact List.mem_append_right _ ht
  have hpredicate : lex (textOf (blank ' ' :: (body ++ gap rest))) =
      blank ' ' :: (body ++ gap rest) := by
    rw [cutTail, h.cutBefore_lex] at hlex
    exact lex_textOf_suffix hlex
  have htrim : lex (Text.trim (textOf (blank ' ' :: (body ++ gap rest)))) = body := by
    rw [lex_trim, hpredicate, h.trimBlanks_eq]
    · intro t ht
      rw [hpredicate] at ht
      exact .inl (h.closed t (hmem t ht)).1
    · apply endsInLineComment_of_forall
      intro t ht
      rw [hpredicate] at ht
      exact (h.closed t (hmem t ht)).2
  rw [wherePredicate, h.cutKeyword_where]
  change Text.trim _ = _
  rw [← textOf_lex (Text.trim _), htrim]

theorem Conjunction.cutTail_eq : (cutTail s).2 = textOf rest := by
  rw [cutTail, h.cutBefore_lex]

/-- A further condition makes the body longer and leaves the rest as it is. -/
theorem Conjunction.addCondition {c : Text} (hc : IsCondition c) :
    Conjunction front (body ++ spaced "AND" ++ lex c) rest (addCondition c s) := by
  have hcomment := endsInLineComment_cutTail fun t ht => (h.closed t ht).2
  have hclosed : ∀ t ∈ lex c, t.isClosed = true := fun t ht =>
    Token.isClosed_of_isTame (hc.tame t ht)
  have hne : body ≠ [] := by
    obtain ⟨t, ht, -⟩ := h.trimmed.head
    rintro rfl
    cases ht
  have hor : (topWordsFrom 0 body).any (isKeyword "OR") = false := by
    rw [List.any_eq_false]
    intro w hw
    simp [h.noOr w hw]
  have hlead : lex (conditionLead s) = front ++ blank ' ' :: (body ++ spaced "AND") := by
    rw [(lex_conditionLead h.wellFormed hcomment).1, leadTokens, h.cutAfter_where]
    simp [h.trimBlanks_eq, conjunctTokens, hne, hor]
  have hlex : lex (Sql.addCondition c s) =
      front ++ blank ' ' :: (body ++ spaced "AND" ++ lex c ++ follow rest) := by
    rw [lex_addCondition h.wellFormed hcomment hclosed, hlead, h.cutBefore_lex]
    simp
  obtain ⟨g, hg⟩ := hc.grouped
  have hand : IsBalanced (spaced "AND") := by decide
  have hwords : topWordsFrom 0 (body ++ spaced "AND" ++ lex c) =
      topWordsFrom 0 body ++ ("AND".toList :: topWordsFrom 0 (lex c)) := by
    rw [List.append_assoc, topWordsFrom_append, h.balanced_body.depthFrom_eq, topWordsFrom_append,
      hand.depthFrom_eq]
    rfl
  have hands : ∀ w ∈ "AND".toList :: topWordsFrom 0 (lex c), w = "AND".toList :=
    List.forall_mem_cons.2 ⟨rfl, hc.words⟩
  refine
    { lex_eq := hlex
      ends := h.ends
      balanced_front := h.balanced_front
      balanced_body := (h.balanced_body.append hand).append hc.balanced
      balanced_rest := h.balanced_rest
      trimmed := h.trimmed.append (by rw [hg]; exact trimmed_group g) _
      cut_rest := h.cut_rest
      closed := ?_
      noOr := ?_
      noneOpens := ?_ }
  · intro t ht
    have hmem : t ∈ lex s ∨ t ∈ spaced "AND" ∨ t ∈ lex c := by
      rw [hlex] at ht
      rw [h.lex_eq]
      simp only [List.mem_append, List.mem_cons] at ht ⊢
      tauto
    rcases hmem with ht | ht | ht
    · exact h.closed t ht
    · have hspaced : ∀ t ∈ spaced "AND", t.isClosed = true ∧ t.isLineComment = false := by decide
      exact hspaced t ht
    · exact ⟨hclosed t ht, isLineComment_of_isTame ht (hc.tame t ht)⟩
  · intro w hw
    rw [hwords] at hw
    rcases List.mem_append.1 hw with hw | hw
    · exact h.noOr w hw
    · rw [hands w hw]
      rfl
  · rw [hwords, ← List.append_assoc, noneOpens_append, Bool.and_eq_true]
    refine ⟨?_, noneOpens_of_forall (fun w hw => .inr (hands w hw)) _⟩
    exact noneOpens_mono h.noneOpens fun w hw => opensTail_of_some rfl rfl _ hw

end Conjunction

end QueryClauses.Sql
