import QueryClauses.Proofs.Sql.Sorting

/-!
# Conditions and sort keys in either order

Sort keys are put behind the place of a condition, and what stands in front of that place stays as it
was but for white space (`cutBefore_addSortKeys_tail`); a condition is put in front of the place of
sort keys, and what stands behind it stays as it was (`cutBefore_addCondition`). So the two make the
same statement in either order (`addSortKeys_addCondition`).
-/

namespace QueryClauses.Sql

open CharClass

/-! ## The two cuts -/

theorem opensTail_of_opensPaging {w : Text} {next : Option Text} (h : opensPaging w next = true) :
    opensTail w next = true := by
  rw [opensTail, h, Bool.or_true]

theorem noneOpens_paging_of_tail {next : Option Text} {ws : List Text}
    (h : noneOpens opensTail next ws = true) : noneOpens opensPaging next ws = true := by
  induction ws with
  | nil => rfl
  | cons w ws ih =>
    simp only [noneOpens, Bool.and_eq_true, Bool.not_eq_true'] at h ⊢
    refine ⟨?_, ih h.2⟩
    by_contra hw
    rw [Bool.not_eq_false] at hw
    simp [opensTail_of_opensPaging hw] at h

/-- Words that open no clause make no ORDER BY, not even with the word that follows. -/
theorem orderByAmong_append_of_noneOpens {u v : List Text} {next : Option Text}
    (h : noneOpens opensTail (v.head?.or next) u = true) :
    orderByAmong (u ++ v) = orderByAmong v := by
  induction u with
  | nil => rfl
  | cons w u ih =>
    simp only [noneOpens, Bool.and_eq_true, Bool.not_eq_true'] at h
    have ih := ih h.2
    cases huv : u ++ v with
    | nil =>
      rw [huv] at ih
      rw [List.cons_append, huv, ← ih]
      rfl
    | cons x ws =>
      have hx : u.head?.or (v.head?.or next) = some x := by
        rw [← Option.or_assoc, ← List.head?_append, huv]
        rfl
      have hw : (isKeyword "ORDER" w && isKeyword "BY" x) = false := by
        have hopens := h.1
        rw [hx, opensTail, Option.any_some] at hopens
        simp only [Bool.or_eq_false_iff, Bool.and_eq_false_iff] at hopens ⊢
        tauto
      rw [List.cons_append, huv, orderByAmong, hw, Bool.false_or, ← huv, ih]

/-- Where no word opens a clause, the cut for sort keys is behind. -/
theorem cutBefore_paging_append {a rest : List Token} (ha : IsBalanced a)
    (h : noneOpens opensTail (topWordsFrom 0 rest).head? (topWordsFrom 0 a) = true) :
    cutBefore opensPaging 0 (a ++ rest) =
        (a ++ (cutBefore opensPaging 0 rest).1, (cutBefore opensPaging 0 rest).2) ∧
      orderByAmong (topWordsFrom 0 (a ++ (cutBefore opensPaging 0 rest).1)) =
        orderByAmong (topWordsFrom 0 (cutBefore opensPaging 0 rest).1) := by
  constructor
  · rw [cutBefore_of_noneOpens, ha.depthFrom_eq]
    rw [ha.depthFrom_eq]
    exact noneOpens_paging_of_tail h
  · rw [topWordsFrom_append, ha.depthFrom_eq]
    refine @orderByAmong_append_of_noneOpens _ _ (topWordsFrom (depthFrom 0
      (cutBefore opensPaging 0 rest).1) (cutBefore opensPaging 0 rest).2).head? ?_
    rwa [← List.head?_append, ← topWordsFrom_append, cutBefore_append]

/-! ## White space in front of a condition -/

theorem trimBlanks_append_of_all {ts bs : List Token} (hb : ∀ t ∈ bs, t.isBlank = true) :
    trimBlanks (ts ++ bs) = trimBlanks ts := by
  have hbs : bs.dropWhile Token.isBlank = [] := List.dropWhile_eq_nil_iff.2 hb
  rw [trimBlanks, trimBlanks, List.dropWhile_append, hbs]
  cases hts : ts.dropWhile Token.isBlank with
  | nil => rfl
  | cons t ts' => exact rdropWhile_append_of_all hb

/-- Blanks in front of the clauses that follow make no difference to a condition. -/
theorem leadTokens_append_of_all (ts : List Token) {bs : List Token}
    (hb : ∀ t ∈ bs, t.isBlank = true) : leadTokens (ts ++ bs) = leadTokens ts := by
  unfold leadTokens
  cases hcut : cutAfter "WHERE" 0 ts with
  | none =>
    have hquiet : ∀ t ∈ bs, t.kind = .other ∨ t.kind = .comment := fun t ht =>
      .inl (kind_of_isBlank (hb t ht))
    have hnone : cutAfter "WHERE" 0 (ts ++ bs) = none := by
      rw [cutAfter_eq_none_iff, topWordsFrom_append, (topWordsFrom_of_forall hquiet _).1,
        List.append_nil]
      exact cutAfter_eq_none_iff.1 hcut
    rw [hnone]
    simp only [rdropWhile_append_of_all hb]
  | some p =>
    rw [cutAfter_append_right hcut]
    simp only [trimBlanks_append_of_all hb]

theorem leadTokens_rdropWhile_append (ts : List Token) {bs : List Token}
    (hb : ∀ t ∈ bs, t.isBlank = true) :
    leadTokens (ts.rdropWhile Token.isBlank ++ bs) = leadTokens ts := by
  have hblanks : ∀ t ∈ ts.rtakeWhile Token.isBlank, t.isBlank = true := fun t ht =>
    List.mem_rtakeWhile_imp ht
  have hts := leadTokens_append_of_all (ts.rdropWhile Token.isBlank) hblanks
  rw [List.rdropWhile_append_rtakeWhile] at hts
  rw [leadTokens_append_of_all _ hb, hts]

/-! ## A statement with a condition -/

section

variable {s c k : Text} (hs : WellFormed s) (hline : ∀ t ∈ lex s, t.isLineComment = false)
include hs

/-- The cut for sort keys is that of the clauses behind the place of a condition. -/
theorem cutBefore_paging_eq :
    cutBefore opensPaging 0 (lex s) = ((cutBefore opensTail 0 (lex s)).1 ++
        (cutBefore opensPaging 0 (cutBefore opensTail 0 (lex s)).2).1,
      (cutBefore opensPaging 0 (cutBefore opensTail 0 (lex s)).2).2) ∧
    hasOrderBy (cutPaging s).1 = orderByAmong
      (topWordsFrom 0 (cutBefore opensPaging 0 (cutBefore opensTail 0 (lex s)).2).1) := by
  have hopens := @noneOpens_cutBefore opensTail 0 (lex s)
  rw [hs.depthFrom_cutBefore] at hopens
  obtain ⟨hcut, hby⟩ := cutBefore_paging_append (isBalanced_cutBefore hs).1 hopens
  rw [cutBefore_append] at hcut
  refine ⟨hcut, ?_⟩
  rw [← hby, hasOrderBy, topWords, cutPaging]
  have hlex := @lex_textOf_cutBefore_fst opensPaging s
  rw [hcut] at hlex ⊢
  rw [hlex]

include hline

/-- What stands behind the place of a condition stays there. -/
theorem cutBefore_addCondition (hc : IsCondition c) :
    cutBefore opensTail 0 (lex (addCondition c s)) =
        (lex (conditionLead s ++ c) ++ gap (cutBefore opensTail 0 (lex s)).2,
          (cutBefore opensTail 0 (lex s)).2) ∧
      WellFormed (addCondition c s) ∧
      ∀ t ∈ lex (addCondition c s), t.isLineComment = false := by
  obtain ⟨front, body, rest, hconj, -, -, hrest, -⟩ := conjoins_addCondition hs hline hc
  refine ⟨?_, hconj.wellFormed, fun t ht => (hconj.closed t ht).2⟩
  have hrest : rest = (cutBefore opensTail 0 (lex s)).2 := by
    rw [← hconj.lexed_rest, hrest]
    exact lex_textOf_cutBefore_snd opensTail
  have hlex := lex_addCondition hs (endsInLineComment_cutTail hline) fun t ht =>
    Token.isClosed_of_isTame (hc.tame t ht)
  have hlead : lex (conditionLead s ++ c) = lex (conditionLead s) ++ lex c := by
    have hwhole := lex_textOf_prefix hlex
    rwa [textOf_append, textOf_lex, textOf_lex] at hwhole
  rw [hconj.lex_eq, follow_eq, follow_eq, hrest, ← hlead] at hlex
  have hfront : front ++ blank ' ' :: (body ++ gap (cutBefore opensTail 0 (lex s)).2) =
      lex (conditionLead s ++ c) ++ gap (cutBefore opensTail 0 (lex s)).2 := by
    have hall : front ++ blank ' ' :: (body ++ gap (cutBefore opensTail 0 (lex s)).2) ++
        (cutBefore opensTail 0 (lex s)).2 = lex (conditionLead s ++ c) ++
          gap (cutBefore opensTail 0 (lex s)).2 ++ (cutBefore opensTail 0 (lex s)).2 := by
      simpa using hlex
    exact List.append_cancel_right hall
  rw [hconj.cutBefore_lex, hrest, hfront]

theorem conditionLead_eq {s' : Text} (hs' : WellFormed s')
    (hline' : ∀ t ∈ lex s', t.isLineComment = false)
    (h : leadTokens (cutBefore opensTail 0 (lex s')).1 =
      leadTokens (cutBefore opensTail 0 (lex s)).1) : conditionLead s' = conditionLead s := by
  have hlead := (lex_conditionLead hs (endsInLineComment_cutTail hline)).1
  have hlead' := (lex_conditionLead hs' (endsInLineComment_cutTail hline')).1
  rw [← textOf_lex (conditionLead s'), hlead', h, ← hlead, textOf_lex]

end

/-! ## A statement with sort keys -/

/-- A word that opens a clause other than one that limits the rows opens it whatever follows the
words of that clause. -/
theorem opensTail_of_not_opensPaging {w : Text} {ws vs : List Text}
    (h : opensTail w (ws.head?.or vs.head?) = true)
    (hpaging : opensPaging w (ws.head?.or vs.head?) = false)
    (hvs : ∀ v ∈ vs.head?, isKeyword "BY" v = false) (next : Option Text) :
    opensTail w (ws.head?.or next) = true := by
  rw [opensTail, hpaging, Bool.or_false] at h
  cases ws with
  | cons v ws =>
    rw [List.head?_cons, Option.some_or] at h ⊢
    rw [opensTail, h, Bool.true_or]
  | nil =>
    have hby : vs.head?.any (isKeyword "BY") = false := by
      rw [Option.any_eq_false]
      simpa using hvs
    rw [List.head?_nil, Option.none_or, hby, Bool.and_false, Bool.false_or] at h
    rw [opensTail, h, Bool.or_true, Bool.true_or]

/-- Nothing behind a cut for sort keys, or a word first that limits the rows and is not BY. -/
theorem isKeyword_by_cutBefore_paging {d : Int} {ts : List Token} :
    ∀ v ∈ (topWordsFrom (depthFrom d (cutBefore opensPaging d ts).1)
      (cutBefore opensPaging d ts).2).head?, isKeyword "BY" v = false := by
  intro v hv
  rcases cutBefore_snd opensPaging d ts with hnil | ⟨t, rest, hcons, htop, hcut⟩
  · rw [hnil] at hv
    cases hv
  · rw [hcons, topWordsFrom, if_pos htop] at hv
    cases hv
    exact isKeyword_by_of_opensPaging (opens_of_cutBefore_eq hcut).2

theorem rdropWhile_append_cons {α : Type} {p : α → Bool} {x : α} (hx : p x = false)
    (a b : List α) : (a ++ x :: b).rdropWhile p = a ++ x :: b.rdropWhile p := by
  induction b using List.reverseRecOn with
  | nil => rw [List.rdropWhile_concat_neg _ _ _ (by simp [hx]), List.rdropWhile_nil]
  | append_singleton b y ih =>
    rw [← List.cons_append, ← List.append_assoc]
    by_cases hy : p y = true
    · rw [List.rdropWhile_concat_pos _ _ _ hy, List.rdropWhile_concat_pos _ _ _ hy, ih]
    · rw [List.rdropWhile_concat_neg _ _ _ hy, List.rdropWhile_concat_neg _ _ _ hy]
      simp

section

variable {s k : Text} (hs : WellFormed s) (hline : ∀ t ∈ lex s, t.isLineComment = false)
  (hk : IsSortKeys k)
include hs hline hk

theorem lex_addSortKeys_of_tail : lex (addSortKeys k s) =
    ((cutBefore opensTail 0 (lex s)).1 ++
        (cutBefore opensPaging 0 (cutBefore opensTail 0 (lex s)).2).1).rdropWhile Token.isBlank ++
      sortKeysJoint (hasOrderBy (cutPaging s).1) ++ lex k ++
      follow (cutBefore opensPaging 0 (cutBefore opensTail 0 (lex s)).2).2 := by
  rw [lex_addSortKeys_eq hs hline hk, (lex_sortKeysLead hs (endsInLineComment_cutPaging hline)).1,
    (cutBefore_paging_eq hs).1]

/-- In a statement without clauses behind the place of a condition, ORDER BY comes next. -/
theorem cutBefore_addSortKeys_of_nil
    (hmid : (cutBefore opensPaging 0 (cutBefore opensTail 0 (lex s)).2).1 = []) :
    cutBefore opensTail 0 (lex (addSortKeys k s)) =
      ((cutBefore opensTail 0 (lex s)).1.rdropWhile Token.isBlank ++ [blank ' '],
        (sortKeysJoint false).tail ++ lex k ++
          follow (cutBefore opensPaging 0 (cutBefore opensTail 0 (lex s)).2).2) := by
  have hby : hasOrderBy (cutPaging s).1 = false := by
    rw [(cutBefore_paging_eq hs).2, hmid]
    rfl
  have hopens := @noneOpens_cutBefore opensTail 0 (lex s)
  rw [lex_addSortKeys_of_tail hs hline hk, hmid, hby, List.append_nil]
  generalize (cutBefore opensPaging 0 (cutBefore opensTail 0 (lex s)).2).2 = back
  obtain ⟨hwords, hdepth⟩ := topWordsFrom_dropBlanks hs
  generalize (cutBefore opensTail 0 (lex s)).1 = before at hopens hwords hdepth ⊢
  have hsplit : before.rdropWhile Token.isBlank ++ sortKeysJoint false ++ lex k ++ follow back =
      (before.rdropWhile Token.isBlank ++ [blank ' ']) ++
        ((sortKeysJoint false).tail ++ lex k ++ follow back) := by
    simp [sortKeysJoint]
  have hfront : depthFrom 0 (before.rdropWhile Token.isBlank ++ [blank ' ']) = 0 := by
    rw [depthFrom_append, hdepth]
    rfl
  have hcut : cutBefore opensTail 0 ((sortKeysJoint false).tail ++ lex k ++ follow back) =
      ([], (sortKeysJoint false).tail ++ lex k ++ follow back) := rfl
  have hfrontWords : topWordsFrom 0 (before.rdropWhile Token.isBlank ++ [blank ' ']) =
      topWordsFrom 0 before := by
    rw [topWordsFrom_append, hwords, topWordsFrom_blank, topWordsFrom, List.append_nil]
  rw [hsplit, cutBefore_of_noneOpens, hfront, hcut, List.append_nil]
  rw [hfront, hfrontWords]
  exact noneOpens_mono hopens fun w hw => opensTail_of_some rfl rfl _ hw

/-- In a statement with clauses behind the place of a condition, they still come next. -/
theorem cutBefore_addSortKeys_of_cons {t : Token} {mid : List Token}
    (hmid : (cutBefore opensPaging 0 (cutBefore opensTail 0 (lex s)).2).1 = t :: mid) :
    cutBefore opensTail 0 (lex (addSortKeys k s)) =
      ((cutBefore opensTail 0 (lex s)).1,
        (t :: mid).rdropWhile Token.isBlank ++ sortKeysJoint (hasOrderBy (cutPaging s).1) ++ lex k ++
          follow (cutBefore opensPaging 0 (cutBefore opensTail 0 (lex s)).2).2) := by
  have hopens := @noneOpens_cutBefore opensTail 0 (lex s)
  have hpaging := @noneOpens_cutBefore opensPaging 0 (cutBefore opensTail 0 (lex s)).2
  have hby := @isKeyword_by_cutBefore_paging 0 (cutBefore opensTail 0 (lex s)).2
  have hrest := cutBefore_rest hs
  have happ := cutBefore_append opensPaging 0 (cutBefore opensTail 0 (lex s)).2
  rw [lex_addSortKeys_of_tail hs hline hk]
  rw [hs.depthFrom_cutBefore] at hopens
  rw [hmid] at hpaging hby happ ⊢
  have hbefore := (isBalanced_cutBefore hs).1
  generalize (cutBefore opensPaging 0 (cutBefore opensTail 0 (lex s)).2).2 = back at *
  generalize (cutBefore opensTail 0 (lex s)).1 = before at *
  rw [← happ, List.cons_append] at hrest hopens
  obtain ⟨htop, htail⟩ := opens_of_cutBefore_eq hrest
  have hdepth : t.kind.depthAfter 0 = 0 := by
    simp only [Token.isTopWord, Bool.and_eq_true, beq_iff_eq] at htop
    rw [htop.1]
    rfl
  rw [hdepth, topWordsFrom_append, List.head?_append] at htail
  rw [depthFrom_cons, hdepth] at hby hpaging
  rw [topWordsFrom, if_pos htop, hdepth, noneOpens, Bool.and_eq_true, Bool.not_eq_true'] at hpaging
  have hstays := opensTail_of_not_opensPaging htail hpaging.1 hby
  -- The first of the clauses is still cut off, and nothing in front of it.
  rw [rdropWhile_append_cons (isBlank_of_isTopWord htop),
    ← List.nil_append (t :: mid), rdropWhile_append_cons (isBlank_of_isTopWord htop),
    List.nil_append]
  have hcut : ∀ ts, cutBefore opensTail 0 (t :: (mid.rdropWhile Token.isBlank ++ ts)) =
      ([], t :: (mid.rdropWhile Token.isBlank ++ ts)) := by
    intro ts
    have hnext := hstays (topWordsFrom (depthFrom 0 mid) ts).head?
    obtain ⟨hwords, hdepth'⟩ := topWordsFrom_rdropWhile 0 mid
    simp only [cutBefore]
    rw [if_pos]
    rw [htop, Bool.true_and, topWordFrom?_eq_head?, hdepth, topWordsFrom_append, List.head?_append,
      hwords, hdepth']
    exact hnext
  simp only [List.append_assoc, List.cons_append] at hcut ⊢
  rw [cutBefore_of_noneOpens, hbefore.depthFrom_eq, hcut, List.append_nil]
  rw [hbefore.depthFrom_eq]
  rw [topWordsFrom, if_pos htop] at hopens ⊢
  exact hopens

end

/-! ## Either order -/

/-- A condition ends on its closing parenthesis. -/
theorem IsCondition.trimEnd_append {c : Text} (hc : IsCondition c) (a : Text) {bs : Text}
    (hbs : ∀ b ∈ bs, isSpace b = true) : Text.trimEnd (a ++ c ++ bs) = a ++ c := by
  obtain ⟨ts, hts⟩ := hc.grouped
  have hlast : (a ++ c).getLast? = some ')' := by
    rw [← textOf_lex c, hts, group, List.cons_append, textOf_cons, textOf_append,
      ← List.append_assoc, ← List.append_assoc]
    exact List.getLast?_concat
  rw [trimEnd_append_of_all hbs, trimEnd_of_getLast? hlast (by decide)]

section

variable {s c k : Text} (hs : WellFormed s) (hline : ∀ t ∈ lex s, t.isLineComment = false)
  (hc : IsCondition c) (hk : IsSortKeys k)
include hs hline

/-- The clauses between the place of a condition and that of sort keys, without white space behind
them. -/
theorem trimEnd_textOf_mid :
    Text.trimEnd (textOf (cutBefore opensPaging 0 (cutBefore opensTail 0 (lex s)).2).1) =
      textOf ((cutBefore opensPaging 0 (cutBefore opensTail 0 (lex s)).2).1.rdropWhile
        Token.isBlank) := by
  have happ := cutBefore_append opensPaging 0 (cutBefore opensTail 0 (lex s)).2
  have hlex : lex (textOf (cutBefore opensPaging 0 (cutBefore opensTail 0 (lex s)).2).1) =
      (cutBefore opensPaging 0 (cutBefore opensTail 0 (lex s)).2).1 := by
    have hrest := @lex_textOf_cutBefore_snd opensTail s
    rw [← happ] at hrest
    exact lex_textOf_prefix hrest
  have hmem : ∀ t ∈ (cutBefore opensPaging 0 (cutBefore opensTail 0 (lex s)).2).1, t ∈ lex s := by
    intro t ht
    refine mem_lex_of_mem_cutBefore_snd opensTail ?_
    rw [← happ]
    exact List.mem_append_left _ ht
  have htrim := @lex_trimEnd
    (textOf (cutBefore opensPaging 0 (cutBefore opensTail 0 (lex s)).2).1)
  rw [hlex] at htrim
  rw [← htrim, textOf_lex]
  · exact fun t ht => hs.closed t (hmem t ht)
  · apply endsInLineComment_of_forall
    rw [hlex]
    exact fun t ht => hline t (hmem t ht)

omit hline in
/-- The first of these clauses, if there are any, begins with a word. -/
theorem rdropWhile_mid {t : Token} {mid : List Token}
    (hmid : (cutBefore opensPaging 0 (cutBefore opensTail 0 (lex s)).2).1 = t :: mid) :
    (t :: mid).rdropWhile Token.isBlank = t :: mid.rdropWhile Token.isBlank ∧ t.text ≠ [] := by
  have happ := cutBefore_append opensPaging 0 (cutBefore opensTail 0 (lex s)).2
  rw [hmid] at happ
  have hrest := cutBefore_rest hs
  rw [← happ, List.cons_append] at hrest
  have hblank := isBlank_of_isTopWord (opens_of_cutBefore_eq hrest).1
  refine ⟨rdropWhile_append_cons hblank [] mid, ?_⟩
  have ht : t ∈ lex s := by
    refine mem_lex_of_mem_cutBefore_snd opensTail ?_
    rw [← happ]
    exact List.mem_append_left _ List.mem_cons_self
  obtain ⟨c, body, htext, -⟩ := begins_of_mem_lex ht
  rw [htext]
  exact List.cons_ne_nil c body

include hc in
/-- What stands in front of sort keys in a statement with a condition. -/
theorem sortKeysLead_addCondition : sortKeysLead (addCondition c s) =
      Text.trimEnd (conditionLead s ++ c ++ textOf (gap (cutBefore opensTail 0 (lex s)).2) ++
        textOf (cutBefore opensPaging 0 (cutBefore opensTail 0 (lex s)).2).1) ++
      (if hasOrderBy (cutPaging s).1 then ", ".toList else " ORDER BY ".toList) ∧
    sortKeysBack (addCondition c s) = sortKeysBack s := by
  obtain ⟨hcut, hwellFormed, -⟩ := cutBefore_addCondition hs hline hc
  obtain ⟨hpaging, hby⟩ := cutBefore_paging_eq hwellFormed
  rw [hcut] at hpaging hby
  constructor
  · have hhead : (cutPaging (addCondition c s)).1 =
        conditionLead s ++ c ++ textOf (gap (cutBefore opensTail 0 (lex s)).2) ++
          textOf (cutBefore opensPaging 0 (cutBefore opensTail 0 (lex s)).2).1 := by
      rw [cutPaging, hpaging]
      simp only [textOf_append, textOf_lex]
    rw [sortKeysLead, hby, ← (cutBefore_paging_eq hs).2, hhead]
  · rw [sortKeysBack, sortKeysBack, hpaging, (cutBefore_paging_eq hs).1]

include hk in
/-- What stands in front of a condition in a statement with sort keys. -/
theorem conditionLead_addSortKeys : conditionLead (addSortKeys k s) = conditionLead s := by
  have hwellFormed := hs.addSortKeys hline hk
  have hline' := isLineComment_addSortKeys hs hline hk
  refine conditionLead_eq hs hline hwellFormed hline' ?_
  cases hmid : (cutBefore opensPaging 0 (cutBefore opensTail 0 (lex s)).2).1 with
  | nil =>
    rw [cutBefore_addSortKeys_of_nil hs hline hk hmid]
    exact leadTokens_rdropWhile_append _ (by decide)
  | cons t mid => rw [cutBefore_addSortKeys_of_cons hs hline hk hmid]

include hc hk

/-- A condition and sort keys make the same statement in either order. -/
theorem addSortKeys_addCondition :
    addSortKeys k (addCondition c s) = addCondition c (addSortKeys k s) := by
  obtain ⟨hlead, hback⟩ := sortKeysLead_addCondition hs hline hc
  have hmidText := trimEnd_textOf_mid hs hline
  have hjoint := lex_sortKeysJoint (hasOrderBy (cutPaging s).1)
  have happ := cutBefore_append opensPaging 0 (cutBefore opensTail 0 (lex s)).2
  rw [addSortKeys_eq_append k (addCondition c s), ← sortKeysBack, hlead, hback, addCondition_eq_append,
    conditionLead_addSortKeys hs hline hk, sortKeysBack, (cutBefore_paging_eq hs).1]
  cases hmid : (cutBefore opensPaging 0 (cutBefore opensTail 0 (lex s)).2).1 with
  | nil =>
    have hby : hasOrderBy (cutPaging s).1 = false := by
      rw [(cutBefore_paging_eq hs).2, hmid]
      rfl
    have hspaces := isSpace_of_mem_gap (cutBefore opensTail 0 (lex s)).2
    rw [cutBefore_addSortKeys_of_nil hs hline hk hmid, textOf_nil, List.append_nil,
      hc.trimEnd_append _ hspaces, hby]
    simp [sortKeysJoint, follow, blank]
  | cons t mid =>
    rw [hmid] at hmidText happ
    have hgap : gap (cutBefore opensTail 0 (lex s)).2 = [blank ' '] := by
      rw [← happ]
      rfl
    obtain ⟨hdrop, htext⟩ := rdropWhile_mid hs hmid
    have hne : Text.trimEnd (textOf (t :: mid)) ≠ [] := by
      rw [hmidText, hdrop, textOf_cons]
      exact List.append_ne_nil_of_left_ne_nil htext _
    rw [cutBefore_addSortKeys_of_cons hs hline hk hmid, hgap, trimEnd_append_of_ne_nil hne, hmidText,
      hdrop, ← hjoint]
    simp only [List.cons_append, follow, textOf_cons, textOf_append, textOf_lex, textOf_nil, blank,
      List.append_assoc, List.nil_append]

end

/-! ## Compound statements -/

/-- Whether a word combines SELECTs. -/
def isSetOperator (w : Text) : Bool := ["UNION", "INTERSECT", "EXCEPT", "MINUS"].any (isKeyword · w)

theorem isCompound_eq (s : Text) : isCompound s = (topWords s).any isSetOperator := rfl

/-- Sort keys combine no SELECTs unless one of their words is taken for that. -/
theorem isCompound_addSortKeys {s k : Text} (hs : WellFormed s)
    (hline : ∀ t ∈ lex s, t.isLineComment = false) (hk : IsSortKeys k)
    (hwords : ∀ w ∈ topWords k, isSetOperator w = false) :
    isCompound (addSortKeys k s) = isCompound s := by
  have hcut := isBalanced_cutPaging hs
  have hgap := isBalanced_gap (cutBefore opensPaging 0 (lex s)).2
  have hstatement : topWords s = topWordsFrom 0 (cutBefore opensPaging 0 (lex s)).1 ++
      topWordsFrom 0 (cutBefore opensPaging 0 (lex s)).2 := by
    have happ := topWordsFrom_append 0 (cutBefore opensPaging 0 (lex s)).1
      (cutBefore opensPaging 0 (lex s)).2
    rwa [cutBefore_append, hcut.1.depthFrom_eq] at happ
  have hsorted : topWords (addSortKeys k s) = topWords (sortKeysLead s) ++ topWords k ++
      topWordsFrom 0 (cutBefore opensPaging 0 (lex s)).2 := by
    rw [topWords, lex_addSortKeys_eq_append hs hline hk, follow_eq, topWordsFrom_append,
      (isBalanced_sortKeysLead_append hs hline hk).depthFrom_eq, topWordsFrom_append, topWordsFrom_gap,
      hgap.depthFrom_eq, List.nil_append, ← (lex_sortKeysLead_append hs hline hk).2]
    rfl
  have hkeys : (topWords k).any isSetOperator = false := by
    rw [List.any_eq_false]
    intro w hw
    simp [hwords w hw]
  have hlead : (topWords (sortKeysLead s)).any isSetOperator =
      (topWordsFrom 0 (cutBefore opensPaging 0 (lex s)).1).any isSetOperator := by
    rw [topWords_sortKeysLead hs (endsInLineComment_cutPaging hline), List.any_append]
    split
    · rw [List.any_nil, Bool.or_false]
    · have hby : ["ORDER".toList, "BY".toList].any isSetOperator = false := by decide
      rw [hby, Bool.or_false]
  rw [isCompound_eq, isCompound_eq, hsorted, hstatement, List.any_append, List.any_append, hkeys, hlead,
    Bool.or_false, List.any_append]

end QueryClauses.Sql
