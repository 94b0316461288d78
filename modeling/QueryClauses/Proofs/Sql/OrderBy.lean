import QueryClauses.Proofs.Sql.OpenComment

/-!
# The ORDER BY of a statement with sort keys

A statement to which sort keys are added has an ORDER BY at top level (`hasOrderBy_addSortKeys`).
Behind a line comment it has one only if the words that are left make one
(`hasOrderBy_addSortKeys_of_endsInLineComment`): those in front, and those behind the next line feed
of the clauses that follow.
-/

namespace QueryClauses.Sql

theorem orderByAmong_append_left {u : List Text} (h : orderByAmong u = true) (v : List Text) :
    orderByAmong (u ++ v) = true := by
  fun_induction orderByAmong u with
  | case1 w x ws ih =>
    simp only [List.cons_append, orderByAmong, Bool.or_eq_true] at h ⊢
    exact h.imp id ih
  | case2 ws hws => simp at h

theorem orderByAmong_append_right (u : List Text) {v : List Text} (h : orderByAmong v = true) :
    orderByAmong (u ++ v) = true := by
  induction u with
  | nil => exact h
  | cons w u ih =>
    rcases huv : u ++ v with _ | ⟨x, ws⟩
    · rw [huv] at ih
      simp [orderByAmong] at ih
    · rw [huv] at ih
      rw [List.cons_append, huv, orderByAmong, ih, Bool.or_true]

section

variable {s keys : Text} (hs : WellFormed s)
include hs

/-- The words in front of sort keys: those of the statement, and ORDER BY if they have none. -/
theorem topWords_sortKeysLead (h : endsInLineComment (cutPaging s).1 = false) :
    topWords (sortKeysLead s) = topWordsFrom 0 (cutBefore opensPaging 0 (lex s)).1 ++
      if orderByAmong (topWordsFrom 0 (cutBefore opensPaging 0 (lex s)).1) then []
      else ["ORDER".toList, "BY".toList] := by
  have hhead : hasOrderBy (cutPaging s).1 =
      orderByAmong (topWordsFrom 0 (cutBefore opensPaging 0 (lex s)).1) := by
    rw [← lex_textOf_cutBefore_fst]
    rfl
  obtain ⟨hwords, hdepth⟩ := topWordsFrom_rdropWhile 0 (cutBefore opensPaging 0 (lex s)).1
  rw [hs.depthFrom_cutBefore opensPaging] at hdepth
  rw [topWords, (lex_sortKeysLead hs h).1, hhead, topWordsFrom_append, hwords, hdepth]
  cases orderByAmong (topWordsFrom 0 (cutBefore opensPaging 0 (lex s)).1) <;> rfl

theorem hasOrderBy_sortKeysLead (h : endsInLineComment (cutPaging s).1 = false) :
    hasOrderBy (sortKeysLead s) = true := by
  rw [hasOrderBy, topWords_sortKeysLead hs h]
  split
  · rwa [List.append_nil]
  · exact orderByAmong_append_right _ (by decide)

theorem hasOrderBy_addSortKeys (h : endsInLineComment (cutPaging s).1 = false)
    (hk : ∀ t ∈ lex keys, t.isClosed = true) : hasOrderBy (addSortKeys keys s) = true := by
  rw [hasOrderBy, topWords, lex_addSortKeys hs h hk, List.append_assoc, topWordsFrom_append]
  exact orderByAmong_append_left (hasOrderBy_sortKeysLead hs h) _

theorem hasOrderBy_addSortKeys_of_endsInLineComment
    (h : endsInLineComment (cutPaging s).1 = true) (hk : '\n' ∉ keys) :
    hasOrderBy (addSortKeys keys s) =
      orderByAmong (topWords (cutPaging s).1 ++ topWords (munchLine (cutPaging s).2).2) := by
  obtain ⟨a, t, b, body, hlex, hl, hb, hopen⟩ := openComment_sortKeysLead h
  have hquiet : ∀ u ∈ t :: b, u.kind = .other ∨ u.kind = .comment := by
    intro u hu
    rcases List.mem_cons.1 hu with rfl | hu
    · simp only [Token.isLineComment, Bool.and_eq_true, beq_iff_eq] at hl
      exact .inr hl.1
    · exact .inl (kind_of_isBlank (hb u hu))
  obtain ⟨hwords, hdepth⟩ := topWordsFrom_of_forall hquiet (depthFrom 0 a)
  have hdepth₀ : depthFrom 0 a = 0 := by
    rw [← hdepth, ← depthFrom_append, ← hlex]
    exact (congrArg (depthFrom 0) (lex_textOf_cutBefore_fst _)).trans (hs.depthFrom_cutBefore _)
  unfold hasOrderBy topWords
  rw [addSortKeys_eq_append, List.append_assoc, hopen.lex_append, munchLine_append_of_notMem hk,
    munchLine_follow, hlex, topWordsFrom_append, topWordsFrom_append, hwords, hdepth₀, List.append_nil]
  rfl

end

end QueryClauses.Sql
