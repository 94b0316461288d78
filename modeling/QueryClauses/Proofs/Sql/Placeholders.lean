import QueryClauses.Proofs.Sql.OpenComment

/-!
# The placeholders of a statement with a condition

A condition that is added to a well-formed statement stands there with its own elements, unless a
line comment comes last in front of it (`lex_addCondition_iff`). Its placeholders are found in the
first case; in the second only those of the statement are, and of the clauses that follow only what
is behind the next line feed (`mem_placeholderNames_addCondition_iff`).
-/

namespace QueryClauses.Sql

variable {s condition : Text}

theorem lex_of_openComment {a : List Token} {body : Text} (h : OpenComment a body s) :
    lex s = a ++ [⟨.comment, '-' :: '-' :: body⟩] := by
  have := h.lex_append []
  simpa [munchLine, lex_nil] using this

/-- The elements of a statement with a condition behind a line comment: the comment goes on through
the condition. -/
theorem lex_addCondition_of_endsInLineComment (h : endsInLineComment (cutTail s).1 = true)
    (hline : '\n' ∉ condition) :
    ∃ a body more, lex (conditionLead s) = a ++ [⟨.comment, '-' :: '-' :: body⟩] ∧
      namesOf a = placeholderNames (cutTail s).1 ∧
      lex (addCondition condition s) =
        a ++ ⟨.comment, '-' :: '-' :: (body ++ (condition ++ more))⟩ ::
          lex (munchLine (cutTail s).2).2 := by
  obtain ⟨a, body, hopen, hnames⟩ := openComment_conditionLead h
  refine ⟨a, body, (munchLine (textOf (follow (cutBefore opensTail 0 (lex s)).2))).1,
    lex_of_openComment hopen, hnames, ?_⟩
  rw [addCondition_eq_append, List.append_assoc, hopen.lex_append, munchLine_append_of_notMem hline,
    munchLine_follow]
  rfl

/-- A condition stands with its own elements exactly if no line comment comes last in front of it. -/
theorem lex_addCondition_iff (hs : WellFormed s) (hc : ∀ t ∈ lex condition, t.isClosed = true)
    (hline : '\n' ∉ condition) (hne : condition ≠ []) :
    (∃ back, lex (addCondition condition s) = lex (conditionLead s) ++ lex condition ++ back) ↔
      endsInLineComment (cutTail s).1 = false := by
  constructor
  · rintro ⟨back, hback⟩
    by_contra h
    rw [Bool.not_eq_false] at h
    obtain ⟨a, body, more, hlead, -, hlex⟩ := lex_addCondition_of_endsInLineComment h hline
    rw [hlex, hlead, List.append_assoc, List.append_assoc] at hback
    have hcomment := (List.cons.inj (List.append_cancel_left hback)).1
    simp only [Token.mk.injEq, List.cons.injEq, true_and] at hcomment
    have hnil := List.append_right_eq_self.1 hcomment
    exact hne (List.append_eq_nil_iff.1 hnil).1
  · exact fun h => ⟨_, lex_addCondition hs h hc⟩

/-- Names of placeholders in a condition are found in the statement that it was added to, if no line
comment comes last in front of it or the rest of the statement has them. -/
theorem mem_placeholderNames_addCondition_iff (hs : WellFormed s)
    (hc : ∀ t ∈ lex condition, t.isClosed = true) (hline : '\n' ∉ condition) :
    (∀ name ∈ namesOf (lex condition), name ∈ placeholderNames (addCondition condition s)) ↔
      endsInLineComment (cutTail s).1 = false ∨
        ∀ name ∈ namesOf (lex condition),
          name ∈ placeholderNames (cutTail s).1 ++ placeholderNames (munchLine (cutTail s).2).2 := by
  cases h : endsInLineComment (cutTail s).1 with
  | false =>
    simp only [true_or, iff_true]
    intro name hname
    rw [placeholderNames_eq, lex_addCondition hs h hc, namesOf_append, namesOf_append]
    exact List.mem_append_left _ (List.mem_append_right _ hname)
  | true =>
    obtain ⟨a, body, more, -, hnames, hlex⟩ := lex_addCondition_of_endsInLineComment h hline
    have hrest : placeholderNames (addCondition condition s) =
        placeholderNames (cutTail s).1 ++ placeholderNames (munchLine (cutTail s).2).2 := by
      rw [placeholderNames_eq, hlex, namesOf_append, hnames, placeholderNames_eq (munchLine _).2]
      rfl
    rw [hrest]
    simp

end QueryClauses.Sql
