import QueryClauses.Proofs.Sql.Like.ClosedOperand
import QueryClauses.Proofs.Sql.Like.Steps

/-!
# Concatenations around a folded comparison

To the left, a folded comparison takes in all operands of a concatenation that folding knows as such:
bars in front of it follow no operand at which a comparison could start (`concatenation_wrapped`).
Operands that folding does not know, a function call for one, stay outside, and so does everything
behind the pattern: bars there do not keep a comparison from being folded.
-/

namespace QueryClauses.Sql.Like

open CharClass

/-- The text ends, but for white space, on a concatenation sign. -/
def EndsOnBars (u : Text) : Prop :=
  ∃ w g, u = w ++ '|' :: '|' :: g ∧ ∀ c ∈ g, isSpace c = true

/-- The text starts, but for white space, on a concatenation sign. -/
def StartsOnBars (r : Text) : Prop :=
  ∃ g w, r = g ++ '|' :: '|' :: w ∧ ∀ c ∈ g, isSpace c = true

/-- Folding the statement comes to the end of `u`, and an operand may start there. -/
def OpensBehind (s u : Text) : Prop :=
  ∃ a b, steps true s = a ++ b ∧ taken a = u ∧ opensAfter true a = true

/-- The concatenation sign that a text at the start of the statement ends on follows an operand at
which folding may start. -/
def JoinsOperand (s before : Text) : Prop :=
  ∃ u f r g g' w, before = u ++ (f ++ (g ++ '|' :: '|' :: g')) ∧ (∀ c ∈ g, isSpace c = true) ∧
    (∀ c ∈ g', isSpace c = true) ∧ OpensBehind s u ∧ r = g ++ '|' :: '|' :: (g' ++ w) ∧
    s = u ++ (f ++ r) ∧ operand? (f ++ r) = some (f, r)

/-! ## Operands in front -/

/-- A comparison is read from every operand on that is joined to its own. -/
theorem read?_joined {s rest f g g' : Text} {m : Comparison} (h : read? s = some (m, rest))
    (hg : ∀ c ∈ g, isSpace c = true) (hg' : ∀ c ∈ g', isSpace c = true)
    (hf : operand? (f ++ (g ++ '|' :: '|' :: (g' ++ s))) =
      some (f, g ++ '|' :: '|' :: (g' ++ s))) :
    read? (f ++ (g ++ '|' :: '|' :: (g' ++ s))) =
      some ({ m with operand := f ++ (g ++ '|' :: '|' :: (g' ++ m.operand)) }, rest) := by
  cases read?_eq_some_iff.1 h with
  | @intro first s₁ more s₂ space s₃ word wordGap s₄ like s₅ likeGap s₆ pattern _ hfirst hmore
      hgap hspace hnegation hlike hlikeGap hlikeSpace hpattern =>
    have happ := (operand?_append hfirst).1
    simp only at happ
    have hjoined : joined? (g ++ '|' :: '|' :: (g' ++ s)) =
        some (g ++ '|' :: '|' :: (g' ++ first), s₁) := by
      refine joined?_eq_some_iff.2 ⟨g, g', first, hg, hg', rfl, ?_, by rwa [happ]⟩
      rw [← happ]
      simp
    have hall : joinedAll (g ++ '|' :: '|' :: (g' ++ s)) =
        (g ++ '|' :: '|' :: (g' ++ (first ++ more)), s₂) := by
      rw [joinedAll_of_joined?_eq_some hjoined]
      simp [hmore]
    exact read?_eq_some_iff.2 (.intro hf hall hgap hspace hnegation hlike hlikeGap hlikeSpace
      hpattern)

/-- Where an operand may start, folding folds the comparison that is read there. -/
theorem OpensBehind.fold_of_read? {s u v rest : Text} {m : Comparison} (h : OpensBehind s u)
    (hs : s = u ++ v) (hread : read? v = some (m, rest)) :
    ∃ a, steps true s = a ++ .fold m :: steps false rest ∧ taken a = u := by
  obtain ⟨a, b, hsteps, htaken, hopens⟩ := h
  have hv : taken b = v := by
    have := taken_steps true s
    rw [hsteps, taken_append, htaken, hs] at this
    exact List.append_cancel_left this
  have hb := steps_eq_of_append hsteps
  rw [hopens, hv, steps_fold hread] at hb
  exact ⟨a, by rw [hsteps, hb], htaken⟩

/-- Two steps at which two comparisons are folded do not overlap. -/
theorem not_foldsAt_inside {s before rest u : Text} {m m' : Comparison} {a : List Step}
    (h : FoldsAt s before m rest) (hsteps : steps true s = a ++ .fold m' :: steps false rest)
    (hu : u = taken a) (hlt : u.length < before.length) : False := by
  obtain ⟨a', b', hsteps', rfl, hrest⟩ := h
  subst hu
  rw [hsteps] at hsteps'
  rcases List.append_eq_append_iff.1 hsteps' with ⟨c, rfl, hc⟩ | ⟨c, rfl, hc⟩
  · cases c with
    | nil => simp at hlt
    | cons x c =>
      -- the second step would have to lie in what the first one leaves over
      obtain ⟨-, hc⟩ := List.cons.inj hc
      have htaken : taken (steps false rest) = taken (c ++ .fold m :: b') := congrArg taken hc
      rw [taken_steps, taken_append, taken_cons, hrest] at htaken
      have hlength := congrArg List.length htaken
      obtain ⟨-, hread, -⟩ := fold_of_steps_eq (steps_eq_of_append (hsteps.trans hsteps')).symm
      have := List.length_pos_iff.2 (read?_append hread).2
      simp only [Step.text, Comparison.text, Comparison.lead, List.length_append] at hlength this
      omega
  · rw [taken_append, List.length_append] at hlt
    omega

section

variable {s before rest : Text} {m : Comparison} (h : FoldsAt s before m rest)

include h

/-- Bars in front of a folded comparison follow no operand at which folding may start. -/
theorem FoldsAt.not_joinsOperand : ¬JoinsOperand s before := by
  rintro ⟨u, f, r, g, g', w, hbefore, hg, hg', hopens, hr, hs, hf⟩
  obtain rfl : w = m.text ++ rest := by
    have htext := h.text_eq
    rw [hs, hr, hbefore] at htext
    simpa using htext
  subst hr
  obtain ⟨a, hsteps, htaken⟩ := hopens.fold_of_read? hs (read?_joined h.read?_eq hg hg' hf)
  refine not_foldsAt_inside h hsteps htaken.symm ?_
  rw [hbefore]
  simp only [List.length_append, List.length_cons]
  omega

/-- Bars behind a comparison do not keep it from being folded. -/
theorem FoldsAt.foldsAt_bars {tail : Text} (htail : StartsOnBars tail) :
    FoldsAt (m.text ++ tail) [] m tail := by
  obtain ⟨g, w, rfl, hg⟩ := htail
  have hread := read?_of_endsOperand h.read?_eq (endsOperand_bars hg ('|' :: w))
  exact ⟨[], _, steps_fold hread, rfl, taken_steps _ _⟩

/-- A folded comparison takes in every operand at which folding may start that is joined to it on
the left: where bars stand in front of it, they follow something else. Nothing is asked of what
follows the pattern: in front of bars, the comparison is folded just the same, and the bars and what
they join stay outside. -/
theorem concatenation_wrapped :
    s = before ++ (m.text ++ rest) ∧
      (∃ x, (fold s).text = x ++ (m.folded ++ foldAt false rest)) ∧
      ¬JoinsOperand s before ∧
      ∀ tail, StartsOnBars tail → FoldsAt (m.text ++ tail) [] m tail ∧
        (fold (m.text ++ tail)).text = m.folded ++ foldAt false tail := by
  refine ⟨h.text_eq, h.fold_eq, h.not_joinsOperand, fun tail htail => ?_⟩
  have hfolds := h.foldsAt_bars htail
  refine ⟨hfolds, ?_⟩
  rw [← foldAt_true, foldAt_fold hfolds.read?_eq]

end

/-- In a concatenation of operands, all of it is wrapped. -/
theorem concatenation_wrapped_fullName :
    FoldsAt "u.first || ' ' || u.last LIKE :p".toList []
        ⟨"u.first || ' ' || u.last".toList, [' '], [], [], "LIKE".toList, [' '], ":p".toList⟩ [] ∧
      (∃ x, (fold "u.first || ' ' || u.last LIKE :p".toList).text =
        x ++ ("UPPER(u.first || ' ' || u.last) LIKE UPPER(:p)".toList ++ [])) := by
  have hfolds : FoldsAt "u.first || ' ' || u.last LIKE :p".toList []
      ⟨"u.first || ' ' || u.last".toList, [' '], [], [], "LIKE".toList, [' '], ":p".toList⟩ [] :=
    ⟨[], [], by decide +kernel, rfl, rfl⟩
  obtain ⟨-, hfold, -⟩ := concatenation_wrapped hfolds
  rw [foldAt_nil] at hfold
  exact ⟨hfolds, hfold⟩

/-- Behind an operand that ends on a closing parenthesis or a double quote, bars do not join: what
follows them is wrapped by itself. -/
theorem half_wrapped_behind_closed {s g g' rest : Text} {front back : List Token} {t : Token}
    {m : Comparison} (hlex : lex s = front ++ t :: back)
    (hcloses : ∃ c ∈ (Text.trimEnd (textOf front)).getLast?, c = ')' ∨ c = '"')
    (hbehind : textOf (t :: back) = g ++ '|' :: '|' :: (g' ++ (m.text ++ rest)))
    (hg : ∀ c ∈ g, isSpace c = true) (hg' : ∀ c ∈ g', isSpace c = true)
    (hread : read? (m.text ++ rest) = some (m, rest)) :
    (fold s).text = (fold (textOf front)).text ++
      (g ++ '|' :: '|' :: (g' ++ (m.folded ++ foldAt false rest))) := by
  obtain ⟨a, u, b, e, body, rfl, htext, he, hb⟩ := exists_isStop_of_closes hlex hcloses
  have hlex' : lex s = a ++ u :: (b ++ t :: back) := by
    rw [hlex, List.append_assoc, List.cons_append]
  rw [fold_append_of_isStop hlex' htext he hb, hbehind, ← foldAt_true (g ++ _),
    foldAt_bars hg hg', foldAt_fold hread]

/-- A pattern that goes on behind the placeholder is wrapped in part, and so is an expression whose
first operand is a function call. -/
theorem wrapped_in_part :
    (∃ before m rest, FoldsAt "WHERE a.name LIKE :p1 || '%'".toList before m rest ∧
        StartsOnBars rest) ∧
      (fold "WHERE a.name LIKE :p1 || '%'".toList).text =
        "WHERE UPPER(a.name) LIKE UPPER(:p1) || '%'".toList ∧
      (∃ before m rest, FoldsAt "LOWER(a.first) || a.last LIKE :p1".toList before m rest ∧
        EndsOnBars before) ∧
      (fold "LOWER(a.first) || a.last LIKE :p1".toList).text =
        "LOWER(a.first) || UPPER(a.last) LIKE UPPER(:p1)".toList := by
  have hpattern : steps true "WHERE a.name LIKE :p1 || '%'".toList =
      [word "WHERE".toList, blank ' '].map Step.copy ++
        Step.fold ⟨"a.name".toList, [' '], [], [], "LIKE".toList, [' '], ":p1".toList⟩ ::
        [blank ' ', single '|', single '|', blank ' ', ⟨.quoted, "'%'".toList⟩].map Step.copy := by
    decide +kernel
  have hoperand : steps true "LOWER(a.first) || a.last LIKE :p1".toList =
      [word "LOWER".toList, parenOpen, word "a".toList, single '.', word "first".toList, parenClose,
          blank ' ', single '|', single '|', blank ' '].map Step.copy ++
        Step.fold ⟨"a.last".toList, [' '], [], [], "LIKE".toList, [' '], ":p1".toList⟩ :: [] := by
    decide +kernel
  refine ⟨⟨"WHERE ".toList, _, " || '%'".toList, ⟨_, _, hpattern, by decide, by decide⟩, ?_⟩, ?_,
    ⟨"LOWER(a.first) || ".toList, _, [], ⟨_, _, hoperand, by decide, by decide⟩, ?_⟩, ?_⟩
  · exact ⟨[' '], " '%'".toList, rfl, List.forall_mem_singleton.2 rfl⟩
  · rw [← foldAt_true, foldAt_eq_written, hpattern]
    decide
  · exact ⟨"LOWER(a.first) ".toList, [' '], rfl, List.forall_mem_singleton.2 rfl⟩
  · rw [← foldAt_true, foldAt_eq_written, hoperand]
    decide

end QueryClauses.Sql.Like
