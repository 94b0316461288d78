import QueryClauses.Proofs.Sql.Like.Keywords
import QueryClauses.Proofs.Text.Case

/-!
# What a comparison depends on

A comparison is read by its own text: what stands behind its pattern matters only for where the
pattern ends (`read?_of_pattern?`). Inside of it, an operand depends on what follows only for where
it ends (`operand?_of_endsOperand`), and so does a concatenation (`joinedAll_of_endsOperand`).
-/

namespace QueryClauses.Sql.Like

open CharClass

/-- No operand goes on with the start of the text. -/
def EndsOperand (r : Text) : Prop :=
  ∀ c ∈ r.head?, isWordChar c = false ∧ c ≠ '$' ∧ c ≠ '.' ∧ c ≠ '\''

theorem EndsOperand.endsName {r : Text} (h : EndsOperand r) : EndsName r := fun c hc =>
  ⟨(h c hc).1, (h c hc).2.1, (h c hc).2.2.1⟩

theorem endsOperand_nil : EndsOperand [] := by
  intro c hc
  cases hc

theorem endsOperand_cons {c : Char} (hc : isSpace c = true ∨ c = '|') (r : Text) :
    EndsOperand (c :: r) := by
  intro d hd
  cases hd
  rcases hc with hc | rfl
  · refine ⟨isWordChar_eq_false_of_isSpace hc, ?_, ?_, ?_⟩ <;> rintro rfl <;> cases hc
  · decide +kernel

theorem endsOperand_space {g : Text} (hg : ∀ c ∈ g, isSpace c = true) (hne : g ≠ []) (r : Text) :
    EndsOperand (g ++ r) := by
  cases g with
  | nil => exact absurd rfl hne
  | cons c g => exact endsOperand_cons (.inl (hg c List.mem_cons_self)) _

theorem endsOperand_bars {g : Text} (hg : ∀ c ∈ g, isSpace c = true) (r : Text) :
    EndsOperand (g ++ '|' :: r) := by
  cases g with
  | nil => exact endsOperand_cons (.inr rfl) r
  | cons c g => exact endsOperand_cons (.inl (hg c List.mem_cons_self)) _

/-! ## Operands -/

/-- The characters of a class at the start of a text are there in front of any text that they do not
go on into. -/
theorem takeWhile_append_congr {p : Char → Bool} {w r r' : Text} (h : (w ++ r).takeWhile p = w)
    (hr' : ∀ c ∈ r'.head?, c ∈ r.head? ∨ p c = false) :
    (w ++ r').takeWhile p = w ∧ (w ++ r').dropWhile p = r' := by
  have hall : ∀ c ∈ w, p c = true := fun c hc => List.mem_takeWhile_imp (by rwa [h])
  have hself : w.takeWhile p = w := List.takeWhile_eq_self_iff.2 hall
  have hr : ∀ c ∈ r.head?, p c = false := by
    intro c hc
    obtain ⟨u, rfl⟩ := List.head?_eq_some_iff.1 hc
    by_contra hpc
    rw [Bool.not_eq_false] at hpc
    rw [List.takeWhile_append_of_pos hall, List.takeWhile_cons_of_pos hpc] at h
    simpa using congrArg List.length h
  obtain ⟨htake, hdrop⟩ := takeWhile_append_of_end (List.dropWhile_eq_nil_iff.2 hall)
    fun c hc => (hr' c hc).elim (hr c) id
  exact ⟨htake.trans hself, hdrop⟩

theorem head?_any_append_congr {p q : Char → Bool} (hpq : ∀ c, p c = true → q c = true)
    {w r : Text} (h : (w ++ r).takeWhile q = w) (hany : (w ++ r).head?.any p = true) (r' : Text) :
    (w ++ r').head?.any p = true := by
  cases w with
  | nil =>
    cases r with
    | nil => cases hany
    | cons c r =>
      rw [List.nil_append, List.takeWhile_cons_of_pos (hpq c hany)] at h
      cases h
  | cons c w => exact hany

/-- A placeholder is read in front of any text that it does not go on into. -/
theorem placeholder?_congr {f r r' : Text} (h : placeholder? (f ++ r) = some (f, r))
    (hr' : ∀ c ∈ r'.head?, c ∈ r.head? ∨ isWordChar c = false) :
    placeholder? (f ++ r') = some (f, r') := by
  have hdigit : ∀ c ∈ r'.head?, c ∈ r.head? ∨ isDigit c = false := by
    intro c hc
    refine (hr' c hc).imp_right fun hword => ?_
    by_contra hd
    rw [Bool.not_eq_false] at hd
    rw [isWordChar_of_isDigit hd] at hword
    cases hword
  cases f with
  | nil => exact absurd rfl (placeholder?_append h).2
  | cons c w =>
    rw [List.cons_append, placeholder?] at h ⊢
    split at h
    · rename_i hc
      simp only [Option.some.injEq, Prod.mk.injEq, List.cons.injEq, true_and] at h
      obtain ⟨rfl, -⟩ := h
      rw [if_pos hc]
      rfl
    rename_i hmark
    rw [if_neg hmark]
    split at h
    · rename_i hc
      simp only [Option.some.injEq, Prod.mk.injEq, List.cons.injEq, true_and] at h
      obtain ⟨htake, hdrop⟩ := takeWhile_append_congr h.1 hr'
      have hany := head?_any_append_congr
        (fun c hc => isWordChar_of_isNameChar (isNameChar_of_isNameStart hc)) h.1 hc.2 r'
      rw [if_pos ⟨hc.1, hany⟩, htake, hdrop]
    rename_i hcolon
    split at h
    · rename_i hc
      simp only [Option.some.injEq, Prod.mk.injEq, List.cons.injEq, true_and] at h
      obtain ⟨htake, hdrop⟩ := takeWhile_append_congr h.1 hdigit
      have hany := head?_any_append_congr (fun c hc => hc) h.1 hc.2 r'
      have hne : ¬(c = ':' ∧ (w ++ r').head?.any isNameStart = true) := by
        rw [hc.1]
        rintro ⟨h, -⟩
        cases h
      rw [if_neg hne, if_pos ⟨hc.1, hany⟩, htake, hdrop]
    · cases h

/-- A literal that is read ends by itself, also where it is read up to one of two quotes. -/
theorem munchQuoted_literalBody {s : Text} {p : Text × Text} (h : literalBody s = some p) :
    munchQuoted '\'' p.1 = (p.1, []) ∧ p.1.count '\'' % 2 = 1 := by
  fun_induction literalBody s generalizing p with
  | case1 => cases h
  | case2 => cases h; exact ⟨rfl, rfl⟩
  | case3 => cases h
  | case4 s body rest hbody ih =>
    cases h
    obtain ⟨hmunch, hcount⟩ := ih hbody
    simp only [List.count_cons_self] at hcount ⊢
    exact ⟨by simp [munchQuoted, hmunch], by omega⟩
  | case5 => cases h; exact ⟨rfl, rfl⟩
  | case6 => cases h; exact ⟨rfl, rfl⟩
  | case7 c d s hc ih =>
    obtain ⟨q, hq, rfl⟩ := Option.map_eq_some_iff.1 h
    obtain ⟨hmunch, hcount⟩ := ih hq
    rw [List.count_cons_of_ne hc]
    refine ⟨?_, hcount⟩
    cases hq₁ : q.1 with
    | nil =>
      rw [hq₁] at hcount
      cases hcount
    | cons e body =>
      rw [hq₁] at hmunch
      simp [munchQuoted, hc, hmunch]

/-- A literal is read in front of any text that does not start on a quote. -/
theorem literalBody_congr {s r' : Text} {p : Text × Text} (h : literalBody s = some p)
    (hr' : r'.head? ≠ some '\'') : literalBody (p.1 ++ r') = some (p.1, r') := by
  obtain ⟨hself, hcount⟩ := munchQuoted_literalBody h
  exact literalBody_of_munchQuoted (munchQuoted_append_right (by rw [hself]) hcount hr') hcount

/-- A pattern is read in front of any text that it does not go on into. -/
theorem pattern?_congr {f r r' : Text} (h : pattern? (f ++ r) = some (f, r))
    (hquote : f.head? = some '\'' → r'.head? ≠ some '\'')
    (hr' : ∀ c ∈ r'.head?, c ∈ r.head? ∨ isWordChar c = false) :
    pattern? (f ++ r') = some (f, r') := by
  cases f with
  | nil => exact absurd rfl (pattern?_append h).2
  | cons c w =>
    rw [List.cons_append, pattern?] at h ⊢
    split at h
    · rename_i hq
      obtain ⟨q, hbody, hp⟩ := Option.map_eq_some_iff.1 h
      obtain rfl : q = (w, r) := by simpa [Prod.ext_iff] using hp
      rw [if_pos hq, literalBody_congr hbody (hquote (by rw [hq]; rfl)), Option.map_some]
    · rename_i hq
      rw [if_neg hq]
      exact placeholder?_congr (f := c :: w) h hr'

/-- A name, a literal or a placeholder is read in front of any text that no operand goes on into. -/
theorem operand?_congr {f r r' : Text} (h : operand? (f ++ r) = some (f, r)) (hr : EndsOperand r)
    (hr' : EndsOperand r') : operand? (f ++ r') = some (f, r') := by
  cases f with
  | nil => exact absurd rfl (operand?_append h).2
  | cons c w =>
    rw [List.cons_append, operand?] at h ⊢
    split at h
    · rename_i hc
      rw [if_pos hc]
      rw [nameBody_append_of_endsName hr.endsName] at h
      rw [nameBody_append_of_endsName hr'.endsName]
      simp only [Option.some.injEq, Prod.mk.injEq, List.cons.injEq, true_and] at h ⊢
      refine ⟨h.1, ?_⟩
      have hrest : (nameBody w).2 = [] := by simpa using h.2
      rw [hrest, List.nil_append]
    · rename_i hc
      rw [if_neg hc]
      refine pattern?_congr (f := c :: w) h (fun _ hq => ?_) fun d hd => .inr (hr' d hd).1
      exact (hr' _ hq).2.2.2 rfl

/-! ## Concatenations -/

theorem startsOperand_of_operand? {s : Text} {p : Text × Text} (h : operand? s = some p) :
    ∃ c u, p.1 = c :: u ∧ startsOperand c = true := by
  cases s with
  | nil => cases h
  | cons c s =>
    rw [operand?] at h
    split at h
    · rename_i hc
      cases h
      exact ⟨c, _, rfl, by rw [startsOperand, hc, Bool.true_or]⟩
    · obtain ⟨d, q, hp, hd⟩ := pattern?_head h
      exact ⟨d, q, hp, by rw [startsOperand, List.contains_iff_mem.2 hd, Bool.or_true]⟩

theorem isSpace_of_startsOperand {c : Char} (h : startsOperand c = true) :
    isSpace c = false ∧ c ≠ '|' := by
  constructor
  · by_contra hc
    rw [Bool.not_eq_false] at hc
    rw [startsOperand_of_isSpace hc] at h
    cases h
  · rintro rfl
    cases h

theorem isSpace_of_mem_gap {s : Text} : ∀ c ∈ (gap s).1, isSpace c = true := fun _ hc =>
  List.mem_takeWhile_imp hc

/-- One more operand of a concatenation: the white space around the bars, and the operand. -/
theorem joined?_eq_some_iff {s r : Text} {j : Text} :
    joined? s = some (j, r) ↔ ∃ g g' f, (∀ c ∈ g, isSpace c = true) ∧ (∀ c ∈ g', isSpace c = true) ∧
      j = g ++ '|' :: '|' :: (g' ++ f) ∧ s = j ++ r ∧ operand? (f ++ r) = some (f, r) := by
  constructor
  · intro h
    have happ := (joined?_append h).1
    unfold joined? at h
    split at h
    · rename_i x hx
      obtain ⟨q, hq, hp⟩ := Option.map_eq_some_iff.1 h
      obtain ⟨f, r'⟩ := q
      cases hp
      refine ⟨(gap s).1, (gap x).1, f, isSpace_of_mem_gap, isSpace_of_mem_gap, by simp, happ.symm, ?_⟩
      have happ' := (operand?_append hq).1
      rwa [happ']
    · cases h
  · rintro ⟨g, g', f, hg, hg', rfl, rfl, hf⟩
    obtain ⟨c, u, hc, hstart⟩ := startsOperand_of_operand? hf
    simp only at hc
    have hgap : gap (g ++ '|' :: '|' :: (g' ++ f ++ r)) = (g, '|' :: '|' :: (g' ++ f ++ r)) :=
      gap_of_isSpace hg (by rintro c ⟨⟩; rfl)
    have hgap' : gap (g' ++ (f ++ r)) = (g', f ++ r) := by
      refine gap_of_isSpace hg' fun d hd => ?_
      rw [hc] at hd
      cases hd
      exact (isSpace_of_startsOperand hstart).1
    rw [List.append_assoc] at hgap
    simp only [joined?, List.append_assoc, List.cons_append, hgap, hgap', hf, Option.map_some]

theorem joined?_congr {j r r' : Text} (h : joined? (j ++ r) = some (j, r)) (hr : EndsOperand r)
    (hr' : EndsOperand r') : joined? (j ++ r') = some (j, r') := by
  obtain ⟨g, g', f, hg, hg', hj, -, hf⟩ := joined?_eq_some_iff.1 h
  exact joined?_eq_some_iff.2 ⟨g, g', f, hg, hg', hj, rfl, operand?_congr hf hr hr'⟩

/-- What a further operand ends in front of: the end of an operand, or bars behind it. -/
theorem endsOperand_of_joined? {s : Text} {p : Text × Text} (h : joined? s = some p) :
    EndsOperand s := by
  obtain ⟨g, g', f, hg, hg', hj, rfl, hf⟩ := joined?_eq_some_iff.1 (by rw [h])
  rw [hj, List.append_assoc]
  exact endsOperand_bars hg _

theorem EndsOperand.append_congr {w r r' : Text} (h : EndsOperand (w ++ r)) (hr' : EndsOperand r') :
    EndsOperand (w ++ r') := by
  cases w with
  | nil => exact hr'
  | cons c w => exact h

theorem endsOperand_of_joinedAll {s : Text} (h : EndsOperand (joinedAll s).2) : EndsOperand s := by
  cases hs : joined? s with
  | none => rwa [joinedAll_of_joined?_eq_none hs] at h
  | some p => exact endsOperand_of_joined? hs

/-- A concatenation is read in front of any text that does not go on with its last operand and does
not add another. -/
theorem joinedAll_congr {s r' : Text} (hr : EndsOperand (joinedAll s).2) (hr' : EndsOperand r')
    (hnone : joinedAll r' = ([], r')) :
    joinedAll ((joinedAll s).1 ++ r') = ((joinedAll s).1, r') := by
  fun_induction joinedAll s with
  | case1 s hs => exact hnone
  | case2 s p hp ih =>
    obtain ⟨j, r⟩ := p
    have happ := (joined?_append hp).1
    simp only at happ hr ih ⊢
    subst happ
    have hends := endsOperand_of_joinedAll hr
    have hends' : EndsOperand ((joinedAll r).1 ++ r') :=
      EndsOperand.append_congr (by rwa [joinedAll_append]) hr'
    rw [List.append_assoc, joinedAll_of_joined?_eq_some (joined?_congr hp hends hends'), ih hr]

/-! ## Keywords -/

theorem keyword?_congr {ks s : Text} {p : Text × Text} (h : keyword? ks s = some p) (r' : Text) :
    keyword? ks (p.1 ++ r') = some (p.1, r') := by
  fun_induction keyword? ks s generalizing p with
  | case1 => cases h; rfl
  | case2 => cases h
  | case3 k ks c s hc ih =>
    obtain ⟨q, hq, rfl⟩ := Option.map_eq_some_iff.1 h
    simp [keyword?, hc, ih hq]
  | case4 => cases h

/-- A keyword starts on its first letter, in either case. -/
theorem head?_of_keyword? {k : Char} {ks s : Text} {p : Text × Text}
    (h : keyword? (k :: ks) s = some p) : ∃ c u, p.1 = c :: u ∧ isLetter k c = true := by
  cases s with
  | nil => cases h
  | cons c s =>
    rw [keyword?] at h
    split at h
    · rename_i hc
      obtain ⟨q, hq, rfl⟩ := Option.map_eq_some_iff.1 h
      exact ⟨c, q.1, rfl, hc⟩
    · cases h

theorem isAlpha_of_isLetter {k c : Char} (hk : k.isAlpha = true) (hne : k ≠ 'k')
    (h : isLetter k c = true) : c.isAlpha = true := by
  have hlower : c.toLower = k := by
    rw [isLetter, Bool.or_eq_true, beq_iff_eq] at h
    simpa [hne] using h
  exact isAlpha_of_isAlpha_toLower (by rw [hlower, hk])

theorem isSpace_of_isAlpha {c : Char} (h : c.isAlpha = true) : isSpace c = false ∧ c ≠ '|' := by
  constructor
  · exact isSpace_eq_false_of_isIdentChar (by simp [isIdentChar, Char.isAlphanum, h])
  · rintro rfl
    cases h

/-- LIKE starts on its first letter, and NOT is no LIKE. -/
theorem head?_of_like? {s : Text} {p : Text × Text} (h : keyword? "like".toList s = some p) :
    ∃ c u, p.1 = c :: u ∧ c.isAlpha = true ∧ isLetter 'n' c = false := by
  obtain ⟨c, u, hc, hletter⟩ := @head?_of_keyword? 'l' "ike".toList _ _ h
  refine ⟨c, u, hc, isAlpha_of_isLetter rfl (by decide) hletter, ?_⟩
  have hlower : c.toLower = 'l' := by
    rw [isLetter, Bool.or_eq_true, beq_iff_eq] at hletter
    simpa using hletter
  rw [isLetter, hlower]
  rfl

/-- In front of LIKE stand NOT and white space, or nothing. -/
theorem negation_cases (s : Text) :
    negation s = ([], [], s) ∨ ∃ word r, keyword? "not".toList s = some (word, r) ∧
      (gap r).1 ≠ [] ∧ negation s = (word, (gap r).1, (gap r).2) := by
  unfold negation
  split
  · exact .inl rfl
  · rename_i word r hkeyword
    split
    · exact .inl rfl
    · rename_i hgap
      exact .inr ⟨word, r, hkeyword, by simpa using hgap, rfl⟩

/-! ## Comparisons -/

/-- The white space of a comparison stands around its keywords: LIKE, or NOT and LIKE, in any case. -/
structure Comparison.Spaced (m : Comparison) : Prop where
  gap : m.gap ≠ [] ∧ ∀ c ∈ m.gap, isSpace c = true
  negation : m.negation = [] ∧ m.negationGap = [] ∨
    keyword? "not".toList m.negation = some (m.negation, []) ∧ m.negationGap ≠ [] ∧
      ∀ c ∈ m.negationGap, isSpace c = true
  keyword : keyword? "like".toList m.keyword = some (m.keyword, [])
  keywordGap : m.keywordGap ≠ [] ∧ ∀ c ∈ m.keywordGap, isSpace c = true

theorem Comparison.Spaced.negationGap_eq_nil {m : Comparison} (h : m.Spaced)
    (hnot : m.negation = []) : m.negationGap = [] := by
  rcases h.negation with ⟨-, hgap⟩ | ⟨hword, -⟩
  · exact hgap
  · rw [hnot] at hword
    cases hword

/-- Operands joined by bars, as they are read in front of any text that they do not go on into. -/
def IsConcatenation (s : Text) : Prop :=
  ∃ first more, s = first ++ more ∧ ∀ r, EndsOperand r → joinedAll r = ([], r) →
    operand? (first ++ (more ++ r)) = some (first, more ++ r) ∧ joinedAll (more ++ r) = (more, r)

theorem keyword?_self {ks s : Text} {p : Text × Text} (h : keyword? ks s = some p) :
    keyword? ks p.1 = some (p.1, []) := by
  have := keyword?_congr h []
  rwa [List.append_nil] at this

theorem spaced_of_read? {s rest : Text} {m : Comparison} (h : read? s = some (m, rest)) :
    m.Spaced := by
  cases read?_eq_some_iff.1 h with
  | @intro first s₁ more s₂ space s₃ word wordGap s₄ like s₅ likeGap s₆ pattern _ hfirst hmore
      hgap hspace hnegation hlike hlikeGap hlikeSpace hpattern =>
    refine ⟨⟨hspace, ?_⟩, ?_, keyword?_self hlike, ⟨hlikeSpace, ?_⟩⟩
    · have := @isSpace_of_mem_gap s₂
      rwa [hgap] at this
    · rcases negation_cases s₃ with hnone | ⟨word', r, hkeyword, hne, hsome⟩
      · rw [hnone] at hnegation
        cases hnegation
        exact .inl ⟨rfl, rfl⟩
      · rw [hsome] at hnegation
        cases hnegation
        exact .inr ⟨keyword?_self hkeyword, hne, isSpace_of_mem_gap⟩
    · have := @isSpace_of_mem_gap s₅
      rwa [hlikeGap] at this

theorem isConcatenation_of_read? {s rest : Text} {m : Comparison} (h : read? s = some (m, rest)) :
    IsConcatenation m.operand := by
  cases read?_eq_some_iff.1 h with
  | @intro first s₁ more s₂ space s₃ word wordGap s₄ like s₅ likeGap s₆ pattern _ hfirst hmore
      hgap hspace hnegation hlike hlikeGap hlikeSpace hpattern =>
    have hends : EndsOperand (joinedAll s₁).2 := by
      obtain ⟨d, hd, hdspace⟩ := head?_of_gap hgap hspace
      obtain ⟨v, rfl⟩ := List.head?_eq_some_iff.1 hd
      rw [hmore]
      exact endsOperand_cons (.inl hdspace) v
    refine ⟨first, more, rfl, fun r hr hnone => ?_⟩
    have happ := (operand?_append hfirst).1
    have hs₁ := joinedAll_append s₁
    have hmore' := joinedAll_congr hends hr hnone
    have hends₁ := endsOperand_of_joinedAll hends
    simp only [hmore] at happ hs₁ hmore'
    rw [← happ] at hfirst
    refine ⟨operand?_congr hfirst hends₁ (EndsOperand.append_congr (r := s₂) ?_ hr),
      hmore'⟩
    rwa [hs₁]

section

variable {m : Comparison} (h : m.Spaced)

include h

/-- The keywords of a comparison start on a letter, and are read as they are. -/
theorem keywords_of_spaced (r : Text) :
    (∃ c u, m.negation ++ (m.negationGap ++ (m.keyword ++ r)) = c :: u ∧ c.isAlpha = true) ∧
      negation (m.negation ++ (m.negationGap ++ (m.keyword ++ r))) =
        (m.negation, m.negationGap, m.keyword ++ r) := by
  obtain ⟨c, u, hc, halpha, hnot⟩ := head?_of_like? h.keyword
  simp only at hc
  rcases h.negation with ⟨hword, hgap⟩ | ⟨hword, hne, hspace⟩
  · have hnone : keyword? "not".toList (m.keyword ++ r) = none := by
      refine keyword?_eq_none_of_head ?_
      rw [hc]
      rintro d ⟨⟩
      exact hnot
    rw [hword, hgap, List.nil_append, List.nil_append, negation, hnone]
    exact ⟨⟨c, u ++ r, by rw [hc, List.cons_append], halpha⟩, rfl⟩
  · obtain ⟨d, v, hd, hletter⟩ := @head?_of_keyword? 'n' "ot".toList _ _ hword
    simp only at hd
    refine ⟨⟨d, _, by rw [hd, List.cons_append], isAlpha_of_isLetter rfl (by decide) hletter⟩, ?_⟩
    have hcspace : isSpace c = false := (isSpace_of_isAlpha halpha).1
    have hgap' : gap (m.negationGap ++ (m.keyword ++ r)) = (m.negationGap, m.keyword ++ r) := by
      refine gap_of_isSpace hspace ?_
      rw [hc]
      rintro e ⟨⟩
      exact hcspace
    have hempty : m.negationGap.isEmpty = false := by simpa using hne
    rw [negation, keyword?_congr hword]
    simp only [hgap', hempty, Bool.false_eq_true, if_false]

/-- A comparison is read in front of any text that its pattern ends in front of. -/
theorem read?_of_spaced {r : Text} (hoperand : IsConcatenation m.operand)
    (hpattern : pattern? (m.pattern ++ r) = some (m.pattern, r)) :
    read? (m.text ++ r) = some (m, r) := by
  obtain ⟨⟨c, u, hc, halpha⟩, hnegation⟩ := keywords_of_spaced h (m.keywordGap ++ (m.pattern ++ r))
  obtain ⟨first, more, hfirst, hread⟩ := hoperand
  obtain ⟨hgap, hnone⟩ := gap_space (r := m.negation ++ (m.negationGap ++ (m.keyword ++
    (m.keywordGap ++ (m.pattern ++ r))))) h.gap.2 (by
      rw [hc]
      rintro d ⟨⟩
      exact isSpace_of_isAlpha halpha)
  obtain ⟨hoperand, hmore⟩ := hread _ (endsOperand_space h.gap.2 h.gap.1 _) hnone
  have hkeywordGap : gap (m.keywordGap ++ (m.pattern ++ r)) = (m.keywordGap, m.pattern ++ r) := by
    obtain ⟨d, v, hd, hmem⟩ := pattern?_head hpattern
    simp only at hd
    refine gap_of_isSpace h.keywordGap.2 ?_
    rw [hd]
    rintro e ⟨⟩
    exact (isSpace_of_startsOperand (by rw [startsOperand, List.contains_iff_mem.2 hmem,
      Bool.or_true])).1
  have hs : m.text ++ r = first ++ (more ++ (m.gap ++ (m.negation ++ (m.negationGap ++ (m.keyword ++
      (m.keywordGap ++ (m.pattern ++ r))))))) := by
    simp [Comparison.text, Comparison.lead, hfirst]
  have hm : m = ⟨first ++ more, m.gap, m.negation, m.negationGap, m.keyword, m.keywordGap,
      m.pattern⟩ := by rw [← hfirst]
  rw [hs, hm]
  exact read?_eq_some_iff.2 (.intro hoperand hmore hgap h.gap.1 hnegation
    (keyword?_congr h.keyword _) hkeywordGap h.keywordGap.1 hpattern)

end

/-- What stands behind the first operand of a comparison. -/
theorem operand?_of_read? {s rest : Text} {m : Comparison} (h : read? s = some (m, rest)) :
    ∃ first more behind, m.operand = first ++ more ∧
      operand? s = some (first, more ++ behind) ∧ joinedAll (more ++ behind) = (more, behind) ∧
      behind = m.gap ++ (m.negation ++ (m.negationGap ++ (m.keyword ++ (m.keywordGap ++
        (m.pattern ++ rest))))) := by
  cases read?_eq_some_iff.1 h with
  | @intro first s₁ more s₂ space s₃ word wordGap s₄ like s₅ likeGap s₆ pattern _ hfirst hmore
      hgap hspace hnegation hlike hlikeGap hlikeSpace hpattern =>
    have h₂ := joinedAll_append s₁
    have h₃ := gap_append s₂
    have h₄ := negation_append s₃
    have h₅ := keyword?_append hlike
    have h₆ := gap_append s₅
    have h₇ := (pattern?_append hpattern).1
    simp only [hmore, hgap, hnegation, hlikeGap] at h₂ h₃ h₄ h₅ h₆ h₇
    exact ⟨first, more, s₂, rfl, by rw [h₂, hfirst], by rw [h₂, hmore], by rw [h₇, h₆, h₅, h₄, h₃]⟩

/-- What stands behind the first operand of a comparison does not go on with it. -/
theorem endsOperand_behind {more behind : Text} (hmore : joinedAll (more ++ behind) = (more, behind))
    (hbehind : EndsOperand behind) : EndsOperand (more ++ behind) := by
  refine endsOperand_of_joinedAll ?_
  rwa [hmore]

theorem pattern?_of_read? {s rest : Text} {m : Comparison} (h : read? s = some (m, rest)) :
    pattern? (m.pattern ++ rest) = some (m.pattern, rest) := by
  cases read?_eq_some_iff.1 h with
  | intro hfirst hmore hgap hspace hnegation hlike hlikeGap hlikeSpace hpattern =>
    have happ := (pattern?_append hpattern).1
    simp only at happ
    rwa [happ]

/-- A comparison is read in front of any text that its pattern ends in front of. -/
theorem read?_congr {s rest r : Text} {m : Comparison} (h : read? s = some (m, rest))
    (hpattern : pattern? (m.pattern ++ r) = some (m.pattern, r)) :
    read? (m.text ++ r) = some (m, r) :=
  read?_of_spaced (spaced_of_read? h) (isConcatenation_of_read? h) hpattern

/-- A comparison is read in front of any text that no operand goes on with. -/
theorem read?_of_endsOperand {s rest r : Text} {m : Comparison} (h : read? s = some (m, rest))
    (hr : EndsOperand r) : read? (m.text ++ r) = some (m, r) :=
  read?_congr h (pattern?_congr (pattern?_of_read? h) (fun _ hq => (hr _ hq).2.2.2 rfl)
    fun c hc => .inr (hr c hc).1)

end QueryClauses.Sql.Like
