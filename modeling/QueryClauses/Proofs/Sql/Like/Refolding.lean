import QueryClauses.Proofs.Sql.Like.Folded

/-!
# Folding twice

Folding a second time reads the statement as the first time did, with one difference: behind a folded
comparison stands a parenthesis now, so an operand may start where it could not start before. What is
read in a folded text could be read in the text that was folded (`read?_of_foldAt`), and a comparison
that stands right behind another one, with no character between, is left for the second time
(`read?_foldAt_false_iff`). So folding twice is folding once exactly if no such comparison is left
(`fold_fold_iff`).
-/

namespace QueryClauses.Sql.Like

open CharClass

/-! ## What is read in a folded text -/

theorem whole_of_begins {c : Char} {s r : Text} {t : Token} (h : Begins c s t r) :
    Whole t.text r := by
  have hlex : lex (c :: s) = [t] ++ lex r := lex_eq_cons_iff.2 ⟨c, s, r, rfl, h, rfl⟩
  simpa using whole_textOf hlex

/-- Folding changes nothing, or nothing up to a folded comparison: there an operand may start at the
start of the text, or behind the last character before it. -/
theorem foldAt_cases (mayStart : Bool) (s : Text) :
    foldAt mayStart s = s ∨ ∃ u rest z, s = u ++ rest ∧
      foldAt mayStart s = u ++ ("UPPER(".toList ++ z) ∧ Whole u ("UPPER(".toList ++ z) ∧
      u.getLast?.elim mayStart isBoundary = true := by
  induction mayStart, s using steps_induction with
  | nil mayStart => exact .inl (foldAt_nil mayStart)
  | copy mayStart c s t r h hread ih =>
    obtain ⟨body, htext, rfl, hbegins⟩ := begins_foldAt h
    rw [foldAt_copy h hread]
    rcases ih with hsame | ⟨u, rest, z, rfl, hfold, hwhole, hlast⟩
    · left
      rw [hsame, htext, List.cons_append]
    · right
      rw [hfold] at hbegins
      refine ⟨t.text ++ u, rest, z, by simp [htext], by rw [hfold, List.append_assoc],
        (whole_of_begins hbegins).append hwhole, ?_⟩
      cases u with
      | nil =>
        simp only [List.getLast?_nil, Option.elim_none] at hlast
        obtain ⟨d, hd, hbound⟩ := (Option.any_eq_true _ _).1 hlast
        rwa [List.append_nil, hd]
      | cons d u =>
        rw [List.getLast?_append_of_ne_nil _ (List.cons_ne_nil d u)]
        cases hd : (d :: u).getLast? with
        | none => simp at hd
        | some e => rwa [hd] at hlast
  | fold s m rest h ih =>
    right
    have hfold := foldAt_fold h
    rw [folded_append] at hfold
    exact ⟨[], s, _, rfl, hfold, .nil, rfl⟩

theorem suffix_of_not_mem {p u v : Text} {c : Char} (h : p <:+ u ++ c :: v) (hc : c ∉ p) :
    p <:+ v := by
  rcases List.suffix_or_suffix_of_suffix h (List.suffix_append u (c :: v)) with h | h
  · rcases List.suffix_cons_iff.1 h with rfl | h
    · exact absurd List.mem_cons_self hc
    · exact h
  · exact absurd (h.subset List.mem_cons_self) hc

/-- A pattern ends on its closing quote, is a question mark, or has no character that an operand may
start behind. -/
theorem getLast?_pattern {f r : Text} (h : pattern? (f ++ r) = some (f, r)) :
    f = ['?'] ∨ f.getLast? = some '\'' ∨
      (∃ c ∈ [':', '$'], f.head? = some c) ∧ ∀ c ∈ f, isBoundary c = false := by
  rcases pattern?_cases h with hmark | ⟨body, rfl, hbody⟩ | ⟨hhead, hchars⟩
  · exact .inl hmark
  · obtain ⟨hself, hcount⟩ := munchQuoted_literalBody hbody
    refine .inr (.inl ?_)
    rw [List.getLast?_cons, munchQuoted_getLast? (by rw [hself]) (by simpa using hcount)]
    rfl
  · exact .inr (.inr ⟨hhead, fun c hc => (hchars c hc).2⟩)

/-- A comparison that is read in front of the name of the function does not go on into it. -/
theorem prefix_of_read?_upper {u q : Text} {m : Comparison}
    (h : read? (u ++ "UPPER".toList) = some (m, q))
    (hlast : ∀ c ∈ u.getLast?, isBoundary c = true) : m.text <+: u := by
  obtain ⟨happ, -⟩ := read?_append h
  simp only at happ
  rcases List.append_eq_append_iff.1 happ with ⟨w, hw, -⟩ | ⟨v, hv, hupper⟩
  · exact ⟨w, hw.symm⟩
  by_contra hprefix
  have hne : v ≠ [] := by
    rintro rfl
    rw [List.append_nil] at hv
    exact hprefix (hv ▸ List.prefix_refl _)
  have hletters : ∀ c ∈ v, c ∉ ['?', '\'', ':', '$'] := by
    have hall : ∀ c ∈ "UPPER".toList, c ∉ ['?', '\'', ':', '$'] := by simp
    intro c hc
    exact hall c (by rw [hupper]; exact List.mem_append_left q hc)
  have hpattern := pattern?_of_read? h
  have hsuffix : m.pattern <:+ u ++ v := ⟨_, by rw [← hv, ← text_eq_front]⟩
  -- the last character of the pattern is one of the name's letters
  obtain ⟨d, hd⟩ : ∃ d, v.getLast? = some d := ⟨_, List.getLast?_eq_some_getLast hne⟩
  have hend : m.pattern.getLast? = some d := by
    obtain ⟨x, hx⟩ := hsuffix
    have := congrArg List.getLast? hx
    rwa [List.getLast?_append_of_ne_nil _ (pattern?_append hpattern).2,
      List.getLast?_append_of_ne_nil _ hne, hd] at this
  have hdv := hletters d (List.mem_of_getLast? hd)
  rcases getLast?_pattern hpattern with hmark | hquote | ⟨⟨c, hc, hhead⟩, hbound⟩
  · rw [hmark] at hend
    cases hend
    exact hdv (by simp)
  · rw [hquote] at hend
    cases hend
    exact hdv (by simp)
  · -- and so is the first one, as no operand may start behind a character of the pattern
    have hsuffix' : m.pattern <:+ v := by
      rcases List.eq_nil_or_concat u with rfl | ⟨u', b, rfl⟩
      · exact hsuffix
      · rw [List.concat_eq_append, List.append_assoc] at hsuffix
        refine suffix_of_not_mem hsuffix fun hb => ?_
        have := hlast b (by simp)
        rw [hbound b hb] at this
        cases this
    refine hletters c (hsuffix'.subset (List.mem_of_head? hhead)) ?_
    simp only [List.mem_cons, List.not_mem_nil, or_false] at hc ⊢
    exact .inr (.inr hc)

/-- A comparison that cuts no literal in two has no literal as a pattern that goes on. -/
theorem not_open_of_whole {s rest : Text} {m : Comparison} (h : read? s = some (m, rest))
    (hwhole : Whole m.text rest) (hliteral : m.pattern.head? = some '\'') :
    rest.head? ≠ some '\'' := by
  intro hend
  obtain ⟨body, r, hp, hmunch, rfl, -⟩ := open_of_read? h hliteral hend
  have hfront := whole_front h
  rw [hp] at hfront
  have hinside := isOpaque_of_open hfront hmunch (k := 0) (by
    rw [Text.byteLength_cons]
    have := '\''.utf8Size_pos
    omega)
  rw [← hp, ← text_eq_front, ← List.append_assoc, ← text_eq_front, Nat.add_zero,
    hwhole.isOpaque_eq_false] at hinside
  cases hinside

/-- What is read in a folded text is read in the text that was folded. -/
theorem read?_of_foldAt {mayStart : Bool} {s q : Text} {m : Comparison}
    (h : read? (foldAt mayStart s) = some (m, q)) : ∃ rest, read? s = some (m, rest) := by
  rcases foldAt_cases mayStart s with hsame | ⟨u, rest, z, rfl, hfold, hwhole, hlast⟩
  · rw [hsame] at h
    exact ⟨q, h⟩
  have hquiet : ∀ c ∈ "UPPER".toList, isQuiet c = true := fun c hc =>
    isQuiet_of_isIdentChar (List.all_eq_true.1 (by decide) c hc)
  have hfront : Whole u ("UPPER".toList ++ '(' :: z) := hwhole
  have hupper := hfront.append (whole_of_isQuiet hquiet _)
  have hsplit : u ++ ("UPPER(".toList ++ z) = u ++ "UPPER".toList ++ '(' :: z := by simp
  rw [hfold, hsplit, read?_append_stop rfl hupper] at h
  obtain ⟨⟨m', q'⟩, hread, hm⟩ := Option.map_eq_some_iff.1 h
  obtain ⟨rfl, rfl⟩ := Prod.ext_iff.1 hm
  simp only at hread ⊢
  obtain ⟨w, rfl⟩ : m'.text <+: u := by
    refine prefix_of_read?_upper hread fun c hc => ?_
    rw [hc] at hlast
    exact hlast
  have hq' : q' = w ++ "UPPER".toList := by
    have happ := (read?_append hread).1
    simp only [List.append_assoc] at happ
    exact List.append_cancel_left happ
  subst hq'
  have hpattern := pattern?_of_read? hread
  refine ⟨w ++ rest, ?_⟩
  rw [List.append_assoc]
  refine read?_congr hread ?_
  cases w with
  | nil =>
    -- an operand may start behind the pattern, so it is a question mark
    have hend : (m'.text ++ []).getLast? = m'.pattern.getLast? := by
      rw [List.append_nil, text_eq_front,
        List.getLast?_append_of_ne_nil _ (pattern?_append hpattern).2]
    obtain ⟨d, hd⟩ : ∃ d, m'.pattern.getLast? = some d :=
      ⟨_, List.getLast?_eq_some_getLast (pattern?_append hpattern).2⟩
    rw [hend, hd] at hlast
    rcases getLast?_pattern hpattern with hmark | hquote | ⟨-, hbound⟩
    · rw [hmark]
      rfl
    · rw [hquote] at hd
      cases hd
      cases hlast
    · rw [Option.elim_some, hbound d (List.mem_of_getLast? hd)] at hlast
      cases hlast
  | cons d w =>
    refine pattern?_congr hpattern (fun hliteral => ?_) fun c hc => .inl hc
    have hread' := read?_append_stop (e := '(') rfl hupper
    rw [hread] at hread'
    have hend := not_open_of_whole hread' (whole_text rfl hupper hread).1 hliteral
    exact hend

/-! ## A comparison where no operand may start -/

/-- A comparison stands at the start of a text, and none starts later in it: it has one operand, no
NOT, and its pattern is no operand of a further comparison. -/
def LeavesComparison (s : Text) : Prop :=
  ∃ m r rest, read? s = some (m, rest) ∧ operand? s = some (m.operand, r) ∧ m.negation = [] ∧
    read? (m.pattern ++ rest) = none

/-- From its second operand on, a comparison is read as well. -/
theorem read?_behind_bars {s s₁ r rest first f g g' : Text} {m : Comparison}
    (h : read? s = some (m, rest)) (hfirst : operand? s = some (first, s₁))
    (hjoined : joined? s₁ = some (g ++ '|' :: '|' :: (g' ++ f), r))
    (hf : operand? (f ++ r) = some (f, r)) : ∃ m', read? (f ++ r) = some (m', rest) := by
  cases read?_eq_some_iff.1 h with
  | intro hfirst' hmore hgap hspace hnegation hlike hlikeGap hlikeSpace hpattern =>
    rw [hfirst] at hfirst'
    cases hfirst'
    rw [joinedAll_of_joined?_eq_some hjoined] at hmore
    cases hmore
    exact ⟨_, read?_eq_some_iff.2 (.intro hf rfl hgap hspace hnegation hlike hlikeGap hlikeSpace
      hpattern)⟩

/-- No comparison is read at an operand that is joined to a folded comparison. -/
theorem read?_eq_none_of_bars {f g g' z : Text}
    (hf : operand? (f ++ (g ++ '|' :: '|' :: (g' ++ ("UPPER(".toList ++ z)))) =
      some (f, g ++ '|' :: '|' :: (g' ++ ("UPPER(".toList ++ z))))
    (hg : ∀ c ∈ g, isSpace c = true) (hg' : ∀ c ∈ g', isSpace c = true) :
    read? (f ++ (g ++ '|' :: '|' :: (g' ++ ("UPPER(".toList ++ z)))) = none := by
  have hname : operand? ("UPPER".toList ++ '(' :: z) = some ("UPPER".toList, '(' :: z) :=
    operand?_word ⟨by decide, List.all_eq_true.1 (by decide)⟩ (endsName_stop rfl z)
  have hjoined : joined? (g ++ '|' :: '|' :: (g' ++ ("UPPER(".toList ++ z))) =
      some (g ++ '|' :: '|' :: (g' ++ "UPPER".toList), '(' :: z) :=
    joined?_eq_some_iff.2 ⟨g, g', "UPPER".toList, hg, hg', rfl, by simp, hname⟩
  refine read?_eq_none_of_gap hf ?_
  rw [joinedAll_of_joined?_eq_some hjoined, joinedAll_stop rfl, gap_stop rfl]

/-- From NOT on, a comparison is read as well. -/
theorem read?_negation_of_read? {s rest : Text} {m : Comparison} (h : read? s = some (m, rest))
    (hne : m.negation ≠ []) :
    read? (m.negation ++ (m.negationGap ++ (m.keyword ++ (m.keywordGap ++ (m.pattern ++ rest))))) =
      some (⟨m.negation, m.negationGap, [], [], m.keyword, m.keywordGap, m.pattern⟩, rest) := by
  have hspaced := spaced_of_read? h
  have hword := hspaced.isWordOf_negation hne
  obtain ⟨-, hgap⟩ := hspaced.negation.resolve_left fun h => hne h.1
  have hoperand : IsConcatenation m.negation :=
    ⟨m.negation, [], by simp, fun r hr hnone => ⟨operand?_of_isWordOf hword hr.endsName, hnone⟩⟩
  have hpattern := pattern?_of_read? h
  have hread := @read?_of_spaced
    ⟨m.negation, m.negationGap, [], [], m.keyword, m.keywordGap, m.pattern⟩
    ⟨hgap, .inl ⟨rfl, rfl⟩, hspaced.keyword, hspaced.keywordGap⟩ rest hoperand hpattern
  simpa [Comparison.text, Comparison.lead] using hread

section

variable {s rest : Text} {m : Comparison} (h : read? s = some (m, rest))

include h

/-- A comparison that no operand may start at is copied up to its second operand, up to NOT or up to
its pattern. -/
theorem foldAt_false_of_read? :
    (∃ first g g' z, operand? s = some (first, g ++ '|' :: '|' :: (g' ++ z)) ∧
        (∀ c ∈ g, isSpace c = true) ∧ (∀ c ∈ g', isSpace c = true) ∧ first ≠ m.operand ∧
        foldAt false s = first ++ (g ++ '|' :: '|' :: (g' ++ foldAt true z)) ∧ read? z ≠ none) ∨
      ∃ r, operand? s = some (m.operand, r) ∧ EndsOperand r ∧
        foldAt false s = m.operand ++ (m.gap ++ foldAt true (m.negation ++ (m.negationGap ++
          (m.keyword ++ (m.keywordGap ++ (m.pattern ++ rest)))))) := by
  obtain ⟨first, more, behind, hoperand, hfirst, hmore, hbehind⟩ := operand?_of_read? h
  have hspaced := spaced_of_read? h
  have happ := (operand?_append hfirst).1
  simp only at happ
  have hends : EndsOperand (more ++ behind) := by
    refine endsOperand_behind hmore ?_
    rw [hbehind]
    exact endsOperand_space hspaced.gap.2 hspaced.gap.1 _
  have hcopy : foldAt false s = first ++ foldAt (first == ['?']) (more ++ behind) := by
    rw [← happ] at hfirst ⊢
    exact foldAt_operand hfirst (fun _ hq => (hends _ hq).2.2.2 rfl) nofun
  cases hjoined : joined? (more ++ behind) with
  | none =>
    rw [joinedAll_of_joined?_eq_none hjoined] at hmore
    obtain rfl : [] = more := (Prod.ext_iff.1 hmore).1
    rw [List.append_nil] at hoperand
    right
    refine ⟨behind, by rw [hoperand, hfirst]; rfl, hends, ?_⟩
    have hgap : (!m.gap.isEmpty) = true := by simpa using hspaced.gap.1
    rw [hcopy, hoperand, List.nil_append, hbehind, foldAt_space hspaced.gap.2, hgap, Bool.or_true]
  | some p =>
    obtain ⟨j, r⟩ := p
    obtain ⟨g, g', f, hg, hg', rfl, hs, hf⟩ := joined?_eq_some_iff.1 hjoined
    obtain ⟨m', hread⟩ := read?_behind_bars h hfirst hjoined hf
    have hs' : more ++ behind = g ++ '|' :: '|' :: (g' ++ (f ++ r)) := by rw [hs]; simp
    left
    refine ⟨first, g, g', f ++ r, by rw [hfirst, hs'], hg, hg', ?_, ?_, ?_⟩
    · intro heq
      rw [joinedAll_of_joined?_eq_some hjoined] at hmore
      have hne : more ≠ [] := by
        rintro rfl
        simpa using (Prod.ext_iff.1 hmore).1
      rw [hoperand] at heq
      exact hne (by simpa using heq)
    · rw [hcopy, hs', foldAt_bars hg hg']
    · rw [hread]
      exact Option.some_ne_none _

/-- A pattern starts on no white space, no bar and no letter. -/
theorem head?_pattern_append (r : Text) : ∀ c ∈ (m.pattern ++ r).head?, isSpace c = false ∧ c ≠ '|' ∧
    isLetter 'n' c = false ∧ isLetter 'l' c = false := by
  obtain ⟨c, q, hc, hmem⟩ := pattern?_head (pattern?_of_read? h)
  simp only at hc
  rw [hc]
  rintro d ⟨⟩
  simp only [List.mem_cons, List.not_mem_nil, or_false] at hmem
  rcases hmem with rfl | rfl | rfl | rfl <;> decide

/-- Without NOT, a comparison that no operand may start at is copied up to its pattern. -/
theorem foldAt_keyword (hnot : m.negation = []) :
    foldAt true (m.negation ++ (m.negationGap ++ (m.keyword ++ (m.keywordGap ++
        (m.pattern ++ rest))))) =
      m.keyword ++ (m.keywordGap ++ foldAt true (m.pattern ++ rest)) := by
  have hspaced := spaced_of_read? h
  rw [hnot, hspaced.negationGap_eq_nil hnot, List.nil_append, List.nil_append,
    foldAt_isWordOf_behind hspaced.isWordOf_keyword hspaced.keywordGap.2 hspaced.keywordGap.1
      (head?_pattern_append h rest)]

/-- A pattern that no comparison is read at is copied. -/
theorem foldAt_pattern (hread : read? (m.pattern ++ rest) = none) :
    ∃ r, foldAt true (m.pattern ++ rest) = m.pattern ++ r ∧
      pattern? (m.pattern ++ r) = some (m.pattern, r) := by
  have hpattern := pattern?_of_read? h
  by_cases hopen : m.pattern.head? = some '\'' ∧ rest.head? = some '\''
  · obtain ⟨body, r, hp, hmunch, -, -⟩ := open_of_read? h hopen.1 hopen.2
    refine ⟨rest, ?_, hpattern⟩
    rw [hp, List.cons_append] at hread ⊢
    exact foldAt_open hmunch fun _ => hread
  · have hend : m.pattern.head? = some '\'' → rest.head? ≠ some '\'' := fun hliteral hend =>
      hopen ⟨hliteral, hend⟩
    refine ⟨foldAt (m.pattern == ['?']) rest,
      foldAt_operand (operand?_of_pattern? hpattern) hend fun _ => hread, ?_⟩
    rcases head?_foldAt (m.pattern == ['?']) rest with hhead | ⟨hmark, -, -⟩
    · refine pattern?_congr hpattern (fun hliteral => ?_) fun c hc => .inl (by rwa [← hhead])
      rw [hhead]
      exact hend hliteral
    · rw [beq_iff_eq] at hmark
      rw [hmark]
      rfl

end

theorem foldAt_upper_of_read? {z : Text} (h : read? z ≠ none) :
    ∃ z', foldAt true z = "UPPER(".toList ++ z' := by
  obtain ⟨⟨m, rest⟩, hread⟩ := Option.ne_none_iff_exists'.1 h
  exact ⟨_, by rw [foldAt_fold hread, folded_append]⟩

/-- Where no operand may start, folding leaves a comparison at the start of the text exactly if none
starts later in it. -/
theorem read?_foldAt_false_iff {s : Text} :
    read? (foldAt false s) ≠ none ↔ LeavesComparison s := by
  constructor
  · intro hne
    obtain ⟨⟨m, q⟩, hq⟩ := Option.ne_none_iff_exists'.1 hne
    obtain ⟨rest, hread⟩ := read?_of_foldAt hq
    have hspaced := spaced_of_read? hread
    rcases foldAt_false_of_read? hread with
      ⟨first, g, g', z, hfirst, hg, hg', -, hfold, hz⟩ | ⟨r, hoperand, hends, hfold⟩
    · obtain ⟨z', hz'⟩ := foldAt_upper_of_read? hz
      have happ := (operand?_append hfirst).1
      have hends : ∀ z, EndsOperand (g ++ '|' :: '|' :: (g' ++ z)) := fun z => endsOperand_bars hg _
      rw [hz'] at hfold
      rw [← happ] at hfirst
      rw [hfold, read?_eq_none_of_bars (operand?_congr hfirst (hends z) (hends _)) hg hg'] at hq
      cases hq
    · have happ := (operand?_append hoperand).1
      simp only at happ
      have hcongr : ∀ v, operand? (m.operand ++ (m.gap ++ v)) = some (m.operand, m.gap ++ v) := by
        intro v
        rw [← happ] at hoperand
        exact operand?_congr hoperand hends (endsOperand_space hspaced.gap.2 hspaced.gap.1 v)
      have hnot : m.negation = [] := by
        by_contra hnot
        obtain ⟨z, hz⟩ := foldAt_upper_of_read? (by
          rw [read?_negation_of_read? hread hnot]
          exact Option.some_ne_none _)
        have hbreaks := breaksOff_space hspaced.gap.2 (breaksOff_of_head? (head?_upper z))
        rw [hfold, hz, hbreaks.read?_eq_none (hcongr _)] at hq
        cases hq
      refine ⟨m, r, rest, hread, hoperand, hnot, ?_⟩
      by_contra hpattern
      obtain ⟨z, hz⟩ := foldAt_upper_of_read? hpattern
      have hbreaks := breaksOff_space hspaced.gap.2 (breaksOff_of_pattern hspaced.isWordOf_keyword
        hspaced.keywordGap.2 (fun c hc => (head?_upper z c hc).1) (pattern?_upper z))
      rw [hfold, foldAt_keyword hread hnot, hz, hbreaks.read?_eq_none (hcongr _)] at hq
      cases hq
  · rintro ⟨m, r, rest, hread, hoperand, hnot, hpattern⟩
    rcases foldAt_false_of_read? hread with ⟨first, g, g', z, hfirst, -, -, hne, -⟩ | ⟨r', -, -, hfold⟩
    · rw [hoperand] at hfirst
      cases hfirst
      exact absurd rfl hne
    · obtain ⟨r'', hcopy, hbehind⟩ := foldAt_pattern hread hpattern
      have hgap := (spaced_of_read? hread).negationGap_eq_nil hnot
      have hsame : foldAt false s = m.text ++ r'' := by
        rw [hfold, foldAt_keyword hread hnot, hcopy]
        simp [Comparison.text, Comparison.lead, hnot, hgap]
      rw [hsame, read?_congr hread hbehind]
      exact Option.some_ne_none _

/-! ## Parentheses -/

/-- A folded comparison has two more parentheses opened. -/
theorem count_folded {m : Comparison} (h : m.Spaced) :
    m.folded.count '(' = m.text.count '(' + 2 := by
  have hspace : ∀ {g : Text}, (∀ c ∈ g, isSpace c = true) → g.count '(' = 0 := by
    intro g hg
    refine List.count_eq_zero.2 fun hmem => ?_
    have := hg _ hmem
    cases this
  have hnegationGap : m.negationGap.count '(' = 0 := by
    rcases h.negation with ⟨-, hnil⟩ | ⟨-, -, hgap⟩
    · rw [hnil]
      rfl
    · exact hspace hgap
  have hnegation : (if m.negation.isEmpty then [] else m.negation ++ [' ']).count '(' =
      m.negation.count '(' := by
    split
    · rename_i hempty
      rw [List.isEmpty_iff] at hempty
      rw [hempty]
    · rw [List.count_append]
      rfl
  have hupper : "UPPER(".toList.count '(' = 1 ∧ " UPPER(".toList.count '(' = 1 := by decide
  have hclose : ") ".toList.count '(' = 0 ∧ [')'].count '(' = 0 := by decide
  unfold Comparison.folded Comparison.text Comparison.lead
  simp only [List.count_append, hnegation, hspace h.gap.2, hspace h.keywordGap.2, hnegationGap,
    hupper.1, hupper.2, hclose.1, hclose.2]
  omega

theorem count_le_foldAt (mayStart : Bool) (s : Text) :
    s.count '(' ≤ (foldAt mayStart s).count '(' := by
  induction mayStart, s using steps_induction with
  | nil mayStart => exact Nat.zero_le _
  | copy mayStart c s t r h hread ih =>
    obtain ⟨body, htext, rfl, -, -⟩ := h.self
    rw [foldAt_copy h hread, ← List.cons_append, ← htext, List.count_append, List.count_append]
    exact Nat.add_le_add_left ih _
  | fold s m rest h ih =>
    rw [foldAt_fold h, ← (read?_append h).1, List.count_append, List.count_append,
      count_folded (spaced_of_read? h)]
    exact Nat.add_le_add (Nat.le_add_right _ 2) ih

/-- Where a comparison is folded, the text is changed. -/
theorem foldAt_ne_of_read? {s : Text} (h : read? s ≠ none) : foldAt true s ≠ s := by
  obtain ⟨⟨m, rest⟩, hread⟩ := Option.ne_none_iff_exists'.1 h
  intro hsame
  have hcount := congrArg (List.count '(') hsame
  have hle := count_le_foldAt false rest
  rw [foldAt_fold hread, List.count_append, count_folded (spaced_of_read? hread)] at hcount
  have happ := congrArg (List.count '(') (read?_append hread).1
  rw [List.count_append] at happ
  simp only at happ
  omega

/-! ## The second time -/

/-- Folding what has been folded changes nothing exactly if behind no folded comparison one is left.
The second time an operand may start where it could the first time, and at the start also if no
comparison is left there. -/
theorem foldAt_foldAt_iff {mayStart mayStart' : Bool} {s : Text}
    (h : mayStart' = mayStart ∨ mayStart = false ∧ mayStart' = true ∧ ¬LeavesComparison s) :
    foldAt mayStart' (foldAt mayStart s) = foldAt mayStart s ↔
      ∀ a m b, steps mayStart s = a ++ .fold m :: b → ¬LeavesComparison (taken b) := by
  induction mayStart, s using steps_induction generalizing mayStart' with
  | nil mayStart =>
    rw [foldAt_nil, foldAt_nil, steps_nil]
    exact iff_of_true rfl fun a m b hnil => by simp at hnil
  | copy mayStart c s t r hbegins hread ih =>
    have hread' : mayStart' = true → read? (foldAt mayStart (c :: s)) = none := by
      rintro rfl
      by_contra hne
      rcases h with rfl | ⟨rfl, -, hleaves⟩
      · obtain ⟨⟨m, q⟩, hq⟩ := Option.ne_none_iff_exists'.1 hne
        obtain ⟨rest, hsome⟩ := read?_of_foldAt hq
        rw [hread rfl] at hsome
        cases hsome
      · exact hleaves (read?_foldAt_false_iff.1 hne)
    obtain ⟨body, htext, -, hbegins'⟩ := begins_foldAt hbegins
    rw [foldAt_copy hbegins hread, htext, List.cons_append] at hread' ⊢
    rw [foldAt_copy hbegins' hread', ← List.cons_append, ← htext, List.append_cancel_left_eq,
      ih (.inl rfl), steps_copy hbegins hread]
    constructor
    · intro hleft a m b hsteps
      cases a with
      | nil => cases hsteps
      | cons x a => exact hleft a m b (List.cons.inj hsteps).2
    · intro hleft a m b hsteps
      exact hleft (.copy t :: a) m b (by rw [hsteps, List.cons_append])
  | fold s m rest hread ih =>
    obtain rfl : mayStart' = true := by
      rcases h with h | ⟨h, -⟩
      · exact h
      · cases h
    rw [foldAt_fold hread, foldAt_folded hread, List.append_cancel_left_eq, steps_fold hread]
    by_cases hleaves : LeavesComparison rest
    · refine iff_of_false (foldAt_ne_of_read? (read?_foldAt_false_iff.2 hleaves)) fun hleft => ?_
      refine hleft [] m _ rfl ?_
      rwa [taken_steps]
    · rw [ih (.inr ⟨rfl, rfl, hleaves⟩)]
      constructor
      · intro hleft a m' b hsteps
        cases a with
        | nil =>
          obtain ⟨-, rfl⟩ := List.cons.inj hsteps
          rwa [taken_steps]
        | cons x a => exact hleft a m' b (List.cons.inj hsteps).2
      · intro hleft a m' b hsteps
        exact hleft (.fold m :: a) m' b (by rw [hsteps, List.cons_append])

/-- Where no operand starts right behind a folded comparison, folding twice is folding once. -/
theorem fold_fold_of_startsOperand {s : Text}
    (h : ∀ before m rest, FoldsAt s before m rest → ∀ c ∈ rest.head?, startsOperand c = false) :
    (fold (fold s).text).text = (fold s).text := by
  rw [← foldAt_true s, ← foldAt_true, foldAt_foldAt_iff (.inl rfl)]
  rintro a m b hsteps ⟨m', r, rest', hread, -⟩
  have hhead := h _ m _ ⟨a, b, hsteps, rfl, rfl⟩
  cases hb : taken b with
  | nil =>
    rw [hb] at hread
    cases hread
  | cons c rest =>
    rw [hb] at hread hhead
    rw [read?_eq_none (hhead c rfl)] at hread
    cases hread

/-- Folding a statement twice is folding it once exactly if behind no comparison that is folded
another one is left, right behind its pattern. -/
theorem fold_fold_iff (s : Text) :
    (fold (fold s).text).text = (fold s).text ↔
      ∀ before m rest, FoldsAt s before m rest → ¬LeavesComparison rest := by
  rw [← foldAt_true s, ← foldAt_true, foldAt_foldAt_iff (.inl rfl)]
  constructor
  · rintro hleft before m rest ⟨a, b, hsteps, -, rfl⟩
    exact hleft a m b hsteps
  · intro hleft a m b hsteps
    exact hleft _ m _ ⟨a, b, hsteps, rfl, rfl⟩

/-- Right behind a literal, a comparison is folded only the second time. -/
theorem fold_fold_adjacent :
    (fold "a like 'x'b like 'y'".toList).text = "UPPER(a) like UPPER('x')b like 'y'".toList ∧
      (fold (fold "a like 'x'b like 'y'".toList).text).text =
        "UPPER(a) like UPPER('x')UPPER(b) like UPPER('y')".toList ∧
      (fold (fold "a like 'x'b like 'y'".toList).text).text ≠
        (fold "a like 'x'b like 'y'".toList).text := by
  decide +kernel

end QueryClauses.Sql.Like
