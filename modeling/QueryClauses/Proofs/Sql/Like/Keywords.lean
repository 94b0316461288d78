import QueryClauses.Proofs.Sql.Like.Copying

/-!
# Keywords in front of folding

Folding knows no keywords where an operand may start: a word there is an operand, be it a column or a
keyword. So NOT in front of LIKE is read as the operand of the comparison (`read?_negation`), and so
it is copied only where LIKE has no pattern that folding knows; LIKE in front of a pattern is read as
no operand (`read?_like_pattern`). A word and a pattern are copied exactly where no comparison is
read (`isPrefix_foldAt_word_iff`, `isPrefix_foldAt_pattern`).
-/

namespace QueryClauses.Sql.Like

open CharClass

/-! ## Words -/

theorem isBoundary_of_isIdentChar {c : Char} (h : isIdentChar c = true) : isBoundary c = false := by
  have := isWordChar_of_isIdentChar h
  rw [Bool.or_eq_true, beq_iff_eq] at this
  rcases this with hword | rfl
  · simp [isBoundary, hword]
  · rfl

/-- Behind a character that an operand may not start behind, such characters are copied. -/
theorem foldAt_false_append {w : Text} (hw : ∀ c ∈ w, isQuiet c = true ∧ isBoundary c = false)
    (r : Text) : foldAt false (w ++ r) = w ++ foldAt false r := by
  induction w with
  | nil => rfl
  | cons c w ih =>
    obtain ⟨hquiet, hbound⟩ := hw c List.mem_cons_self
    rw [List.cons_append, foldAt_char (isOpaque_munch_of_isQuiet hquiet _) (by simp), hbound,
      ih fun d hd => hw d (List.mem_cons_of_mem c hd), List.cons_append]

theorem foldAt_append {w : Text} (hne : w ≠ [])
    (hw : ∀ c ∈ w, isQuiet c = true ∧ isBoundary c = false) {r : Text}
    (hread : read? (w ++ r) = none) : foldAt true (w ++ r) = w ++ foldAt false r := by
  cases w with
  | nil => exact absurd rfl hne
  | cons c w =>
    obtain ⟨hquiet, hbound⟩ := hw c List.mem_cons_self
    rw [List.cons_append] at hread ⊢
    rw [foldAt_char (isOpaque_munch_of_isQuiet hquiet _) fun _ => hread, hbound,
      foldAt_false_append (fun d hd => hw d (List.mem_cons_of_mem c hd)) r, List.cons_append]

theorem ne_nil_of_isSegment {w : Text} (hw : Identifier.IsSegment w) : w ≠ [] := by
  rintro rfl
  exact hw

/-- A word is copied where no comparison is read. -/
theorem foldAt_word {w r : Text} (hw : Identifier.IsSegment w) (hread : read? (w ++ r) = none) :
    foldAt true (w ++ r) = w ++ foldAt false r := by
  refine foldAt_append (ne_nil_of_isSegment hw) (fun c hc => ?_) hread
  have := isIdentChar_of_isSegment hw c hc
  exact ⟨isQuiet_of_isIdentChar this, isBoundary_of_isIdentChar this⟩

theorem operand?_word {w r : Text} (hw : Identifier.IsSegment w) (hr : EndsName r) :
    operand? (w ++ r) = some (w, r) := by
  obtain _ | ⟨c, u⟩ := w
  · exact hw.elim
  · obtain ⟨hc, hu⟩ := hw
    rw [List.cons_append, operand?, if_pos hc, nameBody_segment_append hu, nameBody_of_endsName hr,
      List.append_nil]

theorem endsName_space {g : Text} (hg : ∀ c ∈ g, isSpace c = true) (hne : g ≠ []) (r : Text) :
    EndsName (g ++ r) := by
  cases g with
  | nil => exact absurd rfl hne
  | cons c g =>
    intro d hd
    cases hd
    have hc := hg c List.mem_cons_self
    refine ⟨isWordChar_eq_false_of_isSpace hc, ?_, ?_⟩
    · rintro rfl
      cases hc
    · rintro rfl
      cases hc

theorem gap_of_isSpace {g r : Text} (hg : ∀ c ∈ g, isSpace c = true)
    (hr : ∀ c ∈ r.head?, isSpace c = false) : gap (g ++ r) = (g, r) := by
  obtain ⟨htake, hdrop⟩ := takeWhile_append_of_end (List.dropWhile_eq_nil_iff.2 hg) hr
  rw [gap, htake, hdrop, List.takeWhile_eq_self_iff.2 hg]

/-- White space in front of a text that starts neither on white space nor on a bar. -/
theorem gap_space {g r : Text} (hg : ∀ c ∈ g, isSpace c = true)
    (hr : ∀ c ∈ r.head?, isSpace c = false ∧ c ≠ '|') :
    gap (g ++ r) = (g, r) ∧ joinedAll (g ++ r) = ([], g ++ r) := by
  have hgap := gap_of_isSpace hg fun c hc => (hr c hc).1
  refine ⟨hgap, joinedAll_of_joined?_eq_none (joined?_eq_none fun v hv => ?_)⟩
  rw [hgap] at hv
  simp only at hv
  exact (hr '|' (by rw [hv]; rfl)).2 rfl

theorem keyword?_of_map_toLower {ks w : Text} (h : w.map Char.toLower = ks) (r : Text) :
    keyword? ks (w ++ r) = some (w, r) := by
  subst h
  induction w with
  | nil => rfl
  | cons c w ih => simp [keyword?, isLetter, ih]

theorem keyword?_eq_none_of_head {k : Char} {ks s : Text} (h : ∀ c ∈ s.head?, isLetter k c = false) :
    keyword? (k :: ks) s = none := by
  cases s with
  | nil => rfl
  | cons c s => simp [keyword?, h c rfl]

/-! ## The keywords -/

/-- The pattern behind a LIKE, with the white space in front of it and what follows it. -/
def patternBehind? (s : Text) : Option (Text × Text × Text) :=
  if (gap s).1.isEmpty then none
  else (pattern? (gap s).2).map fun p => ((gap s).1, p.1, p.2)

theorem patternBehind?_eq_some {s space pattern rest : Text}
    (h : patternBehind? s = some (space, pattern, rest)) :
    s = space ++ (pattern ++ rest) ∧ space ≠ [] ∧ (∀ c ∈ space, isSpace c = true) ∧
      pattern? (pattern ++ rest) = some (pattern, rest) := by
  unfold patternBehind? at h
  split at h
  · cases h
  · rename_i hne
    obtain ⟨p, hp, hq⟩ := Option.map_eq_some_iff.1 h
    cases hq
    have happ := (pattern?_append hp).1
    refine ⟨by rw [happ, gap_append], by simpa using hne, fun c hc => List.mem_takeWhile_imp hc, ?_⟩
    rw [happ]
    exact hp

/-- A pattern starts on a quote or on the sign of a placeholder. -/
theorem pattern?_head {s : Text} {p : Text × Text} (h : pattern? s = some p) :
    ∃ c q, p.1 = c :: q ∧ c ∈ ['\'', '?', ':', '$'] := by
  cases s with
  | nil => cases h
  | cons c s =>
    rw [pattern?] at h
    split at h
    · rename_i hc
      obtain ⟨q, -, rfl⟩ := Option.map_eq_some_iff.1 h
      exact ⟨c, q.1, rfl, by simp [hc]⟩
    rw [placeholder?] at h
    split at h
    · rename_i hc
      cases h
      exact ⟨c, [], rfl, by simp [hc]⟩
    split at h
    · rename_i hc
      cases h
      exact ⟨c, _, rfl, by simp [hc.1]⟩
    split at h
    · rename_i hc
      cases h
      exact ⟨c, _, rfl, by simp [hc.1]⟩
    · cases h

section

variable {like behind : Text}

theorem head?_of_map_toLower {w r : Text} {k : Char} {ks : Text}
    (h : w.map Char.toLower = k :: ks) : ∀ c ∈ (w ++ r).head?, c.toLower = k := by
  cases w with
  | nil => cases h
  | cons d w =>
    intro c hc
    cases hc
    exact (List.cons.inj h).1

/-- NOT in front of LIKE is read as the operand of the comparison. -/
theorem read?_negation {word g : Text} (hword : Identifier.IsSegment word)
    (hg : ∀ c ∈ g, isSpace c = true) (hne : g ≠ []) (hlike : Identifier.IsSegment like)
    (hlower : like.map Char.toLower = "like".toList) :
    read? (word ++ (g ++ (like ++ behind))) =
      (patternBehind? behind).map fun p => (⟨word, g, [], [], like, p.1, p.2.1⟩, p.2.2) := by
  have hhead : ∀ c ∈ (like ++ behind).head?, isSpace c = false ∧ c ≠ '|' := by
    obtain _ | ⟨d, u⟩ := like
    · exact hlike.elim
    intro c hc
    cases hc
    have hident := isIdentChar_of_isSegment hlike d List.mem_cons_self
    refine ⟨isSpace_eq_false_of_isIdentChar hident, ?_⟩
    rintro rfl
    cases hident
  obtain ⟨hgap, hjoined⟩ := gap_space hg hhead
  -- the only NOT was read as the operand already: at LIKE none is read
  have hnot : negation (like ++ behind) = ([], [], like ++ behind) := by
    have hnone : keyword? "not".toList (like ++ behind) = none := by
      refine keyword?_eq_none_of_head fun c hc => ?_
      rw [isLetter, head?_of_map_toLower hlower c hc]
      rfl
    rw [negation, hnone]
  have hkeyword := keyword?_of_map_toLower hlower behind
  simp only [read?, operand?_word hword (endsName_space hg hne _), hjoined, hgap, hnot, hkeyword,
    patternBehind?]
  simp only [List.isEmpty_iff, hne, Bool.or_eq_true, false_or, List.append_nil]
  split
  · rfl
  · rw [Option.map_map]
    rfl

/-- LIKE in front of a pattern is read as no operand. -/
theorem read?_like_pattern {p : Text × Text × Text} (hlike : Identifier.IsSegment like)
    (h : patternBehind? behind = some p) : read? (like ++ behind) = none := by
  obtain ⟨space, pattern, rest⟩ := p
  obtain ⟨rfl, hne, hspace, hpattern⟩ := patternBehind?_eq_some h
  obtain ⟨c, q, hc, hmem⟩ := pattern?_head hpattern
  simp only at hc
  have hhead : (pattern ++ rest).head? = some c := by rw [hc]; rfl
  obtain ⟨hcspace, hcbar, hcnot, hclike⟩ :
      isSpace c = false ∧ c ≠ '|' ∧ isLetter 'n' c = false ∧ isLetter 'l' c = false := by
    simp only [List.mem_cons, List.not_mem_nil, or_false] at hmem
    rcases hmem with rfl | rfl | rfl | rfl <;> exact ⟨rfl, by decide, rfl, rfl⟩
  obtain ⟨hgap, hjoined⟩ := gap_space hspace (r := pattern ++ rest) fun d hd => by
    rw [hhead] at hd
    cases hd
    exact ⟨hcspace, hcbar⟩
  have hnot : negation (pattern ++ rest) = ([], [], pattern ++ rest) := by
    have hnone : keyword? "not".toList (pattern ++ rest) = none :=
      keyword?_eq_none_of_head fun d hd => by
        rw [hhead] at hd
        cases hd
        exact hcnot
    rw [negation, hnone]
  have hkeyword : keyword? "like".toList (pattern ++ rest) = none :=
    keyword?_eq_none_of_head fun d hd => by
      rw [hhead] at hd
      cases hd
      exact hclike
  simp only [read?, operand?_word hlike (endsName_space hspace hne _), hjoined, hgap, hnot, hkeyword]

end

/-! ## What the fold shows of what was read -/

theorem head?_folded (m : Comparison) : m.folded.head? = some 'U' := by
  have hname : "UPPER(".toList.head? = some 'U' := by decide
  unfold Comparison.folded
  simp only [List.head?_append, hname, Option.some_or]

theorem folded_of_negation_nil {m : Comparison} (h : m.negation = []) :
    m.folded = "UPPER(".toList ++ m.operand ++ ") ".toList ++ m.keyword ++ " UPPER(".toList ++
      m.pattern ++ [')'] := by
  unfold Comparison.folded
  simp only [h, List.isEmpty_nil, if_true, List.append_nil]

/-- Folding a comparison puts the name of a function in front. So a text that comes first and starts
otherwise tells that none is read. -/
theorem read?_eq_none_of_isPrefix {u s : Text} (h : u <+: foldAt true s) (hne : u ≠ [])
    (hu : u.head? ≠ some 'U') : read? s = none := by
  by_contra hsome
  obtain ⟨⟨m, rest⟩, hread⟩ := Option.ne_none_iff_exists'.1 hsome
  obtain ⟨tail, hfold, -⟩ := foldAt_of_read? hread
  obtain ⟨w, hw⟩ := h
  cases u with
  | nil => exact hne rfl
  | cons c u =>
    obtain ⟨v, hv⟩ := List.head?_eq_some_iff.1 (head?_folded m)
    rw [hfold, hv, List.cons_append, List.cons_append, List.cons.injEq] at hw
    rw [hw.1] at hu
    exact hu rfl

theorem isPrefix_munchQuoted {s : Text} {p : Text × Text} (h : literalBody s = some p) :
    p.1 <+: (munchQuoted '\'' s).1 := by
  fun_induction literalBody s generalizing p with
  | case1 => cases h
  | case2 => cases h; exact List.prefix_rfl
  | case3 => cases h
  | case4 s body rest hbody ih =>
    cases h
    simp [munchQuoted, ih hbody]
  | case5 => cases h; simp [munchQuoted]
  | case6 d s hd => cases h; simp [munchQuoted, hd]
  | case7 c d s hc ih =>
    obtain ⟨q, hq, rfl⟩ := Option.map_eq_some_iff.1 h
    simp [munchQuoted, hc, ih hq]

theorem isPrefix_foldAt_placeholder {s : Text} {p : Text × Text} (h : placeholder? s = some p)
    (hread : read? s = none) : p.1 <+: foldAt true s := by
  have hquiet := isQuiet_of_placeholder? h
  have happ := (placeholder?_append h).1
  -- behind a colon or a dollar sign, all of a placeholder is such that no operand starts behind it
  have hrest : ∀ {c : Char} {u : Text}, p.1 = c :: u → isBoundary c = false →
      (∀ d ∈ u, isBoundary d = false) → p.1 <+: foldAt true s := by
    intro c u hp hc hu
    have hne : p.1 ≠ [] := by
      rw [hp]
      exact List.cons_ne_nil c u
    have hbound : ∀ d ∈ p.1, isBoundary d = false := by
      rw [hp]
      exact List.forall_mem_cons.2 ⟨hc, hu⟩
    rw [← happ] at hread ⊢
    rw [foldAt_append hne (fun d hd => ⟨hquiet d hd, hbound d hd⟩) hread]
    exact List.prefix_append _ _
  cases s with
  | nil => cases h
  | cons c s =>
    rw [placeholder?] at h
    split at h
    · rename_i hc
      cases h
      subst hc
      rw [foldAt_char (isOpaque_munch_of_isQuiet rfl s) fun _ => hread]
      exact List.cons_prefix_cons.2 ⟨rfl, List.nil_prefix⟩
    split at h
    · rename_i hc
      cases h
      refine hrest rfl (by rw [hc.1]; rfl) fun d hd => ?_
      simp [isBoundary, show isWordChar d = true from List.mem_takeWhile_imp hd]
    split at h
    · rename_i hc
      cases h
      refine hrest rfl (by rw [hc.1]; rfl) fun d hd => ?_
      simp [isBoundary, isWordChar_of_isDigit (List.mem_takeWhile_imp hd)]
    · cases h

/-- A pattern is copied where no comparison is read. -/
theorem isPrefix_foldAt_pattern {s : Text} {p : Text × Text} (h : pattern? s = some p)
    (hread : read? s = none) : p.1 <+: foldAt true s := by
  have happ := (pattern?_append h).1
  cases s with
  | nil => cases h
  | cons c s =>
    rw [pattern?] at h
    split at h
    · rename_i hc
      subst hc
      obtain ⟨q, hq, rfl⟩ := Option.map_eq_some_iff.1 h
      have hmunch := munch_quote s
      rw [← munchQuoted_append '\'' s] at hread ⊢
      conv at hmunch => lhs; rw [← munchQuoted_append '\'' s]
      rw [foldAt_region rfl hmunch fun _ => hread]
      exact (List.cons_prefix_cons.2 ⟨rfl, isPrefix_munchQuoted hq⟩).trans (List.prefix_append _ _)
    · exact isPrefix_foldAt_placeholder h hread

theorem head?_ne_of_map_toLower {w : Text} {k : Char} {ks : Text}
    (hw : w.map Char.toLower = k :: ks) (hk : 'U'.toLower ≠ k) : w.head? ≠ some 'U' := by
  rintro hhead
  obtain ⟨u, rfl⟩ := List.head?_eq_some_iff.1 hhead
  exact hk (List.cons.inj hw).1

/-- A word other than the name of the function that folding puts in front is copied exactly where no
comparison is read. -/
theorem isPrefix_foldAt_word_iff {w r : Text} (hw : Identifier.IsSegment w)
    (hhead : w.head? ≠ some 'U') : w <+: foldAt true (w ++ r) ↔ read? (w ++ r) = none := by
  constructor
  · intro hword
    exact read?_eq_none_of_isPrefix hword (ne_nil_of_isSegment hw) hhead
  · intro hread
    rw [foldAt_word hw hread]
    exact List.prefix_append _ _

end QueryClauses.Sql.Like
