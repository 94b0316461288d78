import QueryClauses.Proofs.Sql.Like.Folding
import QueryClauses.Proofs.Sql.Mentions

/-!
# How far a comparison reaches

What is read of a comparison in front of its keyword is made up of whole literals and of characters
outside of literals and comments (`whole_lead`). A parenthesis, a double quote and the minus sign
that starts a line comment have no place in a comparison but in a literal: what is read in front of
such a character is what would be read if the text ended there (`read?_append_stop`).
-/

namespace QueryClauses.CharClass

theorem inRanges_eq_false {a b : List (Nat × Nat)}
    (h : ∀ r ∈ a, ∀ q ∈ b, r.2 < q.1 ∨ q.2 < r.1) {n : Nat} (hn : inRanges a n = true) :
    inRanges b n = false := by
  obtain ⟨r, hr, hrn⟩ := List.any_eq_true.1 hn
  rw [inRanges, List.any_eq_false]
  intro q hq
  have := h r hr q hq
  simp only [Bool.and_eq_true, decide_eq_true_eq] at hrn ⊢
  omega

/-- White space is no part of a word. -/
theorem isWordChar_eq_false_of_isSpace {c : Char} (h : isSpace c = true) : isWordChar c = false := by
  have hname : isNameChar c = false := by
    by_contra hc
    rw [Bool.not_eq_false] at hc
    rw [isSpace_eq_false_of_isIdentChar (isIdentChar_of_isNameChar hc)] at h
    cases h
  have hranges : ∀ r ∈ spaceRanges, ∀ q ∈ wordRanges, r.2 < q.1 ∨ q.2 < r.1 := by decide +kernel
  rw [isWordChar, hname, inRanges_eq_false hranges h, Bool.and_false, Bool.or_false]

/-- The decimal digits are word characters. -/
theorem isWordChar_of_isDigit {c : Char} (h : isDigit c = true) : isWordChar c = true := by
  have hranges : ∀ r ∈ digitRanges, ∃ q ∈ wordRanges, q.1 ≤ r.1 ∧ r.2 ≤ q.2 := by
    have hall : (digitRanges.all fun r =>
        wordRanges.any fun q => Nat.ble q.1 r.1 && Nat.ble r.2 q.2) = true := by decide +kernel
    simpa using hall
  rw [isDigit, Bool.or_eq_true, Bool.and_eq_true] at h
  rw [isWordChar, Bool.or_eq_true, Bool.and_eq_true]
  rcases h with h | ⟨hbeyond, h⟩
  · simp [isNameChar, Char.isAlphanum, h]
  · obtain ⟨r, hr, hrc⟩ := List.any_eq_true.1 h
    obtain ⟨q, hq, hlow, hhigh⟩ := hranges r hr
    refine .inr ⟨hbeyond, List.any_eq_true.2 ⟨q, hq, ?_⟩⟩
    simp only [Bool.and_eq_true, decide_eq_true_eq] at hrc ⊢
    omega

end QueryClauses.CharClass

namespace QueryClauses.Sql

open CharClass

/-- A character of a class is none of the characters that lie outside of it. -/
theorem contains_eq_false_of_class {l : List Char} {p : Char → Bool} (hl : l.any p = false) {c : Char}
    (hc : p c = true) : l.contains c = false := by
  by_contra h
  rw [Bool.not_eq_false, List.contains_iff_mem] at h
  exact List.any_eq_false.1 hl c h hc

theorem isQuiet_of_class {p : Char → Bool} (hp : ['\'', '"', '-', '/'].any p = false) {c : Char}
    (hc : p c = true) : isQuiet c = true := by
  rw [isQuiet, contains_eq_false_of_class hp hc, Bool.not_false]

theorem isQuiet_of_isSpace {c : Char} (h : isSpace c = true) : isQuiet c = true :=
  isQuiet_of_class (by decide) h

namespace Like

/-! ## What is read is whole -/

theorem isQuiet_of_mem_gap {s : Text} : ∀ c ∈ (gap s).1, isQuiet c = true := fun _ hc =>
  isQuiet_of_isSpace (List.mem_takeWhile_imp hc)

theorem isQuiet_of_isWordChar {c : Char} (h : isWordChar c = true) : isQuiet c = true :=
  isQuiet_of_class (by decide +kernel) h

theorem isBoundary_of_isWordChar {c : Char} (h : isWordChar c = true) : isBoundary c = false := by
  simp [isBoundary, h]

theorem isQuiet_of_isNameStart {c : Char} (h : isNameStart c = true) : isQuiet c = true :=
  isQuiet_of_isIdentChar (isIdentChar_of_isNameChar (isNameChar_of_isNameStart h))

/-- What holds of word characters, dollar signs and points holds of all that a name goes on with. -/
theorem forall_mem_nameBody {p : Char → Prop} (hword : ∀ c, isWordChar c = true → p c)
    (hdollar : p '$') (hpoint : p '.') (s : Text) : ∀ c ∈ (nameBody s).1, p c := by
  have hname : ∀ c, (isWordChar c || c == '$') = true → p c := by
    intro c hc
    rw [Bool.or_eq_true, beq_iff_eq] at hc
    rcases hc with hc | rfl
    · exact hword c hc
    · exact hdollar
  fun_induction nameBody s with
  | case1 => simp
  | case2 c hc => simpa using hname c hc
  | case3 c hc => simp
  | case4 c d s hc body rest h ih =>
    rw [h] at ih
    exact List.forall_mem_cons.2 ⟨hname c hc, ih⟩
  | case5 c d s hc h body rest hbody ih =>
    rw [hbody] at ih
    rw [Bool.and_eq_true, decide_eq_true_eq] at h
    obtain ⟨rfl, hd⟩ := h
    refine List.forall_mem_cons.2 ⟨hpoint, List.forall_mem_cons.2 ⟨hword d ?_, ih⟩⟩
    exact isWordChar_of_isNameChar (isNameChar_of_isNameStart hd)
  | case6 => simp

theorem isQuiet_of_mem_nameBody {s : Text} : ∀ c ∈ (nameBody s).1, isQuiet c = true :=
  forall_mem_nameBody (fun _ => isQuiet_of_isWordChar) rfl rfl s

theorem isQuiet_of_placeholder? {s : Text} {p : Text × Text} (h : placeholder? s = some p) :
    ∀ c ∈ p.1, isQuiet c = true := by
  cases s with
  | nil => cases h
  | cons c s =>
    rw [placeholder?] at h
    split at h
    · rename_i hc
      cases h
      subst hc
      simp [isQuiet]
    split at h
    · rename_i hc
      cases h
      refine List.forall_mem_cons.2 ⟨by rw [hc.1]; rfl, fun d hd => ?_⟩
      exact isQuiet_of_isWordChar (List.mem_takeWhile_imp hd)
    split at h
    · rename_i hc
      cases h
      refine List.forall_mem_cons.2 ⟨by rw [hc.1]; rfl, fun d hd => ?_⟩
      exact isQuiet_of_class (p := isDigit) (by decide +kernel) (List.mem_takeWhile_imp hd)
    · cases h

theorem isQuiet_of_keyword? {ks s : Text} {p : Text × Text}
    (hks : (ks.any fun k => ['\'', '"', '-', '/'].any (isLetter k)) = false)
    (h : keyword? ks s = some p) : ∀ c ∈ p.1, isQuiet c = true := by
  fun_induction keyword? ks s generalizing p with
  | case1 => cases h; simp
  | case2 => cases h
  | case3 k ks c s hc ih =>
    obtain ⟨q, hq, rfl⟩ := Option.map_eq_some_iff.1 h
    rw [List.any_cons, Bool.or_eq_false_iff] at hks
    exact List.forall_mem_cons.2 ⟨isQuiet_of_class hks.1 hc, ih hks.2 hq⟩
  | case4 => cases h

/-- Where no quote follows, a literal ends where the statement's literal ends. -/
theorem munchQuoted_of_literalBody {s : Text} {p : Text × Text} (h : literalBody s = some p)
    (hend : p.2.head? ≠ some '\'') : munchQuoted '\'' s = p := by
  fun_induction literalBody s generalizing p with
  | case1 => cases h
  | case2 => cases h; rfl
  | case3 => cases h
  | case4 s body rest hbody ih =>
    cases h
    simp [munchQuoted, ih hbody hend]
  | case5 => cases h; exact absurd rfl hend
  | case6 d s hd => cases h; simp [munchQuoted, hd]
  | case7 c d s hc ih =>
    obtain ⟨q, hq, rfl⟩ := Option.map_eq_some_iff.1 h
    simp [munchQuoted, hc, ih hq hend]

/-- A closed literal of the statement is read as one. -/
theorem literalBody_of_munchQuoted {s : Text} {p : Text × Text} (h : munchQuoted '\'' s = p)
    (hc : p.1.count '\'' % 2 = 1) : literalBody s = some p := by
  generalize hq : '\'' = quote at h
  fun_induction munchQuoted quote s generalizing p with
  | case1 => subst h; simp at hc
  | case2 c =>
    subst h hq
    have : c = '\'' := by
      by_contra hne
      simp [hne] at hc
    simp [literalBody, this]
  | case3 s body rest hbody ih =>
    subst h hq
    have hc' : body.count '\'' % 2 = 1 := by
      simp only [List.count_cons_self] at hc
      omega
    simp [literalBody, @ih (body, rest) hc' hbody]
  | case4 d s hd =>
    subst h hq
    simp [literalBody, hd]
  | case5 c d s hne body rest hbody ih =>
    subst h hq
    rw [List.count_cons_of_ne hne] at hc
    simp [literalBody, hne, @ih (body, rest) hc hbody]

theorem whole_quoted {body r : Text} (h : munchQuoted '\'' (body ++ r) = (body, r)) :
    Whole ('\'' :: body) r := by
  have hregion := Whole.region (k := .quoted) rfl (Begins.quoted (.inl rfl) h).munch_eq (.nil (w := r))
  rwa [List.append_nil] at hregion

theorem whole_pattern? {s : Text} {p : Text × Text} (h : pattern? s = some p)
    (hend : p.2.head? ≠ some '\'') : Whole p.1 p.2 := by
  cases s with
  | nil => cases h
  | cons c s =>
    rw [pattern?] at h
    split at h
    · rename_i hc
      obtain ⟨q, hq, rfl⟩ := Option.map_eq_some_iff.1 h
      subst hc
      refine whole_quoted ?_
      rw [literalBody_append hq]
      exact munchQuoted_of_literalBody hq hend
    · exact whole_of_isQuiet (isQuiet_of_placeholder? h) _

theorem whole_operand? {s : Text} {p : Text × Text} (h : operand? s = some p)
    (hend : p.2.head? ≠ some '\'') : Whole p.1 p.2 := by
  cases s with
  | nil => cases h
  | cons c s =>
    rw [operand?] at h
    split at h
    · rename_i hc
      cases h
      refine whole_of_isQuiet ?_ _
      exact List.forall_mem_cons.2 ⟨isQuiet_of_isNameStart hc, isQuiet_of_mem_nameBody⟩
    · exact whole_pattern? h hend

theorem whole_joined? {s : Text} {p : Text × Text} (h : joined? s = some p)
    (hend : p.2.head? ≠ some '\'') : Whole p.1 p.2 := by
  unfold joined? at h
  split at h
  · rename_i r hr
    obtain ⟨q, hq, rfl⟩ := Option.map_eq_some_iff.1 h
    refine (whole_of_isQuiet ?_ _).append (whole_operand? hq hend)
    intro c hc
    simp only [List.mem_append, List.mem_cons] at hc
    rcases hc with hc | rfl | rfl | hc
    · exact isQuiet_of_mem_gap c hc
    · rfl
    · rfl
    · exact isQuiet_of_mem_gap c hc
  · cases h

theorem joined?_quote (s : Text) : joined? ('\'' :: s) = none := by
  have : isSpace '\'' = false := rfl
  simp [joined?, gap, this]

theorem head?_ne_of_joinedAll {s : Text} (h : (joinedAll s).2.head? ≠ some '\'') :
    s.head? ≠ some '\'' := by
  intro hs
  obtain ⟨r, rfl⟩ := List.head?_eq_some_iff.1 hs
  rw [joinedAll_of_joined?_eq_none (joined?_quote r)] at h
  exact h rfl

theorem whole_joinedAll {s : Text} (hend : (joinedAll s).2.head? ≠ some '\'') :
    Whole (joinedAll s).1 (joinedAll s).2 := by
  fun_induction joinedAll s with
  | case1 => exact .nil
  | case2 s p h ih =>
    refine Whole.append ?_ (ih hend)
    rw [joinedAll_append]
    exact whole_joined? h (head?_ne_of_joinedAll hend)

/-- How a comparison is read, part by part: `Reads s m rest` if `m` is read at the start of `s` and
`rest` is left. -/
inductive Reads : Text → Comparison → Text → Prop
  | intro {s first s₁ more s₂ space s₃ word wordGap s₄ like s₅ likeGap s₆ pattern rest : Text}
      (hfirst : operand? s = some (first, s₁)) (hmore : joinedAll s₁ = (more, s₂))
      (hgap : gap s₂ = (space, s₃)) (hspace : space ≠ [])
      (hnegation : negation s₃ = (word, wordGap, s₄))
      (hlike : keyword? "like".toList s₄ = some (like, s₅))
      (hlikeGap : gap s₅ = (likeGap, s₆)) (hlikeSpace : likeGap ≠ [])
      (hpattern : pattern? s₆ = some (pattern, rest)) :
      Reads s ⟨first ++ more, space, word, wordGap, like, likeGap, pattern⟩ rest

theorem read?_eq_some_iff {s rest : Text} {m : Comparison} :
    read? s = some (m, rest) ↔ Reads s m rest := by
  constructor
  · intro h
    unfold read? at h
    split at h
    · cases h
    rename_i first s₁ hfirst
    simp only at h
    split at h
    · cases h
    rename_i like s₅ hlike
    split at h
    · cases h
    rename_i hspace
    simp only [Bool.or_eq_true, List.isEmpty_iff, not_or] at hspace
    obtain ⟨q, hpattern, hq⟩ := Option.map_eq_some_iff.1 h
    cases hq
    exact .intro hfirst rfl rfl hspace.1 rfl hlike rfl hspace.2 hpattern
  · rintro ⟨hfirst, hmore, hgap, hspace, hnegation, hlike, hlikeGap, hlikeSpace, hpattern⟩
    simp only [read?, hfirst, hmore, hgap, hnegation, hlike, hlikeGap, hpattern]
    simp [hspace, hlikeSpace]

theorem isQuiet_of_negation {s : Text} :
    ∀ c ∈ (negation s).1 ++ (negation s).2.1, isQuiet c = true := by
  unfold negation
  split
  · simp
  · rename_i word r h
    split
    · simp
    · intro c hc
      rcases List.mem_append.1 hc with hc | hc
      · exact isQuiet_of_keyword? (by decide) h c hc
      · exact isQuiet_of_mem_gap c hc

theorem head?_of_gap {s space r : Text} (h : gap s = (space, r)) (hne : space ≠ []) :
    ∃ c, s.head? = some c ∧ isSpace c = true := by
  cases h
  cases s with
  | nil => exact absurd rfl hne
  | cons c s =>
    by_cases hc : isSpace c = true
    · exact ⟨c, rfl, hc⟩
    · exact absurd (List.takeWhile_cons_of_neg hc) hne

/-- What is read in front of the keyword cuts no literal and no comment. -/
theorem whole_lead {s rest : Text} {m : Comparison} (h : read? s = some (m, rest)) :
    Whole m.lead (m.keyword ++ (m.keywordGap ++ m.pattern) ++ rest) := by
  cases read?_eq_some_iff.1 h with
  | @intro first s₁ more s₂ space s₃ word wordGap s₄ like s₅ likeGap s₆ pattern _ hfirst hmore
      hgap hspace hnegation hlike hlikeGap hlikeSpace hpattern =>
    obtain ⟨c, hc, hcspace⟩ := head?_of_gap hgap hspace
    -- white space follows the operands: a literal at their end does not go on with a further quote
    have hend : s₂.head? ≠ some '\'' := by
      rw [hc]
      rintro ⟨⟩
      exact absurd hcspace (by decide)
    have hend' : (joinedAll s₁).2.head? ≠ some '\'' := by rwa [hmore]
    have hs₁ := joinedAll_append s₁
    have hs₂ := gap_append s₂
    have hs₃ := negation_append s₃
    rw [hmore] at hs₁
    rw [hgap] at hs₂
    rw [hnegation] at hs₃
    simp only at hs₁ hs₂ hs₃
    have hquiet : ∀ c ∈ space ++ (word ++ wordGap), isQuiet c = true := by
      intro c hc
      rcases List.mem_append.1 hc with hc | hc
      · exact isQuiet_of_mem_gap (s := s₂) c (by rwa [hgap])
      · exact isQuiet_of_negation (s := s₃) c (by rwa [hnegation])
    have hrest : like ++ (likeGap ++ pattern) ++ rest = s₄ := by
      have hs₅ := gap_append s₅
      rw [hlikeGap] at hs₅
      simp only at hs₅
      rw [← keyword?_append hlike, ← hs₅, ← (pattern?_append hpattern).1]
      simp
    simp only [Comparison.lead]
    rw [hrest]
    refine Whole.append ?_ (whole_of_isQuiet hquiet _)
    have htail : space ++ (word ++ wordGap) ++ s₄ = s₂ := by
      rw [← hs₂, ← hs₃]
      simp
    rw [htail]
    have hmoreWhole := whole_joinedAll hend'
    have hfirstWhole := whole_operand? hfirst (head?_ne_of_joinedAll hend')
    rw [hmore] at hmoreWhole
    refine Whole.append ?_ hmoreWhole
    rw [hs₁]
    exact hfirstWhole

/-! ## In front of a character that no comparison goes on with -/

/-- A name ends in front of any text that it does not go on into. -/
theorem nameBody_append_of_endsName {r : Text} (hr : EndsName r) (u : Text) :
    nameBody (u ++ r) = ((nameBody u).1, (nameBody u).2 ++ r) := by
  have hend := nameBody_of_endsName hr
  fun_induction nameBody u with
  | case1 => exact hend
  | case2 c hc =>
    cases r with
    | nil => simp [nameBody, hc]
    | cons e r => simp [nameBody, hc, hend]
  | case3 c hc =>
    cases r with
    | nil => simp [nameBody, hc]
    | cons e r =>
      have hstart : isNameStart e = false := by
        by_contra h
        rw [Bool.not_eq_false] at h
        have := isWordChar_of_isNameChar (isNameChar_of_isNameStart h)
        rw [(hr e rfl).1] at this
        cases this
      simp [nameBody, hc, hstart]
  | case4 c d s hc body rest h ih =>
    rw [h] at ih
    simp only [List.cons_append] at ih
    simp [nameBody, hc, ih]
  | case5 c d s hc h body rest hbody ih =>
    rw [hbody] at ih
    simp [nameBody, hc, h, ih]
  | case6 c d s hc h => simp [nameBody, hc, h]

/-- A character that is no part of a comparison but in a literal. -/
def isStop (c : Char) : Bool := ['(', ')', '"', '-'].contains c

theorem eq_false_of_isStop {e : Char} (he : isStop e = true) {p : Char → Bool}
    (hp : ['(', ')', '"', '-'].any p = false) : p e = false := by
  rw [isStop, List.contains_iff_mem] at he
  exact Bool.not_eq_true _ ▸ List.any_eq_false.1 hp e he

section

variable {e : Char} (he : isStop e = true) {u z : Text}

include he

theorem ne_of_isStop {c : Char} (hc : isStop c = false) : e ≠ c := by
  rintro rfl
  rw [he] at hc
  cases hc

theorem endsName_stop (z : Text) : EndsName (e :: z) := by
  intro c hc
  cases hc
  exact ⟨eq_false_of_isStop he (by decide +kernel), ne_of_isStop he rfl, ne_of_isStop he rfl⟩

theorem takeWhile_append_stop {p : Char → Bool} (hp : ['(', ')', '"', '-'].any p = false) (u z : Text) :
    (u ++ e :: z).takeWhile p = u.takeWhile p ∧
      (u ++ e :: z).dropWhile p = u.dropWhile p ++ e :: z := by
  have hhead : ∀ d ∈ (e :: z).head?, p d = false := by
    intro d hd
    cases hd
    exact eq_false_of_isStop he hp
  exact ⟨takeWhile_append_of_head hhead u, dropWhile_append_of_head hhead u⟩

theorem gap_append_stop (u z : Text) : gap (u ++ e :: z) = ((gap u).1, (gap u).2 ++ e :: z) := by
  obtain ⟨htake, hdrop⟩ := takeWhile_append_stop he (p := isSpace) (by decide) u z
  rw [gap, htake, hdrop]
  rfl

theorem nameBody_append_stop (u z : Text) :
    nameBody (u ++ e :: z) = ((nameBody u).1, (nameBody u).2 ++ e :: z) :=
  nameBody_append_of_endsName (endsName_stop he z) u

theorem head?_any_append_stop {p : Char → Bool} (hp : ['(', ')', '"', '-'].any p = false) (u z : Text) :
    (u ++ e :: z).head?.any p = u.head?.any p := by
  cases u with
  | nil => simpa using eq_false_of_isStop he hp
  | cons c u => rfl

theorem placeholder?_append_stop (u z : Text) :
    placeholder? (u ++ e :: z) = (placeholder? u).map fun p => (p.1, p.2 ++ e :: z) := by
  cases u with
  | nil => simp [placeholder?, @ne_of_isStop _ he '?' rfl, @ne_of_isStop _ he ':' rfl, @ne_of_isStop _ he '$' rfl]
  | cons c u =>
    obtain ⟨hword, hword'⟩ := takeWhile_append_stop he (p := isWordChar) (by decide +kernel) u z
    obtain ⟨hdigit, hdigit'⟩ := takeWhile_append_stop he (p := isDigit) (by decide +kernel) u z
    rw [List.cons_append, placeholder?, placeholder?, hword, hword', hdigit, hdigit',
      head?_any_append_stop he (by decide), head?_any_append_stop he (by decide +kernel)]
    split
    · rfl
    split
    · rfl
    split <;> rfl

theorem keyword?_append_stop {ks : Text}
    (hks : (ks.any fun k => ['(', ')', '"', '-'].any (isLetter k)) = false) (u z : Text) :
    keyword? ks (u ++ e :: z) = (keyword? ks u).map fun p => (p.1, p.2 ++ e :: z) := by
  fun_induction keyword? ks u with
  | case1 => simp [keyword?]
  | case2 k ks =>
    rw [List.any_cons, Bool.or_eq_false_iff] at hks
    simp [keyword?, eq_false_of_isStop he hks.1]
  | case3 k ks c s hc ih =>
    rw [List.any_cons, Bool.or_eq_false_iff] at hks
    simp [keyword?, hc, ih hks.2, Function.comp_def]
  | case4 k ks c s hc => simp [keyword?, hc]

theorem negation_append_stop (u z : Text) :
    negation (u ++ e :: z) =
      ((negation u).1, (negation u).2.1, (negation u).2.2 ++ e :: z) := by
  rw [negation, negation, keyword?_append_stop he (by decide)]
  cases keyword? "not".toList u with
  | none => rfl
  | some p =>
    simp only [Option.map_some, gap_append_stop he]
    split <;> rfl

omit he in
theorem munch_quote (s : Text) :
    munch '\'' s = (⟨.quoted, '\'' :: (munchQuoted '\'' s).1⟩, (munchQuoted '\'' s).2) := by
  simp [munch]

omit he in
/-- A literal that has its end is read up to there, whatever stands behind it. -/
theorem literalBody_of_whole (h : Whole ('\'' :: u) (e :: z)) :
    ∃ p, literalBody u = some p ∧ literalBody (u ++ e :: z) = some (p.1, p.2 ++ e :: z) ∧
      Whole ('\'' :: p.1) (p.2 ++ e :: z) ∧ Whole p.2 (e :: z) := by
  cases h with
  | char hc hu =>
    rw [munch_quote] at hc
    cases hc
  | @region _ k b v _ hk hb hv =>
    have hmunch : munchQuoted '\'' (b ++ (v ++ e :: z)) = (b, v ++ e :: z) := by
      rw [munch_quote] at hb
      simp only [Prod.mk.injEq, Token.mk.injEq, List.cons.injEq, true_and] at hb
      exact Prod.ext hb.1.2 hb.2
    have hclosed := @munchQuoted_closed '\'' (b ++ (v ++ e :: z))
    rw [hmunch] at hclosed
    obtain ⟨hcount, hhead⟩ := hclosed (by simp)
    have hself := munchQuoted_self '\'' (b ++ (v ++ e :: z))
    rw [hmunch] at hself
    have hv' : v.head? ≠ some '\'' := by
      cases v with
      | nil => simp
      | cons d v => simpa using hhead
    have hmunch' := munchQuoted_append_right (by rw [hself]) hcount hv'
    refine ⟨(b, v), literalBody_of_munchQuoted hmunch' hcount, ?_, whole_quoted hmunch, hv⟩
    rw [List.append_assoc]
    exact literalBody_of_munchQuoted hmunch hcount

/-- A pattern in front of the character is read up to its end. -/
theorem pattern?_append_stop (h : Whole u (e :: z)) :
    pattern? (u ++ e :: z) = (pattern? u).map (fun p => (p.1, p.2 ++ e :: z)) ∧
      ∀ p, pattern? u = some p → Whole p.1 (p.2 ++ e :: z) ∧ Whole p.2 (e :: z) := by
  have hplaceholder := placeholder?_append_stop he u z
  cases u with
  | nil =>
    have hquote : e ≠ '\'' := ne_of_isStop he rfl
    rw [List.nil_append, pattern?.eq_2, if_neg hquote]
    exact ⟨hplaceholder, fun p hp => by cases hp⟩
  | cons c u =>
    rw [List.cons_append, pattern?, pattern?]
    split
    · rename_i hc
      subst hc
      obtain ⟨q, hbody, hbody', hfirst, hrest⟩ := literalBody_of_whole h
      rw [hbody, hbody']
      refine ⟨rfl, fun p hp => ?_⟩
      cases hp
      exact ⟨hfirst, hrest⟩
    · refine ⟨hplaceholder, fun p hp => ?_⟩
      have hquiet := isQuiet_of_placeholder? hp
      rw [← (placeholder?_append hp).1] at h
      exact ⟨whole_of_isQuiet hquiet _, h.of_quiet_append hquiet⟩

theorem operand?_append_stop (h : Whole u (e :: z)) :
    operand? (u ++ e :: z) = (operand? u).map (fun p => (p.1, p.2 ++ e :: z)) ∧
      ∀ p, operand? u = some p → Whole p.2 (e :: z) := by
  obtain ⟨hpattern, hwhole⟩ := pattern?_append_stop he h
  cases u with
  | nil =>
    have hstart : isNameStart e = false := eq_false_of_isStop he (by decide)
    rw [List.nil_append, operand?.eq_2, hstart]
    exact ⟨hpattern, fun p hp => by cases hp⟩
  | cons c u =>
    rw [List.cons_append, operand?, operand?]
    split
    · rename_i hc
      rw [nameBody_append_stop he]
      refine ⟨rfl, fun p hp => ?_⟩
      cases hp
      have hu : c :: u = (c :: (nameBody u).1) ++ (nameBody u).2 := by
        rw [List.cons_append, nameBody_append]
      rw [hu] at h
      exact h.of_quiet_append
        (List.forall_mem_cons.2 ⟨isQuiet_of_isNameStart hc, isQuiet_of_mem_nameBody⟩)
    · exact ⟨hpattern, fun p hp => (hwhole p hp).2⟩

omit he in
theorem whole_behind_gap (h : Whole u (e :: z)) : Whole (gap u).2 (e :: z) := by
  rw [← gap_append u] at h
  exact h.of_quiet_append isQuiet_of_mem_gap

omit he in
theorem joined?_eq_none {s : Text} (h : ∀ r, (gap s).2 ≠ '|' :: '|' :: r) : joined? s = none := by
  unfold joined?
  split
  · rename_i r hr
    exact absurd hr (h r)
  · rfl

theorem joined?_append_stop (h : Whole u (e :: z)) :
    joined? (u ++ e :: z) = (joined? u).map (fun p => (p.1, p.2 ++ e :: z)) ∧
      ∀ p, joined? u = some p → Whole p.2 (e :: z) := by
  have hgap := whole_behind_gap h
  have hgap' := gap_append_stop he u z
  have hbar : e ≠ '|' := ne_of_isStop he rfl
  by_cases hr : ∃ r, (gap u).2 = '|' :: '|' :: r
  · obtain ⟨r, hr⟩ := hr
    rw [hr] at hgap
    have hbars : ∀ c ∈ ['|', '|'], isQuiet c = true :=
      List.forall_mem_cons.2 ⟨rfl, List.forall_mem_singleton.2 rfl⟩
    have hwhole : Whole r (e :: z) := Whole.of_quiet_append hbars hgap
    obtain ⟨hoperand, hrest⟩ := operand?_append_stop he (whole_behind_gap hwhole)
    unfold joined?
    rw [hgap', hr]
    simp only [List.cons_append, gap_append_stop he, hoperand, Option.map_map]
    refine ⟨rfl, fun p hp => ?_⟩
    obtain ⟨q, hq, rfl⟩ := Option.map_eq_some_iff.1 hp
    exact hrest q hq
  · simp only [not_exists] at hr
    have hnone : joined? u = none := joined?_eq_none hr
    rw [hnone]
    refine ⟨joined?_eq_none fun r => ?_, fun p hp => by cases hp⟩
    rw [hgap']
    -- with the character behind it, what follows the gap has no bars that it had not before
    rcases hv : (gap u).2 with _ | ⟨c, _ | ⟨d, v⟩⟩
    · simp [hbar]
    · simp [hbar]
    · intro hcons
      simp only [List.cons_append, List.cons.injEq] at hcons
      exact hr v (by rw [hv, hcons.1, hcons.2.1])

omit he in
theorem joinedAll_of_joined?_eq_some {s : Text} {p : Text × Text} (h : joined? s = some p) :
    joinedAll s = (p.1 ++ (joinedAll p.2).1, (joinedAll p.2).2) := by
  rw [joinedAll]
  split
  · rename_i hnone
    rw [h] at hnone
    cases hnone
  · rename_i q hq
    rw [h] at hq
    cases hq
    rfl

theorem joinedAll_append_stop (h : Whole u (e :: z)) :
    joinedAll (u ++ e :: z) = ((joinedAll u).1, (joinedAll u).2 ++ e :: z) ∧
      Whole (joinedAll u).2 (e :: z) := by
  fun_induction joinedAll u with
  | case1 s hnone =>
    obtain ⟨hjoined, -⟩ := joined?_append_stop he h
    rw [hnone] at hjoined
    exact ⟨joinedAll_of_joined?_eq_none hjoined, h⟩
  | case2 s p hsome ih =>
    obtain ⟨hjoined, hrest⟩ := joined?_append_stop he h
    rw [hsome] at hjoined
    obtain ⟨ih, hwhole⟩ := ih (hrest p hsome)
    rw [joinedAll_of_joined?_eq_some hjoined, ih]
    exact ⟨rfl, hwhole⟩

omit he in
theorem whole_behind_like {like s₅ : Text} (h : Whole u (e :: z))
    (hlike : keyword? "like".toList (negation (gap u).2).2.2 = some (like, s₅)) :
    Whole (gap s₅).2 (e :: z) := by
  have hgap := whole_behind_gap h
  rw [← negation_append (gap u).2, ← List.append_assoc] at hgap
  have hnegation := hgap.of_quiet_append isQuiet_of_negation
  rw [← keyword?_append hlike] at hnegation
  exact whole_behind_gap (hnegation.of_quiet_append (isQuiet_of_keyword? (by decide) hlike))

/-- What is read in front of the character is what would be read if the text ended there. -/
theorem read?_append_stop (h : Whole u (e :: z)) :
    read? (u ++ e :: z) = (read? u).map fun p => (p.1, p.2 ++ e :: z) := by
  obtain ⟨hoperand, hfirst⟩ := operand?_append_stop he h
  rw [read?, read?, hoperand]
  cases ho : operand? u with
  | none => rfl
  | some p =>
    obtain ⟨hjoined, hmore⟩ := joinedAll_append_stop he (hfirst p ho)
    have hletters : ("like".toList.any fun k => ['(', ')', '"', '-'].any (isLetter k)) = false := by
      decide
    simp only [Option.map_some, hjoined, gap_append_stop he, negation_append_stop he,
      keyword?_append_stop he hletters]
    cases hl : keyword? "like".toList (negation (gap (joinedAll p.2).2).2).2.2 with
    | none => rfl
    | some q =>
      simp only [Option.map_some, gap_append_stop he]
      split
      · rfl
      · rw [(pattern?_append_stop he (whole_behind_like hmore hl)).1, Option.map_map, Option.map_map]
        rfl

/-- A comparison in front of the character cuts no literal and no comment. -/
theorem whole_text {m : Comparison} {rest : Text} (h : Whole u (e :: z))
    (hread : read? u = some (m, rest)) :
    Whole m.text (rest ++ e :: z) ∧ Whole rest (e :: z) := by
  have hread' := read?_append_stop he h
  rw [hread] at hread'
  have hlead := whole_lead hread'
  cases read?_eq_some_iff.1 hread with
  | @intro first s₁ more s₂ space s₃ word wordGap s₄ like s₅ likeGap s₆ pattern _ hfirst hmore
      hgap hspace hnegation hlike hlikeGap hlikeSpace hpattern =>
    obtain ⟨-, hmoreWhole⟩ := joinedAll_append_stop he ((operand?_append_stop he h).2 _ hfirst)
    have hlikeWhole : Whole s₆ (e :: z) := by
      have hlike' : keyword? "like".toList (negation (gap (joinedAll s₁).2).2).2.2 =
          some (like, s₅) := by
        rw [hmore, hgap, hnegation]
        exact hlike
      have := whole_behind_like hmoreWhole hlike'
      rwa [hlikeGap] at this
    obtain ⟨hpatternWhole, hrest⟩ := (pattern?_append_stop he hlikeWhole).2 _ hpattern
    refine ⟨?_, hrest⟩
    have hquiet : ∀ c ∈ like ++ likeGap, isQuiet c = true := by
      intro c hc
      rcases List.mem_append.1 hc with hc | hc
      · exact isQuiet_of_keyword? (by decide) hlike c hc
      · exact isQuiet_of_mem_gap (s := s₅) c (by rwa [hlikeGap])
    refine Whole.append hlead ?_
    simp only
    rw [← List.append_assoc]
    exact (whole_of_isQuiet hquiet _).append hpatternWhole

end

end Like

end QueryClauses.Sql
