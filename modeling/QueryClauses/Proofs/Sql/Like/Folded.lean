import QueryClauses.Proofs.Sql.Like.Steps

/-!
# Folding a folded comparison

An operand is copied where no comparison is read (`foldAt_operand`), and none is read where behind
white space stand neither bars nor LIKE with a pattern (`BreaksOff`). In a folded comparison nothing
is read as one: each side ends on a parenthesis, and behind LIKE stands no pattern but the name of
the function. So folding copies it, and an operand may start behind it (`foldAt_folded`).
-/

namespace QueryClauses.Sql.Like

open CharClass

/-! ## Operands that are copied -/

/-- No comparison is read at operands that no white space follows. -/
theorem read?_eq_none_of_gap {s f r : Text} (hf : operand? s = some (f, r))
    (hgap : (gap (joinedAll r).2).1 = []) : read? s = none := by
  by_contra h
  obtain ⟨⟨m, rest⟩, hread⟩ := Option.ne_none_iff_exists'.1 h
  cases read?_eq_some_iff.1 hread with
  | intro hfirst hmore hgap' hspace =>
    rw [hf] at hfirst
    cases hfirst
    rw [hmore, hgap'] at hgap
    exact hspace hgap

theorem isBoundary_of_mem_nameBody {s : Text} : ∀ c ∈ (nameBody s).1, isBoundary c = false :=
  forall_mem_nameBody (fun _ => isBoundary_of_isWordChar) rfl rfl s

/-- A pattern is a question mark, a literal, or made of characters that no operand starts behind. -/
theorem pattern?_cases {s f r : Text} (h : pattern? s = some (f, r)) :
    f = ['?'] ∨ (∃ body, f = '\'' :: body ∧ literalBody (body ++ r) = some (body, r)) ∨
      (∃ c ∈ [':', '$'], f.head? = some c) ∧ ∀ c ∈ f, isQuiet c = true ∧ isBoundary c = false := by
  cases s with
  | nil => cases h
  | cons c s =>
    rw [pattern?] at h
    split at h
    · rename_i hc
      obtain ⟨⟨body, r'⟩, hq, hp⟩ := Option.map_eq_some_iff.1 h
      cases hp
      refine .inr (.inl ⟨body, by rw [hc], ?_⟩)
      rwa [literalBody_append hq]
    have hquiet := isQuiet_of_placeholder? h
    rw [placeholder?] at h
    split at h
    · rename_i hc
      cases h
      exact .inl (by rw [hc])
    refine .inr (.inr ?_)
    split at h
    · rename_i hc
      obtain ⟨rfl, -⟩ := hc
      cases h
      refine ⟨⟨':', by simp, rfl⟩, fun d hd => ⟨hquiet d hd, ?_⟩⟩
      rcases List.mem_cons.1 hd with rfl | hd
      · rfl
      · exact isBoundary_of_isWordChar (List.mem_takeWhile_imp hd)
    split at h
    · rename_i hc
      obtain ⟨rfl, -⟩ := hc
      cases h
      refine ⟨⟨'$', by simp, rfl⟩, fun d hd => ⟨hquiet d hd, ?_⟩⟩
      rcases List.mem_cons.1 hd with rfl | hd
      · rfl
      · exact isBoundary_of_isWordChar (isWordChar_of_isDigit (List.mem_takeWhile_imp hd))
    · cases h

/-- An operand is a question mark, a literal, or made of characters that no operand starts behind. -/
theorem operand?_cases {s f r : Text} (h : operand? s = some (f, r)) :
    f = ['?'] ∨ (∃ body, f = '\'' :: body ∧ literalBody (body ++ r) = some (body, r)) ∨
      ∀ c ∈ f, isQuiet c = true ∧ isBoundary c = false := by
  cases s with
  | nil => cases h
  | cons c s =>
    rw [operand?] at h
    split at h
    · rename_i hc
      cases h
      refine .inr (.inr (List.forall_mem_cons.2 ⟨⟨isQuiet_of_isNameStart hc,
        isBoundary_of_isWordChar (isWordChar_of_isNameChar (isNameChar_of_isNameStart hc))⟩,
        fun d hd => ⟨isQuiet_of_mem_nameBody d hd, isBoundary_of_mem_nameBody d hd⟩⟩))
    · exact (pattern?_cases h).imp_right fun h => h.imp_right And.right

/-- A pattern is an operand. -/
theorem operand?_of_pattern? {s : Text} {p : Text × Text} (h : pattern? s = some p) :
    operand? s = some p := by
  cases s with
  | nil => cases h
  | cons c s =>
    obtain ⟨d, q, hd, hmem⟩ := pattern?_head h
    have happ := (pattern?_append h).1
    rw [hd, List.cons_append, List.cons.injEq] at happ
    obtain ⟨rfl, -⟩ := happ
    have hstart : isNameStart d = false := by
      simp only [List.mem_cons, List.not_mem_nil, or_false] at hmem
      rcases hmem with rfl | rfl | rfl | rfl <;> rfl
    rw [operand?, if_neg (by rw [hstart]; exact Bool.false_ne_true), h]

/-- An operand is copied where no comparison is read, and an operand may start behind it exactly if
it is a question mark. -/
theorem foldAt_operand {mayStart : Bool} {f r : Text} (h : operand? (f ++ r) = some (f, r))
    (hr : f.head? = some '\'' → r.head? ≠ some '\'')
    (hread : mayStart = true → read? (f ++ r) = none) :
    foldAt mayStart (f ++ r) = f ++ foldAt (f == ['?']) r := by
  rcases operand?_cases h with rfl | ⟨body, rfl, hbody⟩ | hchars
  · rw [List.cons_append, List.nil_append] at hread ⊢
    rw [foldAt_char rfl hread]
    rfl
  · have hb : munch '\'' (body ++ r) = (⟨.quoted, '\'' :: body⟩, r) := by
      rw [munch_quote, munchQuoted_of_literalBody hbody (hr rfl)]
    rw [List.cons_append, foldAt_region rfl hb hread]
    rfl
  · have hne : f ≠ [] := (operand?_append h).2
    have hmark : (f == ['?']) = false := by
      by_contra hmark
      rw [Bool.not_eq_false, beq_iff_eq] at hmark
      subst hmark
      exact absurd (hchars '?' List.mem_cons_self).2 (by decide +kernel)
    rw [hmark]
    cases mayStart with
    | false => exact foldAt_false_append hchars r
    | true => exact foldAt_append hne hchars (hread rfl)

/-! ## In front of a parenthesis -/

section

variable {e : Char} (he : isStop e = true)

include he

theorem endsOperand_stop (z : Text) : EndsOperand (e :: z) := by
  intro c hc
  obtain ⟨hword, hdollar, hpoint⟩ := endsName_stop he z c hc
  refine ⟨hword, hdollar, hpoint, ?_⟩
  cases hc
  exact ne_of_isStop he rfl

theorem gap_stop (z : Text) : gap (e :: z) = ([], e :: z) := by
  have := gap_append_stop he [] z
  simpa [gap] using this

theorem joinedAll_stop (z : Text) : joinedAll (e :: z) = ([], e :: z) := by
  refine joinedAll_of_joined?_eq_none (joined?_eq_none fun r hr => ?_)
  rw [gap_stop he, List.cons.injEq] at hr
  exact ne_of_isStop he rfl hr.1

/-- The further operands of a concatenation are copied in front of a parenthesis. -/
theorem foldAt_joinedAll {s z : Text} (h : (joinedAll s).2 = e :: z) (mayStart : Bool) :
    ∃ mayStart', foldAt mayStart s = (joinedAll s).1 ++ foldAt mayStart' (e :: z) := by
  fun_induction joinedAll s generalizing mayStart with
  | case1 s hs =>
    simp only at h
    exact ⟨mayStart, by rw [h, List.nil_append]⟩
  | case2 s p hp ih =>
    obtain ⟨j, r⟩ := p
    obtain ⟨g, g', f, hg, hg', rfl, rfl, hf⟩ := joined?_eq_some_iff.1 hp
    obtain ⟨mayStart', hmay⟩ := ih h (f == ['?'])
    have hread : read? (f ++ r) = none := by
      refine read?_eq_none_of_gap hf ?_
      rw [h, gap_stop he]
    have hends : EndsOperand r := by
      refine endsOperand_of_joinedAll ?_
      rw [h]
      exact endsOperand_stop he z
    refine ⟨mayStart', ?_⟩
    have happ : g ++ '|' :: '|' :: (g' ++ f) ++ r = g ++ '|' :: '|' :: (g' ++ (f ++ r)) := by simp
    rw [happ, foldAt_bars hg hg', foldAt_operand hf (fun _ hq => (hends _ hq).2.2.2 rfl)
      fun _ => hread, hmay]
    simp

/-- A concatenation is copied in front of a parenthesis. -/
theorem foldAt_concatenation {s : Text} (hs : IsConcatenation s) (mayStart : Bool) (z : Text) :
    ∃ mayStart', foldAt mayStart (s ++ e :: z) = s ++ foldAt mayStart' (e :: z) := by
  obtain ⟨first, more, rfl, hread⟩ := hs
  obtain ⟨hfirst, hmore⟩ := hread _ (endsOperand_stop he z) (joinedAll_stop he z)
  obtain ⟨mayStart', hmay⟩ := foldAt_joinedAll he (by rw [hmore]) (first == ['?'])
  have hnone : read? (first ++ (more ++ e :: z)) = none := by
    refine read?_eq_none_of_gap hfirst ?_
    rw [hmore, gap_stop he]
  have hends : EndsOperand (more ++ e :: z) := by
    refine endsOperand_of_joinedAll ?_
    rw [hmore]
    exact endsOperand_stop he z
  refine ⟨mayStart', ?_⟩
  rw [List.append_assoc, foldAt_operand hfirst (fun _ hq => (hends _ hq).2.2.2 rfl) fun _ => hnone,
    hmay, hmore, List.append_assoc]

end

/-! ## Keywords -/

theorem isWordChar_of_isLetter {k c : Char} (hk : k.isAlpha = true) (h : isLetter k c = true) :
    isWordChar c = true := by
  simp only [isLetter, Bool.or_eq_true, Bool.and_eq_true, beq_iff_eq] at h
  rcases h with h | ⟨-, rfl⟩
  · have halpha : c.isAlpha = true := isAlpha_of_isAlpha_toLower (by rw [h, hk])
    exact isWordChar_of_isNameChar (by simp [isNameChar, Char.isAlphanum, halpha])
  · decide +kernel

theorem isWordChar_of_mem_keyword? {ks s : Text} {p : Text × Text} (hks : ∀ k ∈ ks, k.isAlpha = true)
    (h : keyword? ks s = some p) : ∀ c ∈ p.1, isWordChar c = true := by
  fun_induction keyword? ks s generalizing p with
  | case1 => cases h; simp
  | case2 => cases h
  | case3 k ks c s hc ih =>
    obtain ⟨q, hq, rfl⟩ := Option.map_eq_some_iff.1 h
    obtain ⟨hk, hks⟩ := List.forall_mem_cons.1 hks
    exact List.forall_mem_cons.2 ⟨isWordChar_of_isLetter hk hc, ih hks hq⟩
  | case4 => cases h

theorem nameBody_of_isWordChar {w r : Text} (hw : ∀ c ∈ w, isWordChar c = true) (hr : EndsName r) :
    nameBody (w ++ r) = (w, r) := by
  induction w with
  | nil => exact nameBody_of_endsName hr
  | cons c w ih =>
    obtain ⟨hc, hw⟩ := List.forall_mem_cons.1 hw
    have ih := ih hw
    rw [List.cons_append]
    cases hwr : w ++ r with
    | nil =>
      obtain ⟨rfl, rfl⟩ := List.append_eq_nil_iff.1 hwr
      simp [nameBody, hc]
    | cons d u =>
      rw [hwr] at ih
      simp [nameBody, hc, ih]

/-- A keyword that is made of letters and starts on another one than K. -/
def IsWordOf (k : Char) (ks w : Text) : Prop :=
  keyword? (k :: ks) w = some (w, []) ∧ k ≠ 'k' ∧ ∀ c ∈ k :: ks, c.isAlpha = true

section

variable {k : Char} {ks w : Text} (h : IsWordOf k ks w)

include h

theorem operand?_of_isWordOf {r : Text} (hr : EndsName r) : operand? (w ++ r) = some (w, r) := by
  obtain ⟨hkeyword, hne, halpha⟩ := h
  have hword := isWordChar_of_mem_keyword? halpha hkeyword
  obtain ⟨c, u, hc, hletter⟩ := head?_of_keyword? hkeyword
  simp only at hc hword
  subst hc
  have hstart : isNameStart c = true := by
    rw [isNameStart, isAlpha_of_isLetter (halpha k List.mem_cons_self) hne hletter, Bool.or_true]
  rw [List.cons_append, operand?, if_pos hstart,
    nameBody_of_isWordChar (fun d hd => hword d (List.mem_cons_of_mem c hd)) hr]

/-- A keyword is copied where no comparison is read. -/
theorem foldAt_isWordOf {r : Text} {mayStart : Bool}
    (hread : mayStart = true → read? (w ++ r) = none) :
    foldAt mayStart (w ++ r) = w ++ foldAt false r := by
  obtain ⟨hkeyword, hne, halpha⟩ := h
  have hword := isWordChar_of_mem_keyword? halpha hkeyword
  obtain ⟨c, u, hc, -⟩ := head?_of_keyword? hkeyword
  simp only at hc
  have hchars : ∀ c ∈ w, isQuiet c = true ∧ isBoundary c = false := fun d hd =>
    ⟨isQuiet_of_isWordChar (hword d hd), isBoundary_of_isWordChar (hword d hd)⟩
  cases mayStart with
  | false => exact foldAt_false_append hchars r
  | true => exact foldAt_append (by rw [hc]; exact List.cons_ne_nil c u) hchars (hread rfl)

end

theorem Comparison.Spaced.isWordOf_keyword {m : Comparison} (h : m.Spaced) :
    IsWordOf 'l' "ike".toList m.keyword :=
  ⟨h.keyword, by decide, by simp⟩

theorem Comparison.Spaced.isWordOf_negation {m : Comparison} (h : m.Spaced) (hne : m.negation ≠ []) :
    IsWordOf 'n' "ot".toList m.negation :=
  ⟨(h.negation.resolve_left fun h => hne h.1).1, by decide, by simp⟩

/-! ## Behind an operand -/

/-- Whether a text starts on LIKE and a pattern, or on NOT and these. -/
def startsLike (s : Text) : Bool :=
  (keyword? "like".toList (negation s).2.2).any fun p => (patternBehind? p.2).isSome

/-- Behind an operand, no comparison goes on with the text: behind white space stand neither bars nor
LIKE with a pattern. -/
def BreaksOff (r : Text) : Prop :=
  (gap r).2.head? ≠ some '|' ∧ startsLike (gap r).2 = false

/-- No comparison is read at an operand behind which none goes on. -/
theorem BreaksOff.read?_eq_none {f r : Text} (h : BreaksOff r)
    (hf : operand? (f ++ r) = some (f, r)) : read? (f ++ r) = none := by
  obtain ⟨hbar, hlike⟩ := h
  have hjoined : joinedAll r = ([], r) := by
    refine joinedAll_of_joined?_eq_none (joined?_eq_none fun v hv => hbar ?_)
    rw [hv]
    rfl
  by_contra hsome
  obtain ⟨⟨m, rest⟩, hread⟩ := Option.ne_none_iff_exists'.1 hsome
  cases read?_eq_some_iff.1 hread with
  | intro hfirst hmore hgap hspace hnegation hkeyword hlikeGap hlikeSpace hpattern =>
    rw [hf] at hfirst
    cases hfirst
    rw [hjoined] at hmore
    cases hmore
    rw [startsLike, hgap, hnegation, hkeyword, Option.any_some, patternBehind?, hlikeGap,
      hpattern] at hlike
    simp [hlikeSpace] at hlike

theorem breaksOff_space {g r : Text} (hg : ∀ c ∈ g, isSpace c = true) (hr : BreaksOff r) :
    BreaksOff (g ++ r) := by
  have hgap : (gap (g ++ r)).2 = (gap r).2 := List.dropWhile_append_of_pos hg
  rwa [BreaksOff, hgap]

theorem breaksOff_of_startsLike {r : Text} (hhead : ∀ c ∈ r.head?, isSpace c = false ∧ c ≠ '|')
    (hlike : startsLike r = false) : BreaksOff r := by
  have hgap : gap r = ([], r) := gap_of_isSpace (g := []) (by simp) fun c hc => (hhead c hc).1
  rw [BreaksOff, hgap]
  exact ⟨fun hbar => (hhead '|' hbar).2 rfl, hlike⟩

/-- No comparison goes on with a text that starts neither on a bar nor on the letter of a keyword. -/
theorem breaksOff_of_head? {r : Text} (h : ∀ c ∈ r.head?, isSpace c = false ∧ c ≠ '|' ∧
    isLetter 'n' c = false ∧ isLetter 'l' c = false) : BreaksOff r := by
  have hnot : keyword? "not".toList r = none := keyword?_eq_none_of_head fun c hc => (h c hc).2.2.1
  have hlike : keyword? "like".toList r = none := keyword?_eq_none_of_head fun c hc => (h c hc).2.2.2
  refine breaksOff_of_startsLike (fun c hc => ⟨(h c hc).1, (h c hc).2.1⟩) ?_
  rw [startsLike, negation, hnot]
  simp only [hlike, Option.any_none]

/-- No comparison goes on with LIKE where no pattern stands behind it. -/
theorem breaksOff_of_pattern {v g r : Text} (hv : IsWordOf 'l' "ike".toList v)
    (hg : ∀ c ∈ g, isSpace c = true) (hr : ∀ c ∈ r.head?, isSpace c = false)
    (hpattern : pattern? r = none) : BreaksOff (v ++ (g ++ r)) := by
  obtain ⟨c, u, hc, halpha, hletter⟩ := head?_of_like? hv.1
  simp only at hc
  have hhead : ∀ d ∈ (v ++ (g ++ r)).head?, d = c := by
    rw [hc]
    rintro d ⟨⟩
    rfl
  have hnot : keyword? "not".toList (v ++ (g ++ r)) = none :=
    keyword?_eq_none_of_head fun d hd => by
      rw [hhead d hd]
      exact hletter
  have hlike : keyword? "like".toList (v ++ (g ++ r)) = some (v, g ++ r) :=
    keyword?_congr (show keyword? "like".toList v = _ from hv.1) (g ++ r)
  refine breaksOff_of_startsLike (fun d hd => ?_) ?_
  · rw [hhead d hd]
    exact isSpace_of_isAlpha halpha
  · rw [startsLike, negation, hnot]
    simp only [hlike, Option.any_some, patternBehind?, gap_of_isSpace hg hr, hpattern,
      Option.map_none, ite_self, Option.isSome_none]

/-- A keyword behind which neither bars nor a keyword start is copied. -/
theorem foldAt_isWordOf_behind {k : Char} {ks w g r : Text} (h : IsWordOf k ks w)
    (hg : ∀ c ∈ g, isSpace c = true) (hne : g ≠ [])
    (hr : ∀ c ∈ r.head?, isSpace c = false ∧ c ≠ '|' ∧ isLetter 'n' c = false ∧
      isLetter 'l' c = false) (mayStart : Bool) :
    foldAt mayStart (w ++ (g ++ r)) = w ++ (g ++ foldAt true r) := by
  have hends := endsName_space hg hne r
  have hspace : (!g.isEmpty) = true := by simpa using hne
  have hbreaks := breaksOff_space hg (breaksOff_of_head? hr)
  rw [foldAt_isWordOf h fun _ => hbreaks.read?_eq_none (operand?_of_isWordOf h hends),
    foldAt_space hg, Bool.false_or, hspace]

/-! ## The folded comparison -/

/-- The name of the function and its parenthesis are copied. -/
theorem foldAt_upper (mayStart : Bool) (z : Text) :
    foldAt mayStart ("UPPER(".toList ++ z) = "UPPER(".toList ++ foldAt true z := by
  have hsplit : ∀ z : Text, "UPPER(".toList ++ z = "UPPER".toList ++ '(' :: z := fun _ => rfl
  have hident : ∀ c ∈ "UPPER".toList, isIdentChar c = true := List.all_eq_true.1 (by decide)
  have hread : read? "UPPER".toList = none := by decide +kernel
  have hnone : read? ("UPPER".toList ++ '(' :: z) = none := by
    rw [read?_append_stop rfl (whole_of_isQuiet (fun c hc => isQuiet_of_isIdentChar (hident c hc)) _),
      hread, Option.map_none]
  have hchars : ∀ c ∈ "UPPER".toList, isQuiet c = true ∧ isBoundary c = false := fun c hc =>
    ⟨isQuiet_of_isIdentChar (hident c hc), isBoundary_of_isIdentChar (hident c hc)⟩
  rw [hsplit, hsplit, ← foldAt_parenOpen false]
  cases mayStart with
  | false => exact foldAt_false_append hchars _
  | true => exact foldAt_append (by decide) hchars hnone

theorem pattern?_upper (z : Text) : pattern? ("UPPER(".toList ++ z) = none := rfl

theorem head?_upper (z : Text) : ∀ c ∈ ("UPPER(".toList ++ z).head?, isSpace c = false ∧ c ≠ '|' ∧
    isLetter 'n' c = false ∧ isLetter 'l' c = false := by
  rintro c ⟨⟩
  decide

/-- The keywords of a folded comparison, with the blank between them. -/
def Comparison.keywords (m : Comparison) : Text :=
  (if m.negation.isEmpty then [] else m.negation ++ [' ']) ++ m.keyword

theorem folded_append (m : Comparison) (z : Text) :
    m.folded ++ z = "UPPER(".toList ++ (m.operand ++ ')' :: ([' '] ++
      (m.keywords ++ ([' '] ++ ("UPPER(".toList ++ (m.pattern ++ ')' :: z)))))) := by
  unfold Comparison.folded Comparison.keywords
  generalize (if m.negation.isEmpty then [] else m.negation ++ [' ']) = negation
  simp

theorem isSpace_of_mem_blank : ∀ c ∈ [' '], isSpace c = true := List.forall_mem_singleton.2 rfl

/-- The keywords of a folded comparison are copied. -/
theorem foldAt_keywords {m : Comparison} (h : m.Spaced) (z : Text) :
    foldAt true (m.keywords ++ ([' '] ++ ("UPPER(".toList ++ z))) =
      m.keywords ++ ([' '] ++ ("UPPER(".toList ++ foldAt true z)) := by
  have hblank := isSpace_of_mem_blank
  have hne : [' '] ≠ [] := List.cons_ne_nil ' ' []
  have hkeyword : foldAt true (m.keyword ++ ([' '] ++ ("UPPER(".toList ++ z))) =
      m.keyword ++ ([' '] ++ ("UPPER(".toList ++ foldAt true z)) := by
    rw [foldAt_isWordOf_behind h.isWordOf_keyword hblank hne (head?_upper z), foldAt_upper]
  by_cases hnot : m.negation = []
  · rwa [Comparison.keywords, hnot, List.isEmpty_nil, if_pos rfl, List.nil_append]
  · have hempty : m.negation.isEmpty = false := by simpa using hnot
    have hword := h.isWordOf_negation hnot
    have hbreaks : BreaksOff ([' '] ++ (m.keyword ++ ([' '] ++ ("UPPER(".toList ++ z)))) :=
      breaksOff_space hblank (breaksOff_of_pattern h.isWordOf_keyword hblank
        (fun c hc => (head?_upper z c hc).1) (pattern?_upper z))
    have hnone := hbreaks.read?_eq_none (operand?_of_isWordOf hword (endsName_space hblank hne _))
    have hsplit : ∀ r, m.keywords ++ r = m.negation ++ ([' '] ++ (m.keyword ++ r)) := by
      intro r
      simp [Comparison.keywords, hempty]
    rw [hsplit, hsplit, foldAt_isWordOf hword fun _ => hnone, foldAt_space hblank]
    exact congrArg (fun r => m.negation ++ ([' '] ++ r)) hkeyword

/-- A folded comparison is copied, and an operand may start behind it. -/
theorem foldAt_folded {s rest : Text} {m : Comparison} (h : read? s = some (m, rest))
    (mayStart : Bool) (z : Text) :
    foldAt mayStart (m.folded ++ z) = m.folded ++ foldAt true z := by
  have hpattern : pattern? (m.pattern ++ ')' :: z) = some (m.pattern, ')' :: z) := by
    refine pattern?_congr (pattern?_of_read? h) (fun _ => by simp) fun c hc => .inr ?_
    cases hc
    decide +kernel
  have hnone : read? (m.pattern ++ ')' :: z) = none := by
    refine read?_eq_none_of_gap (operand?_of_pattern? hpattern) ?_
    rw [joinedAll_stop rfl, gap_stop rfl]
  obtain ⟨mayStart', hoperand⟩ := foldAt_concatenation (e := ')') rfl (isConcatenation_of_read? h)
    true ([' '] ++ (m.keywords ++ ([' '] ++ ("UPPER(".toList ++ (m.pattern ++ ')' :: z)))))
  rw [folded_append, foldAt_upper, hoperand, foldAt_parenClose, foldAt_space isSpace_of_mem_blank,
    Bool.true_or, foldAt_keywords (spaced_of_read? h),
    foldAt_operand (operand?_of_pattern? hpattern) (fun _ => by simp) fun _ => hnone,
    foldAt_parenClose, ← folded_append]

end QueryClauses.Sql.Like
