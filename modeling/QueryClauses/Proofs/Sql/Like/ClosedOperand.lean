import QueryClauses.Proofs.Sql.Extension
import QueryClauses.Proofs.Sql.Like.Keywords
import QueryClauses.Proofs.Text.Case

/-!
# LIKE behind a closing parenthesis or a double quote

A function call ends on a closing parenthesis and a quoted column on a double quote, and neither is
an operand that folding knows. So where the left operand of a LIKE ends on one of them, what comes up
to the end of the operand is folded as if nothing followed (`ClosedLike.fold_eq`). What follows is a
keyword, and a keyword is a word: LIKE is copied and the pattern is left alone, but NOT in front of
LIKE is taken for a column (`ClosedLike.negation_wrapped`). All three, the operand, the keywords and
the pattern, are copied exactly where there is no NOT and the pattern is not the operand of a further
comparison (`closed_operand_copied_iff`).
-/

namespace QueryClauses.Sql.Like

open CharClass

/-! ## The end of the operand -/

theorem isBoundary_of_isStop {e : Char} (he : isStop e = true) : isBoundary e = true := by
  have := eq_false_of_isStop he (p := fun c => !isBoundary c) (by decide +kernel)
  simpa using this

theorem startsOperand_of_isStop {e : Char} (he : isStop e = true) : startsOperand e = false :=
  eq_false_of_isStop he (by decide)

/-- An element that starts on such a character is copied as a whole. -/
theorem foldAt_element {e : Char} {s r : Text} {t : Token} (h : Begins e s t r)
    (he : isStop e = true) (mayStart : Bool) :
    foldAt mayStart (t.text ++ r) = t.text ++ foldAt true r := by
  have hread : ∀ s, mayStart = true → read? (e :: s) = none := fun s _ =>
    read?_eq_none (startsOperand_of_isStop he) s
  by_cases ht : t.kind.isOpaque = true
  · obtain ⟨body, htext, rfl, -, -⟩ := h.self
    have hb : munch e (body ++ r) = (⟨t.kind, e :: body⟩, r) := by
      rw [h.munch_eq, ← htext]
    rw [htext, List.cons_append, foldAt_region ht hb (hread _), isBoundary_of_isStop he,
      List.cons_append]
  · rw [Bool.not_eq_true] at ht
    have hone : ∀ k, munch e r = (⟨k, [e]⟩, r) → k.isOpaque = false →
        foldAt mayStart (e :: r) = e :: foldAt true r := by
      intro k hk hopaque
      rw [foldAt_char (by rw [hk]; exact hopaque) (hread r), isBoundary_of_isStop he]
    cases h with
    | quoted hq h => cases ht
    | line h => cases ht
    | block h => cases ht
    | opening => exact hone _ Begins.opening.munch_eq rfl
    | closing => exact hone _ Begins.closing.munch_eq rfl
    | cast => cases he
    | placeholder hc => cases he
    | word hc =>
      have := eq_false_of_isStop he (p := isIdentChar) (by decide)
      rw [this] at hc
      cases hc
    | other hc hne hends => exact hone _ (Begins.other hc hne hends).munch_eq rfl

theorem isSpace_of_mem_textOf {b : List Token} (hb : ∀ t ∈ b, t.isBlank = true) :
    ∀ c ∈ textOf b, isSpace c = true := by
  intro c hc
  obtain ⟨t, ht, hc⟩ := List.mem_flatMap.1 hc
  have hblank := hb t ht
  rw [Token.isBlank, Bool.and_eq_true] at hblank
  exact List.all_eq_true.1 hblank.2 c hc

/-- In front of an element that starts on such a character and behind it, a statement is folded piece
by piece. -/
theorem fold_append_of_isStop {s : Text} {a b back : List Token} {t : Token}
    (hlex : lex s = a ++ t :: (b ++ back)) {e : Char} {body : Text} (htext : t.text = e :: body)
    (he : isStop e = true) (hb : ∀ u ∈ b, u.isBlank = true) :
    (fold s).text = (fold (textOf (a ++ t :: b))).text ++ (fold (textOf back)).text := by
  have hwhole := whole_textOf hlex
  have hcons : ∀ back, textOf (t :: (b ++ back)) = e :: (body ++ textOf (b ++ back)) := by
    intro back
    rw [textOf_cons, htext, List.cons_append]
  rw [hcons] at hwhole
  obtain ⟨x, mayStart, hx⟩ := foldAt_append_stop he hwhole true
  -- the same on both sides: once with what stands behind, once with nothing behind
  have hbehind : ∀ {s back}, lex s = a ++ t :: (b ++ back) →
      (fold s).text = x ++ (t.text ++ (textOf b ++ (fold (textOf back)).text)) := by
    intro s back hlex
    obtain ⟨c, r, rest, hr, hbegins, hrest⟩ := lex_eq_cons_iff.1 (lex_textOf_suffix hlex)
    obtain rfl : e = c := by
      rw [hcons, List.cons.injEq] at hr
      exact hr.1
    have hrest' : rest = textOf b ++ textOf back := by
      rw [← textOf_append, ← hrest, textOf_lex]
    have hs : s = textOf a ++ e :: (body ++ textOf (b ++ back)) := by
      rw [← textOf_lex s, hlex, textOf_append, hcons]
    rw [← foldAt_true s, hs, hx, ← hcons, textOf_cons, textOf_append, ← hrest',
      foldAt_element hbegins he, hrest', foldAt_space (isSpace_of_mem_textOf hb), Bool.true_or,
      foldAt_true]
  have hfront : lex (textOf (a ++ t :: b)) = a ++ t :: (b ++ []) := by
    rw [List.append_nil]
    exact lex_textOf_prefix (b := back) (by rw [hlex]; simp)
  rw [hbehind hlex, hbehind hfront]
  simp [fold, foldFrom]

/-- A closed element other than a line comment that ends on a closing parenthesis or a double quote
starts on it. -/
theorem isStop_of_getLast? {e c : Char} {s : Text} {t : Token} (h : Begins e s t [])
    (hclosed : t.isClosed = true) (hline : t.isLineComment = false)
    (hlast : t.text.getLast? = some c) (hc : c = ')' ∨ c = '"') : isStop e = true := by
  have hmem : c ∈ t.text := List.mem_of_getLast? hlast
  have hident : isIdentChar c = false := by
    rcases hc with rfl | rfl <;> rfl
  generalize hn : ([] : Text) = n at h
  cases h with
  | @quoted _ _ body _ hq h =>
    subst hn
    have hbody : body = s := by simpa [h] using munchQuoted_append e s
    subst hbody
    rcases hq with rfl | rfl
    · have hquote := munchQuoted_getLast? (by rw [h]) (by simpa [Token.isClosed] using hclosed)
      rw [List.getLast?_cons, hquote] at hlast
      cases hlast
      rcases hc with hc | hc <;> cases hc
    · rfl
  | line h => simp [Token.isLineComment] at hline
  | @block _ body _ h =>
    obtain ⟨u, rfl⟩ : ['*', '/'] <:+ body := by simpa [Token.isClosed] using hclosed
    obtain rfl : '/' = c := by simpa [List.getLast?_cons] using hlast
    rcases hc with hc | hc <;> cases hc
  | opening =>
    rw [List.mem_singleton.1 hmem] at hc
    rcases hc with hc | hc <;> cases hc
  | closing => rfl
  | cast =>
    have : c = ':' := by simpa using hmem
    rw [this] at hc
    rcases hc with hc | hc <;> cases hc
  | placeholder hstart =>
    rcases List.mem_cons.1 hmem with rfl | hmem
    · rcases hc with hc | hc <;> cases hc
    · rw [isIdentChar_of_isNameChar (List.mem_takeWhile_imp hmem)] at hident
      cases hident
  | word he =>
    rcases List.mem_cons.1 hmem with rfl | hmem
    · rw [he] at hident
      cases hident
    · rw [List.mem_takeWhile_imp hmem] at hident
      cases hident
  | other _ _ _ =>
    rw [List.mem_singleton.1 hmem] at hc
    rcases hc with rfl | rfl <;> rfl

/-- Where a text in front of further elements ends, but for white space, on a closing parenthesis or
a double quote, its last element but for blanks starts on a character that no comparison goes on
with. -/
theorem exists_isStop_of_closes {s : Text} {front back : List Token} {u : Token}
    (hlex : lex s = front ++ u :: back)
    (hcloses : ∃ c ∈ (Text.trimEnd (textOf front)).getLast?, c = ')' ∨ c = '"') :
    ∃ a t b e body, front = a ++ t :: b ∧ t.text = e :: body ∧ isStop e = true ∧
      ∀ v ∈ b, v.isBlank = true := by
  obtain ⟨c, hlast, hc⟩ := hcloses
  have htrim := trimEnd_textOf_rdropWhile front
  rcases blanks_at_end front with ⟨-, hnil⟩ | ⟨a, t, b, rfl, hblank, hb, hdrop, -⟩
  · rw [hnil] at htrim
    rw [← htrim] at hlast
    cases hlast
  have hclosed := isClosed_of_mem_append hlex (t := t) (by simp)
  obtain ⟨e, body, htext, hbegins⟩ := begins_of_mem_lex (s := s) (t := t) (by rw [hlex]; simp)
  refine ⟨a, t, b, e, body, rfl, htext, ?_, hb⟩
  by_cases hline : t.isLineComment = true
  · rw [Token.isLineComment, htext, Bool.and_eq_true] at hline
    have : e = '-' := by simpa using hline.2
    rw [this]
    rfl
  rw [Bool.not_eq_true] at hline
  have hself := hbegins.trimEnd_eq hclosed hblank hline
  have hne : t.text ≠ [] := by
    rw [htext]
    exact List.cons_ne_nil e body
  rw [← htrim, hdrop, textOf_append, textOf_cons, textOf_nil, List.append_nil,
    trimEnd_append_of_ne_nil (by rwa [hself]), hself, List.getLast?_append_of_ne_nil _ hne] at hlast
  exact isStop_of_getLast? hbegins hclosed hline hlast hc

/-! ## Operands without a LIKE -/

/-- A text that no comparison reads from: LIKE stands nowhere in it, and no comparison that starts
before it goes on into it. -/
structure Unread (before operand : Text) : Prop where
  noLike : ∀ u, u <:+ operand → keyword? "like".toList u = none
  apart : ∀ u m rest, u <:+ before → read? (u ++ operand) = some (m, rest) → operand <:+ rest

theorem Unread.of_suffix {before operand u : Text} (h : Unread before operand) (hu : u <:+ before) :
    Unread u operand where
  noLike := h.noLike
  apart v m rest hv hread := h.apart v m rest (hv.trans hu) hread

/-- Such a text is copied. -/
theorem Unread.suffix_foldFrom {before operand : Text} (h : Unread before operand) (v : Survey)
    (mayStart : Bool) (pos : Nat) :
    operand <:+ (foldFrom v mayStart pos (before ++ operand)).text := by
  induction hn : before.length using Nat.strong_induction_on generalizing before mayStart pos with
  | _ n ih =>
    subst hn
    cases before with
    | nil =>
      simp only [List.nil_append, foldFrom_of_forall_keyword? h.noLike, List.suffix_refl]
    | cons c u =>
      have hu := h.of_suffix (List.suffix_cons c u)
      have hstep : ∀ mayStart, operand <:+
          c :: (foldFrom v mayStart (pos + c.utf8Size) (u ++ operand)).text := fun mayStart =>
        (ih u.length (by simp) hu mayStart _ rfl).trans (List.suffix_cons c _)
      rw [List.cons_append, foldFrom_cons]
      split
      · exact hstep _
      · rename_i m rest hread
        split
        · exact hstep _
        · have hread' : read? (c :: u ++ operand) = some (m, rest) := by
            split at hread
            · exact hread
            · cases hread
          obtain ⟨happ, hoperand⟩ := read?_append hread'
          obtain ⟨w, rfl⟩ := h.apart (c :: u) m rest List.suffix_rfl hread'
          simp only [← List.append_assoc] at happ
          have hw : m.text ++ w = c :: u := List.append_cancel_right happ
          have hlt : w.length < (c :: u).length := by
            have := congrArg List.length hw
            have := List.length_pos_iff.2 hoperand
            simp only [Comparison.text, Comparison.lead, List.length_append] at *
            omega
          exact (ih w.length hlt (h.of_suffix ⟨_, hw⟩) false _ rfl).trans (List.suffix_append _ _)

/-! ## LIKE behind a closed operand -/

/-- An element that is a keyword. -/
def IsKeywordToken (keyword : String) (t : Token) : Prop :=
  t.kind = .word ∧ isKeyword keyword t.text = true

theorem isSegment_of_isKeywordToken {s : Text} {t : Token} {keyword : String} {k : Char} {ks : Text}
    (ht : t ∈ lex s) (h : IsKeywordToken keyword t) (hkeyword : keyword.toList.map Char.toLower = k :: ks)
    (hk : k.isAlpha = true) :
    Identifier.IsSegment t.text ∧ t.text.map Char.toLower = k :: ks := by
  obtain ⟨hkind, hword⟩ := h
  rw [isKeyword, Text.sameWord, beq_iff_eq, hkeyword] at hword
  refine ⟨?_, hword⟩
  obtain ⟨c, body, -, hbegins⟩ := begins_of_mem_lex ht
  generalize ([] : Text) = n at hbegins
  cases hbegins with
  | word hc =>
    obtain ⟨hlower, -⟩ := List.cons.inj hword
    have halpha : c.isAlpha = true := isAlpha_of_isAlpha_toLower (by rw [hlower, hk])
    exact ⟨by simp [isNameStart, halpha], fun d hd => List.mem_takeWhile_imp hd⟩
  | _ => cases hkind

/-- A LIKE of the statement `s`, or a NOT LIKE, whose left operand ends on a closing parenthesis or a
double quote: `front` is what comes up to the operand's end and the white space behind it, `negation`
is NOT with the white space behind it, or nothing. -/
structure ClosedLike (s : Text) (front negation : List Token) (like : Token) (behind : List Token) :
    Prop where
  lex_eq : lex s = front ++ (negation ++ like :: behind)
  closes : ∃ c ∈ (Text.trimEnd (textOf front)).getLast?, c = ')' ∨ c = '"'
  isNot : negation = [] ∨ ∃ word blanks, negation = word :: blanks ∧ IsKeywordToken "NOT" word ∧
    blanks ≠ [] ∧ ∀ t ∈ blanks, t.isBlank = true
  isLike : IsKeywordToken "LIKE" like

section

variable {s : Text} {front negation behind : List Token} {like : Token}
  (h : ClosedLike s front negation like behind)

include h

/-- What comes up to the operand's end is folded as if nothing followed, and what follows as if
nothing came before. -/
theorem ClosedLike.fold_eq :
    (fold s).text =
      (fold (textOf front)).text ++ (fold (textOf (negation ++ like :: behind))).text := by
  obtain ⟨u, back, hback⟩ : ∃ u back, negation ++ like :: behind = u :: back :=
    List.exists_cons_of_ne_nil (by simp)
  have hlex := h.lex_eq
  rw [hback] at hlex ⊢
  obtain ⟨a, t, b, e, body, rfl, htext, he, hb⟩ := exists_isStop_of_closes hlex h.closes
  exact fold_append_of_isStop (by rw [hlex]; simp) htext he hb

theorem ClosedLike.like_segment :
    Identifier.IsSegment like.text ∧ like.text.map Char.toLower = "like".toList :=
  isSegment_of_isKeywordToken (s := s) (by rw [h.lex_eq]; simp) h.isLike rfl rfl

theorem ClosedLike.negation_cases :
    negation = [] ∨ ∃ word blanks, negation = word :: blanks ∧ Identifier.IsSegment word.text ∧
      word.text.map Char.toLower = "not".toList ∧ textOf blanks ≠ [] ∧
      ∀ c ∈ textOf blanks, isSpace c = true := by
  rcases h.isNot with hnil | ⟨w, b, hwb, hw, hne, hb⟩
  · exact .inl hnil
  · obtain ⟨hsegment, hlower⟩ :=
      isSegment_of_isKeywordToken (s := s) (by rw [h.lex_eq, hwb]; simp) hw rfl rfl
    refine .inr ⟨w, b, hwb, hsegment, hlower, ?_, isSpace_of_mem_textOf hb⟩
    obtain ⟨t, b, rfl⟩ := List.exists_cons_of_ne_nil hne
    have hmem : t ∈ lex s := by
      rw [h.lex_eq, hwb]
      simp
    obtain ⟨c, body, htext, -⟩ := begins_of_mem_lex hmem
    simp [htext]

/-- NOT is copied exactly where the LIKE behind it has no pattern that folding knows. -/
theorem ClosedLike.read?_negation_eq_none_iff {word g : Text} (hword : Identifier.IsSegment word)
    (hne : g ≠ []) (hg : ∀ c ∈ g, isSpace c = true) :
    read? (word ++ (g ++ (like.text ++ textOf behind))) = none ↔
      patternBehind? (textOf behind) = none := by
  obtain ⟨hlike, hlower⟩ := h.like_segment
  rw [read?_negation hword hg hne hlike hlower, Option.map_eq_none_iff]

/-- The keywords are copied and what follows them is folded for itself exactly where NOT, if it is
there, and LIKE are no operands of a comparison. -/
theorem ClosedLike.keywords_copied_iff :
    (fold (textOf (negation ++ like :: behind))).text =
        textOf negation ++ (like.text ++ foldAt false (textOf behind)) ↔
      (negation = [] ∨ patternBehind? (textOf behind) = none) ∧
        read? (like.text ++ textOf behind) = none := by
  obtain ⟨hlike, hlower⟩ := h.like_segment
  have hhead : like.text.head? ≠ some 'U' := head?_ne_of_map_toLower hlower (by decide)
  have hcopied : foldAt true (like.text ++ textOf behind) =
      like.text ++ foldAt false (textOf behind) ↔ read? (like.text ++ textOf behind) = none := by
    constructor
    · intro heq
      exact (isPrefix_foldAt_word_iff hlike hhead).1 ⟨_, heq.symm⟩
    · exact foldAt_word hlike
  rw [textOf_append, textOf_cons, ← foldAt_true]
  rcases h.negation_cases with rfl | ⟨word, blanks, rfl, hword, hwlower, hne, hg⟩
  · simpa using hcopied
  · have hwhead : word.text.head? ≠ some 'U' := head?_ne_of_map_toLower hwlower (by decide)
    have hread := h.read?_negation_eq_none_iff hword hne hg
    have hfold : read? (word.text ++ (textOf blanks ++ (like.text ++ textOf behind))) = none →
        foldAt true (word.text ++ (textOf blanks ++ (like.text ++ textOf behind))) =
          word.text ++ (textOf blanks ++ foldAt true (like.text ++ textOf behind)) := by
      intro hnone
      have hspace : (!(textOf blanks).isEmpty) = true := by simpa using hne
      rw [foldAt_word hword hnone, foldAt_space hg, Bool.false_or, hspace]
    rw [textOf_cons, List.append_assoc, List.append_assoc, ← hread, ← hcopied]
    simp only [List.cons_ne_nil, false_or]
    -- where NOT is copied, what is left to show is the case without it
    constructor
    · intro heq
      have hnone := (isPrefix_foldAt_word_iff hword hwhead).1 ⟨_, heq.symm⟩
      rw [hfold hnone] at heq
      exact ⟨hnone, List.append_cancel_left (List.append_cancel_left heq)⟩
    · rintro ⟨hnone, heq⟩
      rw [hfold hnone, heq]

/-- The keywords and a pattern that folding knows are copied exactly where LIKE stands without NOT
and the pattern is not the operand of a further comparison. -/
theorem ClosedLike.pattern_copied_iff {space pattern rest : Text}
    (hpattern : patternBehind? (textOf behind) = some (space, pattern, rest)) :
    textOf negation ++ (like.text ++ (space ++ pattern)) <+:
        (fold (textOf (negation ++ like :: behind))).text ↔
      negation = [] ∧ read? (pattern ++ rest) = none := by
  obtain ⟨hlike, hlower⟩ := h.like_segment
  obtain ⟨hbehind, hspaceNe, hspace, hread⟩ := patternBehind?_eq_some hpattern
  rcases h.negation_cases with rfl | ⟨word, blanks, rfl, hword, hwlower, hne, hg⟩
  · have hnone := read?_like_pattern hlike hpattern
    have hcopied := h.keywords_copied_iff.2 ⟨.inl rfl, hnone⟩
    have hmay : (!space.isEmpty) = true := by simpa using hspaceNe
    rw [hcopied, hbehind, foldAt_space hspace, Bool.false_or, hmay]
    simp only [textOf_nil, List.nil_append, true_and, List.prefix_append_right_inj]
    constructor
    · intro hcopy
      obtain ⟨c, q, hc, hmem⟩ := pattern?_head hread
      simp only at hc
      refine read?_eq_none_of_isPrefix hcopy (by simp [hc]) ?_
      rw [hc]
      rintro ⟨⟩
      revert hmem
      decide
    · exact fun hnone => isPrefix_foldAt_pattern hread hnone
  · have hwhead : word.text.head? ≠ some 'U' := head?_ne_of_map_toLower hwlower (by decide)
    simp only [List.cons_ne_nil, false_and, iff_false]
    intro hcopy
    rw [textOf_append, textOf_cons, textOf_cons, ← foldAt_true, List.append_assoc,
      List.append_assoc] at hcopy
    have hwordCopy := (List.prefix_append word.text _).trans hcopy
    have hnone := (isPrefix_foldAt_word_iff hword hwhead).1 hwordCopy
    rw [h.read?_negation_eq_none_iff hword hne hg, hpattern] at hnone
    cases hnone

/-- What folding makes of NOT LIKE in front of a pattern that it knows: NOT is the operand. -/
theorem ClosedLike.negation_wrapped {word : Token} {blanks : List Token}
    (hnegation : negation = word :: blanks) {space pattern rest : Text}
    (hpattern : patternBehind? (textOf behind) = some (space, pattern, rest)) :
    "UPPER(".toList ++ word.text ++ ") ".toList ++ like.text ++ " UPPER(".toList ++ pattern ++
      [')'] <+: (fold (textOf (negation ++ like :: behind))).text := by
  subst hnegation
  obtain ⟨hlike, hlower⟩ := h.like_segment
  rcases h.negation_cases with hnil | ⟨w, b, hwb, hword, -, hne, hg⟩
  · cases hnil
  obtain ⟨rfl, rfl⟩ := List.cons.inj hwb
  have hread := @read?_negation like.text (textOf behind) _ _ hword hg hne hlike hlower
  rw [hpattern] at hread
  obtain ⟨tail, hfold, -⟩ := foldAt_of_read? hread
  have htext : textOf (word :: blanks ++ like :: behind) =
      word.text ++ (textOf blanks ++ (like.text ++ textOf behind)) := by simp
  rw [folded_of_negation_nil rfl, ← htext] at hfold
  exact ⟨tail, hfold.symm⟩

/-- Where the left operand of a LIKE or a NOT LIKE ends on a closing parenthesis or a double quote,
the statement is folded up to the operand's end and from the keywords on, each by itself; an operand
that no other comparison reads from is copied. The keywords are copied exactly where NOT, if it is
there, and LIKE are no operands themselves. A pattern that folding knows is copied with the keywords
exactly where there is no NOT and the pattern is not the operand of a further comparison; with NOT,
the keyword NOT is wrapped as the operand. -/
theorem closed_operand_copied_iff :
    (fold s).text =
        (fold (textOf front)).text ++ (fold (textOf (negation ++ like :: behind))).text ∧
      (∀ before operand, textOf front = before ++ operand → Unread before operand →
        operand <:+ (fold (textOf front)).text) ∧
      ((fold (textOf (negation ++ like :: behind))).text =
          textOf negation ++ (like.text ++ foldAt false (textOf behind)) ↔
        (negation = [] ∨ patternBehind? (textOf behind) = none) ∧
          read? (like.text ++ textOf behind) = none) ∧
      ∀ space pattern rest, patternBehind? (textOf behind) = some (space, pattern, rest) →
        (textOf negation ++ (like.text ++ (space ++ pattern)) <+:
            (fold (textOf (negation ++ like :: behind))).text ↔
          negation = [] ∧ read? (pattern ++ rest) = none) ∧
        ∀ word blanks, negation = word :: blanks →
          "UPPER(".toList ++ word.text ++ ") ".toList ++ like.text ++ " UPPER(".toList ++ pattern ++
            [')'] <+: (fold (textOf (negation ++ like :: behind))).text := by
  refine ⟨h.fold_eq, ?_, h.keywords_copied_iff, ?_⟩
  · intro before operand hfront hunread
    rw [hfront]
    exact hunread.suffix_foldFrom _ _ _
  · intro space pattern rest hpattern
    exact ⟨h.pattern_copied_iff hpattern, fun _ _ hnegation => h.negation_wrapped hnegation hpattern⟩

end

/-- The elements of `WHERE LOWER(a.name)` and the blank behind it. -/
def lowerCall : List Token :=
  [word "WHERE".toList, blank ' ', word "LOWER".toList, parenOpen, word ['a'], single '.',
    word "name".toList, parenClose, blank ' ']

theorem closedLike_lowerCall :
    ClosedLike "WHERE LOWER(a.name) LIKE :p1".toList lowerCall [] (word "LIKE".toList)
      [blank ' ', placeholder "p1".toList] where
  lex_eq := by decide +kernel
  closes := ⟨')', by decide +kernel, .inl rfl⟩
  isNot := .inl rfl
  isLike := ⟨rfl, by decide⟩

theorem closed_operand_copied_lowerCall :
    patternBehind? (textOf [blank ' ', placeholder "p1".toList]) = some ([' '], ":p1".toList, []) ∧
      textOf [] ++ ((word "LIKE".toList).text ++ ([' '] ++ ":p1".toList)) <+:
        (fold (textOf ([] ++ word "LIKE".toList :: [blank ' ', placeholder "p1".toList]))).text := by
  have hpattern : patternBehind? (textOf [blank ' ', placeholder "p1".toList]) =
      some ([' '], ":p1".toList, []) := by decide +kernel
  have hread : read? (":p1".toList ++ []) = none := by decide +kernel
  obtain ⟨-, -, -, hcopied⟩ := closed_operand_copied_iff closedLike_lowerCall
  exact ⟨hpattern, (hcopied _ _ _ hpattern).1.2 ⟨rfl, hread⟩⟩

/-- Behind a function call, NOT in front of LIKE is taken for a column and wrapped. -/
theorem not_wrapped_behind_lowerCall :
    ClosedLike "WHERE LOWER(a.name) NOT LIKE :p1".toList lowerCall [word "NOT".toList, blank ' ']
        (word "LIKE".toList) [blank ' ', placeholder "p1".toList] ∧
      (fold "WHERE LOWER(a.name) NOT LIKE :p1".toList).text =
        "WHERE LOWER(a.name) UPPER(NOT) LIKE UPPER(:p1)".toList := by
  refine ⟨⟨by decide +kernel, ⟨')', by decide +kernel, .inl rfl⟩, .inr ?_, rfl, by decide⟩, ?_⟩
  · exact ⟨word "NOT".toList, [blank ' '], rfl, ⟨rfl, by decide⟩, List.cons_ne_nil _ _,
      List.forall_mem_singleton.2 rfl⟩
  · decide +kernel

end QueryClauses.Sql.Like
