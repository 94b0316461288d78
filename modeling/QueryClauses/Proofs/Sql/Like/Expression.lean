import QueryClauses.Proofs.Sql.Like.Lookahead
import QueryClauses.Proofs.Text.Regex
import QueryClauses.Sql.Like.Expression

/-!
# The left side of a comparison, by its expression

An operand is read as the regular expression for it comes to its first match. Where a name or a number
could have ended before, it goes on with a character that neither white space nor a concatenation sign
starts with; where a literal could have ended before, a quote follows. So the matches that come later
are of no use to what stands behind an operand (`GoesOn`), and one reader behind another does what the
expression does: `reads_pattern`, `reads_operand` and, for operands joined by bars,
`reads_concatenation`.
-/

namespace QueryClauses.Sql.Like

open CharClass Regex

/-! ## Where an operand goes on -/

/-- A text that may go on with an operand in front of it. -/
def GoesOn (s : Text) : Prop := ∃ c t, s = c :: t ∧ isBoundary c = false

theorem goesOn_of_oneChar {wanted : Char → Bool} {s : Text}
    (h : (Reader.oneChar wanted s).isSome = true)
    (hwanted : ∀ c, wanted c = true → isBoundary c = false) : GoesOn s := by
  obtain ⟨c, t, rfl, hc⟩ := Reader.exists_of_oneChar h
  exact ⟨c, t, rfl, hwanted c hc⟩

/-! ## Literals -/

/-- A character that starts or ends a literal. -/
def quote? : Reader := .oneChar (· == '\'')

theorem reads_quote : Expression.quote.Reads quote? fun _ => False := reads_one _

theorem behind_quote (p : Place) : Expression.quote.behind p = ((quote? p.rest).map p.advance).toList :=
  (reads_quote p).eq_toList

/-- A character that is no quote, or a doubled quote. -/
def literalPart? : Reader := (Reader.oneChar (· != '\'')).orElse (quote?.andThen quote?)

theorem literalPart?_of_ne {c : Char} (hc : c ≠ '\'') (s : Text) :
    literalPart? (c :: s) = some ([c], s) := by
  simp [literalPart?, Reader.orElse, Reader.oneChar, hc]

theorem literalPart?_doubled (s : Text) :
    literalPart? ('\'' :: '\'' :: s) = some (['\'', '\''], s) := rfl

theorem literalPart?_single {s : Text} (hs : s.head? ≠ some '\'') :
    literalPart? ('\'' :: s) = none := by
  cases s with
  | nil => rfl
  | cons d s =>
    have hd : d ≠ '\'' := by simpa using hs
    simp [literalPart?, Reader.orElse, Reader.andThen, quote?, Reader.oneChar, hd]

theorem shortens_literalPart : literalPart?.Shortens := by
  intro s r h
  rcases Option.or_eq_some_iff.1 h with h | ⟨-, h⟩
  · exact Reader.shortens_oneChar _ s r h
  · exact (Reader.shortens_oneChar _).andThen
      (fun s r h => (Reader.shortens_oneChar _ s r h).le) s r h

theorem reads_literalPart : Expression.literalPart.Reads literalPart? fun _ => False := by
  have hset : (Regex.set true [.char '\'']).Reads (.oneChar (· != '\'')) fun _ => False := by
    have hclass : (fun c => [ClassItem.char '\''].any (·.accepts c) != true) = (· != '\'') := by
      funext c
      simp [ClassItem.accepts, bne]
    rw [← hclass]
    exact reads_set _ _
  have hdouble := reads_quote.seq reads_quote fun _ h => h.elim
  refine (hset.alt hdouble fun s => ?_).mono fun s hs => hs.elim id id
  cases s with
  | nil => exact .inl rfl
  | cons c s =>
    by_cases hc : c = '\''
    · exact .inl (by simp [Reader.oneChar, hc])
    · exact .inr (by simp [Reader.andThen, quote?, Reader.oneChar, hc])

theorem behind_literalEnd (p : Place) : Expression.literalEnd.behind p =
    ((literalPart? p.rest).elim [] fun r => Expression.literalEnd.behind (p.advance r)) ++
      ((quote? p.rest).map p.advance).toList := by
  have hrepeated := reads_literalPart.repeated_eq shortens_literalPart p
  show (p.repeated Expression.literalPart.behind).flatMap Expression.quote.behind = _
  rw [hrepeated]
  cases literalPart? p.rest with
  | none => exact (List.flatMap_singleton _ _).trans (behind_quote p)
  | some r =>
    rw [List.flatMap_append, List.flatMap_singleton, behind_quote]
    rfl

/-- A literal from behind its opening quote. Where it could have ended before, a quote follows. -/
theorem reads_literalEnd : Expression.literalEnd.Reads literalBody fun s => s.head? = some '\'' := by
  intro p
  generalize hs : p.rest = s
  fun_induction literalBody s generalizing p with
  | case1 =>
    rw [behind_literalEnd, hs]
    exact .nil
  | case2 =>
    rw [behind_literalEnd, hs]
    exact .singleton _
  | case3 c hc =>
    have hend : Expression.literalEnd.behind (p.advance ([c], [])) = [] := behind_literalEnd _
    rw [behind_literalEnd, hs, literalPart?_of_ne hc, Option.elim_some, hend]
    simp [quote?, Reader.oneChar, hc, Prefers.nil]
  | case4 s body rest hbody ih =>
    have ih := ih (p.advance (['\'', '\''], s)) rfl
    rw [hbody] at ih
    rw [behind_literalEnd, hs, literalPart?_doubled, Option.elim_some]
    simp only [Option.map_some, Place.advance_advance] at ih ⊢
    refine ih.append fun q hq => ?_
    obtain rfl : q = p.advance (['\''], '\'' :: s) := by simpa [quote?, Reader.oneChar] using hq
    rfl
  | case5 s hbody ih =>
    have ih := ih (p.advance (['\'', '\''], s)) rfl
    rw [hbody] at ih
    rw [behind_literalEnd, hs, literalPart?_doubled, Option.elim_some, ih.of_none]
    exact .singleton _
  | case6 d s hd =>
    rw [behind_literalEnd, hs, literalPart?_single (by simpa using hd)]
    exact .singleton _
  | case7 c d s hc ih =>
    have ih := ih (p.advance ([c], d :: s)) rfl
    rw [behind_literalEnd, hs, literalPart?_of_ne hc, Option.elim_some]
    have hquote : quote? (c :: d :: s) = none := by simp [quote?, Reader.oneChar, hc]
    have hadvance : (p.advance ([c], d :: s)).advance = p.advance ∘ fun r => (c :: r.1, r.2) :=
      funext fun r => p.advance_advance _ _
    rw [hquote, Option.map_none, Option.toList_none, List.append_nil, Option.map_map, ← hadvance]
    exact ih

def literal? : Reader := quote?.andThen literalBody

theorem reads_literal : Expression.literal.Reads literal? fun s => s.head? = some '\'' :=
  reads_quote.seq reads_literalEnd fun _ h => h.elim

/-! ## Names -/

def nameStart? : Reader := .oneChar isNameStart

theorem reads_nameStart : Expression.nameStart.Reads nameStart? fun _ => False := by
  have hclass : (fun c => [ClassItem.range 'A' 'Z', .range 'a' 'z', .char '_'].any (·.accepts c) !=
      false) = isNameStart := by
    funext c
    have hcapital : (ClassItem.range 'A' 'Z').accepts c = c.isUpper := (Bool.decide_and _ _).symm
    have hsmall : (ClassItem.range 'a' 'z').accepts c = c.isLower := rfl
    have halpha : c.isAlpha = (c.isUpper || c.isLower) := rfl
    simp only [List.any_cons, List.any_nil, hcapital, hsmall, isNameStart, halpha, Bool.bne_false,
      Bool.or_false]
    rw [← Bool.or_assoc, Bool.or_comm]
    rfl
  rw [nameStart?, ← hclass]
  exact reads_set _ _

/-- Whether a character goes on with a name. -/
def isNameRest (c : Char) : Bool := isWordChar c || c == '$'

/-- All characters of a class. -/
def all (wanted : Char → Bool) : Reader := fun s => some (s.takeWhile wanted, s.dropWhile wanted)

theorem reads_star_of_oneChar {r : Regex} {wanted : Char → Bool}
    (h : r.Reads (.oneChar wanted) fun _ => False) :
    (Regex.star r).Reads (all wanted) fun s => (Reader.oneChar wanted s).isSome = true := by
  have hstar := h.star (fun _ h => h.elim) (Reader.shortens_oneChar wanted)
  simp only [Reader.many_oneChar] at hstar
  exact hstar.mono fun s hs => hs.elim False.elim id

theorem reads_nameRest : Expression.nameRest.Reads (all isNameRest) fun s =>
    (Reader.oneChar isNameRest s).isSome = true := by
  refine reads_star_of_oneChar ?_
  have hclass : (fun c => [ClassItem.word, .char '$'].any (·.accepts c) != false) = isNameRest := by
    funext c
    simp [ClassItem.accepts, isNameRest]
  rw [← hclass]
  exact reads_set _ _

/-- A point and a name. -/
def segment? : Reader := (Reader.oneChar (· == '.')).andThen (nameStart?.andThen (all isNameRest))

theorem length_all_le {wanted : Char → Bool} {s : Text} {r : Text × Text}
    (h : all wanted s = some r) : r.2.length ≤ s.length := by
  cases h
  exact (List.dropWhile_suffix wanted).length_le

theorem shortens_segment : segment?.Shortens := by
  have hname : (nameStart?.andThen (all isNameRest)).Shortens :=
    (Reader.shortens_oneChar _).andThen fun _ _ => length_all_le
  exact (Reader.shortens_oneChar _).andThen fun s r h => (hname s r h).le

theorem segment?_of_goesOn {s : Text} (h : (Reader.oneChar isNameRest s).isSome = true) :
    segment? s = none := by
  cases s with
  | nil => rfl
  | cons c s =>
    have hc : c ≠ '.' := by
      rintro rfl
      revert h
      simp [Reader.oneChar, isNameRest]
      decide +kernel
    simp [segment?, Reader.andThen, Reader.oneChar, hc]

theorem reads_dottedName : Expression.dottedName.Reads
    (nameStart?.andThen ((all isNameRest).andThen fun s => some (segment?.many s))) GoesOn := by
  have hsegment : (Regex.group (.seqs (.one (.char '.')) [Expression.nameStart, Expression.nameRest])).Reads
      segment? fun s => (Reader.oneChar isNameRest s).isSome = true :=
    (reads_one (.char '.')).seq (reads_nameStart.seq reads_nameRest fun _ h => h.elim)
      fun _ h => h.elim
  have hrest := reads_nameRest.seq_star (fun s => segment?_of_goesOn) shortens_segment hsegment
    fun s => segment?_of_goesOn
  refine (reads_nameStart.seq hrest fun _ h => h.elim).mono ?_
  have hname : ∀ c, isNameRest c = true → isBoundary c = false := by
    intro c hc
    rcases Bool.or_eq_true_iff.1 hc with hc | hc
    · exact isBoundary_of_isWordChar hc
    · rw [beq_iff_eq.1 hc]
      decide +kernel
  rintro s (hs | hs | hs)
  · exact goesOn_of_oneChar hs hname
  · exact goesOn_of_oneChar hs hname
  · obtain ⟨r, hr⟩ := Option.isSome_iff_exists.1 hs
    obtain ⟨x, hx, -⟩ := Option.bind_eq_some_iff.1 hr
    have hpoint : (Reader.oneChar (· == '.') s).isSome = true := by rw [hx]; rfl
    refine goesOn_of_oneChar hpoint fun c hc => ?_
    rw [beq_iff_eq.1 hc]
    decide +kernel

theorem segment?_eq (c : Char) (s : Text) : segment? (c :: s) =
    if c = '.' then
      match s with
      | [] => none
      | d :: s =>
        if isNameStart d then some (c :: d :: s.takeWhile isNameRest, s.dropWhile isNameRest) else none
    else none := by
  by_cases hc : c = '.'
  · cases s with
    | nil => simp [segment?, Reader.andThen, Reader.oneChar, nameStart?, hc]
    | cons d s =>
      by_cases hd : isNameStart d = true
      · simp [segment?, Reader.andThen, Reader.oneChar, nameStart?, all, hc, hd]
      · simp [segment?, Reader.andThen, Reader.oneChar, nameStart?, hc, hd]
  · simp [segment?, Reader.andThen, Reader.oneChar, hc]

/-- The rest of a name, segment by segment. -/
theorem nameBody_eq (s : Text) : nameBody s =
    (s.takeWhile isNameRest ++ (segment?.many (s.dropWhile isNameRest)).1,
      (segment?.many (s.dropWhile isNameRest)).2) := by
  fun_induction nameBody s with
  | case1 => rw [List.dropWhile_nil, Reader.many_of_none rfl, List.takeWhile_nil, List.append_nil]
  | case2 c hc =>
    have hc : isNameRest c = true := hc
    rw [List.takeWhile_cons_of_pos hc, List.dropWhile_cons_of_pos hc, List.dropWhile_nil,
      Reader.many_of_none rfl, List.takeWhile_nil, List.append_nil]
  | case3 c hc =>
    have hc : ¬ isNameRest c = true := hc
    have hnone : segment? [c] = none := by
      rw [segment?_eq]
      split <;> rfl
    rw [List.takeWhile_cons_of_neg hc, List.dropWhile_cons_of_neg hc, Reader.many_of_none hnone,
      List.append_nil]
  | case4 c d s hc body rest h ih =>
    have hc : isNameRest c = true := hc
    rw [h] at ih
    rw [List.takeWhile_cons_of_pos hc, List.dropWhile_cons_of_pos hc, List.cons_append]
    cases ih
    rfl
  | case5 c d s hc h body rest hbody ih =>
    have hc : ¬ isNameRest c = true := hc
    rw [Bool.and_eq_true, decide_eq_true_eq] at h
    have hsegment : segment? (c :: d :: s) =
        some (c :: d :: s.takeWhile isNameRest, s.dropWhile isNameRest) := by
      rw [segment?_eq, if_pos h.1]
      exact if_pos h.2
    rw [hbody] at ih
    rw [List.takeWhile_cons_of_neg hc, List.dropWhile_cons_of_neg hc,
      Reader.many_of_some hsegment (shortens_segment _ _ hsegment), List.nil_append,
      List.cons_append, List.cons_append]
    cases ih
    rfl
  | case6 c d s hc h =>
    have hc : ¬ isNameRest c = true := hc
    have hnone : segment? (c :: d :: s) = none := by
      rw [segment?_eq]
      split
      · rename_i hpoint
        exact if_neg fun hd => h (by simp [hpoint, hd])
      · rfl
    rw [List.takeWhile_cons_of_neg hc, List.dropWhile_cons_of_neg hc, Reader.many_of_none hnone,
      List.append_nil]

/-! ## Placeholders, patterns and operands -/

def namedPlaceholder? : Reader :=
  (Reader.oneChar (· == ':')).andThen (nameStart?.andThen (all isWordChar))

def numberedPlaceholder? : Reader :=
  (Reader.oneChar (· == '$')).andThen ((Reader.oneChar isDigit).andThen (all isDigit))

def questionMark? : Reader := .oneChar (· == '?')

def dottedName? : Reader :=
  nameStart?.andThen ((all isNameRest).andThen fun s => some (segment?.many s))

/-- A mark and a character of a first class, and all behind them of a wider one. -/
theorem marked_eq {mark : Char} {first wanted : Char → Bool} (h : ∀ c, first c = true → wanted c = true)
    (c : Char) (s : Text) :
    (Reader.oneChar (· == mark)).andThen ((Reader.oneChar first).andThen (all wanted)) (c :: s) =
      if c = mark ∧ s.head?.any first then some (c :: s.takeWhile wanted, s.dropWhile wanted)
      else none := by
  by_cases hc : c = mark
  · cases s with
    | nil => simp [Reader.andThen, Reader.oneChar]
    | cons d s =>
      cases hd : first d with
      | false => simp [Reader.andThen, Reader.oneChar, hd]
      | true => simp [Reader.andThen, Reader.oneChar, all, hc, hd, h d hd]
  · simp [Reader.andThen, Reader.oneChar, hc]

theorem namedPlaceholder?_eq (c : Char) (s : Text) : namedPlaceholder? (c :: s) =
    if c = ':' ∧ s.head?.any isNameStart then some (c :: s.takeWhile isWordChar, s.dropWhile isWordChar)
    else none :=
  marked_eq (fun _ hd => isWordChar_of_isNameChar (isNameChar_of_isNameStart hd)) c s

theorem numberedPlaceholder?_eq (c : Char) (s : Text) : numberedPlaceholder? (c :: s) =
    if c = '$' ∧ s.head?.any isDigit then some (c :: s.takeWhile isDigit, s.dropWhile isDigit)
    else none :=
  marked_eq (fun _ hd => hd) c s

theorem placeholder?_eq (s : Text) :
    placeholder? s = namedPlaceholder?.orElse (numberedPlaceholder?.orElse questionMark?) s := by
  cases s with
  | nil => rfl
  | cons c s =>
    rw [Reader.orElse, Reader.orElse, namedPlaceholder?_eq, numberedPlaceholder?_eq, questionMark?,
      Reader.oneChar, placeholder?]
    by_cases hc : c = '?'
    · simp [hc]
    · simp only [hc, if_false, beq_iff_eq, Option.or_none]
      split
      · rfl
      · rfl

theorem literal?_of_ne {c : Char} (hc : c ≠ '\'') (s : Text) : literal? (c :: s) = none :=
  Reader.oneChar_andThen_of_head fun d hd => by
    cases hd
    simpa using hc

theorem pattern?_eq (s : Text) : pattern? s = literal?.orElse placeholder? s := by
  cases s with
  | nil => rfl
  | cons c s =>
    rw [Reader.orElse, pattern?]
    by_cases hc : c = '\''
    · have hnone : placeholder? ('\'' :: s) = none := rfl
      subst hc
      rw [if_pos rfl, hnone, Option.or_none]
      rfl
    · rw [if_neg hc, literal?_of_ne hc, Option.none_or]

theorem dottedName?_eq (c : Char) (s : Text) : dottedName? (c :: s) =
    if isNameStart c then some (c :: (nameBody s).1, (nameBody s).2) else none := by
  cases hc : isNameStart c with
  | false => simp [dottedName?, nameStart?, Reader.andThen, Reader.oneChar, hc]
  | true => simp [dottedName?, nameStart?, Reader.andThen, Reader.oneChar, all, nameBody_eq, hc]

theorem operand?_eq (s : Text) : operand? s = literal?.orElse (dottedName?.orElse placeholder?) s := by
  cases s with
  | nil => rfl
  | cons c s =>
    rw [operand?, pattern?_eq, Reader.orElse, Reader.orElse, Reader.orElse, dottedName?_eq]
    split
    · rename_i hc
      have hne : c ≠ '\'' := by
        rintro rfl
        cases hc
      rw [literal?_of_ne hne]
      rfl
    · rfl

theorem placeholder?_of_isNameStart {c : Char} (hc : isNameStart c = true) (s : Text) :
    placeholder? (c :: s) = none := by
  have hne : ∀ d, isNameStart d = false → c ≠ d := by
    rintro d hd rfl
    rw [hc] at hd
    cases hd
  rw [placeholder?, if_neg (hne '?' rfl), if_neg fun h => hne ':' rfl h.1,
    if_neg fun h => hne '$' rfl h.1]

theorem reads_plus_of_oneChar {r : Regex} {wanted : Char → Bool}
    (h : r.Reads (.oneChar wanted) fun _ => False) :
    (Regex.plus r).Reads ((Reader.oneChar wanted).andThen (all wanted)) fun s =>
      (Reader.oneChar wanted s).isSome = true := by
  have hplus := h.plus (fun _ h => h.elim) (Reader.shortens_oneChar wanted)
  simp only [Reader.many_oneChar] at hplus
  exact hplus.mono fun s hs => hs.elim False.elim id

theorem reads_placeholder :
    (Regex.alts Expression.namedPlaceholder
      [Expression.numberedPlaceholder, Expression.questionMark]).Reads placeholder? GoesOn := by
  have hnamed : Expression.namedPlaceholder.Reads namedPlaceholder? GoesOn :=
    ((reads_one (.char ':')).seq (reads_nameStart.seq (reads_star_of_oneChar (reads_one .word))
      fun _ h => h.elim) fun _ h => h.elim).mono fun s hs =>
        goesOn_of_oneChar hs fun c => isBoundary_of_isWordChar
  have hnumbered : Expression.numberedPlaceholder.Reads numberedPlaceholder? GoesOn :=
    ((reads_one (.char '$')).seq (reads_plus_of_oneChar (reads_one .digit)) fun _ h => h.elim).mono
      fun s hs => goesOn_of_oneChar hs fun c hc => isBoundary_of_isWordChar (isWordChar_of_isDigit hc)
  have hquestion : Expression.questionMark.Reads questionMark? GoesOn :=
    (reads_one (.char '?')).mono fun _ h => h.elim
  have hchain := hnamed.alt (hnumbered.alt hquestion ?_) ?_
  · rw [funext placeholder?_eq]
    exact hchain.mono fun s hs => by tauto
  · rintro (_ | ⟨c, s⟩)
    · exact .inl rfl
    · by_cases hc : c = '$'
      · exact .inr (by simp [questionMark?, Reader.oneChar, hc])
      · exact .inl (by rw [numberedPlaceholder?_eq, if_neg fun h => hc h.1])
  · rintro (_ | ⟨c, s⟩)
    · exact .inl rfl
    · by_cases hc : c = ':'
      · refine .inr ?_
        rw [Reader.orElse, numberedPlaceholder?_eq]
        simp [questionMark?, Reader.oneChar, hc]
      · exact .inl (by rw [namedPlaceholder?_eq, if_neg fun h => hc h.1])

theorem goesOn_of_quote {s : Text} (h : s.head? = some '\'') : GoesOn s := by
  obtain ⟨t, rfl⟩ := List.head?_eq_some_iff.1 h
  exact ⟨'\'', t, rfl, by decide +kernel⟩

theorem reads_pattern : Expression.pattern.Reads pattern? GoesOn := by
  have hchain := reads_literal.alt reads_placeholder ?_
  · rw [funext pattern?_eq]
    exact hchain.mono fun s hs => hs.elim goesOn_of_quote id
  · rintro (_ | ⟨c, s⟩)
    · exact .inl rfl
    · by_cases hc : c = '\''
      · exact .inr (by rw [hc]; rfl)
      · exact .inl (literal?_of_ne hc s)

theorem reads_operand : Expression.operand.Reads operand? GoesOn := by
  have hchain := reads_literal.alt (reads_dottedName.alt reads_placeholder ?_) ?_
  · rw [funext operand?_eq]
    exact hchain.mono fun s hs => hs.elim goesOn_of_quote (·.elim id id)
  · rintro (_ | ⟨c, s⟩)
    · exact .inl rfl
    · cases hc : isNameStart c with
      | false => exact .inl ((dottedName?_eq c s).trans (by rw [hc]; rfl))
      | true => exact .inr (placeholder?_of_isNameStart hc s)
  · rintro (_ | ⟨c, s⟩)
    · exact .inl rfl
    · by_cases hc : c = '\''
      · exact .inr (by rw [hc]; rfl)
      · exact .inl (literal?_of_ne hc s)

/-! ## Concatenations -/

def bar? : Reader := .oneChar (· == '|')

/-- The concatenation sign, white space and an operand. -/
def behindGap? : Reader := bar?.andThen (bar?.andThen ((all isSpace).andThen operand?))

theorem behindGap?_bars (s : Text) : behindGap? ('|' :: '|' :: s) =
    (operand? (gap s).2).map fun p => ('|' :: '|' :: ((gap s).1 ++ p.1), p.2) := by
  simp [behindGap?, Reader.andThen, bar?, Reader.oneChar, all, gap, Option.map_map, Function.comp_def]

theorem behindGap?_of_ne {s : Text} (h : ∀ r, s ≠ '|' :: '|' :: r) : behindGap? s = none := by
  rcases s with _ | ⟨c, _ | ⟨d, s⟩⟩
  · rfl
  · by_cases hc : c = '|'
    · simp [behindGap?, Reader.andThen, bar?, Reader.oneChar, hc]
    · simp [behindGap?, Reader.andThen, bar?, Reader.oneChar, hc]
  · by_cases hc : c = '|'
    · have hd : d ≠ '|' := by
        rintro rfl
        exact h s (by rw [hc])
      simp [behindGap?, Reader.andThen, bar?, Reader.oneChar, hc, hd]
    · simp [behindGap?, Reader.andThen, bar?, Reader.oneChar, hc]

theorem joined?_eq (s : Text) : joined? s = (all isSpace).andThen behindGap? s := by
  have hall : (all isSpace).andThen behindGap? s =
      (behindGap? (gap s).2).map fun p => ((gap s).1 ++ p.1, p.2) := rfl
  rw [hall, joined?]
  split
  · rename_i r hr
    rw [hr, behindGap?_bars, Option.map_map]
    simp [Function.comp_def]
  · rename_i hne
    rw [behindGap?_of_ne hne]
    rfl

/-- No operand starts on white space. -/
theorem operand?_of_space {s : Text} (h : (Reader.oneChar isSpace s).isSome = true) :
    operand? s = none := by
  obtain ⟨c, t, rfl, hc⟩ := Reader.exists_of_oneChar h
  by_contra hsome
  obtain ⟨p, hp⟩ := Option.ne_none_iff_exists'.1 hsome
  obtain ⟨d, u, hd, hstarts⟩ := startsOperand_of_operand? hp
  have happ := (operand?_append hp).1
  rw [hd, List.cons_append, List.cons.injEq] at happ
  rw [happ.1, startsOperand_of_isSpace hc] at hstarts
  cases hstarts

theorem reads_joined : (Regex.group Expression.joined).Reads joined? GoesOn := by
  have hspaces : (Regex.star (.one .space)).Reads (all isSpace) fun s =>
      (Reader.oneChar isSpace s).isSome = true := reads_star_of_oneChar (reads_one .space)
  have hbar : (Regex.one (.char '|')).Reads bar? fun _ => False := reads_one _
  have hoperand := hspaces.seq reads_operand fun _ => operand?_of_space
  have hbars := hbar.seq (hbar.seq hoperand fun _ h => h.elim) fun _ h => h.elim
  rw [funext joined?_eq]
  refine hspaces.seq hbars fun s hs => Reader.oneChar_andThen_of_head ?_
  obtain ⟨c, t, rfl, hc⟩ := Reader.exists_of_oneChar hs
  rintro d ⟨⟩
  rw [beq_eq_false_iff_ne]
  rintro rfl
  cases hc

theorem joinedAll_eq (s : Text) : joinedAll s = Reader.many joined? s := by
  fun_induction joinedAll s with
  | case1 s h => rw [Reader.many_of_none h]
  | case2 s p h ih => rw [Reader.many_of_some h (length_lt_of_joined? h), ih]

theorem isSpace_of_isBoundary {c : Char} (h : isBoundary c = false) : isSpace c = false := by
  by_contra hspace
  rw [Bool.not_eq_false] at hspace
  have hmark := contains_eq_false_of_class (l := ['.', ':', '$', '\'']) (p := isSpace) (by decide) hspace
  rw [isBoundary, isWordChar_eq_false_of_isSpace hspace, hmark] at h
  cases h

theorem joined?_of_goesOn {s : Text} (h : GoesOn s) : joined? s = none := by
  obtain ⟨c, t, rfl, hc⟩ := h
  refine joined?_eq_none fun r hr => ?_
  have hspace := isSpace_of_isBoundary hc
  rw [gap, List.dropWhile_cons_of_neg (by rw [hspace]; decide)] at hr
  obtain rfl : c = '|' := (List.cons.inj hr).1
  revert hc
  decide +kernel

/-- The left side of a comparison: an operand and all that it is concatenated with. -/
def concatenation? : Reader := Reader.andThen operand? fun s => some (joinedAll s)

/-- Where the left side of a comparison could have ended before, it goes on. -/
theorem reads_concatenation : Expression.concatenation.Reads concatenation? fun s =>
    GoesOn s ∨ (joined? s).isSome = true := by
  have hread := reads_operand.seq_star (fun _ => joined?_of_goesOn) (fun _ _ => length_lt_of_joined?)
    reads_joined fun _ => joined?_of_goesOn
  simp only [← joinedAll_eq] at hread
  exact hread.mono fun s hs => hs.elim .inl id

end QueryClauses.Sql.Like
