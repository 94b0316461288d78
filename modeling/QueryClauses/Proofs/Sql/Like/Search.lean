import QueryClauses.Proofs.Sql.Like.Expression

/-!
# Searching a comparison

A statement's comparisons are searched with the regular expression for them. Behind white space
follow NOT and LIKE, or LIKE alone; where the left side of a comparison or the white space behind it
could have ended before, neither stands. So no part of the expression is tried twice in vain, and the
expression comes first to the comparison that is read (`head?_behind_body`).

The first match is the first comparison that is read where an operand may start: at the start of the
statement, or behind a character that cannot belong to an operand (`map_find_comparison`).
-/

namespace QueryClauses.Sql.Like

open CharClass Regex Text

/-! ## Keywords -/

/-- Letters of a keyword without an S, which has a further form. -/
theorem sameLetter_eq {letter : Char} (h : letter.toLower ≠ 's') :
    sameLetter letter = isLetter letter.toLower := by
  funext c
  have hs : (letter.toLower == 's') = false := beq_eq_false_iff_ne.2 h
  rw [sameLetter, isLetter, hs, Bool.false_and, Bool.or_false]

theorem nextLetters_eq {letters : Text} (h : ∀ letter ∈ letters, letter.toLower ≠ 's') (p : Place) :
    p.nextLetters letters =
      ((keyword? (letters.map Char.toLower) p.rest).map p.advance).toList := by
  induction letters generalizing p with
  | nil => rfl
  | cons letter letters ih =>
    obtain ⟨hletter, hletters⟩ := List.forall_mem_cons.1 h
    rw [Place.nextLetters, (prefers_next _ p).eq_toList, sameLetter_eq hletter, List.map_cons]
    cases p.rest with
    | nil => rfl
    | cons c s =>
      rw [Reader.oneChar, keyword?]
      split
      · have hadvance : (p.advance ([c], s)).advance = p.advance ∘ fun r => (c :: r.1, r.2) :=
          funext fun r => p.advance_advance _ _
        rw [Option.map_some, Option.toList_some, List.flatMap_singleton, ih hletters, hadvance,
          Option.map_map]
        rfl
      · rfl

theorem reads_anyCase {letters : Text} (h : ∀ letter ∈ letters, letter.toLower ≠ 's') :
    (anyCase letters).Reads (keyword? (letters.map Char.toLower)) fun _ => False := by
  intro p
  rw [behind, nextLetters_eq h]
  exact .toList _

def spaces? : Reader := (Reader.oneChar isSpace).andThen (all isSpace)

theorem reads_spaces : Expression.spaces.Reads spaces? fun s =>
    (Reader.oneChar isSpace s).isSome = true :=
  reads_plus_of_oneChar (reads_one .space)

theorem spaces?_eq (s : Text) : spaces? s = if (gap s).1.isEmpty then none else some (gap s) := by
  cases s with
  | nil => rfl
  | cons c s =>
    cases hc : isSpace c with
    | false => simp [spaces?, Reader.andThen, Reader.oneChar, gap, hc]
    | true => simp [spaces?, Reader.andThen, Reader.oneChar, all, gap, hc]

/-- NOT and the white space behind it. -/
def not? : Reader := Reader.andThen (keyword? "not".toList) spaces?

theorem reads_negation : Expression.negation.Reads not? fun s =>
    (Reader.oneChar isSpace s).isSome = true :=
  (@reads_anyCase "NOT".toList (by simp)).seq reads_spaces fun _ h => h.elim

theorem not?_eq (s : Text) : not? s =
    if (negation s).1.isEmpty then none
    else some ((negation s).1 ++ (negation s).2.1, (negation s).2.2) := by
  have hnot : not? s = (keyword? "not".toList s).bind fun word =>
      (spaces? word.2).map fun r => (word.1 ++ r.1, r.2) := rfl
  rw [hnot, negation]
  cases hword : keyword? "not".toList s with
  | none => rfl
  | some word =>
    obtain ⟨c, u, hc, -⟩ := head?_of_keyword? hword
    dsimp only
    rw [Option.bind_some, spaces?_eq]
    split
    · rfl
    · simp [hc]

/-- Neither NOT nor LIKE starts on white space. -/
theorem keyword?_of_space {k : Char} (hk : k.isAlpha = true) (hne : k ≠ 'k') {ks s : Text}
    (h : (Reader.oneChar isSpace s).isSome = true) : keyword? (k :: ks) s = none := by
  obtain ⟨c, t, rfl, hc⟩ := Reader.exists_of_oneChar h
  refine keyword?_eq_none_of_head ?_
  rintro d ⟨⟩
  by_contra hletter
  have halpha := isAlpha_of_isLetter hk hne (Bool.not_eq_false _ ▸ hletter)
  rw [(isSpace_of_isAlpha halpha).1] at hc
  cases hc

/-! ## LIKE and a pattern -/

/-- The place behind a keyword, white space and a pattern, with the captures of the keyword and of the
pattern. -/
def placeBehindPattern (p : Place) (like gap pattern : Text × Text) : Place :=
  let q := ((p.advance like).captured "like" p.pos).advance gap
  (q.advance pattern).captured "pat" q.pos

theorem pattern?_of_space {s : Text} (h : (Reader.oneChar isSpace s).isSome = true) :
    pattern? s = none := by
  obtain ⟨c, t, rfl, hc⟩ := Reader.exists_of_oneChar h
  by_contra hsome
  obtain ⟨p, hp⟩ := Option.ne_none_iff_exists'.1 hsome
  obtain ⟨d, u, hd, hmem⟩ := pattern?_head hp
  have happ := (pattern?_append hp).1
  rw [hd, List.cons_append, List.cons.injEq] at happ
  rw [happ.1, ← List.contains_iff_mem, contains_eq_false_of_class (p := isSpace) (by decide) hc] at hmem
  cases hmem

theorem head?_behind_likePattern (p : Place) : (Expression.likePattern.behind p).head? =
    (keyword? "like".toList p.rest).bind fun like => (spaces? like.2).bind fun gap =>
      (pattern? gap.2).map (placeBehindPattern p like gap) := by
  have hlike := (@reads_anyCase "LIKE".toList (by simp)).named "like" p
  refine (hlike.head?_flatMap fun _ h => h.elim).trans ?_
  rw [Option.bind_map]
  refine Option.bind_congr fun like _ => ?_
  have hspaces := reads_spaces ((p.advance like).captured "like" p.pos)
  refine (hspaces.head?_flatMap fun q hq => ?_).trans ?_
  · have hpattern := reads_pattern.named "pat" q
    rw [pattern?_of_space hq] at hpattern
    exact hpattern.of_none
  · rw [Option.bind_map]
    refine Option.bind_congr fun gap _ => ?_
    exact (reads_pattern.named "pat" _).head?

theorem behind_likePattern_eq_nil {p : Place} (h : keyword? "like".toList p.rest = none) :
    Expression.likePattern.behind p = [] := by
  rw [← List.head?_eq_none_iff, head?_behind_likePattern, h]
  rfl

/-- NOT is no LIKE. -/
theorem like?_of_not? {s : Text} (h : (not? s).isSome = true) : keyword? "like".toList s = none := by
  obtain ⟨r, hr⟩ := Option.isSome_iff_exists.1 h
  obtain ⟨word, hword, -⟩ := Option.bind_eq_some_iff.1 hr
  by_contra hsome
  obtain ⟨like, hlike⟩ := Option.ne_none_iff_exists'.1 hsome
  obtain ⟨c, u, hc, -, hletter⟩ := head?_of_like? hlike
  obtain ⟨d, w, hd, hnot⟩ := @head?_of_keyword? 'n' "ot".toList _ _ hword
  have happ := (keyword?_append hlike).trans (keyword?_append hword).symm
  rw [hc, hd, List.cons_append, List.cons_append, List.cons.injEq] at happ
  rw [happ.1, hnot] at hletter
  cases hletter

/-! ## NOT and LIKE -/

/-- The place behind NOT, or the same one without a NOT. -/
def placeBehindNot (p : Place) : Place :=
  ((not? p.rest).map fun word => (p.advance word).captured "not" p.pos).getD p

theorem placeBehindNot_eq (p : Place) : placeBehindNot p =
    { pos := p.pos + byteLength ((negation p.rest).1 ++ (negation p.rest).2.1)
      rest := (negation p.rest).2.2
      captures :=
        (if (negation p.rest).1.isEmpty then []
          else [("not", p.pos,
            p.pos + byteLength ((negation p.rest).1 ++ (negation p.rest).2.1))]) ++ p.captures } := by
  rw [placeBehindNot, not?_eq]
  rcases negation_cases p.rest with h | ⟨word, r, hword, -, h⟩
  · rw [h]
    rfl
  · obtain ⟨c, u, hc, -⟩ := @head?_of_keyword? 'n' "ot".toList _ _ hword
    dsimp only at hc
    rw [h, hc]
    rfl

theorem head?_behind_keywords (p : Place) : (Expression.keywords.behind p).head? =
    (Expression.likePattern.behind (placeBehindNot p)).head? := by
  have hnot := prefers_opt (reads_negation.named "not" p)
  refine hnot.head?_flatMap fun q hq => behind_likePattern_eq_nil ?_
  rcases hq with hq | ⟨rfl, hq⟩
  · exact keyword?_of_space rfl (by decide) hq
  · rw [Option.isSome_map] at hq
    exact like?_of_not? hq

/-- Both keywords start on a letter. -/
theorem behind_keywords_eq_nil {p : Place} {c : Char} (hc : c.isAlpha = false)
    (hhead : p.rest.head? = some c) : Expression.keywords.behind p = [] := by
  have hnone : ∀ {k : Char} {ks : Text}, k.isAlpha = true → k ≠ 'k' → keyword? (k :: ks) p.rest = none := by
    intro k ks hk hne
    refine keyword?_eq_none_of_head fun d hd => ?_
    rw [hhead] at hd
    cases hd
    by_contra hletter
    rw [isAlpha_of_isLetter hk hne (Bool.not_eq_false _ ▸ hletter)] at hc
    cases hc
  have hnot : not? p.rest = none := by
    have hword : keyword? "not".toList p.rest = none := hnone rfl (by decide)
    rw [not?, Reader.andThen, hword]
    rfl
  rw [← List.head?_eq_none_iff, head?_behind_keywords, placeBehindNot, hnot, Option.map_none,
    Option.getD_none, behind_likePattern_eq_nil (hnone rfl (by decide)), List.head?_nil]

/-! ## Comparisons -/

/-- A comparison from behind its left side. -/
theorem head?_behind_rest (p : Place) :
    ((Regex.seqs Expression.spaces [Expression.keywords]).behind p).head? =
      (spaces? p.rest).bind fun gap => (Expression.keywords.behind (p.advance gap)).head? := by
  refine ((reads_spaces p).head?_flatMap fun q hq => ?_).trans ?_
  · obtain ⟨c, t, hrest, hc⟩ := Reader.exists_of_oneChar hq
    have halpha : c.isAlpha = false := by
      by_contra h
      rw [(isSpace_of_isAlpha (Bool.not_eq_false _ ▸ h)).1] at hc
      cases hc
    exact behind_keywords_eq_nil halpha (by rw [hrest]; rfl)
  · rw [Option.bind_map]
    rfl

/-- Where the left side goes on, no white space with a keyword behind it follows. -/
theorem behind_rest_eq_nil {p : Place} (h : GoesOn p.rest ∨ (joined? p.rest).isSome = true) :
    (Regex.seqs Expression.spaces [Expression.keywords]).behind p = [] := by
  rw [← List.head?_eq_none_iff, head?_behind_rest, spaces?_eq]
  rcases h with ⟨c, t, hrest, hc⟩ | h
  · rw [hrest, gap, List.takeWhile_cons_of_neg (by rw [isSpace_of_isBoundary hc]; decide)]
    rfl
  · split
    · rfl
    · have hbar : (gap p.rest).2.head? = some '|' := by
        by_contra hne
        rw [joined?_eq_none fun r hr => hne (by rw [hr]; rfl)] at h
        cases h
      rw [Option.bind_some, behind_keywords_eq_nil (by decide) hbar, List.head?_nil]

/-- The place behind a comparison, with the captures of its parts. -/
def placeBehind (p : Place) (m : Comparison) (rest : Text) : Place where
  pos := p.pos + byteLength m.text
  rest := rest
  captures :=
    [("pat", p.pos + byteLength (m.lead ++ (m.keyword ++ m.keywordGap)), p.pos + byteLength m.text),
      ("like", p.pos + byteLength m.lead, p.pos + byteLength (m.lead ++ m.keyword))] ++
    (if m.negation.isEmpty then []
      else [("not", p.pos + byteLength (m.operand ++ m.gap), p.pos + byteLength m.lead)]) ++
    ("expr", p.pos, p.pos + byteLength m.operand) :: p.captures

/-- A comparison is read part by part. -/
theorem read?_eq (s : Text) : read? s =
    (concatenation? s).bind fun left => (spaces? left.2).bind fun space =>
      (keyword? "like".toList (negation space.2).2.2).bind fun like => (spaces? like.2).bind fun gap =>
        (pattern? gap.2).map fun pattern =>
          ({ operand := left.1, gap := space.1, negation := (negation space.2).1,
             negationGap := (negation space.2).2.1, keyword := like.1, keywordGap := gap.1,
             pattern := pattern.1 }, pattern.2) := by
  rw [read?, concatenation?, Reader.andThen]
  cases operand? s with
  | none => rfl
  | some first =>
    simp only [Option.bind_some, Option.map_some, spaces?_eq]
    cases hspace : (gap (joinedAll first.2).2).1.isEmpty with
    | true =>
      simp only [if_true, Option.bind_none, Bool.true_or]
      split <;> rfl
    | false =>
      simp only [Bool.false_eq_true, if_false, Option.bind_some, Bool.false_or]
      cases keyword? "like".toList (negation (gap (joinedAll first.2).2).2).2.2 with
      | none => rfl
      | some like =>
        simp only [Option.bind_some]
        split <;> rfl

/-- The expression comes first to the comparison that is read. -/
theorem head?_behind_body (p : Place) : (Expression.body.behind p).head? =
    (read? p.rest).map fun r => placeBehind p r.1 r.2 := by
  refine ((reads_concatenation.named "expr" p).head?_flatMap fun q => behind_rest_eq_nil).trans ?_
  rw [Option.bind_map, read?_eq, Option.map_bind]
  refine Option.bind_congr fun left _ => ?_
  rw [Function.comp_apply, head?_behind_rest, Function.comp_apply, Option.map_bind]
  refine Option.bind_congr fun space _ => ?_
  rw [head?_behind_keywords, head?_behind_likePattern, placeBehindNot_eq, Function.comp_apply,
    Option.map_bind]
  refine Option.bind_congr fun like _ => ?_
  rw [Function.comp_apply, Option.map_bind]
  refine Option.bind_congr fun gap _ => ?_
  rw [Function.comp_apply, Option.map_map]
  refine Option.map_congr fun pattern _ => ?_
  simp only [placeBehindPattern, placeBehind, Place.advance, Place.captured, Function.comp_apply,
    Comparison.text, Comparison.lead, byteLength_append, Nat.add_assoc, List.cons_append,
    List.nil_append]

/-! ## The first comparison -/

/-- The byte ranges of a comparison's parts. The range of NOT goes on to the end of the white space
behind it. -/
structure Match where
  operand : Span
  negation : Option Span
  keyword : Span
  pattern : Span
deriving DecidableEq, Repr

/-- The ranges of a comparison that starts at offset `pos`. -/
def Match.ofComparison (pos : Nat) (m : Comparison) : Match where
  operand := ⟨pos, pos + byteLength m.operand⟩
  negation :=
    if m.negation.isEmpty then none
    else some ⟨pos + byteLength (m.operand ++ m.gap), pos + byteLength m.lead⟩
  keyword := ⟨pos + byteLength m.lead, pos + byteLength (m.lead ++ m.keyword)⟩
  pattern := ⟨pos + byteLength (m.lead ++ (m.keyword ++ m.keywordGap)), pos + byteLength m.text⟩

/-- The bytes that a group has matched. -/
def group? (p : Place) (name : String) : Option Span :=
  (p.captures.lookup name).map fun r => ⟨r.1, r.2⟩

/-- The ranges of a match, by its groups. -/
def Match.ofCaptures? (p : Place) : Option Match := do
  let operand ← group? p "expr"
  let keyword ← group? p "like"
  let pattern ← group? p "pat"
  return { operand, negation := group? p "not", keyword, pattern }

/-- A capture in front of the comparison is none of its parts. -/
theorem ofCaptures?_placeBehind (p : Place) (m : Comparison) (rest : Text)
    (h : p.captures.lookup "not" = none) :
    Match.ofCaptures? (placeBehind p m rest) = some (.ofComparison p.pos m) := by
  cases hnot : m.negation.isEmpty with
  | true => simp [Match.ofCaptures?, group?, placeBehind, Match.ofComparison, hnot, List.lookup_cons, h]
  | false => simp [Match.ofCaptures?, group?, placeBehind, Match.ofComparison, hnot, List.lookup_cons]

/-- The first comparison of a text that starts at offset `pos`; `mayStart` tells whether an operand
may start there. -/
def search (mayStart : Bool) (pos : Nat) : Text → Option Match
  | [] => none
  | c :: s =>
    match if mayStart then read? (c :: s) else none with
    | some (m, _) => some (.ofComparison pos m)
    | none => search (isBoundary c) (pos + c.utf8Size) s

section

variable {mayStart : Bool} {pos : Nat} {s rest : Text} {m : Comparison}

theorem search_cons_of_read? {c : Char} (h : read? (c :: s) = some (m, rest)) :
    search true pos (c :: s) = some (.ofComparison pos m) := by
  rw [search, if_pos rfl, h]

theorem search_cons_of_none {c : Char} (h : mayStart = true → read? (c :: s) = none) :
    search mayStart pos (c :: s) = search (isBoundary c) (pos + c.utf8Size) s := by
  have hnone : (if mayStart then read? (c :: s) else none) = none := by
    cases mayStart with
    | false => rfl
    | true => exact h rfl
  rw [search, hnone]

theorem search_false_cons (pos : Nat) (c : Char) (s : Text) :
    search false pos (c :: s) = search (isBoundary c) (pos + c.utf8Size) s := rfl

/-- A comparison is read at the start of a text, or the search goes on behind its first character. -/
theorem read?_or_none (mayStart : Bool) (s : Text) :
    (mayStart = true ∧ ∃ m rest, read? s = some (m, rest)) ∨ (mayStart = true → read? s = none) := by
  cases h : read? s with
  | none => exact .inr fun _ => rfl
  | some p =>
    cases mayStart with
    | false => exact .inr fun hstart => nomatch hstart
    | true => exact .inl ⟨rfl, p.1, p.2, rfl⟩

end

/-- The comparison that is read at the start of a text. -/
def matchAt? (pos : Nat) (s : Text) : Option Match := (read? s).map fun r => .ofComparison pos r.1

theorem search_eq_or (mayStart : Bool) (pos : Nat) (s : Text) :
    search mayStart pos s = (if mayStart then matchAt? pos s else none).or (search false pos s) := by
  cases s with
  | nil =>
    have hnone : matchAt? pos [] = none := rfl
    rw [hnone, ite_self, Option.none_or]
    rfl
  | cons c s =>
    rw [search_false_cons]
    rcases read?_or_none mayStart (c :: s) with ⟨rfl, m, rest, hread⟩ | hnone
    · rw [search_cons_of_read? hread, matchAt?, hread]
      rfl
    · rw [search_cons_of_none hnone]
      cases mayStart with
      | false => rfl
      | true =>
        rw [matchAt?, hnone rfl]
        rfl

theorem map_head?_behind_body (p : Place) (h : p.captures.lookup "not" = none) :
    (Expression.body.behind p).head?.map Match.ofCaptures? = (matchAt? p.pos p.rest).map some := by
  rw [head?_behind_body, matchAt?, Option.map_map, Option.map_map]
  exact Option.map_congr fun r _ => ofCaptures?_placeBehind p r.1 r.2 h

theorem boundary_eq : (fun c => [ClassItem.word, .char '.', .char ':', .char '$', .char '\''].any
    (·.accepts c) != true) = isBoundary := by
  funext c
  rw [Bool.eq_iff_iff]
  simp [ClassItem.accepts, isBoundary]

/-- A comparison is looked for at the start of the text if that is the start of the statement, then
behind a character that may stand in front of an operand. -/
theorem map_head?_behind (pos : Nat) (s : Text) :
    (Expression.comparison.behind ⟨pos, s, []⟩).head?.map Match.ofCaptures? =
      ((if pos == 0 then matchAt? pos s else none).or
        ((Reader.oneChar isBoundary s).bind fun r => matchAt? (pos + byteLength r.1) r.2)).map some := by
  have hboundary := reads_set true [.word, .char '.', .char ':', .char '$', .char '\'']
  rw [boundary_eq] at hboundary
  have hlead : Expression.lead.behind ⟨pos, s, []⟩ =
      (if pos = 0 then [⟨pos, s, []⟩] else []) ++
        ((Reader.oneChar isBoundary s).map (Place.advance ⟨pos, s, []⟩)).toList :=
    congrArg _ (hboundary ⟨pos, s, []⟩).eq_toList
  have hbehind : Expression.comparison.behind ⟨pos, s, []⟩ =
      ((Expression.lead.behind ⟨pos, s, []⟩).map (Place.captured "pre" pos)).flatMap
        Expression.body.behind := rfl
  rw [hbehind, hlead, List.map_append, List.flatMap_append, List.head?_append, Option.map_or,
    Option.map_or]
  congr 1
  · by_cases hpos : pos = 0
    · rw [if_pos hpos, if_pos (beq_iff_eq.2 hpos), List.map_singleton, List.flatMap_singleton,
        map_head?_behind_body _ rfl]
      rfl
    · rw [if_neg hpos, if_neg (by simpa using hpos)]
      rfl
  · cases Reader.oneChar isBoundary s with
    | none => rfl
    | some r =>
      rw [Option.map_some, Option.toList_some, List.map_singleton, List.flatMap_singleton,
        map_head?_behind_body _ rfl]
      rfl

/-- The first match of the expression is the first comparison that is read where an operand may
start. -/
theorem map_find_comparison (pos : Nat) (s : Text) :
    (Expression.comparison.find pos s).map Match.ofCaptures? =
      (search (pos == 0) pos s).map some := by
  induction s generalizing pos with
  | nil =>
    rw [find, map_head?_behind]
    have hnone : matchAt? pos [] = none := rfl
    rw [hnone, ite_self]
    rfl
  | cons c s ih =>
    have hpos : (pos + c.utf8Size == 0) = false :=
      beq_eq_false_iff_ne.2 (Nat.ne_of_gt (Nat.add_pos_right pos c.utf8Size_pos))
    have hbehind : ((Reader.oneChar isBoundary (c :: s)).bind fun r =>
        matchAt? (pos + byteLength r.1) r.2) =
          if isBoundary c then matchAt? (pos + c.utf8Size) s else none := by
      rw [Reader.oneChar]
      split
      · rfl
      · rfl
    rw [find, Option.map_or, map_head?_behind, hbehind, ih, hpos, search_eq_or (pos == 0),
      search_false_cons, search_eq_or (isBoundary c), ← Option.or_assoc]
    simp only [Option.map_or]

theorem find_comparison (pos : Nat) (s : Text) :
    (Expression.comparison.find pos s).bind Match.ofCaptures? = search (pos == 0) pos s := by
  have hmap := map_find_comparison pos s
  cases hfind : Expression.comparison.find pos s with
  | none =>
    rw [hfind, Option.map_none, eq_comm, Option.map_eq_none_iff] at hmap
    rw [hmap, Option.bind_none]
  | some p =>
    rw [hfind, Option.map_some, eq_comm, Option.map_eq_some_iff] at hmap
    obtain ⟨m, hm, hp⟩ := hmap
    rw [hm, Option.bind_some, hp]

end QueryClauses.Sql.Like
