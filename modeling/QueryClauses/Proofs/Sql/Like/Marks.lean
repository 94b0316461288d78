import QueryClauses.Proofs.Sql.Like.Folded
import QueryClauses.Proofs.Sql.Positional

/-!
# Literals, comments and placeholders of a folded statement

Folding takes a statement apart in its own way, not by its elements, but it disturbs none of those
that count: the literals, quoted identifiers, comments and placeholders of a folded statement are
those of the statement, in the same order, if its quotes are closed (`fold_keeps_marks`). All that is
changed is written down as a relation between texts (`Wrapped`).
-/

namespace QueryClauses.Sql

open CharClass

/-! ## The texts of the opaque regions -/

/-- The text in a byte range. -/
def Span.slice (r : Span) (s : Text) : Text :=
  Text.takeBytes (r.stop - r.start) (Text.dropBytes r.start s)

/-- The texts of the literals, quoted identifiers and comments of a statement, in order. -/
def regionTexts (s : Text) : List Text := (survey s).regions.map (·.slice s)

theorem slice_append (a b c : Text) :
    Span.slice ⟨Text.byteLength a, Text.byteLength a + Text.byteLength b⟩ (a ++ (b ++ c)) = b := by
  rw [Span.slice, Text.dropBytes_byteLength_append, Nat.add_sub_cancel_left,
    Text.takeBytes_byteLength_append]

theorem regionTexts_ofTokens (front : Text) (d : Int) (ts : List Token) :
    (Survey.ofTokens (Text.byteLength front) d ts).regions.map (·.slice (front ++ textOf ts)) =
      (ts.filter (·.kind.isOpaque)).map Token.text := by
  induction ts generalizing front d with
  | nil => rfl
  | cons t ts ih =>
    have ih := ih (front ++ t.text) (t.kind.depthAfter d)
    rw [Text.byteLength_append, List.append_assoc] at ih
    rw [regions_ofTokens, List.map_append, textOf_cons, ih, List.filter_cons]
    cases ht : t.kind.isOpaque with
    | false => simp
    | true => simp [slice_append]

theorem regionTexts_eq (s : Text) :
    regionTexts s = ((lex s).filter (·.kind.isOpaque)).map Token.text := by
  have := regionTexts_ofTokens [] 0 (lex s)
  rwa [List.nil_append, textOf_lex] at this

/-! ## Elements that count -/

/-- Whether an element is a literal, a quoted identifier, a comment or a placeholder. -/
def Token.isMark (t : Token) : Bool := t.kind.isOpaque || t.kind == .placeholder

/-- The literals, quoted identifiers, comments and placeholders of a text, in order. -/
def marks (s : Text) : List Token := (lex s).filter Token.isMark

theorem regionTexts_eq_marks (s : Text) :
    regionTexts s = ((marks s).filter (·.kind.isOpaque)).map Token.text := by
  rw [regionTexts_eq, marks, List.filter_filter]
  congr 2
  funext t
  cases h : t.kind.isOpaque <;> simp [Token.isMark, h]

theorem placeholderNames_eq_marks (s : Text) : placeholderNames s = namesOf (marks s) := by
  rw [placeholderNames_eq, namesOf, namesOf, marks, List.filter_filter]
  congr 2
  funext t
  cases h : t.kind == .placeholder <;> simp [Token.isMark, h]

theorem marks_of_begins {c : Char} {s r : Text} {t : Token} (h : Begins c s t r) :
    marks (c :: s) = (if t.isMark then [t] else []) ++ marks r := by
  rw [marks, lex_eq_cons_iff.2 ⟨c, s, r, rfl, h, rfl⟩, List.filter_cons]
  split <;> rfl

theorem marks_dropWhile (s : Text) : marks (s.dropWhile isIdentChar) = marks s := by
  cases s with
  | nil => rfl
  | cons c s =>
    by_cases hc : isIdentChar c = true
    · rw [List.dropWhile_cons_of_pos hc, marks_of_begins (Begins.word hc)]
      rfl
    · rw [List.dropWhile_cons_of_neg hc]

/-- A character that nothing of what counts starts with. -/
def isPlain (c : Char) : Bool := !(['\'', '"', '-', '/', ':'].contains c)

theorem isQuiet_of_isPlain {c : Char} (h : isPlain c = true) : isQuiet c = true ∧ c ≠ ':' := by
  simp only [isPlain, isQuiet, List.contains_cons, List.contains_nil, Bool.or_false,
    Bool.not_eq_true', Bool.or_eq_false_iff, beq_eq_false_iff_ne] at h ⊢
  exact ⟨⟨h.1, h.2.1, h.2.2.1, h.2.2.2.1⟩, h.2.2.2.2⟩

theorem isPlain_of_class {p : Char → Bool} (hp : ['\'', '"', '-', '/', ':'].any p = false) {c : Char}
    (hc : p c = true) : isPlain c = true := by
  rw [isPlain, contains_eq_false_of_class hp hc, Bool.not_false]

theorem isPlain_of_isSpace {c : Char} (h : isSpace c = true) : isPlain c = true :=
  isPlain_of_class (by decide) h

theorem isPlain_of_isWordChar {c : Char} (h : isWordChar c = true) : isPlain c = true :=
  isPlain_of_class (by decide +kernel) h

theorem marks_cons {c : Char} (hc : isPlain c = true) (s : Text) : marks (c :: s) = marks s := by
  obtain ⟨hquiet, hcolon⟩ := isQuiet_of_isPlain hc
  have hopaque := isOpaque_munch_of_isQuiet hquiet s
  have hb := begins_munch c s
  generalize (munch c s).1 = t, (munch c s).2 = r at hb hopaque
  rw [marks_of_begins hb]
  cases hb with
  | quoted hq h => cases hopaque
  | line h => cases hopaque
  | block h => cases hopaque
  | opening => rfl
  | closing => rfl
  | cast => exact absurd rfl hcolon
  | placeholder hc => exact absurd rfl hcolon
  | word hc => exact marks_dropWhile s
  | other hc hne hends => rfl

theorem marks_append_of_isPlain {w : Text} (hw : ∀ c ∈ w, isPlain c = true) (r : Text) :
    marks (w ++ r) = marks r := by
  induction w with
  | nil => rfl
  | cons c w ih =>
    obtain ⟨hc, hw⟩ := List.forall_mem_cons.1 hw
    rw [List.cons_append, marks_cons hc, ih hw]

namespace Like

/-! ## Operands and patterns -/

/-- What counts in a placeholder with a name. -/
theorem marks_placeholder {w r : Text} (hw : (w ++ r).takeWhile isWordChar = w)
    (hstart : (w ++ r).head?.any isNameStart = true) :
    marks (':' :: (w ++ r)) = ⟨.placeholder, ':' :: w.takeWhile isNameChar⟩ :: marks r := by
  have hword : ∀ c ∈ w, isWordChar c = true := fun c hc => List.mem_takeWhile_imp (by rwa [hw])
  have hr : ∀ c ∈ r.head?, isNameChar c = false := by
    intro c hc
    obtain ⟨u, rfl⟩ := List.head?_eq_some_iff.1 hc
    by_contra hname
    rw [Bool.not_eq_false] at hname
    rw [List.takeWhile_append_of_pos hword,
      List.takeWhile_cons_of_pos (isWordChar_of_isNameChar hname)] at hw
    simpa using congrArg List.length hw
  cases hwr : w ++ r with
  | nil =>
    rw [hwr] at hstart
    cases hstart
  | cons d s =>
    rw [hwr] at hstart
    have hb : Begins ':' (d :: s) _ _ := .placeholder hstart
    rw [marks_of_begins hb, ← hwr, takeWhile_append_of_head hr, dropWhile_append_of_head hr,
      marks_append_of_isPlain]
    · rfl
    · exact fun c hc => isPlain_of_isWordChar (hword c ((List.dropWhile_suffix _).subset hc))

theorem pattern?_colon {w r : Text} (h : pattern? (':' :: (w ++ r)) = some (':' :: w, r)) :
    (w ++ r).takeWhile isWordChar = w ∧ (w ++ r).head?.any isNameStart = true := by
  rw [pattern?, if_neg (by decide), placeholder?, if_neg (by decide)] at h
  split at h
  · rename_i hc
    simp only [Option.some.injEq, Prod.mk.injEq, List.cons.injEq, true_and] at h
    exact ⟨h.1, hc.2⟩
  · simp at h

theorem pattern?_dollar {w r : Text} (h : pattern? ('$' :: (w ++ r)) = some ('$' :: w, r)) :
    (w ++ r).takeWhile isDigit = w := by
  have hcolon : ¬('$' = ':' ∧ (w ++ r).head?.any isNameStart = true) := fun h => by cases h.1
  rw [pattern?, if_neg (by decide), placeholder?, if_neg (by decide), if_neg hcolon] at h
  split at h
  · simp only [Option.some.injEq, Prod.mk.injEq, List.cons.injEq, true_and] at h
    exact h.1
  · cases h

/-- What counts in a pattern does not depend on what follows it. -/
theorem marks_pattern {f r : Text} (h : pattern? (f ++ r) = some (f, r)) :
    ∃ l, ∀ r', pattern? (f ++ r') = some (f, r') →
      (f.head? = some '\'' → r'.head? ≠ some '\'') → marks (f ++ r') = l ++ marks r' := by
  rcases pattern?_cases h with rfl | ⟨body, rfl, -⟩ | ⟨⟨c, hc, hhead⟩, -⟩
  · exact ⟨[], fun r' _ _ => marks_append_of_isPlain (by simp [isPlain]) r'⟩
  · refine ⟨[⟨.quoted, '\'' :: body⟩], fun r' hr' hquote => ?_⟩
    rw [List.cons_append, pattern?, if_pos rfl] at hr'
    obtain ⟨q, hq, hpq⟩ := Option.map_eq_some_iff.1 hr'
    obtain rfl : q = (body, r') := by simpa [Prod.ext_iff] using hpq
    have hb : Begins '\'' (body ++ r') ⟨.quoted, '\'' :: body⟩ r' :=
      .quoted (.inl rfl) (munchQuoted_of_literalBody hq (hquote rfl))
    rw [List.cons_append, marks_of_begins hb]
    rfl
  · obtain ⟨w, rfl⟩ := List.head?_eq_some_iff.1 hhead
    simp only [List.mem_cons, List.not_mem_nil, or_false] at hc
    rcases hc with rfl | rfl
    · refine ⟨[⟨.placeholder, ':' :: w.takeWhile isNameChar⟩], fun r' hr' _ => ?_⟩
      obtain ⟨hword, hstart⟩ := pattern?_colon hr'
      exact marks_placeholder hword hstart
    · refine ⟨[], fun r' _ _ => marks_append_of_isPlain ?_ r'⟩
      have hdigits := pattern?_dollar h
      refine List.forall_mem_cons.2 ⟨rfl, fun d hd => isPlain_of_isWordChar (isWordChar_of_isDigit ?_)⟩
      exact List.mem_takeWhile_imp (by rwa [hdigits])

theorem isPlain_of_mem_nameBody {s : Text} : ∀ c ∈ (nameBody s).1, isPlain c = true :=
  forall_mem_nameBody (fun _ => isPlain_of_isWordChar) rfl rfl s

/-- What counts in an operand does not depend on what follows it. -/
theorem marks_operand {f r : Text} (h : operand? (f ++ r) = some (f, r)) :
    ∃ l, ∀ r', EndsOperand r' → marks (f ++ r') = l ++ marks r' := by
  cases f with
  | nil => exact absurd rfl (operand?_append h).2
  | cons c w =>
    rw [List.cons_append, operand?] at h
    split at h
    · rename_i hc
      simp only [Option.some.injEq, Prod.mk.injEq, List.cons.injEq, true_and] at h
      refine ⟨[], fun r' _ => marks_append_of_isPlain (List.forall_mem_cons.2 ⟨?_, ?_⟩) r'⟩
      · exact isPlain_of_isWordChar (isWordChar_of_isNameChar (isNameChar_of_isNameStart hc))
      · rw [← h.1]
        exact isPlain_of_mem_nameBody
    · obtain ⟨l, hl⟩ := marks_pattern (f := c :: w) h
      have hquote : ∀ {r' : Text}, EndsOperand r' → r'.head? ≠ some '\'' := fun hr' hq =>
        (hr' _ hq).2.2.2 rfl
      refine ⟨l, fun r' hr' => hl r' ?_ fun _ => hquote hr'⟩
      exact pattern?_congr (f := c :: w) h (fun _ => hquote hr') fun d hd => .inr (hr' d hd).1

/-- What counts in the further operands of a concatenation does not depend on what follows them. -/
theorem marks_joinedAll {s : Text} (hs : EndsOperand (joinedAll s).2) :
    ∃ l, ∀ r', EndsOperand r' → marks ((joinedAll s).1 ++ r') = l ++ marks r' := by
  fun_induction joinedAll s with
  | case1 s hnone => exact ⟨[], fun r' _ => rfl⟩
  | case2 s p hp ih =>
    obtain ⟨j, r⟩ := p
    obtain ⟨g, g', f, hg, hg', rfl, -, hf⟩ := joined?_eq_some_iff.1 hp
    obtain ⟨l', hl'⟩ := ih hs
    obtain ⟨l, hl⟩ := marks_operand hf
    refine ⟨l ++ l', fun r' hr' => ?_⟩
    have hends : EndsOperand ((joinedAll r).1 ++ r') :=
      EndsOperand.append_congr (by rw [joinedAll_append]; exact endsOperand_of_joinedAll hs) hr'
    have hbars : ∀ c ∈ g ++ '|' :: '|' :: g', isPlain c = true := by
      intro c hc
      simp only [List.mem_append, List.mem_cons] at hc
      rcases hc with hc | rfl | rfl | hc
      · exact isPlain_of_isSpace (hg c hc)
      · rfl
      · rfl
      · exact isPlain_of_isSpace (hg' c hc)
    calc marks (g ++ '|' :: '|' :: (g' ++ f) ++ (joinedAll r).1 ++ r')
        = marks (g ++ '|' :: '|' :: g' ++ (f ++ ((joinedAll r).1 ++ r'))) := by simp
      _ = l ++ (l' ++ marks r') := by rw [marks_append_of_isPlain hbars, hl _ hends, hl' r' hr']
      _ = l ++ l' ++ marks r' := by rw [List.append_assoc]

/-! ## Comparisons -/

section

variable {s rest : Text} {m : Comparison} (h : read? s = some (m, rest))

include h

theorem marks_concatenation : ∃ l, ∀ r, EndsOperand r → marks (m.operand ++ r) = l ++ marks r := by
  obtain ⟨first, more, behind, hoperand, hfirst, hmore, hbehind⟩ := operand?_of_read? h
  have hspaced := spaced_of_read? h
  have happ := (operand?_append hfirst).1
  simp only at happ
  have hbehind' : EndsOperand behind := by
    rw [hbehind]
    exact endsOperand_space hspaced.gap.2 hspaced.gap.1 _
  obtain ⟨l', hl'⟩ := marks_joinedAll (s := more ++ behind) (by rwa [hmore])
  rw [← happ] at hfirst
  obtain ⟨l, hl⟩ := marks_operand hfirst
  rw [hmore] at hl'
  refine ⟨l ++ l', fun r hr => ?_⟩
  have hends := EndsOperand.append_congr (endsOperand_behind hmore hbehind') hr
  rw [hoperand, List.append_assoc, hl _ hends, hl' r hr, List.append_assoc]

theorem isPlain_of_mem_keywords : (∀ c ∈ m.negation, isPlain c = true) ∧
    (∀ c ∈ m.negationGap, isPlain c = true) ∧ ∀ c ∈ m.keyword, isPlain c = true := by
  have hspaced := spaced_of_read? h
  have hword : ∀ {k ks w}, IsWordOf k ks w → ∀ c ∈ w, isPlain c = true := fun hw c hc =>
    isPlain_of_isWordChar (isWordChar_of_mem_keyword? hw.2.2 hw.1 c hc)
  refine ⟨?_, ?_, hword hspaced.isWordOf_keyword⟩
  · by_cases hnot : m.negation = []
    · simp [hnot]
    · exact hword (hspaced.isWordOf_negation hnot)
  · rcases hspaced.negation with ⟨-, hgap⟩ | ⟨-, -, hgap⟩
    · simp [hgap]
    · exact fun c hc => isPlain_of_isSpace (hgap c hc)

/-- What counts in a comparison is in its operands and its pattern, and so it is in the folded
comparison. -/
theorem marks_of_read? : ∃ l, marks s = l ++ marks (m.pattern ++ rest) ∧
    ∀ z, marks (m.folded ++ z) = l ++ marks (m.pattern ++ ')' :: z) := by
  obtain ⟨l, hl⟩ := marks_concatenation h
  obtain ⟨hnegation, hnegationGap, hkeyword⟩ := isPlain_of_mem_keywords h
  have hspaced := spaced_of_read? h
  have happ := (read?_append h).1
  have hgap : ∀ c ∈ m.gap, isPlain c = true := fun c hc => isPlain_of_isSpace (hspaced.gap.2 c hc)
  have hkeywordGap : ∀ c ∈ m.keywordGap, isPlain c = true := fun c hc =>
    isPlain_of_isSpace (hspaced.keywordGap.2 c hc)
  have hkeywords : ∀ c ∈ m.keywords, isPlain c = true := by
    unfold Comparison.keywords
    split
    · exact hkeyword
    · intro c hc
      simp only [List.mem_append, List.mem_singleton] at hc
      rcases hc with (hc | rfl) | hc
      · exact hnegation c hc
      · rfl
      · exact hkeyword c hc
  refine ⟨l, ?_, fun z => ?_⟩
  · simp only [Comparison.text, Comparison.lead, List.append_assoc] at happ
    rw [← happ, hl _ (endsOperand_space hspaced.gap.2 hspaced.gap.1 _),
      marks_append_of_isPlain hgap, marks_append_of_isPlain hnegation,
      marks_append_of_isPlain hnegationGap, marks_append_of_isPlain hkeyword,
      marks_append_of_isPlain hkeywordGap]
  · have hupper : ∀ c ∈ "UPPER(".toList, isPlain c = true := List.all_eq_true.1 (by decide)
    have hblank : ∀ c ∈ [' '], isPlain c = true := List.forall_mem_singleton.2 rfl
    rw [folded_append, marks_append_of_isPlain hupper, hl _ (endsOperand_stop rfl _),
      marks_cons rfl, marks_append_of_isPlain hblank, marks_append_of_isPlain hkeywords,
      marks_append_of_isPlain hblank, marks_append_of_isPlain hupper]

/-- A literal that goes on behind a comparison is not closed. -/
theorem not_open_of_isClosed (hclosed : ∀ t ∈ marks s, t.kind = .quoted → t.isClosed = true)
    (hliteral : m.pattern.head? = some '\'') : rest.head? ≠ some '\'' := by
  intro hend
  obtain ⟨body, r, hp, hmunch, rfl, -⟩ := open_of_read? h hliteral hend
  obtain ⟨l, hl, -⟩ := marks_of_read? h
  have hpattern := pattern?_of_read? h
  have hb : Begins '\'' (body ++ '\'' :: r) ⟨.quoted, '\'' :: (body ++ '\'' :: r)⟩ [] :=
    .quoted (.inl rfl) hmunch
  have hcount := hclosed ⟨.quoted, '\'' :: (body ++ '\'' :: r)⟩ (by
    rw [hl, hp, List.cons_append, marks_of_begins hb]
    exact List.mem_append_right l List.mem_cons_self) rfl
  rw [hp, List.cons_append, pattern?, if_pos rfl,
    literalBody_of_munchQuoted hmunch (by simpa [Token.isClosed] using hcount)] at hpattern
  simp at hpattern

end

/-! ## Folded statements -/

/-- What counts in a statement with closed quotes counts in the folded statement. -/
theorem marks_foldAt (mayStart : Bool) (s : Text)
    (hclosed : ∀ t ∈ marks s, t.kind = .quoted → t.isClosed = true) :
    marks (foldAt mayStart s) = marks s := by
  induction mayStart, s using steps_induction with
  | nil mayStart => rw [foldAt_nil]
  | copy mayStart c s t r h hread ih =>
    rw [marks_of_begins h] at hclosed ⊢
    obtain ⟨body, htext, -, hbegins⟩ := begins_foldAt h
    rw [foldAt_copy h hread, htext, List.cons_append, marks_of_begins hbegins,
      ih fun u hu => hclosed u (List.mem_append_right _ hu)]
  | fold s m rest h ih =>
    have hend := not_open_of_isClosed h hclosed
    obtain ⟨l, hl, hfolded⟩ := marks_of_read? h
    have hpattern := pattern?_of_read? h
    obtain ⟨l', hl'⟩ := marks_pattern hpattern
    have hstop : ∀ z, pattern? (m.pattern ++ ')' :: z) = some (m.pattern, ')' :: z) := fun z =>
      pattern?_congr hpattern (fun _ => by simp) fun c hc => .inr (by cases hc; decide +kernel)
    have hmarks : marks s = l ++ (l' ++ marks rest) := by rw [hl, hl' rest hpattern hend]
    rw [foldAt_fold h, hfolded, hl' _ (hstop _) (fun _ => by simp), marks_cons rfl, hmarks,
      ih fun u hu => hclosed u ?_]
    rw [hmarks]
    exact List.mem_append_right _ (List.mem_append_right _ hu)

/-! ## What folding changes -/

/-- White space, and not none. -/
def IsGap (g : Text) : Prop := g ≠ [] ∧ ∀ c ∈ g, isSpace c = true

/-- A keyword in any case, given in lower case. -/
def IsKeyword (keyword : String) (w : Text) : Prop := keyword? keyword.toList w = some (w, [])

/-- A literal or a placeholder. -/
def IsPattern (p : Text) : Prop := ∃ r, pattern? (p ++ r) = some (p, r)

/-- The second text is the first, but that in some places both sides of a LIKE or a NOT LIKE are
wrapped, operands and a pattern, and the white space around the keywords is a blank. -/
inductive Wrapped : Text → Text → Prop
  | nil : Wrapped [] []
  | copy {s s' : Text} (w : Text) (h : Wrapped s s') : Wrapped (w ++ s) (w ++ s')
  | like {s s' e g like g' p : Text} (he : IsConcatenation e) (hg : IsGap g)
      (hlike : IsKeyword "like" like) (hg' : IsGap g') (hp : IsPattern p) (h : Wrapped s s') :
      Wrapped (e ++ (g ++ (like ++ (g' ++ (p ++ s)))))
        ("UPPER(".toList ++ (e ++ ')' :: ([' '] ++ (like ++ ([' '] ++
          ("UPPER(".toList ++ (p ++ ')' :: s')))))))
  | notLike {s s' e g not notGap like g' p : Text} (he : IsConcatenation e) (hg : IsGap g)
      (hnot : IsKeyword "not" not) (hnotGap : IsGap notGap) (hlike : IsKeyword "like" like)
      (hg' : IsGap g') (hp : IsPattern p) (h : Wrapped s s') :
      Wrapped (e ++ (g ++ (not ++ (notGap ++ (like ++ (g' ++ (p ++ s)))))))
        ("UPPER(".toList ++ (e ++ ')' :: ([' '] ++ (not ++ ([' '] ++ (like ++ ([' '] ++
          ("UPPER(".toList ++ (p ++ ')' :: s')))))))))

theorem wrapped_comparison {s rest s' : Text} {m : Comparison} (h : read? s = some (m, rest))
    (hs : Wrapped rest s') : Wrapped (m.text ++ rest) (m.folded ++ s') := by
  have hspaced := spaced_of_read? h
  have hoperand := isConcatenation_of_read? h
  have hpattern : IsPattern m.pattern := ⟨rest, pattern?_of_read? h⟩
  rw [folded_append]
  rcases hspaced.negation with ⟨hnot, hgap⟩ | ⟨hnot, hne, hgap⟩
  · have := Wrapped.like hoperand hspaced.gap hspaced.keyword hspaced.keywordGap hpattern hs
    simpa [Comparison.text, Comparison.lead, Comparison.keywords, hnot, hgap] using this
  · have := Wrapped.notLike hoperand hspaced.gap hnot ⟨hne, hgap⟩ hspaced.keyword
      hspaced.keywordGap hpattern hs
    have hempty : m.negation.isEmpty = false := by
      cases hm : m.negation with
      | nil =>
        rw [hm] at hnot
        cases hnot
      | cons c w => rfl
    simpa [Comparison.text, Comparison.lead, Comparison.keywords, hempty] using this

theorem wrapped_foldAt (mayStart : Bool) (s : Text) : Wrapped s (foldAt mayStart s) := by
  induction mayStart, s using steps_induction with
  | nil mayStart =>
    rw [foldAt_nil]
    exact .nil
  | copy mayStart c s t r h hread ih =>
    obtain ⟨body, htext, rfl, -, -⟩ := h.self
    rw [foldAt_copy h hread, ← List.cons_append, ← htext]
    exact .copy t.text ih
  | fold s m rest h ih =>
    rw [foldAt_fold h, ← (read?_append h).1]
    exact wrapped_comparison h ih

/-- Folding a statement whose literals and quoted identifiers are closed leaves the texts of its
literals, quoted identifiers and comments and the names of its placeholders as they are, all in the
same order. The folded statement is the statement, but that both sides of some LIKE and NOT LIKE are
wrapped and the white space around the keywords is a blank. -/
theorem fold_keeps_marks {s : Text}
    (hclosed : ∀ t ∈ lex s, t.kind = .quoted → t.isClosed = true) :
    regionTexts (fold s).text = regionTexts s ∧
      placeholderNames (fold s).text = placeholderNames s ∧ Wrapped s (fold s).text := by
  have hmarks : marks (fold s).text = marks s :=
    marks_foldAt true s fun t ht => hclosed t (List.mem_filter.1 ht).1
  refine ⟨?_, ?_, wrapped_foldAt true s⟩
  · rw [regionTexts_eq_marks, hmarks, ← regionTexts_eq_marks]
  · rw [placeholderNames_eq_marks, hmarks, ← placeholderNames_eq_marks]

/-- The literal, the comment and the quoted identifier look like comparisons inside. -/
def commentedCondition : Text :=
  "t.note = 'x like ''y''' /* a like :b */ AND \"N\" = 1 AND t.a NOT   like :p".toList

theorem fold_keeps_marks_commentedCondition :
    (∀ t ∈ lex commentedCondition, t.kind = .quoted → t.isClosed = true) ∧
      regionTexts (fold commentedCondition).text =
        ["'x like ''y'''".toList, "/* a like :b */".toList, "\"N\"".toList] ∧
      placeholderNames (fold commentedCondition).text = ["p".toList] := by
  have hclosed : ∀ t ∈ lex commentedCondition, t.kind = .quoted → t.isClosed = true := by
    decide +kernel
  obtain ⟨hregions, hnames, -⟩ := fold_keeps_marks hclosed
  refine ⟨hclosed, hregions.trans ?_, hnames.trans ?_⟩ <;> decide +kernel

end Like

end QueryClauses.Sql
