import QueryClauses.Proofs.Sql.Like.Folded

/-!
# Folding generated text

A column may be spelled like a keyword, but it goes on with a point: no comparison reads a keyword
in it (`breaksOff_column`). So folding copies the operands of generated text, behind which there is
something else than bars and LIKE, with the words and signs between them (`foldAt_operand_blank`,
`foldAt_operand_last`). Of a comparison with LIKE it folds the column and the placeholder and copies
ESCAPE with its literal (`foldAt_like`).
-/

namespace QueryClauses.Sql.Like

open CharClass

/-! ## Columns are no keywords -/

/-- Behind a keyword that is read in a word in front of a point stands no white space. -/
theorem gap_of_keyword? {ks w u : Text} {p : Text × Text} (hks : ∀ k ∈ ks, k.isAlpha = true)
    (hw : ∀ c ∈ w, isIdentChar c = true) (h : keyword? ks (w ++ '.' :: u) = some p) :
    (gap p.2).1 = [] := by
  have hgap : ∀ {c : Char} {s : Text}, isSpace c = false → (gap (c :: s)).1 = [] := fun hc =>
    List.takeWhile_cons_of_neg (by simp [hc])
  induction ks generalizing w p with
  | nil =>
    cases h
    cases w with
    | nil => exact hgap rfl
    | cons c w => exact hgap (isSpace_eq_false_of_isIdentChar (hw c List.mem_cons_self))
  | cons k ks ih =>
    obtain ⟨hk, hks⟩ := List.forall_mem_cons.1 hks
    cases w with
    | nil =>
      have hpoint : isLetter k '.' = false := by
        by_contra hletter
        rw [Bool.not_eq_false] at hletter
        exact absurd (isWordChar_of_isLetter hk hletter) (by decide +kernel)
      simp [keyword?, hpoint] at h
    | cons c w =>
      rw [List.cons_append, keyword?] at h
      split at h
      · obtain ⟨q, hq, hp⟩ := Option.map_eq_some_iff.1 h
        have hgap := ih hks (fun d hd => hw d (List.mem_cons_of_mem c hd)) hq
        rwa [← hp]
      · cases h

/-- No comparison goes on with a column, be it spelled like a keyword. -/
theorem breaksOff_column {column : Text} (h : IsColumn column) (r : Text) :
    BreaksOff (column ++ r) := by
  obtain ⟨w, u, hw, rfl⟩ := h.exists_point
  have hident := isIdentChar_of_isSegment hw
  rw [List.append_assoc, List.cons_append]
  have hgap : ∀ {ks p}, (∀ k ∈ ks, k.isAlpha = true) →
      keyword? ks (w ++ '.' :: (u ++ r)) = some p → (gap p.2).1 = [] :=
    fun hks hp => gap_of_keyword? hks hident hp
  refine breaksOff_of_startsLike (fun c hc => ?_) ?_
  · obtain _ | ⟨d, w⟩ := w
    · exact hw.elim
    cases hc
    have hd := hident c List.mem_cons_self
    refine ⟨isSpace_eq_false_of_isIdentChar hd, ?_⟩
    rintro rfl
    cases hd
  · have hnot : (negation (w ++ '.' :: (u ++ r))).2.2 = w ++ '.' :: (u ++ r) := by
      unfold negation
      split
      · rfl
      · rename_i word s hword
        have hempty : (gap s).1 = [] := hgap (by simp) hword
        rw [hempty, List.isEmpty_nil, if_pos rfl]
    rw [startsLike, hnot, ← Bool.not_eq_true, Option.any_eq_true]
    rintro ⟨p, hp, hpattern⟩
    have hempty : (gap p.2).1 = [] := hgap (by simp) hp
    rw [patternBehind?, hempty, List.isEmpty_nil, if_pos rfl] at hpattern
    cases hpattern

theorem breaksOff_cons {c : Char} (hc : isSpace c = false ∧ c ≠ '|' ∧ isLetter 'n' c = false ∧
    isLetter 'l' c = false) (r : Text) : BreaksOff (c :: r) := by
  refine breaksOff_of_head? ?_
  rintro d ⟨⟩
  exact hc

/-- Neither NULL nor NOT NULL is taken for a keyword of LIKE. -/
theorem breaksOff_null (r : Text) : BreaksOff ("NULL".toList ++ r) := by
  refine breaksOff_of_startsLike ?_ (by simp [startsLike, negation, keyword?, isLetter])
  rintro c ⟨⟩
  decide

theorem breaksOff_notNull (r : Text) : BreaksOff ("NOT".toList ++ ' ' :: ("NULL".toList ++ r)) := by
  have hblank : isSpace ' ' = true := rfl
  have hletter : isSpace 'N' = false := rfl
  refine breaksOff_of_startsLike ?_ ?_
  · rintro c ⟨⟩
    decide
  · simp [startsLike, negation, keyword?, isLetter, gap, hblank, hletter]

/-! ## Operands that are copied -/

/-- Text that may stand behind an operand: the operand does not go on with it, and no comparison
does. -/
structure Follows (r : Text) : Prop where
  ends : EndsOperand r
  breaksOff : BreaksOff r

theorem follows_nil : Follows [] where
  ends := endsOperand_nil
  breaksOff := breaksOff_of_head? nofun

theorem follows_close (r : Text) : Follows (')' :: r) where
  ends := endsOperand_stop rfl r
  breaksOff := breaksOff_cons (by decide) r

theorem endsOperand_blank (r : Text) : EndsOperand (' ' :: r) := endsOperand_cons (.inl rfl) r

theorem follows_blank {r : Text} (hr : BreaksOff r) : Follows (' ' :: r) where
  ends := endsOperand_blank r
  breaksOff := breaksOff_space isSpace_of_mem_blank hr

section

variable {f r : Text} (mayStart : Bool)

theorem foldAt_blank (r : Text) : foldAt mayStart (' ' :: r) = ' ' :: foldAt true r := by
  have h := foldAt_space isSpace_of_mem_blank mayStart r
  rwa [List.isEmpty_cons, Bool.not_false, Bool.or_true] at h

/-- An operand and the blank behind it are copied where no comparison goes on. -/
theorem foldAt_operand_blank (hf : operand? (f ++ ' ' :: r) = some (f, ' ' :: r))
    (hr : BreaksOff r) : foldAt mayStart (f ++ ' ' :: r) = f ++ ' ' :: foldAt true r := by
  rw [foldAt_operand hf (fun _ => by simp) fun _ => (follows_blank hr).breaksOff.read?_eq_none hf,
    foldAt_blank]

/-- The last operand of a comparison is copied. -/
theorem foldAt_operand_last (hf : operand? (f ++ r) = some (f, r)) (hr : Follows r) :
    foldAt mayStart (f ++ r) = f ++ foldAt (f == ['?']) r :=
  foldAt_operand hf (fun _ hq => (hr.ends _ hq).2.2.2 rfl) fun _ => hr.breaksOff.read?_eq_none hf

theorem foldAt_word_blank (hf : Identifier.IsSegment f) (hr : BreaksOff r) :
    foldAt mayStart (f ++ ' ' :: r) = f ++ ' ' :: foldAt true r :=
  foldAt_operand_blank mayStart (operand?_word hf (endsOperand_blank r).endsName) hr

theorem foldAt_word_last (hf : Identifier.IsSegment f) (hr : Follows r) :
    ∃ mayStart', foldAt mayStart (f ++ r) = f ++ foldAt mayStart' r :=
  ⟨_, foldAt_operand_last mayStart (operand?_word hf hr.ends.endsName) hr⟩

theorem foldAt_column_blank (hf : IsColumn f) (hr : BreaksOff r) :
    foldAt mayStart (f ++ ' ' :: r) = f ++ ' ' :: foldAt true r :=
  foldAt_operand_blank mayStart (operand?_column hf (endsOperand_blank r).endsName) hr

theorem operand?_placeholder {name : Text} (hname : IsName name) (hr : EndsOperand r) :
    operand? (':' :: name ++ r) = some (':' :: name, r) :=
  operand?_of_pattern? (placeholder?_name hname fun c hc => (hr c hc).1)

theorem foldAt_placeholder_blank {name : Text} (hname : IsName name) (hr : BreaksOff r) :
    foldAt mayStart (':' :: name ++ ' ' :: r) = ':' :: name ++ ' ' :: foldAt true r :=
  foldAt_operand_blank mayStart (operand?_placeholder hname (endsOperand_blank r)) hr

theorem foldAt_placeholder_last {name : Text} (hname : IsName name) (hr : Follows r) :
    ∃ mayStart', foldAt mayStart (':' :: name ++ r) = ':' :: name ++ foldAt mayStart' r :=
  ⟨_, foldAt_operand_last mayStart (operand?_placeholder hname hr.ends) hr⟩

end

/-! ## Words between operands -/

/-- A word with a blank on either side is copied where no comparison goes on behind it. -/
theorem foldAt_joint {w r : Text} (hw : Identifier.IsSegment w) (hr : BreaksOff r)
    (mayStart : Bool) :
    foldAt mayStart (' ' :: (w ++ ' ' :: r)) = ' ' :: (w ++ ' ' :: foldAt true r) := by
  rw [foldAt_blank, foldAt_word_blank true hw hr]

theorem foldAt_sign (sign : Sign) (mayStart : Bool) (r : Text) :
    foldAt mayStart (sign.text.toList ++ ' ' :: r) = sign.text.toList ++ ' ' :: foldAt true r := by
  have hsign : sign.text.toList.all
      (fun c => isQuiet c && (!startsOperand c && isBoundary c)) = true := by
    cases sign <;> decide +kernel
  have hbetween : ∀ c ∈ sign.text.toList,
      isQuiet c = true ∧ startsOperand c = false ∧ isBoundary c = true := fun c hc => by
    simpa using List.all_eq_true.1 hsign c hc
  rw [foldAt_between hbetween, foldAt_blank]

theorem breaksOff_sign (sign : Sign) (r : Text) : BreaksOff (sign.text.toList ++ r) := by
  refine breaksOff_of_head? fun c hc => ?_
  cases sign <;> (cases hc; decide)

/-! ## Comparisons with LIKE -/

section

variable {escape : Char} {r : Text} (hescape : Pattern.isUsableEscape escape = true)
  (hr : Follows r)

include hescape hr

/-- ESCAPE and its literal are copied: behind the literal, no comparison goes on. -/
theorem foldAt_escapeClause (mayStart : Bool) :
    foldAt mayStart (escapeClause escape ++ r) = escapeClause escape ++ foldAt false r := by
  have hquote : escape ≠ '\'' := by
    rintro rfl
    exact absurd hescape (by decide)
  have hnext : r.head? ≠ some '\'' := fun hq => (hr.ends '\'' hq).2.2.2 rfl
  have hbody : literalBody ('\'' :: r) = some (['\''], r) := by
    cases r with
    | nil => rfl
    | cons c r =>
      have hc : c ≠ '\'' := fun hq => hnext (by rw [hq]; rfl)
      simp [literalBody, hc]
  have hliteral : operand? (['\'', escape, '\''] ++ r) = some (['\'', escape, '\''], r) := by
    refine operand?_of_pattern? ?_
    simp [pattern?, literalBody, hquote, hbody]
  have hword := @isSegment_of_checkAlias "ESCAPE" rfl
  have hbreaks : BreaksOff (['\'', escape, '\''] ++ r) := breaksOff_cons (by decide) _
  have hsplit : ∀ z, escapeClause escape ++ z =
      ' ' :: ("ESCAPE".toList ++ ' ' :: (['\'', escape, '\''] ++ z)) := fun _ => rfl
  rw [hsplit, hsplit, foldAt_joint hword hbreaks, foldAt_operand_last true hliteral hr]
  rfl

/-- Of a comparison with LIKE, the column and the placeholder are folded. -/
theorem foldAt_like {column name : Text} (hcolumn : IsColumn column) (hname : IsName name) :
    foldAt true (column ++ (" LIKE :".toList ++ name ++ (escapeClause escape ++ r))) =
      (generated column name).folded ++ (escapeClause escape ++ foldAt false r) := by
  have hread := read?_like (r := escapeClause escape ++ r) hcolumn hname (by
    rintro c ⟨⟩
    decide)
  rw [foldAt_fold hread, foldAt_escapeClause hescape hr]

end

end QueryClauses.Sql.Like
