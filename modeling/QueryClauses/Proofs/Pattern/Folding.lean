import QueryClauses.Proofs.Draft.Run
import QueryClauses.Proofs.Pattern.Matching
import QueryClauses.Proofs.Sql.Like.Folding
import QueryClauses.Proofs.Text.Case

/-!
# Patterns in upper case

Where LIKE tells upper from lower case, a generated comparison is folded: its column and its pattern
are put in upper case, its ESCAPE is not. With an escape character that is no letter, that changes
nothing but the term (`upper_literal`). A letter as escape character is taken for a character of the
term, or one of the term for it. Main statement: folded comparisons say of values in upper case what
the patterns are meant to say exactly if the escape character is no letter
(`holdsFolded_iff_isAlpha_eq_false`); settings may have one (`folded_with_letter`).
-/

namespace QueryClauses

/-- The text with its ASCII letters in upper case. -/
def Text.upper (s : Text) : Text := s.map Char.toUpper

namespace Pattern

/-- Whether a folded comparison holds of a value: both sides are in upper case, the escape character
is as it was. -/
def HoldsFolded (escape : Char) (pattern v : Text) : Prop :=
  Matches escape pattern.upper v.upper

instance (escape : Char) (pattern v : Text) : Decidable (HoldsFolded escape pattern v) :=
  inferInstanceAs (Decidable (Matches escape pattern.upper v.upper))

/-- Folded comparisons with the patterns for a term say of a value what they are meant to say, up to
case: that it contains the term, that it starts with it, or that it has a further word that does. -/
structure FoldsTerm (escape : Char) (term v : Text) : Prop where
  contains : HoldsFolded escape (contains escape term) v ↔ term.upper <:+: v.upper
  startsWith : HoldsFolded escape (startsWith escape term) v ↔ term.upper <+: v.upper
  wordStartsWith :
    HoldsFolded escape (wordStartsWith escape term) v ↔ ' ' :: term.upper <:+: v.upper

/-! ## Escape characters that are no letters -/

section

variable {c : Char} (h : c.isAlpha = false)
include h

/-- Only letters are put in upper case, and they become letters. -/
theorem toUpper_eq_iff {d : Char} : d.toUpper = c ↔ d = c := by
  cases hd : d.isLower with
  | true =>
    have halpha : d.isAlpha = true := isAlpha_of_isLower hd
    have hupper : d.toUpper.isAlpha = true := isAlpha_of_isUpper (isUpper_toUpper hd)
    constructor
    · rintro rfl
      simp [hupper] at h
    · rintro rfl
      simp [halpha] at h
  | false => rw [toUpper_of_isLower_eq_false hd]

theorem toUpper_eq_self : c.toUpper = c := (toUpper_eq_iff h).2 rfl

theorem isSpecial_toUpper (d : Char) : isSpecial c d.toUpper = isSpecial c d := by
  have hpercent := @toUpper_eq_iff '%' (by decide) d
  have hunderscore := @toUpper_eq_iff '_' (by decide) d
  rw [Bool.eq_iff_iff]
  simp [isSpecial, toUpper_eq_iff h, hpercent, hunderscore]

theorem upper_literal (term : Text) : (literal c term).upper = literal c term.upper := by
  induction term with
  | nil => rfl
  | cons d term ih =>
    simp only [literal, List.flatMap_cons, Text.upper, List.map_append, List.map_cons,
      isSpecial_toUpper h] at ih ⊢
    rw [ih]
    cases isSpecial c d <;> simp [toUpper_eq_self h]

theorem upper_startsWith (term : Text) :
    (startsWith c term).upper = startsWith c term.upper := by
  have hliteral := upper_literal h term
  simp only [Text.upper] at hliteral
  simp [startsWith, Text.upper, hliteral]

theorem foldsTerm_of_isAlpha_eq_false (hescape : isUsableEscape c = true) (term v : Text) :
    FoldsTerm c term v := by
  have hstarts := upper_startsWith h term
  have hcontains : (Pattern.contains c term).upper = Pattern.contains c term.upper := by
    rw [Pattern.contains, Pattern.contains, ← hstarts]
    rfl
  have hword : (Pattern.wordStartsWith c term).upper = Pattern.wordStartsWith c term.upper := by
    rw [Pattern.wordStartsWith, Pattern.wordStartsWith, ← hstarts]
    rfl
  constructor
  · rw [HoldsFolded, hcontains, matches_contains_iff hescape]
  · rw [HoldsFolded, hstarts, matches_startsWith_iff hescape]
  · rw [HoldsFolded, hword, matches_wordStartsWith_iff hescape]

end

/-! ## Letters as escape characters -/

/-- A lower-case escape character is not found in the folded pattern: the wildcard behind it is one
again, and a letter of its own stands in front. -/
theorem not_foldsTerm_of_isLower {escape : Char} (h : escape.isLower = true) :
    ¬FoldsTerm escape ['%'] ['%'] := by
  have hspecial : isSpecial escape escape.toUpper = false := by
    have hlower : escape.toUpper.isLower = false :=
      isLower_eq_false_of_isUpper (isUpper_toUpper h)
    refine isSpecial_eq_false_iff.2 ⟨?_, ?_, ?_⟩
    · intro heq
      rw [heq, h] at hlower
      cases hlower
    · exact fun heq => absurd ((toUpper_eq_iff rfl).1 heq) (by rintro rfl; cases h)
    · exact fun heq => absurd ((toUpper_eq_iff rfl).1 heq) (by rintro rfl; cases h)
  intro hfolds
  have hstarts := hfolds.startsWith.2 (List.prefix_refl _)
  have hpattern : (Pattern.startsWith escape ['%']).upper = [escape.toUpper, '%', '%'] := by
    simp [Pattern.startsWith, literal, isSpecial, Text.upper]
  rw [HoldsFolded, hpattern, matches_plain_iff hspecial] at hstarts
  obtain ⟨w, hw, -⟩ := hstarts
  have hhead : escape.toUpper = '%' := (List.cons.inj hw).1.symm
  exact (isSpecial_eq_false_iff.1 hspecial).2.1 hhead

/-- The lower case of an upper-case escape character becomes an escape character in the folded
pattern, and the character behind it is no wildcard any more. -/
theorem not_foldsTerm_of_isUpper {escape : Char} (h : escape.isUpper = true) :
    ¬FoldsTerm escape [escape.toLower] [escape.toLower] := by
  obtain ⟨hlower, hupper⟩ := toUpper_toLower h
  have hspecial : isSpecial escape escape.toLower = false := by
    refine isSpecial_eq_false_iff.2 ⟨?_, ?_, ?_⟩
    · intro heq
      rw [heq, isLower_eq_false_of_isUpper h] at hlower
      cases hlower
    · intro heq
      simp [heq] at hlower
    · intro heq
      simp [heq] at hlower
  have hpercent : escape ≠ '%' := by
    rintro rfl
    simp at h
  intro hfolds
  have hstarts := hfolds.startsWith.2 (List.prefix_refl _)
  have hpattern : (Pattern.startsWith escape [escape.toLower]).upper = [escape, '%'] := by
    simp [Pattern.startsWith, literal, hspecial, Text.upper, hupper]
  rw [HoldsFolded, hpattern, matches_escape_iff] at hstarts
  obtain ⟨w, hw, -⟩ := hstarts
  simp only [Text.upper, List.map_cons, hupper, List.cons.injEq] at hw
  exact hpercent hw.1

/-- A generated comparison is folded to one with its column and its placeholder in upper case. With
the patterns for a term bound to the placeholder, that says of every value what it is meant to say if
the escape character is no letter, and only then. -/
theorem holdsFolded_iff_isAlpha_eq_false {escape : Char}
    (hescape : Settings.checkEscape escape = .ok ()) :
    (∀ column name pattern, Sql.IsColumn column.toList → Sql.IsName name.toList →
      (Dialect.postgres.adapt (Condition.like escape column name pattern).text.toList).1 =
        ("UPPER(" ++ column ++ ") LIKE UPPER(:" ++ name ++ ") ESCAPE '" ++
          String.singleton escape ++ "'").toList) ∧
      ((∀ term v, FoldsTerm escape term v) ↔ escape.isAlpha = false) := by
  have husable := isUsableEscape_of_checkEscape hescape
  constructor
  · intro column name pattern hcolumn hname
    have hfold := Sql.Like.fold_like hcolumn hname husable pattern
    exact congrArg Sql.Like.Folded.text hfold
  · constructor
    · intro hfolds
      refine Bool.or_eq_false_iff.2 ⟨?_, ?_⟩
      · by_contra h
        exact not_foldsTerm_of_isUpper (by simpa using h) (hfolds _ _)
      · by_contra h
        exact not_foldsTerm_of_isLower (by simpa using h) (hfolds _ _)
    · intro h term v
      exact foldsTerm_of_isAlpha_eq_false h husable term v

theorem holdsFolded_iff_sectionSign :
    Settings.checkEscape '§' = .ok () ∧
      (Dialect.postgres.adapt
          (Condition.like '§' "i.name" "s1" (startsWith '§' "50%".toList)).text.toList).1 =
        "UPPER(i.name) LIKE UPPER(:s1) ESCAPE '§'".toList ∧
      FoldsTerm '§' "x_%".toList "X_% rays".toList ∧
      HoldsFolded '§' (startsWith '§' "x_%".toList) "X_% rays".toList := by
  have hescape : Settings.checkEscape '§' = .ok () := rfl
  obtain ⟨htext, hfolds⟩ := holdsFolded_iff_isAlpha_eq_false hescape
  have hcolumn : Sql.IsColumn "i.name".toList := @Sql.isColumn_qualify "i" "name" rfl rfl
  have hname : Sql.IsName "s1".toList := by
    refine ⟨rfl, fun d hd => ?_⟩
    rw [show d = '1' from List.mem_singleton.1 hd]
    rfl
  have hterm := hfolds.2 (by decide) "x_%".toList "X_% rays".toList
  refine ⟨hescape, ?_, hterm, hterm.startsWith.2 (by decide)⟩
  rw [htext _ _ _ hcolumn hname]
  rfl

/-- Settings with a letter as escape character. -/
def letterSettings : Settings := { Draft.itemSettings with escape := 'x' }

/-- With a letter as escape character, which settings may have, a folded statement does not find a
value that has the text asked for: the percent sign that was escaped is a wildcard again, and the
escape character in front of it is looked for in the value. -/
theorem folded_with_letter :
    letterSettings.check = .ok () ∧
      ((Draft.start letterSettings "Item" .native "SELECT i.* FROM items i".toList).addConditions
          [.like "Item" "name" "50%"] none false).toOption.map
        (fun draft => ((letterSettings.dialect.adapt draft.text).1,
          draft.bindings.toList.map fun p => (p.1, p.2.text?))) =
        some ("SELECT i.* FROM items i WHERE (UPPER(i.name) LIKE UPPER(:p1) ESCAPE 'x')".toList,
          [("p1", some "%50x%%")]) ∧
      Text.upper "50%".toList <:+: Text.upper "at 50%".toList ∧
      ¬HoldsFolded 'x' "%50x%%".toList "at 50%".toList := by
  exact ⟨rfl, by decide +kernel, by decide +kernel, by decide +kernel⟩

end Pattern

end QueryClauses
