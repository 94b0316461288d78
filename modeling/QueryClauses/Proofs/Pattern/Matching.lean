import QueryClauses.Settings
import Mathlib.Data.List.Infix

/-!
# What patterns match

`Matches` is LIKE with an escape character as databases define it, a relation because a percent sign
may stand for any text; `matches?` decides it. An escaped term matches itself and nothing else, and in
front of a pattern it takes exactly itself from a value (`matches_literal_append`). So each kind of
pattern matches the values that it is meant for: main statement `matches_iff`.
-/

namespace QueryClauses.Pattern

/-- A pattern and a value that it matches. The escape character comes before the wildcards: what is
behind it stands for itself. At the end of a pattern, where nothing is behind it, it matches nothing. -/
inductive Matches (escape : Char) : Text → Text → Prop
  | nil : Matches escape [] []
  | escaped {c : Char} {p v : Text} (h : Matches escape p v) :
      Matches escape (escape :: c :: p) (c :: v)
  | anyText {p v : Text} (hescape : escape ≠ '%') (u : Text) (h : Matches escape p v) :
      Matches escape ('%' :: p) (u ++ v)
  | anyChar {p v : Text} (hescape : escape ≠ '_') (c : Char) (h : Matches escape p v) :
      Matches escape ('_' :: p) (c :: v)
  | plain {c : Char} {p v : Text} (hc : isSpecial escape c = false) (h : Matches escape p v) :
      Matches escape (c :: p) (c :: v)

section

variable {escape : Char} {p v : Text}

theorem isSpecial_eq_false_iff {c : Char} :
    isSpecial escape c = false ↔ c ≠ escape ∧ c ≠ '%' ∧ c ≠ '_' := by
  simp [isSpecial, and_assoc]

/-! ## The first character of a pattern -/

@[simp] theorem matches_nil_iff : Matches escape [] v ↔ v = [] := by
  constructor
  · rintro ⟨⟩
    rfl
  · rintro rfl
    exact .nil

theorem matches_escape_iff {c : Char} :
    Matches escape (escape :: c :: p) v ↔ ∃ w, v = c :: w ∧ Matches escape p w := by
  constructor
  · intro h
    generalize hq : escape :: c :: p = q at h
    cases h with
    | nil => cases hq
    | escaped h =>
      cases hq
      exact ⟨_, rfl, h⟩
    | anyText hescape u h =>
      cases hq
      exact absurd rfl hescape
    | anyChar hescape c h =>
      cases hq
      exact absurd rfl hescape
    | plain hc h =>
      cases hq
      simp [isSpecial] at hc
  · rintro ⟨w, rfl, h⟩
    exact .escaped h

theorem not_matches_escape : ¬Matches escape [escape] v := by
  intro h
  generalize hq : [escape] = q at h
  cases h with
  | nil => cases hq
  | escaped h => cases hq
  | anyText hescape u h =>
    cases hq
    exact hescape rfl
  | anyChar hescape c h =>
    cases hq
    exact hescape rfl
  | plain hc h =>
    cases hq
    simp [isSpecial] at hc

theorem matches_anyText_iff (hescape : escape ≠ '%') :
    Matches escape ('%' :: p) v ↔ ∃ w, w <:+ v ∧ Matches escape p w := by
  constructor
  · intro h
    generalize hq : '%' :: p = q at h
    cases h with
    | nil => cases hq
    | escaped h =>
      cases hq
      exact absurd rfl hescape
    | anyText _ u h =>
      cases hq
      exact ⟨_, List.suffix_append u _, h⟩
    | anyChar _ c h => cases hq
    | plain hc h =>
      cases hq
      simp [isSpecial] at hc
  · rintro ⟨w, ⟨u, rfl⟩, h⟩
    exact .anyText hescape u h

theorem matches_anyChar_iff (hescape : escape ≠ '_') :
    Matches escape ('_' :: p) v ↔ ∃ c w, v = c :: w ∧ Matches escape p w := by
  constructor
  · intro h
    generalize hq : '_' :: p = q at h
    cases h with
    | nil => cases hq
    | escaped h =>
      cases hq
      exact absurd rfl hescape
    | anyText _ u h => cases hq
    | anyChar _ c h =>
      cases hq
      exact ⟨c, _, rfl, h⟩
    | plain hc h =>
      cases hq
      simp [isSpecial] at hc
  · rintro ⟨c, w, rfl, h⟩
    exact .anyChar hescape c h

theorem matches_plain_iff {c : Char} (hc : isSpecial escape c = false) :
    Matches escape (c :: p) v ↔ ∃ w, v = c :: w ∧ Matches escape p w := by
  obtain ⟨hescape, hpercent, hunderscore⟩ := isSpecial_eq_false_iff.1 hc
  constructor
  · intro h
    generalize hq : c :: p = q at h
    cases h with
    | nil => cases hq
    | escaped h =>
      cases hq
      exact absurd rfl hescape
    | anyText _ u h =>
      cases hq
      exact absurd rfl hpercent
    | anyChar _ d h =>
      cases hq
      exact absurd rfl hunderscore
    | plain _ h =>
      cases hq
      exact ⟨_, rfl, h⟩
  · rintro ⟨w, rfl, h⟩
    exact .plain hc h

end

/-! ## Deciding a match -/

/-- Whether a pattern matches a value. -/
def matches? (escape : Char) : Text → Text → Bool
  | [], v => v.isEmpty
  | c :: p, v =>
    if c = escape then
      match p, v with
      | d :: p, w :: v => d == w && matches? escape p v
      | _, _ => false
    else if c = '%' then v.tails.any (matches? escape p)
    else
      match v with
      | w :: v => (c == '_' || c == w) && matches? escape p v
      | [] => false

theorem matches?_iff {escape : Char} {p v : Text} :
    matches? escape p v = true ↔ Matches escape p v := by
  induction hn : p.length using Nat.strong_induction_on generalizing p v with
  | _ n ih =>
    rcases p with _ | ⟨c, p⟩
    · simp [matches?]
    have ih : ∀ {q w}, q.length < p.length + 1 →
        (matches? escape q w = true ↔ Matches escape q w) := fun hq => ih _ (hn ▸ hq) rfl
    by_cases hescape : c = escape
    · subst hescape
      rcases p with _ | ⟨d, p⟩
      · simp [matches?, not_matches_escape]
      rcases v with _ | ⟨w, v⟩
      · simp [matches?, matches_escape_iff]
      · have hp := ih (q := p) (w := v) (by simp only [List.length_cons]; omega)
        simp [matches?, matches_escape_iff, hp, @eq_comm _ d w]
    have hp : ∀ w, matches? escape p w = true ↔ Matches escape p w := fun w => ih (by omega)
    unfold matches?
    rw [if_neg hescape]
    by_cases hpercent : c = '%'
    · subst hpercent
      simp [matches_anyText_iff (Ne.symm hescape), hp]
    rw [if_neg hpercent]
    by_cases hunderscore : c = '_'
    · subst hunderscore
      rcases v with _ | ⟨w, v⟩ <;> simp [matches_anyChar_iff (Ne.symm hescape), hp]
    · have hplain := isSpecial_eq_false_iff.2 ⟨hescape, hpercent, hunderscore⟩
      rcases v with _ | ⟨w, v⟩ <;>
        simp [hunderscore, matches_plain_iff hplain, hp, @eq_comm _ c]

instance (escape : Char) (p v : Text) : Decidable (Matches escape p v) :=
  decidable_of_iff (matches? escape p v = true) matches?_iff

/-! ## Terms in patterns -/

section

variable {escape : Char}

/-- In front of a pattern, an escaped term takes itself from a value and nothing else. -/
theorem matches_literal_append (term p v : Text) :
    Matches escape (literal escape term ++ p) v ↔ ∃ w, v = term ++ w ∧ Matches escape p w := by
  induction term generalizing v with
  | nil => simp [literal]
  | cons c term ih =>
    cases hc : isSpecial escape c with
    | true =>
      have hcons : literal escape (c :: term) ++ p = escape :: c :: (literal escape term ++ p) := by
        simp [literal, hc]
      simp only [hcons, matches_escape_iff, ih]
      constructor
      · rintro ⟨w, rfl, u, rfl, h⟩
        exact ⟨u, rfl, h⟩
      · rintro ⟨u, rfl, h⟩
        exact ⟨term ++ u, rfl, u, rfl, h⟩
    | false =>
      have hcons : literal escape (c :: term) ++ p = c :: (literal escape term ++ p) := by
        simp [literal, hc]
      simp only [hcons, matches_plain_iff hc, ih]
      constructor
      · rintro ⟨w, rfl, u, rfl, h⟩
        exact ⟨u, rfl, h⟩
      · rintro ⟨u, rfl, h⟩
        exact ⟨term ++ u, rfl, u, rfl, h⟩

theorem matches_literal_iff {term v : Text} :
    Matches escape (literal escape term) v ↔ v = term := by
  have h := @matches_literal_append escape term [] v
  simpa using h

variable (hescape : isUsableEscape escape = true)
include hescape

theorem ne_of_isUsableEscape {c : Char} (hc : isUsableEscape c = false) : escape ≠ c := by
  rintro rfl
  simp [hescape] at hc

theorem matches_startsWith_iff {term v : Text} :
    Matches escape (startsWith escape term) v ↔ term <+: v := by
  have hpercent : escape ≠ '%' := ne_of_isUsableEscape hescape (by decide)
  have hany : ∀ w, Matches escape ['%'] w := fun w =>
    (matches_anyText_iff hpercent).2 ⟨[], List.nil_suffix, .nil⟩
  rw [startsWith, matches_literal_append]
  constructor
  · rintro ⟨w, rfl, -⟩
    exact List.prefix_append term w
  · rintro ⟨w, rfl⟩
    exact ⟨w, rfl, hany w⟩

theorem matches_contains_iff {term v : Text} :
    Matches escape (contains escape term) v ↔ term <:+: v := by
  have hpercent : escape ≠ '%' := ne_of_isUsableEscape hescape (by decide)
  rw [contains, matches_anyText_iff hpercent, List.infix_iff_prefix_suffix]
  simp only [matches_startsWith_iff hescape]
  exact exists_congr fun w => and_comm

theorem matches_wordStartsWith_iff {term v : Text} :
    Matches escape (wordStartsWith escape term) v ↔ ' ' :: term <:+: v := by
  have hspace : escape ≠ ' ' := ne_of_isUsableEscape hescape (by decide)
  have hplain : isSpecial escape ' ' = false :=
    isSpecial_eq_false_iff.2 ⟨hspace.symm, by decide, by decide⟩
  -- A blank needs no escape character, so the pattern is the one of texts that contain the blank
  -- and the term.
  have hcontains : wordStartsWith escape term = contains escape (' ' :: term) := by
    simp [wordStartsWith, contains, startsWith, literal, hplain]
  rw [hcontains, matches_contains_iff hescape]

end

theorem isUsableEscape_of_checkEscape {escape : Char}
    (h : Settings.checkEscape escape = .ok ()) : isUsableEscape escape = true := by
  unfold Settings.checkEscape at h
  split at h
  · assumption
  · cases h

/-- Escaping is exact: with any escape character that settings may have, each kind of pattern for a
term matches the values that it is meant for and no others, whatever characters the term has. -/
theorem matches_iff {escape : Char} (hescape : Settings.checkEscape escape = .ok ())
    (term v : Text) :
    (Matches escape (literal escape term) v ↔ v = term) ∧
      (Matches escape (startsWith escape term) v ↔ term <+: v) ∧
      (Matches escape (contains escape term) v ↔ term <:+: v) ∧
      (Matches escape (wordStartsWith escape term) v ↔ ' ' :: term <:+: v) := by
  have husable := isUsableEscape_of_checkEscape hescape
  exact ⟨matches_literal_iff, matches_startsWith_iff husable, matches_contains_iff husable,
    matches_wordStartsWith_iff husable⟩

/-- A term of wildcards and escape characters: the last value shows that none of them is one. -/
theorem matches_iff_metacharacters :
    Settings.checkEscape '§' = .ok () ∧
      (Matches '§' (literal '§' "50%_§§".toList) "50%_§§".toList ∧
        Matches '§' (wordStartsWith '§' "50%_§§".toList) "at 50%_§§!".toList) ∧
      ¬Matches '§' (contains '§' "50%_§§".toList) "at 50 % §§".toList := by
  have hescape : Settings.checkEscape '§' = .ok () := rfl
  obtain ⟨hliteral, -, -, -⟩ := matches_iff hescape "50%_§§".toList "50%_§§".toList
  obtain ⟨-, -, -, hword⟩ := matches_iff hescape "50%_§§".toList "at 50%_§§!".toList
  obtain ⟨-, -, hcontains, -⟩ := matches_iff hescape "50%_§§".toList "at 50 % §§".toList
  exact ⟨hescape, ⟨hliteral.2 rfl, hword.2 (by decide)⟩, fun h => absurd (hcontains.1 h) (by decide)⟩

end QueryClauses.Pattern
