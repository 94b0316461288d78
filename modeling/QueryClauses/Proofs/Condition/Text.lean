import QueryClauses.Proofs.Condition.Comparison
import QueryClauses.Proofs.Filter.Reading

/-!
# The elements of a condition

A list of filters that is accepted is written element by element (`Written`), so that what is written
has the elements of the parts (`Written.writes`), and parentheses in pairs where the filters have
them (`Written.open?_eq`). Main statement: `writes_ofFilters`.
-/

namespace QueryClauses

open Sql

namespace Condition

/-- The elements of OR where an operand would otherwise follow another. -/
def implicitOrTokens (behindOperand : Bool) : List Token :=
  if behindOperand then keywords ["OR"] ++ [blank ' '] else []

/-- How the elements of a list are written: behind an operand or not, with the names of a supply, as
a condition made of the lexical elements listed; the names that are left come last. -/
inductive Written (catalog : Catalog) (escape : Char) :
    Bool → NameSupply → List Element → Condition → List Token → NameSupply → Prop
  | nil {behind : Bool} {supply : NameSupply} :
      Written catalog escape behind supply [] {} [] supply
  | opening {behind : Bool} {supply supply' : NameSupply} {es : List Element} {c : Condition}
      {ts : List Token} (h : Written catalog escape false supply es c ts supply') :
      Written catalog escape behind supply (.opening :: es)
        (mark (implicitOr behind ++ "(") ++ c) (implicitOrTokens behind ++ [parenOpen] ++ ts) supply'
  | closing {behind : Bool} {supply supply' : NameSupply} {es : List Element} {c : Condition}
      {ts : List Token} (h : Written catalog escape true supply es c ts supply') :
      Written catalog escape behind supply (.closing :: es) (mark ")" ++ c) ([parenClose] ++ ts)
        supply'
  | and {behind : Bool} {supply supply' : NameSupply} {es : List Element} {c : Condition}
      {ts : List Token} (h : Written catalog escape false supply es c ts supply') :
      Written catalog escape behind supply (.and :: es) (mark " AND " ++ c)
        (keywords ["AND"] ++ [blank ' '] ++ ts) supply'
  | or {behind : Bool} {supply supply' : NameSupply} {es : List Element} {c : Condition}
      {ts : List Token} (h : Written catalog escape false supply es c ts supply') :
      Written catalog escape behind supply (.or :: es) (mark " OR " ++ c)
        (keywords ["OR"] ++ [blank ' '] ++ ts) supply'
  | comparison {behind : Bool} {supply supply' : NameSupply} {es : List Element} {c : Condition}
      {ts : List Token} {entity field column : String} {k : Comparison}
      (hcolumn : catalog.column entity field = .ok column)
      (h : Written catalog escape true (k.written escape column supply).2 es c ts supply') :
      Written catalog escape behind supply (.comparison entity field k :: es)
        (mark (implicitOr behind) ++ (k.written escape column supply).1 ++ c)
        (implicitOrTokens behind ++ k.tokens escape column.toList supply ++ ts) supply'

variable {catalog : Catalog} {escape : Char}

theorem written_of_ofElements {behind : Bool} {supply supply' : NameSupply} {es : List Element}
    {c : Condition} (h : ofElements catalog escape behind supply es = (.ok c, supply')) :
    ∃ ts, Written catalog escape behind supply es c ts supply' := by
  induction es generalizing behind supply c with
  | nil =>
    cases h
    exact ⟨[], .nil⟩
  | cons e es ih =>
    -- What follows the first element is written on its own.
    have hrest : ∀ {p : Condition} {b : Bool} {supply₁ : NameSupply},
        ((ofElements catalog escape b supply₁ es).1.map (p ++ ·),
          (ofElements catalog escape b supply₁ es).2) = (.ok c, supply') →
        ∃ d ts, c = p ++ d ∧ Written catalog escape b supply₁ es d ts supply' := by
      intro p b supply₁ heq
      cases hof : ofElements catalog escape b supply₁ es with
      | mk result supply₂ =>
        rw [hof] at heq
        cases result with
        | error failure => cases heq
        | ok d =>
          cases heq
          obtain ⟨ts, hts⟩ := ih hof
          exact ⟨d, ts, rfl, hts⟩
    cases e with
    | opening =>
      obtain ⟨d, ts, rfl, hts⟩ := hrest h
      exact ⟨_, .opening hts⟩
    | closing =>
      obtain ⟨d, ts, rfl, hts⟩ := hrest h
      exact ⟨_, .closing hts⟩
    | and =>
      obtain ⟨d, ts, rfl, hts⟩ := hrest h
      exact ⟨_, .and hts⟩
    | or =>
      obtain ⟨d, ts, rfl, hts⟩ := hrest h
      exact ⟨_, .or hts⟩
    | comparison entity field k =>
      simp only [ofElements] at h
      cases hcolumn : catalog.column entity field with
      | error failure =>
        rw [hcolumn] at h
        cases h
      | ok column =>
        rw [hcolumn] at h
        obtain ⟨d, ts, rfl, hts⟩ := hrest h
        exact ⟨_, .comparison hcolumn hts⟩

/-! ## The elements of the text -/

theorem tidy_implicitOrTokens_append (behind : Bool) {ts : List Token} {names : List Text}
    (h : Tidy ts names) : Tidy (implicitOrTokens behind ++ ts) names := by
  cases behind with
  | false => exact h
  | true =>
    have hor : Tidy (keywords ["OR"] ++ [blank ' ']) [] := tidy_of_eval (by decide +kernel)
    exact hor.append_of_leavesOff h (LeavesOff.append (.inl rfl) _)

theorem toList_implicitOr (behind : Bool) :
    (implicitOr behind).toList = textOf (implicitOrTokens behind) := by
  cases behind <;> rfl

/-- A condition has the elements of its parts, and behind an operand it stands apart from it. -/
theorem Written.writes {behind : Bool} {supply supply' : NameSupply} {es : List Element}
    {c : Condition} {ts : List Token} (h : Written catalog escape behind supply es c ts supply')
    (hcatalog : catalog.check = .ok ()) (hescape : Pattern.isUsableEscape escape = true)
    (hstem : IsName supply.stem.toList) :
    c.Writes ts ∧ (behind = true → BeginsApart (textOf ts)) ∧ supply'.stem = supply.stem := by
  induction h with
  | nil => exact ⟨⟨rfl, lex_nil, by simp, rfl⟩, fun _ c hc => by simp at hc, rfl⟩
  | @opening behind supply supply' es c ts h ih =>
    obtain ⟨hc, -, hstem'⟩ := ih hstem
    have hopen : Tidy [parenOpen] [] := tidy_of_eval (by decide +kernel)
    have htidy := (tidy_implicitOrTokens_append behind hopen).append_of_leavesOff hc.tidy
      (LeavesOff.append (.inr rfl) _)
    refine ⟨⟨?_, htidy⟩, ?_, hstem'⟩
    · simp [mark, hc.text, toList_implicitOr, parenOpen]
    · rintro rfl
      exact beginsApart_cons rfl _
  | @closing behind supply supply' es c ts h ih =>
    obtain ⟨hc, hapart, hstem'⟩ := ih hstem
    have hclose : Tidy [parenClose] [] := tidy_of_eval (by decide +kernel)
    refine ⟨⟨?_, hclose.append_of_beginsApart hc.tidy (hapart rfl)⟩, fun _ => ?_, hstem'⟩
    · simp [mark, hc.text, parenClose]
    · exact beginsApart_cons rfl _
  | @and behind supply supply' es c ts h ih =>
    obtain ⟨hc, -, hstem'⟩ := ih hstem
    have hand : Tidy (keywords ["AND"] ++ [blank ' ']) [] := tidy_of_eval (by decide +kernel)
    refine ⟨⟨?_, hand.append_of_leavesOff hc.tidy (LeavesOff.append (.inl rfl) _)⟩, fun _ => ?_,
      hstem'⟩
    · simp [mark, hc.text, keywords, word, blank]
    · exact beginsApart_cons rfl _
  | @or behind supply supply' es c ts h ih =>
    obtain ⟨hc, -, hstem'⟩ := ih hstem
    have hor : Tidy (keywords ["OR"] ++ [blank ' ']) [] := tidy_of_eval (by decide +kernel)
    refine ⟨⟨?_, hor.append_of_leavesOff hc.tidy (LeavesOff.append (.inl rfl) _)⟩, fun _ => ?_,
      hstem'⟩
    · simp [mark, hc.text, keywords, word, blank]
    · exact beginsApart_cons rfl _
  | @comparison behind supply supply' es c ts entity field column k hcolumn h ih =>
    have hcol := isColumn_of_column hcatalog hcolumn
    have hstem₁ := k.stem_written escape column supply
    obtain ⟨hc, hapart, hstem'⟩ := ih (by rwa [hstem₁])
    have hk := k.writes_written hcol hescape hstem
    have htidy := (tidy_implicitOrTokens_append behind hk.tidy).append_of_beginsApart
      hc.tidy (hapart rfl)
    refine ⟨⟨?_, ?_⟩, ?_, by rw [hstem', hstem₁]⟩
    · simp [mark, hk.text, hc.text, toList_implicitOr]
    · simpa [mark] using htidy
    · rintro rfl
      exact beginsApart_cons rfl _

/-! ## Parentheses -/

theorem Written.open?_eq {behind : Bool} {supply supply' : NameSupply} {es : List Element}
    {c : Condition} {ts : List Token} (h : Written catalog escape behind supply es c ts supply')
    (hcatalog : catalog.check = .ok ()) (n : Nat) : Sql.open? n ts = Element.open? n es := by
  induction h generalizing n with
  | nil => rfl
  | @opening behind supply supply' es c ts h ih =>
    have hor : Sql.open? n (implicitOrTokens behind) = some n := by cases behind <;> rfl
    simp [Sql.open?_append, hor, Sql.open?, Element.open?, parenOpen, ih]
  | closing h ih =>
    simp only [Sql.open?_append, Sql.open?, Element.open?, parenClose]
    by_cases hn : n = 0
    · simp [hn]
    · simp [hn, ih]
  | and h ih => exact ih n
  | or h ih => exact ih n
  | @comparison behind supply supply' es c ts entity field column k hcolumn h ih =>
    have hor : Sql.open? n (implicitOrTokens behind) = some n := by cases behind <;> rfl
    have hk := k.open?_tokens escape (isColumn_of_column hcatalog hcolumn) supply n
    simp [Sql.open?_append, hor, hk, Element.open?, ih]

/-! ## Conditions of filters -/

/-- The condition of an accepted list of filters: its elements, of which the parentheses are in
pairs. -/
theorem writes_ofFilters {supply supply' : NameSupply} {fs : List Filter} {c : Condition}
    (hcatalog : catalog.check = .ok ()) (hescape : Pattern.isUsableEscape escape = true)
    (hstem : IsName supply.stem.toList)
    (h : ofFilters catalog escape supply fs = (.ok c, supply')) :
    ∃ ts, c.Writes ts ∧ IsBalanced ts ∧ supply'.stem = supply.stem := by
  unfold ofFilters at h
  cases hread : Element.read fs with
  | error fault =>
    rw [hread] at h
    cases h
  | ok es =>
    rw [hread] at h
    obtain ⟨ts, hwritten⟩ := written_of_ofElements h
    obtain ⟨hwrites, -, hstem'⟩ := hwritten.writes hcatalog hescape hstem
    refine ⟨ts, hwrites, ?_, hstem'⟩
    rw [IsBalanced, hwritten.open?_eq hcatalog]
    exact Element.open?_of_readFrom hread

end Condition

end QueryClauses
