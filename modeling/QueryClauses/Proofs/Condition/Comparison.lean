import QueryClauses.Condition
import QueryClauses.Proofs.Sql.Names

/-!
# The elements of a comparison

What a comparison is written as is made of the elements of its column, keywords, signs and the
placeholders of its values (`writes_written`): nothing in it lies open, and its parentheses are in
pairs.
-/

namespace QueryClauses

open Sql

/-- The elements that a condition is written as: their placeholders are the ones that are bound. -/
structure Condition.Writes (c : Condition) (ts : List Token) : Prop where
  text : c.text.toList = textOf ts
  tidy : Tidy ts (c.bindings.map (·.1.toList))

namespace Condition

@[simp] theorem text_append (c d : Condition) : (c ++ d).text = c.text ++ d.text := rfl

@[simp] theorem bindings_append (c d : Condition) : (c ++ d).bindings = c.bindings ++ d.bindings :=
  rfl

theorem Writes.lex_text {c : Condition} {ts : List Token} (h : c.Writes ts) :
    lex c.text.toList = ts := by
  rw [h.text]
  exact h.tidy.lexed

theorem names_of_forall₂ {cs : List Condition} {parts : List (List Token)}
    (h : List.Forall₂ Writes cs parts) :
    parts.flatMap namesOf = (cs.flatMap (·.bindings)).map (·.1.toList) ∧
      parts.map textOf = (cs.map (·.text)).map String.toList ∧
      ∀ part ∈ parts, Tidy part (namesOf part) := by
  induction h with
  | nil => exact ⟨rfl, rfl, by simp⟩
  | @cons c part cs parts hc h ih =>
    obtain ⟨hnames, htexts, htidy⟩ := ih
    refine ⟨?_, ?_, ?_⟩
    · rw [List.flatMap_cons, List.flatMap_cons, List.map_append, hnames, hc.tidy.names]
    · rw [List.map_cons, List.map_cons, List.map_cons, htexts, hc.text]
    · intro part' hp
      rcases List.mem_cons.1 hp with rfl | hp
      · exact ⟨hc.tidy.lexed, hc.tidy.tame, rfl⟩
      · exact htidy part' hp

end Condition

/-! ## Keywords and signs -/

/-- Keywords with a blank in front of each. -/
def Sql.keywords (ws : List String) : List Token := ws.flatMap fun w => [blank ' ', word w.toList]

def Sql.quotedEscape (escape : Char) : Token := ⟨.quoted, ['\'', escape, '\'']⟩

/-- The sign of a lower bound or of an upper bound, with a blank on either side. -/
def Sql.atMost : List Token := [blank ' ', single '<', single '=', blank ' ']

def Condition.likeTokens (escape : Char) (column name : Text) : List Token :=
  lex column ++ (keywords ["LIKE"] ++ [blank ' ']) ++ [placeholder name] ++
    (keywords ["ESCAPE"] ++ [blank ' ']) ++ [quotedEscape escape]

namespace Comparison

/-- The elements of a comparison. -/
def tokens (escape : Char) (column : Text) (supply : NameSupply) : Comparison → List Token
  | isNull => lex column ++ keywords ["IS", "NULL"]
  | isNotNull => lex column ++ keywords ["IS", "NOT", "NULL"]
  | compares sign _ =>
    lex column ++ (blank ' ' :: sign.text.toList.map single ++ [blank ' ']) ++
      [placeholder supply.next.1.toList]
  | contains _ => Condition.likeTokens escape column supply.next.1.toList
  | between _ _ =>
    [parenOpen] ++ [placeholder supply.next.1.toList] ++ atMost ++ lex column ++
      (keywords ["AND"] ++ [blank ' ']) ++ lex column ++ atMost ++
      [placeholder supply.next.2.next.1.toList] ++ [parenClose]
  | isIn _ =>
    lex column ++ (keywords ["IN"] ++ [blank ' ', parenOpen]) ++
      [placeholder supply.next.1.toList] ++ [parenClose]

end Comparison

/-! ## Comparisons -/

section

variable {escape : Char} {column : String} (hcolumn : IsColumn column.toList)
  (hescape : Pattern.isUsableEscape escape = true)

theorem Sql.tidy_quotedEscape (hescape : Pattern.isUsableEscape escape = true) :
    Tidy [quotedEscape escape] [] := by
  have h₁ : escape ≠ '\'' := by
    rintro rfl
    exact absurd hescape (by decide)
  have h₂ : escape ≠ '\n' := by
    rintro rfl
    exact absurd hescape (by decide)
  have hcount : [escape, '\''].count '\'' = 1 := by simp [h₁]
  refine ⟨?_, ?_, rfl⟩
  · refine lex_eq_cons_iff.2 ⟨'\'', [escape, '\''], [], rfl, .quoted (.inl rfl) ?_, lex_nil⟩
    simp [munchQuoted, h₁]
  · simp [Token.isTame, Token.isClosed, quotedEscape, hcount, Ne.symm h₂]

theorem Sql.tidy_of_eval {ts : List Token}
    (h : lex (textOf ts) = ts ∧ (∀ t ∈ ts, t.isTame = true) ∧ namesOf ts = []) : Tidy ts [] :=
  ⟨h.1, h.2.1, h.2.2⟩

include hescape hcolumn

theorem Condition.writes_like {name : String} (hname : IsName name.toList) (pattern : Text) :
    (Condition.like escape column name pattern).Writes
      (likeTokens escape column.toList name.toList) where
  text := by simp [like, likeTokens, keywords, placeholder, word, blank, quotedEscape]
  tidy := by
    have hlike : Tidy (keywords ["LIKE"] ++ [blank ' ']) [] := tidy_of_eval (by decide +kernel)
    have hesc : Tidy (keywords ["ESCAPE"] ++ [blank ' ']) [] := tidy_of_eval (by decide +kernel)
    have h₁ := hcolumn.tidy.append_of_beginsApart hlike (beginsApart_cons rfl _)
    have h₂ := h₁.append_of_leavesOff (tidy_placeholder hname) (LeavesOff.append (.inl rfl) _)
    have h₃ := h₂.append_of_beginsApart hesc (beginsApart_cons rfl _)
    exact h₃.append_of_leavesOff (tidy_quotedEscape hescape) (LeavesOff.append (.inl rfl) _)

/-- What a comparison is written as. -/
theorem Comparison.writes_written {supply : NameSupply} (hstem : IsName supply.stem.toList)
    (k : Comparison) :
    (k.written escape column supply).1.Writes (k.tokens escape column.toList supply) := by
  have hname := isName_name hstem (supply.count + 1)
  cases k with
  | isNull =>
    have hwords : Tidy (keywords ["IS", "NULL"]) [] := tidy_of_eval (by decide +kernel)
    exact ⟨by simp [written, tokens, keywords, word, blank],
      hcolumn.tidy.append_of_beginsApart hwords (beginsApart_cons rfl _)⟩
  | isNotNull =>
    have hwords : Tidy (keywords ["IS", "NOT", "NULL"]) [] := tidy_of_eval (by decide +kernel)
    exact ⟨by simp [written, tokens, keywords, word, blank],
      hcolumn.tidy.append_of_beginsApart hwords (beginsApart_cons rfl _)⟩
  | compares sign v =>
    have hsign : Tidy (blank ' ' :: sign.text.toList.map single ++ [blank ' ']) [] := by
      cases sign <;> exact tidy_of_eval (by decide +kernel)
    have h₁ := hcolumn.tidy.append_of_beginsApart hsign (beginsApart_cons rfl _)
    refine ⟨?_, h₁.append_of_leavesOff (tidy_placeholder hname) ?_⟩
    · cases sign <;> simp [written, tokens, placeholder, blank, single, Sign.text]
    · exact LeavesOff.append (LeavesOff.append (.inl rfl) _) _
  | contains s => exact Condition.writes_like hcolumn hescape hname _
  | between low high =>
    have hname' := isName_name hstem (supply.count + 1 + 1)
    have hatMost : Tidy atMost [] := tidy_of_eval (by decide +kernel)
    have hand : Tidy (keywords ["AND"] ++ [blank ' ']) [] := tidy_of_eval (by decide +kernel)
    have hopen : Tidy [parenOpen] [] := tidy_of_eval (by decide +kernel)
    have hclose : Tidy [parenClose] [] := tidy_of_eval (by decide +kernel)
    have h₁ := hopen.append_of_leavesOff (tidy_placeholder hname) (.inr rfl)
    have h₂ := h₁.append_of_beginsApart hatMost (beginsApart_cons rfl _)
    have h₃ := h₂.append_of_leavesOff hcolumn.tidy (LeavesOff.append (.inl rfl) _)
    have h₄ := h₃.append_of_beginsApart hand (beginsApart_cons rfl _)
    have h₅ := h₄.append_of_leavesOff hcolumn.tidy (LeavesOff.append (.inl rfl) _)
    have h₆ := h₅.append_of_beginsApart hatMost (beginsApart_cons rfl _)
    have h₇ := h₆.append_of_leavesOff (tidy_placeholder hname') (LeavesOff.append (.inl rfl) _)
    refine ⟨?_, h₇.append_of_beginsApart hclose (beginsApart_cons rfl _)⟩
    simp [written, tokens, keywords, atMost, placeholder, word, blank, single, parenOpen, parenClose]
  | isIn vs =>
    have hin : Tidy (keywords ["IN"] ++ [blank ' ', parenOpen]) [] := tidy_of_eval (by decide +kernel)
    have hclose : Tidy [parenClose] [] := tidy_of_eval (by decide +kernel)
    have h₁ := hcolumn.tidy.append_of_beginsApart hin (beginsApart_cons rfl _)
    have h₂ := h₁.append_of_leavesOff (tidy_placeholder hname) (LeavesOff.append (.inr rfl) _)
    refine ⟨?_, h₂.append_of_beginsApart hclose (beginsApart_cons rfl _)⟩
    simp [written, tokens, keywords, placeholder, word, blank, parenOpen, parenClose]

end

theorem Comparison.open?_tokens (escape : Char) {column : Text} (hcolumn : IsColumn column)
    (supply : NameSupply) (k : Comparison) (n : Nat) :
    open? n (k.tokens escape column supply) = some n := by
  have hcolumn' := hcolumn.open?_lex
  cases k with
  | compares sign v =>
    cases sign <;>
      simp [tokens, open?_append, hcolumn', open?, blank, single, placeholder, Sign.text]
  | _ =>
    simp [tokens, Condition.likeTokens, open?_append, hcolumn', open?, keywords, atMost, blank, word,
      single, placeholder, quotedEscape, parenOpen, parenClose]

theorem Comparison.stem_written (escape : Char) (column : String) (supply : NameSupply)
    (k : Comparison) : (k.written escape column supply).2.stem = supply.stem := by
  cases k <;> rfl

end QueryClauses
