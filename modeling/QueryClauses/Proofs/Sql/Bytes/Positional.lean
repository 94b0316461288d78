import QueryClauses.Proofs.Sql.Bytes.Survey

/-!
# Numbering placeholders at byte offsets

A statement with numbered placeholders is put together from the slices between the placeholders that
a survey lists. No slice fails, and the statement is the one that is made element by element
(`positional?_eq`).
-/

namespace QueryClauses.Sql.Bytes

open Text Positional

/-- Numbers the placeholders of a list; the text is copied up to offset `last`. The names met before
have the texts `seen`, and `count` numbers are taken. -/
def positionalFrom? (bindings : Bindings) (s : Text) (last : Nat) (seen : List (Text × Text))
    (count : Nat) : List Placeholder → Option (Except Text Positional)
  | [] => (slice? s last (byteLength s)).map fun rest => .ok ⟨rest, []⟩
  | p :: ps => do
    let copied ← slice? s last p.start
    match seen.lookup p.name with
    | some text =>
      let rest ← positionalFrom? bindings s p.stop seen count ps
      return rest.map (followed (copied ++ text) [])
    | none =>
      match bindings[String.ofList p.name]? with
      | none => return .error p.name
      | some v =>
        let values := spread v
        let text := numbered (count + 1) values.length
        let rest ← positionalFrom? bindings s p.stop ((p.name, text) :: seen)
          (count + values.length) ps
        return rest.map (followed (copied ++ text) values)

/-- Numbers the placeholders of a statement, or returns the first name that has no value. -/
def positional? (bindings : Bindings) (s : Text) : Option (Except Text Positional) := do
  let v ← survey? s
  positionalFrom? bindings s 0 [] 0 v.placeholders

theorem map_followed_nil (r : Except Text Positional) : r.map (followed [] []) = r := by
  cases r <;> rfl

theorem map_followed_map_followed (a b : Text) (values values' : List Value)
    (r : Except Text Positional) :
    (r.map (followed b values')).map (followed a values) =
      r.map (followed (a ++ b) (values ++ values')) := by
  cases r with
  | error name => rfl
  | ok p => simp [Except.map, followed]

/-- Numbering by offsets is numbering element by element. Of the text in front of the elements, `a`
is copied already and `b` is still to be copied. -/
theorem positionalFrom?_ofTokens {bindings : Bindings} (a b : Text) (depth : Int) (ts : List Token)
    (seen : List (Text × Text)) (count : Nat) :
    positionalFrom? bindings (a ++ (b ++ textOf ts)) (byteLength a) seen count
        (Survey.ofTokens (byteLength (a ++ b)) depth ts).placeholders =
      some ((Positional.ofTokens bindings seen count ts).map (followed b [])) := by
  induction ts generalizing a b depth seen count with
  | nil =>
    rw [Survey.ofTokens, positionalFrom?, slice?_suffix]
    rfl
  | cons t ts ih =>
    have hsplit : a ++ (b ++ textOf (t :: ts)) = (a ++ b ++ t.text) ++ ([] ++ textOf ts) := by simp
    have hpos : byteLength (a ++ b) + byteLength t.text = byteLength (a ++ b ++ t.text) :=
      (byteLength_append _ _).symm
    rw [placeholders_ofTokens_cons, hpos]
    by_cases hk : t.kind = .placeholder
    · have hcopied : slice? (a ++ (b ++ textOf (t :: ts))) (byteLength a) (byteLength (a ++ b)) =
          some b := by
        rw [byteLength_append]
        exact slice?_append a b _
      have hrest := fun seen count =>
        ih (a ++ b ++ t.text) [] (t.kind.depthAfter depth) seen count
      simp only [← hsplit, List.append_nil] at hrest
      rw [if_pos hk, List.singleton_append, positionalFrom?, hcopied]
      simp only [Option.bind_eq_bind, Option.bind_some, hrest]
      cases hseen : seen.lookup t.text.tail with
      | some text =>
        rw [ofTokens_cons_of_lookup_eq_some hk hseen]
        simp only [map_followed_nil, map_followed_map_followed]
        rfl
      | none =>
        cases hv : bindings[String.ofList t.text.tail]? with
        | none => rw [ofTokens_cons_of_unbound hk hseen hv]; rfl
        | some v =>
          rw [ofTokens_cons_of_bound hk hseen hv]
          simp only [map_followed_nil, map_followed_map_followed]
          rfl
    · have hrest := ih a (b ++ t.text) (t.kind.depthAfter depth) seen count
      rw [if_neg hk, List.nil_append, ofTokens_cons_of_ne hk, map_followed_map_followed]
      simpa only [textOf_cons, List.append_assoc, List.append_nil] using hrest

/-- No slice fails, and the placeholders are numbered as they are element by element. -/
theorem positional?_eq (bindings : Bindings) (s : Text) :
    positional? bindings s = some (positional bindings s) := by
  have h := @positionalFrom?_ofTokens bindings [] [] 0 (lex s) [] 0
  rw [textOf_lex] at h
  rw [map_followed_nil] at h
  rw [positional?, survey?_eq]
  exact h

end QueryClauses.Sql.Bytes
