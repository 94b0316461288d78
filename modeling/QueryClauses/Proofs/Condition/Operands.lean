import QueryClauses.Proofs.Condition.Generation
import QueryClauses.Proofs.Condition.Names
import QueryClauses.Proofs.Sql.Occurrences

/-!
# Conditions as operands strung together

The marks of a list put nothing between its operands but words, blanks and parentheses
(`Strung`): whatever else is in the text of a condition belongs to one of its operands
(`Strung.occurs`), and so do its values and columns.
-/

namespace QueryClauses

open Sql

/-- Whether an element is neither a literal, a quoted identifier, a comment nor a placeholder. -/
def Sql.Token.IsBare (t : Token) : Prop := t.kind.isOpaque = false ∧ t.kind ≠ .placeholder

instance (t : Token) : Decidable t.IsBare := inferInstanceAs (Decidable (_ ∧ _))

namespace Condition

variable {catalog : Catalog} {escape : Char} {supply supply' : NameSupply} {fs : List Filter}
  {c : Condition} {ts a b : List Token} {t : Token}

theorem append_assoc (c d e : Condition) : c ++ d ++ e = c ++ (d ++ e) := by
  show append (append c d) e = append c (append d e)
  simp only [append, String.append_assoc, List.append_assoc]

/-- A condition as its operands, with the names of a supply, as it is made of lexical elements; the
names that are left come last. -/
inductive Strung (catalog : Catalog) (escape : Char) :
    NameSupply → List Filter → Condition → List Token → NameSupply → Prop
  | nil {supply : NameSupply} : Strung catalog escape supply [] {} [] supply
  | mark {supply supply' : NameSupply} {fs : List Filter} {c : Condition} {ts : List Token}
      (text : String) {ms : List Token} (hms : ∀ t ∈ ms, t.IsBare)
      (h : Strung catalog escape supply fs c ts supply') :
      Strung catalog escape supply fs (mark text ++ c) (ms ++ ts) supply'
  | operand {supply supply' : NameSupply} {f : Filter} {fs : List Filter} {c : Condition}
      {ts : List Token} {column : String} {k : Comparison} (hf : f.LooksUp catalog (.ok column))
      (hk : Comparison.of? f.operation f.operand = some k)
      (h : Strung catalog escape (k.written escape column supply).2 fs c ts supply') :
      Strung catalog escape supply (f :: fs) ((k.written escape column supply).1 ++ c)
        (k.tokens escape column.toList supply ++ ts) supply'

theorem isBare_of_mem_implicitOrTokens (behind : Bool) : ∀ t ∈ implicitOrTokens behind, t.IsBare := by
  cases behind <;> decide +kernel

theorem Written.strung {behind : Bool} {es : List Element}
    (h : Written catalog escape behind supply es c ts supply') {pos depth : Nat}
    {preceding : Preceding} {fs : List Filter}
    (hread : Element.readFrom pos depth preceding fs = .ok es) :
    Strung catalog escape supply (Filter.operands fs) c ts supply' := by
  induction h generalizing pos depth preceding fs with
  | nil =>
    cases fs with
    | nil => exact .nil
    | cons f fs =>
      obtain ⟨_, _, _, _, heq, -⟩ := Element.readFrom_cons hread
      cases heq
  | @opening behind _ _ _ _ _ h ih =>
    obtain ⟨f, fs, _, _, rfl, hstep, hread⟩ := Element.readFrom_eq_cons hread
    cases hstep with
    | opening hf =>
      rw [Filter.operands_cons_of_mark (by rw [Filter.symbol, hf]; rfl)]
      refine .mark _ (List.forall_mem_append.2 ⟨isBare_of_mem_implicitOrTokens behind, ?_⟩) (ih hread)
      decide +kernel
  | closing h ih =>
    obtain ⟨f, fs, _, _, rfl, hstep, hread⟩ := Element.readFrom_eq_cons hread
    cases hstep with
    | closing hf =>
      rw [Filter.operands_cons_of_mark (by rw [Filter.symbol, hf]; rfl)]
      exact .mark _ (by decide +kernel) (ih hread)
  | and h ih =>
    obtain ⟨f, fs, _, _, rfl, hstep, hread⟩ := Element.readFrom_eq_cons hread
    cases hstep with
    | and hf =>
      rw [Filter.operands_cons_of_mark (by rw [Filter.symbol, hf]; rfl)]
      exact .mark _ (by decide +kernel) (ih hread)
  | or h ih =>
    obtain ⟨f, fs, _, _, rfl, hstep, hread⟩ := Element.readFrom_eq_cons hread
    cases hstep with
    | or hf =>
      rw [Filter.operands_cons_of_mark (by rw [Filter.symbol, hf]; rfl)]
      exact .mark _ (by decide +kernel) (ih hread)
  | @comparison behind _ _ _ _ _ entity field column k hcolumn h ih =>
    obtain ⟨f, fs, _, _, rfl, hstep, hread⟩ := Element.readFrom_eq_cons hread
    cases hstep with
    | comparison hf hentity hfield hk =>
      have hoperands : Filter.operands (f :: fs) = f :: Filter.operands fs := by
        simp [Filter.operands, hf]
      rw [hoperands, append_assoc, List.append_assoc]
      exact .mark _ (isBare_of_mem_implicitOrTokens behind)
        (.operand ⟨entity, field, hentity, hfield, hcolumn⟩ hk (ih hread))

/-- What the condition of an accepted list is: its operands strung together, with parentheses in
pairs, and with placeholders that are named as its values are. -/
structure Generated (catalog : Catalog) (escape : Char) (supply : NameSupply) (fs : List Filter)
    (c : Condition) (supply' : NameSupply) : Prop where
  strung : Strung catalog escape supply (Filter.operands fs) c (lex c.text.toList) supply'
  balanced : IsBalanced (lex c.text.toList)
  placeholders : placeholderNames c.text.toList = c.names.map String.toList
  draws : supply.Draws c.names supply'

theorem generated_of_generate (hcatalog : catalog.check = .ok ())
    (hescape : Pattern.isUsableEscape escape = true) (hstem : IsName supply.stem.toList)
    (h : generate catalog escape supply fs = (.ok c, supply')) :
    Generated catalog escape supply fs c supply' := by
  rw [generate_eq_ofFilters] at h
  have hdraws := draws_ofFilters h
  unfold ofFilters at h
  cases hread : Element.read fs with
  | error fault =>
    rw [hread] at h
    cases h
  | ok es =>
    rw [hread] at h
    obtain ⟨ts, hwritten⟩ := written_of_ofElements h
    obtain ⟨hwrites, -, -⟩ := hwritten.writes hcatalog hescape hstem
    refine ⟨?_, ?_, ?_, hdraws⟩
    · rw [hwrites.lex_text]
      exact hwritten.strung hread
    · rw [hwrites.lex_text, IsBalanced, hwritten.open?_eq hcatalog]
      exact Element.open?_of_readFrom hread
    · rw [placeholderNames_eq, hwrites.lex_text, hwrites.tidy.names, names, List.map_map]
      rfl

/-! ## Values by name -/

/-- The values of a condition by name. -/
def params (c : Condition) : Bindings := .ofList c.bindings

theorem mem_params_iff {name : String} : name ∈ c.params ↔ name ∈ c.names := by
  rw [params, Std.TreeMap.mem_ofList, List.contains_iff_mem]
  rfl

theorem getElem?_params (h : c.names.Nodup) {name : String} {v : Value}
    (hmem : (name, v) ∈ c.bindings) : c.params[name]? = some v := by
  refine Std.TreeMap.getElem?_ofList_of_mem Std.compare_self ?_ hmem
  exact (List.pairwise_map.1 h).imp fun hne heq => hne (Std.compare_eq_iff_eq.1 heq)

theorem mem_bindings_of_getElem? (h : c.names.Nodup) {name : String} {v : Value}
    (hv : c.params[name]? = some v) : (name, v) ∈ c.bindings := by
  have hname : name ∈ c.params := Std.TreeMap.mem_iff_isSome_getElem?.2 (by rw [hv]; rfl)
  obtain ⟨⟨_, w⟩, hmem, rfl⟩ := List.mem_map.1 (mem_params_iff.1 hname)
  rw [getElem?_params h hmem] at hv
  cases hv
  exact hmem

/-! ## The operand of an element -/

/-- An element of a condition, with what stands in front of it and behind it, belongs to one of the
operands. -/
inductive Occurs (catalog : Catalog) (escape : Char) (fs : List Filter) (c : Condition)
    (a : List Token) (t : Token) (b : List Token) : Prop
  | intro {f : Filter} {column : String} {k : Comparison} {supply : NameSupply}
      {front back : List Token} (hmem : f ∈ fs) (hf : f.LooksUp catalog (.ok column))
      (hk : Comparison.of? f.operation f.operand = some k)
      (htokens : k.tokens escape column.toList supply = front ++ t :: back) (hfront : front <:+ a)
      (hback : back <+: b)
      (hbindings : (k.written escape column supply).1.bindings ⊆ c.bindings)
      (hcolumn : column ∈ c.columns) : Occurs catalog escape fs c a t b

theorem Strung.occurs (h : Strung catalog escape supply fs c ts supply') (ht : ¬ t.IsBare)
    (hts : ts = a ++ t :: b) : Occurs catalog escape fs c a t b := by
  induction h generalizing a with
  | nil => simp at hts
  | mark text hms h ih =>
    rcases append_eq_append_cons hts with ⟨b', rfl, -⟩ | ⟨a', rfl, hrest⟩
    · exact absurd (hms t (by simp)) ht
    · obtain ⟨hmem, hf, hk, htokens, hfront, hback, hbindings, hcolumn⟩ := ih hrest
      exact ⟨hmem, hf, hk, htokens, hfront.trans (List.suffix_append _ _), hback, hbindings, hcolumn⟩
  | @operand supply supply' f fs c ts column k hf hk h ih =>
    rcases append_eq_append_cons hts with ⟨b', htokens, rfl⟩ | ⟨a', rfl, hrest⟩
    · refine ⟨List.mem_cons_self, hf, hk, htokens, List.suffix_rfl, List.prefix_append _ _, ?_, ?_⟩
      · exact List.subset_append_left _ _
      · exact List.mem_append_left _ (by rw [columns_written]; exact List.mem_singleton_self _)
    · obtain ⟨hmem, hf, hk, htokens, hfront, hback, hbindings, hcolumn⟩ := ih hrest
      exact ⟨List.mem_cons_of_mem _ hmem, hf, hk, htokens, hfront.trans (List.suffix_append _ _), hback,
        List.subset_append_of_subset_right _ hbindings, List.mem_append_right _ hcolumn⟩

/-- Every operand of a condition is written in it. -/
theorem Strung.exists_infix (h : Strung catalog escape supply fs c ts supply') {f : Filter}
    (hmem : f ∈ fs) : ∃ column k supply₁ x y, Comparison.of? f.operation f.operand = some k ∧
      ts = x ++ k.tokens escape column.toList supply₁ ++ y ∧
      (k.written escape column supply₁).1.bindings ⊆ c.bindings := by
  induction h with
  | nil => cases hmem
  | @mark _ _ _ _ _ text ms hms h ih =>
    obtain ⟨column, k, supply₁, x, y, hk, rfl, hbindings⟩ := ih hmem
    exact ⟨column, k, supply₁, ms ++ x, y, hk, by simp only [List.append_assoc], hbindings⟩
  | @operand supply _ g _ _ ts column k hf hk h ih =>
    rcases List.mem_cons.1 hmem with rfl | hmem
    · exact ⟨column, k, supply, [], ts, hk, rfl, List.subset_append_left _ _⟩
    · obtain ⟨column', k', supply₁, x, y, hk, rfl, hbindings⟩ := ih hmem
      exact ⟨column', k', supply₁, k.tokens escape column.toList supply ++ x, y, hk,
        by simp only [List.append_assoc], List.subset_append_of_subset_right _ hbindings⟩

end Condition

end QueryClauses
