import QueryClauses.Proofs.Condition.Text
import QueryClauses.Proofs.Filter.Grammar
import QueryClauses.Proofs.Sql.Expression

/-!
# The meaning of a condition

The text of a condition, read as a boolean expression, has the tree of the list of filters that it
was written for, and its atoms are what the operands of the list are written as, in order
(`parse_ofFilters`).
-/

namespace QueryClauses

open Sql

/-! ## Comparisons as atoms -/

namespace Comparison

/-- A range is written in parentheses that a placeholder follows directly. -/
theorem tokens_between (escape : Char) {column : Text} (h : IsColumn column) (supply : NameSupply)
    (low high : Value) :
    ∃ name inner, tokens escape column supply (between low high) =
        parenOpen :: (placeholder name :: inner ++ [parenClose]) ∧
      ∀ t ∈ placeholder name :: inner, t.kind ≠ .opening ∧ t.kind ≠ .closing := by
  have hatMost : ∀ t ∈ atMost, t.kind ≠ .opening ∧ t.kind ≠ .closing := by decide
  have hand : ∀ t ∈ keywords ["AND"] ++ [blank ' '], t.kind ≠ .opening ∧ t.kind ≠ .closing := by
    decide
  refine ⟨supply.next.1.toList, atMost ++ lex column ++ (keywords ["AND"] ++ [blank ' ']) ++
    lex column ++ atMost ++ [placeholder supply.next.2.next.1.toList], by simp [tokens], ?_⟩
  rw [← List.singleton_append]
  simp only [List.forall_mem_append] at hand ⊢
  exact ⟨kind_placeholder _, ⟨⟨⟨⟨hatMost, h.kind_ne⟩, hand⟩, h.kind_ne⟩, hatMost⟩,
    kind_placeholder _⟩

/-- What a comparison is written as is an atom. -/
theorem symbolsFrom_tokens (k : Comparison) (escape : Char) {column : Text} (h : IsColumn column)
    (supply : NameSupply) (rest : List Token) :
    symbolsFrom [] 0 (k.tokens escape column supply ++ rest) =
        symbolsFrom (textOf (k.tokens escape column supply)) 0 rest ∧
      Begun (textOf (k.tokens escape column supply)) := by
  cases k with
  | isNull => exact symbolsFrom_column_append h (by decide) rest
  | isNotNull => exact symbolsFrom_column_append h (by decide) rest
  | compares sign v =>
    rw [tokens, List.append_assoc (lex column)]
    refine symbolsFrom_column_append h (List.forall_mem_append.2 ⟨?_, isPlain_placeholder _⟩) rest
    cases sign <;> decide
  | contains s =>
    rw [tokens, Condition.likeTokens, List.append_assoc (lex column),
      List.append_assoc (lex column), List.append_assoc (lex column)]
    refine symbolsFrom_column_append h ?_ rest
    have hlike : ∀ t ∈ keywords ["LIKE"] ++ [blank ' '], t.isPlain = true := by decide
    have hesc : ∀ t ∈ keywords ["ESCAPE"] ++ [blank ' '], t.isPlain = true := by decide
    simp only [List.forall_mem_append]
    refine ⟨⟨⟨List.forall_mem_append.1 hlike, isPlain_placeholder _⟩,
      List.forall_mem_append.1 hesc⟩, ?_⟩
    simp [Token.isPlain, quotedEscape]
  | between low high =>
    obtain ⟨name, inner, htokens, hinner⟩ := tokens_between escape h supply low high
    have hsymbols := symbolsFrom_enclosed hinner ([] ++ ['(']) rest
    rw [← symbolsFrom_inner (.inr ⟨name, rfl⟩)] at hsymbols
    have htext : textOf (tokens escape column supply (between low high)) =
        [] ++ ['('] ++ textOf (placeholder name :: inner) ++ [')'] := by
      rw [htokens]
      simp [parenOpen, parenClose]
    refine ⟨?_, ?_⟩
    · rw [htext, ← hsymbols, htokens]
      simp
    · rw [htext]
      exact ⟨'(', _, rfl, by decide⟩
  | isIn vs =>
    have hin : ∀ t ∈ keywords ["IN"] ++ [blank ' '], t.isPlain = true := by decide
    obtain ⟨hsymbols, hbegun⟩ := symbolsFrom_column_append h hin
      (parenOpen :: ([placeholder supply.next.1.toList] ++ parenClose :: rest))
    rw [symbolsFrom_inner (.inl hbegun), symbolsFrom_enclosed (kind_placeholder _)] at hsymbols
    have htext : textOf (tokens escape column supply (isIn vs)) =
        textOf (lex column ++ (keywords ["IN"] ++ [blank ' '])) ++ ['('] ++
          textOf [placeholder supply.next.1.toList] ++ [')'] := by
      simp [tokens, parenOpen, parenClose]
    rw [htext, ← hsymbols]
    exact ⟨by simp [tokens], ((hbegun.append _).append _).append _⟩

/-- What a comparison is written as does not end with white space. -/
theorem trimEnd_textOf_tokens (k : Comparison) (escape : Char) (column : Text)
    {supply : NameSupply} (hstem : IsName supply.stem.toList) :
    Text.trimEnd (textOf (k.tokens escape column supply)) =
      textOf (k.tokens escape column supply) := by
  obtain ⟨last, hlast, hspace⟩ := exists_getLast?_of_isName (isName_name hstem (supply.count + 1))
  cases k with
  | isNull =>
    refine trimEnd_of_getLast? (c := 'L') ?_ (by decide)
    simp [tokens, keywords, word, blank, List.getLast?_append]
  | isNotNull =>
    refine trimEnd_of_getLast? (c := 'L') ?_ (by decide)
    simp [tokens, keywords, word, blank, List.getLast?_append]
  | compares sign v =>
    refine trimEnd_of_getLast? ?_ hspace
    simp only [tokens, placeholder, textOf_append, NameSupply.next, textOf_cons, textOf_nil,
      List.append_nil, List.getLast?_append, List.getLast?_cons, hlast]
    rfl
  | contains s =>
    refine trimEnd_of_getLast? (c := '\'') ?_ (by decide)
    simp [tokens, Condition.likeTokens, quotedEscape, List.getLast?_append]
  | between low high =>
    refine trimEnd_of_getLast? (c := ')') ?_ (by decide)
    simp [tokens, parenClose, List.getLast?_append]
  | isIn vs =>
    refine trimEnd_of_getLast? (c := ')') ?_ (by decide)
    simp [tokens, parenClose, List.getLast?_append]

theorem head?_tokens (k : Comparison) (escape : Char) {column : Text} (h : IsColumn column)
    (supply : NameSupply) (ts : List Token) :
    (k.tokens escape column supply ++ ts).head?.all (·.kind != .placeholder) = true := by
  obtain ⟨w, u, hlex⟩ := h.lex_eq_cons
  cases k <;> simp [tokens, Condition.likeTokens, hlex, word, parenOpen]

end Comparison

namespace Condition

variable {catalog : Catalog} {escape : Char}

/-- What filters are written as, each on its own with the names that the one before has left. -/
def renderings (catalog : Catalog) (escape : Char) : NameSupply → List Filter → List Text
  | _, [] => []
  | supply, f :: fs =>
    let (result, supply) := ofFilters catalog escape supply [f]
    result.toOption.toList.map (·.text.toList) ++ renderings catalog escape supply fs

theorem renderings_cons {supply : NameSupply} {f : Filter} {entity field column : String}
    {k : Comparison} (hf : f.operation.isMark = false) (hentity : f.entity = some entity)
    (hfield : f.field = some field) (hk : Comparison.of? f.operation f.operand = some k)
    (hcolumn : catalog.column entity field = .ok column) (fs : List Filter) :
    renderings catalog escape supply (f :: fs) =
      (k.written escape column supply).1.text.toList ::
        renderings catalog escape (k.written escape column supply).2 fs := by
  have hcomparison : Element.comparisonOf 0 f = .ok (.comparison entity field k) := by
    simp only [Element.comparisonOf, hentity, hfield, hk]
  have hread : Element.read [f] = .ok [.comparison entity field k] := by
    simp only [Element.read, Element.readFrom, hcomparison]
    cases hop : f.operation <;> first | rfl | (rw [hop] at hf; cases hf)
  have hwritten : ofFilters catalog escape supply [f] =
      (.ok (mark (implicitOr false) ++ (k.written escape column supply).1 ++ {}),
        (k.written escape column supply).2) := by
    simp only [ofFilters, hread, ofElements, hcolumn]
    rfl
  rw [renderings, hwritten]
  simp [mark, implicitOr, Except.toOption]

/-! ## The symbols of a condition -/

theorem symbolsFrom_implicitOr {behind : Bool} {atom : Text}
    (hatom : atom = [] ∨ behind = true ∧ Begun atom) (ts : List Token) :
    symbolsFrom atom 0 (implicitOrTokens behind ++ ts) =
      atomOf atom ++ ((if behind then [.or] else []) ++ symbolsFrom [] 0 ts) := by
  cases behind with
  | false =>
    obtain rfl : atom = [] := by simpa using hatom
    rfl
  | true =>
    have hjoint := symbolsFrom_joint joint?_or (hatom.imp id And.right) ts
    simpa [implicitOrTokens, keywords] using hjoint

theorem Written.head? {supply supply' : NameSupply} {es : List Element} {c : Condition}
    {ts : List Token} (h : Written catalog escape false supply es c ts supply')
    (hcatalog : catalog.check = .ok ()) : ts.head?.all (·.kind != .placeholder) = true := by
  cases h with
  | nil | opening h | closing h | and h | or h => rfl
  | comparison hcolumn h =>
    exact Comparison.head?_tokens _ _ (isColumn_of_column hcatalog hcolumn) _ _

/-- Elements that are written for filters, behind an operand or not, and symbols: those of the
filters, with what the operands are written as in place of the operands. -/
structure Renders (catalog : Catalog) (escape : Char) (behind : Bool) (supply : NameSupply)
    (fs : List Filter) (ts : List Token) (ss : List (Boolean.Symbol Text)) : Prop where
  symbols : ∀ atom, atom = [] ∨ behind = true ∧ Begun atom →
    symbolsFrom atom 0 ts = atomOf atom ++ Boolean.Symbol.withOmitted behind ss
  shape : ss.map Boolean.Symbol.shape = (fs.map Filter.symbol).map Boolean.Symbol.shape
  atoms : ss.filterMap Boolean.Symbol.atom? = renderings catalog escape supply (Filter.operands fs)

section Renders

variable {behind : Bool} {supply : NameSupply} {f : Filter} {fs : List Filter} {ts : List Token}
  {ss : List (Boolean.Symbol Text)}

/-- A joint or a closing parenthesis ends the atom in front of it. -/
theorem Renders.mark (s : Boolean.Symbol Text) (front : List Token)
    (h : Renders catalog escape s.endsTerm supply fs ts ss) (hs : s.shape = f.symbol.shape)
    (hatom : s.atom? = none) (hbegins : s.beginsTerm = false)
    (hfront : ∀ atom, atom = [] ∨ Begun atom →
      symbolsFrom atom 0 (front ++ ts) = atomOf atom ++ s :: symbolsFrom [] 0 ts) :
    Renders catalog escape behind supply (f :: fs) (front ++ ts) (s :: ss) where
  symbols := by
    intro atom hatom
    rw [hfront atom (hatom.imp id And.right), h.symbols [] (.inl rfl),
      Boolean.Symbol.withOmitted, hbegins, Bool.and_false]
    rfl
  shape := by rw [List.map_cons, List.map_cons, List.map_cons, hs, h.shape]
  atoms := by
    have hmark : f.symbol.atom? = none := by
      cases s <;> cases hatom <;> cases hf : f.symbol <;> first | rfl | (rw [hf] at hs; cases hs)
    rw [List.filterMap_cons_none hatom, h.atoms, Filter.operands_cons_of_mark hmark]

/-- A parenthesis opens a group, behind OR if an operand is in front of it. -/
theorem Renders.opening (h : Renders catalog escape false supply fs ts ss)
    (hf : f.symbol = .opening) (hhead : ts.head?.all (·.kind != .placeholder) = true) :
    Renders catalog escape behind supply (f :: fs) (implicitOrTokens behind ++ [parenOpen] ++ ts)
      (.opening :: ss) where
  symbols := by
    intro atom hatom
    rw [List.append_assoc, symbolsFrom_implicitOr hatom, List.singleton_append,
      symbolsFrom_opening hhead, h.symbols [] (.inl rfl), Boolean.Symbol.withOmitted,
      Boolean.Symbol.beginsTerm, Bool.and_true]
    rfl
  shape := by
    rw [List.map_cons, List.map_cons, List.map_cons, hf, h.shape]
    rfl
  atoms := by
    have hmark : f.symbol.atom? = none := by
      rw [hf]
      rfl
    rw [List.filterMap_cons_none rfl, h.atoms, Filter.operands_cons_of_mark hmark]

/-- A comparison is an atom, behind OR if an operand is in front of it. -/
theorem Renders.comparison {entity field column : String} {k : Comparison}
    (h : Renders catalog escape true (k.written escape column supply).2 fs ts ss)
    (hcatalog : catalog.check = .ok ()) (hescape : Pattern.isUsableEscape escape = true)
    (hstem : IsName supply.stem.toList) (hf : f.operation.isMark = false)
    (hentity : f.entity = some entity) (hfield : f.field = some field)
    (hk : Comparison.of? f.operation f.operand = some k)
    (hcolumn : catalog.column entity field = .ok column) :
    Renders catalog escape behind supply (f :: fs)
      (implicitOrTokens behind ++ k.tokens escape column.toList supply ++ ts)
      (.atom (k.written escape column supply).1.text.toList :: ss) where
  symbols := by
    intro atom hatom
    have hcol := isColumn_of_column hcatalog hcolumn
    obtain ⟨hsymbols, hbegun⟩ := k.symbolsFrom_tokens escape hcol supply ts
    rw [List.append_assoc, symbolsFrom_implicitOr hatom, hsymbols, h.symbols _ (.inr ⟨rfl, hbegun⟩),
      atomOf_of_trimEnd hbegun (k.trimEnd_textOf_tokens escape _ hstem),
      (k.writes_written hcol hescape hstem).text, Boolean.Symbol.withOmitted,
      Boolean.Symbol.beginsTerm, Bool.and_true]
    rfl
  shape := by
    rw [List.map_cons, List.map_cons, List.map_cons, Filter.symbol_of_isMark_eq_false hf, h.shape]
    rfl
  atoms := by
    have hoperands : Filter.operands (f :: fs) = f :: Filter.operands fs := by
      rw [Filter.operands, List.filter_cons, hf]
      rfl
    rw [hoperands, renderings_cons hf hentity hfield hk hcolumn, ← h.atoms]
    rfl

end Renders

/-- What is written for filters has their symbols, with renderings of the operands as atoms. -/
theorem Written.renders {behind : Bool} {supply supply' : NameSupply} {es : List Element}
    {c : Condition} {ts : List Token} (h : Written catalog escape behind supply es c ts supply')
    (hcatalog : catalog.check = .ok ()) (hescape : Pattern.isUsableEscape escape = true)
    (hstem : IsName supply.stem.toList) {pos depth : Nat} {preceding : Preceding}
    {fs : List Filter} (hread : Element.readFrom pos depth preceding fs = .ok es) :
    ∃ ss, Renders catalog escape behind supply fs ts ss := by
  induction h generalizing pos depth preceding fs with
  | nil =>
    cases fs with
    | nil => exact ⟨[], fun atom _ => (List.append_nil _).symm, rfl, rfl⟩
    | cons f fs =>
      obtain ⟨_, _, _, _, hnil, -⟩ := Element.readFrom_cons hread
      cases hnil
  | opening h ih =>
    obtain ⟨f, fs, _, _, rfl, hstep, hread⟩ := Element.readFrom_eq_cons hread
    obtain ⟨ss, hss⟩ := ih hstem hread
    cases hstep with
    | opening hf => exact ⟨_, hss.opening (by rw [Filter.symbol, hf]) (h.head? hcatalog)⟩
  | closing h ih =>
    obtain ⟨f, fs, _, _, rfl, hstep, hread⟩ := Element.readFrom_eq_cons hread
    obtain ⟨ss, hss⟩ := ih hstem hread
    cases hstep with
    | closing hf =>
      have hshape : (Boolean.Symbol.closing : Boolean.Symbol Text).shape = f.symbol.shape := by
        rw [Filter.symbol, hf]
        rfl
      exact ⟨_, .mark .closing [parenClose] hss hshape rfl rfl fun atom _ => rfl⟩
  | and h ih =>
    obtain ⟨f, fs, _, _, rfl, hstep, hread⟩ := Element.readFrom_eq_cons hread
    obtain ⟨ss, hss⟩ := ih hstem hread
    cases hstep with
    | and hf =>
      have hshape : (Boolean.Symbol.and : Boolean.Symbol Text).shape = f.symbol.shape := by
        rw [Filter.symbol, hf]
        rfl
      refine ⟨_, .mark .and (keywords ["AND"] ++ [blank ' ']) hss hshape rfl rfl ?_⟩
      exact fun atom hatom => symbolsFrom_joint joint?_and hatom _
  | or h ih =>
    obtain ⟨f, fs, _, _, rfl, hstep, hread⟩ := Element.readFrom_eq_cons hread
    obtain ⟨ss, hss⟩ := ih hstem hread
    cases hstep with
    | or hf =>
      have hshape : (Boolean.Symbol.or : Boolean.Symbol Text).shape = f.symbol.shape := by
        rw [Filter.symbol, hf]
        rfl
      refine ⟨_, .mark .or (keywords ["OR"] ++ [blank ' ']) hss hshape rfl rfl ?_⟩
      exact fun atom hatom => symbolsFrom_joint joint?_or hatom _
  | @comparison behind supply supply' es c ts entity field column k hcolumn h ih =>
    obtain ⟨f, fs, _, _, rfl, hstep, hread⟩ := Element.readFrom_eq_cons hread
    obtain ⟨ss, hss⟩ := ih (by rwa [k.stem_written]) hread
    cases hstep with
    | comparison hf hentity hfield hk =>
      exact ⟨_, hss.comparison hcatalog hescape hstem hf hentity hfield hk hcolumn⟩

/-- The text of the condition of an accepted list, parsed as a boolean expression, has the tree that
the list has, in which an omitted joint is OR; its atoms are what the operands of the list are
written as, each once and in order. -/
theorem parse_ofFilters {count : Nat} {supply' : NameSupply} {fs : List Filter} {c : Condition}
    (hcatalog : catalog.check = .ok ()) (hescape : Pattern.isUsableEscape escape = true)
    (h : ofFilters catalog escape { NameSupply.forFilters with count } fs = (.ok c, supply'))
    (hne : fs ≠ []) :
    c.text ≠ "" ∧ ∃ t t', Boolean.parse (Filter.expression fs) = some t ∧
      Boolean.parse (Sql.expression c.text.toList) = some t' ∧ t'.shape = t.shape ∧
      t.leaves = Filter.operands fs ∧
      t'.leaves = renderings catalog escape { NameSupply.forFilters with count }
        (Filter.operands fs) := by
  have hnil : Boolean.parse (Sql.expression []) = none := by
    rw [Sql.expression, lex_nil]
    rfl
  unfold ofFilters at h
  cases hread : Element.read fs with
  | error fault =>
    rw [hread] at h
    cases h
  | ok es =>
    rw [hread] at h
    obtain ⟨ts, hwritten⟩ := written_of_ofElements h
    obtain ⟨hwrites, -, -⟩ := hwritten.writes hcatalog hescape isName_p
    obtain ⟨ss, hss⟩ := hwritten.renders hcatalog hescape isName_p hread
    have hexpression : Sql.expression c.text.toList = Boolean.Symbol.withOmitted false ss := by
      rw [Sql.expression, hwrites.lex_text, hss.symbols [] (.inl rfl)]
      rfl
    have hshape : (Boolean.Symbol.withOmitted false ss).map Boolean.Symbol.shape =
        (Filter.expression fs).map Boolean.Symbol.shape := by
      rw [Filter.expression, Boolean.Symbol.map_shape_withOmitted,
        Boolean.Symbol.map_shape_withOmitted, hss.shape]
    obtain ⟨t, ht⟩ := Element.parse_expression hread hne
    have hreads := Boolean.parse_eq_some_iff.1 ht
    obtain ⟨t', hreads', hsame⟩ := hreads.of_shape hshape
    have ht' := Boolean.parse_eq_some_iff.2 hreads'
    refine ⟨?_, t, t', ht, by rw [hexpression, ht'], hsame, ?_, ?_⟩
    · intro hempty
      rw [← hexpression, hempty, String.toList_empty, hnil] at ht'
      cases ht'
    · rw [hreads.leaves_eq, Filter.filterMap_expression]
    · rw [hreads'.leaves_eq, Boolean.Symbol.filterMap_withOmitted, hss.atoms]

def itemCatalog : Catalog := Catalog.insert {} "Item" { tableAlias := "i" }

/-- A list in which a joint is omitted between two operands, behind a range and in front of a group,
and with a field that is named like a joint. -/
def mixedFilters : List Filter :=
  [.eq "Item" "a" (.int 1), .opening, .like "Item" "b" "x", .and, .ne "Item" "and" .null, .closing,
    .between "Item" "c" (.int 2) (.int 3), .and, .opening, .opening, .isIn "Item" "d" [.int 4],
    .closing, .gt "Item" "or.e" (.int 5), .closing]

theorem parse_mixedFilters :
    (itemCatalog.check = .ok () ∧ Pattern.isUsableEscape '§' = true ∧ mixedFilters ≠ []) ∧
    ∃ c supply', ofFilters itemCatalog '§' { NameSupply.forFilters with count := 6 } mixedFilters =
        (.ok c, supply') ∧
      c.text = "i.a = :p7 OR (i.b LIKE :p8 ESCAPE '§' AND i.and IS NOT NULL) OR " ++
        "(:p9 <= i.c AND i.c <= :p10) AND ((i.d IN (:p11)) OR i.or.e > :p12)" ∧
      ∃ t t', Boolean.parse (Filter.expression mixedFilters) = some t ∧
        Boolean.parse (Sql.expression c.text.toList) = some t' ∧ t'.shape = t.shape ∧
        t.shape = .or (.or (.leaf ()) (.and (.leaf ()) (.leaf ())))
          (.and (.leaf ()) (.or (.leaf ()) (.leaf ()))) := by
  have hcatalog : itemCatalog.check = .ok () := rfl
  have hescape : Pattern.isUsableEscape '§' = true := by decide
  have hne : mixedFilters ≠ [] := List.cons_ne_nil _ _
  refine ⟨⟨hcatalog, hescape, hne⟩, ?_⟩
  have htext : (ofFilters itemCatalog '§' { NameSupply.forFilters with count := 6 }
      mixedFilters).1.toOption.map (·.text) =
        some ("i.a = :p7 OR (i.b LIKE :p8 ESCAPE '§' AND i.and IS NOT NULL) OR " ++
          "(:p9 <= i.c AND i.c <= :p10) AND ((i.d IN (:p11)) OR i.or.e > :p12)") := by
    decide +kernel
  have hshape : (Boolean.parse (Filter.expression mixedFilters)).map Boolean.Tree.shape =
      some (.or (.or (.leaf ()) (.and (.leaf ()) (.leaf ())))
        (.and (.leaf ()) (.or (.leaf ()) (.leaf ())))) := by
    decide +kernel
  cases hof : ofFilters itemCatalog '§' { NameSupply.forFilters with count := 6 } mixedFilters with
  | mk result supply' =>
    rw [hof] at htext
    cases result with
    | error failure => cases htext
    | ok c =>
      obtain ⟨-, t, t', ht, ht', hsame, -⟩ := parse_ofFilters hcatalog hescape hof hne
      rw [ht] at hshape
      exact ⟨c, supply', rfl, Option.some.inj htext, t, t', ht, ht', hsame, Option.some.inj hshape⟩

end Condition

end QueryClauses
