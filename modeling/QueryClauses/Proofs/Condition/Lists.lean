import QueryClauses.Proofs.Condition.Expression
import QueryClauses.Proofs.Condition.Operands

/-!
# Lists as values of a condition

A list can be bound only where IN takes it: elsewhere its items would be written one behind the other
where one value belongs, and a list among its items would be bound as one value. An operand of IN is
a list, but the items of that list are not looked at when filters are checked, nor are the bounds of
a range. Lists are bound where they belong exactly if none of these is a list (`lists_bound_iff`).
-/

namespace QueryClauses

open Sql

/-- That no bound of a range and no item of a list is a list. -/
def Operand.isFlat : Operand → Bool
  | absent => true
  | single (.list vs) | list vs => vs.all fun v => !v.isList
  | single _ => true
  | range low high => !low.isList && !high.isList

/-- A list with items none of which is a list. -/
def Value.IsFlatList (v : Value) : Prop :=
  ∃ items, v = .list items ∧ items ≠ [] ∧ ∀ w ∈ items, w.isList = false

namespace Condition

/-- That a placeholder stands alone in the parentheses behind a column and IN. -/
def InList (c : Condition) (p : Placeholder) : Prop :=
  ∃ column ∈ c.columns, ∃ front back,
    c.text.toList =
      front ++ column.toList ++ " IN (".toList ++ (':' :: p.name) ++ ")".toList ++ back ∧
    p.start = Text.byteLength (front ++ column.toList ++ " IN (".toList)

/-- That each value is no list, or a flat list whose placeholders all stand in lists. -/
def BindsLists (c : Condition) : Prop :=
  ∀ (name : String) (v : Value), c.params[name]? = some v → v.isList = false ∨
    v.IsFlatList ∧ ∀ p ∈ (survey c.text.toList).placeholders, p.name = name.toList → c.InList p

/-- That by position no list is bound, and a placeholder outside lists becomes one number. -/
def SpreadsLists (c : Condition) : Prop :=
  ∃ p written, positional c.params c.text.toList = .ok p ∧
    p.sql = Positional.replaced written c.text.toList 0 (survey c.text.toList).placeholders ∧
    (∀ v ∈ p.values, v.isList = false) ∧
    ∀ q ∈ (survey c.text.toList).placeholders, c.InList q ∨ ∃ k, written q.name = Positional.mark k

end Condition

theorem Value.isList_toBound (v : Value) : v.toBound.isList = v.isList := by
  cases v <;> rfl

theorem Value.isList_of_mem_map_toBound {vs : List Value} (h : ∀ v ∈ vs, v.isList = false) :
    ∀ w ∈ vs.map toBound, w.isList = false := by
  intro w hw
  obtain ⟨v, hv, rfl⟩ := List.mem_map.1 hw
  rw [isList_toBound]
  exact h v hv

/-! ## The placeholders of a comparison -/

theorem Sql.kind_ne_of_namesOf_eq_nil {ts : List Token} (h : namesOf ts = []) {t : Token}
    (ht : t ∈ ts) : t.kind ≠ .placeholder := by
  intro hk
  have hmem : t ∈ ts.filter (·.kind == .placeholder) := List.mem_filter.2 ⟨ht, by rw [hk]; rfl⟩
  rw [List.map_eq_nil_iff.1 h] at hmem
  cases hmem

/-- The only placeholder of a list of elements is where it is. -/
theorem Sql.eq_of_kind_placeholder {x z front back : List Token} {u t : Token}
    (hx : namesOf x = []) (hz : namesOf z = []) (ht : t.kind = .placeholder)
    (h : x ++ u :: z = front ++ t :: back) : x = front ∧ u = t ∧ z = back :=
  (List.append_cons_inj_of_notMem (fun hmem => kind_ne_of_namesOf_eq_nil hx hmem ht)
    fun hmem => kind_ne_of_namesOf_eq_nil hz hmem ht).1 h

namespace Comparison

variable {escape : Char} {column : String} {supply : NameSupply} {k : Comparison}

/-- A placeholder of a comparison has a value, and stands in parentheses of its own if it belongs to
IN. -/
theorem binds_of_placeholder (hcolumn : IsColumn column.toList) {front back : List Token}
    {t : Token} (ht : t.kind = .placeholder)
    (h : k.tokens escape column.toList supply = front ++ t :: back) :
    ∃ name v, t = placeholder name.toList ∧ (name, v) ∈ (k.written escape column supply).1.bindings ∧
      ∀ vs, k = isIn vs →
        front = lex column.toList ++ (keywords ["IN"] ++ [blank ' ', parenOpen]) ∧
          back = [parenClose] := by
  have hlex := hcolumn.namesOf_lex
  have hnone (hnames : namesOf (k.tokens escape column.toList supply) = []) : False :=
    kind_ne_of_namesOf_eq_nil hnames (by rw [h]; simp) ht
  cases k with
  | isNull | isNotNull =>
    refine (hnone ?_).elim
    rw [tokens, namesOf_append, hlex]
    rfl
  | compares sign v =>
    have hx : namesOf (lex column.toList ++
        (blank ' ' :: sign.text.toList.map single ++ [blank ' '])) = [] := by
      rw [namesOf_append, hlex]
      cases sign <;> rfl
    obtain ⟨-, rfl, -⟩ := eq_of_kind_placeholder hx rfl ht h
    exact ⟨_, _, rfl, List.mem_singleton_self _, fun _ heq => by cases heq⟩
  | contains s =>
    have hx : namesOf (lex column.toList ++ (keywords ["LIKE"] ++ [blank ' '])) = [] := by
      rw [namesOf_append, hlex]
      rfl
    rw [tokens, Condition.likeTokens, List.append_assoc, List.append_assoc,
      List.singleton_append] at h
    obtain ⟨-, rfl, -⟩ := eq_of_kind_placeholder hx rfl ht h
    exact ⟨_, _, rfl, List.mem_singleton_self _, fun _ heq => by cases heq⟩
  | between low high =>
    have hmid : namesOf (atMost ++ lex column.toList ++ (keywords ["AND"] ++ [blank ' ']) ++
        lex column.toList ++ atMost) = [] := by
      simp only [namesOf_append, hlex]
      rfl
    rw [tokens, List.append_assoc _ _ [parenClose], List.singleton_append] at h
    rcases append_eq_append_cons h with ⟨back', h, -⟩ | ⟨front', -, h⟩
    · simp only [List.append_assoc, List.singleton_append] at h hmid
      obtain ⟨-, rfl, -⟩ := eq_of_kind_placeholder (show namesOf [parenOpen] = [] from rfl) hmid ht h
      exact ⟨_, _, rfl, List.mem_cons_self, fun _ heq => by cases heq⟩
    · obtain ⟨-, rfl, -⟩ :=
        eq_of_kind_placeholder (show namesOf [] = [] from rfl) (show namesOf [parenClose] = [] from rfl)
          ht h
      exact ⟨_, _, rfl, List.mem_cons_of_mem _ List.mem_cons_self, fun _ heq => by cases heq⟩
  | isIn vs =>
    have hx : namesOf (lex column.toList ++ (keywords ["IN"] ++ [blank ' ', parenOpen])) = [] := by
      rw [namesOf_append, hlex]
      rfl
    rw [tokens, List.append_assoc _ _ [parenClose], List.singleton_append] at h
    obtain ⟨hfront, rfl, hback⟩ := eq_of_kind_placeholder hx rfl ht h
    exact ⟨_, _, rfl, List.mem_singleton_self _, fun _ _ => ⟨hfront.symm, hback.symm⟩⟩

/-- A comparison of an operand in which no list lies deeper than IN takes it binds a list only if it
is that of IN. -/
theorem isList_of_isFlat {operation : Operation} {operand : Operand}
    (hk : of? operation operand = some k) (hflat : operand.isFlat = true) {name : String} {v : Value}
    (hmem : (name, v) ∈ (k.written escape column supply).1.bindings) :
    v.isList = false ∨ v.IsFlatList ∧ ∃ vs, k = isIn vs := by
  cases of?_eq_some_iff.1 hk with
  | isNull | isNotNull => cases hmem
  | compares hsign hnull hlist =>
    cases List.mem_singleton.1 hmem
    rw [Value.isList_toBound]
    exact .inl hlist
  | contains s =>
    cases List.mem_singleton.1 hmem
    exact .inl rfl
  | @between low high hlow hhigh =>
    simp only [Operand.isFlat, Bool.and_eq_true, Bool.not_eq_true'] at hflat
    rcases List.mem_cons.1 hmem with heq | hmem
    · cases heq
      rw [Value.isList_toBound]
      exact .inl hflat.1
    · cases List.mem_singleton.1 hmem
      rw [Value.isList_toBound]
      exact .inl hflat.2
  | @isIn vs hne | @isInSingle vs hne =>
    cases List.mem_singleton.1 hmem
    simp only [Operand.isFlat, List.all_eq_true, Bool.not_eq_true'] at hflat
    exact .inr ⟨⟨_, rfl, by simpa using hne, Value.isList_of_mem_map_toBound hflat⟩, vs, rfl⟩

end Comparison

/-! ## Where a placeholder stands -/

theorem Sql.eq_of_byteLength_eq {x y u v : Text} (h : x ++ u = y ++ v)
    (hlength : Text.byteLength x = Text.byteLength y) : x = y ∧ u = v := by
  have hx := Text.takeBytes_byteLength_append x u
  rw [h, hlength, Text.takeBytes_byteLength_append] at hx
  subst hx
  exact ⟨rfl, List.append_cancel_left h⟩

namespace Condition

variable {catalog : Catalog} {escape : Char} {supply supply' : NameSupply} {fs : List Filter}
  {c : Condition}

/-- A placeholder in a list has parentheses on either side. -/
theorem InList.surrounds {p : Placeholder} (h : c.InList p) {a b : List Token} {t : Token}
    (hlex : lex c.text.toList = a ++ t :: b) (ht : t.text = ':' :: p.name)
    (hstart : p.start = Text.byteLength (textOf a)) :
    (textOf a).getLast? = some '(' ∧ (textOf b).head? = some ')' := by
  obtain ⟨column, -, front, back, htext, hpos⟩ := h
  rw [← textOf_lex c.text.toList, hlex, textOf_append, textOf_cons, ht, List.append_assoc _ _ back,
    List.append_assoc _ (':' :: p.name)] at htext
  obtain ⟨hfront, hrest⟩ := eq_of_byteLength_eq htext (hstart.symm.trans hpos)
  rw [hfront, List.append_cancel_left hrest]
  refine ⟨?_, rfl⟩
  rw [List.getLast?_append]
  rfl

/-- Where lists are bound only where they belong, a value is no list if its placeholder is not
enclosed in parentheses. -/
theorem BindsLists.isList_eq_false (h : c.BindsLists) (hnodup : c.names.Nodup) {name : String}
    {v : Value} (hmem : (name, v.toBound) ∈ c.bindings) {a b : List Token}
    (hlex : lex c.text.toList = a ++ placeholder name.toList :: b)
    (hopen : (textOf a).getLast? ≠ some '(' ∨ (textOf b).head? ≠ some ')') : v.isList = false := by
  rcases h name _ (getElem?_params hnodup hmem) with hlist | ⟨-, hplaced⟩
  · rwa [Value.isList_toBound] at hlist
  · obtain ⟨ha, hb⟩ := (hplaced _ (mem_placeholders hlex rfl) rfl).surrounds hlex rfl rfl
    rcases hopen with hopen | hopen
    · exact absurd ha hopen
    · exact absurd hb hopen

/-- Where lists are bound only where they belong, no bound of a range and no item of a list is a
list. -/
theorem BindsLists.isFlat (h : c.BindsLists) (hgenerated : Generated catalog escape supply fs c supply')
    {f : Filter} (hmem : f ∈ Filter.operands fs) : f.operand.isFlat = true := by
  obtain ⟨column, k, supply₁, x, y, hk, hlex, hbindings⟩ := hgenerated.strung.exists_infix hmem
  have hnodup := hgenerated.draws.nodup
  obtain ⟨entity, field, operation, operand⟩ := f
  cases Comparison.of?_eq_some_iff.1 hk with
  | isNull | isNotNull | contains => rfl
  | @compares _ _ v _ _ hlist =>
    cases v with
    | list vs => cases hlist
    | _ => rfl
  | @between low high hlow hhigh =>
    -- a blank stands behind the placeholder of the lower bound, and in front of that of the upper
    obtain ⟨b, hlowAt⟩ : ∃ b, lex c.text.toList =
        (x ++ [parenOpen]) ++ placeholder supply₁.next.1.toList :: blank ' ' :: b := by
      refine ⟨[single '<', single '=', blank ' '] ++ lex column.toList ++
        (keywords ["AND"] ++ [blank ' ']) ++ lex column.toList ++ atMost ++
        [placeholder supply₁.next.2.next.1.toList] ++ [parenClose] ++ y, ?_⟩
      rw [hlex]
      simp [Comparison.tokens, atMost]
    obtain ⟨a, b', hhighAt⟩ : ∃ a b', lex c.text.toList =
        (a ++ [blank ' ']) ++ placeholder supply₁.next.2.next.1.toList :: b' := by
      refine ⟨x ++ [parenOpen] ++ [placeholder supply₁.next.1.toList] ++ atMost ++
        lex column.toList ++ (keywords ["AND"] ++ [blank ' ']) ++ lex column.toList ++
        [blank ' ', single '<', single '='], [parenClose] ++ y, ?_⟩
      rw [hlex]
      simp [Comparison.tokens, atMost]
    have hbehind : (textOf (blank ' ' :: b)).head? ≠ some ')' := by
      rw [textOf_cons]
      simp [blank]
    have hfront : (textOf (a ++ [blank ' '])).getLast? ≠ some '(' := by
      rw [textOf_append]
      simp [blank]
    have hlow : low.isList = false :=
      h.isList_eq_false hnodup (hbindings List.mem_cons_self) hlowAt (.inr hbehind)
    have hhigh : high.isList = false :=
      h.isList_eq_false hnodup (hbindings (List.mem_cons_of_mem _ List.mem_cons_self)) hhighAt
        (.inl hfront)
    simp only [Operand.isFlat, hlow, hhigh]
    rfl
  | @isIn vs hne | @isInSingle vs hne =>
    rcases h _ _ (getElem?_params hnodup (hbindings List.mem_cons_self)) with hlist | ⟨hflat, -⟩
    · cases hlist
    · obtain ⟨items, heq, -, hitems⟩ := hflat
      cases heq
      simp only [Operand.isFlat, List.all_eq_true, Bool.not_eq_true']
      intro v hv
      have := hitems _ (List.mem_map_of_mem hv)
      rwa [Value.isList_toBound] at this

/-- If no list lies deeper than IN takes it, every placeholder has a value that is no list, or a flat
list that the placeholder stands for in a list. -/
theorem Generated.placed (h : Generated catalog escape supply fs c supply')
    (hcatalog : catalog.check = .ok ()) (hflat : ∀ f ∈ Filter.operands fs, f.operand.isFlat = true)
    {p : Placeholder} (hp : p ∈ (survey c.text.toList).placeholders) :
    ∃ (name : String) (v : Value), p.name = name.toList ∧ c.params[name]? = some v ∧
      (v.isList = false ∨ v.IsFlatList ∧ c.InList p) := by
  obtain ⟨a, t, b, hlex, ht, hname, hstart, -⟩ := exists_of_mem_placeholders hp
  have hbare : ¬ t.IsBare := fun hbare => hbare.2 ht
  obtain @⟨f, column, k, supply₁, front, back, hmem, ⟨entity, field, -, -, hcolumn⟩, hk, htokens,
    ⟨x, rfl⟩, ⟨y, rfl⟩, hbindings, hmemColumn⟩ := h.strung.occurs hbare hlex
  have hcolumn := isColumn_of_column hcatalog hcolumn
  obtain ⟨name, v, rfl, hv, hin⟩ := Comparison.binds_of_placeholder hcolumn ht htokens
  refine ⟨name, v, hname, getElem?_params h.draws.nodup (hbindings hv), ?_⟩
  rcases Comparison.isList_of_isFlat hk (hflat f hmem) hv with hlist | ⟨hvflat, vs, hkin⟩
  · exact .inl hlist
  obtain ⟨rfl, rfl⟩ := hin vs hkin
  have hkeyword : textOf (keywords ["IN"] ++ [blank ' ', parenOpen]) = " IN (".toList := by
    decide +kernel
  have hfront : textOf (x ++ (lex column.toList ++ (keywords ["IN"] ++ [blank ' ', parenOpen]))) =
      textOf x ++ column.toList ++ " IN (".toList := by
    rw [textOf_append, textOf_append, hkeyword, textOf_lex, List.append_assoc]
  refine .inr ⟨hvflat, column, hmemColumn, textOf x, textOf y, ?_, ?_⟩
  · rw [← textOf_lex c.text.toList, hlex, textOf_append, hfront, textOf_cons, textOf_append, hname]
    simp [placeholder, parenClose]
  · rw [hstart, hfront]

theorem Generated.bindsLists (h : Generated catalog escape supply fs c supply')
    (hcatalog : catalog.check = .ok ())
    (hflat : ∀ f ∈ Filter.operands fs, f.operand.isFlat = true) : c.BindsLists := by
  intro name v hv
  have hplaced {p : Placeholder} (hp : p ∈ (survey c.text.toList).placeholders)
      (hname : p.name = name.toList) : v.isList = false ∨ v.IsFlatList ∧ c.InList p := by
    obtain ⟨name', v', hname', hv', hcases⟩ := h.placed hcatalog hflat hp
    rw [hname, String.toList_inj] at hname'
    rw [← hname', hv] at hv'
    cases hv'
    exact hcases
  have hmem : name.toList ∈ placeholderNames c.text.toList := by
    rw [h.placeholders]
    exact List.mem_map_of_mem
      (List.mem_map_of_mem (mem_bindings_of_getElem? h.draws.nodup hv))
  obtain ⟨p, hp, hname⟩ := List.mem_map.1 hmem
  by_cases hlist : v.isList = false
  · exact .inl hlist
  · exact .inr ⟨((hplaced hp hname).resolve_left hlist).1,
      fun q hq hqname => ((hplaced hq hqname).resolve_left hlist).2⟩

/-! ## By position -/

end Condition

theorem Sql.Positional.exists_of_mem_values {bindings : Bindings} {seen : List (Text × Text)}
    {count : Nat} {ts : List Token} {p : Positional}
    (h : ofTokens bindings seen count ts = .ok p) {w : Value} (hw : w ∈ p.values) :
    ∃ (name : String) (v : Value), bindings[name]? = some v ∧ w ∈ spread v := by
  induction ts generalizing seen count p with
  | nil =>
    cases h
    cases hw
  | cons t ts ih =>
    by_cases hk : t.kind = .placeholder
    · cases hseen : seen.lookup t.text.tail with
      | some text =>
        rw [ofTokens_cons_of_lookup_eq_some hk hseen] at h
        obtain ⟨rest, hrest, rfl⟩ := map_eq_ok_iff.1 h
        exact ih hrest hw
      | none =>
        cases hv : bindings[String.ofList t.text.tail]? with
        | none =>
          rw [ofTokens_cons_of_unbound hk hseen hv] at h
          cases h
        | some v =>
          rw [ofTokens_cons_of_bound hk hseen hv] at h
          obtain ⟨rest, hrest, rfl⟩ := map_eq_ok_iff.1 h
          rcases List.mem_append.1 hw with hw | hw
          · exact ⟨_, v, hv, hw⟩
          · exact ih hrest hw
    · rw [ofTokens_cons_of_ne hk] at h
      obtain ⟨rest, hrest, rfl⟩ := map_eq_ok_iff.1 h
      exact ih hrest hw

/-- No number of a value that is no list, or a flat one, is that of a list. -/
theorem Sql.Positional.isList_of_mem_spread {v w : Value} (h : v.isList = false ∨ v.IsFlatList)
    (hw : w ∈ spread v) : w.isList = false := by
  rcases h with hlist | ⟨items, rfl, -, hitems⟩
  · have hbound : v.toBound.isList = false := by rw [Value.isList_toBound, hlist]
    rw [spread_of_isList_eq_false hbound] at hw
    rwa [List.mem_singleton.1 hw]
  · rw [spread_of_toBound_eq_list (by rw [Value.toBound])] at hw
    rw [Value.toBoundAll_eq_map] at hw
    exact Value.isList_of_mem_map_toBound hitems w hw

theorem Sql.Positional.StandsFor.exists_mark {values : List Value} {v : Value} {numbers : List Nat}
    {text : Text} (h : StandsFor values v numbers text) (hlist : v.isList = false) :
    ∃ k, text = mark k := by
  cases h with
  | single => exact ⟨_, rfl⟩
  | empty | items => cases hlist

namespace Condition

variable {catalog : Catalog} {escape : Char} {supply supply' : NameSupply} {fs : List Filter}
  {c : Condition}

theorem Generated.spreadsLists (h : Generated catalog escape supply fs c supply')
    (hcatalog : catalog.check = .ok ())
    (hflat : ∀ f ∈ Filter.operands fs, f.operand.isFlat = true) : c.SpreadsLists := by
  have hbound : ∀ name ∈ placeholderNames c.text.toList,
      ∃ v, c.params[String.ofList name]? = some v := by
    intro name hname
    obtain ⟨p, hp, rfl⟩ := List.mem_map.1 hname
    obtain ⟨name, v, hname, hv, -⟩ := h.placed hcatalog hflat hp
    exact ⟨v, by rw [hname, String.ofList_toList, hv]⟩
  obtain ⟨p, hp⟩ := exists_positional_eq_ok_iff.2 hbound
  obtain ⟨numbers, written, hnumbering⟩ := isNumbering_positional hp
  refine ⟨p, written, hp, ?_, ?_, ?_⟩
  · rw [Positional.replaced_survey, hnumbering.sql]
  · intro w hw
    obtain ⟨name, v, hv, hw⟩ := Positional.exists_of_mem_values hp hw
    exact Positional.isList_of_mem_spread
      ((h.bindsLists hcatalog hflat name v hv).imp_right And.left) hw
  · intro q hq
    obtain ⟨name, v, hname, hv, hlist | ⟨-, hin⟩⟩ := h.placed hcatalog hflat hq
    · have hunseen : q.name ∈ Positional.unseen [] (lex c.text.toList) := by
        rw [unseen_nil_lex]
        exact List.mem_map_of_mem hq
      obtain ⟨w, hw, hstands⟩ := hnumbering.standsFor q.name hunseen
      rw [hname, String.ofList_toList, hv] at hw
      cases hw
      rw [← Value.isList_toBound] at hlist
      exact .inr (hstands.exists_mark hlist)
    · exact .inl hin

/-- Lists are bound only where IN takes them, by name and by position, exactly if no bound of a range
and no item of a list is a list. -/
theorem lists_bound_iff {count : Nat} (hcatalog : catalog.check = .ok ())
    (hescape : Pattern.isUsableEscape escape = true)
    (h : generate catalog escape { NameSupply.forFilters with count } fs = (.ok c, supply')) :
    c.BindsLists ∧ c.SpreadsLists ↔ ∀ f ∈ Filter.operands fs, f.operand.isFlat = true := by
  have hgenerated := generated_of_generate hcatalog hescape isName_p h
  constructor
  · rintro ⟨hbinds, -⟩ f hf
    exact hbinds.isFlat hgenerated hf
  · intro hflat
    exact ⟨hgenerated.bindsLists hcatalog hflat, hgenerated.spreadsLists hcatalog hflat⟩

/-- A range, and both kinds of operands that IN takes. -/
def flatFilters : List Filter :=
  [.between "Item" "a" (.int 1) (.int 2), .isIn "Item" "b" [.int 3, .null], .and,
    ⟨some "Item", some "c", .isIn, .single (.list [.text "x"])⟩]

theorem lists_bound_flatFilters :
    (itemCatalog.check = .ok () ∧ Pattern.isUsableEscape '§' = true) ∧
    ∃ c supply', generate itemCatalog '§' { NameSupply.forFilters with count := 0 } flatFilters =
        (.ok c, supply') ∧
      c.text = "(:p1 <= i.a AND i.a <= :p2) OR i.b IN (:p3) AND i.c IN (:p4)" ∧
      c.BindsLists ∧ c.SpreadsLists := by
  have hcatalog : itemCatalog.check = .ok () := rfl
  have hescape : Pattern.isUsableEscape '§' = true := by decide
  refine ⟨⟨hcatalog, hescape⟩, ?_⟩
  have htext : (generate itemCatalog '§' { NameSupply.forFilters with count := 0 }
      flatFilters).1.toOption.map (·.text) =
        some "(:p1 <= i.a AND i.a <= :p2) OR i.b IN (:p3) AND i.c IN (:p4)" := by
    decide +kernel
  cases hof : generate itemCatalog '§' { NameSupply.forFilters with count := 0 } flatFilters with
  | mk result supply' =>
    rw [hof] at htext
    cases result with
    | error failure => cases htext
    | ok c =>
      have hflat : ∀ f ∈ Filter.operands flatFilters, f.operand.isFlat = true := by decide
      obtain ⟨hbinds, hspreads⟩ := (lists_bound_iff hcatalog hescape hof).2 hflat
      exact ⟨c, supply', rfl, Option.some.inj htext, hbinds, hspreads⟩

/-- A list as a bound of a range. -/
def listBound : List Filter := [.between "Item" "price" (.list [.int 1, .int 2]) (.int 9)]

/-- A list among the items of a list. -/
def listItem : List Filter := [.isIn "Item" "price" [.list [.int 1, .int 2], .int 9]]

theorem lists_bound_elsewhere :
    (Filter.check listBound = .ok () ∧
      ∃ c supply', generate itemCatalog '§' NameSupply.forFilters listBound = (.ok c, supply') ∧
        ¬ c.BindsLists ∧
        (positional c.params c.text.toList).toOption.map (fun p => String.ofList p.sql) =
          some "($1, $2 <= i.price AND i.price <= $3)") ∧
    Filter.check listItem = .ok () ∧
      ∃ c supply', generate itemCatalog '§' NameSupply.forFilters listItem = (.ok c, supply') ∧
        ¬ c.BindsLists ∧
        (positional c.params c.text.toList).toOption.map (fun p => p.values.map Value.isList) =
          some [true, false] := by
  have hgenerated {fs : List Filter} {c : Condition} {supply' : NameSupply}
      (h : generate itemCatalog '§' NameSupply.forFilters fs = (.ok c, supply')) :
      Generated itemCatalog '§' NameSupply.forFilters fs c supply' :=
    generated_of_generate rfl (by decide) isName_p h
  have hsql : ((generate itemCatalog '§' NameSupply.forFilters listBound).1.toOption.bind
      fun c => (positional c.params c.text.toList).toOption.map fun p => String.ofList p.sql) =
        some "($1, $2 <= i.price AND i.price <= $3)" := by
    decide +kernel
  have hvalues : ((generate itemCatalog '§' NameSupply.forFilters listItem).1.toOption.bind
      fun c => (positional c.params c.text.toList).toOption.map fun p => p.values.map Value.isList) =
        some [true, false] := by
    decide +kernel
  refine ⟨⟨rfl, ?_⟩, rfl, ?_⟩
  · cases hof : generate itemCatalog '§' NameSupply.forFilters listBound with
    | mk result supply' =>
      rw [hof] at hsql
      cases result with
      | error failure => cases hsql
      | ok c =>
        refine ⟨c, supply', rfl, fun hbinds => ?_, hsql⟩
        exact absurd (hbinds.isFlat (hgenerated hof) List.mem_cons_self) (by decide)
  · cases hof : generate itemCatalog '§' NameSupply.forFilters listItem with
    | mk result supply' =>
      rw [hof] at hvalues
      cases result with
      | error failure => cases hvalues
      | ok c =>
        refine ⟨c, supply', rfl, fun hbinds => ?_, hvalues⟩
        exact absurd (hbinds.isFlat (hgenerated hof) List.mem_cons_self) (by decide)

end Condition

end QueryClauses
