import QueryClauses.Catalog
import QueryClauses.NameSupply
import QueryClauses.Proofs.Except
import QueryClauses.Proofs.Sql.Nesting
import QueryClauses.Proofs.Sql.Trimming

/-!
# Names in statement text

Generated text is put together from elements, and its elements are those it was put together from
(`Lexed`). Columns are segments joined by points (`dotted`, `isColumn_of_column`), placeholders are
named by a stem and a number (`isName_name`); neither depends on anything but the catalog and the
supply of names.
-/

namespace QueryClauses.Sql

open CharClass

/-! ## Texts put together from elements -/

/-- Elements that their text has again. -/
def Lexed (ts : List Token) : Prop := lex (textOf ts) = ts

theorem lexed_nil : Lexed [] := lex_nil

theorem lexed_lex (s : Text) : Lexed (lex s) := by rw [Lexed, textOf_lex]

theorem Lexed.append {a b : List Token} (ha : Lexed a) (hb : Lexed b)
    (h : ∀ t ∈ a.getLast?, t.endsBefore (textOf b).head? = true) : Lexed (a ++ b) := by
  have happ : lex (textOf a ++ textOf b) = lex (textOf a) ++ lex (textOf b) := by
    apply lex_append
    rwa [ha]
  rw [Lexed, textOf_append, happ, ha, hb]

theorem Lexed.append_of_isClosed {a b : List Token} (ha : Lexed a) (hb : Lexed b)
    (hclosed : ∀ t ∈ a, t.isClosed = true) (h : BeginsApart (textOf b)) : Lexed (a ++ b) := by
  have happ : lex (textOf a ++ textOf b) = lex (textOf a) ++ lex (textOf b) :=
    lex_append_of_isClosed (by rwa [ha]) h
  rw [Lexed, textOf_append, happ, ha, hb]

theorem beginsApart_cons {c : Char} (h : isBreak c = true) (s : Text) : BeginsApart (c :: s) := by
  intro d hd
  cases hd
  exact h

/-- An element that is closed and on one line. -/
def Token.isTame (t : Token) : Bool := t.isClosed && !t.text.contains '\n'

theorem Token.isClosed_of_isTame {t : Token} (h : t.isTame = true) : t.isClosed = true :=
  ((Bool.and_eq_true _ _).mp h).1

theorem notMem_textOf_of_isTame {ts : List Token} (h : ∀ t ∈ ts, t.isTame = true) :
    '\n' ∉ textOf ts := by
  intro hmem
  obtain ⟨t, ht, hc⟩ := List.mem_flatMap.1 hmem
  have htame := h t ht
  simp only [Token.isTame, Bool.and_eq_true, Bool.not_eq_true', List.contains_eq_mem,
    decide_eq_false_iff_not] at htame
  exact htame.2 hc

/-- The names of the placeholders among elements, in order. -/
def namesOf (ts : List Token) : List Text :=
  (ts.filter (·.kind == .placeholder)).map (·.text.tail)

@[simp] theorem namesOf_append (a b : List Token) : namesOf (a ++ b) = namesOf a ++ namesOf b := by
  simp [namesOf]

theorem namesOf_cons {t : Token} (hk : t.kind = .placeholder) (ts : List Token) :
    namesOf (t :: ts) = t.text.tail :: namesOf ts := by
  simp [namesOf, hk]

theorem namesOf_cons_of_ne {t : Token} (hk : t.kind ≠ .placeholder) (ts : List Token) :
    namesOf (t :: ts) = namesOf ts := by
  simp [namesOf, hk]

theorem placeholderNames_eq (s : Text) : placeholderNames s = namesOf (lex s) := by
  have h : ∀ (ts : List Token) (pos : Nat) (depth : Int),
      (Survey.ofTokens pos depth ts).placeholders.map (·.name) = namesOf ts := by
    intro ts
    induction ts with
    | nil =>
      intro pos depth
      rfl
    | cons t ts ih =>
      intro pos depth
      have ih := ih (pos + Text.byteLength t.text) (t.kind.depthAfter depth)
      simp only [Survey.ofTokens]
      cases hk : t.kind with
      | placeholder =>
        rw [hk] at ih
        simpa [namesOf, hk] using ih
      | _ =>
        rw [hk] at ih
        simpa [namesOf, hk] using ih
  exact h _ _ _

/-- Elements with the names of their placeholders: they are the elements of their text, stay on one
line and close what they open. -/
structure Tidy (ts : List Token) (names : List Text) : Prop where
  lexed : Lexed ts
  tame : ∀ t ∈ ts, t.isTame = true
  names : namesOf ts = names

section Tidy

variable {a b : List Token} {names names' : List Text}

theorem Tidy.isClosed (h : Tidy a names) : ∀ t ∈ a, t.isClosed = true := fun t ht =>
  Token.isClosed_of_isTame (h.tame t ht)

theorem Tidy.lex_of_eq {s : Text} (h : Tidy a names) (hs : s = textOf a) : Tidy (lex s) names := by
  rw [hs, h.lexed]
  exact h

theorem Tidy.append (ha : Tidy a names) (hb : Tidy b names')
    (h : ∀ t ∈ a.getLast?, t.endsBefore (textOf b).head? = true) :
    Tidy (a ++ b) (names ++ names') where
  lexed := ha.lexed.append hb.lexed h
  tame := List.forall_mem_append.2 ⟨ha.tame, hb.tame⟩
  names := by rw [namesOf_append, ha.names, hb.names]

theorem Tidy.append_of_beginsApart (ha : Tidy a names) (hb : Tidy b names')
    (h : BeginsApart (textOf b)) : Tidy (a ++ b) (names ++ names') where
  lexed := ha.lexed.append_of_isClosed hb.lexed ha.isClosed h
  tame := List.forall_mem_append.2 ⟨ha.tame, hb.tame⟩
  names := by rw [namesOf_append, ha.names, hb.names]

/-- Whether anything may follow the last element. -/
def LeavesOff (ts : List Token) : Prop :=
  ts.getLast? = some (blank ' ') ∨ ts.getLast? = some parenOpen

theorem LeavesOff.append (h : LeavesOff b) (a : List Token) : LeavesOff (a ++ b) := by
  unfold LeavesOff at *
  rw [List.getLast?_append]
  rcases h with h | h
  · exact .inl (by rw [h]; rfl)
  · exact .inr (by rw [h]; rfl)

theorem LeavesOff.text_ne_nil (h : LeavesOff a) : ∃ c s, textOf a = c :: s := by
  have hmem : ∃ t ∈ a, t.text ≠ [] := by
    rcases h with h | h
    · exact ⟨_, List.mem_of_getLast? h, List.cons_ne_nil _ _⟩
    · exact ⟨_, List.mem_of_getLast? h, List.cons_ne_nil _ _⟩
  obtain ⟨t, ht, htext⟩ := hmem
  apply List.exists_cons_of_ne_nil
  intro hnil
  exact htext (List.flatMap_eq_nil_iff.1 hnil t ht)

theorem Tidy.append_of_leavesOff (ha : Tidy a names) (hb : Tidy b names') (h : LeavesOff a) :
    Tidy (a ++ b) (names ++ names') := by
  refine ha.append hb fun t ht => ?_
  rcases h with h | h
  · rw [h] at ht
    cases ht
    cases (textOf b).head? <;> simp [Token.endsBefore, blank]
  · rw [h] at ht
    cases ht
    cases (textOf b).head? <;> rfl

theorem mem_of_mem_intercalate {α : Type} {sep : List α} {ls : List (List α)} {x : α}
    (h : x ∈ sep.intercalate ls) : x ∈ sep ∨ ∃ l ∈ ls, x ∈ l := by
  induction ls with
  | nil => cases h
  | cons l ls ih =>
    cases ls with
    | nil => exact .inr ⟨l, List.mem_cons_self, by simpa using h⟩
    | cons l' ls =>
      rw [List.intercalate_cons_cons, List.mem_append, List.mem_append] at h
      rcases h with (h | h) | h
      · exact .inr ⟨l, List.mem_cons_self, h⟩
      · exact .inl h
      · exact (ih h).imp id fun ⟨m, hm, hx⟩ => ⟨m, List.mem_cons_of_mem l hm, hx⟩

theorem textOf_intercalate (sep : List Token) (parts : List (List Token)) :
    textOf (sep.intercalate parts) = (textOf sep).intercalate (parts.map textOf) := by
  induction parts with
  | nil => rfl
  | cons part parts ih =>
    cases parts with
    | nil => simp
    | cons part' parts =>
      rw [List.intercalate_cons_cons, List.map_cons, List.map_cons, List.intercalate_cons_cons,
        ← List.map_cons, ← ih]
      simp

/-- Tidy parts, with a separator between them that nothing runs into. -/
theorem Tidy.intercalate {sep : List Token} (hsep : Tidy sep []) (hbreak : BeginsApart (textOf sep))
    (hoff : LeavesOff sep) {parts : List (List Token)}
    (h : ∀ part ∈ parts, Tidy part (namesOf part)) :
    Tidy (sep.intercalate parts) (parts.flatMap namesOf) := by
  induction parts with
  | nil => exact ⟨lex_nil, by simp, rfl⟩
  | cons part parts ih =>
    have hpart := h part List.mem_cons_self
    have ih := ih fun part hp => h part (List.mem_cons_of_mem _ hp)
    cases parts with
    | nil => simpa using hpart
    | cons part' parts =>
      rw [List.intercalate_cons_cons, List.flatMap_cons]
      have hrest := hsep.append_of_leavesOff ih hoff
      rw [List.append_assoc]
      refine hpart.append_of_beginsApart hrest ?_
      intro c hc
      apply hbreak c
      rcases hoff.text_ne_nil with ⟨d, s, hs⟩
      rw [textOf_append, hs] at hc
      rwa [hs]

end Tidy

/-! ## Words and qualified names -/

/-- A word. -/
def word (w : Text) : Token := ⟨.word, w⟩

/-- A single character that is an element of its own. -/
def single (c : Char) : Token := ⟨.other, [c]⟩

theorem lexed_word {w : Text} (h : Identifier.IsSegment w) : Lexed [word w] := by
  rcases w with _ | ⟨c, s⟩
  · exact h.elim
  · obtain ⟨hc, hs⟩ := h
    have hb : Begins c s (word (c :: s)) [] := by
      have := Begins.word (s := s) (isIdentChar_of_isNameChar (isNameChar_of_isNameStart hc))
      rwa [List.takeWhile_eq_self_iff.2 hs, List.dropWhile_eq_nil_iff.2 hs] at this
    exact lex_eq_cons_iff.2 ⟨c, s, [], by simp [word], hb, lex_nil⟩

/-- Words joined by points. -/
def dotted : List Text → List Token
  | [] => []
  | [w] => [word w]
  | w :: v :: ws => word w :: single '.' :: dotted (v :: ws)

theorem lexed_dotted {ws : List Text} (h : ∀ w ∈ ws, Identifier.IsSegment w) :
    Lexed (dotted ws) := by
  fun_induction dotted ws with
  | case1 => exact lexed_nil
  | case2 w => exact lexed_word (h w (by simp))
  | case3 w v ws ih =>
    have hrest := ih fun u hu => h u (List.mem_cons_of_mem w hu)
    have hpoint : Lexed [single '.'] := by
      unfold Lexed
      decide +kernel
    refine ((lexed_word (h w (by simp))).append hpoint ?_).append hrest ?_
    · intro t ht
      cases ht
      rfl
    · intro t ht
      cases ht
      cases (textOf (dotted (v :: ws))).head? <;> simp [Token.endsBefore, single]

theorem textOf_dotted_cons (c : Char) (w : Text) (ws : List Text) :
    textOf (dotted ((c :: w) :: ws)) = c :: textOf (dotted (w :: ws)) := by
  cases ws with
  | nil => rfl
  | cons v ws => rfl

theorem segments_ne_nil (s : Text) : Identifier.segments s ≠ [] := by
  fun_cases Identifier.segments s <;> simp

theorem textOf_dotted_segments (s : Text) : textOf (dotted (Identifier.segments s)) = s := by
  fun_induction Identifier.segments s with
  | case1 => rfl
  | case2 s ih =>
    cases hs : Identifier.segments s with
    | nil => exact absurd hs (segments_ne_nil s)
    | cons v ws =>
      rw [hs] at ih
      simp [dotted, word, single, ih]
  | case3 c s hc hnil ih => simpa [hnil, dotted, word] using ih
  | case4 c s hc w ws hs ih =>
    rw [hs] at ih
    rw [textOf_dotted_cons, ih]

theorem segments_append_point {w : Text} (h : '.' ∉ w) (s : Text) :
    Identifier.segments (w ++ '.' :: s) = w :: Identifier.segments s := by
  induction w with
  | nil => simp [Identifier.segments]
  | cons c w ih =>
    rw [List.mem_cons, not_or] at h
    rw [List.cons_append, Identifier.segments, if_neg (Ne.symm h.1), ih h.2]

theorem segments_eq_singleton {w : Text} (h : '.' ∉ w) : Identifier.segments w = [w] := by
  induction w with
  | nil => rfl
  | cons c w ih =>
    rw [List.mem_cons, not_or] at h
    rw [Identifier.segments, if_neg (Ne.symm h.1), ih h.2]

theorem isIdentChar_of_isSegment {w : Text} (h : Identifier.IsSegment w) :
    ∀ c ∈ w, isIdentChar c = true := by
  rcases w with _ | ⟨c, s⟩
  · exact h.elim
  · exact List.forall_mem_cons.2 ⟨isIdentChar_of_isNameChar (isNameChar_of_isNameStart h.1), h.2⟩

theorem notMem_point_of_isSegment {w : Text} (h : Identifier.IsSegment w) : '.' ∉ w :=
  fun hmem => absurd (isIdentChar_of_isSegment h _ hmem) (by decide)

theorem segments_textOf_dotted {ws : List Text} (hne : ws ≠ [])
    (h : ∀ w ∈ ws, Identifier.IsSegment w) : Identifier.segments (textOf (dotted ws)) = ws := by
  fun_induction dotted ws with
  | case1 => exact absurd rfl hne
  | case2 w =>
    have hpoint := notMem_point_of_isSegment (h w List.mem_cons_self)
    simpa [word] using segments_eq_singleton hpoint
  | case3 w v ws ih =>
    have ih := ih (List.cons_ne_nil _ _) fun u hu => h u (List.mem_cons_of_mem w hu)
    have hpoint := notMem_point_of_isSegment (h w List.mem_cons_self)
    have htext : textOf (word w :: single '.' :: dotted (v :: ws)) =
        w ++ '.' :: textOf (dotted (v :: ws)) := by
      simp [word, single]
    rw [htext, segments_append_point hpoint, ih]

/-- The segments of a qualified name, of which there are two or more. -/
def IsColumn (s : Text) : Prop :=
  ∃ w v ws, (∀ u ∈ w :: v :: ws, Identifier.IsSegment u) ∧ s = textOf (dotted (w :: v :: ws))

theorem mem_dotted {ws : List Text} {t : Token} (h : t ∈ dotted ws) :
    t = single '.' ∨ ∃ w ∈ ws, t = word w := by
  fun_induction dotted ws with
  | case1 => simp at h
  | case2 w => exact .inr ⟨w, by simp, by simpa using h⟩
  | case3 w v ws ih =>
    rcases List.mem_cons.1 h with rfl | h
    · exact .inr ⟨w, by simp, rfl⟩
    rcases List.mem_cons.1 h with rfl | h
    · exact .inl rfl
    · exact (ih h).imp id fun ⟨u, hu, ht⟩ => ⟨u, List.mem_cons_of_mem w hu, ht⟩

section Column

variable {s : Text} (h : IsColumn s)
include h

theorem IsColumn.mem_lex {t : Token} (ht : t ∈ lex s) :
    t = single '.' ∨ ∃ w, Identifier.IsSegment w ∧ t = word w := by
  obtain ⟨w, v, ws, hws, rfl⟩ := h
  rw [lexed_dotted hws] at ht
  exact (mem_dotted ht).imp id fun ⟨u, hu, ht⟩ => ⟨u, hws u hu, ht⟩

theorem IsColumn.isIdentChar_of_mem {c : Char} (hc : c ∈ s) (hpoint : c ≠ '.') :
    isIdentChar c = true := by
  rw [← textOf_lex s] at hc
  obtain ⟨t, ht, hc⟩ := List.mem_flatMap.1 hc
  rcases h.mem_lex ht with rfl | ⟨w, hw, rfl⟩
  · exact absurd (List.mem_singleton.1 hc) hpoint
  · exact isIdentChar_of_isSegment hw c hc

theorem IsColumn.isTame {t : Token} (ht : t ∈ lex s) : t.isTame = true := by
  rcases h.mem_lex ht with rfl | ⟨w, hw, rfl⟩
  · decide
  · have hmem : '\n' ∉ w := fun hmem => absurd (isIdentChar_of_isSegment hw _ hmem) (by decide)
    simp [Token.isTame, Token.isClosed, word, hmem]

theorem IsColumn.open?_lex (n : Nat) : open? n (lex s) = some n := by
  have hkind : ∀ t ∈ lex s, t.kind = .word ∨ t.kind = .other := by
    intro t ht
    rcases h.mem_lex ht with rfl | ⟨w, -, rfl⟩
    · exact .inr rfl
    · exact .inl rfl
  exact open?_of_plain hkind n

theorem IsColumn.namesOf_lex : namesOf (lex s) = [] := by
  have hkind : ∀ t ∈ lex s, (t.kind == .placeholder) = false := by
    intro t ht
    rcases h.mem_lex ht with rfl | ⟨w, -, rfl⟩ <;> rfl
  rw [namesOf, List.filter_eq_nil_iff.2 (by simpa using hkind), List.map_nil]

theorem IsColumn.tidy : Tidy (lex s) [] where
  lexed := lexed_lex s
  tame := fun _ ht => h.isTame ht
  names := h.namesOf_lex

theorem IsColumn.kind_ne : ∀ t ∈ lex s, t.kind ≠ .opening ∧ t.kind ≠ .closing := by
  intro t ht
  rcases h.mem_lex ht with rfl | ⟨w, -, rfl⟩ <;> simp [single, word]

/-- A qualified name has its segments as words. -/
theorem IsColumn.lex_eq_dotted : lex s = dotted (Identifier.segments s) := by
  obtain ⟨w, v, ws, hws, rfl⟩ := h
  rw [lexed_dotted hws, segments_textOf_dotted (List.cons_ne_nil _ _) hws]

theorem IsColumn.lex_eq_cons : ∃ w ts, lex s = word w :: ts := by
  obtain ⟨w, v, ws, hws, rfl⟩ := h
  exact ⟨w, _, lexed_dotted hws⟩

/-- A point stands behind the first segment. -/
theorem IsColumn.exists_point : ∃ w u, Identifier.IsSegment w ∧ s = w ++ '.' :: u := by
  obtain ⟨w, v, ws, hws, rfl⟩ := h
  refine ⟨w, textOf (dotted (v :: ws)), hws w List.mem_cons_self, ?_⟩
  simp [dotted, word, single]

end Column

theorem isSegment_of_checkAlias {name : String} (h : Identifier.checkAlias name = .ok ()) :
    Identifier.IsSegment name.toList := by
  unfold Identifier.checkAlias at h
  split at h
  · cases h
  · exact (Identifier.checkSegment_eq_ok_iff name).1 h

theorem isColumn_qualify {tableAlias field : String}
    (ha : Identifier.checkAlias tableAlias = .ok ()) (hf : Identifier.checkField field = .ok ()) :
    IsColumn (Identifier.qualify tableAlias field).toList := by
  have hsegments := Identifier.checkField_eq_ok_iff.1 hf
  have htext := textOf_dotted_segments field.toList
  cases hs : Identifier.segments field.toList with
  | nil => exact absurd hs (segments_ne_nil _)
  | cons v ws =>
    rw [hs] at hsegments htext
    refine ⟨tableAlias.toList, v, ws, ?_, ?_⟩
    · exact List.forall_mem_cons.2 ⟨isSegment_of_checkAlias ha, hsegments⟩
    · simp [Identifier.qualify, dotted, word, single, htext]

/-! ## The columns of a catalog -/

section Catalog

variable {catalog : Catalog} (h : catalog.check = .ok ())
include h

theorem checkEntity_of_find {name : String} {entity : Entity}
    (hfind : catalog.find name = .ok entity) : Catalog.checkEntity name entity = .ok () := by
  unfold Catalog.find at hfind
  split at hfind
  · rename_i e he
    cases hfind
    exact forM_eq_ok_iff.1 h _ (Std.TreeMap.mem_toList_iff_getElem?_eq_some.2 he)
  · cases hfind

/-- What a checked catalog says of a field is a qualified name. -/
theorem isColumn_of_column {name field column : String}
    (hcolumn : catalog.column name field = .ok column) : IsColumn column.toList := by
  unfold Catalog.column at hcolumn
  cases hfind : catalog.find name with
  | error failure =>
    rw [hfind] at hcolumn
    cases hcolumn
  | ok entity =>
    rw [hfind] at hcolumn
    have hentity := checkEntity_of_find h hfind
    cases hfield : Identifier.checkField field with
    | error fault =>
      rw [hfield] at hcolumn
      cases hcolumn
    | ok u =>
      rw [hfield] at hcolumn
      unfold Catalog.checkEntity at hentity
      split at hentity
      · cases hentity
      · cases hentity
      · rename_i ha _
        dsimp only at hcolumn
        split at hcolumn
        · cases hcolumn
          exact isColumn_qualify ha hfield
        · cases hcolumn

theorem isColumn_of_idColumn {name column : String}
    (hcolumn : catalog.idColumn name = .ok column) : IsColumn column.toList := by
  unfold Catalog.idColumn at hcolumn
  cases hfind : catalog.find name with
  | error failure =>
    rw [hfind] at hcolumn
    cases hcolumn
  | ok entity =>
    rw [hfind] at hcolumn
    cases hcolumn
    have hentity := checkEntity_of_find h hfind
    unfold Catalog.checkEntity at hentity
    split at hentity
    · cases hentity
    · cases hentity
    · rename_i ha hf
      exact isColumn_qualify ha hf

end Catalog

/-! ## Placeholders -/

/-- What a placeholder can be named. -/
def IsName : Text → Prop
  | [] => False
  | c :: s => isNameStart c = true ∧ ∀ d ∈ s, isNameChar d = true

theorem isName_p : IsName "p".toList := ⟨rfl, by simp⟩

theorem isName_s : IsName "s".toList := ⟨rfl, by simp⟩

/-- A placeholder. -/
def placeholder (name : Text) : Token := ⟨.placeholder, ':' :: name⟩

theorem exists_getLast?_of_isName {name : Text} (h : IsName name) :
    ∃ c, name.getLast? = some c ∧ isSpace c = false := by
  rcases name with _ | ⟨d, s⟩
  · exact h.elim
  · have hall : ∀ c ∈ d :: s, isNameChar c = true :=
      List.forall_mem_cons.2 ⟨isNameChar_of_isNameStart h.1, h.2⟩
    have hlast := List.getLast_mem (List.cons_ne_nil d s)
    refine ⟨_, List.getLast?_eq_some_getLast (List.cons_ne_nil d s), ?_⟩
    exact isSpace_eq_false_of_isIdentChar (isIdentChar_of_isNameChar (hall _ hlast))

theorem tidy_placeholder {name : Text} (h : IsName name) : Tidy [placeholder name] [name] := by
  rcases name with _ | ⟨c, s⟩
  · exact h.elim
  have hall : ∀ d ∈ c :: s, isNameChar d = true :=
    List.forall_mem_cons.2 ⟨isNameChar_of_isNameStart h.1, h.2⟩
  have hb : Begins ':' (c :: s) (placeholder (c :: s)) [] := by
    have := Begins.placeholder (s := s) h.1
    rwa [List.takeWhile_eq_self_iff.2 hall, List.dropWhile_eq_nil_iff.2 hall] at this
  have hmem : '\n' ∉ c :: s := by
    intro hmem
    exact absurd (hall _ hmem) (by decide)
  rw [List.mem_cons, not_or] at hmem
  refine ⟨?_, ?_, rfl⟩
  · exact lex_eq_cons_iff.2 ⟨':', c :: s, [], by simp [placeholder], hb, lex_nil⟩
  · simp [Token.isTame, Token.isClosed, placeholder, hmem.1, hmem.2]

theorem kind_placeholder (name : Text) :
    ∀ t ∈ [placeholder name], t.kind ≠ .opening ∧ t.kind ≠ .closing := by
  simp [placeholder]

theorem isName_name {supply : NameSupply} (h : IsName supply.stem.toList) (number : Nat) :
    IsName (supply.name number).toList := by
  have hdigits : ∀ d ∈ (toString number).toList, isNameChar d = true := by
    intro d hd
    rw [Nat.toString_eq_repr, Nat.toList_repr] at hd
    have := Nat.isDigit_of_mem_toDigits (by decide) (by decide) hd
    simp [isNameChar, Char.isAlphanum, this]
  unfold NameSupply.name
  rw [String.toList_append]
  cases hs : supply.stem.toList with
  | nil =>
    rw [hs] at h
    exact h.elim
  | cons c s =>
    rw [hs] at h
    refine ⟨h.1, fun d hd => ?_⟩
    rcases List.mem_append.1 hd with hd | hd
    · exact h.2 d hd
    · exact hdigits d hd

end QueryClauses.Sql
