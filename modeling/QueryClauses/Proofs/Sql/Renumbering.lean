import QueryClauses.Proofs.Sql.Like.Marks

/-!
# A numbered statement has no names

A text that starts like a word and holds nothing that counts may take the place of a placeholder
anywhere (`Inert`): the element in front of a colon that starts a placeholder ends there as well,
and what follows the placeholder is read as before. Numbers and lists of numbers are such texts. So
a numbered statement has the literals, quoted identifiers and comments of the statement and no
placeholder, and numbering it once more changes nothing (`positional_leaves_no_names`).
-/

namespace QueryClauses.Sql

open CharClass Positional

/-! ## Texts that may take the place of a placeholder -/

/-- A text that starts like a word and holds nothing that a literal, a quoted identifier, a comment
or a placeholder starts with. -/
structure Inert (w : Text) : Prop where
  starts : ∃ c ∈ w.head?, isIdentChar c = true
  plain : ∀ c ∈ w, isPlain c = true

theorem Inert.append {w u : Text} (hw : Inert w) (hu : ∀ c ∈ u, isPlain c = true) :
    Inert (w ++ u) where
  starts := by
    obtain ⟨c, hc, hident⟩ := hw.starts
    exact ⟨c, by simp [List.head?_append, Option.mem_def.1 hc], hident⟩
  plain := List.forall_mem_append.2 ⟨hw.plain, hu⟩

theorem inert_mark (number : Nat) : Inert (mark number) where
  starts := ⟨'$', rfl, rfl⟩
  plain := by
    refine List.forall_mem_cons.2
      ⟨rfl, fun c hc => isPlain_of_isWordChar (isWordChar_of_isDigit ?_)⟩
    rw [Nat.toString_eq_repr, Nat.toList_repr] at hc
    rw [isDigit, Nat.isDigit_of_mem_toDigits (by decide) (by decide) hc, Bool.true_or]

theorem inert_marks {numbers : List Nat} (hne : numbers ≠ []) :
    Inert (", ".toList.intercalate (numbers.map mark)) := by
  induction numbers with
  | nil => exact absurd rfl hne
  | cons k ks ih =>
    cases ks with
    | nil => simpa using inert_mark k
    | cons k' ks =>
      rw [List.map_cons, List.map_cons, List.intercalate_cons_cons, List.append_assoc]
      have hcomma : ∀ c ∈ ", ".toList, isPlain c = true := List.all_eq_true.1 (by decide)
      exact (inert_mark k).append
        (List.forall_mem_append.2 ⟨hcomma, (ih (List.cons_ne_nil _ _)).plain⟩)

/-- What stands for a value may take the place of a placeholder. -/
theorem Positional.StandsFor.inert {values : List Value} {v : Value} {numbers : List Nat} {w : Text}
    (h : StandsFor values v numbers w) : Inert w := by
  cases h with
  | single hlist hv => exact inert_mark _
  | empty => exact ⟨⟨'N', rfl, rfl⟩, List.all_eq_true.1 (by decide)⟩
  | items hne hitems =>
    refine inert_marks fun h => hne ?_
    simpa using h

/-! ## Elements in front of a placeholder -/

/-- An element that a colon ends is ended by an identifier character too, if it is neither a word
nor a placeholder. -/
theorem Begins.endsBefore_of_isIdentChar {c d : Char} {s r : Text} {t : Token}
    (h : Begins c s t r) (hword : t.kind ≠ .word) (hname : t.kind ≠ .placeholder)
    (hcolon : t.endsBefore (some ':') = true) (hd : isIdentChar d = true) :
    t.endsBefore (some d) = true := by
  have hne : ∀ e, isIdentChar e = false → e ≠ d := by
    rintro e he rfl
    rw [hd] at he
    cases he
  cases h with
  | quoted hq h =>
    have hquote : c ≠ d := by
      rcases hq with rfl | rfl
      · exact hne _ rfl
      · exact hne _ rfl
    simp only [Token.endsBefore, Bool.and_eq_true] at hcolon
    simp [Token.endsBefore, hcolon.1, hquote]
  | line h => exact hcolon
  | block h => exact hcolon
  | opening => rfl
  | closing => rfl
  | cast => simp [Token.endsBefore]
  | placeholder hc => exact absurd rfl hname
  | word hc => exact absurd rfl hword
  | other hc _ _ =>
    have hsign : c ≠ ':' := by simpa using (endsBefore_single.1 hcolon).2.2
    exact endsBefore_single.2
      ⟨fun h => hne '-' rfl h.2.symm, fun h => hne '*' rfl h.2.symm, fun h => hsign h.1⟩

theorem Begins.isPlain_of_word {c : Char} {s r : Text} {t : Token} (h : Begins c s t r)
    (hword : t.kind = .word) : ∀ d ∈ t.text, isPlain d = true := by
  cases h <;> cases hword
  rename_i hc
  have hident : ∀ {d}, isIdentChar d = true → isPlain d = true :=
    isPlain_of_class (by decide)
  exact List.forall_mem_cons.2 ⟨hident hc, fun d hd => hident (List.mem_takeWhile_imp hd)⟩

/-! ## Statements with other text in place of placeholders -/

section

variable {written : Text → Text} {ts : List Token} {s : Text}

/-- Where the placeholders are replaced, a text starts as before, or with an identifier character in
place of a colon. -/
theorem head?_flatMap_replacedToken (hs : lex s = ts)
    (hw : ∀ name ∈ namesOf ts, Inert (written name)) :
    (ts.flatMap (replacedToken written)).head? = s.head? ∨
      s.head? = some ':' ∧
        ∃ d ∈ (ts.flatMap (replacedToken written)).head?, isIdentChar d = true := by
  cases ts with
  | nil =>
    left
    rw [lex_eq_nil_iff.1 hs]
    rfl
  | cons t ts =>
    obtain ⟨c, r, rest, rfl, hb, -⟩ := lex_eq_cons_iff.1 hs
    obtain ⟨body, htext, -, -, -⟩ := hb.self
    rw [List.flatMap_cons]
    by_cases hk : t.kind = .placeholder
    · right
      have hcolon : c = ':' := by
        cases hb <;> first | rfl | cases hk
      obtain ⟨d, hd, hident⟩ := (hw t.text.tail (by rw [namesOf_cons hk]; simp)).starts
      refine ⟨by rw [hcolon]; rfl, d, ?_, hident⟩
      rw [replacedToken, if_pos hk, List.head?_append, Option.mem_def.1 hd]
      rfl
    · left
      rw [replacedToken, if_neg hk, htext]
      rfl

/-- With texts in place of its placeholders that hold nothing that counts, a statement keeps its
literals, quoted identifiers and comments. -/
theorem marks_flatMap_replacedToken (hw : ∀ name ∈ placeholderNames s, Inert (written name)) :
    marks ((lex s).flatMap (replacedToken written)) = (lex s).filter (·.kind.isOpaque) := by
  rw [placeholderNames_eq] at hw
  fun_induction lex s with
  | case1 => rw [List.flatMap_nil, marks, lex_nil, List.filter_nil, List.filter_nil]
  | case2 c s ih =>
    have hb := begins_munch c s
    generalize (munch c s).1 = t, (munch c s).2 = rest at *
    rw [List.flatMap_cons]
    -- A placeholder and a word come out as plain text, which has no marks; the rest are elements.
    by_cases hk : t.kind = .placeholder
    · rw [namesOf_cons hk, List.forall_mem_cons] at hw
      rw [replacedToken, if_pos hk, marks_append_of_isPlain hw.1.plain, ih hw.2,
        List.filter_cons_of_neg (by simp [hk, Kind.isOpaque])]
    rw [namesOf_cons_of_ne hk] at hw
    rw [replacedToken, if_neg hk]
    by_cases hword : t.kind = .word
    · rw [marks_append_of_isPlain (hb.isPlain_of_word hword), ih hw,
        List.filter_cons_of_neg (by simp [hword, Kind.isOpaque])]
    · obtain ⟨body, htext, -, hself, hend⟩ := hb.self
      -- What was ended by the colon of a placeholder is now ended by an identifier character.
      have hend' :
          t.endsBefore ((lex rest).flatMap (replacedToken written)).head? = true := by
        rcases head?_flatMap_replacedToken rfl hw with hhead | ⟨hcolon, d, hd, hident⟩
        · rwa [hhead]
        · rw [hcolon] at hend
          rw [Option.mem_def.1 hd]
          exact hself.endsBefore_of_isIdentChar hword hk hend hident
      have hmark : t.isMark = t.kind.isOpaque := by
        rw [Token.isMark, beq_eq_false_iff_ne.2 hk, Bool.or_false]
      rw [htext, List.cons_append, marks_of_begins (hself.append_right hend'), ih hw, hmark,
        List.filter_cons]
      split <;> rfl

end

/-! ## Numbered statements -/

theorem kind_ne_of_placeholderNames_eq_nil {s : Text} (h : placeholderNames s = []) :
    ∀ t ∈ lex s, t.kind ≠ .placeholder := by
  rw [placeholderNames_eq, namesOf, List.map_eq_nil_iff, List.filter_eq_nil_iff] at h
  simpa using h

theorem ofTokens_of_kind_ne {ts : List Token} (h : ∀ t ∈ ts, t.kind ≠ .placeholder)
    (bindings : Bindings) (seen : List (Text × Text)) (count : Nat) :
    ofTokens bindings seen count ts = .ok ⟨textOf ts, []⟩ := by
  induction ts with
  | nil => rfl
  | cons t ts ih =>
    obtain ⟨hk, h⟩ := List.forall_mem_cons.1 h
    rw [ofTokens_cons_of_ne hk, ih h, textOf_cons]
    rfl

/-- Numbering changes nothing in a statement that has no placeholders. -/
theorem positional_of_placeholderNames_eq_nil {s : Text} (h : placeholderNames s = [])
    (bindings : Bindings) : positional bindings s = .ok ⟨s, []⟩ := by
  rw [positional, ofTokens_of_kind_ne (kind_ne_of_placeholderNames_eq_nil h), textOf_lex]

/-- A numbered statement has no placeholders with names. Its literals, quoted identifiers and
comments have the texts that they had, in the same order. Whatever the values then are, numbering it
again returns it as it is, with no values. -/
theorem positional_leaves_no_names {bindings : Bindings} {s : Text} {p : Positional}
    (h : positional bindings s = .ok p) :
    (survey p.sql).placeholders = [] ∧ regionTexts p.sql = regionTexts s ∧
      ∀ bindings' : Bindings, positional bindings' p.sql = .ok ⟨p.sql, []⟩ := by
  obtain ⟨numbers, written, hnumbering⟩ := isNumbering_positional h
  have hinert : ∀ name ∈ placeholderNames s, Inert (written name) := by
    intro name hname
    rw [← unseen_nil_lex] at hname
    obtain ⟨v, -, hstands⟩ := hnumbering.standsFor name hname
    exact hstands.inert
  have hmarks := marks_flatMap_replacedToken hinert
  rw [← hnumbering.sql] at hmarks
  have hnames : placeholderNames p.sql = [] := by
    rw [placeholderNames_eq_marks, hmarks, namesOf, List.filter_filter, List.map_eq_nil_iff,
      List.filter_eq_nil_iff]
    intro t _
    cases t.kind <;> decide
  refine ⟨List.map_eq_nil_iff.1 hnames, ?_, positional_of_placeholderNames_eq_nil hnames⟩
  rw [regionTexts_eq_marks, hmarks, List.filter_filter, regionTexts_eq]
  simp only [Bool.and_self]

/-- Placeholders that touch other elements, names that are none, and a literal that is left open. -/
def crowdedNames : Text :=
  "x::int-:a/:a::t ':a' /* :a */ IN (:b, :c) \":a\" -- :a\n:::a'open :a".toList

theorem positional_leaves_no_names_crowdedNames :
    ∃ p, positional sharedValues crowdedNames = .ok p ∧
      p.sql = "x::int-$1/$1::t ':a' /* :a */ IN ($2, $3, NULL) \":a\" -- :a\n::$1'open :a".toList ∧
      (survey p.sql).placeholders = [] ∧ regionTexts p.sql = regionTexts crowdedNames ∧
        ∀ bindings' : Bindings, positional bindings' p.sql = .ok ⟨p.sql, []⟩ := by
  have hvalues : ∀ name ∈ placeholderNames crowdedNames,
      (sharedValues[String.ofList name]?).isSome = true := by
    decide +kernel
  have hpositional : ∃ p, positional sharedValues crowdedNames = .ok p :=
    exists_positional_eq_ok_iff.2 fun name hname => Option.isSome_iff_exists.1 (hvalues name hname)
  obtain ⟨p, hp⟩ := hpositional
  have hsql : (positional sharedValues crowdedNames).toOption.map (·.sql) = some
      "x::int-$1/$1::t ':a' /* :a */ IN ($2, $3, NULL) \":a\" -- :a\n::$1'open :a".toList := by
    decide +kernel
  rw [hp] at hsql
  exact ⟨p, hp, Option.some.inj hsql, positional_leaves_no_names hp⟩

end QueryClauses.Sql
