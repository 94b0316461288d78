import QueryClauses.Proofs.Sql.Concatenation

/-!
# White space between elements

White space outside literals and comments is an element of its own for each character. So a text
without the white space that it starts with has the elements that follow the blanks
(`lex_trimStart`), and a text without the white space that it ends with has those in front of the
last blanks (`lex_trimEnd`), unless a line comment comes last: then the white space that is taken
away may be the line feed that ends the comment (`trimEnd_of_endsInLineComment`).
-/

namespace QueryClauses.CharClass

theorem isSpace_eq_false_of_isIdentChar {c : Char} (h : isIdentChar c = true) :
    isSpace c = false := by
  have hn : c.toNat = c.val.toNat := rfl
  delta isIdentChar Char.isAlphanum Char.isAlpha Char.isUpper Char.isLower Char.isDigit at h
  simp only [Bool.or_eq_true, beq_iff_eq, decide_eq_true_eq, Bool.and_eq_true,
    UInt32.le_iff_toNat_le] at h
  simp [isSpace, inRanges, spaceRanges]
  rcases h with (rfl | rfl) | (⟨h₁, h₂⟩ | ⟨h₁, h₂⟩) | ⟨h₁, h₂⟩
  · decide
  · decide
  all_goals
    simp at h₁ h₂
    omega

end QueryClauses.CharClass

namespace QueryClauses.Sql

open CharClass

theorem isBreak_of_isSpace {c : Char} (h : isSpace c = true) : isBreak c = true := by
  refine isBreak_iff.2 ⟨?_, ?_⟩
  · by_contra hc
    rw [Bool.not_eq_false] at hc
    simp [isSpace_eq_false_of_isIdentChar hc] at h
  · by_contra hc
    simp only [List.contains_cons, List.contains_nil, Bool.or_false, Bool.not_eq_false,
      Bool.or_eq_true, beq_iff_eq] at hc
    rcases hc with rfl | rfl | rfl | rfl | rfl <;> exact absurd h (by decide)

/-- An element that is white space. -/
def Token.isBlank (t : Token) : Bool := t.kind == .other && t.text.all isSpace

/-- A comment that runs to the end of its line. -/
def Token.isLineComment (t : Token) : Bool := t.kind == .comment && t.text.head? == some '-'

/-- The element that a white space character is. -/
def blank (c : Char) : Token := ⟨.other, [c]⟩

theorem begins_space {c : Char} (h : isSpace c = true) (s : Text) : Begins c s (blank c) s := by
  have hb := isBreak_of_isSpace h
  refine .other (isBreak_iff.1 hb).1 ?_ ?_
  · by_contra hc
    simp only [List.contains_cons, List.contains_nil, Bool.or_false, Bool.not_eq_false,
      Bool.or_eq_true, beq_iff_eq] at hc
    rcases hc with rfl | rfl | rfl | rfl <;> exact absurd h (by decide)
  · cases s with
    | nil => rfl
    | cons d s =>
      refine endsBefore_single.2 ⟨?_, ?_, ?_⟩ <;> rintro ⟨rfl, -⟩ <;> exact absurd h (by decide)

theorem lex_cons_of_isSpace {c : Char} (h : isSpace c = true) (s : Text) :
    lex (c :: s) = blank c :: lex s := by
  rw [lex_cons, (begins_space h s).munch_eq]

theorem isBlank_blank {c : Char} (h : isSpace c = true) : (blank c).isBlank = true := by
  simp [blank, Token.isBlank, h]

/-- A blank element is one character. -/
theorem Begins.isBlank_iff {c : Char} {s r : Text} {t : Token} (h : Begins c s t r) :
    t.isBlank = true ↔ isSpace c = true := by
  constructor
  · intro ht
    simp only [Token.isBlank, Bool.and_eq_true, beq_iff_eq] at ht
    obtain ⟨hk, ht⟩ := ht
    cases h with
    | other hc hne hends => simpa using ht
    | cast => simpa using ht
    | _ => simp at hk
  · intro hc
    have := (begins_space hc s).munch_eq
    rw [h.munch_eq, Prod.mk.injEq] at this
    rw [this.1]
    exact isBlank_blank hc

/-! ## White space at the start -/

theorem lex_trimStart (s : Text) : lex (Text.trimStart s) = (lex s).dropWhile Token.isBlank := by
  induction s with
  | nil => simp [Text.trimStart, lex_nil]
  | cons c s ih =>
    by_cases hc : isSpace c = true
    · rw [lex_cons_of_isSpace hc, List.dropWhile_cons_of_pos (isBlank_blank hc), ← ih]
      simp [Text.trimStart, hc]
    · have hb : ¬(munch c s).1.isBlank = true := by
        rwa [(begins_munch c s).isBlank_iff]
      rw [lex_cons, List.dropWhile_cons_of_neg hb, ← lex_cons]
      simp [Text.trimStart, hc]

/-! ## White space at the end -/

theorem trimEnd_eq_rdropWhile (s : Text) : Text.trimEnd s = s.rdropWhile isSpace := rfl

theorem trimEnd_append_of_ne_nil {s r : Text} (h : Text.trimEnd r ≠ []) :
    Text.trimEnd (s ++ r) = s ++ Text.trimEnd r := by
  induction r using List.reverseRecOn with
  | nil => simp [Text.trimEnd] at h
  | append_singleton r c ih =>
    simp only [trimEnd_eq_rdropWhile] at *
    by_cases hc : isSpace c = true
    · rw [List.rdropWhile_concat_pos _ _ _ hc] at h ⊢
      rw [← List.append_assoc, List.rdropWhile_concat_pos _ _ _ hc]
      exact ih h
    · rw [List.rdropWhile_concat_neg _ _ _ hc, ← List.append_assoc,
        List.rdropWhile_concat_neg _ _ _ hc]

theorem trimEnd_append_of_all {s r : Text} (h : ∀ c ∈ r, isSpace c = true) :
    Text.trimEnd (s ++ r) = Text.trimEnd s := by
  induction r using List.reverseRecOn with
  | nil => simp
  | append_singleton r c ih =>
    have hc : isSpace c = true := h c (by simp)
    simp only [trimEnd_eq_rdropWhile] at *
    rw [← List.append_assoc, List.rdropWhile_concat_pos _ _ _ hc]
    exact ih fun d hd => h d (by simp [hd])

theorem trimEnd_of_getLast? {s : Text} {c : Char} (h : s.getLast? = some c)
    (hc : isSpace c = false) : Text.trimEnd s = s := by
  obtain ⟨u, rfl⟩ := List.getLast?_eq_some_iff.1 h
  rw [trimEnd_eq_rdropWhile, List.rdropWhile_concat_neg _ _ _ (by simp [hc])]

/-- A closed quoted region that leaves nothing over ends on its quote. -/
theorem munchQuoted_getLast? {quote : Char} {s : Text} (hs : (munchQuoted quote s).2 = [])
    (hc : s.count quote % 2 = 1) : s.getLast? = some quote := by
  fun_induction munchQuoted quote s with
  | case1 => simp at hc
  | case2 c =>
    by_contra h
    have hcq : c ≠ quote := by simpa using h
    simp [hcq] at hc
  | case3 s body rest h ih =>
    have hc' : s.count quote % 2 = 1 := by
      simp only [List.count_cons_self] at hc
      omega
    have hl := ih (by rw [h]; exact hs) hc'
    simp [List.getLast?_cons, hl]
  | case4 d s hd => simp at hs
  | case5 c d s hcq body rest h ih =>
    rw [List.count_cons_of_ne hcq] at hc
    rw [List.getLast?_cons_cons]
    exact ih (by rw [h]; exact hs) hc

theorem getLast?_cons_of_forall {p : Char → Bool} {c : Char} {s : Text} (hc : p c = true)
    (hs : ∀ d ∈ s, p d = true) : ∃ d, (c :: s).getLast? = some d ∧ p d = true := by
  refine ⟨_, List.getLast?_eq_some_getLast (List.cons_ne_nil c s), ?_⟩
  rcases List.mem_cons.1 (List.getLast_mem (List.cons_ne_nil c s)) with h | h
  · rw [h]
    exact hc
  · exact hs _ h

/-- A closed element other than a blank and a line comment does not end on white space. -/
theorem Begins.trimEnd_eq {c : Char} {s : Text} {t : Token} (h : Begins c s t [])
    (ht : t.isClosed = true) (hb : t.isBlank = false) (hl : t.isLineComment = false) :
    Text.trimEnd t.text = t.text := by
  suffices h : ∃ d, t.text.getLast? = some d ∧ isSpace d = false by
    obtain ⟨d, hd, hspace⟩ := h
    exact trimEnd_of_getLast? hd hspace
  generalize hn : ([] : Text) = n at h
  cases h with
  | @quoted _ _ body _ hq h =>
    subst hn
    have hbody : body = s := by simpa [h] using munchQuoted_append c s
    subst hbody
    have hlast := munchQuoted_getLast? (by rw [h]) (by simpa [Token.isClosed] using ht)
    refine ⟨c, by simp [List.getLast?_cons, hlast], ?_⟩
    rcases hq with rfl | rfl <;> decide
  | line h => simp [Token.isLineComment] at hl
  | @block _ body _ h =>
    have hsuffix : ['*', '/'] <:+ body := by simpa [Token.isClosed] using ht
    obtain ⟨u, rfl⟩ := hsuffix
    exact ⟨'/', by simp [List.getLast?_cons], by decide⟩
  | opening => exact ⟨'(', rfl, by decide⟩
  | closing => exact ⟨')', rfl, by decide⟩
  | cast => exact ⟨':', rfl, by decide⟩
  | @placeholder c s hc =>
    have hall : ∀ d ∈ (c :: s).takeWhile isNameChar, isNameChar d = true := fun d hd =>
      List.mem_takeWhile_imp hd
    rw [List.takeWhile_cons_of_pos (isNameChar_of_isNameStart hc)] at hall ⊢
    obtain ⟨d, hd, hname⟩ := getLast?_cons_of_forall (hall c List.mem_cons_self) fun d hd =>
      hall d (List.mem_cons_of_mem c hd)
    refine ⟨d, by rw [List.getLast?_cons_cons, hd], ?_⟩
    exact isSpace_eq_false_of_isIdentChar (isIdentChar_of_isNameChar hname)
  | word hc =>
    obtain ⟨d, hd, hident⟩ := getLast?_cons_of_forall hc fun d hd =>
      List.mem_takeWhile_imp (p := isIdentChar) (l := s) hd
    exact ⟨d, hd, isSpace_eq_false_of_isIdentChar hident⟩
  | other hc hne hends => exact ⟨c, rfl, by simpa [Token.isBlank] using hb⟩

/-- Whether a line comment comes last but for blanks. -/
def endsInLineComment (s : Text) : Bool :=
  ((lex s).filter (!·.isBlank)).getLast?.any Token.isLineComment

theorem trimEnd_textOf_rdropWhile (ts : List Token) :
    Text.trimEnd (textOf (ts.rdropWhile Token.isBlank)) = Text.trimEnd (textOf ts) := by
  induction ts using List.reverseRecOn with
  | nil => rfl
  | append_singleton ts t ih =>
    by_cases ht : t.isBlank = true
    · rw [List.rdropWhile_concat_pos _ _ _ ht, ih, textOf_append]
      refine (trimEnd_append_of_all ?_).symm
      simpa [Token.isBlank] using ((Bool.and_eq_true _ _).mp ht).2
    · rw [List.rdropWhile_concat_neg _ _ _ ht]

/-- The last element but for blanks, if there is one. -/
theorem blanks_at_end (ts : List Token) :
    ts.filter (!·.isBlank) = [] ∧ ts.rdropWhile Token.isBlank = [] ∨
      ∃ a t b, ts = a ++ t :: b ∧ t.isBlank = false ∧ (∀ u ∈ b, u.isBlank = true) ∧
        ts.rdropWhile Token.isBlank = a ++ [t] ∧
        (ts.filter (!·.isBlank)).getLast? = some t := by
  induction ts using List.reverseRecOn with
  | nil => exact .inl ⟨rfl, rfl⟩
  | append_singleton ts u ih =>
    by_cases hu : u.isBlank = true
    · rw [List.rdropWhile_concat_pos _ _ _ hu, List.filter_append]
      simp only [List.filter_cons, hu, Bool.not_true, Bool.false_eq_true, if_false,
        List.filter_nil, List.append_nil]
      rcases ih with ih | ⟨a, t, b, rfl, ht, hb, hdrop, hlast⟩
      · exact .inl ih
      · refine .inr ⟨a, t, b ++ [u], by simp, ht, ?_, hdrop, hlast⟩
        intro v hv
        rcases List.mem_append.1 hv with hv | hv
        · exact hb v hv
        · rwa [List.mem_singleton.1 hv]
    · refine .inr ⟨ts, u, [], rfl, by simpa using hu, by simp, ?_, ?_⟩
      · rw [List.rdropWhile_concat_neg _ _ _ hu]
      · simp [List.filter_append, hu]

theorem lex_trimEnd {s : Text} (hs : ∀ t ∈ lex s, t.isClosed = true ∨ t.isLineComment = true)
    (h : endsInLineComment s = false) :
    lex (Text.trimEnd s) = (lex s).rdropWhile Token.isBlank := by
  have htrim := trimEnd_textOf_rdropWhile (lex s)
  rw [textOf_lex] at htrim
  rw [← htrim]
  rcases blanks_at_end (lex s) with ⟨-, hnil⟩ | ⟨a, t, b, hlex, hb, -, hat, hlast⟩
  · rw [hnil]
    exact lex_nil
  · have hmem : t ∈ lex s := by simp [hlex]
    have hl : t.isLineComment = false := by simpa [endsInLineComment, hlast] using h
    have hclosed : t.isClosed = true := (hs t hmem).resolve_right (by simp [hl])
    obtain ⟨c, body, htext, hbegins⟩ := begins_of_mem_lex hmem
    have htrim' := hbegins.trimEnd_eq hclosed hb hl
    have hne : Text.trimEnd t.text ≠ [] := by rw [htrim', htext]; exact List.cons_ne_nil c body
    rw [hat, textOf_append, textOf_cons, textOf_nil, List.append_nil, trimEnd_append_of_ne_nil hne,
      htrim']
    have hprefix := lex_textOf_prefix (a := a ++ [t]) (b := b) (by rw [hlex]; simp)
    simpa using hprefix

theorem filter_not_dropWhile {α : Type} (p : α → Bool) (l : List α) :
    (l.dropWhile p).filter (!p ·) = l.filter (!p ·) := by
  induction l with
  | nil => rfl
  | cons x l ih =>
    by_cases hx : p x = true
    · simp [hx, ih]
    · simp [hx]

/-- Elements without the blanks at both ends. -/
def trimBlanks (ts : List Token) : List Token :=
  (ts.dropWhile Token.isBlank).rdropWhile Token.isBlank

theorem endsInLineComment_trimStart (s : Text) :
    endsInLineComment (Text.trimStart s) = endsInLineComment s := by
  simp only [endsInLineComment]
  rw [lex_trimStart, filter_not_dropWhile]

theorem lex_trim {s : Text} (hs : ∀ t ∈ lex s, t.isClosed = true ∨ t.isLineComment = true)
    (h : endsInLineComment s = false) : lex (Text.trim s) = trimBlanks (lex s) := by
  have hstart := lex_trimStart s
  rw [Text.trim, lex_trimEnd ?_ (by rwa [endsInLineComment_trimStart]), hstart]
  · rfl
  · intro t ht
    rw [hstart] at ht
    exact hs t ((List.dropWhile_suffix _).subset ht)

/-! ## A line comment at the end -/

theorem endsInLineComment_of_suffix {s : Text} {a b : List Token} (hlex : lex s = a ++ b)
    (h : endsInLineComment s = false) : endsInLineComment (textOf b) = false := by
  simp only [endsInLineComment] at h ⊢
  rw [lex_textOf_suffix hlex]
  rw [hlex, List.filter_append, List.getLast?_append] at h
  cases hb : (b.filter (!·.isBlank)).getLast? with
  | none => rfl
  | some t => simpa [hb] using h

theorem munchLine_notMem_dropLast (s : Text) : '\n' ∉ (munchLine s).1.dropLast := by
  fun_induction munchLine s with
  | case1 => simp
  | case2 s => simp
  | case3 c s hc body rest h ih =>
    rw [h] at ih
    rcases body with _ | ⟨d, body⟩
    · simp
    · simpa [Ne.symm hc] using ih

theorem trimEnd_append_eq {s : Text} (hs : Text.trimEnd s = s) (r : Text) :
    ∃ u, u <+: r ∧ Text.trimEnd (s ++ r) = s ++ u := by
  by_cases h : Text.trimEnd r = []
  · refine ⟨[], List.nil_prefix, ?_⟩
    rw [trimEnd_eq_rdropWhile, List.rdropWhile_eq_nil_iff] at h
    rw [trimEnd_append_of_all h, hs, List.append_nil]
  · exact ⟨_, Text.trimEnd_prefix r, trimEnd_append_of_ne_nil h⟩

/-- A line comment without the white space at its end lies open. -/
theorem Begins.trimEnd_lineComment {c : Char} {s : Text} {t : Token} (h : Begins c s t [])
    (ht : t.isLineComment = true) :
    ∃ body, Text.trimEnd t.text = '-' :: '-' :: body ∧ '\n' ∉ body := by
  generalize hn : ([] : Text) = n at h
  cases h with
  | @line s body _ h =>
    subst hn
    have hbody : body = s := by simpa [h] using munchLine_append s
    subst hbody
    have hmem : '\n' ∉ body.dropLast := by simpa [h] using munchLine_notMem_dropLast body
    rcases List.eq_nil_or_concat body with rfl | ⟨u, d, rfl⟩
    · exact ⟨[], rfl, List.not_mem_nil⟩
    · rw [List.concat_eq_append] at hmem ⊢
      rw [List.dropLast_concat] at hmem
      by_cases hd : isSpace d = true
      · obtain ⟨v, hv, htrim⟩ := trimEnd_append_eq (s := ['-', '-']) rfl u
        refine ⟨v, ?_, fun hv' => hmem (hv.subset hv')⟩
        rw [← List.cons_append, ← List.cons_append, trimEnd_append_of_all (by simpa using hd)]
        exact htrim
      · refine ⟨u ++ [d], ?_, ?_⟩
        · exact trimEnd_of_getLast? (c := d) (by simp [List.getLast?_cons]) (by simpa using hd)
        · have hne : d ≠ '\n' := by
            rintro rfl
            exact hd (by decide)
          simpa [hne.symm] using hmem
  | quoted | block | opening | closing | cast | placeholder | word | other =>
    simp [Token.isLineComment] at ht

/-- Behind a line comment, the white space that is taken away belongs to the comment as well. -/
theorem trimEnd_of_endsInLineComment {s : Text} (h : endsInLineComment s = true) :
    ∃ a t b body, lex s = a ++ t :: b ∧ t.isLineComment = true ∧ (∀ u ∈ b, u.isBlank = true) ∧
      Text.trimEnd s = textOf a ++ '-' :: '-' :: body ∧ '\n' ∉ body := by
  rcases blanks_at_end (lex s) with ⟨hnil, -⟩ | ⟨a, t, b, hlex, -, hb, hat, hlast⟩
  · simp [endsInLineComment, hnil] at h
  · have hl : t.isLineComment = true := by simpa [endsInLineComment, hlast] using h
    obtain ⟨c, r, -, hbegins⟩ := begins_of_mem_lex (s := s) (t := t) (by simp [hlex])
    obtain ⟨body, htext, hbody⟩ := hbegins.trimEnd_lineComment hl
    refine ⟨a, t, b, body, hlex, hl, hb, ?_, hbody⟩
    have htrim := trimEnd_textOf_rdropWhile (lex s)
    rw [textOf_lex] at htrim
    rw [← htrim, hat, textOf_append, textOf_cons, textOf_nil, List.append_nil,
      trimEnd_append_of_ne_nil (by simp [htext]), htext]

end QueryClauses.Sql
