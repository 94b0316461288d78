import QueryClauses.Proofs.Sql.Extension
import QueryClauses.Proofs.Sql.Names

/-!
# Additions behind a line comment

White space is taken away in front of what is added to a statement, and with it the line feed that
ends a line comment. A text that ends in this way lies open (`OpenComment`): whatever follows is part
of the comment, up to the next line feed (`OpenComment.lex_append`). What stands in front of a
condition or of sort keys lies open if a line comment comes last there
(`openComment_conditionLead`, `openComment_sortKeysLead`).
-/

namespace QueryClauses.Sql

/-! ## Open comments -/

theorem munchLine_append_of_notMem {u : Text} (hu : '\n' ∉ u) (r : Text) :
    munchLine (u ++ r) = (u ++ (munchLine r).1, (munchLine r).2) := by
  induction u with
  | nil => rfl
  | cons c u ih =>
    rw [List.mem_cons, not_or] at hu
    simp [munchLine, Ne.symm hu.1, ih hu.2]

/-- A line comment goes on to the next line feed. -/
theorem lex_lineComment {body : Text} (hbody : '\n' ∉ body) (r : Text) :
    lex ('-' :: '-' :: (body ++ r)) =
      ⟨.comment, '-' :: '-' :: (body ++ (munchLine r).1)⟩ :: lex (munchLine r).2 := by
  rw [lex_cons, (Begins.line (munchLine_append_of_notMem hbody r)).munch_eq]

/-- A text that ends inside a line comment, and the elements in front of the comment. -/
def OpenComment (a : List Token) (body s : Text) : Prop :=
  '\n' ∉ body ∧ s = textOf a ++ '-' :: '-' :: body ∧
    ∀ r, lex (textOf a ++ '-' :: '-' :: r) = a ++ lex ('-' :: '-' :: r)

theorem OpenComment.append {a : List Token} {body s r : Text} (h : OpenComment a body s)
    (hr : '\n' ∉ r) : OpenComment a (body ++ r) (s ++ r) := by
  obtain ⟨hbody, rfl, hlex⟩ := h
  refine ⟨?_, by simp, hlex⟩
  rw [List.mem_append, not_or]
  exact ⟨hbody, hr⟩

/-- What follows an open comment belongs to it up to the next line feed. -/
theorem OpenComment.lex_append {a : List Token} {body s : Text} (h : OpenComment a body s)
    (r : Text) : lex (s ++ r) =
      a ++ ⟨.comment, '-' :: '-' :: (body ++ (munchLine r).1)⟩ :: lex (munchLine r).2 := by
  obtain ⟨hbody, rfl, hlex⟩ := h
  rw [List.append_assoc, List.cons_append, List.cons_append, hlex, lex_lineComment hbody]

theorem openComment_trimEnd {s : Text} (h : endsInLineComment s = true) :
    ∃ a t b body, lex s = a ++ t :: b ∧ t.isLineComment = true ∧ (∀ u ∈ b, u.isBlank = true) ∧
      OpenComment a body (Text.trimEnd s) := by
  obtain ⟨a, t, b, body, hlex, hl, hb, htrim, hbody⟩ := trimEnd_of_endsInLineComment h
  refine ⟨a, t, b, body, hlex, hl, hb, hbody, htrim, fun r => lex_textOf_append hlex ?_⟩
  simp only [Token.isLineComment, Bool.and_eq_true, beq_iff_eq] at hl
  simp [hl.2]

/-- Blanks and the comment in front of them have no placeholders. -/
theorem namesOf_append_lineComment {t : Token} {b : List Token} (ht : t.isLineComment = true)
    (hb : ∀ u ∈ b, u.isBlank = true) (a : List Token) : namesOf (a ++ t :: b) = namesOf a := by
  have hquiet : ∀ u ∈ t :: b, (u.kind == .placeholder) = false := by
    intro u hu
    rcases List.mem_cons.1 hu with rfl | hu
    · simp only [Token.isLineComment, Bool.and_eq_true, beq_iff_eq] at ht
      rw [ht.1]
      rfl
    · rw [kind_of_isBlank (hb u hu)]
      rfl
  have hnil : namesOf (t :: b) = [] := by
    rw [namesOf, List.filter_eq_nil_iff.2 (by simpa using hquiet), List.map_nil]
  rw [namesOf_append, hnil, List.append_nil]

theorem namesOf_dropWhile_isBlank (ts : List Token) :
    namesOf (ts.dropWhile Token.isBlank) = namesOf ts := by
  induction ts with
  | nil => rfl
  | cons t ts ih =>
    by_cases ht : t.isBlank = true
    · have hk : (t.kind == .placeholder) = false := by
        rw [kind_of_isBlank ht]
        rfl
      rw [List.dropWhile_cons_of_pos ht, ih]
      simp [namesOf, hk]
    · rw [List.dropWhile_cons_of_neg ht]

theorem OpenComment.prepend {ts a : List Token} {body s : Text} (h : OpenComment a body s)
    (hts : ∀ r, lex (textOf ts ++ r) = ts ++ lex r) : OpenComment (ts ++ a) body (textOf ts ++ s) := by
  obtain ⟨hbody, rfl, hlex⟩ := h
  refine ⟨hbody, by simp, fun r => ?_⟩
  rw [textOf_append, List.append_assoc, hts, hlex, List.append_assoc]

/-- A line comment that comes last is behind a word that comes earlier. -/
theorem endsInLineComment_predicate {s : Text} {a b : List Token} {w : Token} {d : Int}
    (hlex : lex s = a ++ [w] ++ b) (hw : w.isTopWord d = true) (h : endsInLineComment s = true) :
    endsInLineComment (textOf b) = true := by
  have hword : w.isBlank = false := isBlank_of_isTopWord hw
  have hk : w.isLineComment = false := by
    simp only [Token.isTopWord, Bool.and_eq_true, beq_iff_eq] at hw
    simp [Token.isLineComment, hw.1]
  simp only [endsInLineComment] at h ⊢
  rw [lex_textOf_suffix hlex]
  rw [hlex, List.filter_append, List.getLast?_append] at h
  cases hb : (b.filter (!·.isBlank)).getLast? with
  | none => simp [hb, List.filter_append, hword, hk] at h
  | some t => simpa [hb] using h

theorem openComment_conjoin {predicate : Text} {a : List Token} {body : Text}
    (h : OpenComment a body predicate) :
    ∃ a' body', OpenComment a' body' (conjoin predicate []) ∧ namesOf a' = namesOf a := by
  have hne : predicate.isEmpty = false := by
    obtain ⟨-, rfl, -⟩ := h
    simp
  simp only [conjoin, hne, Bool.false_eq_true, if_false, List.append_nil]
  split
  · have hopen : ∀ r, lex (textOf [parenOpen] ++ r) = [parenOpen] ++ lex r := fun r => by
      rw [show textOf [parenOpen] ++ r = '(' :: r from rfl, lex_cons, Begins.opening.munch_eq]
      rfl
    exact ⟨_, _, (h.prepend hopen).append (by decide), by simp [namesOf, parenOpen]⟩
  · exact ⟨_, _, h.append (by decide), rfl⟩

/-- Behind a line comment, all that stands in front of a condition ends inside the comment; the
placeholders are those in front of it. -/
theorem openComment_conditionLead {s : Text} (h : endsInLineComment (cutTail s).1 = true) :
    ∃ a body, OpenComment a body (conditionLead s) ∧
      namesOf a = placeholderNames (cutTail s).1 := by
  have hlex := @lex_textOf_cutBefore_fst opensTail s
  have hhead : (cutTail s).1 = textOf (cutBefore opensTail 0 (lex s)).1 := rfl
  rw [hhead] at h
  unfold conditionLead
  rw [placeholderNames_eq, hhead, cutKeyword, hlex]
  generalize (cutBefore opensTail 0 (lex s)).1 = before at *
  cases hcut : cutAfter "WHERE" 0 before with
  | none =>
    obtain ⟨a, t, b, body, hsplit, ht, hb, hopen⟩ := openComment_trimEnd h
    refine ⟨a, _, hopen.append (by decide), ?_⟩
    rw [← namesOf_append_lineComment ht hb, ← hsplit, hlex]
  | some p =>
    obtain ⟨front, predicate⟩ := p
    have happ : front ++ predicate = before := cutAfter_append hcut
    obtain ⟨a, w, rfl, hw, -, -⟩ := cutAfter_eq_some hcut
    subst happ
    have hp := endsInLineComment_predicate hlex hw h
    have hfront := lex_textOf_prefix hlex
    have hclosed : ∀ t ∈ a ++ [w], t.isClosed = true := by
      rcases predicate with _ | ⟨u, predicate⟩
      · simp [endsInLineComment, lex_nil] at hp
      · exact fun t ht => isClosed_of_mem_append hlex ht
    have hspace : ∀ r, lex (textOf (a ++ [w] ++ [blank ' ']) ++ r) =
        a ++ [w] ++ [blank ' '] ++ lex r := fun r => by
      have := lex_append_space (s := textOf (a ++ [w])) (by rwa [hfront]) r
      rw [hfront] at this
      simpa [blank] using this
    rw [← endsInLineComment_trimStart] at hp
    obtain ⟨a', t, b, body, hsplit, ht, hb, hopen⟩ := openComment_trimEnd hp
    obtain ⟨a'', body', hopen', hnames⟩ := openComment_conjoin hopen
    refine ⟨a ++ [w] ++ [blank ' '] ++ a'', body', ?_, ?_⟩
    · have := hopen'.prepend hspace
      simp only [Option.map_some]
      rw [trimEnd_textOf_of_isTopWord hfront hw]
      simpa [blank, Text.trim] using this
    · have hblank : namesOf [blank ' '] = [] := rfl
      rw [namesOf_append, namesOf_append, namesOf_append, hblank, hnames,
        ← namesOf_append_lineComment ht hb a', ← hsplit, lex_trimStart, namesOf_dropWhile_isBlank,
        lex_textOf_suffix hlex, List.append_nil, namesOf_append, namesOf_append]

/-- Behind a line comment, all that stands in front of sort keys ends inside the comment. -/
theorem openComment_sortKeysLead {s : Text} (h : endsInLineComment (cutPaging s).1 = true) :
    ∃ a t b body, lex (cutPaging s).1 = a ++ t :: b ∧ t.isLineComment = true ∧
      (∀ u ∈ b, u.isBlank = true) ∧ OpenComment a body (sortKeysLead s) := by
  obtain ⟨a, t, b, body, hlex, hl, hb, hopen⟩ := openComment_trimEnd h
  refine ⟨a, t, b, _, hlex, hl, hb, hopen.append ?_⟩
  split <;> decide

/-- The line that a clause in front of a text ends on ends where the text's first line does. -/
theorem munchLine_follow (rest : List Token) :
    (munchLine (textOf (follow rest))).2 = (munchLine (textOf rest)).2 := by
  cases rest with
  | nil => rfl
  | cons u rest => simp [follow, blank, munchLine]

end QueryClauses.Sql
