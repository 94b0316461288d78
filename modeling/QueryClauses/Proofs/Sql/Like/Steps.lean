import QueryClauses.Proofs.Sql.Extension
import QueryClauses.Proofs.Sql.Like.Lookahead

/-!
# Folding element by element

Folding asks a survey of the whole statement whether an offset lies in a literal or a comment. The
same comes out if the statement is taken element by element (`foldAt_eq_written`): at an element that
an operand may start at, a comparison that is read there is folded; any other element is copied as a
whole, and an operand may start behind it if it ends on a character that cannot belong to one. No
survey is needed for that: where an element starts, no literal and no comment is open.
-/

namespace QueryClauses.Sql.Like

open CharClass

/-- What folding does next: it copies an element of the statement, or folds a comparison. -/
inductive Step where
  | copy (t : Token)
  | fold (m : Comparison)
deriving DecidableEq, Repr

namespace Step

/-- What a step takes from the statement. -/
def text : Step → Text
  | copy t => t.text
  | fold m => m.text

/-- What a step writes. -/
def folded : Step → Text
  | copy t => t.text
  | fold m => m.folded

end Step

/-- Whether an operand may start behind an element. -/
def opensBehind (t : Token) : Bool := t.text.getLast?.any isBoundary

/-- The steps of folding a text; `mayStart` tells whether an operand may start at its start. -/
def steps (mayStart : Bool) : Text → List Step
  | [] => []
  | c :: s =>
    match h : if mayStart then read? (c :: s) else none with
    | none => .copy (munch c s).1 :: steps (opensBehind (munch c s).1) (munch c s).2
    | some (m, rest) =>
      have shorter : rest.length < (c :: s).length := by
        split at h
        · exact length_lt_of_read? h
        · simp at h
      .fold m :: steps false rest
termination_by s => s.length
decreasing_by
  · have := length_munch_le c s
    simp only [List.length_cons]
    omega
  · exact shorter

/-- What the steps take. -/
def taken (l : List Step) : Text := l.flatMap Step.text

/-- What the steps write. -/
def written (l : List Step) : Text := l.flatMap Step.folded

section

variable {mayStart : Bool} {c : Char} {s r rest : Text} {t : Token} {m : Comparison}

theorem steps_nil (mayStart : Bool) : steps mayStart [] = [] := by rw [steps]

theorem steps_copy (h : Begins c s t r) (hread : mayStart = true → read? (c :: s) = none) :
    steps mayStart (c :: s) = .copy t :: steps (opensBehind t) r := by
  rw [steps]
  split
  · rw [h.munch_eq]
  · rename_i hsome
    split at hsome
    · rename_i hstart
      rw [hread hstart] at hsome
      cases hsome
    · cases hsome

theorem steps_fold (h : read? s = some (m, rest)) :
    steps true s = .fold m :: steps false rest := by
  cases s with
  | nil => cases h
  | cons c s =>
    rw [steps]
    split
    · rename_i hnone
      rw [if_pos rfl, h] at hnone
      cases hnone
    · rename_i m' rest' hsome
      rw [if_pos rfl, h] at hsome
      cases hsome
      rfl

theorem taken_cons (a : Step) (l : List Step) : taken (a :: l) = a.text ++ taken l := rfl

theorem written_cons (a : Step) (l : List Step) : written (a :: l) = a.folded ++ written l := rfl

theorem taken_append (a b : List Step) : taken (a ++ b) = taken a ++ taken b := List.flatMap_append

theorem written_append (a b : List Step) : written (a ++ b) = written a ++ written b :=
  List.flatMap_append

/-- What holds of the end of a text, and of a text if it holds of what the first step leaves over,
holds of all texts. -/
@[elab_as_elim]
theorem steps_induction {motive : Bool → Text → Prop}
    (nil : ∀ mayStart, motive mayStart [])
    (copy : ∀ mayStart c s t r, Begins c s t r → (mayStart = true → read? (c :: s) = none) →
      motive (opensBehind t) r → motive mayStart (c :: s))
    (fold : ∀ s m rest, read? s = some (m, rest) → motive false rest → motive true s)
    (mayStart : Bool) (s : Text) : motive mayStart s := by
  fun_induction steps mayStart s with
  | case1 mayStart => exact nil mayStart
  | case2 mayStart c s h ih =>
    refine copy mayStart c s _ _ (begins_munch c s) (fun hstart => ?_) ih
    rwa [dif_pos hstart] at h
  | case3 mayStart c s m rest h shorter ih =>
    split at h
    · rename_i hstart
      subst hstart
      exact fold _ m rest h ih
    · cases h

/-- The steps take the whole text. -/
@[simp] theorem taken_steps (mayStart : Bool) (s : Text) : taken (steps mayStart s) = s := by
  induction mayStart, s using steps_induction with
  | nil mayStart => rw [steps_nil]; rfl
  | copy mayStart c s t r h hread ih =>
    obtain ⟨body, htext, hs, -, -⟩ := h.self
    rw [steps_copy h hread, taken_cons, ih, Step.text, htext, hs, List.cons_append]
  | fold s m rest h ih => rw [steps_fold h, taken_cons, ih, Step.text, (read?_append h).1]

end

/-! ## Copied elements -/

section

variable {mayStart : Bool} {c : Char} {s r : Text} {t : Token}

/-- An element of several characters that is no literal and no comment has none that an operand may
start behind. -/
theorem text_eq_or_isBoundary_eq_false (h : Begins c s t r) (ht : t.kind.isOpaque = false) :
    t.text = [c] ∨ ∀ d ∈ t.text, isBoundary d = false := by
  have hcolon : isBoundary ':' = false := by decide
  cases h with
  | quoted hq h => cases ht
  | line h => cases ht
  | block h => cases ht
  | opening => exact .inl rfl
  | closing => exact .inl rfl
  | cast => exact .inr (List.forall_mem_cons.2 ⟨hcolon, List.forall_mem_singleton.2 hcolon⟩)
  | placeholder hc =>
    refine .inr (List.forall_mem_cons.2 ⟨hcolon, fun d hd => ?_⟩)
    exact isBoundary_of_isIdentChar (isIdentChar_of_isNameChar (List.mem_takeWhile_imp hd))
  | word hc =>
    refine .inr (List.forall_mem_cons.2 ⟨isBoundary_of_isIdentChar hc, fun d hd => ?_⟩)
    exact isBoundary_of_isIdentChar (List.mem_takeWhile_imp hd)
  | other hc hne hends => exact .inl rfl

/-- An element is copied where no comparison is read. -/
theorem foldAt_copy (h : Begins c s t r) (hread : mayStart = true → read? (c :: s) = none) :
    foldAt mayStart (c :: s) = t.text ++ foldAt (opensBehind t) r := by
  obtain ⟨body, htext, rfl, -, -⟩ := h.self
  by_cases ht : t.kind.isOpaque = true
  · have hb : munch c (body ++ r) = (⟨t.kind, c :: body⟩, r) := by rw [h.munch_eq, ← htext]
    rw [foldAt_region ht hb hread, htext, List.cons_append]
    by_cases hr : r = []
    · rw [hr, foldAt_nil, foldAt_nil]
    · obtain ⟨b, d, rfl, hd, -⟩ := exists_last_of_region ht hb hr
      have hlast : opensBehind t = isBoundary c := by
        rw [opensBehind, htext, ← List.cons_append, List.getLast?_concat, Option.any_some, hd]
      rw [hlast]
  · rw [Bool.not_eq_true] at ht
    have hc : (munch c (body ++ r)).1.kind.isOpaque = false := by rwa [h.munch_eq]
    obtain ⟨body', htext', happ, hquiet⟩ := h.isQuiet_body ht
    obtain rfl : body = body' := by
      rw [htext] at htext'
      exact List.tail_eq_of_cons_eq htext'
    rw [foldAt_char hc hread]
    rcases text_eq_or_isBoundary_eq_false h ht with hone | hbound
    · rw [htext] at hone
      obtain rfl : body = [] := List.tail_eq_of_cons_eq hone
      simp [opensBehind, htext]
    · have hlast : opensBehind t = false := by
        cases hl : t.text.getLast? with
        | none => rw [opensBehind, hl, Option.any_none]
        | some d => rw [opensBehind, hl, Option.any_some, hbound d (List.mem_of_getLast? hl)]
      rw [htext] at hbound
      rw [hbound c List.mem_cons_self, foldAt_false_append (fun d hd => ⟨hquiet d hd,
        hbound d (List.mem_cons_of_mem c hd)⟩), hlast, htext, List.cons_append]

end

theorem foldAt_parenOpen (mayStart : Bool) (s : Text) :
    foldAt mayStart ('(' :: s) = '(' :: foldAt true s :=
  foldAt_char (by rw [(Begins.opening (s := s)).munch_eq]; rfl) fun _ => read?_eq_none rfl s

theorem foldAt_parenClose (mayStart : Bool) (s : Text) :
    foldAt mayStart (')' :: s) = ')' :: foldAt true s :=
  foldAt_char (by rw [(Begins.closing (s := s)).munch_eq]; rfl) fun _ => read?_eq_none rfl s

/-- Bars and the white space around them are copied, and an operand may start behind them. -/
theorem foldAt_bars {g g' : Text} (hg : ∀ c ∈ g, isSpace c = true) (hg' : ∀ c ∈ g', isSpace c = true)
    (mayStart : Bool) (r : Text) :
    foldAt mayStart (g ++ '|' :: '|' :: (g' ++ r)) = g ++ '|' :: '|' :: (g' ++ foldAt true r) := by
  have hbar : ∀ mayStart s, foldAt mayStart ('|' :: s) = '|' :: foldAt true s := fun mayStart s =>
    foldAt_char (isOpaque_munch_of_isQuiet rfl s) fun _ => read?_eq_none rfl s
  rw [foldAt_space hg, hbar, hbar, foldAt_space hg', Bool.true_or]

/-- What folding makes of a text starts as the text does, unless it starts on a folded comparison. -/
theorem head?_foldAt (mayStart : Bool) (s : Text) :
    (foldAt mayStart s).head? = s.head? ∨
      mayStart = true ∧ s ≠ [] ∧ (foldAt mayStart s).head? = some 'U' := by
  cases mayStart, s using steps_induction with
  | nil mayStart => exact .inl (by rw [foldAt_nil])
  | copy mayStart c s t r h hread _ =>
    obtain ⟨body, htext, -, -, -⟩ := h.self
    exact .inl (by rw [foldAt_copy h hread, htext]; rfl)
  | fold s m rest h _ =>
    obtain ⟨tail, htail, -⟩ := foldAt_of_read? h
    refine .inr ⟨rfl, ?_, ?_⟩
    · rintro rfl
      cases h
    · rw [htail, List.head?_append, head?_folded, Option.some_or]

/-- An element behind which an operand may start ends in front of a folded comparison. -/
theorem endsBefore_folded {c : Char} {s r : Text} {t : Token} (h : Begins c s t r)
    (hr : r ≠ []) (hopens : opensBehind t = true) : t.endsBefore (some 'U') = true := by
  have hboundary : t.kind.isOpaque = false → isBoundary c = true := by
    intro ht
    obtain ⟨d, hd, hbound⟩ := (Option.any_eq_true _ _).1 hopens
    rcases text_eq_or_isBoundary_eq_false h ht with hone | hnone
    · rw [hone] at hd
      cases hd
      exact hbound
    · rw [hnone d (List.mem_of_getLast? hd)] at hbound
      cases hbound
  have hclosed : t.isClosed = true := by
    obtain ⟨d, r', rfl⟩ := List.exists_cons_of_ne_nil hr
    obtain ⟨-, -, -, -, hend⟩ := h.self
    exact Token.isClosed_of_endsBefore hend
  cases h with
  | quoted hq h => rcases hq with rfl | rfl <;> simpa [Token.endsBefore] using hclosed
  | line h => exact hclosed
  | block h => exact hclosed
  | opening => rfl
  | closing => rfl
  | cast => rfl
  | placeholder hc => exact absurd (hboundary rfl) (by decide)
  | word hc => exact absurd (hboundary rfl) (by rw [isBoundary_of_isIdentChar hc]; decide)
  | other hc hne hends =>
    refine endsBefore_single.2 ⟨?_, ?_, ?_⟩
    · rintro ⟨-, h⟩
      cases h
    · rintro ⟨-, h⟩
      cases h
    · rintro ⟨rfl, -⟩
      exact absurd (hboundary rfl) (by decide)

/-- A copied element is an element of what folding writes. -/
theorem begins_foldAt {c : Char} {s r : Text} {t : Token} (h : Begins c s t r) :
    ∃ body, t.text = c :: body ∧ s = body ++ r ∧
      Begins c (body ++ foldAt (opensBehind t) r) t (foldAt (opensBehind t) r) := by
  obtain ⟨body, htext, hs, hself, hend⟩ := h.self
  refine ⟨body, htext, hs, hself.append_right ?_⟩
  rcases head?_foldAt (opensBehind t) r with hhead | ⟨hopens, hne, hhead⟩
  · rwa [hhead]
  · rw [hhead]
    exact endsBefore_folded h hne hopens

/-! ## Folded comparisons -/

/-- A literal that is read up to one of two quotes does not end there, nor anywhere else: what
follows it makes up one region to the end of the text. -/
theorem munchQuoted_of_open {s : Text} {p : Text × Text} (h : literalBody s = some p)
    (hquote : p.2.head? = some '\'') :
    munchQuoted '\'' s = (s, []) ∧ ∃ r, p.2 = '\'' :: r ∧ munchQuoted '\'' r = (r, []) := by
  have hnone : ∀ {s : Text}, literalBody s = none → munchQuoted '\'' s = (s, []) := by
    intro s hs
    fun_induction literalBody s with
    | case1 => rfl
    | case2 => cases hs
    | case3 c hc => rfl
    | case4 => cases hs
    | case5 => cases hs
    | case6 => cases hs
    | case7 c d s hc ih =>
      rw [Option.map_eq_none_iff] at hs
      simp [munchQuoted, hc, ih hs]
  fun_induction literalBody s generalizing p with
  | case1 => cases h
  | case2 => cases h; cases hquote
  | case3 => cases h
  | case4 s body rest hbody ih =>
    cases h
    obtain ⟨hmunch, hrest⟩ := ih hbody hquote
    exact ⟨by simp [munchQuoted, hmunch], hrest⟩
  | case5 s hs ih =>
    cases h
    have hmunch := hnone hs
    exact ⟨by simp [munchQuoted, hmunch], s, rfl, hmunch⟩
  | case6 d s hd =>
    cases h
    exact absurd (by simpa using hquote) hd
  | case7 c d s hc ih =>
    obtain ⟨q, hq, rfl⟩ := Option.map_eq_some_iff.1 h
    obtain ⟨hmunch, hrest⟩ := ih hq hquote
    exact ⟨by simp [munchQuoted, hc, hmunch], hrest⟩

section

variable {s rest : Text} {m : Comparison}

/-- What precedes the pattern of a comparison cuts no literal and no comment in two. -/
theorem whole_front (h : read? s = some (m, rest)) :
    Whole (m.lead ++ (m.keyword ++ m.keywordGap)) (m.pattern ++ rest) := by
  have hlead := whole_lead h
  cases read?_eq_some_iff.1 h with
  | @intro first s₁ more s₂ space s₃ word wordGap s₄ like s₅ likeGap s₆ pattern _ hfirst hmore
      hgap hspace hnegation hlike hlikeGap hlikeSpace hpattern =>
    have hquiet : ∀ c ∈ like ++ likeGap, isQuiet c = true := by
      intro c hc
      rcases List.mem_append.1 hc with hc | hc
      · exact isQuiet_of_keyword? (by decide) hlike c hc
      · exact isQuiet_of_mem_gap (s := s₅) c (by rwa [hlikeGap])
    exact Whole.append (by simpa using hlead) (whole_of_isQuiet hquiet _)

theorem text_eq_front (m : Comparison) :
    m.text = m.lead ++ (m.keyword ++ m.keywordGap) ++ m.pattern := by
  simp [Comparison.text]

/-- A comparison cuts no literal and no comment in two, unless its pattern is a literal that goes
on. -/
theorem whole_of_read? (h : read? s = some (m, rest))
    (hend : m.pattern.head? = some '\'' → rest.head? ≠ some '\'') : Whole m.text rest := by
  have hfront := whole_front h
  have hpattern := pattern?_of_read? h
  rw [text_eq_front]
  refine hfront.append ?_
  cases hp : m.pattern with
  | nil => exact .nil
  | cons c w =>
    rw [hp] at hend hpattern
    rw [List.cons_append, pattern?] at hpattern
    split at hpattern
    · rename_i hc
      obtain ⟨q, hq, hpq⟩ := Option.map_eq_some_iff.1 hpattern
      obtain rfl : q = (w, rest) := by simpa [Prod.ext_iff] using hpq
      rw [hc]
      exact whole_quoted (munchQuoted_of_literalBody hq (hend (by rw [hc]; rfl)))
    · exact whole_of_isQuiet (isQuiet_of_placeholder? hpattern) _

/-- Where the pattern is a literal that goes on, it makes up one region with all that follows. -/
theorem open_of_read? (h : read? s = some (m, rest)) (hliteral : m.pattern.head? = some '\'')
    (hend : rest.head? = some '\'') :
    ∃ body r, m.pattern = '\'' :: body ∧ munchQuoted '\'' (body ++ rest) = (body ++ rest, []) ∧
      rest = '\'' :: r ∧ munchQuoted '\'' r = (r, []) := by
  have hpattern := pattern?_of_read? h
  obtain ⟨body, hp⟩ := List.head?_eq_some_iff.1 hliteral
  rw [hp, List.cons_append, pattern?, if_pos rfl] at hpattern
  obtain ⟨q, hq, hpq⟩ := Option.map_eq_some_iff.1 hpattern
  obtain rfl : q = (body, rest) := by simpa [Prod.ext_iff] using hpq
  obtain ⟨hmunch, r, hr, hmunch'⟩ := munchQuoted_of_open hq hend
  exact ⟨body, r, hp, hmunch, hr, hmunch'⟩

/-- A literal without an end is copied. -/
theorem foldAt_open {mayStart : Bool} {body : Text} (h : munchQuoted '\'' body = (body, []))
    (hread : mayStart = true → read? ('\'' :: body) = none) :
    foldAt mayStart ('\'' :: body) = '\'' :: body := by
  have hb : munch '\'' (body ++ []) = (⟨.quoted, '\'' :: body⟩, []) := by
    rw [List.append_nil, munch_quote, h]
  have hregion := foldAt_region rfl hb (by rwa [List.append_nil])
  rwa [List.append_nil, foldAt_nil, List.append_nil] at hregion

/-- All that follows a literal without an end lies inside it. -/
theorem isOpaque_of_open {u body r : Text} (hwhole : Whole u ('\'' :: body ++ r))
    (hmunch : munchQuoted '\'' (body ++ r) = (body ++ r, [])) {k : Nat} (hk : k < Text.byteLength r) :
    (survey (u ++ ('\'' :: body ++ r))).isOpaque
      (Text.byteLength (u ++ '\'' :: body) + k) = true := by
  have hb := munch_quote (body ++ r)
  rw [hmunch] at hb
  have hsize := '\''.utf8Size_pos
  rw [Text.byteLength_append, Nat.add_assoc, hwhole.isOpaque_add, isOpaque_eq_inside,
    List.cons_append, inside_munch_of_lt, hb]
  · rw [Text.byteLength_cons]
    simp only [Kind.isOpaque, Bool.true_and, decide_eq_true_eq]
    omega
  · simp only [hb, Text.byteLength_cons, Text.byteLength_append]
    omega

/-- A comparison at the start of a text is folded, and what follows it is folded as a text of its
own. -/
theorem foldAt_fold (h : read? s = some (m, rest)) :
    foldAt true s = m.folded ++ foldAt false rest := by
  by_cases hopen : m.pattern.head? = some '\'' ∧ rest.head? = some '\''
  · -- all that follows lies in the literal that the pattern opens, and is copied
    obtain ⟨body, r, hp, hmunch, hr, hmunch'⟩ := open_of_read? h hopen.1 hopen.2
    obtain ⟨happ, -⟩ := read?_append h
    simp only at happ
    have hfront := whole_front h
    rw [hp] at hfront
    have hlead : (survey s).isOpaque (0 + Text.byteLength m.lead) = false := by
      have := (whole_lead h).isOpaque_eq_false
      rw [Nat.zero_add, ← happ]
      simpa [Comparison.text] using this
    have hinside : ∀ k < Text.byteLength rest,
        (survey s).isOpaque (0 + Text.byteLength m.text + k) = true := by
      intro k hk
      have hinside := isOpaque_of_open hfront hmunch hk
      rwa [← hp, ← text_eq_front, ← List.append_assoc, ← text_eq_front, happ,
        ← Nat.zero_add (Text.byteLength m.text)] at hinside
    have hrest : foldAt false rest = rest := by
      rw [hr]
      exact foldAt_open hmunch' (by simp)
    obtain ⟨mayStart', htail⟩ := foldFrom_append_of_isOpaque false [] hinside
    rw [List.append_nil, foldFrom] at htail
    rw [foldAt, foldFrom_of_read? h (isOpaque_zero s) hlead, hrest]
    simp only [htail, List.append_nil]
  · obtain ⟨tail, hfold, htail⟩ := foldAt_of_read? h
    rw [hfold, htail (whole_of_read? h fun hliteral hend => hopen ⟨hliteral, hend⟩)]

end

/-! ## All steps -/

/-- Folding writes what its steps write. -/
theorem foldAt_eq_written (mayStart : Bool) (s : Text) :
    foldAt mayStart s = written (steps mayStart s) := by
  induction mayStart, s using steps_induction with
  | nil mayStart => rw [foldAt_nil, steps_nil]; rfl
  | copy mayStart c s t r h hread ih => rw [foldAt_copy h hread, steps_copy h hread, ih]; rfl
  | fold s m rest h ih => rw [foldAt_fold h, steps_fold h, ih]; rfl

/-- Whether an operand may start behind a list of steps. -/
def opensAfter (mayStart : Bool) : List Step → Bool
  | [] => mayStart
  | .copy t :: l => opensAfter (opensBehind t) l
  | .fold _ :: l => opensAfter false l

/-- Behind some of the steps, the rest of them are those of the rest of the text. -/
theorem steps_eq_of_append {mayStart : Bool} {s : Text} {a b : List Step}
    (h : steps mayStart s = a ++ b) : b = steps (opensAfter mayStart a) (taken b) := by
  induction mayStart, s using steps_induction generalizing a with
  | nil mayStart =>
    rw [steps_nil, List.nil_eq, List.append_eq_nil_iff] at h
    obtain ⟨rfl, rfl⟩ := h
    exact (steps_nil _).symm
  | copy mayStart c s t r hbegins hread ih =>
    cases a with
    | nil =>
      rw [List.nil_append] at h
      rw [← h, taken_steps]
      rfl
    | cons x a =>
      rw [steps_copy hbegins hread, List.cons_append] at h
      obtain ⟨rfl, htail⟩ := List.cons.inj h
      exact ih htail
  | fold s m rest hread ih =>
    cases a with
    | nil =>
      rw [List.nil_append] at h
      rw [← h, taken_steps]
      rfl
    | cons x a =>
      rw [steps_fold hread, List.cons_append] at h
      obtain ⟨rfl, htail⟩ := List.cons.inj h
      exact ih htail

/-- A comparison is folded where one is read and an operand may start. -/
theorem fold_of_steps_eq {mayStart : Bool} {s : Text} {m : Comparison} {b : List Step}
    (h : steps mayStart s = .fold m :: b) :
    mayStart = true ∧ read? s = some (m, taken b) ∧ b = steps false (taken b) := by
  induction mayStart, s using steps_induction with
  | nil mayStart =>
    rw [steps_nil] at h
    cases h
  | copy mayStart c s t r hbegins hread ih =>
    rw [steps_copy hbegins hread] at h
    cases h
  | fold s m' rest hread ih =>
    rw [steps_fold hread] at h
    obtain ⟨hm, rfl⟩ := List.cons.inj h
    cases hm
    rw [taken_steps]
    exact ⟨rfl, hread, rfl⟩

/-- Folding a statement comes to the comparison `m` behind the text `before` and folds it; the text
`rest` follows. -/
def FoldsAt (s before : Text) (m : Comparison) (rest : Text) : Prop :=
  ∃ a b, steps true s = a ++ .fold m :: b ∧ taken a = before ∧ taken b = rest

section

variable {s before rest : Text} {m : Comparison} (h : FoldsAt s before m rest)

include h

theorem FoldsAt.text_eq : s = before ++ (m.text ++ rest) := by
  obtain ⟨a, b, hsteps, rfl, rfl⟩ := h
  rw [← taken_steps true s, hsteps, taken_append, taken_cons]
  rfl

theorem FoldsAt.read?_eq : read? (m.text ++ rest) = some (m, rest) := by
  obtain ⟨a, b, hsteps, rfl, rfl⟩ := h
  obtain ⟨-, hread, -⟩ := fold_of_steps_eq (steps_eq_of_append hsteps).symm
  exact hread

/-- What folding makes of the statement: the folded comparison stands between what it makes of the
text in front of it and of the text behind it. -/
theorem FoldsAt.fold_eq : ∃ x, (fold s).text = x ++ (m.folded ++ foldAt false rest) := by
  obtain ⟨a, b, hsteps, rfl, rfl⟩ := h
  obtain ⟨-, -, hb⟩ := fold_of_steps_eq (steps_eq_of_append hsteps).symm
  refine ⟨written a, ?_⟩
  rw [← foldAt_true, foldAt_eq_written, hsteps, written_append, written_cons, foldAt_eq_written,
    ← hb]
  rfl

end

end QueryClauses.Sql.Like
