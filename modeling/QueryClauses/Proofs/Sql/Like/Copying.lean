import QueryClauses.Proofs.Sql.Like.Reading

/-!
# What folding copies

Folding looks at the rest of the statement only, and at where its literals and comments are. So a
statement may be folded piece by piece: a character, a literal or a comment where no comparison is
read is copied (`foldAt_char`, `foldAt_region`), a comparison that is read is folded
(`foldAt_of_read?`). No comparison outside of literals goes on over a parenthesis, a double quote or a
minus sign, so what comes up to there is folded alike whatever comes behind (`foldAt_append_stop`).
-/

namespace QueryClauses.Sql.Like

open CharClass

/-! ## Folding a text by itself -/

/-- Folding depends on the literals and comments of the text that is folded, not on where it
stands. -/
theorem foldFrom_congr {v v' : Survey} {pos pos' : Nat} (mayStart : Bool) (s : Text)
    (h : ∀ k, v.isOpaque (pos + k) = v'.isOpaque (pos' + k)) :
    foldFrom v mayStart pos s = foldFrom v' mayStart pos' s := by
  induction hn : s.length using Nat.strong_induction_on generalizing s mayStart pos pos' with
  | _ n ih =>
    subst hn
    have hshift : ∀ j k, v.isOpaque (pos + j + k) = v'.isOpaque (pos' + j + k) := by
      intro j k
      rw [Nat.add_assoc, Nat.add_assoc, h]
    cases s with
    | nil => rw [foldFrom, foldFrom]
    | cons c s =>
      have hstep : ∀ mayStart, foldFrom v mayStart (pos + c.utf8Size) s =
          foldFrom v' mayStart (pos' + c.utf8Size) s := fun mayStart =>
        ih s.length (by simp) mayStart s (hshift c.utf8Size) rfl
      rw [foldFrom_cons, foldFrom_cons]
      cases hread : if mayStart then read? (c :: s) else none with
      | none => simp only [hstep]
      | some p =>
        obtain ⟨m, rest⟩ := p
        have hshorter : rest.length < (c :: s).length := by
          split at hread
          · exact length_lt_of_read? hread
          · cases hread
        have hrest := ih rest.length hshorter false rest (hshift (Text.byteLength m.text)) rfl
        have hpos := h 0
        simp only [Nat.add_zero] at hpos
        simp only [hpos, h (Text.byteLength m.lead), hstep, hrest]

/-- A text with its comparisons folded; `mayStart` tells whether an operand may start at its
start. -/
def foldAt (mayStart : Bool) (s : Text) : Text := (foldFrom (survey s) mayStart 0 s).text

theorem foldAt_true (s : Text) : foldAt true s = (fold s).text := rfl

@[simp] theorem foldAt_nil (mayStart : Bool) : foldAt mayStart [] = [] := by
  rw [foldAt, foldFrom]

theorem foldFrom_behind {u w : Text} (h : Whole u w) (mayStart : Bool) :
    (foldFrom (survey (u ++ w)) mayStart (0 + Text.byteLength u) w).text = foldAt mayStart w := by
  rw [foldAt, foldFrom_congr mayStart w]
  intro k
  rw [Nat.zero_add, Nat.zero_add, h.isOpaque_add]

theorem isOpaque_zero (s : Text) : (survey s).isOpaque 0 = false := by
  rw [isOpaque_eq_inside, inside_zero]

/-- A comparison at the start of a text is folded. -/
theorem foldAt_of_read? {s rest : Text} {m : Comparison} (h : read? s = some (m, rest)) :
    ∃ tail, foldAt true s = m.folded ++ tail ∧
      (Whole m.text rest → tail = foldAt false rest) := by
  obtain ⟨happ, -⟩ := read?_append h
  simp only at happ
  have hlead : (survey s).isOpaque (0 + Text.byteLength m.lead) = false := by
    have := (whole_lead h).isOpaque_eq_false
    rw [Nat.zero_add, ← happ]
    simpa [Comparison.text] using this
  refine ⟨_, congrArg Folded.text (foldFrom_of_read? h (isOpaque_zero s) hlead), ?_⟩
  intro hwhole
  rw [← foldFrom_behind hwhole false, happ]

/-- A character outside of literals and comments is copied where no comparison is read. -/
theorem foldAt_char {mayStart : Bool} {c : Char} {s : Text}
    (hc : (munch c s).1.kind.isOpaque = false) (hread : mayStart = true → read? (c :: s) = none) :
    foldAt mayStart (c :: s) = c :: foldAt (isBoundary c) s := by
  have hwhole : Whole [c] s := .char hc .nil
  rw [foldAt, foldFrom_cons_of_none hread, ← foldFrom_behind hwhole]
  rfl

/-- Inside a literal or a comment everything is copied. -/
theorem foldFrom_append_of_isOpaque {v : Survey} {pos : Nat} {u : Text} (mayStart : Bool) (r : Text)
    (h : ∀ k < Text.byteLength u, v.isOpaque (pos + k) = true) :
    ∃ mayStart', (foldFrom v mayStart pos (u ++ r)).text =
      u ++ (foldFrom v mayStart' (pos + Text.byteLength u) r).text := by
  induction u generalizing pos mayStart with
  | nil => exact ⟨mayStart, rfl⟩
  | cons c u ih =>
    have hsize := c.utf8Size_pos
    have hpos := h 0 (by rw [Text.byteLength_cons]; omega)
    rw [Nat.add_zero] at hpos
    have hbehind : ∀ k < Text.byteLength u, v.isOpaque (pos + c.utf8Size + k) = true := by
      intro k hk
      rw [Nat.add_assoc]
      exact h _ (by simpa using hk)
    rw [List.cons_append, foldFrom_cons, hpos]
    simp only [Bool.true_or, if_true, Text.byteLength_cons, ← Nat.add_assoc]
    split
    · obtain ⟨mayStart', heq⟩ := ih (isBoundary c) hbehind
      exact ⟨mayStart', by simp [heq]⟩
    · obtain ⟨mayStart', heq⟩ := ih false hbehind
      exact ⟨mayStart', by simp [heq]⟩

/-! ## Where no operand starts -/

/-- A character that an operand starts with. -/
def startsOperand (c : Char) : Bool := isNameStart c || ['\'', '?', ':', '$'].contains c

theorem read?_eq_none {c : Char} (hc : startsOperand c = false) (s : Text) :
    read? (c :: s) = none := by
  simp only [startsOperand, Bool.or_eq_false_iff, List.contains_cons, List.contains_nil,
    beq_eq_false_iff_ne] at hc
  obtain ⟨hname, hquote, hmark, hcolon, hdollar, -⟩ := hc
  simp [read?, operand?, pattern?, placeholder?, hname, hquote, hmark, hcolon, hdollar]

theorem startsOperand_of_isSpace {c : Char} (h : isSpace c = true) : startsOperand c = false := by
  have hname : isNameStart c = false := by
    by_contra hc
    rw [Bool.not_eq_false] at hc
    rw [isSpace_eq_false_of_isIdentChar
      (isIdentChar_of_isNameChar (isNameChar_of_isNameStart hc))] at h
    cases h
  rw [startsOperand, hname, contains_eq_false_of_class (by decide) h, Bool.or_false]

theorem isBoundary_of_isSpace {c : Char} (h : isSpace c = true) : isBoundary c = true := by
  rw [isBoundary, isWordChar_eq_false_of_isSpace h, contains_eq_false_of_class (by decide) h]
  rfl

/-- Characters that stand between operands are copied, and an operand may start behind them. -/
theorem foldAt_between {b : Text}
    (hb : ∀ c ∈ b, isQuiet c = true ∧ startsOperand c = false ∧ isBoundary c = true)
    (mayStart : Bool) (r : Text) :
    foldAt mayStart (b ++ r) = b ++ foldAt (mayStart || !b.isEmpty) r := by
  induction b generalizing mayStart with
  | nil => simp
  | cons c b ih =>
    obtain ⟨hquiet, hstarts, hbound⟩ := hb c List.mem_cons_self
    rw [List.cons_append, foldAt_char (isOpaque_munch_of_isQuiet hquiet _)
      fun _ => read?_eq_none hstarts _, hbound, ih fun d hd => hb d (List.mem_cons_of_mem c hd)]
    simp

/-- White space is copied, and an operand may start behind it. -/
theorem foldAt_space {b : Text} (hb : ∀ c ∈ b, isSpace c = true) (mayStart : Bool) (r : Text) :
    foldAt mayStart (b ++ r) = b ++ foldAt (mayStart || !b.isEmpty) r := by
  refine foldAt_between (fun c hc => ?_) mayStart r
  have hspace := hb c hc
  exact ⟨isQuiet_of_isSpace hspace, startsOperand_of_isSpace hspace, isBoundary_of_isSpace hspace⟩

/-! ## Literals and comments -/

/-- The last character of a literal or a comment that has its end: behind it an operand may start
exactly if one may start behind the first, and none starts at it but behind a literal. -/
theorem exists_last_of_region {c : Char} {k : Kind} {b r : Text} (hk : k.isOpaque = true)
    (hb : munch c (b ++ r) = (⟨k, c :: b⟩, r)) (hr : r ≠ []) :
    ∃ b' d, b = b' ++ [d] ∧ isBoundary d = isBoundary c ∧
      (isBoundary d = false ∨ startsOperand d = false) := by
  obtain ⟨body, htext, -, hself, hend⟩ := (munch_eq_iff.1 hb).self
  obtain rfl : b = body := by simpa using htext
  obtain ⟨d, hd⟩ : ∃ d, r.head? = some d := by
    cases r with
    | nil => exact absurd rfl hr
    | cons d r => exact ⟨d, rfl⟩
  rw [hd] at hend
  generalize hn : ([] : Text) = n at hself
  generalize ht : Token.mk k (c :: b) = t at hself hend
  cases hself with
  | quoted hq h =>
    cases ht
    subst hn
    simp only [Token.endsBefore, Token.isClosed, Bool.and_eq_true, beq_iff_eq] at hend
    obtain ⟨b', hb'⟩ := List.getLast?_eq_some_iff.1 (munchQuoted_getLast? (by rw [h]) hend.1)
    refine ⟨b', c, hb', rfl, ?_⟩
    rcases hq with rfl | rfl
    · exact .inl rfl
    · exact .inr rfl
  | @line s body _ h =>
    cases ht
    subst hn
    simp only [Token.endsBefore, Token.isClosed, beq_iff_eq] at hend
    obtain ⟨b', hb'⟩ := List.getLast?_eq_some_iff.1 hend
    exact ⟨'-' :: b', '\n', by rw [hb', List.cons_append], by decide +kernel, .inr rfl⟩
  | @block s body _ h =>
    cases ht
    subst hn
    simp only [Token.endsBefore, Token.isClosed, List.isSuffixOf_iff_suffix] at hend
    obtain ⟨b', rfl⟩ := hend
    exact ⟨'*' :: (b' ++ ['*']), '/', by simp, rfl, .inr rfl⟩
  | _ =>
    rw [Token.mk.injEq] at ht
    rw [ht.1] at hk
    cases hk

/-- A literal or a comment is copied where no comparison is read at its start. -/
theorem foldAt_region {mayStart : Bool} {c : Char} {k : Kind} {b r : Text} (hk : k.isOpaque = true)
    (hb : munch c (b ++ r) = (⟨k, c :: b⟩, r))
    (hread : mayStart = true → read? (c :: (b ++ r)) = none) :
    foldAt mayStart (c :: (b ++ r)) = c :: (b ++ foldAt (isBoundary c) r) := by
  have hwhole : Whole (c :: (b ++ [])) r := .region hk hb .nil
  rw [List.append_nil] at hwhole
  have hinside : ∀ j < Text.byteLength b,
      (survey (c :: (b ++ r))).isOpaque (0 + c.utf8Size + j) = true := by
    intro j hj
    have hlt : c.utf8Size + j < Text.byteLength (munch c (b ++ r)).1.text := by
      rw [hb, Text.byteLength_cons]
      omega
    rw [isOpaque_eq_inside, Nat.zero_add, inside_munch_of_lt hlt, hb, hk]
    have := c.utf8Size_pos
    simp only [Bool.true_and, decide_eq_true_eq]
    omega
  rw [foldAt, foldFrom_cons_of_none hread]
  simp only [List.cons.injEq, true_and]
  by_cases hr : r = []
  · subst hr
    obtain ⟨mayStart', heq⟩ := foldFrom_append_of_isOpaque (isBoundary c) [] hinside
    rw [heq, foldFrom, foldAt_nil]
  · -- all but the last character is copied whatever is read there; the last one starts no operand
    obtain ⟨b', d, rfl, hd, hlast⟩ := exists_last_of_region hk hb hr
    have hfront : ∀ j < Text.byteLength b', (survey (c :: (b' ++ [d] ++ r))).isOpaque
        (0 + c.utf8Size + j) = true := fun j hj => hinside j (by
      rw [Text.byteLength_append]
      omega)
    obtain ⟨mayStart', heq⟩ := foldFrom_append_of_isOpaque (isBoundary c) ([d] ++ r) hfront
    have hpos := hinside (Text.byteLength b') (by simp [d.utf8Size_pos])
    have hbehind := foldFrom_behind hwhole (isBoundary c)
    simp only [List.cons_append, List.append_assoc, List.nil_append, Text.byteLength_cons,
      Text.byteLength_append, Text.byteLength_nil, Nat.add_zero, ← Nat.add_assoc] at heq hpos hbehind ⊢
    rw [heq, foldFrom_cons, hpos]
    rcases hlast with hlast | hlast
    · rw [← hd, hlast] at hbehind ⊢
      simp only [Bool.true_or, if_true]
      split <;> rw [hbehind]
    · rw [read?_eq_none hlast, ite_self]
      simp only [hd]
      rw [hbehind]

/-! ## In front of a character that no comparison goes on with -/

/-- What stands in front of the character is folded alike whatever stands behind it. -/
theorem foldAt_append_stop {e : Char} (he : isStop e = true) {u z₀ : Text}
    (h : Whole u (e :: z₀)) (mayStart : Bool) :
    ∃ x mayStart', ∀ z,
      foldAt mayStart (u ++ e :: z) = x ++ foldAt mayStart' (e :: z) := by
  induction hn : u.length using Nat.strong_induction_on generalizing u mayStart with
  | _ n ih =>
    subst hn
    have hall : ∀ z, Whole u (e :: z) := fun z => h.congr_head rfl
    by_cases hread : mayStart = true ∧ ∃ p, read? u = some p
    · obtain ⟨rfl, ⟨m, rest⟩, hread⟩ := hread
      obtain ⟨x, mayStart', hx⟩ := ih rest.length (length_lt_of_read? hread)
        (whole_text he h hread).2 false rfl
      refine ⟨m.folded ++ x, mayStart', fun z => ?_⟩
      have hread' := read?_append_stop he (hall z)
      rw [hread, Option.map_some] at hread'
      obtain ⟨tail, hfold, htail⟩ := foldAt_of_read? hread'
      rw [hfold, htail (whole_text he (hall z) hread).1, hx, List.append_assoc]
    · have hnone : ∀ z, mayStart = true → read? (u ++ e :: z) = none := by
        intro z hstart
        have hu : read? u = none := by
          by_contra hsome
          exact hread ⟨hstart, Option.ne_none_iff_exists'.1 hsome⟩
        rw [read?_append_stop he (hall z), hu, Option.map_none]
      cases h with
      | nil => exact ⟨[], mayStart, fun z => rfl⟩
      | @char c u _ hc hu =>
        obtain ⟨x, mayStart', hx⟩ := ih u.length (by simp) hu (isBoundary c) rfl
        refine ⟨c :: x, mayStart', fun z => ?_⟩
        have hhead : (u ++ e :: z).head? = (u ++ e :: z₀).head? := head?_append_congr u rfl
        have hc' := (isOpaque_munch_congr hhead).trans hc
        rw [List.cons_append, foldAt_char hc' (hnone z), hx, List.cons_append]
      | @region c k b u _ hk hb hu =>
        have hlt : u.length < (c :: (b ++ u)).length := by
          rw [List.length_cons, List.length_append]
          omega
        obtain ⟨x, mayStart', hx⟩ := ih u.length hlt hu (isBoundary c) rfl
        refine ⟨c :: (b ++ x), mayStart', fun z => ?_⟩
        have hhead : (u ++ e :: z).head? = (u ++ e :: z₀).head? := head?_append_congr u rfl
        have hb' := munch_region_congr hb hhead
        have hnone := hnone z
        rw [List.cons_append, List.append_assoc] at hnone ⊢
        rw [foldAt_region hk hb' hnone, hx, List.cons_append, List.append_assoc]

end QueryClauses.Sql.Like
