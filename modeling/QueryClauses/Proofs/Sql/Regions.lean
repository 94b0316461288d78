import QueryClauses.Proofs.Sql.Concatenation

/-!
# Literals and comments among characters

The survey of a statement goes by its elements, folding goes by its characters. Here the literals and
comments of a text are told from its single characters: whether one starts at a character depends on
that character and the next (`isOpaque_munch_congr`), and no character of another element starts one
(`Begins.isQuiet_body`). So an offset can be looked up character by character (`isOpaque_eq_inside`).

`Whole u w` says that a cut between `u` and `w` runs through no literal and no comment of the text
`u ++ w`. Behind such a cut the text has the literals and comments that it has by itself
(`Whole.isOpaque_add`), and it stays such a cut as long as the text behind it begins alike
(`Whole.congr_head`).
-/

namespace QueryClauses.Sql

open CharClass

/-! ## Where literals and comments start -/

/-- A character that no literal and no comment starts with. -/
def isQuiet (c : Char) : Bool := !(['\'', '"', '-', '/'].contains c)

theorem isOpaque_munchColon (s : Text) : (munchColon s).1.kind.isOpaque = false := by
  fun_cases munchColon s <;> rfl

/-- Whether a literal or a comment starts at a character depends on the next one only. -/
theorem isOpaque_munch_congr {c : Char} {s r : Text} (h : s.head? = r.head?) :
    (munch c s).1.kind.isOpaque = (munch c r).1.kind.isOpaque := by
  unfold munch
  rw [h]
  split
  · rfl
  split
  · rfl
  split
  · rfl
  split
  · rfl
  split
  · rfl
  split
  · rw [isOpaque_munchColon, isOpaque_munchColon]
  split <;> rfl

theorem isOpaque_munch_of_isQuiet {c : Char} (h : isQuiet c = true) (s : Text) :
    (munch c s).1.kind.isOpaque = false := by
  have hb := begins_munch c s
  generalize (munch c s).1 = t, (munch c s).2 = r at hb
  cases hb with
  | quoted hq h' => rcases hq with rfl | rfl <;> exact absurd h (by decide)
  | line h' => exact absurd h (by decide)
  | block h' => exact absurd h (by decide)
  | _ => rfl

theorem isQuiet_of_isIdentChar {c : Char} (h : isIdentChar c = true) : isQuiet c = true := by
  by_contra hc
  simp only [isQuiet, List.contains_cons, List.contains_nil, Bool.or_false, Bool.not_eq_true',
    Bool.not_eq_false, Bool.or_eq_true, beq_iff_eq] at hc
  rcases hc with rfl | rfl | rfl | rfl <;> exact absurd h (by decide)

/-- Behind its first character, no literal and no comment starts in any other element. -/
theorem Begins.isQuiet_body {c : Char} {s r : Text} {t : Token} (h : Begins c s t r)
    (ht : t.kind.isOpaque = false) :
    ∃ body, t.text = c :: body ∧ s = body ++ r ∧ ∀ d ∈ body, isQuiet d = true := by
  obtain ⟨body, htext, hs, -, -⟩ := h.self
  refine ⟨body, htext, hs, ?_⟩
  have hbody : t.text.tail = body := by rw [htext, List.tail_cons]
  rw [← hbody]
  cases h with
  | quoted hq h => cases ht
  | line h => cases ht
  | block h => cases ht
  | opening => exact List.forall_mem_nil _
  | closing => exact List.forall_mem_nil _
  | cast => exact List.forall_mem_singleton.2 rfl
  | placeholder hc =>
    intro d hd
    exact isQuiet_of_isIdentChar (isIdentChar_of_isNameChar (List.mem_takeWhile_imp hd))
  | word hc =>
    intro d hd
    exact isQuiet_of_isIdentChar (List.mem_takeWhile_imp hd)
  | other hc hne hends => exact List.forall_mem_nil _

/-! ## Looking up an offset character by character -/

/-- Whether an offset lies strictly inside a literal, a quoted identifier or a comment. -/
def inside : Text → Nat → Bool
  | [], _ => false
  | c :: s, pos =>
    let length := Text.byteLength (munch c s).1.text
    if (munch c s).1.kind.isOpaque then
      if pos < length then 0 < pos else inside (munch c s).2 (pos - length)
    else if pos < c.utf8Size then false else inside s (pos - c.utf8Size)
termination_by s => s.length
decreasing_by
  · have := length_munch_le c s
    simp only [List.length_cons]
    omega
  · simp

section

variable {c : Char} {s r : Text} {pos : Nat}

theorem inside_zero (s : Text) : inside s 0 = false := by
  cases s with
  | nil => simp [inside]
  | cons c s =>
    have hpos : 0 < Text.byteLength (munch c s).1.text := by
      obtain ⟨body, htext, -⟩ := (begins_munch c s).self
      rw [htext, Text.byteLength_cons]
      have := c.utf8Size_pos
      omega
    simp [inside, hpos, c.utf8Size_pos]

theorem inside_char (hc : (munch c s).1.kind.isOpaque = false) (pos : Nat) :
    inside (c :: s) (c.utf8Size + pos) = inside s pos := by
  simp [inside, hc]

theorem inside_char_of_lt (hc : (munch c s).1.kind.isOpaque = false) (hpos : pos < c.utf8Size) :
    inside (c :: s) pos = false := by
  simp [inside, hc, hpos]

theorem inside_region (hc : (munch c s).1.kind.isOpaque = true) (pos : Nat) :
    inside (c :: s) (Text.byteLength (munch c s).1.text + pos) = inside (munch c s).2 pos := by
  rw [inside, if_pos hc, if_neg (by omega), Nat.add_sub_cancel_left]

theorem inside_region_of_lt (hc : (munch c s).1.kind.isOpaque = true)
    (hpos : pos < Text.byteLength (munch c s).1.text) :
    inside (c :: s) pos = decide (0 < pos) := by
  simp [inside, hc, hpos]

theorem inside_append_of_isQuiet {q : Text} (hq : ∀ c ∈ q, isQuiet c = true) (r : Text) (pos : Nat) :
    inside (q ++ r) (Text.byteLength q + pos) = inside r pos := by
  induction q with
  | nil => simp
  | cons c q ih =>
    have hc := isOpaque_munch_of_isQuiet (hq c List.mem_cons_self) (q ++ r)
    rw [List.cons_append, Text.byteLength_cons, Nat.add_assoc, inside_char hc,
      ih fun d hd => hq d (List.mem_cons_of_mem c hd)]

theorem inside_append_of_isQuiet_of_lt {q : Text} (hq : ∀ c ∈ q, isQuiet c = true) (r : Text)
    (hpos : pos < Text.byteLength q) : inside (q ++ r) pos = false := by
  induction q generalizing pos with
  | nil => simp at hpos
  | cons c q ih =>
    have hc := isOpaque_munch_of_isQuiet (hq c List.mem_cons_self) (q ++ r)
    rw [List.cons_append]
    rcases Nat.lt_or_ge pos c.utf8Size with h | h
    · exact inside_char_of_lt hc h
    · obtain ⟨k, rfl⟩ := Nat.exists_eq_add_of_le h
      rw [inside_char hc]
      refine ih (fun d hd => hq d (List.mem_cons_of_mem c hd)) ?_
      simpa using hpos

/-- Behind an element, what lies inside is as in what it leaves over. -/
theorem inside_munch (c : Char) (s : Text) (pos : Nat) :
    inside (c :: s) (Text.byteLength (munch c s).1.text + pos) = inside (munch c s).2 pos := by
  by_cases hc : (munch c s).1.kind.isOpaque = true
  · exact inside_region hc pos
  rw [Bool.not_eq_true] at hc
  obtain ⟨body, htext, hs, hbody⟩ := (begins_munch c s).isQuiet_body hc
  rw [htext, Text.byteLength_cons, Nat.add_assoc, inside_char hc]
  conv_lhs => rw [hs]
  exact inside_append_of_isQuiet hbody _ pos

/-- In an element, what lies inside is all but the start of a literal or a comment. -/
theorem inside_munch_of_lt (hpos : pos < Text.byteLength (munch c s).1.text) :
    inside (c :: s) pos = ((munch c s).1.kind.isOpaque && decide (0 < pos)) := by
  by_cases hc : (munch c s).1.kind.isOpaque = true
  · rw [inside_region_of_lt hc hpos, hc, Bool.true_and]
  rw [Bool.not_eq_true] at hc
  obtain ⟨body, htext, hs, hbody⟩ := (begins_munch c s).isQuiet_body hc
  rw [hc, Bool.false_and]
  rcases Nat.lt_or_ge pos c.utf8Size with h | h
  · exact inside_char_of_lt hc h
  · obtain ⟨k, rfl⟩ := Nat.exists_eq_add_of_le h
    rw [inside_char hc]
    rw [htext, Text.byteLength_cons] at hpos
    rw [hs]
    exact inside_append_of_isQuiet_of_lt hbody _ (by omega)

end

/-! ## The survey -/

theorem regions_ofTokens (pos : Nat) (d : Int) {t : Token} (ts : List Token) :
    (Survey.ofTokens pos d (t :: ts)).regions =
      (if t.kind.isOpaque then [⟨pos, pos + Text.byteLength t.text⟩] else []) ++
        (Survey.ofTokens (pos + Text.byteLength t.text) (t.kind.depthAfter d) ts).regions := by
  cases hk : t.kind <;> simp [Survey.ofTokens, hk, Kind.isOpaque]

/-- No literal and no comment starts before offset `pos + n` if only other elements do. -/
theorem le_start_of_mem_regions {a b : List Token} (ha : ∀ t ∈ a, t.kind.isOpaque = false)
    {pos : Nat} {d : Int} {r : Span} (hr : r ∈ (Survey.ofTokens pos d (a ++ b)).regions) :
    pos + Text.byteLength (textOf a) ≤ r.start := by
  induction a generalizing pos d with
  | nil =>
    induction b generalizing pos d with
    | nil => simp [Survey.ofTokens] at hr
    | cons t b ih =>
      rw [List.nil_append, regions_ofTokens] at hr
      rcases List.mem_append.1 hr with hr | hr
      · split at hr
        · simp only [List.mem_singleton] at hr
          simp [hr]
        · simp at hr
      · have := ih (by simpa using hr)
        simp only [textOf_nil, Text.byteLength_nil] at this ⊢
        omega
  | cons t a ih =>
    rw [List.cons_append, regions_ofTokens, ha t List.mem_cons_self] at hr
    have := ih (fun u hu => ha u (List.mem_cons_of_mem t hu)) (by simpa using hr)
    simp only [textOf_cons, Text.byteLength_append]
    omega

theorem isOpaque_ofTokens (s : Text) (start : Nat) (d : Int) (pos : Nat) :
    (Survey.ofTokens start d (lex s)).isOpaque (start + pos) = inside s pos := by
  fun_induction lex s generalizing start d pos with
  | case1 => simp [Survey.ofTokens, Survey.isOpaque, inside]
  | case2 c s ih =>
    rw [Survey.isOpaque, regions_ofTokens, List.any_append]
    generalize hlen : Text.byteLength (munch c s).1.text = n
    rcases Nat.lt_or_ge pos n with hpos | hpos
    · have hbehind : ((Survey.ofTokens (start + n) ((munch c s).1.kind.depthAfter d)
          (lex (munch c s).2)).regions.any (·.encloses (start + pos))) = false := by
        rw [List.any_eq_false]
        intro r hr
        have := le_start_of_mem_regions (List.forall_mem_nil _) (by simpa using hr)
        simp only [textOf_nil, Text.byteLength_nil] at this
        simp only [Span.encloses, Bool.and_eq_true, decide_eq_true_eq, not_and]
        omega
      rw [hbehind, Bool.or_false, inside_munch_of_lt (by rwa [hlen])]
      cases (munch c s).1.kind.isOpaque <;> simp [Span.encloses, hpos]
    · obtain ⟨k, rfl⟩ := Nat.exists_eq_add_of_le hpos
      have hfront : ((if (munch c s).1.kind.isOpaque then [Span.mk start (start + n)] else []).any
          (·.encloses (start + (n + k)))) = false := by
        cases (munch c s).1.kind.isOpaque <;> simp [Span.encloses]
      rw [hfront, Bool.false_or, ← hlen, inside_munch, hlen, ← Nat.add_assoc]
      exact ih (start + n) _ k

theorem isOpaque_eq_inside (s : Text) (pos : Nat) : (survey s).isOpaque pos = inside s pos := by
  have := isOpaque_ofTokens s 0 0 pos
  rwa [Nat.zero_add] at this

/-! ## Cuts through no literal and no comment -/

/-- In `u ++ w`, no literal and no comment goes on from `u` into `w`. -/
inductive Whole : Text → Text → Prop
  | nil {w : Text} : Whole [] w
  | char {c : Char} {u w : Text} (hc : (munch c (u ++ w)).1.kind.isOpaque = false)
      (hu : Whole u w) : Whole (c :: u) w
  | region {c : Char} {k : Kind} {b u w : Text} (hk : k.isOpaque = true)
      (hb : munch c (b ++ (u ++ w)) = (⟨k, c :: b⟩, u ++ w)) (hu : Whole u w) :
      Whole (c :: (b ++ u)) w

section

variable {u v w : Text}

theorem whole_of_isQuiet {q : Text} (hq : ∀ c ∈ q, isQuiet c = true) (w : Text) : Whole q w := by
  induction q with
  | nil => exact .nil
  | cons c q ih =>
    have ih := ih fun d hd => hq d (List.mem_cons_of_mem c hd)
    exact .char (isOpaque_munch_of_isQuiet (hq c List.mem_cons_self) _) ih

theorem Whole.append (hu : Whole u (v ++ w)) (hv : Whole v w) : Whole (u ++ v) w := by
  generalize hx : v ++ w = x at hu
  induction hu with
  | nil => exact hv
  | @char c u _ hc hu ih =>
    subst hx
    exact .char (by simpa using hc) (ih rfl)
  | @region c k b u _ hk hb hu ih =>
    subst hx
    rw [List.cons_append, List.append_assoc]
    refine .region hk ?_ (ih rfl)
    rwa [List.append_assoc]

/-- Characters that start no literal and no comment may be left out in front. -/
theorem Whole.of_quiet_append {q : Text} (hq : ∀ c ∈ q, isQuiet c = true) (h : Whole (q ++ u) w) :
    Whole u w := by
  induction q with
  | nil => exact h
  | cons c q ih =>
    refine ih (fun d hd => hq d (List.mem_cons_of_mem c hd)) ?_
    have hc := isOpaque_munch_of_isQuiet (hq c List.mem_cons_self)
    generalize hqu : q ++ u = x at h
    rw [List.cons_append, hqu] at h
    cases h with
    | char _ h => exact h
    | @region _ k b u' _ hk hb hu =>
      have := hc (b ++ (u' ++ w))
      rw [hb] at this
      simp [hk] at this

/-- Between the elements of a text, no literal and no comment is cut. -/
theorem whole_textOf {s : Text} {a b : List Token} (h : lex s = a ++ b) :
    Whole (textOf a) (textOf b) := by
  induction a generalizing s with
  | nil => exact .nil
  | cons t a ih =>
    obtain ⟨c, r, rest, rfl, hb, hrest⟩ := lex_eq_cons_iff.1 h
    have ih := ih hrest
    have hrest' : rest = textOf a ++ textOf b := by
      rw [← textOf_lex rest, hrest]
      exact textOf_append a b
    have hmunch := hb.munch_eq
    by_cases ht : t.kind.isOpaque = true
    · obtain ⟨body, htext, hr, -, -⟩ := hb.self
      rw [textOf_cons, htext, List.cons_append]
      refine .region ht ?_ ih
      rw [← hrest', ← hr, hmunch, ← htext]
    · rw [Bool.not_eq_true] at ht
      obtain ⟨body, htext, hr, hbody⟩ := hb.isQuiet_body ht
      rw [textOf_cons, htext, List.cons_append]
      refine .char ?_ ((whole_of_isQuiet hbody _).append ih)
      rw [List.append_assoc, ← hrest', ← hr, hmunch]
      exact ht

/-- A literal or a comment is the same in front of any text that begins alike. -/
theorem munch_region_congr {c : Char} {k : Kind} {b r r' : Text}
    (h : munch c (b ++ r) = (⟨k, c :: b⟩, r)) (hr : r'.head? = r.head?) :
    munch c (b ++ r') = (⟨k, c :: b⟩, r') := by
  obtain ⟨body, htext, -, hself, hend⟩ := (munch_eq_iff.1 h).self
  obtain rfl : b = body := by simpa using htext
  exact (hself.append_right (by rwa [hr])).munch_eq

theorem head?_append_congr (u : Text) {w w' : Text} (h : w'.head? = w.head?) :
    (u ++ w').head? = (u ++ w).head? := by
  cases u with
  | nil => exact h
  | cons c u => rfl

/-- What stands behind a cut may be replaced by a text that begins alike. -/
theorem Whole.congr_head {w' : Text} (h : Whole u w) (hw : w'.head? = w.head?) : Whole u w' := by
  induction h with
  | nil => exact .nil
  | @char c u w hc hu ih =>
    refine .char ?_ (ih hw)
    rwa [isOpaque_munch_congr (head?_append_congr u hw)]
  | @region c k b u w hk hb hu ih =>
    exact .region hk (munch_region_congr hb (head?_append_congr u hw)) (ih hw)

/-- Behind a cut, the literals and comments are those of the text there. -/
theorem Whole.isOpaque_add (h : Whole u w) (pos : Nat) :
    (survey (u ++ w)).isOpaque (Text.byteLength u + pos) = (survey w).isOpaque pos := by
  rw [isOpaque_eq_inside, isOpaque_eq_inside]
  induction h with
  | nil => simp
  | @char c u w hc hu ih =>
    rw [List.cons_append, Text.byteLength_cons, Nat.add_assoc, inside_char hc, ih]
  | @region c k b u w hk hb hu ih =>
    have hregion := inside_munch c (b ++ (u ++ w)) (Text.byteLength u + pos)
    rw [hb] at hregion
    simp only [List.cons_append, List.append_assoc, Text.byteLength_cons, Text.byteLength_append,
      Nat.add_assoc] at hregion ⊢
    rw [hregion, ih]

theorem Whole.isOpaque_eq_false (h : Whole u w) :
    (survey (u ++ w)).isOpaque (Text.byteLength u) = false := by
  have := h.isOpaque_add 0
  rwa [Nat.add_zero, isOpaque_eq_inside w, inside_zero] at this

end

end QueryClauses.Sql
