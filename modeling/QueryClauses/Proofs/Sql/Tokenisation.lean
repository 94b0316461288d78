import QueryClauses.Proofs.Sql.Bytes.Survey
import QueryClauses.Proofs.Sql.Occurrences

/-!
# What a survey says of the bytes of a text

Whatever the text, the words, placeholders and opaque regions of its survey stand one behind the other
and have no byte in common. Each has the text between its offsets, and a word or a placeholder ends
where the next byte does not go on with it. No literal and no comment starts outside of the regions
(`Begins.not_opens`), and the depth of a word counts the parentheses in front of it that are outside
of them (`depth_eq_count`).
-/

namespace QueryClauses.Sql

open CharClass Text Bytes

/-! ## Bytes of an element -/

/-- Whether a literal, a quoted identifier or a comment starts on a character with a further one
behind it. -/
def opensOpaque (c : Char) (next : Option Char) : Bool :=
  c == '\'' || c == '"' || c == '-' && next == some '-' || c == '/' && next == some '*'

section

variable {s r rest x y : Text} {c d : Char} {t : Token}

theorem Begins.isIdentChar_of_word (h : Begins d r t rest) (ht : t.kind = .word) :
    ∀ c ∈ t.text, isIdentChar c = true := by
  cases h with
  | word hd => exact List.forall_mem_cons.2 ⟨hd, fun c hc => List.mem_takeWhile_imp hc⟩
  | _ => cases ht

theorem Begins.placeholder_text (h : Begins d r t rest) (ht : t.kind = .placeholder) :
    ∃ c body, t.text = ':' :: c :: body ∧ isNameStart c = true ∧
      ∀ e ∈ c :: body, isNameChar e = true := by
  cases h with
  | @placeholder c w hc =>
    have hname := isNameChar_of_isNameStart hc
    refine ⟨c, w.takeWhile isNameChar, ?_, hc, ?_⟩
    · rw [List.takeWhile_cons_of_pos hname]
    · exact List.forall_mem_cons.2 ⟨hname, fun e he => List.mem_takeWhile_imp he⟩
  | _ => cases ht

/-- An element is a literal or a comment by its first character and the next one. -/
theorem isOpaque_munch (c : Char) (s : Text) :
    (munch c s).1.kind.isOpaque = opensOpaque c s.head? := by
  unfold munch opensOpaque
  split
  · rename_i hq
    rcases hq with rfl | rfl <;> rfl
  rename_i hq
  rw [not_or] at hq
  split
  · rename_i hline
    simp [hline, Kind.isOpaque]
  rename_i hline
  split
  · rename_i hblock
    simp [hblock, Kind.isOpaque]
  rename_i hblock
  have hnone : (c == '\'' || c == '"' || c == '-' && s.head? == some '-' ||
      c == '/' && s.head? == some '*') = false := by
    simpa [hq] using And.intro (not_and.1 hline) (not_and.1 hblock)
  rw [hnone]
  split
  · rfl
  split
  · rfl
  split
  · exact isOpaque_munchColon s
  split <;> rfl

theorem Begins.isOpaque_eq (h : Begins d r t rest) : t.kind.isOpaque = opensOpaque d r.head? := by
  rw [← isOpaque_munch, h.munch_eq]

theorem opensOpaque_of_isQuiet (h : isQuiet c = true) (next : Option Char) :
    opensOpaque c next = false := by
  simp only [isQuiet, List.contains_cons, List.contains_nil, Bool.or_false, Bool.not_eq_true',
    Bool.or_eq_false_iff] at h
  simp [opensOpaque, h]

/-- Inside of an element that is no literal and no comment, none starts. -/
theorem Begins.not_opens (h : Begins d r t rest) (ht : t.kind.isOpaque = false)
    (htext : t.text = x ++ c :: y) : opensOpaque c (y ++ rest).head? = false := by
  obtain ⟨body, hbody, hr, hquiet⟩ := h.isQuiet_body ht
  rw [hbody] at htext
  cases x with
  | nil =>
    obtain ⟨rfl, rfl⟩ := List.cons.inj htext
    rw [← hr, ← h.isOpaque_eq, ht]
  | cons e x =>
    obtain ⟨rfl, rfl⟩ := List.cons.inj htext
    exact opensOpaque_of_isQuiet (hquiet c (List.mem_append_right x List.mem_cons_self)) _

/-- An identifier character stands in a word or in a placeholder, or else in a literal or a comment. -/
theorem Begins.kind_of_isIdentChar (h : Begins d r t rest) (hmem : c ∈ t.text)
    (hc : isIdentChar c = true) :
    t.kind = .word ∨ t.kind = .placeholder ∨ t.kind.isOpaque = true := by
  cases h with
  | quoted hq => exact .inr (.inr rfl)
  | line => exact .inr (.inr rfl)
  | block => exact .inr (.inr rfl)
  | placeholder => exact .inr (.inl rfl)
  | word => exact .inl rfl
  | opening =>
    rw [List.mem_singleton.1 hmem] at hc
    cases hc
  | closing =>
    rw [List.mem_singleton.1 hmem] at hc
    cases hc
  | cast =>
    have hcolon : c = ':' := by simpa using hmem
    rw [hcolon] at hc
    cases hc
  | other hd =>
    rw [List.mem_singleton.1 hmem, hd] at hc
    cases hc

/-- A parenthesis, as a character and as a kind of element. -/
inductive IsParen : Char → Kind → Prop
  | opening : IsParen '(' .opening
  | closing : IsParen ')' .closing

theorem Begins.text_of_isParen {k : Kind} (h : Begins d r t rest) (hk : IsParen c k)
    (ht : t.kind = k) : t.text = [c] := by
  cases hk <;> cases h <;> first | rfl | cases ht

/-- A parenthesis outside of literals and comments is an element of its own. -/
theorem Begins.kind_of_isParen {k : Kind} (h : Begins d r t rest) (hk : IsParen c k)
    (ht : t.kind.isOpaque = false) (hmem : c ∈ t.text) : t.kind = k := by
  have hident : isIdentChar c = false := by cases hk <;> rfl
  have hname : isNameChar c = false := by cases hk <;> rfl
  cases h with
  | quoted hq => cases ht
  | line => cases ht
  | block => cases ht
  | opening =>
    cases List.mem_singleton.1 hmem
    cases hk
    rfl
  | closing =>
    cases List.mem_singleton.1 hmem
    cases hk
    rfl
  | cast =>
    have hc : c = ':' := by simpa using hmem
    subst hc
    cases hk
  | placeholder hstart =>
    rcases List.mem_cons.1 hmem with rfl | hmem
    · cases hk
    · rw [List.mem_takeWhile_imp hmem] at hname
      cases hname
  | word hd =>
    rcases List.mem_cons.1 hmem with rfl | hmem
    · rw [hd] at hident
      cases hident
    · rw [List.mem_takeWhile_imp hmem] at hident
      cases hident
  | other hd hne =>
    cases List.mem_singleton.1 hmem
    cases hk <;> cases hne

end

/-! ## Elements in their places -/

section

variable {s : Text} {e f : Placed} {i : Nat} {c : Char}

/-- The text around an element. -/
theorem exists_of_mem_placed (he : e ∈ placed 0 0 (lex s)) :
    ∃ u d r v, s = u ++ (e.token.text ++ v) ∧ byteLength u = e.start ∧ Begins d r e.token v := by
  obtain ⟨a, b, hlex, hstart, -⟩ := mem_placed_iff.1 he
  obtain ⟨d, r, v, -, hbegins, rfl⟩ := lex_eq_cons_iff.1 (lex_textOf_suffix hlex)
  refine ⟨textOf a, d, r, v, ?_, ?_, hbegins⟩
  · have := textOf_lex s
    rwa [hlex, textOf_append, textOf_cons, textOf_lex, eq_comm] at this
  · rw [hstart, Nat.zero_add]

theorem slice?_of_mem_placed (he : e ∈ placed 0 0 (lex s)) :
    slice? s e.start e.stop = some e.token.text := by
  obtain ⟨u, d, r, v, rfl, hu, -⟩ := exists_of_mem_placed he
  rw [Placed.stop, ← hu]
  exact slice?_append u e.token.text v

theorem start_lt_stop (he : e ∈ placed 0 0 (lex s)) : e.start < e.stop := by
  obtain ⟨u, d, r, v, -, -, hbegins⟩ := exists_of_mem_placed he
  obtain ⟨body, htext, -⟩ := hbegins.self
  have := d.utf8Size_pos
  rw [Placed.stop, htext, byteLength_cons]
  omega

/-- The byte behind an element does not go on with it. -/
theorem eq_false_of_byteAt?_stop {p : Char → Bool} (hp : IsAscii p)
    (he : e ∈ placed 0 0 (lex s)) (hends : ∀ d, p d = true → e.token.endsBefore (some d) = false) :
    ∀ c ∈ byteAt? s e.stop, p c = false := by
  obtain ⟨u, d, r, v, rfl, hu, hbegins⟩ := exists_of_mem_placed he
  obtain ⟨-, -, -, -, hend⟩ := hbegins.self
  intro c hc
  have hany := hp.any_byteAt? v
  rw [Option.mem_def, Placed.stop, ← hu, ← byteLength_append, ← List.append_assoc,
    byteAt?_append] at hc
  rw [hc, Option.any_some] at hany
  rw [hany]
  cases hv : v.head? with
  | none => rfl
  | some d =>
    rw [hv] at hend
    by_contra hpd
    rw [Option.any_some, Bool.not_eq_false] at hpd
    rw [hends d hpd] at hend
    cases hend

/-- An ASCII byte of an element is one of its characters. -/
theorem exists_of_byteAt?_of_mem_placed (he : e ∈ placed 0 0 (lex s)) (hstart : e.start ≤ i)
    (hstop : i < e.stop) (hc : byteAt? s i = some c) (hascii : c.toNat < 128) :
    ∃ d r x y v, Begins d r e.token v ∧ e.token.text = x ++ c :: y ∧
      byteAt? s (i + 1) = byteAt? (y ++ v) 0 := by
  obtain ⟨u, d, r, v, rfl, hu, hbegins⟩ := exists_of_mem_placed he
  obtain ⟨k, rfl⟩ := Nat.exists_eq_add_of_le hstart
  have hk : k < byteLength e.token.text := by
    rw [Placed.stop] at hstop
    omega
  rw [← hu, byteAt?_append_add, byteAt?_append_of_lt v hk] at hc
  obtain ⟨x, y, hxy, rfl⟩ := exists_of_byteAt? hc hascii
  refine ⟨d, r, x, y, v, hbegins, hxy, ?_⟩
  have hsplit : u ++ (e.token.text ++ v) = (u ++ (x ++ [c])) ++ (y ++ v) := by
    rw [hxy]
    simp only [List.append_assoc, List.cons_append, List.nil_append]
  have hlen : e.start + byteLength x + 1 = byteLength (u ++ (x ++ [c])) := by
    simp only [byteLength_append, byteLength_cons, utf8Size_of_ascii hascii, byteLength_nil, hu]
    omega
  rw [hsplit, hlen, byteAt?_append]

end

/-! ## Bytes outside of literals and comments -/

/-- Whether a byte lies within the range. -/
def Span.covers (r : Span) (i : Nat) : Bool := r.start ≤ i && i < r.stop

/-- Whether a byte belongs to a literal, a quoted identifier or a comment. -/
def Survey.covers (v : Survey) (i : Nat) : Bool := v.regions.any (·.covers i)

/-- How often an ASCII character stands in front of an offset, outside of literals and comments. -/
def Survey.count (v : Survey) (s : Text) (c : Char) (n : Nat) : Nat :=
  (List.range n).countP fun i => byteAt? s i == some c && !v.covers i

section

variable {s : Text} {e : Placed} {i : Nat} {c : Char}

theorem covers_of_mem_placed (he : e ∈ placed 0 0 (lex s)) (hstart : e.start ≤ i)
    (hstop : i < e.stop) : (survey s).covers i = e.token.kind.isOpaque := by
  rw [Bool.eq_iff_iff, Survey.covers, List.any_eq_true]
  constructor
  · rintro ⟨r, hr, hcovers⟩
    obtain ⟨f, hf, hregion⟩ := mem_regions_iff.1 hr
    obtain ⟨hinside, hfstart, hfstop⟩ := Placed.region?_eq_some_iff.1 hregion
    simp only [Span.covers, Bool.and_eq_true, decide_eq_true_eq] at hcovers
    rcases apart_of_mem_placed he hf with rfl | h | h
    · exact hinside
    · omega
    · omega
  · intro hinside
    have hregion : e.region? = some ⟨e.start, e.stop⟩ := if_pos hinside
    refine ⟨_, mem_regions_iff.2 ⟨e, he, hregion⟩, ?_⟩
    simp only [Span.covers, Bool.and_eq_true, decide_eq_true_eq]
    exact ⟨hstart, hstop⟩

theorem exists_placed (hi : i < byteLength s) :
    ∃ e ∈ placed 0 0 (lex s), e.start ≤ i ∧ i < e.stop :=
  exists_placed_of_lt (Nat.zero_le i) (by rwa [Nat.zero_add, textOf_lex])

/-- A parenthesis counts if it is an element. -/
theorem count_stop {k : Kind} (hk : IsParen c k) (he : e ∈ placed 0 0 (lex s)) :
    (survey s).count s c e.stop =
      (survey s).count s c e.start + if e.token.kind = k then 1 else 0 := by
  have hascii : c.toNat < 128 := by cases hk <;> decide
  rw [Survey.count, Survey.count, Placed.stop, List.range_add, List.countP_append, List.countP_map]
  congr 1
  split
  · rename_i hkind
    obtain ⟨u, d, r, v, rfl, hu, hbegins⟩ := exists_of_mem_placed he
    have htext := hbegins.text_of_isParen hk hkind
    have hlen : byteLength e.token.text = 1 := by
      rw [htext, byteLength_cons, utf8Size_of_ascii hascii]
      rfl
    have hbyte : byteAt? (u ++ (e.token.text ++ v)) (e.start + 0) = some c := by
      rw [← hu, byteAt?_append_add, htext]
      exact byteAt?_ascii hascii v
    have hcovers := covers_of_mem_placed (i := e.start + 0) he (Nat.le_refl _) (start_lt_stop he)
    have hinside : e.token.kind.isOpaque = false := by
      rw [hkind]
      cases hk <;> rfl
    rw [hinside] at hcovers
    rw [hlen, List.range_one, List.countP_singleton, Function.comp_apply, hbyte, hcovers]
    simp
  · rename_i hkind
    rw [List.countP_eq_zero]
    intro j hj
    rw [List.mem_range] at hj
    have hstart : e.start ≤ e.start + j := Nat.le_add_right _ _
    have hstop : e.start + j < e.stop := Nat.add_lt_add_left hj _
    simp only [Function.comp_apply, Bool.and_eq_true, beq_iff_eq, Bool.not_eq_true']
    rintro ⟨hbyte, hcovers⟩
    rw [covers_of_mem_placed he hstart hstop] at hcovers
    obtain ⟨d, r, x, y, v, hbegins, htext, -⟩ :=
      exists_of_byteAt?_of_mem_placed he hstart hstop hbyte hascii
    refine hkind (hbegins.kind_of_isParen hk hcovers ?_)
    rw [htext]
    exact List.mem_append_right x List.mem_cons_self

/-- The depth of an element is the number of parentheses that open in front of it less the number of
those that close. -/
theorem depth_eq_count (he : e ∈ placed 0 0 (lex s)) :
    e.depth = (survey s).count s '(' e.start - (survey s).count s ')' e.start := by
  obtain ⟨a, b, hlex, hstart, hdepth⟩ := mem_placed_iff.1 he
  rw [hdepth, hstart, Nat.zero_add]
  generalize e.token :: b = b at hlex
  clear hdepth hstart he
  induction a using List.reverseRecOn generalizing b with
  | nil => rfl
  | append_singleton a t ih =>
    rw [List.append_assoc, List.singleton_append] at hlex
    have hmem : ⟨t, byteLength (textOf a), depthFrom 0 a⟩ ∈ placed 0 0 (lex s) :=
      mem_placed_iff.2 ⟨a, b, hlex, (Nat.zero_add _).symm, rfl⟩
    have hopening := count_stop .opening hmem
    have hclosing := count_stop .closing hmem
    have ih := ih _ hlex
    simp only [Placed.stop] at hopening hclosing
    have hlen : byteLength (textOf (a ++ [t])) = byteLength (textOf a) + byteLength t.text := by
      rw [textOf_append, byteLength_append, textOf_cons, textOf_nil, List.append_nil]
    rw [hlen, hopening, hclosing, depthFrom_append, ih, depthFrom_cons, depthFrom_nil]
    cases t.kind <;> simp [Kind.depthAfter] <;> omega

end

/-! ## Words, placeholders and regions -/

section

variable {s : Text} {e : Placed} {w : Word} {p : Placeholder} {r : Span}

/-- A word has the text between its offsets, which goes as far as it can, and the depth that the
parentheses in front of it make. It does not start inside a literal or a comment. -/
structure Word.Faithful (s : Text) (w : Word) : Prop where
  slice : slice? s w.start w.stop = some w.text
  ne_nil : w.text ≠ []
  chars : ∀ c ∈ w.text, isIdentChar c = true
  ends : ∀ c ∈ byteAt? s w.stop, isIdentChar c = false
  depth : w.depth = (survey s).count s '(' w.start - (survey s).count s ')' w.start
  outside : (survey s).isOpaque w.start = false

/-- A placeholder is a colon and its name, which goes as far as it can. It does not start inside a
literal or a comment. -/
structure Placeholder.Faithful (s : Text) (p : Placeholder) : Prop where
  slice : slice? s p.start p.stop = some (':' :: p.name)
  name : slice? s (p.start + 1) p.stop = some p.name
  starts : ∃ c body, p.name = c :: body ∧ isNameStart c = true
  chars : ∀ c ∈ p.name, isNameChar c = true
  ends : ∀ c ∈ byteAt? s p.stop, isNameChar c = false
  outside : (survey s).isOpaque p.start = false

/-- A region starts as a literal, a quoted identifier or a comment does. -/
structure Span.Faithful (s : Text) (r : Span) : Prop where
  slice : ∃ text, slice? s r.start r.stop = some text
  lt : r.start < r.stop
  opens : ∃ c, byteAt? s r.start = some c ∧ opensOpaque c (byteAt? s (r.start + 1)) = true

/-- No element starts inside a literal or a comment. -/
theorem isOpaque_start (he : e ∈ placed 0 0 (lex s)) : (survey s).isOpaque e.start = false := by
  have hlt := start_lt_stop he
  rw [Survey.isOpaque, List.any_eq_false]
  intro r hr
  obtain ⟨f, hf, hregion⟩ := mem_regions_iff.1 hr
  obtain ⟨-, hstart, hstop⟩ := Placed.region?_eq_some_iff.1 hregion
  simp only [Span.encloses, Bool.and_eq_true, decide_eq_true_eq, not_and]
  rcases apart_of_mem_placed he hf with rfl | h | h <;> omega

theorem faithful_of_word? (he : e ∈ placed 0 0 (lex s)) (h : e.word? = some w) :
    w.Faithful s := by
  have hslice := slice?_of_mem_placed he
  have hdepth := depth_eq_count he
  have houtside := isOpaque_start he
  have hends := eq_false_of_byteAt?_stop isAscii_isIdentChar he
  obtain ⟨u, d, r, v, -, -, hbegins⟩ := exists_of_mem_placed he
  rw [← Placed.stop_of_word? h] at hslice hends
  obtain ⟨hkind, hstart, htext, hopen⟩ := Placed.word?_eq_some_iff.1 h
  rw [← hstart, ← htext] at hslice
  rw [← hstart] at hdepth houtside
  refine ⟨hslice, ?_, ?_, hends fun d hd => ?_, hopen.trans hdepth, houtside⟩
  · obtain ⟨body, hbody, -⟩ := hbegins.self
    rw [htext, hbody]
    exact List.cons_ne_nil _ _
  · rw [htext]
    exact hbegins.isIdentChar_of_word hkind
  · rw [Token.endsBefore, hkind, hd]
    rfl

theorem faithful_of_placeholder? (he : e ∈ placed 0 0 (lex s)) (h : e.placeholder? = some p) :
    p.Faithful s := by
  have hslice := slice?_of_mem_placed he
  have houtside := isOpaque_start he
  have hends := eq_false_of_byteAt?_stop isAscii_isNameChar he
  obtain ⟨hkind, hstart, hstop, hname⟩ := Placed.placeholder?_eq_some_iff.1 h
  obtain ⟨u, d, r, v, hs, hu, hbegins⟩ := exists_of_mem_placed he
  obtain ⟨c, body, htext, hcstart, hchars⟩ := hbegins.placeholder_text hkind
  have hbody : p.name = c :: body := by rw [hname, htext, List.tail_cons]
  rw [htext, ← hbody, ← hstart, ← hstop] at hslice
  rw [← hstart] at houtside
  rw [← hstop] at hends
  refine ⟨hslice, ?_, ⟨c, body, hbody, hcstart⟩, by rwa [hbody], hends fun d hd => ?_, houtside⟩
  · obtain ⟨u, v, rfl, hu, hlen⟩ := slice?_eq_some_iff.1 hslice
    have hname := slice?_append (u ++ [':']) p.name v
    have hsplit : u ++ [':'] ++ (p.name ++ v) = u ++ (':' :: p.name ++ v) := by simp
    have hcolon : byteLength (u ++ [':']) = p.start + 1 := by
      rw [byteLength_append, hu]
      rfl
    have hend : p.start + 1 + byteLength p.name = p.stop := by
      rw [← hlen, hu, byteLength_cons, Nat.add_assoc]
      rfl
    rwa [hsplit, hcolon, hend] at hname
  · rw [Token.endsBefore, hkind, hd]
    rfl

/-- Whether a literal or a comment starts may be told by the next byte as by the next character. -/
theorem opensOpaque_byteAt? (c : Char) (w : Text) :
    opensOpaque c (byteAt? w 0) = opensOpaque c w.head? := by
  have hminus : (byteAt? w 0 == some '-') = (w.head? == some '-') := by
    rw [Bool.eq_iff_iff, beq_iff_eq, beq_iff_eq]
    exact byteAt?_zero_eq_some_iff (by decide)
  have hstar : (byteAt? w 0 == some '*') = (w.head? == some '*') := by
    rw [Bool.eq_iff_iff, beq_iff_eq, beq_iff_eq]
    exact byteAt?_zero_eq_some_iff (by decide)
  rw [opensOpaque, hminus, hstar, opensOpaque]

theorem isAscii_of_opensOpaque {c : Char} {next : Option Char} (h : opensOpaque c next = true) :
    c.toNat < 128 := by
  simp only [opensOpaque, Bool.or_eq_true, Bool.and_eq_true, beq_iff_eq] at h
  rcases h with ((rfl | rfl) | ⟨rfl, -⟩) | ⟨rfl, -⟩ <;> decide

theorem faithful_of_region? (he : e ∈ placed 0 0 (lex s)) (h : e.region? = some r) :
    r.Faithful s := by
  have hslice := slice?_of_mem_placed he
  have hlt := start_lt_stop he
  obtain ⟨hkind, hstart, hstop⟩ := Placed.region?_eq_some_iff.1 h
  rw [← hstart, ← hstop] at hslice hlt
  refine ⟨⟨_, hslice⟩, hlt, ?_⟩
  obtain ⟨u, d, x, v, rfl, hu, hbegins⟩ := exists_of_mem_placed he
  obtain ⟨body, htext, hx, -⟩ := hbegins.self
  rw [hbegins.isOpaque_eq, hx] at hkind
  have hascii := isAscii_of_opensOpaque hkind
  have hbehind : u ++ (e.token.text ++ v) = (u ++ [d]) ++ (body ++ v) := by simp [htext]
  have hlen : r.start + 1 = byteLength (u ++ [d]) := by
    rw [hstart, ← hu, byteLength_append, byteLength_cons, utf8Size_of_ascii hascii, byteLength_nil]
  refine ⟨d, ?_, ?_⟩
  · rw [hstart, ← hu, byteAt?_append, htext]
    exact byteAt?_ascii hascii _
  · rwa [hbehind, hlen, byteAt?_append, opensOpaque_byteAt?]

/-- Outside of literals and comments, none starts, and each identifier character belongs to a word or
to a placeholder. -/
theorem of_covers_eq_false {i : Nat} {c : Char} (hc : byteAt? s i = some c)
    (hcovers : (survey s).covers i = false) :
    opensOpaque c (byteAt? s (i + 1)) = false ∧
      (isIdentChar c = true → (∃ w ∈ (survey s).words, w.start ≤ i ∧ i < w.stop) ∨
        ∃ p ∈ (survey s).placeholders, p.start ≤ i ∧ i < p.stop) := by
  obtain ⟨e, he, hstart, hstop⟩ := exists_placed (lt_byteLength_of_byteAt? hc)
  rw [covers_of_mem_placed he hstart hstop] at hcovers
  constructor
  · by_contra hopens
    rw [Bool.not_eq_false] at hopens
    obtain ⟨d, r, x, y, v, hbegins, htext, hnext⟩ :=
      exists_of_byteAt?_of_mem_placed he hstart hstop hc (isAscii_of_opensOpaque hopens)
    rw [hnext, opensOpaque_byteAt?, hbegins.not_opens hcovers htext] at hopens
    cases hopens
  · intro hident
    obtain ⟨d, r, x, y, v, hbegins, htext, -⟩ :=
      exists_of_byteAt?_of_mem_placed he hstart hstop hc (isAscii_isIdentChar c hident)
    have hmem : c ∈ e.token.text := by
      rw [htext]
      exact List.mem_append_right x List.mem_cons_self
    rcases hbegins.kind_of_isIdentChar hmem hident with hkind | hkind | hkind
    · have hword : e.word? = some ⟨e.start, e.token.text, e.depth⟩ := if_pos hkind
      exact .inl ⟨_, mem_words_iff.2 ⟨e, he, hword⟩, hstart, hstop⟩
    · have hplaceholder : e.placeholder? = some ⟨e.start, e.stop, e.token.text.tail⟩ :=
        if_pos hkind
      exact .inr ⟨_, mem_placeholders_iff.2 ⟨e, he, hplaceholder⟩, hstart, hstop⟩
    · rw [hkind] at hcovers
      cases hcovers

/-! ## The whole survey -/

/-- An element is one of a word, a placeholder and an opaque region, or none of these. -/
theorem Placed.at_most_one (e : Placed) :
    (e.word? = none ∨ e.placeholder? = none) ∧ (e.region? = none ∨ e.word? = none) ∧
      (e.region? = none ∨ e.placeholder? = none) := by
  unfold word? placeholder? region?
  cases e.token.kind <;> simp [Kind.isOpaque]

/-- The words, the placeholders and the opaque regions of a survey stand each in order, and no two of
all have a byte in common. Each is what the bytes between its offsets make it, and what is outside of
all has neither the start of a literal or a comment nor an identifier character. -/
theorem survey_faithful (s : Text) :
    ((survey s).words.Pairwise (·.stop ≤ ·.start) ∧
      (survey s).placeholders.Pairwise (·.stop ≤ ·.start) ∧
      (survey s).regions.Pairwise (·.stop ≤ ·.start)) ∧
    ((∀ w ∈ (survey s).words, ∀ p ∈ (survey s).placeholders,
        w.stop ≤ p.start ∨ p.stop ≤ w.start) ∧
      ∀ r ∈ (survey s).regions, (∀ w ∈ (survey s).words, r.stop ≤ w.start ∨ w.stop ≤ r.start) ∧
        ∀ p ∈ (survey s).placeholders, r.stop ≤ p.start ∨ p.stop ≤ r.start) ∧
    (∀ w ∈ (survey s).words, w.Faithful s) ∧
    (∀ p ∈ (survey s).placeholders, p.Faithful s) ∧
    (∀ r ∈ (survey s).regions, r.Faithful s) ∧
    ∀ i c, byteAt? s i = some c → (survey s).covers i = false →
      opensOpaque c (byteAt? s (i + 1)) = false ∧
        (isIdentChar c = true → (∃ w ∈ (survey s).words, w.start ≤ i ∧ i < w.stop) ∨
          ∃ p ∈ (survey s).placeholders, p.start ≤ i ∧ i < p.stop) := by
  have happart := isRange_word?.apart isRange_placeholder? (fun e => e.at_most_one.1) 0 0 (lex s)
  have hwords := isRange_region?.apart isRange_word? (fun e => e.at_most_one.2.1) 0 0 (lex s)
  have hplaceholders :=
    isRange_region?.apart isRange_placeholder? (fun e => e.at_most_one.2.2) 0 0 (lex s)
  refine ⟨?_, ?_, fun w hw => ?_, fun p hp => ?_, fun r hr => ?_, fun i c hc => of_covers_eq_false hc⟩
  · rw [survey, ofTokens_eq_placed]
    exact ⟨isRange_word?.pairwise _ _ _, isRange_placeholder?.pairwise _ _ _,
      isRange_region?.pairwise _ _ _⟩
  · rw [survey, ofTokens_eq_placed]
    exact ⟨happart, fun r hr => ⟨hwords r hr, hplaceholders r hr⟩⟩
  · obtain ⟨e, he, hword⟩ := mem_words_iff.1 hw
    exact faithful_of_word? he hword
  · obtain ⟨e, he, hplaceholder⟩ := mem_placeholders_iff.1 hp
    exact faithful_of_placeholder? he hplaceholder
  · obtain ⟨e, he, hregion⟩ := mem_regions_iff.1 hr
    exact faithful_of_region? he hregion

/-- Parentheses in a comment and in a literal, a cast behind a placeholder, and an open comment. -/
def nestedSelect : Text :=
  "SELECT ((a)) /* ( */ FROM t WHERE b = :p::int AND c = ')''' -- (".toList

theorem survey_faithful_nestedSelect :
    (⟨9, ['a'], 2⟩ ∈ (survey nestedSelect).words ∧ Word.Faithful nestedSelect ⟨9, ['a'], 2⟩) ∧
    (⟨38, 40, ['p']⟩ ∈ (survey nestedSelect).placeholders ∧
      Placeholder.Faithful nestedSelect ⟨38, 40, ['p']⟩) ∧
    (⟨54, 59⟩ ∈ (survey nestedSelect).regions ∧ Span.Faithful nestedSelect ⟨54, 59⟩) ∧
    (byteAt? nestedSelect 11 = some ')' ∧ (survey nestedSelect).covers 11 = false ∧
      opensOpaque ')' (byteAt? nestedSelect 12) = false) := by
  obtain ⟨-, -, hwords, hplaceholders, hregions, houtside⟩ := survey_faithful nestedSelect
  have hword : ⟨9, ['a'], 2⟩ ∈ (survey nestedSelect).words := by decide +kernel
  have hplaceholder : ⟨38, 40, ['p']⟩ ∈ (survey nestedSelect).placeholders := by decide +kernel
  have hregion : ⟨54, 59⟩ ∈ (survey nestedSelect).regions := by decide +kernel
  have hbyte : byteAt? nestedSelect 11 = some ')' := by decide +kernel
  have hcovers : (survey nestedSelect).covers 11 = false := by decide +kernel
  exact ⟨⟨hword, hwords _ hword⟩, ⟨hplaceholder, hplaceholders _ hplaceholder⟩,
    ⟨hregion, hregions _ hregion⟩, hbyte, hcovers, (houtside 11 ')' hbyte hcovers).1⟩

end

end QueryClauses.Sql
