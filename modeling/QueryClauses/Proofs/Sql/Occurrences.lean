import Mathlib.Data.List.Basic
import QueryClauses.Proofs.Sql.Nesting
import QueryClauses.Proofs.Sql.Positional
import QueryClauses.Proofs.Sql.Regions

/-!
# The elements behind the offsets of a survey

A survey lists the words, the placeholders, and the literals and comments among the elements of a
text, each where it stands (`ofTokens_eq_placed`). So whatever it lists is an element, and starts
behind the elements in front of that (`exists_of_mem_words`, `exists_of_mem_placeholders`,
`exists_of_mem_regions`). Elements stand one behind the other, without gaps (`pairwise_placed`,
`exists_placed_of_lt`).
-/

namespace QueryClauses.Sql

/-- An element of two lists one behind the other is an element of one of them. -/
theorem append_eq_append_cons {α : Type} {l m a b : List α} {t : α} (h : l ++ m = a ++ t :: b) :
    (∃ b', l = a ++ t :: b' ∧ b = b' ++ m) ∨ ∃ a', a = l ++ a' ∧ m = a' ++ t :: b := by
  rcases List.append_eq_append_iff.1 h with ⟨a', rfl, hm⟩ | ⟨b', rfl, hb⟩
  · exact .inr ⟨a', rfl, hm⟩
  · cases b' with
    | nil => exact .inr ⟨[], by rw [List.append_nil, List.append_nil], hb.symm⟩
    | cons u b' =>
      cases hb
      exact .inl ⟨b', rfl, rfl⟩

/-! ## Elements in their places -/

/-- An element, the offset at which it starts, and how many parentheses are open there. -/
structure Placed where
  token : Token
  start : Nat
  depth : Int

namespace Placed

/-- The offset just past an element. -/
def stop (e : Placed) : Nat := e.start + Text.byteLength e.token.text

/-- The element as a word. -/
def word? (e : Placed) : Option Word :=
  if e.token.kind = .word then some ⟨e.start, e.token.text, e.depth⟩ else none

/-- The element as a placeholder. -/
def placeholder? (e : Placed) : Option Placeholder :=
  if e.token.kind = .placeholder then some ⟨e.start, e.stop, e.token.text.tail⟩ else none

/-- The range of the element, if it is a literal, a quoted identifier or a comment. -/
def region? (e : Placed) : Option Span :=
  if e.token.kind.isOpaque then some ⟨e.start, e.stop⟩ else none

end Placed

/-- Elements that start at offset `pos` with `depth` parentheses open, each in its place. -/
def placed (pos : Nat) (depth : Int) : List Token → List Placed
  | [] => []
  | t :: ts => ⟨t, pos, depth⟩ :: placed (pos + Text.byteLength t.text) (t.kind.depthAfter depth) ts

/-- A survey goes element by element. -/
theorem ofTokens_eq_placed (pos : Nat) (d : Int) (ts : List Token) :
    Survey.ofTokens pos d ts =
      ⟨(placed pos d ts).filterMap Placed.word?, (placed pos d ts).filterMap Placed.placeholder?,
        (placed pos d ts).filterMap Placed.region?⟩ := by
  induction ts generalizing pos d with
  | nil => rfl
  | cons t ts ih =>
    rw [Survey.ofTokens, ih]
    cases hk : t.kind <;>
      simp [placed, Placed.word?, Placed.placeholder?, Placed.region?, Placed.stop, hk, Kind.isOpaque]

theorem words_ofTokens_cons (pos : Nat) (d : Int) (t : Token) (ts : List Token) :
    (Survey.ofTokens pos d (t :: ts)).words =
      (if t.kind = .word then [⟨pos, t.text, d⟩] else []) ++
        (Survey.ofTokens (pos + Text.byteLength t.text) (t.kind.depthAfter d) ts).words := by
  cases hk : t.kind <;> simp [Survey.ofTokens, hk]

theorem mem_placed_iff {ts : List Token} {pos : Nat} {d : Int} {e : Placed} :
    e ∈ placed pos d ts ↔
      ∃ a b, ts = a ++ e.token :: b ∧ e.start = pos + Text.byteLength (textOf a) ∧
        e.depth = depthFrom d a := by
  constructor
  · intro he
    induction ts generalizing pos d with
    | nil => cases he
    | cons t ts ih =>
      rcases List.mem_cons.1 he with rfl | he
      · exact ⟨[], ts, rfl, rfl, rfl⟩
      · obtain ⟨a, b, rfl, hstart, hdepth⟩ := ih he
        refine ⟨t :: a, b, rfl, ?_, hdepth⟩
        rw [hstart, textOf_cons, Text.byteLength_append, Nat.add_assoc]
  · rintro ⟨a, b, rfl, hstart, hdepth⟩
    induction a generalizing pos d with
    | nil =>
      obtain ⟨t, start, depth⟩ := e
      obtain rfl : start = pos := hstart
      obtain rfl : depth = d := hdepth
      exact List.mem_cons_self
    | cons t a ih =>
      refine List.mem_cons_of_mem _ (ih ?_ hdepth)
      rw [hstart, textOf_cons, Text.byteLength_append, Nat.add_assoc]

theorem le_start_of_mem_placed {ts : List Token} {pos : Nat} {d : Int} {e : Placed}
    (he : e ∈ placed pos d ts) : pos ≤ e.start := by
  obtain ⟨a, b, -, hstart, -⟩ := mem_placed_iff.1 he
  omega

theorem stop_le_of_mem_placed {ts : List Token} {pos : Nat} {d : Int} {e : Placed}
    (he : e ∈ placed pos d ts) : e.stop ≤ pos + Text.byteLength (textOf ts) := by
  obtain ⟨a, b, rfl, hstart, -⟩ := mem_placed_iff.1 he
  rw [Placed.stop, hstart, textOf_append, textOf_cons, Text.byteLength_append,
    Text.byteLength_append]
  omega

/-- Elements stand one behind the other. -/
theorem pairwise_placed (pos : Nat) (d : Int) (ts : List Token) :
    (placed pos d ts).Pairwise (·.stop ≤ ·.start) := by
  induction ts generalizing pos d with
  | nil => exact .nil
  | cons t ts ih => exact .cons (fun e he => le_start_of_mem_placed he) (ih _ _)

/-- Two elements of a text that are not the same have no byte in common. -/
theorem apart_of_mem_placed {ts : List Token} {pos : Nat} {d : Int} {e f : Placed}
    (he : e ∈ placed pos d ts) (hf : f ∈ placed pos d ts) :
    e = f ∨ e.stop ≤ f.start ∨ f.stop ≤ e.start := by
  induction ts generalizing pos d with
  | nil => cases he
  | cons t ts ih =>
    rcases List.mem_cons.1 he with rfl | he' <;> rcases List.mem_cons.1 hf with rfl | hf'
    · exact .inl rfl
    · exact .inr (.inl (le_start_of_mem_placed hf'))
    · exact .inr (.inr (le_start_of_mem_placed he'))
    · exact ih he' hf'

/-- Every byte belongs to an element. -/
theorem exists_placed_of_lt {ts : List Token} {pos : Nat} {d : Int} {i : Nat} (hi : pos ≤ i)
    (hlt : i < pos + Text.byteLength (textOf ts)) : ∃ e ∈ placed pos d ts, e.start ≤ i ∧ i < e.stop := by
  induction ts generalizing pos d with
  | nil =>
    rw [textOf_nil, Text.byteLength_nil] at hlt
    omega
  | cons t ts ih =>
    rw [textOf_cons, Text.byteLength_append, ← Nat.add_assoc] at hlt
    rcases Nat.lt_or_ge i (pos + Text.byteLength t.text) with h | h
    · exact ⟨_, List.mem_cons_self, hi, h⟩
    · obtain ⟨e, he, hstart, hstop⟩ := ih (d := t.kind.depthAfter d) h hlt
      exact ⟨e, List.mem_cons_of_mem _ he, hstart, hstop⟩

/-! ## What a survey lists -/

section

variable {s : Text}

theorem mem_words_iff {w : Word} :
    w ∈ (survey s).words ↔ ∃ e ∈ placed 0 0 (lex s), e.word? = some w := by
  rw [survey, ofTokens_eq_placed, List.mem_filterMap]

theorem mem_placeholders_iff {p : Placeholder} :
    p ∈ (survey s).placeholders ↔ ∃ e ∈ placed 0 0 (lex s), e.placeholder? = some p := by
  rw [survey, ofTokens_eq_placed, List.mem_filterMap]

theorem mem_regions_iff {r : Span} :
    r ∈ (survey s).regions ↔ ∃ e ∈ placed 0 0 (lex s), e.region? = some r := by
  rw [survey, ofTokens_eq_placed, List.mem_filterMap]

theorem Placed.word?_eq_some_iff {e : Placed} {w : Word} :
    e.word? = some w ↔
      e.token.kind = .word ∧ w.start = e.start ∧ w.text = e.token.text ∧ w.depth = e.depth := by
  rw [word?]
  split
  · rename_i h
    obtain ⟨start, text, depth⟩ := w
    simp only [Option.some.injEq, Word.mk.injEq, h, true_and, eq_comm]
  · rename_i h
    simp [h]

theorem Placed.placeholder?_eq_some_iff {e : Placed} {p : Placeholder} :
    e.placeholder? = some p ↔
      e.token.kind = .placeholder ∧ p.start = e.start ∧ p.stop = e.stop ∧
        p.name = e.token.text.tail := by
  rw [placeholder?]
  split
  · rename_i h
    obtain ⟨start, stop, name⟩ := p
    simp only [Option.some.injEq, Placeholder.mk.injEq, h, true_and, eq_comm]
  · rename_i h
    simp [h]

theorem Placed.region?_eq_some_iff {e : Placed} {r : Span} :
    e.region? = some r ↔ e.token.kind.isOpaque = true ∧ r.start = e.start ∧ r.stop = e.stop := by
  rw [region?]
  split
  · rename_i h
    obtain ⟨start, stop⟩ := r
    simp only [Option.some.injEq, Span.mk.injEq, h, true_and, eq_comm]
  · rename_i h
    simp [h]

theorem Placed.stop_of_word? {e : Placed} {w : Word} (h : e.word? = some w) : w.stop = e.stop := by
  obtain ⟨-, hstart, htext, -⟩ := word?_eq_some_iff.1 h
  rw [Word.stop, hstart, htext, stop]

theorem exists_of_mem_words {w : Word} (hw : w ∈ (survey s).words) :
    ∃ a t b, lex s = a ++ t :: b ∧ t.kind = .word ∧ w.text = t.text ∧
      w.start = Text.byteLength (textOf a) ∧ w.depth = depthFrom 0 a := by
  obtain ⟨e, he, hword⟩ := mem_words_iff.1 hw
  obtain ⟨hkind, hstart, htext, hdepth⟩ := Placed.word?_eq_some_iff.1 hword
  obtain ⟨a, b, hlex, hoffset, hopen⟩ := mem_placed_iff.1 he
  exact ⟨a, e.token, b, hlex, hkind, htext, by omega, by omega⟩

theorem exists_of_mem_placeholders {p : Placeholder} (hp : p ∈ (survey s).placeholders) :
    ∃ a t b, lex s = a ++ t :: b ∧ t.kind = .placeholder ∧ p.name = t.text.tail ∧
      p.start = Text.byteLength (textOf a) ∧ p.stop = p.start + Text.byteLength t.text := by
  obtain ⟨e, he, hplaceholder⟩ := mem_placeholders_iff.1 hp
  obtain ⟨hkind, hstart, hstop, hname⟩ := Placed.placeholder?_eq_some_iff.1 hplaceholder
  obtain ⟨a, b, hlex, hoffset, -⟩ := mem_placed_iff.1 he
  exact ⟨a, e.token, b, hlex, hkind, hname, by omega, by rw [hstop, hstart, Placed.stop]⟩

theorem exists_of_mem_regions {r : Span} (hr : r ∈ (survey s).regions) :
    ∃ a t b, lex s = a ++ t :: b ∧ t.kind.isOpaque = true ∧
      r.start = Text.byteLength (textOf a) ∧ r.stop = r.start + Text.byteLength t.text := by
  obtain ⟨e, he, hregion⟩ := mem_regions_iff.1 hr
  obtain ⟨hkind, hstart, hstop⟩ := Placed.region?_eq_some_iff.1 hregion
  obtain ⟨a, b, hlex, hoffset, -⟩ := mem_placed_iff.1 he
  exact ⟨a, e.token, b, hlex, hkind, by omega, by rw [hstop, hstart, Placed.stop]⟩

theorem mem_placeholders {a b : List Token} {t : Token} (hlex : lex s = a ++ t :: b)
    (ht : t.kind = .placeholder) :
    ⟨Text.byteLength (textOf a), Text.byteLength (textOf a) + Text.byteLength t.text,
      t.text.tail⟩ ∈ (survey s).placeholders := by
  have he : ⟨t, Text.byteLength (textOf a), depthFrom 0 a⟩ ∈ placed 0 0 (lex s) :=
    mem_placed_iff.2 ⟨a, b, hlex, (Nat.zero_add _).symm, rfl⟩
  exact mem_placeholders_iff.2 ⟨_, he, Placed.placeholder?_eq_some_iff.2 ⟨ht, rfl, rfl, rfl⟩⟩

end

/-! ## Ranges -/

section

variable {α β : Type} {f : Placed → Option α} {g : Placed → Option β} {start stop : α → Nat}
  {start' stop' : β → Nat}

/-- What is made of an element has the range of the element. -/
def IsRange (f : Placed → Option α) (start stop : α → Nat) : Prop :=
  ∀ e x, f e = some x → start x = e.start ∧ stop x = e.stop

theorem isRange_word? : IsRange Placed.word? Word.start Word.stop := fun _ _ h =>
  ⟨(Placed.word?_eq_some_iff.1 h).2.1, Placed.stop_of_word? h⟩

theorem isRange_placeholder? :
    IsRange Placed.placeholder? Placeholder.start Placeholder.stop := fun _ _ h =>
  ⟨(Placed.placeholder?_eq_some_iff.1 h).2.1, (Placed.placeholder?_eq_some_iff.1 h).2.2.1⟩

theorem isRange_region? : IsRange Placed.region? Span.start Span.stop := fun _ _ h =>
  ⟨(Placed.region?_eq_some_iff.1 h).2.1, (Placed.region?_eq_some_iff.1 h).2.2⟩

/-- What is made of elements stands in order. -/
theorem IsRange.pairwise (hf : IsRange f start stop) (pos : Nat) (d : Int) (ts : List Token) :
    ((placed pos d ts).filterMap f).Pairwise fun x y => stop x ≤ start y := by
  refine (pairwise_placed pos d ts).filterMap f ?_
  intro e e' hle x hx y hy
  rw [(hf e x hx).2, (hf e' y hy).1]
  exact hle

/-- What is made of different elements has no byte in common. -/
theorem IsRange.apart (hf : IsRange f start stop) (hg : IsRange g start' stop')
    (hne : ∀ e, f e = none ∨ g e = none) (pos : Nat) (d : Int) (ts : List Token) :
    ∀ x ∈ (placed pos d ts).filterMap f, ∀ y ∈ (placed pos d ts).filterMap g,
      stop x ≤ start' y ∨ stop' y ≤ start x := by
  intro x hx y hy
  obtain ⟨e, he, hex⟩ := List.mem_filterMap.1 hx
  obtain ⟨e', he', hey⟩ := List.mem_filterMap.1 hy
  rw [(hf e x hex).1, (hf e x hex).2, (hg e' y hey).1, (hg e' y hey).2]
  rcases apart_of_mem_placed he he' with rfl | h
  · rcases hne e with hnone | hnone
    · rw [hex] at hnone
      cases hnone
    · rw [hey] at hnone
      cases hnone
  · exact h

end

end QueryClauses.Sql
