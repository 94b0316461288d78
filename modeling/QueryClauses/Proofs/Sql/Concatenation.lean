import QueryClauses.Sql.Clause
import Mathlib.Data.List.DropRight
import Mathlib.Data.List.TakeWhile

/-!
# The elements of joined texts

What an element is depends on its own text and on one further character: the one that might go on
with it (`Token.endsBefore`). So the elements of two texts one behind the other are those of the
first and those of the second, unless the last element of the first goes on into the second
(`lex_append`); and a cut between two elements leaves both sides with the elements they had
(`lex_textOf_prefix`, `lex_textOf_suffix`).

A character that goes on with nothing but an open literal or comment is a break. Behind a text whose
literals and comments are closed, a text that starts with a break keeps its elements
(`lex_append_of_isClosed`).
-/

namespace QueryClauses.Sql

open CharClass

/-! ## Closed elements -/

/-- Whether a literal, a quoted identifier or a comment has its end: the quotes behind the opening
one are odd in number, a comment ends on the star and slash or on the line feed. -/
def Token.isClosed (t : Token) : Bool :=
  match t.kind, t.text with
  | .quoted, quote :: body => body.count quote % 2 == 1
  | .comment, '-' :: '-' :: body => body.getLast? == some '\n'
  | .comment, '/' :: '*' :: body => ['*', '/'].isSuffixOf body
  | _, _ => true

/-- Whether an element ends where the next character, if there is one, is `next`. -/
def Token.endsBefore (t : Token) : Option Char → Bool
  | none => true
  | some c =>
    match t.kind with
    | .word => !isIdentChar c
    | .placeholder => !isNameChar c
    | .quoted => t.isClosed && t.text.head? != some c
    | .comment => t.isClosed
    | .opening | .closing => true
    | .other =>
      !(t.text == ['-'] && c == '-' || t.text == ['/'] && c == '*' ||
        t.text == [':'] && (c == ':' || isNameStart c))

@[simp] theorem Token.endsBefore_none (t : Token) : t.endsBefore none = true := rfl

/-- A character that no closed element goes on with. -/
def isBreak (c : Char) : Bool := !(isIdentChar c || ['\'', '"', '-', '*', ':'].contains c)

/-! ## One element -/

@[simp] theorem textOf_nil : textOf [] = [] := rfl

@[simp] theorem textOf_cons (t : Token) (ts : List Token) :
    textOf (t :: ts) = t.text ++ textOf ts := rfl

@[simp] theorem textOf_append (a b : List Token) : textOf (a ++ b) = textOf a ++ textOf b :=
  List.flatMap_append

@[simp] theorem textOf_lex (s : Text) : textOf (lex s) = s := flatMap_text_lex s

theorem lex_nil : lex [] = [] := by rw [lex]

theorem lex_cons (c : Char) (s : Text) : lex (c :: s) = (munch c s).1 :: lex (munch c s).2 := by
  rw [lex]

theorem lex_eq_nil_iff {s : Text} : lex s = [] ↔ s = [] := by
  cases s with
  | nil => simp [lex_nil]
  | cons c s => simp [lex_cons]

theorem munchQuoted_append_right {quote : Char} {s r : Text} (hs : (munchQuoted quote s).2 = [])
    (hc : s.count quote % 2 = 1) (hr : r.head? ≠ some quote) :
    munchQuoted quote (s ++ r) = (s, r) := by
  fun_induction munchQuoted quote s with
  | case1 => simp at hc
  | case2 c =>
    have hcq : c = quote := by
      by_contra h
      simp [h] at hc
    subst hcq
    cases r with
    | nil => simp [munchQuoted]
    | cons d r =>
      have hd : d ≠ c := by simpa using hr
      simp [munchQuoted, hd]
  | case3 s body rest h ih =>
    have hc' : s.count quote % 2 = 1 := by
      simp only [List.count_cons_self] at hc
      omega
    have := ih (by rw [h]; exact hs) hc'
    simp [munchQuoted, this]
  | case4 d s hd => simp at hs
  | case5 c d s hcq body rest h ih =>
    have hc' : (d :: s).count quote % 2 = 1 := by
      rwa [List.count_cons_of_ne hcq] at hc
    have := ih (by rw [h]; exact hs) hc'
    simp only [List.cons_append] at this
    simp [munchQuoted, hcq, this]

/-- What a quoted region leaves over plays no part in it. -/
theorem munchQuoted_self (quote : Char) (s : Text) :
    munchQuoted quote (munchQuoted quote s).1 = ((munchQuoted quote s).1, []) := by
  fun_induction munchQuoted quote s with
  | case1 => simp [munchQuoted]
  | case2 c => simp [munchQuoted]
  | case3 s body rest h ih =>
    rw [h] at ih
    simp [munchQuoted, ih]
  | case4 d s hd => simp [munchQuoted]
  | case5 c d s hcq body rest h ih =>
    rw [h] at ih
    cases body with
    | nil => simp [munchQuoted]
    | cons e body => simp [munchQuoted, hcq, ih]

/-- A quoted region that leaves something over has an odd number of quotes, and no quote follows. -/
theorem munchQuoted_closed {quote : Char} {s : Text} (h : (munchQuoted quote s).2 ≠ []) :
    (munchQuoted quote s).1.count quote % 2 = 1 ∧ (munchQuoted quote s).2.head? ≠ some quote := by
  fun_induction munchQuoted quote s with
  | case1 => simp at h
  | case2 c => simp at h
  | case3 s body rest heq ih =>
    rw [heq] at ih
    obtain ⟨hc, hr⟩ := ih h
    refine ⟨?_, hr⟩
    simp only [List.count_cons_self] at hc ⊢
    omega
  | case4 d s hd => simpa using hd
  | case5 c d s hcq body rest heq ih =>
    rw [heq] at ih
    obtain ⟨hc, hr⟩ := ih h
    refine ⟨?_, hr⟩
    rwa [List.count_cons_of_ne hcq]

theorem munchLine_append_right {s r : Text} (hs : (munchLine s).2 = [])
    (hc : s.getLast? = some '\n') : munchLine (s ++ r) = (s, r) := by
  fun_induction munchLine s with
  | case1 => simp at hc
  | case2 s => simp_all [munchLine]
  | case3 c s hcn body rest h ih =>
    have hne : s ≠ [] := by
      rintro rfl
      simp [hcn] at hc
    have hc' : s.getLast? = some '\n' := by
      rwa [List.getLast?_cons_of_ne_nil hne] at hc
    have := ih (by rw [h]; exact hs) hc'
    simp [munchLine, hcn, this]

/-- What a line comment leaves over plays no part in it. -/
theorem munchLine_self (s : Text) : munchLine (munchLine s).1 = ((munchLine s).1, []) := by
  fun_induction munchLine s with
  | case1 => simp [munchLine]
  | case2 s => simp [munchLine]
  | case3 c s hcn body rest h ih =>
    rw [h] at ih
    simp [munchLine, hcn, ih]

/-- A line comment that leaves something over ends on a line feed. -/
theorem munchLine_closed {s : Text} (h : (munchLine s).2 ≠ []) :
    (munchLine s).1.getLast? = some '\n' := by
  fun_induction munchLine s with
  | case1 => simp at h
  | case2 s => rfl
  | case3 c s hcn body rest heq ih =>
    rw [heq] at ih
    have hl := ih h
    have hne : body ≠ [] := by
      rintro rfl
      simp at hl
    rwa [List.getLast?_cons_of_ne_nil hne]

theorem munchBlock_append_right {s r : Text} (hs : (munchBlock s).2 = [])
    (hc : ['*', '/'] <:+ s) : munchBlock (s ++ r) = (s, r) := by
  fun_induction munchBlock s with
  | case1 => simp at hc
  | case2 c => simpa using hc.length_le
  | case3 c d s h => simp_all [munchBlock]
  | case4 c d s h body rest heq ih =>
    have hc' : ['*', '/'] <:+ d :: s := by
      rcases List.suffix_cons_iff.1 hc with hc | hc
      · simp only [List.cons.injEq] at hc
        exact absurd ⟨hc.1.symm, hc.2.1.symm⟩ h
      · exact hc
    have := ih (by rw [heq]; exact hs) hc'
    simp only [List.cons_append] at this
    simp [munchBlock, h, this]

/-- What a block comment leaves over plays no part in it. -/
theorem munchBlock_self (s : Text) : munchBlock (munchBlock s).1 = ((munchBlock s).1, []) := by
  fun_induction munchBlock s with
  | case1 => simp [munchBlock]
  | case2 c => simp [munchBlock]
  | case3 c d s h => simp [munchBlock, h]
  | case4 c d s h body rest heq ih =>
    have hs := munchBlock_append (d :: s)
    rw [heq] at ih hs
    cases body with
    | nil => simp [munchBlock]
    | cons e body =>
      have he : e = d := by
        simp only [List.cons_append, List.cons.injEq] at hs
        exact hs.1
      subst he
      simp [munchBlock, h, ih]

/-- A block comment that leaves something over ends on its star and slash. -/
theorem munchBlock_closed {s : Text} (h : (munchBlock s).2 ≠ []) :
    ['*', '/'] <:+ (munchBlock s).1 := by
  fun_induction munchBlock s with
  | case1 => simp at h
  | case2 c => simp at h
  | case3 c d s h' => simp [h']
  | case4 c d s h' body rest heq ih =>
    rw [heq] at ih
    exact (ih h).trans (List.suffix_cons c body)

theorem endsBefore_single {c d : Char} :
    Token.endsBefore ⟨.other, [c]⟩ (some d) = true ↔
      ¬(c = '-' ∧ d = '-') ∧ ¬(c = '/' ∧ d = '*') ∧
        ¬(c = ':' ∧ (d = ':' ∨ isNameStart d = true)) := by
  simp [Token.endsBefore, and_assoc, imp_iff_not_or]

/-- The elements by how they begin: `Begins c s t r` if the element that starts with `c`, in front of
`s`, is `t`, and `r` is what it leaves over. -/
inductive Begins : Char → Text → Token → Text → Prop
  | quoted {quote : Char} {s body r : Text} (hq : quote = '\'' ∨ quote = '"')
      (h : munchQuoted quote s = (body, r)) : Begins quote s ⟨.quoted, quote :: body⟩ r
  | line {s body r : Text} (h : munchLine s = (body, r)) :
      Begins '-' ('-' :: s) ⟨.comment, '-' :: '-' :: body⟩ r
  | block {s body r : Text} (h : munchBlock s = (body, r)) :
      Begins '/' ('*' :: s) ⟨.comment, '/' :: '*' :: body⟩ r
  | opening {s : Text} : Begins '(' s ⟨.opening, ['(']⟩ s
  | closing {s : Text} : Begins ')' s ⟨.closing, [')']⟩ s
  | cast {s : Text} : Begins ':' (':' :: s) ⟨.other, [':', ':']⟩ s
  | placeholder {c : Char} {s : Text} (hc : isNameStart c = true) :
      Begins ':' (c :: s) ⟨.placeholder, ':' :: (c :: s).takeWhile isNameChar⟩
        ((c :: s).dropWhile isNameChar)
  | word {c : Char} {s : Text} (hc : isIdentChar c = true) :
      Begins c s ⟨.word, c :: s.takeWhile isIdentChar⟩ (s.dropWhile isIdentChar)
  | other {c : Char} {s : Text} (hc : isIdentChar c = false)
      (hne : ['\'', '"', '(', ')'].contains c = false)
      (hends : Token.endsBefore ⟨.other, [c]⟩ s.head? = true) : Begins c s ⟨.other, [c]⟩ s

theorem begins_munchColon (s : Text) : Begins ':' s (munchColon s).1 (munchColon s).2 := by
  fun_cases munchColon s with
  | case1 => exact .other rfl rfl rfl
  | case2 s => exact .cast
  | case3 c s hc hstart => exact .placeholder hstart
  | case4 c s hc hstart =>
    refine .other rfl rfl ?_
    simp [Token.endsBefore, hc, hstart]

theorem begins_munch (c : Char) (s : Text) : Begins c s (munch c s).1 (munch c s).2 := by
  unfold munch
  split
  · rename_i hq
    exact .quoted hq rfl
  rename_i hq
  split
  · rename_i h
    obtain ⟨rfl, h⟩ := h
    obtain ⟨t, rfl⟩ := List.head?_eq_some_iff.1 h
    exact .line rfl
  rename_i hline
  split
  · rename_i h
    obtain ⟨rfl, h⟩ := h
    obtain ⟨t, rfl⟩ := List.head?_eq_some_iff.1 h
    exact .block rfl
  rename_i hblock
  split
  · rename_i h
    subst h
    exact .opening
  rename_i hopen
  split
  · rename_i h
    subst h
    exact .closing
  rename_i hclose
  split
  · rename_i h
    subst h
    exact begins_munchColon s
  rename_i hcolon
  split
  · rename_i h
    exact .word h
  · rename_i h
    refine .other (by simpa using h) ?_ ?_
    · simp only [not_or] at hq
      simp [hq.1, hq.2, hopen, hclose]
    · rcases s with _ | ⟨d, s⟩
      · rfl
      · simp only [List.head?_cons, Option.some.injEq] at hline hblock
        exact endsBefore_single.2 ⟨hline, hblock, fun h => hcolon h.1⟩

theorem Begins.munch_eq {c : Char} {s r : Text} {t : Token} (h : Begins c s t r) :
    munch c s = (t, r) := by
  cases h with
  | quoted hq h => simp [munch, hq, h]
  | line h => simp [munch, h]
  | block h => simp [munch, h]
  | opening => rfl
  | closing => rfl
  | cast => rfl
  | @placeholder c s hc =>
    have hne : c ≠ ':' := by
      rintro rfl
      exact absurd hc (by decide)
    simp [munch, munchColon, hne, hc]
  | word hc =>
    have hne : ∀ d, isIdentChar d = false → c ≠ d := by
      rintro d hd rfl
      simp [hd] at hc
    simp [munch, hc, hne '\'' rfl, hne '"' rfl, hne '-' rfl, hne '/' rfl, hne '(' rfl, hne ')' rfl,
      hne ':' rfl]
  | other hc hne hends =>
    simp only [List.contains_cons, List.contains_nil, Bool.or_false, Bool.or_eq_false_iff,
      beq_eq_false_iff_ne, ne_eq] at hne
    obtain ⟨h₁, h₂, h₃, h₄⟩ := hne
    rcases s with _ | ⟨d, s⟩
    · by_cases hcolon : c = ':'
      · subst hcolon
        rfl
      · simp [munch, hc, h₁, h₂, h₃, h₄, hcolon]
    · obtain ⟨hline, hblock, hcolon⟩ := endsBefore_single.1 hends
      by_cases h : c = ':'
      · subst h
        simp only [true_and, not_or] at hcolon
        simp [munch, munchColon, hcolon.1, hcolon.2]
      · simp [munch, hc, h₁, h₂, h₃, h₄, h, hline, hblock]

theorem munch_eq_iff {c : Char} {s r : Text} {t : Token} :
    munch c s = (t, r) ↔ Begins c s t r := by
  constructor
  · intro h
    have := begins_munch c s
    rwa [h] at this
  · exact Begins.munch_eq

theorem takeWhile_append_of_end {p : Char → Bool} {s r : Text} (hs : s.dropWhile p = [])
    (hr : ∀ c ∈ r.head?, p c = false) :
    (s ++ r).takeWhile p = s.takeWhile p ∧ (s ++ r).dropWhile p = r := by
  rw [List.dropWhile_eq_nil_iff] at hs
  have hself : s.takeWhile p = s := List.takeWhile_eq_self_iff.2 hs
  rcases r with _ | ⟨d, r⟩
  · simpa using hs
  · have hd : p d = false := hr d rfl
    simp [List.takeWhile_append_of_pos hs, List.dropWhile_append_of_pos hs, hd, hself]

/-- An element that makes up a text is still one in front of a text that it ends before. -/
theorem Begins.append_right {c : Char} {s r : Text} {t : Token} (h : Begins c s t [])
    (hr : t.endsBefore r.head? = true) : Begins c (s ++ r) t r := by
  rcases r with _ | ⟨d, r⟩
  · simpa using h
  generalize hn : ([] : Text) = n at h
  cases h with
  | quoted hq h =>
    subst hn
    have hs := munchQuoted_append c s
    rw [h, List.append_nil] at hs
    simp only at hs
    subst hs
    simp [Token.endsBefore, Token.isClosed] at hr
    refine .quoted hq (munchQuoted_append_right (by rw [h]) hr.1 ?_)
    simpa using fun h => hr.2 h.symm
  | @line s body _ h =>
    subst hn
    have hs := munchLine_append s
    rw [h, List.append_nil] at hs
    simp only at hs
    subst hs
    simp [Token.endsBefore, Token.isClosed] at hr
    exact .line (munchLine_append_right (by rw [h]) hr)
  | @block s body _ h =>
    subst hn
    have hs := munchBlock_append s
    rw [h, List.append_nil] at hs
    simp only at hs
    subst hs
    simp [Token.endsBefore, Token.isClosed] at hr
    exact .block (munchBlock_append_right (by rw [h]) hr)
  | opening =>
    subst hn
    exact .opening
  | closing =>
    subst hn
    exact .closing
  | cast =>
    subst hn
    exact .cast
  | @placeholder c s hc =>
    obtain ⟨h₁, h₂⟩ := takeWhile_append_of_end hn.symm (r := d :: r)
      (by simpa [Token.endsBefore] using hr)
    have h := Begins.placeholder (s := s ++ d :: r) hc
    rw [← List.cons_append, h₁, h₂] at h
    exact h
  | word hc =>
    obtain ⟨h₁, h₂⟩ := takeWhile_append_of_end hn.symm (r := d :: r)
      (by simpa [Token.endsBefore] using hr)
    have h := Begins.word (s := s ++ d :: r) hc
    rwa [h₁, h₂] at h
  | other hc hne hends =>
    subst hn
    exact .other hc hne hr

theorem dropWhile_takeWhile (p : Char → Bool) (s : Text) : (s.takeWhile p).dropWhile p = [] :=
  List.dropWhile_eq_nil_iff.2 fun _ hx => List.mem_takeWhile_imp hx

theorem endsBefore_dropWhile {t : Token} {p : Char → Bool}
    (h : ∀ d, p d = false → t.endsBefore (some d) = true) (s : Text) :
    t.endsBefore (s.dropWhile p).head? = true := by
  have hhead := List.head?_dropWhile_not p s
  rcases hd : (s.dropWhile p).head? with _ | d
  · rfl
  · rw [hd] at hhead
    exact h d hhead

/-- What an element leaves over plays no part in it but that the element ends there. -/
theorem Begins.self {c : Char} {s r : Text} {t : Token} (h : Begins c s t r) :
    ∃ body, t.text = c :: body ∧ s = body ++ r ∧ Begins c body t [] ∧
      t.endsBefore r.head? = true := by
  cases h with
  | @quoted _ _ body _ hq h =>
    have happ := munchQuoted_append c s
    have hself := munchQuoted_self c s
    have hclosed := @munchQuoted_closed c s
    simp only [h] at happ hself hclosed
    refine ⟨body, rfl, happ.symm, .quoted hq hself, ?_⟩
    rcases r with _ | ⟨d, r⟩
    · rfl
    · obtain ⟨hc, hd⟩ := hclosed (List.cons_ne_nil d r)
      simp only [List.head?_cons, ne_eq, Option.some.injEq] at hd
      simp [Token.endsBefore, Token.isClosed, hc, Ne.symm hd]
  | @line s body _ h =>
    have happ := munchLine_append s
    have hself := munchLine_self s
    have hclosed := munchLine_closed (s := s)
    simp only [h] at happ hself hclosed
    refine ⟨'-' :: body, rfl, by simp [happ], .line hself, ?_⟩
    rcases r with _ | ⟨d, r⟩
    · rfl
    · simp [Token.endsBefore, Token.isClosed, hclosed (List.cons_ne_nil d r)]
  | @block s body _ h =>
    have happ := munchBlock_append s
    have hself := munchBlock_self s
    have hclosed := munchBlock_closed (s := s)
    simp only [h] at happ hself hclosed
    refine ⟨'*' :: body, rfl, by simp [happ], .block hself, ?_⟩
    rcases r with _ | ⟨d, r⟩
    · rfl
    · simp [Token.endsBefore, Token.isClosed, hclosed (List.cons_ne_nil d r)]
  | opening => exact ⟨[], rfl, rfl, .opening, by cases s <;> rfl⟩
  | closing => exact ⟨[], rfl, rfl, .closing, by cases s <;> rfl⟩
  | cast => exact ⟨[':'], rfl, rfl, .cast, by cases r <;> simp [Token.endsBefore]⟩
  | @placeholder c s hc =>
    have hself := Begins.placeholder (s := s.takeWhile isNameChar) hc
    rw [← List.takeWhile_cons_of_pos (isNameChar_of_isNameStart hc), dropWhile_takeWhile,
      List.takeWhile_takeWhile] at hself
    simp only [and_self, Bool.decide_eq_true] at hself
    exact ⟨_, rfl, List.takeWhile_append_dropWhile.symm, hself,
      endsBefore_dropWhile (fun d hd => by simp [Token.endsBefore, hd]) _⟩
  | @word _ s hc =>
    have hself := Begins.word (s := s.takeWhile isIdentChar) hc
    rw [dropWhile_takeWhile, List.takeWhile_takeWhile] at hself
    simp only [and_self, Bool.decide_eq_true] at hself
    exact ⟨_, rfl, List.takeWhile_append_dropWhile.symm, hself,
      endsBefore_dropWhile (fun d hd => by simp [Token.endsBefore, hd]) _⟩
  | other hc hne hends => exact ⟨[], rfl, rfl, .other hc hne rfl, hends⟩

/-! ## All elements -/

theorem lex_eq_cons_iff {s : Text} {t : Token} {ts : List Token} :
    lex s = t :: ts ↔ ∃ c r rest, s = c :: r ∧ Begins c r t rest ∧ lex rest = ts := by
  constructor
  · intro h
    rcases s with _ | ⟨c, r⟩
    · simp [lex_nil] at h
    · rw [lex_cons, List.cons.injEq] at h
      exact ⟨c, r, _, rfl, h.1 ▸ begins_munch c r, h.2⟩
  · rintro ⟨c, r, rest, rfl, hb, rfl⟩
    rw [lex_cons, hb.munch_eq]

/-- The elements of two texts, one behind the other. -/
theorem lex_append {s r : Text} (h : ∀ t ∈ (lex s).getLast?, t.endsBefore r.head? = true) :
    lex (s ++ r) = lex s ++ lex r := by
  fun_induction lex s with
  | case1 => rfl
  | case2 c s ih =>
    obtain ⟨body, htext, hs, hself, hend⟩ := (begins_munch c s).self
    generalize hm : (munch c s).1 = t at *
    generalize (munch c s).2 = rest at *
    rcases rest with _ | ⟨d, rest⟩
    · have ht : t.endsBefore r.head? = true := h t (by simp [lex_nil])
      rw [List.append_nil] at hs
      subst hs
      rw [List.cons_append, lex_cons, (hself.append_right ht).munch_eq, lex_nil]
      rfl
    · have hlast : ∀ u ∈ (lex (d :: rest)).getLast?, u.endsBefore r.head? = true := by
        intro u hu
        apply h u
        rw [List.getLast?_cons_of_ne_nil (fun h => by simp [lex_eq_nil_iff] at h)]
        exact hu
      have hb : Begins c (s ++ r) t (d :: rest ++ r) := by
        rw [hs, List.append_assoc]
        exact hself.append_right hend
      rw [List.cons_append, lex_cons, hb.munch_eq, ih hlast]
      rfl

/-- Behind a cut between two elements the text has the elements that it had there. -/
theorem lex_textOf_suffix {s : Text} {a b : List Token} (h : lex s = a ++ b) :
    lex (textOf b) = b := by
  induction a generalizing s with
  | nil =>
    rw [List.nil_append] at h
    rw [← h, textOf_lex]
  | cons t a ih =>
    obtain ⟨c, r, rest, -, -, hrest⟩ := lex_eq_cons_iff.1 h
    exact ih hrest

/-- In front of a cut between two elements the text has the elements that it had there. -/
theorem lex_textOf_prefix {s : Text} {a b : List Token} (h : lex s = a ++ b) :
    lex (textOf a) = a := by
  induction a generalizing s with
  | nil => simp [lex_nil]
  | cons t a ih =>
    obtain ⟨c, r, rest, rfl, hb, hrest⟩ := lex_eq_cons_iff.1 h
    obtain ⟨body, htext, -, hself, hend⟩ := hb.self
    have hrest' : rest = textOf a ++ textOf b := by
      rw [← textOf_lex rest, hrest]
      exact textOf_append a b
    have hend' : t.endsBefore (textOf a).head? = true := by
      rcases hta : textOf a with _ | ⟨d, u⟩
      · rfl
      · rwa [hrest', hta] at hend
    refine lex_eq_cons_iff.2 ⟨c, body ++ textOf a, textOf a, ?_, hself.append_right hend', ih hrest⟩
    simp [htext]

theorem endsBefore_of_lex_eq {s : Text} {t : Token} {a b : List Token} (h : lex s = a ++ t :: b) :
    t.endsBefore (textOf b).head? = true := by
  obtain ⟨c, r, rest, -, hb, rfl⟩ := lex_eq_cons_iff.1 (lex_textOf_suffix h)
  obtain ⟨-, -, -, -, hend⟩ := hb.self
  rwa [textOf_lex]

/-- Behind a cut, the text may be replaced by one that begins alike. -/
theorem lex_textOf_append {s r : Text} {a b : List Token} (h : lex s = a ++ b)
    (hr : r.head? = (textOf b).head?) : lex (textOf a ++ r) = a ++ lex r := by
  have ha := lex_textOf_prefix h
  rw [lex_append, ha]
  intro t ht
  rw [ha] at ht
  obtain ⟨u, rfl⟩ := List.getLast?_eq_some_iff.1 ht
  rw [List.append_assoc] at h
  rw [hr]
  exact endsBefore_of_lex_eq h

/-! ## Closed texts and breaks -/

/-- A text begins with a break, or there is none. -/
def BeginsApart (s : Text) : Prop := ∀ c ∈ s.head?, isBreak c = true

theorem isBreak_iff {c : Char} :
    isBreak c = true ↔ isIdentChar c = false ∧ ['\'', '"', '-', '*', ':'].contains c = false := by
  simp [isBreak]

theorem isBreak.ne {c d : Char} (hc : isBreak c = true) (hd : isBreak d = false) : d ≠ c := by
  rintro rfl
  simp [hc] at hd

/-- A closed element ends before a break. -/
theorem Begins.endsBefore_of_isBreak {c d : Char} {s r : Text} {t : Token} (h : Begins c s t r)
    (ht : t.isClosed = true) (hd : isBreak d = true) : t.endsBefore (some d) = true := by
  have hident : isIdentChar d = false := (isBreak_iff.1 hd).1
  have hname : isNameChar d = false := by
    by_contra hn
    rw [Bool.not_eq_false] at hn
    simp [isIdentChar_of_isNameChar hn] at hident
  have hstart : isNameStart d = false := by
    by_contra hn
    rw [Bool.not_eq_false] at hn
    simp [isNameChar_of_isNameStart hn] at hname
  cases h with
  | quoted hq h =>
    have : c ≠ d := by
      rcases hq with rfl | rfl
      · exact isBreak.ne hd rfl
      · exact isBreak.ne hd rfl
    simp [Token.endsBefore, ht, this]
  | line h => exact ht
  | block h => exact ht
  | opening => rfl
  | closing => rfl
  | cast => simp [Token.endsBefore]
  | placeholder hc => simp [Token.endsBefore, hname]
  | word hc => simp [Token.endsBefore, hident]
  | other hc hne hends =>
    have h₁ := isBreak.ne hd (d := '-') rfl
    have h₂ := isBreak.ne hd (d := '*') rfl
    have h₃ := isBreak.ne hd (d := ':') rfl
    exact endsBefore_single.2 ⟨fun h => h₁ h.2.symm, fun h => h₂ h.2.symm, fun h =>
      h.2.elim (fun h => h₃ h.symm) (fun h => by simp [h] at hstart)⟩

/-- Every element begins on its first character and is all of its own text. -/
theorem begins_of_mem_lex {s : Text} {t : Token} (ht : t ∈ lex s) :
    ∃ c body, t.text = c :: body ∧ Begins c body t [] := by
  fun_induction lex s with
  | case1 => simp at ht
  | case2 c s ih =>
    rcases List.mem_cons.1 ht with rfl | ht
    · obtain ⟨body, htext, -, hself, -⟩ := (begins_munch c s).self
      exact ⟨c, body, htext, hself⟩
    · exact ih ht

/-- Behind closed elements, a text that begins with a break keeps its elements. -/
theorem lex_append_of_isClosed {s r : Text} (hs : ∀ t ∈ lex s, t.isClosed = true)
    (hr : BeginsApart r) : lex (s ++ r) = lex s ++ lex r := by
  apply lex_append
  intro t ht
  have hmem := List.mem_of_getLast? ht
  obtain ⟨c, body, -, hb⟩ := begins_of_mem_lex hmem
  cases hd : r.head? with
  | none => rfl
  | some d => exact hb.endsBefore_of_isBreak (hs t hmem) (hr d hd)

end QueryClauses.Sql
