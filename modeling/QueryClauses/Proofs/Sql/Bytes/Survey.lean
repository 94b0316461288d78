import QueryClauses.Proofs.Sql.Concatenation
import QueryClauses.Proofs.Text.Slicing

/-!
# Surveying a statement byte by byte

A statement in the form of its bytes is surveyed by one index that moves from byte to byte, also
through the bytes of one character. Elements are told by ASCII bytes, their ends are found by loops
over bytes or by searching the rest of the text, and their texts are slices. Every step moves the
index on (`lt_next_of_step?`), so the loop ends; no slice fails, and the survey is the one that is
made character by character (`survey?_eq`).
-/

namespace QueryClauses.Sql.Bytes

open CharClass Text

/-! ## Loops over bytes -/

/-- The first offset from `i` on at which no byte of a class stands. -/
def skipWhile (p : Char → Bool) (s : Text) (i : Nat) : Nat :=
  match _h : byteAt? s i with
  | none => i
  | some c => if p c then skipWhile p s (i + 1) else i
termination_by byteLength s - i
decreasing_by
  have := lt_byteLength_of_byteAt? _h
  omega

/-- The offset behind a quoted region, from an offset behind its opening quote. -/
def skipQuoted (quote : Char) (s : Text) (i : Nat) : Nat :=
  match _h : byteAt? s i with
  | none => byteLength s
  | some c =>
    if c = quote then
      if byteAt? s (i + 1) = some quote then skipQuoted quote s (i + 2) else i + 1
    else skipQuoted quote s (i + 1)
termination_by byteLength s - i
decreasing_by
  all_goals
    have := lt_byteLength_of_byteAt? _h
    omega

/-- The offset at which a text first occurs in another one. -/
def find? (needle : Text) : Text → Option Nat
  | [] => if needle.isEmpty then some 0 else none
  | c :: s => if needle.isPrefixOf (c :: s) then some 0 else (find? needle s).map (c.utf8Size + ·)

/-- The offset behind the first occurrence of `closing` from offset `i` on, or the end of the text if
there is none. -/
def stopBehind? (closing s : Text) (i : Nat) : Option Nat :=
  (slice? s i (byteLength s)).map fun rest =>
    match find? closing rest with
    | some k => i + k + byteLength closing
    | none => byteLength s

/-! ## One step -/

/-- What one step of a survey finds. -/
inductive Find where
  | word (w : Word)
  | placeholder (p : Placeholder)
  | region (r : Span)
  /-- Nothing that a survey lists. -/
  | nothing
deriving DecidableEq, Repr

/-- One step of a survey: where the next one starts, how many parentheses are open there, and what
was found. -/
structure Step where
  next : Nat
  depth : Int
  found : Find := .nothing
deriving DecidableEq, Repr

/-- The step over a literal or a comment. -/
def Step.region (i : Nat) (depth : Int) (stop : Nat) : Step :=
  { next := stop, depth, found := .region ⟨i, stop⟩ }

/-- The step over a word. -/
def wordStep? (s : Text) (i : Nat) (depth : Int) : Option Step :=
  let stop := skipWhile isIdentChar s i
  (slice? s i stop).map fun text => { next := stop, depth, found := .word ⟨i, text, depth⟩ }

/-- The step over a colon: a type cast, a placeholder, or the colon alone. -/
def colonStep? (s : Text) (i : Nat) (depth : Int) : Option Step :=
  if byteAt? s (i + 1) = some ':' then some { next := i + 2, depth }
  else if (byteAt? s (i + 1)).any isNameStart then
    let stop := skipWhile isNameChar s (i + 1)
    (slice? s (i + 1) stop).map fun name =>
      { next := stop, depth, found := .placeholder ⟨i, stop, name⟩ }
  else some { next := i + 1, depth }

/-- The step at offset `i`, where byte `c` stands and `depth` parentheses are open. -/
def step? (s : Text) (i : Nat) (depth : Int) (c : Char) : Option Step :=
  if c = '\'' ∨ c = '"' then some (.region i depth (skipQuoted c s (i + 1)))
  else if c = '-' ∧ byteAt? s (i + 1) = some '-' then
    (stopBehind? ['\n'] s i).map (.region i depth)
  else if c = '/' ∧ byteAt? s (i + 1) = some '*' then
    (stopBehind? ['*', '/'] s (i + 2)).map (.region i depth)
  else if c = '(' then some { next := i + 1, depth := depth + 1 }
  else if c = ')' then some { next := i + 1, depth := depth - 1 }
  else if c = ':' then colonStep? s i depth
  else if isIdentChar c then wordStep? s i depth
  else some { next := i + 1, depth }

theorem skipWhile_of_none {p : Char → Bool} {s : Text} {i : Nat} (h : byteAt? s i = none) :
    skipWhile p s i = i := by
  rw [skipWhile, h]

theorem skipWhile_of_some {p : Char → Bool} {s : Text} {i : Nat} {c : Char}
    (h : byteAt? s i = some c) :
    skipWhile p s i = if p c then skipWhile p s (i + 1) else i := by
  rw [skipWhile, h]

theorem skipQuoted_of_none {quote : Char} {s : Text} {i : Nat} (h : byteAt? s i = none) :
    skipQuoted quote s i = byteLength s := by
  rw [skipQuoted, h]

theorem skipQuoted_of_some {quote : Char} {s : Text} {i : Nat} {c : Char}
    (h : byteAt? s i = some c) :
    skipQuoted quote s i =
      if c = quote then
        if byteAt? s (i + 1) = some quote then skipQuoted quote s (i + 2) else i + 1
      else skipQuoted quote s (i + 1) := by
  rw [skipQuoted, h]

theorem le_skipWhile (p : Char → Bool) (s : Text) (i : Nat) : i ≤ skipWhile p s i := by
  fun_induction skipWhile p s i with
  | case1 => omega
  | case2 => omega
  | case3 => omega

theorem lt_skipWhile {p : Char → Bool} {s : Text} {i : Nat} {c : Char} (h : byteAt? s i = some c)
    (hc : p c = true) : i < skipWhile p s i := by
  have := le_skipWhile p s (i + 1)
  rw [skipWhile_of_some h, if_pos hc]
  omega

theorem le_skipQuoted {quote : Char} {s : Text} {i : Nat} (hi : i ≤ byteLength s) :
    i ≤ skipQuoted quote s i := by
  fun_induction skipQuoted quote s i with
  | case1 => exact hi
  | case2 i hd h ih =>
    have := lt_byteLength_of_byteAt? hd
    have := ih (by omega)
    omega
  | case3 => omega
  | case4 i c h hc ih =>
    have := lt_byteLength_of_byteAt? h
    have := ih (by omega)
    omega

theorem le_stopBehind? {closing s : Text} {i stop : Nat}
    (h : stopBehind? closing s i = some stop) : i ≤ stop := by
  obtain ⟨rest, hrest, rfl⟩ := Option.map_eq_some_iff.1 h
  have hi := (isSome_slice?_iff.1 (Option.isSome_of_mem hrest)).1
  split <;> omega

theorem lt_stopBehind? {closing s : Text} {i stop : Nat} (hne : closing ≠ [])
    (hi : i < byteLength s) (h : stopBehind? closing s i = some stop) : i < stop := by
  obtain ⟨rest, -, rfl⟩ := Option.map_eq_some_iff.1 h
  have : byteLength closing ≠ 0 := mt byteLength_eq_zero_iff.1 hne
  split
  · omega
  · exact hi

theorem lt_next_of_wordStep? {s : Text} {i : Nat} {depth : Int} {c : Char} {st : Step}
    (hc : byteAt? s i = some c) (hident : isIdentChar c = true)
    (h : wordStep? s i depth = some st) : i < st.next := by
  obtain ⟨text, -, rfl⟩ := Option.map_eq_some_iff.1 h
  exact lt_skipWhile hc hident

theorem lt_next_of_colonStep? {s : Text} {i : Nat} {depth : Int} {st : Step}
    (h : colonStep? s i depth = some st) : i < st.next := by
  unfold colonStep? at h
  split at h
  · cases h
    exact Nat.lt_add_of_pos_right (by omega)
  split at h
  · obtain ⟨name, -, rfl⟩ := Option.map_eq_some_iff.1 h
    exact le_skipWhile isNameChar s (i + 1)
  · cases h
    exact Nat.lt_succ_self i

/-- Every step moves on. -/
theorem lt_next_of_step? {s : Text} {i : Nat} {depth : Int} {c : Char} {st : Step}
    (hc : byteAt? s i = some c) (h : step? s i depth c = some st) : i < st.next := by
  have hlt := lt_byteLength_of_byteAt? hc
  unfold step? at h
  split at h
  · cases h
    exact le_skipQuoted hlt
  split at h
  · obtain ⟨stop, hstop, rfl⟩ := Option.map_eq_some_iff.1 h
    exact lt_stopBehind? (List.cons_ne_nil _ _) hlt hstop
  split at h
  · obtain ⟨stop, hstop, rfl⟩ := Option.map_eq_some_iff.1 h
    have := le_stopBehind? hstop
    exact Nat.lt_of_succ_lt this
  split at h
  · cases h
    exact Nat.lt_succ_self i
  split at h
  · cases h
    exact Nat.lt_succ_self i
  split at h
  · exact lt_next_of_colonStep? h
  split at h
  · rename_i hident
    exact lt_next_of_wordStep? hc hident h
  · cases h
    exact Nat.lt_succ_self i

/-! ## All steps -/

/-- A survey with one more find in front. -/
def Find.before (v : Survey) : Find → Survey
  | word w => { v with words := w :: v.words }
  | placeholder p => { v with placeholders := p :: v.placeholders }
  | region r => { v with regions := r :: v.regions }
  | nothing => v

/-- The survey from offset `i` on, where `depth` parentheses are open; nothing if a slice fails. -/
def surveyFrom? (s : Text) (i : Nat) (depth : Int) : Option Survey :=
  match _hc : byteAt? s i with
  | none => some {}
  | some c =>
    match _hst : step? s i depth c with
    | none => none
    | some st => (surveyFrom? s st.next st.depth).map st.found.before
termination_by byteLength s - i
decreasing_by
  have := lt_byteLength_of_byteAt? _hc
  have := lt_next_of_step? _hc _hst
  omega

/-- The survey of a text by its bytes; nothing if a slice fails. -/
def survey? (s : Text) : Option Survey := surveyFrom? s 0 0

/-! ## Loops over the bytes of characters -/

section

variable {p : Char → Bool} {quote c d : Char} {s u w : Text} {i : Nat}

/-- A class of ASCII characters. -/
def IsAscii (p : Char → Bool) : Prop := ∀ c, p c = true → c.toNat < 128

theorem IsAscii.eq_false (hp : IsAscii p) (hc : 128 ≤ c.toNat) : p c = false := by
  by_contra h
  rw [Bool.not_eq_false] at h
  have := hp c h
  omega

theorem IsAscii.any_byteAt? (hp : IsAscii p) (w : Text) :
    (byteAt? w 0).any p = w.head?.any p := by
  cases w with
  | nil => rfl
  | cons c w =>
    by_cases hc : c.toNat < 128
    · rw [byteAt?_ascii hc, List.head?_cons]
    · obtain ⟨d, hd, hle⟩ := byteAt?_first (Nat.le_of_not_lt hc) w
      rw [hd, List.head?_cons, Option.any_some, Option.any_some, hp.eq_false (by omega),
        hp.eq_false (Nat.le_of_not_lt hc)]

/-- A loop over bytes takes the characters of the class. -/
theorem skipWhile_append (hp : IsAscii p) (u w : Text) :
    skipWhile p (u ++ w) (byteLength u) = byteLength u + byteLength (w.takeWhile p) := by
  induction w generalizing u with
  | nil => exact skipWhile_of_none (byteAt?_append u [])
  | cons c w ih =>
    have hbyte := byteAt?_append u (c :: w)
    by_cases hc : p c = true
    · have hascii := hp c hc
      have ih := ih (u ++ [c])
      rw [byteAt?_ascii hascii] at hbyte
      rw [List.append_assoc, List.singleton_append] at ih
      simp only [byteLength_append, byteLength_cons, utf8Size_of_ascii hascii,
        byteLength_nil] at ih
      rw [skipWhile_of_some hbyte, if_pos hc, ih, List.takeWhile_cons_of_pos hc, byteLength_cons,
        utf8Size_of_ascii hascii]
      omega
    · obtain ⟨d, hd⟩ : ∃ d, byteAt? (c :: w) 0 = some d :=
        Option.ne_none_iff_exists'.1 fun hnone => by
          have := byteAt?_eq_none_iff.1 hnone
          have := c.utf8Size_pos
          rw [byteLength_cons] at *
          omega
      have hpd := hp.any_byteAt? (c :: w)
      rw [hd, Option.any_some, List.head?_cons, Option.any_some] at hpd
      rw [hd] at hbyte
      rw [skipWhile_of_some hbyte, hpd, if_neg hc, List.takeWhile_cons_of_neg hc]
      rfl

/-- A loop for a quote passes bytes that are other characters. -/
theorem skipQuoted_add {n : Nat} (h : ∀ k < n, ∃ d, byteAt? s (i + k) = some d ∧ d ≠ quote) :
    skipQuoted quote s i = skipQuoted quote s (i + n) := by
  induction n generalizing i with
  | zero => rfl
  | succ n ih =>
    obtain ⟨d, hd, hne⟩ := h 0 (Nat.succ_pos n)
    rw [Nat.add_zero] at hd
    have hrest := ih (i := i + 1) fun k hk => by
      have := h (k + 1) (Nat.succ_lt_succ hk)
      rwa [show i + (k + 1) = i + 1 + k by omega] at this
    rw [skipQuoted_of_some hd, if_neg hne, hrest, show i + 1 + n = i + (n + 1) by omega]

/-- A loop over bytes takes the characters of a quoted region. -/
theorem skipQuoted_append (hq : quote.toNat < 128) (u w : Text) :
    skipQuoted quote (u ++ w) (byteLength u) =
      byteLength u + byteLength (munchQuoted quote w).1 := by
  have hone := utf8Size_of_ascii hq
  have hother : ∀ (u : Text) {c : Char} (w : Text), c ≠ quote →
      skipQuoted quote (u ++ c :: w) (byteLength u) =
        skipQuoted quote ((u ++ [c]) ++ w) (byteLength (u ++ [c])) := by
    intro u c w hc
    rw [skipQuoted_add (n := c.utf8Size), List.append_assoc, List.singleton_append,
      byteLength_append, byteLength_cons, byteLength_nil, Nat.add_zero]
    intro k hk
    rw [byteAt?_append_add]
    exact byteAt?_ne hq hc hk w
  have hbyte : ∀ u w : Text, byteAt? (u ++ quote :: w) (byteLength u) = some quote := fun u w => by
    rw [byteAt?_append, byteAt?_ascii hq]
  have hnext : ∀ u w : Text, byteAt? (u ++ quote :: w) (byteLength u + 1) = some quote ↔
      w.head? = some quote := fun u w => by
    rw [byteAt?_append_add, ← byteAt?_zero_eq_some_iff hq, ← hone, ← Nat.add_zero quote.utf8Size,
      byteAt?_cons_add]
  fun_induction munchQuoted quote w generalizing u with
  | case1 =>
    rw [skipQuoted_of_none (byteAt?_append u []), List.append_nil]
    rfl
  | case2 c =>
    by_cases hc : c = quote
    · subst hc
      have hend : ¬byteAt? (u ++ [c]) (byteLength u + 1) = some c := by simp [hnext]
      rw [skipQuoted_of_some (hbyte u []), if_pos rfl, if_neg hend, byteLength_cons, hone]
      rfl
    · rw [hother u [] hc, skipQuoted_of_none (byteAt?_append (u ++ [c]) []), List.append_nil,
        byteLength_append]
  | case3 w body rest h ih =>
    have ih := ih (u ++ [quote, quote])
    rw [h, List.append_assoc, List.cons_append, List.singleton_append] at ih
    simp only [byteLength_append, byteLength_cons, hone, byteLength_nil] at ih ⊢
    rw [skipQuoted_of_some (hbyte _ _), if_pos rfl, if_pos ((hnext u (quote :: w)).2 rfl), ih]
    omega
  | case4 d w hd =>
    have hne : ¬byteAt? (u ++ quote :: d :: w) (byteLength u + 1) = some quote := by
      simpa [hnext] using hd
    rw [skipQuoted_of_some (hbyte _ _), if_pos rfl, if_neg hne, byteLength_cons, hone]
    rfl
  | case5 c d w hc body rest h ih =>
    have ih := ih (u ++ [c])
    rw [h] at ih
    rw [hother u (d :: w) hc, ih]
    simp only [byteLength_append, byteLength_cons, byteLength_nil]
    omega

/-! ## Searching the rest of a text -/

theorem find?_line (w : Text) :
    (match find? ['\n'] w with
      | some k => k + 1
      | none => byteLength w) = byteLength (munchLine w).1 := by
  fun_induction munchLine w with
  | case1 => rfl
  | case2 w => rfl
  | case3 c w hc body rest h ih =>
    rw [h] at ih
    have hprefix : ['\n'].isPrefixOf (c :: w) = false := by
      simp [List.isPrefixOf, Ne.symm hc]
    rw [find?, hprefix]
    cases hf : find? ['\n'] w with
    | none =>
      rw [hf] at ih
      simpa using ih
    | some k =>
      rw [hf] at ih
      have ih : k + 1 = byteLength body := ih
      show c.utf8Size + k + 1 = c.utf8Size + byteLength body
      omega

theorem find?_block (w : Text) :
    (match find? ['*', '/'] w with
      | some k => k + 2
      | none => byteLength w) = byteLength (munchBlock w).1 := by
  fun_induction munchBlock w with
  | case1 => rfl
  | case2 c => simp [find?]
  | case3 c d w h =>
    obtain ⟨rfl, rfl⟩ := h
    rfl
  | case4 c d w hc body rest h ih =>
    rw [h] at ih
    have hprefix : ['*', '/'].isPrefixOf (c :: d :: w) = false := by
      by_contra hne
      rw [Bool.not_eq_false, List.isPrefixOf_iff_prefix, List.cons_prefix_cons,
        List.cons_prefix_cons] at hne
      exact hc ⟨hne.1.symm, hne.2.1.symm⟩
    rw [find?, hprefix]
    cases hf : find? ['*', '/'] (d :: w) with
    | none =>
      rw [hf] at ih
      simpa using ih
    | some k =>
      rw [hf] at ih
      have ih : k + 2 = byteLength body := ih
      show c.utf8Size + k + 2 = c.utf8Size + byteLength body
      omega

theorem stopBehind?_append (closing u w : Text) :
    stopBehind? closing (u ++ w) (byteLength u) = some (byteLength u +
      match find? closing w with
      | some k => k + byteLength closing
      | none => byteLength w) := by
  rw [stopBehind?, slice?_suffix, Option.map_some, Option.some_inj]
  cases find? closing w with
  | none => exact byteLength_append u w
  | some k => exact Nat.add_assoc _ _ _

theorem stopBehind?_line (u w : Text) :
    stopBehind? ['\n'] (u ++ w) (byteLength u) =
      some (byteLength u + byteLength (munchLine w).1) := by
  rw [stopBehind?_append, ← find?_line]
  rfl

theorem stopBehind?_block (u w : Text) :
    stopBehind? ['*', '/'] (u ++ w) (byteLength u) =
      some (byteLength u + byteLength (munchBlock w).1) := by
  rw [stopBehind?_append, ← find?_block]
  rfl

/-! ## Steps at ASCII characters -/

/-- What is found at an element that starts at offset `pos`, where `depth` parentheses are open. -/
def Find.ofToken (pos : Nat) (depth : Int) (t : Token) : Find :=
  match t.kind with
  | .word => .word ⟨pos, t.text, depth⟩
  | .placeholder => .placeholder ⟨pos, pos + byteLength t.text, t.text.tail⟩
  | .quoted | .comment => .region ⟨pos, pos + byteLength t.text⟩
  | .opening | .closing | .other => .nothing

theorem ofTokens_cons (pos : Nat) (depth : Int) (t : Token) (ts : List Token) :
    Survey.ofTokens pos depth (t :: ts) =
      (Find.ofToken pos depth t).before
        (Survey.ofTokens (pos + byteLength t.text) (t.kind.depthAfter depth) ts) := by
  rw [Survey.ofTokens, Find.ofToken]
  cases t.kind <;> rfl

theorem isAscii_isIdentChar : IsAscii isIdentChar := by
  intro c h
  have hn : c.toNat = c.val.toNat := rfl
  delta isIdentChar Char.isAlphanum Char.isAlpha Char.isUpper Char.isLower Char.isDigit at h
  simp only [Bool.or_eq_true, beq_iff_eq, decide_eq_true_eq, Bool.and_eq_true,
    UInt32.le_iff_toNat_le] at h
  rcases h with (rfl | rfl) | (⟨h₁, h₂⟩ | ⟨h₁, h₂⟩) | ⟨h₁, h₂⟩
  · decide
  · decide
  all_goals
    simp at h₁ h₂
    omega

theorem isAscii_isNameChar : IsAscii isNameChar := fun c h =>
  isAscii_isIdentChar c (isIdentChar_of_isNameChar h)

theorem isAscii_isNameStart : IsAscii isNameStart := fun c h =>
  isAscii_isNameChar c (isNameChar_of_isNameStart h)

/-- The step over an element that starts at offset `pos`, where `depth` parentheses are open. -/
def Step.ofToken (pos : Nat) (depth : Int) (t : Token) : Step :=
  ⟨pos + byteLength t.text, t.kind.depthAfter depth, .ofToken pos depth t⟩

theorem wordStep?_append {c : Char} (hc : isIdentChar c = true) (u w : Text) (depth : Int) :
    wordStep? (u ++ c :: w) (byteLength u) depth =
      some (.ofToken (byteLength u) depth ⟨.word, c :: w.takeWhile isIdentChar⟩) := by
  have hstop := skipWhile_append isAscii_isIdentChar u (c :: w)
  have hslice := slice?_append u ((c :: w).takeWhile isIdentChar) ((c :: w).dropWhile isIdentChar)
  rw [List.takeWhile_append_dropWhile] at hslice
  rw [wordStep?, hstop, hslice, List.takeWhile_cons_of_pos hc]
  rfl

theorem colonStep?_append (u w : Text) (depth : Int) :
    colonStep? (u ++ ':' :: w) (byteLength u) depth =
      some (.ofToken (byteLength u) depth (munchColon w).1) := by
  have hbehind : u ++ ':' :: w = (u ++ [':']) ++ w := by simp
  have hlen : byteLength u + 1 = byteLength (u ++ [':']) := by rw [byteLength_append]; rfl
  have hbyte : byteAt? (u ++ ':' :: w) (byteLength u + 1) = byteAt? w 0 := by
    rw [hbehind, hlen, byteAt?_append]
  rw [colonStep?, hbyte]
  fun_cases munchColon w with
  | case1 => rfl
  | case2 w => rw [if_pos ((byteAt?_zero_eq_some_iff (by decide)).2 rfl)]; rfl
  | case3 c w hc hstart =>
    have hascii := isAscii_isNameStart c hstart
    have hstop := skipWhile_append isAscii_isNameChar (u ++ [':']) (c :: w)
    have hslice := slice?_append (u ++ [':']) ((c :: w).takeWhile isNameChar)
      ((c :: w).dropWhile isNameChar)
    rw [List.takeWhile_append_dropWhile, ← hbehind, ← hlen] at hslice
    rw [← hbehind, ← hlen] at hstop
    rw [byteAt?_ascii hascii, if_neg (by simpa using hc), if_pos (by simpa using hstart), hstop]
    dsimp only
    rw [hslice, Option.map_some, Option.some_inj, Nat.add_assoc]
    rfl
  | case4 c w hc hstart =>
    have hcolon : ¬byteAt? (c :: w) 0 = some ':' := by
      rw [byteAt?_zero_eq_some_iff (by decide)]
      simpa using hc
    have hname : ¬(byteAt? (c :: w) 0).any isNameStart = true := by
      rwa [isAscii_isNameStart.any_byteAt?]
    rw [if_neg hcolon, if_neg hname]
    rfl

/-- At an ASCII character, a step takes the element that starts there. -/
theorem step?_append {c : Char} (hc : c.toNat < 128) (u w : Text) (depth : Int) :
    step? (u ++ c :: w) (byteLength u) depth c =
      some (.ofToken (byteLength u) depth (munch c w).1) := by
  have hone := utf8Size_of_ascii hc
  have hbehind : u ++ c :: w = (u ++ [c]) ++ w := by simp
  have hlen : byteLength u + 1 = byteLength (u ++ [c]) := by
    rw [byteLength_append, byteLength_cons, hone, byteLength_nil]
  have hnext : ∀ d, d.toNat < 128 →
      (byteAt? (u ++ c :: w) (byteLength u + 1) = some d ↔ w.head? = some d) := fun d hd => by
    rw [hbehind, hlen, byteAt?_append, byteAt?_zero_eq_some_iff hd]
  simp only [step?, munch, hnext '-' (by decide), hnext '*' (by decide)]
  split
  · rename_i hq
    have hstop := skipQuoted_append hc (u ++ [c]) w
    rw [← hbehind, ← hlen] at hstop
    rw [hstop, Nat.add_assoc, ← hone]
    rfl
  split
  · rename_i hline
    obtain ⟨rfl, hline⟩ := hline
    obtain ⟨w, rfl⟩ := List.head?_eq_some_iff.1 hline
    have hstop := stopBehind?_line u ('-' :: '-' :: w)
    rw [munchLine, if_neg (by decide), munchLine, if_neg (by decide)] at hstop
    rw [hstop]
    rfl
  split
  · rename_i hblock
    obtain ⟨rfl, hblock⟩ := hblock
    obtain ⟨w, rfl⟩ := List.head?_eq_some_iff.1 hblock
    have hstop := stopBehind?_block (u ++ ['/', '*']) w
    rw [List.append_assoc, byteLength_append] at hstop
    exact (congrArg (Option.map (Step.region (byteLength u) depth)) hstop).trans
      (by rw [Nat.add_assoc, ← byteLength_append]; rfl)
  split
  · rename_i hopen
    subst hopen
    rfl
  split
  · rename_i hclose
    subst hclose
    rfl
  split
  · rename_i hcolon
    subst hcolon
    exact colonStep?_append u w depth
  split
  · rename_i hident
    exact wordStep?_append hident u w depth
  · rw [← hone]
    rfl

end

/-! ## The whole survey -/

section

variable {c : Char} {s : Text} {i : Nat} {depth : Int}

theorem surveyFrom?_of_none (h : byteAt? s i = none) : surveyFrom? s i depth = some {} := by
  rw [surveyFrom?]
  split
  · rfl
  · rename_i hc
    rw [h] at hc
    cases hc

theorem surveyFrom?_of_some {st : Step} (h : byteAt? s i = some c)
    (hst : step? s i depth c = some st) :
    surveyFrom? s i depth = (surveyFrom? s st.next st.depth).map st.found.before := by
  rw [surveyFrom?]
  split
  · rename_i hc
    rw [h] at hc
    cases hc
  rename_i d hd
  rw [h] at hd
  cases hd
  split
  · rename_i hnone
    rw [hst] at hnone
    cases hnone
  · rename_i st' hst'
    rw [hst] at hst'
    cases hst'
    rfl

theorem ne_of_not_ascii (hc : 128 ≤ c.toNat) {d : Char} (hd : d.toNat < 128) : c ≠ d := by
  rintro rfl
  omega

/-- A byte of a character that is not ASCII is nothing to a survey. -/
theorem step?_of_not_ascii (hc : 128 ≤ c.toNat) :
    step? s i depth c = some { next := i + 1, depth } := by
  have hne := @ne_of_not_ascii c hc
  rw [step?, if_neg (not_or.2 ⟨hne (by decide), hne (by decide)⟩),
    if_neg fun h => hne (by decide) h.1, if_neg fun h => hne (by decide) h.1,
    if_neg (hne (by decide)), if_neg (hne (by decide)), if_neg (hne (by decide)),
    isAscii_isIdentChar.eq_false hc]
  rfl

theorem munch_of_not_ascii (hc : 128 ≤ c.toNat) (s : Text) : munch c s = (⟨.other, [c]⟩, s) := by
  have hne := @ne_of_not_ascii c hc
  rw [munch, if_neg (not_or.2 ⟨hne (by decide), hne (by decide)⟩),
    if_neg fun h => hne (by decide) h.1, if_neg fun h => hne (by decide) h.1,
    if_neg (hne (by decide)), if_neg (hne (by decide)), if_neg (hne (by decide)),
    isAscii_isIdentChar.eq_false hc]
  rfl

/-- The index passes the bytes of characters that are not ASCII. -/
theorem surveyFrom?_add {n : Nat} (h : ∀ k < n, ∃ d, byteAt? s (i + k) = some d ∧ 128 ≤ d.toNat) :
    surveyFrom? s i depth = surveyFrom? s (i + n) depth := by
  induction n generalizing i with
  | zero => rfl
  | succ n ih =>
    obtain ⟨d, hd, hle⟩ := h 0 (Nat.succ_pos n)
    have hrest := ih (i := i + 1) fun k hk => by
      have := h (k + 1) (Nat.succ_lt_succ hk)
      rwa [show i + (k + 1) = i + 1 + k by omega] at this
    rw [Nat.add_zero] at hd
    rw [surveyFrom?_of_some hd (step?_of_not_ascii hle), hrest,
      show i + 1 + n = i + (n + 1) by omega]
    exact Option.map_id_apply

/-- From an offset between two elements on, the survey by bytes is that of the elements there. -/
theorem surveyFrom?_append (u w : Text) (depth : Int) :
    surveyFrom? (u ++ w) (byteLength u) depth =
      some (Survey.ofTokens (byteLength u) depth (lex w)) := by
  fun_induction lex w generalizing u depth with
  | case1 => exact surveyFrom?_of_none (byteAt?_append u [])
  | case2 c w ih =>
    have hbyte := byteAt?_append u (c :: w)
    have hsplit : u ++ c :: w = (u ++ (munch c w).1.text) ++ (munch c w).2 := by
      rw [List.append_assoc, munch_append]
    have ih := ih (u ++ (munch c w).1.text) ((munch c w).1.kind.depthAfter depth)
    rw [← hsplit, byteLength_append] at ih
    rw [ofTokens_cons]
    by_cases hc : c.toNat < 128
    · rw [byteAt?_ascii hc] at hbyte
      rw [surveyFrom?_of_some hbyte (step?_append hc u w depth)]
      exact congrArg _ ih
    · have hc := Nat.le_of_not_lt hc
      rw [munch_of_not_ascii hc w] at ih ⊢
      rw [surveyFrom?_add (n := c.utf8Size)]
      · exact ih
      · intro k hk
        rw [byteAt?_append_add]
        exact byteAt?_not_ascii hc hk w

/-- No slice of a survey by bytes fails, and it lists what the elements are. -/
theorem survey?_eq (s : Text) : survey? s = some (survey s) :=
  surveyFrom?_append [] s 0

end

end QueryClauses.Sql.Bytes
