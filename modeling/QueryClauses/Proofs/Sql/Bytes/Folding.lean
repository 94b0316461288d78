import Mathlib.Logic.Relation
import QueryClauses.Proofs.Sql.Bytes.Survey
import QueryClauses.Proofs.Sql.Like.Search

/-!
# Folding LIKE comparisons at byte offsets

The comparisons of a statement are searched with a regular expression, from a position on. Behind a
comparison that is folded, the search goes on at its end; behind one that is left alone, at the byte
behind its first one. The text in front of a comparison is copied, and the comparison is put together
from the slices of its parts. What the expression finds is what is read where an operand may start
(`nextMatch?_eq_search`).

Every round moves the search position on within the text (`FoldState.lt_pos_of_moves`), so the rounds
end. From the start of a statement on, no round fails: the position stays between two characters, and
what the state comes to stays the same (`FoldState.Stands.exists_behind?`). So the statement is the
one that is folded character by character (`fold?_eq`).
-/

namespace QueryClauses.Sql.Like

open Text Bytes

/-! ## Searching a comparison -/

/-- The first comparison from offset `pos` on, if there is one. -/
def nextMatch? (s : Text) (pos : Nat) : Option (Option Match) :=
  (slice? s pos (byteLength s)).map fun rest =>
    (Expression.comparison.find pos rest).bind Match.ofCaptures?

/-- What the expression finds is what is read where an operand may start. -/
theorem nextMatch?_eq_search (s : Text) (pos : Nat) :
    nextMatch? s pos = (slice? s pos (byteLength s)).map (search (pos == 0) pos) :=
  Option.map_congr fun rest _ => find_comparison pos rest

/-- NOT without the white space behind it, and one space; or nothing. -/
def negation? (s : Text) : Option Span → Option Text
  | none => some []
  | some r => (slice? s r.start r.stop).map (trimEnd · ++ [' '])

/-- A comparison with both sides in upper case, and single spaces around the keywords. -/
def Match.folded? (s : Text) (m : Match) : Option Text := do
  let operand ← slice? s m.operand.start m.operand.stop
  let negation ← negation? s m.negation
  let keyword ← slice? s m.keyword.start m.keyword.stop
  let pattern ← slice? s m.pattern.start m.pattern.stop
  return "UPPER(".toList ++ operand ++ ") ".toList ++ negation ++ keyword ++ " UPPER(".toList ++
    pattern ++ [')']

/-! ## Rounds -/

/-- The state between two rounds: what was written for the text up to offset `copied`, how many
comparisons were folded, and where the search goes on. -/
structure FoldState where
  copied : Nat := 0
  pos : Nat := 0
  out : Text := []
  count : Nat := 0
deriving DecidableEq, Repr

namespace FoldState

/-- The state behind a match. A match whose operand or keyword lies inside a literal or a comment is
left alone. -/
def behind? (s : Text) (v : Survey) (m : Match) (st : FoldState) : Option FoldState :=
  if v.isOpaque m.operand.start || v.isOpaque m.keyword.start then
    some { st with pos := m.operand.start + 1 }
  else do
    let front ← slice? s st.copied m.operand.start
    let comparison ← m.folded? s
    return { copied := m.pattern.stop, pos := m.pattern.stop,
             out := st.out ++ front ++ comparison, count := st.count + 1 }

/-- The statement when no further match is found. -/
def finish? (s : Text) (st : FoldState) : Option Folded :=
  (slice? s st.copied (byteLength s)).map fun rest => ⟨st.out ++ rest, st.count⟩

/-- One round leads from a state to the next one. -/
def Moves (s : Text) (v : Survey) (st st' : FoldState) : Prop :=
  ∃ m, nextMatch? s st.pos = some (some m) ∧ st.behind? s v m = some st'

/-- The states that a statement's rounds come to. -/
def Reaches (s : Text) (v : Survey) (st : FoldState) : Prop :=
  Relation.ReflTransGen (Moves s v) {} st

end FoldState

section

variable {v : Survey} {mayStart : Bool} {pos : Nat} {s u r rest : Text} {m : Comparison} {q : Match}

/-- Without a match, a text is left as it is. -/
theorem foldFrom_of_search_eq_none (h : search mayStart pos s = none) (v : Survey) :
    foldFrom v mayStart pos s = ⟨s, 0⟩ := by
  induction s generalizing mayStart pos with
  | nil => rw [foldFrom]
  | cons c s ih =>
    rcases read?_or_none mayStart (c :: s) with ⟨rfl, m, rest, hread⟩ | hnone
    · rw [search_cons_of_read? hread] at h
      cases h
    · rw [search_cons_of_none hnone] at h
      rw [foldFrom_cons_of_none hnone, ih h]

/-- A match is a comparison that is read; the text in front of it is left as it is. -/
theorem exists_of_search (h : search mayStart pos s = some q) :
    ∃ u m rest, s = u ++ (m.text ++ rest) ∧ read? (m.text ++ rest) = some (m, rest) ∧
      q = .ofComparison (pos + byteLength u) m ∧
      ∀ v, foldFrom v mayStart pos s =
        ⟨u ++ (foldFrom v true (pos + byteLength u) (m.text ++ rest)).text,
          (foldFrom v true (pos + byteLength u) (m.text ++ rest)).count⟩ := by
  induction s generalizing mayStart pos with
  | nil => cases h
  | cons c s ih =>
    rcases read?_or_none mayStart (c :: s) with ⟨rfl, m, rest, hread⟩ | hnone
    · rw [search_cons_of_read? hread] at h
      cases h
      have happ := (read?_append hread).1
      simp only at happ
      rw [← happ] at hread ⊢
      exact ⟨[], m, rest, rfl, hread, rfl, fun v => rfl⟩
    · rw [search_cons_of_none hnone] at h
      obtain ⟨u, m, rest, rfl, hread, rfl, hfold⟩ := ih h
      refine ⟨c :: u, m, rest, rfl, hread, by rw [byteLength_cons, Nat.add_assoc], fun v => ?_⟩
      rw [foldFrom_cons_of_none hnone, hfold, byteLength_cons, Nat.add_assoc]
      rfl

/-- A comparison starts on an ASCII character. -/
theorem exists_ascii_of_read? (h : read? s = some (m, rest)) : ∃ c u, s = c :: u ∧ c.toNat < 128 := by
  obtain ⟨first, more, behind, -, hfirst, -, -⟩ := operand?_of_read? h
  obtain ⟨c, u, hc, hstart⟩ := startsOperand_of_operand? hfirst
  have happ := (operand?_append hfirst).1
  simp only at hc happ
  rw [hc, List.cons_append] at happ
  refine ⟨c, _, happ.symm, ?_⟩
  rw [startsOperand, Bool.or_eq_true, List.contains_iff_mem] at hstart
  rcases hstart with hstart | hmem
  · exact isAscii_isNameStart c hstart
  · simp only [List.mem_cons, List.not_mem_nil, or_false] at hmem
    rcases hmem with rfl | rfl | rfl | rfl <;> decide

theorem byteLength_text_pos (h : read? s = some (m, rest)) : 0 < byteLength m.text := by
  have hne := (read?_append h).2
  refine Nat.pos_of_ne_zero fun hzero => hne ?_
  have hnil := byteLength_eq_zero_iff.1 hzero
  simp only [Comparison.text, Comparison.lead, List.append_eq_nil_iff] at hnil
  exact hnil.1.1

/-- A match lies behind the position from which it is searched, and within the text. -/
theorem bounds_of_nextMatch? (h : nextMatch? s pos = some (some q)) :
    pos ≤ q.operand.start ∧ q.operand.start < q.pattern.stop ∧ q.pattern.stop ≤ byteLength s := by
  rw [nextMatch?_eq_search] at h
  obtain ⟨w, hw, hq⟩ := Option.map_eq_some_iff.1 h
  obtain ⟨a, b, rfl, rfl, hb⟩ := slice?_eq_some_iff.1 hw
  obtain ⟨u, m, rest, rfl, hread, rfl, -⟩ := exists_of_search hq
  have := byteLength_text_pos hread
  simp only [Match.ofComparison, byteLength_append]
  omega

/-- Every round moves the search position on, also behind a match that is left alone. -/
theorem FoldState.lt_pos_of_moves {st st' : FoldState} (h : st.Moves s v st') :
    st.pos < st'.pos ∧ st'.pos ≤ byteLength s := by
  obtain ⟨q, hq, hst⟩ := h
  obtain ⟨hle, hlt, hstop⟩ := bounds_of_nextMatch? hq
  unfold FoldState.behind? at hst
  split at hst
  · cases hst
    dsimp only
    omega
  · obtain ⟨front, -, hst⟩ := Option.bind_eq_some_iff.1 hst
    obtain ⟨comparison, -, hst⟩ := Option.bind_eq_some_iff.1 hst
    cases hst
    dsimp only
    omega

end

/-- The rounds from a state on; nothing if a slice fails. -/
def foldRounds? (s : Text) (v : Survey) (st : FoldState) : Option Folded :=
  match _hq : nextMatch? s st.pos with
  | none => none
  | some none => st.finish? s
  | some (some q) =>
    match _hst : st.behind? s v q with
    | none => none
    | some st' => foldRounds? s v st'
termination_by byteLength s - st.pos
decreasing_by
  have := FoldState.lt_pos_of_moves ⟨q, _hq, _hst⟩
  omega

/-- Folds the comparisons of a statement; nothing if a slice fails. -/
def fold? (s : Text) : Option Folded := do
  let v ← survey? s
  foldRounds? s v {}

/-! ## Folding one comparison -/

section

variable {v : Survey} {a b r rest : Text} {m : Comparison}

theorem isSpace_of_keyword? {ks s : Text} {p : Text × Text}
    (hks : ∀ k ∈ ks, k.isAlpha = true ∧ k ≠ 'k') (h : keyword? ks s = some p) :
    ∀ c ∈ p.1, CharClass.isSpace c = false := by
  fun_induction keyword? ks s generalizing p with
  | case1 => cases h; exact List.forall_mem_nil _
  | case2 => cases h
  | case3 k ks c s hc ih =>
    obtain ⟨q, hq, rfl⟩ := Option.map_eq_some_iff.1 h
    obtain ⟨⟨halpha, hne⟩, hks⟩ := List.forall_mem_cons.1 hks
    exact List.forall_mem_cons.2
      ⟨(isSpace_of_isAlpha (isAlpha_of_isLetter halpha hne hc)).1, ih hks hq⟩
  | case4 => cases h

theorem trimEnd_negation (h : m.Spaced) : trimEnd (m.negation ++ m.negationGap) = m.negation := by
  rcases h.negation with ⟨hword, hgap⟩ | ⟨hword, -, hspace⟩
  · rw [hword, hgap]
    rfl
  · have hletters := @isSpace_of_keyword? "not".toList _ _ (by simp) hword
    rw [trimEnd_append_of_all hspace, trimEnd_eq_rdropWhile, List.rdropWhile_eq_self_iff]
    intro hne
    rw [hletters _ (List.getLast_mem hne)]
    exact Bool.false_ne_true

/-- The ranges of a comparison behind some text are those of its parts. -/
theorem folded?_ofComparison (h : m.Spaced) (a rest : Text) :
    (Match.ofComparison (byteLength a) m).folded? (a ++ (m.text ++ rest)) = some m.folded := by
  have hoperand : slice? (a ++ (m.text ++ rest)) (byteLength a)
      (byteLength a + byteLength m.operand) = some m.operand := by
    have := slice?_append a m.operand
      (m.gap ++ (m.negation ++ (m.negationGap ++ (m.keyword ++ (m.keywordGap ++ (m.pattern ++ rest))))))
    simpa only [Comparison.text, Comparison.lead, List.append_assoc] using this
  have hkeyword : slice? (a ++ (m.text ++ rest)) (byteLength a + byteLength m.lead)
      (byteLength a + byteLength (m.lead ++ m.keyword)) = some m.keyword := by
    have := slice?_append (a ++ m.lead) m.keyword (m.keywordGap ++ (m.pattern ++ rest))
    simpa only [Comparison.text, List.append_assoc, byteLength_append, Nat.add_assoc] using this
  have hpattern : slice? (a ++ (m.text ++ rest))
      (byteLength a + byteLength (m.lead ++ (m.keyword ++ m.keywordGap)))
      (byteLength a + byteLength m.text) = some m.pattern := by
    have := slice?_append (a ++ (m.lead ++ (m.keyword ++ m.keywordGap))) m.pattern rest
    simpa only [Comparison.text, List.append_assoc, byteLength_append, Nat.add_assoc] using this
  have hnegation : negation? (a ++ (m.text ++ rest)) (Match.ofComparison (byteLength a) m).negation =
      some (if m.negation.isEmpty then [] else m.negation ++ [' ']) := by
    unfold Match.ofComparison
    dsimp only
    split
    · rfl
    · have := slice?_append (a ++ (m.operand ++ m.gap)) (m.negation ++ m.negationGap)
        (m.keyword ++ (m.keywordGap ++ (m.pattern ++ rest)))
      have hslice : slice? (a ++ (m.text ++ rest)) (byteLength a + byteLength (m.operand ++ m.gap))
          (byteLength a + byteLength m.lead) = some (m.negation ++ m.negationGap) := by
        simpa only [Comparison.text, Comparison.lead, List.append_assoc, byteLength_append,
          Nat.add_assoc] using this
      rw [negation?, hslice, Option.map_some, trimEnd_negation h]
  rw [Match.folded?, hnegation]
  simp only [Match.ofComparison, hoperand, hkeyword, hpattern, Option.bind_eq_bind,
    Option.bind_some]
  rfl

/-- Behind a comparison that is read, the next state is there: the search goes on behind the first
character, which is an ASCII one, or the comparison is folded. -/
theorem behind?_ofComparison (hread : read? (m.text ++ rest) = some (m, rest)) (pos : Nat)
    (out : Text) (count : Nat) :
    FoldState.behind? (a ++ (b ++ (m.text ++ rest))) v (.ofComparison (byteLength (a ++ b)) m)
        ⟨byteLength a, pos, out, count⟩ =
      some (if v.isOpaque (byteLength (a ++ b)) || v.isOpaque (byteLength (a ++ b) + byteLength m.lead)
        then ⟨byteLength a, byteLength (a ++ b) + 1, out, count⟩
        else ⟨byteLength (a ++ b ++ m.text), byteLength (a ++ b ++ m.text), out ++ b ++ m.folded,
          count + 1⟩) := by
  have hfront := slice?_append a b (m.text ++ rest)
  have hfolded := folded?_ofComparison (spaced_of_read? hread) (a ++ b) rest
  rw [← byteLength_append] at hfront
  rw [List.append_assoc] at hfolded
  have hstart : (Match.ofComparison (byteLength (a ++ b)) m).operand.start = byteLength (a ++ b) := rfl
  have hkeyword : (Match.ofComparison (byteLength (a ++ b)) m).keyword.start =
      byteLength (a ++ b) + byteLength m.lead := rfl
  have hstop : (Match.ofComparison (byteLength (a ++ b)) m).pattern.stop =
      byteLength (a ++ b ++ m.text) := (byteLength_append _ _).symm
  rw [FoldState.behind?, hstart, hkeyword, hstop]
  split
  · rfl
  · simp only [hfront, hfolded, Option.bind_eq_bind, Option.bind_some]
    rfl

end

/-! ## Rounds keep what a state comes to -/

/-- The text in front of a state's first offset is `a`, between the two it is `b`, and behind them
`r`. -/
structure FoldState.Stands (s a b r : Text) (st : FoldState) : Prop where
  text : s = a ++ (b ++ r)
  copied : st.copied = byteLength a
  pos : st.pos = byteLength (a ++ b)

/-- The statement that a state comes to: `b` is copied, and what follows it is folded. -/
def FoldState.result (v : Survey) (b r : Text) (st : FoldState) : Folded :=
  let rest := foldFrom v (st.pos == 0) st.pos r
  ⟨st.out ++ (b ++ rest.text), st.count + rest.count⟩

namespace FoldState

section

variable {s a b r : Text} {v : Survey} {st : FoldState} {q : Match}

theorem stands_start (s : Text) : Stands s [] [] s {} := ⟨rfl, rfl, rfl⟩

theorem Stands.isBoundary_copied (h : st.Stands s a b r) : Text.isBoundary s st.copied = true := by
  rw [h.text, h.copied]
  exact isBoundary_byteLength a _

theorem Stands.isBoundary_pos (h : st.Stands s a b r) : Text.isBoundary s st.pos = true := by
  rw [h.text, h.pos, ← List.append_assoc]
  exact isBoundary_byteLength (a ++ b) r

theorem Stands.copied_le_pos (h : st.Stands s a b r) : st.copied ≤ st.pos := by
  rw [h.copied, h.pos, byteLength_append]
  exact Nat.le_add_right _ _

theorem Stands.nextMatch?_eq (h : st.Stands s a b r) :
    nextMatch? s st.pos = some (search (st.pos == 0) st.pos r) := by
  have hslice := slice?_suffix (a ++ b) r
  rw [List.append_assoc, ← h.text, ← h.pos] at hslice
  rw [nextMatch?_eq_search, hslice, Option.map_some]

/-- Without a further match, the rest is copied. -/
theorem Stands.finish?_eq (h : st.Stands s a b r) (hq : nextMatch? s st.pos = some none)
    (v : Survey) : st.finish? s = some (st.result v b r) := by
  rw [h.nextMatch?_eq, Option.some_inj] at hq
  have hslice := slice?_suffix a (b ++ r)
  rw [← h.text, ← h.copied] at hslice
  rw [finish?, hslice, Option.map_some, result, foldFrom_of_search_eq_none hq]
  rfl

/-- Behind a match, the next state is there, and it comes to the same statement. -/
theorem Stands.exists_behind? (h : st.Stands s a b r) (hq : nextMatch? s st.pos = some (some q))
    (v : Survey) : ∃ st' a' b' r', st.behind? s v q = some st' ∧ st'.Stands s a' b' r' ∧
      st'.result v b' r' = st.result v b r := by
  rw [h.nextMatch?_eq, Option.some_inj] at hq
  obtain ⟨u, m, rest, rfl, hread, rfl, hfold⟩ := exists_of_search hq
  have hsplit : s = a ++ ((b ++ u) ++ (m.text ++ rest)) := by rw [h.text, List.append_assoc b]
  have hlen : st.pos + byteLength u = byteLength (a ++ (b ++ u)) := by
    rw [h.pos, ← byteLength_append, List.append_assoc]
  have hbehind := @behind?_ofComparison v a (b ++ u) rest m hread st.pos st.out st.count
  rw [← hsplit, ← hlen, ← h.copied] at hbehind
  rw [result, hfold]
  split at hbehind
  · rename_i hinside
    obtain ⟨c, w, hcw, hascii⟩ := exists_ascii_of_read? hread
    have hone := utf8Size_of_ascii hascii
    refine ⟨_, a, b ++ u ++ [c], w, hbehind, ⟨?_, h.copied, ?_⟩, ?_⟩
    · rw [hsplit, hcw, List.append_assoc (b ++ u), List.singleton_append]
    · rw [← List.append_assoc a, byteLength_append _ [c], ← hlen, byteLength_cons, hone,
        byteLength_nil]
    · have hstep : foldFrom v true (st.pos + byteLength u) (c :: w) =
          ⟨c :: (foldFrom v false (st.pos + byteLength u + 1) w).text,
            (foldFrom v false (st.pos + byteLength u + 1) w).count⟩ := by
        rw [hcw] at hread
        rw [foldFrom_cons, if_pos rfl, hread]
        simp only [hinside, if_true, hone]
      rw [hcw, hstep, result]
      simp
  · rename_i hinside
    rw [Bool.not_eq_true, Bool.or_eq_false_iff] at hinside
    refine ⟨_, a ++ (b ++ u) ++ m.text, [], rest, hbehind, ⟨?_, ?_, ?_⟩, ?_⟩
    · rw [hsplit]
      simp only [List.append_assoc, List.nil_append]
    · simp only [List.append_assoc]
    · simp only [List.append_assoc, List.append_nil]
    · have hpos : byteLength (a ++ (b ++ u) ++ m.text) =
          st.pos + byteLength u + byteLength m.text := by rw [byteLength_append, ← hlen]
      have hne : (st.pos + byteLength u + byteLength m.text == 0) = false := by
        have := byteLength_text_pos hread
        rw [beq_eq_false_iff_ne]
        omega
      rw [foldFrom_of_read? hread hinside.1 hinside.2, result, hpos, hne]
      simp only [List.append_assoc, List.nil_append, Folded.mk.injEq, true_and]
      omega

end

/-- Every state that the rounds come to stands between characters. -/
theorem Reaches.exists_stands {s : Text} {v : Survey} {st : FoldState} (h : Reaches s v st) :
    ∃ a b r, st.Stands s a b r := by
  induction h with
  | refl => exact ⟨[], [], s, stands_start s⟩
  | tail _ hmoves ih =>
    obtain ⟨a, b, r, hstands⟩ := ih
    obtain ⟨q, hq, hst⟩ := hmoves
    obtain ⟨st', a', b', r', hst', hstands', -⟩ := hstands.exists_behind? hq v
    rw [hst, Option.some_inj] at hst'
    exact ⟨a', b', r', hst' ▸ hstands'⟩

end FoldState

/-- The rounds from a state on write what the state comes to. -/
theorem foldRounds?_eq {s a b r : Text} {v : Survey} {st : FoldState} (h : st.Stands s a b r) :
    foldRounds? s v st = some (st.result v b r) := by
  fun_induction foldRounds? s v st generalizing a b r with
  | case1 st hq =>
    rw [h.nextMatch?_eq] at hq
    cases hq
  | case2 st hq => exact h.finish?_eq hq v
  | case3 st q hq hst =>
    obtain ⟨st', -, -, -, hst', -⟩ := h.exists_behind? hq v
    rw [hst] at hst'
    cases hst'
  | case4 st q hq st' hst ih =>
    obtain ⟨st'', a', b', r', hst'', hstands, hresult⟩ := h.exists_behind? hq v
    rw [hst, Option.some_inj] at hst''
    subst hst''
    rw [ih hstands, hresult]

/-- No slice fails, and the comparisons are folded as they are character by character. -/
theorem fold?_eq (s : Text) : fold? s = some (fold s) := by
  rw [fold?, survey?_eq]
  refine (foldRounds?_eq (FoldState.stands_start s)).trans ?_
  rw [FoldState.result]
  simp only [Nat.zero_add]
  rfl

end QueryClauses.Sql.Like
