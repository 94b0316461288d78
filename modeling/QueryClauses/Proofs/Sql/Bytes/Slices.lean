import QueryClauses.Proofs.Sql.Bytes.Clause
import QueryClauses.Proofs.Sql.Bytes.Folding
import QueryClauses.Proofs.Sql.Bytes.Positional
import QueryClauses.Proofs.Sql.Occurrences

/-!
# Every slice is between characters

A statement is surveyed, extended, numbered, folded and abbreviated by slicing it at byte offsets.
Whatever the text, no slice is out of range or inside a character (`slices_between_characters`): the
offsets that a survey hands out are between elements (`isBoundary_of_mem_offsets`), and the others
are found from these or stay between characters from round to round.
-/

namespace QueryClauses.Sql

open Text

/-- The offsets that a survey hands out. -/
def Survey.offsets (v : Survey) : List Nat :=
  v.words.flatMap (fun w => [w.start, w.stop]) ++
    (v.placeholders.flatMap (fun p => [p.start, p.stop]) ++
      v.regions.flatMap fun r => [r.start, r.stop])

/-- Where an element starts and where it ends, no character is cut. -/
theorem isBoundary_of_lex_eq {s : Text} {a b : List Token} {t : Token} {pos : Nat}
    (h : lex s = a ++ t :: b)
    (hpos : pos = byteLength (textOf a) ∨ pos = byteLength (textOf a) + byteLength t.text) :
    isBoundary s pos = true := by
  have hs : s = textOf a ++ (t.text ++ textOf b) := by
    rw [← textOf_cons, ← textOf_append, ← h, textOf_lex]
  rw [hs]
  rcases hpos with rfl | rfl
  · exact isBoundary_byteLength _ _
  · rw [← List.append_assoc, ← byteLength_append]
    exact isBoundary_byteLength _ _

theorem isBoundary_of_mem_offsets {s : Text} {pos : Nat} (h : pos ∈ (survey s).offsets) :
    isBoundary s pos = true := by
  simp only [Survey.offsets, List.mem_append, List.mem_flatMap, List.mem_cons, List.not_mem_nil,
    or_false] at h
  rcases h with ⟨w, hw, hpos⟩ | ⟨p, hp, hpos⟩ | ⟨r, hr, hpos⟩
  · obtain ⟨a, t, b, hlex, -, htext, hstart, -⟩ := exists_of_mem_words hw
    rw [Word.stop, hstart, htext] at hpos
    exact isBoundary_of_lex_eq hlex hpos
  · obtain ⟨a, t, b, hlex, -, -, hstart, hstop⟩ := exists_of_mem_placeholders hp
    rw [hstop, hstart] at hpos
    exact isBoundary_of_lex_eq hlex hpos
  · obtain ⟨a, t, b, hlex, -, hstart, hstop⟩ := exists_of_mem_regions hr
    rw [hstop, hstart] at hpos
    exact isBoundary_of_lex_eq hlex hpos

theorem takeBytes_of_isBoundary {s : Text} {pos : Nat} (h : isBoundary s pos = true) :
    byteLength (takeBytes pos s) = pos := by
  obtain ⟨u, v, rfl, rfl⟩ := isBoundary_iff.1 h
  rw [takeBytes_byteLength_append]

/-- A clause may be put in at any offset between characters. -/
theorem Bytes.splice?_of_isBoundary {s : Text} {pos : Nat} (h : isBoundary s pos = true)
    (clause : Text) :
    Bytes.splice? s pos clause = some (splice (takeBytes pos s, dropBytes pos s) clause) := by
  have := Bytes.splice?_append (takeBytes pos s) (dropBytes pos s) clause
  rwa [takeBytes_append_dropBytes, takeBytes_of_isBoundary h] at this

/-- An abbreviation is the whole text, or the longest prefix within the limit and an ellipsis. -/
theorem abbreviate_cases (limit : Option Nat) (s : Text) :
    (∀ n ∈ limit, byteLength s ≤ n) ∧ abbreviate limit s = s ∨
      ∃ n u, limit = some n ∧ n < byteLength s ∧ abbreviate limit s = u ++ "...".toList ∧
        ∀ u', u' <+: u ↔ u' <+: s ∧ byteLength u' ≤ n := by
  cases limit with
  | none => exact .inl ⟨fun n hn => (nomatch hn), rfl⟩
  | some n =>
    rw [abbreviate]
    split
    · rename_i hn
      exact .inr ⟨n, takeBytes n s, rfl, hn, rfl, fun u' => prefix_takeBytes_iff⟩
    · rename_i hn
      refine .inl ⟨?_, rfl⟩
      rintro m ⟨⟩
      exact Nat.le_of_not_lt hn

/-- No slice is out of range or inside a character, and the loops end. A slice is there exactly for
two offsets in order, in range and between characters; each function that slices a text by offsets is
its form with slices that may fail, and gives its result. A survey moves on in every step, and so does
the search for comparisons in every round: its position stays between characters. -/
theorem slices_between_characters (s condition keys clause : Text) (bindings : Bindings)
    (limit : Option Nat) :
    (∀ (t : Text) (i j : Nat), (slice? t i j).isSome = true ↔
      i ≤ j ∧ j ≤ byteLength t ∧ (∃ u v, t = u ++ v ∧ byteLength u = i) ∧
        ∃ u v, t = u ++ v ∧ byteLength u = j) ∧
    Bytes.survey? s = some (survey s) ∧
    (∀ i depth c st, byteAt? s i = some c → Bytes.step? s i depth c = some st → i < st.next) ∧
    (∀ pos ∈ byteLength s :: (survey s).offsets, isBoundary s pos = true ∧
      Bytes.splice? s pos clause = some (splice (takeBytes pos s, dropBytes pos s) clause)) ∧
    Bytes.addCondition? condition s = some (addCondition condition s) ∧
    Bytes.addSortKeys? keys s = some (addSortKeys keys s) ∧
    Bytes.positional? bindings s = some (positional bindings s) ∧
    Like.fold? s = some (Like.fold s) ∧
    (∀ st, Like.FoldState.Reaches s (survey s) st →
      st.copied ≤ st.pos ∧ isBoundary s st.copied = true ∧ isBoundary s st.pos = true ∧
      ∃ found, Like.nextMatch? s st.pos = some found ∧
        ∀ q ∈ found, ∃ st', st.behind? s (survey s) q = some st' ∧ st.pos < st'.pos ∧
          st'.pos ≤ byteLength s) ∧
    abbreviate? limit s = some (abbreviate limit s) ∧
    ((∀ n ∈ limit, byteLength s ≤ n) ∧ abbreviate limit s = s ∨
      ∃ n u, limit = some n ∧ n < byteLength s ∧ abbreviate limit s = u ++ "...".toList ∧
        ∀ u', u' <+: u ↔ u' <+: s ∧ byteLength u' ≤ n) := by
  refine ⟨fun t i j => ?_, Bytes.survey?_eq s, fun i depth c st hc hst => Bytes.lt_next_of_step? hc hst,
    fun pos hpos => ?_, Bytes.addCondition?_eq condition s, Bytes.addSortKeys?_eq keys s,
    Bytes.positional?_eq bindings s, Like.fold?_eq s, fun st hst => ?_, abbreviate?_eq limit s,
    abbreviate_cases limit s⟩
  · rw [isSome_slice?_iff, isBoundary_iff, isBoundary_iff]
  · have hcut : isBoundary s pos = true := by
      rcases List.mem_cons.1 hpos with rfl | hpos
      · exact isBoundary_iff.2 ⟨s, [], (List.append_nil s).symm, rfl⟩
      · exact isBoundary_of_mem_offsets hpos
    exact ⟨hcut, Bytes.splice?_of_isBoundary hcut clause⟩
  · obtain ⟨a, b, r, hstands⟩ := hst.exists_stands
    refine ⟨hstands.copied_le_pos, hstands.isBoundary_copied, hstands.isBoundary_pos, _,
      hstands.nextMatch?_eq, fun q hq => ?_⟩
    have hnext := hstands.nextMatch?_eq
    rw [Option.mem_def.1 hq] at hnext
    obtain ⟨st', -, -, -, hst', -, -⟩ := hstands.exists_behind? hnext (survey s)
    exact ⟨st', hst', Like.FoldState.lt_pos_of_moves ⟨q, hnext, hst'⟩⟩

/-- A character of two bytes in a literal, and a comparison in a comment. -/
def sectionSelect : Text := "SELECT '§' FROM t /* § n LIKE :a */ WHERE t.b LIKE '§%'".toList

theorem slices_between_characters_sectionSelect :
    (7 ∈ (survey sectionSelect).offsets ∧
      Bytes.splice? sectionSelect 7 "1,".toList =
        some "SELECT 1, '§' FROM t /* § n LIKE :a */ WHERE t.b LIKE '§%'".toList) ∧
    (Bytes.step? sectionSelect 7 0 '\'' = some ⟨11, 0, .region ⟨7, 11⟩⟩ ∧ 7 < 11) ∧
    (Like.FoldState.Reaches sectionSelect (survey sectionSelect) ⟨0, 26, [], 0⟩ ∧
      isBoundary sectionSelect 26 = true) ∧
    abbreviate? (some 9) sectionSelect = some "SELECT '...".toList := by
  obtain ⟨-, -, hsteps, hsplices, -, -, -, -, hstates, habbreviate, -⟩ :=
    slices_between_characters sectionSelect [] [] "1,".toList {} (some 9)
  have hoffset : 7 ∈ (survey sectionSelect).offsets := by decide +kernel
  have hstep : Bytes.step? sectionSelect 7 0 '\'' = some ⟨11, 0, .region ⟨7, 11⟩⟩ := by
    decide +kernel
  have hreaches : Like.FoldState.Reaches sectionSelect (survey sectionSelect) ⟨0, 26, [], 0⟩ :=
    .single ⟨⟨⟨25, 26⟩, none, ⟨27, 31⟩, ⟨32, 34⟩⟩, by decide +kernel, by decide +kernel⟩
  refine ⟨⟨hoffset, (hsplices 7 (List.mem_cons_of_mem _ hoffset)).2.trans ?_⟩,
    ⟨hstep, hsteps 7 0 '\'' _ (by decide +kernel) hstep⟩,
    ⟨hreaches, (hstates _ hreaches).2.2.1⟩, habbreviate.trans ?_⟩
  · decide +kernel
  · decide +kernel

end QueryClauses.Sql
