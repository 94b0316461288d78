import QueryClauses.Proofs.Sql.Conjoining
import QueryClauses.Proofs.Sql.OrderBy

/-!
# Sort keys behind sort keys

A statement with sort keys is cut anew for further ones, and the words of the first keys are words
of the statement then. The further keys come right behind the first ones exactly if no word up to
there opens a clause that limits the rows (`addSortKeys_addSortKeys_iff`).
-/

namespace QueryClauses.Sql

open CharClass

/-! ## What is added as sort keys -/

/-- A text that is added as sort keys: words and signs on one line, of which the last is a word that
opens no clause. -/
structure IsSortKeys (keys : Text) : Prop where
  tame : ∀ t ∈ lex keys, t.isTame = true
  plain : ∀ t ∈ lex keys, t.kind = .word ∨ t.kind = .other
  ends : ∃ a w, lex keys = a ++ [word w] ∧ ∀ next, opensPaging w next = false

/-- What stands behind sort keys that are added. -/
def sortKeysBack (s : Text) : Text := textOf (follow (cutBefore opensPaging 0 (lex s)).2)

theorem mem_of_mem_topWordsFrom {w : Text} {d : Int} {ts : List Token} (h : w ∈ topWordsFrom d ts) :
    word w ∈ ts := by
  induction ts generalizing d with
  | nil => cases h
  | cons t ts ih =>
    simp only [topWordsFrom] at h
    split at h
    · rename_i ht
      rcases List.mem_cons.1 h with rfl | h
      · have hk : t.kind = .word := by
          simp only [Token.isTopWord, Bool.and_eq_true, beq_iff_eq] at ht
          exact ht.1
        obtain ⟨kind, text⟩ := t
        cases hk
        exact List.mem_cons_self
      · exact List.mem_cons_of_mem t (ih h)
    · exact List.mem_cons_of_mem t (ih h)

theorem topWordsFrom_concat_word (a : List Token) (w : Text) (h : depthFrom 0 a = 0) :
    topWordsFrom 0 (a ++ [word w]) = topWordsFrom 0 a ++ [w] := by
  rw [topWordsFrom_append, h]
  rfl

theorem IsSortKeys.topWords_eq {keys : Text} (hk : IsSortKeys keys) :
    ∃ ws w, topWords keys = ws ++ [w] ∧ ∀ next, opensPaging w next = false := by
  obtain ⟨a, w, hlex, hw⟩ := hk.ends
  have ha : ∀ t ∈ a, t.kind = .word ∨ t.kind = .other := fun t ht =>
    hk.plain t (by rw [hlex]; exact List.mem_append_left _ ht)
  refine ⟨topWordsFrom 0 a, w, ?_, hw⟩
  rw [topWords, hlex, topWordsFrom_concat_word a w (isBalanced_of_plain ha).depthFrom_eq]

/-! ## Words that end no ORDER BY -/

/-- ORDER and BY stand next to each other in front of a word that is not BY, if they do with it. -/
theorem orderByAmong_of_concat {ws : List Text} {w : Text} (hw : isKeyword "BY" w = false)
    (h : orderByAmong (ws ++ [w]) = true) : orderByAmong ws = true := by
  induction ws with
  | nil => cases h
  | cons v ws ih =>
    cases ws with
    | nil =>
      rw [List.singleton_append, orderByAmong, hw, Bool.and_false, Bool.false_or] at h
      cases h
    | cons u ws =>
      rw [List.cons_append, List.cons_append, orderByAmong, Bool.or_eq_true] at h
      rw [orderByAmong, Bool.or_eq_true]
      exact h.imp id ih

theorem isKeyword_eq_false_of_isKeyword {k k' : String} {w : Text} (h : isKeyword k w = true)
    (hne : Text.sameWord k.toList k'.toList = false) : isKeyword k' w = false := by
  simp only [isKeyword, Text.sameWord, beq_iff_eq] at h
  rw [isKeyword, Text.sameWord, h]
  exact hne

/-- A word that limits the rows is not BY. -/
theorem isKeyword_by_of_opensPaging {w : Text} {next : Option Text}
    (h : opensPaging w next = true) : isKeyword "BY" w = false := by
  simp only [opensPaging, List.any_cons, List.any_nil, Bool.or_false, Bool.or_eq_true,
    Bool.and_eq_true] at h
  rcases h with (h | h | h) | ⟨h, -⟩
  · exact isKeyword_eq_false_of_isKeyword h rfl
  · exact isKeyword_eq_false_of_isKeyword h rfl
  · exact isKeyword_eq_false_of_isKeyword h rfl
  · exact isKeyword_eq_false_of_isKeyword h rfl

/-- Which words limit the rows depends on no word behind them but UPDATE. -/
theorem opensPaging_of_some {v w : Text} (hupdate : isKeyword "UPDATE" v = false)
    (next : Option Text) (h : opensPaging w (some v) = true) : opensPaging w next = true := by
  simp only [opensPaging, Option.any_some, hupdate, Bool.and_false, Bool.or_false] at h
  rw [opensPaging, h, Bool.true_or]

/-! ## A statement with sort keys -/

section

variable {s keys : Text} (hs : WellFormed s) (hline : ∀ t ∈ lex s, t.isLineComment = false)

theorem endsInLineComment_cutPaging (hline : ∀ t ∈ lex s, t.isLineComment = false) :
    endsInLineComment (cutPaging s).1 = false := by
  apply endsInLineComment_of_forall
  intro t ht
  have hlex := @lex_textOf_cutBefore_fst opensPaging s
  exact hline t (mem_lex_of_mem_cutBefore_fst opensPaging (hlex ▸ ht))

include hs

theorem isBalanced_cutPaging : IsBalanced (cutBefore opensPaging 0 (lex s)).1 ∧
    IsBalanced (cutBefore opensPaging 0 (lex s)).2 := by
  apply IsBalanced.of_append
  · rw [cutBefore_append]
    exact hs.balanced
  · exact hs.depthFrom_cutBefore opensPaging

theorem cutBefore_cutPaging :
    cutBefore opensPaging 0 (cutBefore opensPaging 0 (lex s)).2 =
      ([], (cutBefore opensPaging 0 (lex s)).2) := by
  rcases cutBefore_snd opensPaging 0 (lex s) with hnil | ⟨t, rest, hcons, -, hcut⟩
  · rw [hnil]
    rfl
  · rw [hs.depthFrom_cutBefore] at hcut
    rw [hcons]
    exact hcut

include hline

theorem isBalanced_sortKeysLead : IsBalanced (lex (sortKeysLead s)) := by
  rw [(lex_sortKeysLead hs (endsInLineComment_cutPaging hline)).1]
  refine (isBalanced_rdropWhile (isBalanced_cutPaging hs).1).append ?_
  cases hasOrderBy (cutPaging s).1 <;> decide

/-- The words in front of sort keys make an ORDER BY, and none in front of the last limits the
rows. -/
theorem exists_topWords_sortKeysLead : ∃ ws w, topWords (sortKeysLead s) = ws ++ [w] ∧
    noneOpens opensPaging (some w) ws = true ∧ orderByAmong (ws ++ [w]) = true := by
  have hopens := @noneOpens_cutBefore opensPaging 0 (lex s)
  rw [topWords_sortKeysLead hs (endsInLineComment_cutPaging hline)]
  generalize topWordsFrom 0 (cutBefore opensPaging 0 (lex s)).1 = words at hopens ⊢
  by_cases hby : orderByAmong words = true
  · rw [if_pos hby, List.append_nil]
    rcases List.eq_nil_or_concat words with rfl | ⟨ws, w, rfl⟩
    · cases hby
    · rw [List.concat_eq_append] at hopens hby ⊢
      rw [noneOpens_append, Bool.and_eq_true] at hopens
      exact ⟨ws, w, rfl, hopens.1, hby⟩
  · rw [if_neg hby]
    refine ⟨words ++ ["ORDER".toList], "BY".toList, by simp, ?_, ?_⟩
    · rw [noneOpens_append, Bool.and_eq_true]
      exact ⟨noneOpens_mono hopens fun w hw => opensPaging_of_some rfl _ hw, by decide⟩
    · rw [List.append_assoc]
      exact orderByAmong_append_right words (by decide)

variable (hk : IsSortKeys keys)
include hk

theorem lex_addSortKeys_eq : lex (addSortKeys keys s) =
    lex (sortKeysLead s) ++ lex keys ++ follow (cutBefore opensPaging 0 (lex s)).2 :=
  lex_addSortKeys hs (endsInLineComment_cutPaging hline) fun t ht =>
    Token.isClosed_of_isTame (hk.tame t ht)

theorem isLineComment_addSortKeys : ∀ t ∈ lex (addSortKeys keys s), t.isLineComment = false := by
  intro t ht
  rw [lex_addSortKeys_eq hs hline hk,
    (lex_sortKeysLead hs (endsInLineComment_cutPaging hline)).1, follow_eq] at ht
  simp only [List.mem_append] at ht
  rcases ht with ((ht | ht) | ht) | ht | ht
  · exact hline t (mem_lex_of_mem_cutBefore_fst opensPaging ((List.rdropWhile_prefix _ _).subset ht))
  · have hjoint : ∀ t ∈ sortKeysJoint (hasOrderBy (cutPaging s).1), t.isLineComment = false := by
      cases hasOrderBy (cutPaging s).1 <;> decide
    exact hjoint t ht
  · exact isLineComment_of_isTame ht (hk.tame t ht)
  · have hother := kind_of_isBlank (isBlank_of_mem_gap ht)
    simp [Token.isLineComment, hother]
  · exact hline t (mem_lex_of_mem_cutBefore_snd opensPaging ht)

theorem WellFormed.addSortKeys : WellFormed (addSortKeys keys s) where
  closed := by
    intro t ht
    rw [lex_addSortKeys_eq hs hline hk, follow_eq] at ht
    simp only [List.mem_append] at ht
    rcases ht with (ht | ht) | ht | ht
    · exact .inl ((lex_sortKeysLead hs (endsInLineComment_cutPaging hline)).2 t ht)
    · exact .inl (Token.isClosed_of_isTame (hk.tame t ht))
    · exact .inl (isClosed_of_isBlank (isBlank_of_mem_gap ht))
    · exact hs.closed t (mem_lex_of_mem_cutBefore_snd opensPaging ht)
  balanced := by
    rw [lex_addSortKeys_eq hs hline hk, follow_eq]
    refine ((isBalanced_sortKeysLead hs hline).append (isBalanced_of_plain hk.plain)).append ?_
    exact (isBalanced_gap _).append (isBalanced_cutPaging hs).2

/-- The elements up to the end of sort keys, and their words. -/
theorem lex_sortKeysLead_append : lex (sortKeysLead s ++ keys) = lex (sortKeysLead s) ++ lex keys ∧
    topWords (sortKeysLead s ++ keys) = topWords (sortKeysLead s) ++ topWords keys := by
  have hwhole : lex (sortKeysLead s ++ keys) = lex (sortKeysLead s) ++ lex keys := by
    have h := lex_textOf_prefix (lex_addSortKeys_eq hs hline hk)
    rwa [textOf_append, textOf_lex, textOf_lex] at h
  refine ⟨hwhole, ?_⟩
  rw [topWords, hwhole, topWordsFrom_append, (isBalanced_sortKeysLead hs hline).depthFrom_eq]
  rfl

theorem trimEnd_sortKeysLead_append (bs : Text) (hbs : ∀ c ∈ bs, isSpace c = true) :
    Text.trimEnd (sortKeysLead s ++ keys ++ bs) = sortKeysLead s ++ keys := by
  obtain ⟨a, w, hlex, -⟩ := hk.ends
  have hwhole := (lex_sortKeysLead_append hs hline hk).1
  rw [hlex, ← List.append_assoc] at hwhole
  have htext : sortKeysLead s ++ keys = textOf (lex (sortKeysLead s) ++ a ++ [word w]) := by
    rw [← hwhole, textOf_lex]
  have hword : (word w).isTopWord 0 = true := rfl
  rw [trimEnd_append_of_all hbs, htext]
  rw [htext] at hwhole
  exact trimEnd_textOf_of_isTopWord hwhole hword

end

/-! ## Further sort keys -/

section Further

variable {s k k' : Text} (hs : WellFormed s) (hline : ∀ t ∈ lex s, t.isLineComment = false)
  (hk : IsSortKeys k)
include hs hline hk

/-- The last word of sort keys opens no clause, whatever follows. -/
theorem noneOpens_sortKeys (next : Option Text) :
    noneOpens opensPaging next (topWords (sortKeysLead s ++ k)) =
      noneOpens opensPaging none (topWords (sortKeysLead s ++ k)) := by
  obtain ⟨ws, w, hwords, hw⟩ := hk.topWords_eq
  rw [(lex_sortKeysLead_append hs hline hk).2, hwords, ← List.append_assoc, noneOpens_append next,
    noneOpens_append none]
  simp only [noneOpens, hw, List.head?_cons, Option.some_or]

theorem isBalanced_sortKeysLead_append : IsBalanced (lex (sortKeysLead s ++ k)) := by
  rw [(lex_sortKeysLead_append hs hline hk).1]
  exact (isBalanced_sortKeysLead hs hline).append (isBalanced_of_plain hk.plain)

theorem lex_addSortKeys_eq_append : lex (addSortKeys k s) =
    lex (sortKeysLead s ++ k) ++ follow (cutBefore opensPaging 0 (lex s)).2 := by
  rw [lex_addSortKeys_eq hs hline hk, (lex_sortKeysLead_append hs hline hk).1]

/-- Where the words up to the end of the keys open nothing, the cut for further keys is there. -/
theorem cutBefore_addSortKeys
    (h : noneOpens opensPaging none (topWords (sortKeysLead s ++ k)) = true) :
    cutBefore opensPaging 0 (lex (addSortKeys k s)) =
      (lex (sortKeysLead s ++ k) ++ gap (cutBefore opensPaging 0 (lex s)).2,
        (cutBefore opensPaging 0 (lex s)).2) := by
  have hbalanced := isBalanced_sortKeysLead_append hs hline hk
  have hdepth := (hbalanced.append (isBalanced_gap (cutBefore opensPaging 0 (lex s)).2)).depthFrom_eq
  rw [lex_addSortKeys_eq_append hs hline hk, follow_eq, ← List.append_assoc, cutBefore_of_noneOpens,
    hdepth, cutBefore_cutPaging hs, List.append_nil]
  rw [topWordsFrom_append, hbalanced.depthFrom_eq, topWordsFrom_gap, List.append_nil]
  exact (noneOpens_sortKeys hs hline hk _).trans h

/-- Words of which one opens a clause are cut in front of it, and ORDER BY stands in front of it. -/
theorem cutBefore_addSortKeys_of_opens
    (h : noneOpens opensPaging none (topWords (sortKeysLead s ++ k)) = false) :
    ∃ x t z, lex (sortKeysLead s ++ k) = x ++ t :: z ∧
      cutBefore opensPaging 0 (lex (addSortKeys k s)) =
        (x, t :: (z ++ follow (cutBefore opensPaging 0 (lex s)).2)) ∧
      t.kind = .word ∧ orderByAmong (topWordsFrom 0 x) = true := by
  rw [lex_addSortKeys_eq_append hs hline hk]
  obtain ⟨x, t, z, hlex, hcut, htop, hopens⟩ := @cutBefore_of_opens opensPaging 0
    (lex (sortKeysLead s ++ k)) (follow (cutBefore opensPaging 0 (lex s)).2)
    ((noneOpens_sortKeys hs hline hk _).trans h)
  refine ⟨x, t, z, hlex, hcut, ?_, ?_⟩
  · simp only [Token.isTopWord, Bool.and_eq_true, beq_iff_eq] at htop
    exact htop.1
  · -- The words in front of the keys, of which the last one is `w`, are cut at `w` at the earliest.
    obtain ⟨ws, w, hlead, hnone, hby⟩ := exists_topWords_sortKeysLead hs hline
    have hsplit : topWordsFrom 0 x ++ t.text :: topWordsFrom (t.kind.depthAfter (depthFrom 0 x)) z =
        ws ++ w :: topWords k := by
      have hwords := (lex_sortKeysLead_append hs hline hk).2
      rw [topWords, hlex, hlead, topWordsFrom_append, topWordsFrom, if_pos htop] at hwords
      simpa using hwords
    rw [topWordsFrom_append, List.head?_append] at hopens
    generalize topWordsFrom (t.kind.depthAfter (depthFrom 0 x)) z = behind at hsplit hopens
    rcases List.append_eq_append_iff.1 hsplit with ⟨as, hws, has⟩ | ⟨bs, hx, hbs⟩
    · cases as with
      | nil =>
        rw [List.append_nil] at hws
        rw [List.nil_append, List.cons.injEq] at has
        rw [← hws]
        exact orderByAmong_of_concat (has.1 ▸ isKeyword_by_of_opensPaging hopens) hby
      | cons v as =>
        -- A word in front of `w` would have opened the clause in the statement already.
        rw [List.cons_append, List.cons.injEq] at has
        obtain ⟨rfl, rfl⟩ := has
        rw [hws, noneOpens_append, Bool.and_eq_true, noneOpens, Bool.and_eq_true,
          Bool.not_eq_true'] at hnone
        have hnext : (as ++ w :: topWords k).head? = as.head?.or (some w) := List.head?_append
        rw [hnext, Option.or_assoc, Option.some_or, hnone.2.1] at hopens
        cases hopens
    · cases bs with
      | nil =>
        rw [List.nil_append, List.cons.injEq] at hbs
        rw [List.append_nil] at hx
        rw [hx]
        exact orderByAmong_of_concat (hbs.1 ▸ isKeyword_by_of_opensPaging hopens) hby
      | cons v bs =>
        rw [List.cons_append, List.cons.injEq] at hbs
        rw [hx, ← hbs.1, ← List.singleton_append, ← List.append_assoc]
        exact orderByAmong_append_left hby bs

/-- Where a word opens a clause, the comma of further keys comes in place of a blank or a word. -/
theorem exists_comma_of_opens (k' : Text)
    (h : noneOpens opensPaging none (topWords (sortKeysLead s ++ k)) = false) :
    ∃ u c v v', sortKeysLead s ++ k = u ++ c :: v ∧ c ≠ ',' ∧
      addSortKeys k' (addSortKeys k s) = u ++ ',' :: v' := by
  obtain ⟨x, t, z, hlex, hcut, hkind, hby⟩ := cutBefore_addSortKeys_of_opens hs hline hk h
  have hhead : (cutPaging (addSortKeys k s)).1 = textOf x := by
    rw [cutPaging, hcut]
  have hordered : hasOrderBy (textOf x) = true := by
    rw [hasOrderBy, topWords, lex_textOf_prefix hlex]
    exact hby
  have hcomma : ", ".toList = [',', ' '] := rfl
  have htext : addSortKeys k' (addSortKeys k s) = Text.trimEnd (textOf x) ++
      ',' :: ' ' :: (k' ++ sortKeysBack (addSortKeys k s)) := by
    rw [addSortKeys_eq_append, sortKeysLead, hhead, if_pos hordered, hcomma, sortKeysBack]
    simp
  obtain ⟨c, body, hword, hbegins⟩ := begins_of_mem_lex (s := sortKeysLead s ++ k) (t := t)
    (by simp [hlex])
  have hident : isIdentChar c = true := by
    generalize ([] : Text) = r at hbegins
    cases hbegins with
    | word hc => exact hc
    | cast => cases hkind
    | _ => cases hkind
  have hblanks := List.rdropWhile_append_rtakeWhile (p := isSpace) (l := textOf x)
  have hwhole : sortKeysLead s ++ k = Text.trimEnd (textOf x) ++
      ((textOf x).rtakeWhile isSpace ++ c :: (body ++ textOf z)) := by
    rw [← List.append_assoc, trimEnd_eq_rdropWhile, hblanks, ← textOf_lex (sortKeysLead s ++ k),
      hlex, textOf_append, textOf_cons, hword]
    rfl
  cases hr : (textOf x).rtakeWhile isSpace with
  | nil =>
    rw [hr, List.nil_append] at hwhole
    refine ⟨_, c, _, _, hwhole, ?_, htext⟩
    rintro rfl
    exact absurd hident (by decide)
  | cons b bs =>
    rw [hr] at hwhole
    refine ⟨_, b, _, _, hwhole, ?_, htext⟩
    rintro rfl
    have hb : isSpace ',' = true := List.mem_rtakeWhile_imp (l := textOf x) (by simp [hr])
    exact absurd hb (by decide)

theorem sortKeysLead_addSortKeys
    (h : noneOpens opensPaging none (topWords (sortKeysLead s ++ k)) = true) :
    sortKeysLead (addSortKeys k s) = sortKeysLead s ++ k ++ ", ".toList := by
  have hcut := cutBefore_addSortKeys hs hline hk h
  have hhead : (cutPaging (addSortKeys k s)).1 =
      sortKeysLead s ++ k ++ textOf (gap (cutBefore opensPaging 0 (lex s)).2) := by
    rw [cutPaging, hcut]
    simp
  have hlex := @lex_textOf_cutBefore_fst opensPaging (addSortKeys k s)
  rw [hcut] at hlex
  have hwords : topWords (cutPaging (addSortKeys k s)).1 = topWords (sortKeysLead s ++ k) := by
    rw [topWords, cutPaging, hcut]
    rw [hlex, topWordsFrom_append, (isBalanced_sortKeysLead_append hs hline hk).depthFrom_eq,
      topWordsFrom_gap, List.append_nil]
    rfl
  have hordered : hasOrderBy (cutPaging (addSortKeys k s)).1 = true := by
    have hlead := hasOrderBy_sortKeysLead hs (endsInLineComment_cutPaging hline)
    rw [hasOrderBy, hwords, (lex_sortKeysLead_append hs hline hk).2]
    exact orderByAmong_append_left hlead _
  rw [sortKeysLead, if_pos hordered, hhead,
    trimEnd_sortKeysLead_append hs hline hk _ (isSpace_of_mem_gap _)]

/-- Further sort keys come right behind the first ones exactly if no word up to there opens a clause
that limits the rows. -/
theorem addSortKeys_addSortKeys_iff :
    addSortKeys k' (addSortKeys k s) =
        sortKeysLead s ++ k ++ ", ".toList ++ k' ++ sortKeysBack s ↔
      noneOpens opensPaging none (topWords (sortKeysLead s ++ k)) = true := by
  constructor
  · intro htext
    by_contra h
    rw [Bool.not_eq_true] at h
    obtain ⟨u, c, v, v', hlead, hc, hcomma⟩ := exists_comma_of_opens hs hline hk k' h
    rw [hcomma, hlead] at htext
    simp only [List.append_assoc, List.cons_append] at htext
    have hhead := List.append_cancel_left htext
    rw [List.cons.injEq] at hhead
    exact hc hhead.1.symm
  · intro h
    rw [addSortKeys_eq_append, sortKeysLead_addSortKeys hs hline hk h,
      cutBefore_addSortKeys hs hline hk h]
    rfl

end Further

end QueryClauses.Sql
