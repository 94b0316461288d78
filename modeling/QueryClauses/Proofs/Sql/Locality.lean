import QueryClauses.Proofs.Sql.Bytes.Clause
import QueryClauses.Proofs.Sql.Cutting
import QueryClauses.Proofs.Sql.Extension
import QueryClauses.Proofs.Sql.Tokenisation

/-!
# Surveys of parts of a statement

A statement that is cut between two elements has on either side the elements that it had there. So
the survey of the front is the survey of the statement as far as the cut (`survey_textOf_prefix`), and
the survey of the rest is the survey from the cut on, with offsets and depths counted from there
(`survey_textOf_suffix`). Where a word starts or ends is between two elements, and so is where a
clause is put in: questions about words at top level have the same answers in a part as in the whole
(`survey_local`). White space at the ends of a part plays no role, also where it belongs to a literal
or a comment that lies open (`words_append_space`, `topWords_trim`).
-/

namespace QueryClauses.Sql

open CharClass Text

/-! ## Parts of a survey -/

/-- What a survey lists that ends at or before an offset. -/
def Survey.before (v : Survey) (n : Nat) : Survey where
  words := v.words.filter (·.stop ≤ n)
  placeholders := v.placeholders.filter (·.stop ≤ n)
  regions := v.regions.filter (·.stop ≤ n)

/-- What a survey lists that starts at or behind an offset where `d` parentheses are open, as seen from
there. -/
def Survey.behind (v : Survey) (n : Nat) (d : Int) : Survey where
  words := (v.words.filter (n ≤ ·.start)).map fun w => ⟨w.start - n, w.text, w.depth - d⟩
  placeholders := (v.placeholders.filter (n ≤ ·.start)).map fun p => ⟨p.start - n, p.stop - n, p.name⟩
  regions := (v.regions.filter (n ≤ ·.start)).map fun r => ⟨r.start - n, r.stop - n⟩

/-! ## Elements on both sides of a cut -/

section

variable {pos : Nat} {d : Int} {a b ts : List Token} {e : Placed}

theorem placed_append (pos : Nat) (d : Int) (a b : List Token) :
    placed pos d (a ++ b) =
      placed pos d a ++ placed (pos + byteLength (textOf a)) (depthFrom d a) b := by
  induction a generalizing pos d with
  | nil => rfl
  | cons t a ih =>
    rw [List.cons_append, placed, ih, placed, textOf_cons, byteLength_append, Nat.add_assoc]
    rfl

/-- An element at a place further on. -/
def Placed.moved (n : Nat) (d : Int) (e : Placed) : Placed := ⟨e.token, n + e.start, d + e.depth⟩

theorem depthAfter_add (d d' : Int) (k : Kind) : k.depthAfter (d + d') = d + k.depthAfter d' := by
  cases k <;> simp only [Kind.depthAfter] <;> omega

theorem placed_add (n pos : Nat) (d d' : Int) (ts : List Token) :
    placed (n + pos) (d + d') ts = (placed pos d' ts).map (Placed.moved n d) := by
  induction ts generalizing pos d' with
  | nil => rfl
  | cons t ts ih =>
    rw [placed, depthAfter_add, Nat.add_assoc, ih, placed, List.map_cons]
    rfl

theorem start_lt_stop_of_mem_placed (hne : ∀ t ∈ ts, t.text ≠ []) (he : e ∈ placed pos d ts) :
    e.start < e.stop := by
  obtain ⟨a, b, rfl, -, -⟩ := mem_placed_iff.1 he
  have hlen : byteLength e.token.text ≠ 0 :=
    mt byteLength_eq_zero_iff.1 (hne e.token (List.mem_append_right a List.mem_cons_self))
  rw [Placed.stop]
  omega

section

variable {α : Type} {f : Placed → Option α} {start stop : α → Nat}

theorem IsRange.bounds_of_mem (hf : IsRange f start stop) (hne : ∀ t ∈ ts, t.text ≠ []) {x : α}
    (hx : x ∈ (placed pos d ts).filterMap f) :
    pos ≤ start x ∧ start x < stop x ∧ stop x ≤ pos + byteLength (textOf ts) := by
  obtain ⟨e, he, hex⟩ := List.mem_filterMap.1 hx
  rw [(hf e x hex).1, (hf e x hex).2]
  exact ⟨le_start_of_mem_placed he, start_lt_stop_of_mem_placed hne he, stop_le_of_mem_placed he⟩

variable (hf : IsRange f start stop) (hne : ∀ t ∈ a ++ b, t.text ≠ [])

include hf hne

theorem IsRange.filter_stop (pos : Nat) (d : Int) :
    ((placed pos d (a ++ b)).filterMap f).filter (stop · ≤ pos + byteLength (textOf a)) =
      (placed pos d a).filterMap f := by
  rw [placed_append, List.filterMap_append, List.filter_append]
  have hfront : ((placed pos d a).filterMap f).filter
      (stop · ≤ pos + byteLength (textOf a)) = (placed pos d a).filterMap f := by
    rw [List.filter_eq_self]
    intro x hx
    have := hf.bounds_of_mem (fun t ht => hne t (List.mem_append_left b ht)) hx
    simpa using this.2.2
  have hrest : ((placed (pos + byteLength (textOf a)) (depthFrom d a) b).filterMap f).filter
      (stop · ≤ pos + byteLength (textOf a)) = [] := by
    rw [List.filter_eq_nil_iff]
    intro x hx
    have := hf.bounds_of_mem (fun t ht => hne t (List.mem_append_right a ht)) hx
    simp only [decide_eq_true_eq]
    omega
  rw [hfront, hrest, List.append_nil]

theorem IsRange.filter_start (pos : Nat) (d : Int) :
    ((placed pos d (a ++ b)).filterMap f).filter (pos + byteLength (textOf a) ≤ start ·) =
      (placed (pos + byteLength (textOf a)) (depthFrom d a) b).filterMap f := by
  rw [placed_append, List.filterMap_append, List.filter_append]
  have hfront : ((placed pos d a).filterMap f).filter
      (pos + byteLength (textOf a) ≤ start ·) = [] := by
    rw [List.filter_eq_nil_iff]
    intro x hx
    have := hf.bounds_of_mem (fun t ht => hne t (List.mem_append_left b ht)) hx
    simp only [decide_eq_true_eq]
    omega
  have hrest : ((placed (pos + byteLength (textOf a)) (depthFrom d a) b).filterMap f).filter
      (pos + byteLength (textOf a) ≤ start ·) =
        (placed (pos + byteLength (textOf a)) (depthFrom d a) b).filterMap f := by
    rw [List.filter_eq_self]
    intro x hx
    have := hf.bounds_of_mem (fun t ht => hne t (List.mem_append_right a ht)) hx
    simpa using this.1
  rw [hfront, hrest, List.nil_append]

/-- Behind a cut, what is made of the elements is the same as by themselves, but further on. -/
theorem IsRange.filter_start_map (back : α → α) {n : Nat} (hn : byteLength (textOf a) = n)
    (hback : ∀ e, (f (e.moved n (depthFrom 0 a))).map back = f e) :
    (((placed 0 0 (a ++ b)).filterMap f).filter (n ≤ start ·)).map back =
      (placed 0 0 b).filterMap f := by
  have hfilter := hf.filter_start hne 0 0
  have hmoved := placed_add n 0 (depthFrom 0 a) 0 b
  rw [Nat.zero_add, hn] at hfilter
  rw [Nat.add_zero, Int.add_zero] at hmoved
  rw [hfilter, hmoved, List.filterMap_map, List.map_filterMap]
  exact congrArg (List.filterMap · _) (funext hback)

end

end

section

variable {s : Text} {a b : List Token}

theorem text_ne_nil_of_mem_lex {t : Token} (ht : t ∈ lex s) : t.text ≠ [] := by
  obtain ⟨c, body, htext, -⟩ := begins_of_mem_lex ht
  rw [htext]
  exact List.cons_ne_nil c body

theorem slice?_textOf_prefix (h : lex s = a ++ b) :
    slice? s 0 (byteLength (textOf a)) = some (textOf a) := by
  have := slice?_prefix (textOf a) (textOf b)
  rwa [← textOf_append, ← h, textOf_lex] at this

theorem slice?_textOf_suffix (h : lex s = a ++ b) :
    slice? s (byteLength (textOf a)) (byteLength s) = some (textOf b) := by
  have := slice?_suffix (textOf a) (textOf b)
  rwa [← textOf_append, ← h, textOf_lex] at this

/-- The survey of what stands in front of a cut between elements. -/
theorem survey_textOf_prefix (h : lex s = a ++ b) :
    survey (textOf a) = (survey s).before (byteLength (textOf a)) := by
  have hne : ∀ t ∈ a ++ b, t.text ≠ [] := fun t ht => text_ne_nil_of_mem_lex (h ▸ ht)
  have hwords := isRange_word?.filter_stop hne 0 0
  have hplaceholders := isRange_placeholder?.filter_stop hne 0 0
  have hregions := isRange_region?.filter_stop hne 0 0
  rw [Nat.zero_add] at hwords hplaceholders hregions
  rw [survey, lex_textOf_prefix h, survey, h, ofTokens_eq_placed, ofTokens_eq_placed, Survey.before]
  simp only [hwords, hplaceholders, hregions]

/-- The survey of what stands behind a cut between elements. -/
theorem survey_textOf_suffix (h : lex s = a ++ b) :
    survey (textOf b) = (survey s).behind (byteLength (textOf a)) (depthFrom 0 a) := by
  have hne : ∀ t ∈ a ++ b, t.text ≠ [] := fun t ht => text_ne_nil_of_mem_lex (h ▸ ht)
  have hwords := isRange_word?.filter_start_map hne
    (fun w => ⟨w.start - byteLength (textOf a), w.text, w.depth - depthFrom 0 a⟩) rfl fun e => by
      rw [Placed.word?, Placed.word?, Placed.moved]
      split
      · simp only [Option.map_some, Nat.add_sub_cancel_left, Int.add_comm (depthFrom 0 a),
          Int.add_sub_cancel]
      · rfl
  have hplaceholders := isRange_placeholder?.filter_start_map hne
    (fun p => ⟨p.start - byteLength (textOf a), p.stop - byteLength (textOf a), p.name⟩) rfl
    fun e => by
      rw [Placed.placeholder?, Placed.placeholder?, Placed.moved]
      split
      · simp [Placed.stop, Nat.add_assoc]
      · rfl
  have hregions := isRange_region?.filter_start_map hne
    (fun r => ⟨r.start - byteLength (textOf a), r.stop - byteLength (textOf a)⟩) rfl fun e => by
      rw [Placed.region?, Placed.region?, Placed.moved]
      split
      · simp [Placed.stop, Nat.add_assoc]
      · rfl
  rw [survey, lex_textOf_suffix h, survey, h, ofTokens_eq_placed, ofTokens_eq_placed, Survey.behind]
  simp only [hwords, hplaceholders, hregions]

end

/-! ## White space at the end of a part -/

section

variable {c d : Char} {s r : Text} {t : Token}

/-- A blank behind an element stands by itself, or else goes on with an element that is no word. -/
theorem Begins.append_space (hc : isSpace c = true) (h : Begins d s t r) :
    Begins d (s ++ [c]) t (r ++ [c]) ∨
      r = [] ∧ t.kind ≠ .word ∧ ∃ t', Begins d (s ++ [c]) t' [] ∧ t'.kind ≠ .word := by
  have hident : isIdentChar c = false := by
    by_contra hident
    rw [Bool.not_eq_false] at hident
    rw [isSpace_eq_false_of_isIdentChar hident] at hc
    cases hc
  obtain ⟨body, -, hs, hself, hend⟩ := h.self
  by_cases hends : t.endsBefore (r ++ [c]).head? = true
  · rw [hs, List.append_assoc]
    exact .inl (hself.append_right hends)
  have hr : r = [] := by
    cases r with
    | nil => rfl
    | cons e r => exact absurd hend hends
  subst hr
  have hword : t.kind ≠ .word := by
    intro hkind
    rw [List.nil_append, List.head?_cons, Token.endsBefore, hkind, hident] at hends
    exact hends rfl
  have h' := begins_munch d (s ++ [c])
  generalize (munch d (s ++ [c])).1 = t' at h'
  generalize (munch d (s ++ [c])).2 = r' at h'
  obtain ⟨body', htext', hs', hself', hend'⟩ := h'.self
  rcases List.eq_nil_or_concat r' with rfl | ⟨u, e, rfl⟩
  · refine .inr ⟨rfl, hword, t', h', fun hkind => ?_⟩
    rw [List.append_nil] at hs'
    have hmem : c ∈ t'.text := by
      rw [htext', ← hs']
      exact List.mem_cons_of_mem d (List.mem_append_right s List.mem_cons_self)
    rw [h'.isIdentChar_of_word hkind c hmem] at hident
    cases hident
  · -- an element that ends in front of the blank would end there without the blank as well
    rw [List.concat_eq_append, ← List.append_assoc] at hs'
    obtain ⟨rfl, he⟩ := List.append_inj' hs' rfl
    cases he
    have hu : t'.endsBefore u.head? = true := by
      cases u with
      | nil => rfl
      | cons e u => exact hend'
    have hmunch := (hself'.append_right hu).munch_eq
    rw [h.munch_eq] at hmunch
    cases hmunch
    exact absurd hend' hends

/-- A blank at the end of a text brings in no word and takes none away. -/
theorem words_append_space (hc : isSpace c = true) (x : Text) (pos : Nat) (depth : Int) :
    (Survey.ofTokens pos depth (lex (x ++ [c]))).words =
      (Survey.ofTokens pos depth (lex x)).words := by
  fun_induction lex x generalizing pos depth with
  | case1 =>
    rw [List.nil_append, lex_cons_of_isSpace hc, lex_nil]
    rfl
  | case2 d s ih =>
    have hb := begins_munch d s
    generalize (munch d s).1 = t at hb ih
    generalize (munch d s).2 = r at hb ih
    rw [words_ofTokens_cons]
    rcases hb.append_space hc with h | ⟨rfl, hword, t', h, hword'⟩
    · rw [List.cons_append, lex_cons, h.munch_eq, words_ofTokens_cons, ih]
    · rw [List.cons_append, lex_cons, h.munch_eq, words_ofTokens_cons, if_neg hword, if_neg hword',
        lex_nil]
      rfl

theorem topWords_trimEnd (s : Text) : topWords (trimEnd s) = topWords s := by
  induction s using List.reverseRecOn with
  | nil => rfl
  | append_singleton s c ih =>
    rw [trimEnd_eq_rdropWhile] at ih ⊢
    by_cases hc : isSpace c = true
    · rw [List.rdropWhile_concat_pos _ _ _ hc, ih, ← map_text_topWords_survey,
        ← map_text_topWords_survey, Survey.topWords, Survey.topWords, survey, survey,
        words_append_space hc]
    · rw [List.rdropWhile_concat_neg _ _ _ hc]

/-- White space at the ends of a text has no part in its words at top level. -/
theorem topWords_trim (s : Text) : topWords (trim s) = topWords s := by
  rw [trim, topWords_trimEnd, topWords, lex_trimStart, (topWordsFrom_dropWhile 0 (lex s)).1]
  rfl

end

/-! ## Questions about a part -/

section

variable {s : Text} {n : Nat} {ws : List Word}

theorem topWords_before (v : Survey) (n : Nat) :
    (v.before n).topWords = v.topWords.filter (·.stop ≤ n) := by
  rw [Survey.topWords, Survey.before, List.filter_comm]
  rfl

theorem map_text_topWords_behind (v : Survey) (n : Nat) :
    (v.behind n 0).topWords.map (·.text) = (v.topWords.filter (n ≤ ·.start)).map (·.text) := by
  rw [Survey.topWords, Survey.topWords, Survey.behind, List.filter_map, List.map_map,
    List.filter_comm]
  simp [Function.comp_def]

/-- The first word that is a keyword is the same among the words in front of an offset, if it stands
there itself. -/
theorem keywordStop?_filter {ws : List Word} (hws : ws.Pairwise (·.stop ≤ ·.start)) (keyword : String)
    (n : Nat) :
    keywordStop? keyword (ws.filter (·.stop ≤ n)) = (keywordStop? keyword ws).filter (· ≤ n) := by
  induction ws with
  | nil => rfl
  | cons w ws ih =>
    obtain ⟨hw, hws⟩ := List.pairwise_cons.1 hws
    rw [keywordStop?_cons]
    by_cases hn : w.stop ≤ n
    · rw [List.filter_cons_of_pos (by simpa using hn), keywordStop?_cons, ih hws]
      split
      · rw [Option.filter_some, if_pos (by simpa using hn)]
      · rfl
    · rw [List.filter_cons_of_neg (by simpa using hn)]
      split
      · have hnil : ws.filter (·.stop ≤ n) = [] := by
          rw [List.filter_eq_nil_iff]
          intro x hx
          have := hw x hx
          have : x.start ≤ x.stop := Nat.le_add_right _ _
          simp only [decide_eq_true_eq]
          omega
        rw [hnil, Option.filter_some, if_neg (by simpa using hn)]
        rfl
      · exact ih hws

theorem pairwise_topWords (s : Text) : (survey s).topWords.Pairwise (·.stop ≤ ·.start) := by
  rw [Survey.topWords, survey, ofTokens_eq_placed]
  exact (isRange_word?.pairwise 0 0 (lex s)).filter _

/-- Behind a keyword at top level no parenthesis is open. -/
theorem depthFrom_of_cutAfter {keyword : String} {ts : List Token} {p : List Token × List Token}
    (h : cutAfter keyword 0 ts = some p) : depthFrom 0 p.1 = 0 := by
  obtain ⟨a, t, ha, ht, -, -⟩ := cutAfter_eq_some h
  simp only [Token.isTopWord, Bool.and_eq_true, beq_iff_eq] at ht
  rw [ha, depthFrom_append, ht.2, depthFrom_cons, depthFrom_nil, ht.1]
  rfl

/-- What stands in front of a word and what stands behind it are surveyed as in the statement. -/
theorem survey_around_word {w : Word} (hw : w ∈ (survey s).words) :
    (∃ front, slice? s 0 w.start = some front ∧ survey front = (survey s).before w.start) ∧
      ∃ rest, slice? s w.stop (byteLength s) = some rest ∧
        survey rest = (survey s).behind w.stop w.depth := by
  obtain ⟨a, t, b, hlex, hkind, htext, hstart, hdepth⟩ := exists_of_mem_words hw
  have hlex' : lex s = (a ++ [t]) ++ b := by rw [hlex, List.append_assoc]; rfl
  have hstop : byteLength (textOf (a ++ [t])) = w.stop := by
    rw [Word.stop, hstart, htext, textOf_append, byteLength_append, textOf_cons, textOf_nil,
      List.append_nil]
  have hopen : depthFrom 0 (a ++ [t]) = w.depth := by
    rw [hdepth, depthFrom_append, depthFrom_cons, depthFrom_nil, hkind]
    rfl
  rw [← hstop, ← hopen, hstart]
  exact ⟨⟨textOf a, slice?_textOf_prefix hlex, survey_textOf_prefix hlex⟩,
    textOf b, slice?_textOf_suffix hlex', survey_textOf_suffix hlex'⟩

/-- Between a keyword and a cut further on, the words at top level are those that the statement has
there. -/
theorem hasKeyword_between {a b x y : List Token} {keyword : String} (hlex : lex s = a ++ b)
    (hcut : cutAfter keyword 0 a = some (x, y)) (other : String) :
    hasKeyword other (trim (textOf y)) =
      ((survey s).topWords.filter fun w =>
        w.stop ≤ byteLength (textOf a) && byteLength (textOf x) ≤ w.start).any
          (isKeyword other ·.text) := by
  have hdepth : depthFrom 0 x = 0 := depthFrom_of_cutAfter hcut
  have hlexed := lex_textOf_prefix hlex
  have hpredicate := survey_textOf_suffix (hlexed.trans (cutAfter_append hcut).symm)
  rw [hdepth] at hpredicate
  rw [hasKeyword, topWords_trim, ← map_text_topWords_survey, hpredicate, map_text_topWords_behind,
    survey_textOf_prefix hlex, topWords_before, List.any_map, List.filter_filter]
  refine congrArg (List.any · _) (List.filter_congr fun w _ => ?_)
  exact Bool.and_comm _ _

/-- The survey of a statement is local to words: in front of where a word starts, and from where it
ends on, what it lists is the survey of the part, with offsets and depths counted from there. So the
part in front of where a clause is put in answers questions about keywords as the statement does in
front of that offset; and so does, white space at its ends aside, what stands between a keyword and
that offset. -/
theorem survey_local (s : Text) :
    (∀ w ∈ (survey s).words,
      (∃ front, slice? s 0 w.start = some front ∧ survey front = (survey s).before w.start) ∧
      ∃ rest, slice? s w.stop (byteLength s) = some rest ∧
        survey rest = (survey s).behind w.stop w.depth) ∧
    ∀ opens pos, clauseStart opens (byteLength s) (survey s).topWords = pos →
      ∃ front, slice? s 0 pos = some front ∧ survey front = (survey s).before pos ∧
        hasOrderBy front = orderByAmong (((survey s).topWords.filter (·.stop ≤ pos)).map (·.text)) ∧
        (∀ keyword, keywordStop? keyword (survey front).topWords =
          (keywordStop? keyword (survey s).topWords).filter (· ≤ pos)) ∧
        ∀ keyword stop, keywordStop? keyword (survey front).topWords = some stop →
          ∃ predicate, slice? s stop pos = some predicate ∧
            ∀ other, hasKeyword other (trim predicate) =
              ((survey s).topWords.filter fun w => w.stop ≤ pos && stop ≤ w.start).any
                (isKeyword other ·.text) := by
  refine ⟨fun w hw => survey_around_word hw, fun opens pos hpos => ?_⟩
  rw [clauseStart_survey] at hpos
  have hlex := (cutBefore_append opens 0 (lex s)).symm
  generalize (cutBefore opens 0 (lex s)).1 = a at hlex hpos
  generalize (cutBefore opens 0 (lex s)).2 = b at hlex
  have hfront := survey_textOf_prefix hlex
  have htop := topWords_before (survey s) pos
  subst hpos
  rw [← hfront] at htop
  refine ⟨textOf a, slice?_textOf_prefix hlex, hfront, ?_, fun keyword => ?_,
    fun keyword stop hstop => ?_⟩
  · rw [hasOrderBy, ← map_text_topWords_survey, htop]
  · rw [htop, keywordStop?_filter (pairwise_topWords s)]
  · rw [keywordStop?_survey, cutKeyword, Option.map_map, lex_textOf_prefix hlex] at hstop
    obtain ⟨⟨x, y⟩, hcut, rfl⟩ := Option.map_eq_some_iff.1 hstop
    refine ⟨textOf y, ?_, hasKeyword_between hlex hcut⟩
    have hslice := slice?_append (textOf x) (textOf y) (textOf b)
    rwa [← List.append_assoc, ← byteLength_append, ← textOf_append, cutAfter_append hcut,
      ← textOf_append, ← hlex, textOf_lex] at hslice

/-- A nested word, a parenthesis in a literal, a line comment in front of a clause, and an open
literal. -/
def openSelect : Text :=
  "SELECT (a) FROM t WHERE b = '(' OR c -- d\n GROUP BY a 'e".toList

theorem survey_local_openSelect :
    (⟨8, ['a'], 1⟩ ∈ (survey openSelect).words ∧
      (∃ front, slice? openSelect 0 8 = some front ∧
        survey front = (survey openSelect).before 8) ∧
      ∃ rest, slice? openSelect 9 (byteLength openSelect) = some rest ∧
        survey rest = (survey openSelect).behind 9 1) ∧
    clauseStart opensTail (byteLength openSelect) (survey openSelect).topWords = 43 ∧
    ∃ front, slice? openSelect 0 43 = some front ∧ hasOrderBy front = false ∧
      keywordStop? "WHERE" (survey front).topWords = some 23 ∧
      ∃ predicate, slice? openSelect 23 43 = some predicate ∧
        hasKeyword "OR" (trim predicate) = true := by
  obtain ⟨hwords, hclauses⟩ := survey_local openSelect
  have hword : ⟨8, ['a'], 1⟩ ∈ (survey openSelect).words := by decide +kernel
  have hpos : clauseStart opensTail (byteLength openSelect) (survey openSelect).topWords = 43 := by
    decide +kernel
  obtain ⟨front, hfront, -, horder, hkeyword, hpredicate⟩ := hclauses opensTail 43 hpos
  have hwhere : keywordStop? "WHERE" (survey front).topWords = some 23 := by
    rw [hkeyword]
    decide +kernel
  obtain ⟨predicate, hslice, hor⟩ := hpredicate "WHERE" 23 hwhere
  refine ⟨⟨hword, hwords _ hword⟩, hpos, front, hfront, ?_, hwhere, predicate, hslice, ?_⟩
  · rw [horder]
    decide +kernel
  · rw [hor]
    decide +kernel

end

end QueryClauses.Sql
