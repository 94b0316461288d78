import QueryClauses.Proofs.Sql.OpenComment

/-!
# Mentions of a name

A name is mentioned where a colon and the name stand in a text, be it in a literal or a comment. A
text has no more placeholders of a name than it has mentions of it
(`count_placeholderNames_le_mentions`). So a condition that is added to a statement, whatever lies
open in it, brings in no more placeholders of a name than it mentions it, unless a line comment comes
last in front of the condition (`count_placeholderNames_addCondition_le`).
-/

namespace QueryClauses.Sql

open CharClass

variable {name s r : Text}

/-- How often a colon and a name, read as far as names go, stand in a text. -/
def mentions (name : Text) : Text → Nat
  | [] => 0
  | c :: s => (if c = ':' ∧ s.takeWhile isNameChar = name then 1 else 0) + mentions name s

/-! ## Mentions in joined texts -/

theorem mentions_le_append (name s r : Text) : mentions name r ≤ mentions name (s ++ r) := by
  induction s with
  | nil => exact Nat.le_refl _
  | cons c s ih =>
    rw [List.cons_append, mentions]
    omega

theorem mentions_le_of_suffix (h : r <:+ s) : mentions name r ≤ mentions name s := by
  obtain ⟨u, rfl⟩ := h
  exact mentions_le_append name u r

theorem mentions_append_of_notMem (h : ':' ∉ s) (name r : Text) :
    mentions name (s ++ r) = mentions name r := by
  induction s with
  | nil => rfl
  | cons c s ih =>
    rw [List.mem_cons, not_or] at h
    rw [List.cons_append, mentions, ih h.2, if_neg fun hc => h.1 hc.1.symm, Nat.zero_add]

theorem takeWhile_append_of_head {p : Char → Bool} (hr : ∀ d ∈ r.head?, p d = false) (s : Text) :
    (s ++ r).takeWhile p = s.takeWhile p := by
  induction s with
  | nil =>
    cases r with
    | nil => rfl
    | cons d r =>
      have hd : p d = false := hr d rfl
      simp [hd]
  | cons c s ih => simp [List.takeWhile_cons, ih]

theorem dropWhile_append_of_head {p : Char → Bool} (hr : ∀ d ∈ r.head?, p d = false) (s : Text) :
    (s ++ r).dropWhile p = s.dropWhile p ++ r := by
  have h := List.takeWhile_append_dropWhile (p := p) (l := s ++ r)
  rw [takeWhile_append_of_head hr] at h
  conv at h => rhs; rw [← List.takeWhile_append_dropWhile (p := p) (l := s)]
  rw [List.append_assoc] at h
  exact List.append_cancel_left h

/-- Mentions add up where no name runs on. -/
theorem mentions_append (hr : ∀ d ∈ r.head?, isNameChar d = false) (name s : Text) :
    mentions name (s ++ r) = mentions name s + mentions name r := by
  induction s with
  | nil => simp [mentions]
  | cons c s ih =>
    rw [List.cons_append, mentions, mentions, ih, takeWhile_append_of_head hr, Nat.add_assoc]

/-! ## Placeholders are mentions -/

theorem Begins.of_kind_placeholder {c : Char} {s r : Text} {t : Token} (h : Begins c s t r)
    (hk : t.kind = .placeholder) : c = ':' ∧ t.text.tail = s.takeWhile isNameChar := by
  cases h with
  | placeholder hc => exact ⟨rfl, rfl⟩
  | _ => cases hk

/-- A text has no more placeholders of a name than mentions. -/
theorem count_placeholderNames_le_mentions (name s : Text) :
    (namesOf (lex s)).count name ≤ mentions name s := by
  fun_induction lex s with
  | case1 => exact Nat.le_refl _
  | case2 c s ih =>
    have hb := begins_munch c s
    obtain ⟨body, -, hs, -⟩ := hb.self
    generalize munch c s = m at *
    have hrest : mentions name m.2 ≤ mentions name s := by
      rw [hs]
      exact mentions_le_append name body m.2
    rw [mentions]
    by_cases hk : m.1.kind = .placeholder
    · obtain ⟨rfl, hname⟩ := hb.of_kind_placeholder hk
      rw [namesOf_cons hk, hname, List.count_cons]
      by_cases heq : s.takeWhile isNameChar = name
      · rw [if_pos (by simpa using heq), if_pos ⟨rfl, heq⟩]
        omega
      · rw [if_neg (by simpa using heq)]
        omega
    · rw [namesOf_cons_of_ne hk]
      omega

/-! ## Behind an open literal or comment -/

theorem munchQuoted_suffix (quote : Char) (s : Text) : (munchQuoted quote s).2 <:+ s :=
  ⟨_, munchQuoted_append quote s⟩

theorem munchBlock_suffix (s : Text) : (munchBlock s).2 <:+ s := ⟨_, munchBlock_append s⟩

theorem munchQuoted_cons_suffix (quote c : Char) (r : Text) :
    (munchQuoted quote (c :: r)).2 <:+ r := by
  rcases r with _ | ⟨d, r⟩
  · exact List.suffix_refl _
  by_cases hc : c = quote
  · by_cases hd : d = quote
    · rw [munchQuoted, if_pos hc, if_pos hd]
      exact (munchQuoted_suffix quote r).trans (List.suffix_cons d r)
    · have hrest : (munchQuoted quote (c :: d :: r)).2 = d :: r := by
        rw [munchQuoted, if_pos hc, if_neg hd]
      exact ⟨[], hrest⟩
  · rw [munchQuoted, if_neg hc]
    exact munchQuoted_suffix quote (d :: r)

theorem munchQuoted_cons_of_ne {quote c : Char} (hc : c ≠ quote) (s : Text) :
    (munchQuoted quote (c :: s)).2 = (munchQuoted quote s).2 := by
  cases s with
  | nil => rfl
  | cons d s => rw [munchQuoted, if_neg hc]

theorem munchBlock_cons_suffix (c : Char) (r : Text) : (munchBlock (c :: r)).2 <:+ r := by
  rcases r with _ | ⟨d, r⟩
  · exact List.suffix_refl _
  by_cases h : c = '*' ∧ d = '/'
  · rw [munchBlock, if_pos h]
    exact List.suffix_cons d r
  · rw [munchBlock, if_neg h]
    exact munchBlock_suffix (d :: r)

/-- A quoted region that is not left before the end of a text is not left within what the text
begins with. -/
theorem munchQuoted_append_suffix {quote : Char} {s u : Text} (hs : (munchQuoted quote s).2 = [])
    (hu : u <+: s) (r : Text) : (munchQuoted quote (u ++ r)).2 <:+ r := by
  fun_induction munchQuoted quote s generalizing u with
  | case1 =>
    rw [List.prefix_nil.1 hu]
    exact munchQuoted_suffix quote r
  | case2 c =>
    rcases u with _ | ⟨e, u⟩
    · exact munchQuoted_suffix quote r
    · rw [List.prefix_nil.1 (List.cons_prefix_cons.1 hu).2]
      exact munchQuoted_cons_suffix quote e r
  | case3 s body rest h ih =>
    rcases u with _ | ⟨e, _ | ⟨f, u⟩⟩
    · exact munchQuoted_suffix quote r
    · exact munchQuoted_cons_suffix quote e r
    · obtain ⟨rfl, htail⟩ := List.cons_prefix_cons.1 hu
      obtain ⟨rfl, hrest⟩ := List.cons_prefix_cons.1 htail
      rw [List.cons_append, List.cons_append, munchQuoted, if_pos rfl, if_pos rfl]
      exact ih (by rw [h]; exact hs) hrest
  | case4 d s hd => cases hs
  | case5 c d s hc body rest h ih =>
    rcases u with _ | ⟨e, u⟩
    · exact munchQuoted_suffix quote r
    · obtain ⟨rfl, htail⟩ := List.cons_prefix_cons.1 hu
      rw [List.cons_append, munchQuoted_cons_of_ne hc]
      exact ih (by rw [h]; exact hs) htail

theorem munchBlock_append_suffix {s u : Text} (hs : (munchBlock s).2 = []) (hu : u <+: s)
    (r : Text) : (munchBlock (u ++ r)).2 <:+ r := by
  fun_induction munchBlock s generalizing u with
  | case1 =>
    rw [List.prefix_nil.1 hu]
    exact munchBlock_suffix r
  | case2 c =>
    rcases u with _ | ⟨e, u⟩
    · exact munchBlock_suffix r
    · rw [List.prefix_nil.1 (List.cons_prefix_cons.1 hu).2]
      exact munchBlock_cons_suffix e r
  | case3 c d s h =>
    -- the text ends where the comment does
    subst hs
    rcases u with _ | ⟨e, _ | ⟨f, u⟩⟩
    · exact munchBlock_suffix r
    · exact munchBlock_cons_suffix e r
    · obtain ⟨rfl, htail⟩ := List.cons_prefix_cons.1 hu
      obtain ⟨rfl, hrest⟩ := List.cons_prefix_cons.1 htail
      rw [List.prefix_nil.1 hrest, List.cons_append, List.cons_append, munchBlock, if_pos h]
      exact List.suffix_refl _
  | case4 c d s h body rest heq ih =>
    rcases u with _ | ⟨e, _ | ⟨f, u⟩⟩
    · exact munchBlock_suffix r
    · exact munchBlock_cons_suffix e r
    · obtain ⟨rfl, htail⟩ := List.cons_prefix_cons.1 hu
      obtain ⟨rfl, -⟩ := List.cons_prefix_cons.1 htail
      rw [List.cons_append, List.cons_append, munchBlock, if_neg h]
      exact ih (by rw [heq]; exact hs) htail

theorem count_namesOf_cons_of_suffix {t : Token} (hk : t.kind ≠ .placeholder) {u : Text}
    (hu : u <:+ r) : (namesOf (t :: lex u)).count name ≤ mentions name r := by
  rw [namesOf_cons_of_ne hk]
  exact (count_placeholderNames_le_mentions name u).trans (mentions_le_of_suffix hu)

/-- What follows an open literal or block comment is part of it, or mentions what it has placeholders
of. White space at the end of the open part plays no role. -/
theorem Begins.count_trimEnd_append_le {c : Char} {s : Text} {t : Token} (h : Begins c s t [])
    (hopen : t.isClosed = false) (hline : t.isLineComment = false) (name r : Text) :
    (Text.trimEnd t.text).head? = t.text.head? ∧
      (namesOf (lex (Text.trimEnd t.text ++ r))).count name ≤ mentions name r := by
  generalize hn : ([] : Text) = n at h
  cases h with
  | @quoted _ _ body _ hq h =>
    subst hn
    have hself : Text.trimEnd [c] = [c] := by
      rcases hq with rfl | rfl <;> rfl
    obtain ⟨u, hu, htrim⟩ := trimEnd_append_eq hself body
    have hbody := munchQuoted_self c s
    rw [h] at hbody
    rw [List.singleton_append] at htrim
    rw [htrim]
    refine ⟨rfl, ?_⟩
    rw [List.append_assoc, List.singleton_append, lex_cons, (Begins.quoted hq rfl).munch_eq]
    exact count_namesOf_cons_of_suffix (by simp) (munchQuoted_append_suffix (by rw [hbody]) hu r)
  | @block s body _ h =>
    subst hn
    obtain ⟨u, hu, htrim⟩ := trimEnd_append_eq (s := ['/', '*']) rfl body
    have hbody := munchBlock_self s
    rw [h] at hbody
    rw [List.cons_append, List.singleton_append] at htrim
    rw [htrim]
    refine ⟨rfl, ?_⟩
    rw [List.append_assoc, List.cons_append, List.singleton_append, lex_cons,
      (Begins.block rfl).munch_eq]
    exact count_namesOf_cons_of_suffix (by simp) (munchBlock_append_suffix (by rw [hbody]) hu r)
  | line h => simp [Token.isLineComment] at hline
  | opening | closing | cast | placeholder | word | other => simp [Token.isClosed] at hopen

theorem namesOf_rdropWhile_isBlank (ts : List Token) :
    namesOf (ts.rdropWhile Token.isBlank) = namesOf ts := by
  induction ts using List.reverseRecOn with
  | nil => rfl
  | append_singleton ts t ih =>
    by_cases ht : t.isBlank = true
    · have hk : t.kind ≠ .placeholder := by simp [kind_of_isBlank ht]
      have hnil : namesOf [t] = [] := namesOf_cons_of_ne hk []
      rw [List.rdropWhile_concat_pos _ _ _ ht, ih, namesOf_append, hnil, List.append_nil]
    · rw [List.rdropWhile_concat_neg _ _ _ ht]

/-- Where the last element of a text lies open and is no line comment, the elements in front of it stay
when the white space at the end is taken off and something follows. -/
theorem exists_open_last {x : Text} (hx : endsInLineComment x = false) {t : Token} (ht : t ∈ lex x)
    (hopen : t.isClosed = false) :
    ∃ a, lex x = a ++ [t] ∧ t.isLineComment = false ∧
      ∀ r, lex (Text.trimEnd x ++ r) = a ++ lex (Text.trimEnd t.text ++ r) := by
  obtain ⟨a, b, hlex⟩ := List.append_of_mem ht
  rcases b with _ | ⟨u, b⟩
  · have hblank : t.isBlank = false := by
      by_contra hb
      rw [isClosed_of_isBlank (by simpa using hb)] at hopen
      cases hopen
    have hline : t.isLineComment = false := by
      simpa [endsInLineComment, hlex, List.filter_append, hblank] using hx
    obtain ⟨c, body, htext, hb⟩ := begins_of_mem_lex ht
    obtain ⟨hhead, -⟩ := hb.count_trimEnd_append_le hopen hline [] []
    obtain ⟨d, v, hv⟩ : ∃ d v, Text.trimEnd t.text = d :: v := by
      apply List.exists_cons_of_ne_nil
      intro hnil
      rw [hnil, htext] at hhead
      cases hhead
    have htrim : Text.trimEnd x = textOf a ++ Text.trimEnd t.text := by
      rw [← textOf_lex x, hlex, textOf_append, textOf_cons, textOf_nil, List.append_nil]
      exact trimEnd_append_of_ne_nil (by rw [hv]; exact List.cons_ne_nil d v)
    refine ⟨a, hlex, hline, fun r => ?_⟩
    rw [htrim, List.append_assoc]
    apply lex_textOf_append hlex
    rw [hv, htext] at hhead
    rw [hv, textOf_cons, htext]
    exact hhead
  · rw [isClosed_of_lex_eq hlex] at hopen
    cases hopen

/-- Behind closed elements, of which no line comment comes last, what follows the white space at the
end brings in its own elements. -/
theorem lex_trimEnd_append {x r : Text} (hx : endsInLineComment x = false) (hr : BeginsApart r)
    (hclosed : ∀ t ∈ lex x, t.isClosed = true) :
    lex (Text.trimEnd x ++ r) = (lex x).rdropWhile Token.isBlank ++ lex r := by
  have htrim := lex_trimEnd (fun t ht => .inl (hclosed t ht)) hx
  have hclosed' : ∀ t ∈ lex (Text.trimEnd x), t.isClosed = true := by
    intro t ht
    rw [htrim] at ht
    exact hclosed t ((List.rdropWhile_prefix _ _).subset ht)
  rw [lex_append_of_isClosed hclosed' hr, htrim]

/-- What follows the end of a text, without the white space there, brings in no more placeholders of
a name than it has mentions, unless a line comment comes last. -/
theorem count_trimEnd_append_le {x : Text} (hx : endsInLineComment x = false) (hr : BeginsApart r)
    (name : Text) : (namesOf (lex (Text.trimEnd x ++ r))).count name ≤
      (namesOf (lex x)).count name + mentions name r := by
  by_cases hclosed : ∀ t ∈ lex x, t.isClosed = true
  · rw [lex_trimEnd_append hx hr hclosed, namesOf_append, namesOf_rdropWhile_isBlank,
      List.count_append]
    exact Nat.add_le_add_left (count_placeholderNames_le_mentions name r) _
  · push Not at hclosed
    obtain ⟨t, ht, hopen⟩ := hclosed
    rw [ne_eq, Bool.not_eq_true] at hopen
    obtain ⟨a, hlex, hline, hsplit⟩ := exists_open_last hx ht hopen
    obtain ⟨c, body, -, hb⟩ := begins_of_mem_lex ht
    obtain ⟨-, hcount⟩ := hb.count_trimEnd_append_le hopen hline name r
    rw [hsplit, hlex, namesOf_append, namesOf_append, List.count_append, List.count_append]
    omega

/-! ## Conditions -/

theorem count_conjoin_le {predicate : Text} (h : endsInLineComment predicate = false)
    (name condition : Text) :
    (namesOf (lex (conjoin (Text.trim predicate) condition))).count name ≤
      (namesOf (lex predicate)).count name + mentions name condition := by
  have hstart : endsInLineComment (Text.trimStart predicate) = false := by
    rwa [endsInLineComment_trimStart]
  have hnames : namesOf (lex (Text.trimStart predicate)) = namesOf (lex predicate) := by
    rw [lex_trimStart, namesOf_dropWhile_isBlank]
  unfold conjoin
  split
  · have := count_placeholderNames_le_mentions name condition
    omega
  split
  · have := count_trimEnd_append_le hstart (r := ") AND ".toList ++ condition)
      (beginsApart_cons rfl _) name
    rw [hnames, mentions_append_of_notMem (by decide)] at this
    rwa [List.append_assoc, List.cons_append, lex_cons, Begins.opening.munch_eq,
      namesOf_cons_of_ne (by simp)]
  · have := count_trimEnd_append_le hstart (r := " AND ".toList ++ condition)
      (beginsApart_cons rfl _) name
    rw [hnames, mentions_append_of_notMem (by decide)] at this
    rwa [List.append_assoc]

theorem namesOf_conjunctTokens (predicate : List Token) :
    namesOf (conjunctTokens predicate) = namesOf predicate := by
  have hand : namesOf (spaced "AND") = [] := rfl
  have hgroup : namesOf (group predicate) = namesOf predicate := by
    simp [group, namesOf, parenOpen, parenClose]
  unfold conjunctTokens
  split
  · rename_i hnil
    rw [hnil]
  · rw [namesOf_append, hand, List.append_nil]
    split
    · exact hgroup
    · rfl

/-- What stands in front of an added condition has the placeholders that were there. -/
theorem namesOf_leadTokens (before : List Token) : namesOf (leadTokens before) = namesOf before := by
  have hwhere : namesOf (spaced "WHERE") = [] := rfl
  unfold leadTokens
  split
  · rename_i front predicate hcut
    have happ : front ++ predicate = before := cutAfter_append hcut
    have hblank : namesOf [blank ' '] = [] := rfl
    rw [← List.singleton_append, namesOf_append, namesOf_append, hblank, List.nil_append,
      namesOf_conjunctTokens, trimBlanks, namesOf_rdropWhile_isBlank, namesOf_dropWhile_isBlank,
      ← namesOf_append, happ]
  · rw [namesOf_append, hwhere, List.append_nil, namesOf_rdropWhile_isBlank]

theorem namesOf_follow (rest : List Token) : namesOf (follow rest) = namesOf rest := by
  cases rest <;> rfl

theorem placeholderNames_cutTail_snd (s : Text) :
    placeholderNames (cutTail s).2 = namesOf (cutBefore opensTail 0 (lex s)).2 := by
  rw [placeholderNames_eq]
  exact congrArg namesOf (lex_textOf_cutBefore_snd opensTail)

section AddCondition

variable {condition : Text} (h : endsInLineComment (cutTail s).1 = false)
include h

/-- Where nothing lies open in front of a condition, its placeholders come in with it. -/
theorem placeholderNames_addCondition (hclosed : ∀ t ∈ lex (cutTail s).1, t.isClosed = true)
    (hc : ∀ t ∈ lex condition, t.isClosed = true) :
    placeholderNames (addCondition condition s) =
      placeholderNames (cutTail s).1 ++ namesOf (lex condition) ++ placeholderNames (cutTail s).2 := by
  rw [placeholderNames_eq, lex_addCondition_of_isClosed hclosed h hc, namesOf_append,
    namesOf_append, (lex_conditionLead_of_isClosed hclosed h).1, namesOf_leadTokens,
    namesOf_follow, placeholderNames_eq, lex_cutTail_fst, placeholderNames_cutTail_snd]

/-- A condition comes behind a WHERE of its own, or behind the one there is and the predicate that it
is joined to. -/
theorem conditionLead_append_cases (condition : Text) :
    conditionLead s ++ condition =
        Text.trimEnd (cutTail s).1 ++ (" WHERE ".toList ++ condition) ∨
      ∃ front predicate, lex (cutTail s).1 = front ++ predicate ∧ lex (textOf predicate) = predicate ∧
        endsInLineComment (textOf predicate) = false ∧
        lex (conditionLead s ++ condition) =
          front ++ blank ' ' :: lex (conjoin (Text.trim (textOf predicate)) condition) := by
  unfold conditionLead
  rw [cutKeyword_cutTail, ← lex_cutTail_fst]
  cases hcut : cutAfter "WHERE" 0 (lex (cutTail s).1) with
  | none => exact .inl (List.append_assoc _ _ _)
  | some p =>
    obtain ⟨front, predicate⟩ := p
    have happ : lex (cutTail s).1 = front ++ predicate := (cutAfter_append hcut).symm
    refine .inr ⟨front, predicate, happ, lex_textOf_suffix happ, endsInLineComment_of_suffix happ h, ?_⟩
    obtain ⟨a, w, rfl, hw, -, -⟩ := cutAfter_eq_some hcut
    have hfront := lex_textOf_prefix happ
    have hclosed : ∀ t ∈ a ++ [w], t.isClosed = true := by
      intro t ht
      rcases List.mem_append.1 ht with ht | ht
      · exact isClosed_of_mem_append (u := w) (b := predicate) (by rw [happ]; simp) ht
      · rw [List.mem_singleton.1 ht]
        simp only [Token.isTopWord, Bool.and_eq_true, beq_iff_eq] at hw
        simp [Token.isClosed, hw.1]
    have htrim := trimEnd_textOf_of_isTopWord hfront hw
    rw [Option.map_some]
    generalize a ++ [w] = front at *
    dsimp only
    rw [htrim, List.append_assoc, List.cons_append, ← conjoin_eq, lex_append_space (by rwa [hfront]),
      hfront]

theorem count_namesOf_conditionLead_append_le (name condition : Text) :
    (namesOf (lex (conditionLead s ++ condition))).count name ≤
      (placeholderNames (cutTail s).1).count name + mentions name condition := by
  rw [placeholderNames_eq]
  rcases conditionLead_append_cases h condition with
    hlead | ⟨front, predicate, happ, hpredicate, hline, hlead⟩
  · have := count_trimEnd_append_le h (r := " WHERE ".toList ++ condition)
      (beginsApart_cons rfl _) name
    rw [mentions_append_of_notMem (by decide)] at this
    rwa [hlead]
  · have hcount := count_conjoin_le hline name condition
    rw [hpredicate] at hcount
    rw [hlead, happ, namesOf_append, namesOf_append,
      @namesOf_cons_of_ne (blank ' ') (by simp [blank]), List.count_append, List.count_append]
    omega

/-- A condition brings in no more placeholders of a name than it mentions it, whatever lies open in
the statement. -/
theorem count_placeholderNames_addCondition_le (hc : ∀ t ∈ lex condition, t.isClosed = true)
    (name : Text) :
    (placeholderNames (addCondition condition s)).count name ≤
      (placeholderNames s).count name + mentions name condition := by
  have hsplit : placeholderNames s = placeholderNames (cutTail s).1 ++
      namesOf (cutBefore opensTail 0 (lex s)).2 := by
    rw [placeholderNames_eq, placeholderNames_eq, lex_cutTail_fst, ← namesOf_append,
      cutBefore_append]
  rw [hsplit, List.count_append]
  cases hrest : (cutBefore opensTail 0 (lex s)).2 with
  | nil =>
    have := count_namesOf_conditionLead_append_le h name condition
    rw [placeholderNames_eq, addCondition_eq_append, hrest, follow, textOf_nil, List.append_nil]
    omega
  | cons t rest =>
    -- an element follows the cut, so none in front of it lies open
    have hclosed : ∀ u ∈ lex (cutTail s).1, u.isClosed = true := by
      intro u hu
      rw [lex_cutTail_fst] at hu
      have happ := cutBefore_append opensTail 0 (lex s)
      rw [hrest] at happ
      exact isClosed_of_mem_append happ.symm hu
    have hcondition := count_placeholderNames_le_mentions name condition
    rw [placeholderNames_addCondition h hclosed hc, List.count_append, List.count_append,
      placeholderNames_cutTail_snd, ← hrest]
    omega

end AddCondition

end QueryClauses.Sql
