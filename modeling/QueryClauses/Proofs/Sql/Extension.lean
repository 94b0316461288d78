import QueryClauses.Sql.Extension
import QueryClauses.Proofs.Sql.Cutting
import QueryClauses.Proofs.Sql.Trimming

/-!
# The elements of an extended statement

A condition and sort keys are put behind a text (`conditionLead`, `sortKeysLead`) and in front of
the clauses that follow. In a well-formed statement the elements of the whole are those of the three
parts, one behind the other (`lex_addCondition`, `lex_addSortKeys`), unless the place is right
behind a line comment.
-/

namespace QueryClauses.Sql

open CharClass

/-- A statement with its literals, quoted identifiers and block comments closed and its parentheses
in pairs. A line comment may end with the text. -/
structure WellFormed (s : Text) : Prop where
  closed : ∀ t ∈ lex s, t.isClosed = true ∨ t.isLineComment = true
  balanced : IsBalanced (lex s)

/-! ## Closed elements in front -/

theorem Token.isClosed_of_endsBefore {t : Token} {c : Char} (h : t.endsBefore (some c) = true) :
    t.isClosed = true := by
  obtain ⟨kind, text⟩ := t
  cases kind with
  | quoted =>
    simp only [Token.endsBefore, Bool.and_eq_true] at h
    exact h.1
  | comment => exact h
  | _ => rfl

/-- An element that another one follows is closed. -/
theorem isClosed_of_lex_eq {s : Text} {t u : Token} {a b : List Token}
    (h : lex s = a ++ t :: u :: b) : t.isClosed = true := by
  have hend := endsBefore_of_lex_eq h
  obtain ⟨c, body, htext, -⟩ := begins_of_mem_lex (s := s) (t := u) (by simp [h])
  rw [textOf_cons, htext] at hend
  exact Token.isClosed_of_endsBefore hend

theorem isClosed_of_isBlank {t : Token} (h : t.isBlank = true) : t.isClosed = true := by
  obtain ⟨kind, text⟩ := t
  cases kind with
  | quoted => simp [Token.isBlank] at h
  | comment => simp [Token.isBlank] at h
  | _ => rfl

theorem isClosed_of_mem_append {s : Text} {t u : Token} {a b : List Token}
    (h : lex s = a ++ u :: b) (ht : t ∈ a) : t.isClosed = true := by
  obtain ⟨a₁, a₂, rfl⟩ := List.append_of_mem ht
  rcases a₂ with _ | ⟨v, a₂⟩
  · exact isClosed_of_lex_eq (s := s) (a := a₁) (u := u) (b := b) (by simpa using h)
  · exact isClosed_of_lex_eq (s := s) (a := a₁) (u := v) (b := a₂ ++ u :: b) (by simpa using h)

/-- Only a line comment in the last place can lie open in a well-formed statement. -/
theorem isClosed_of_not_endsInLineComment {s : Text}
    (hs : ∀ t ∈ lex s, t.isClosed = true ∨ t.isLineComment = true)
    (h : endsInLineComment s = false) : ∀ t ∈ lex s, t.isClosed = true := by
  intro u hu
  rcases blanks_at_end (lex s) with ⟨hnil, -⟩ | ⟨a, t, b, hlex, -, hb, -, hlast⟩
  · apply isClosed_of_isBlank
    have := List.filter_eq_nil_iff.1 hnil u hu
    simpa using this
  · have hl : t.isLineComment = false := by simpa [endsInLineComment, hlast] using h
    have hmem : u ∈ a ++ t :: b := hlex ▸ hu
    rcases List.mem_append.1 hmem with hua | hub
    · exact isClosed_of_mem_append hlex hua
    · rcases List.mem_cons.1 hub with rfl | hub
      · exact (hs u hu).resolve_right (by simp [hl])
      · exact isClosed_of_isBlank (hb u hub)

/-! ## Joints -/

/-- Behind closed elements, a space and what follows it. -/
theorem lex_append_space {s : Text} (hs : ∀ t ∈ lex s, t.isClosed = true) (r : Text) :
    lex (s ++ ' ' :: r) = lex s ++ blank ' ' :: lex r := by
  have hr : BeginsApart (' ' :: r) := by
    intro c hc
    cases hc
    rfl
  rw [lex_append_of_isClosed hs hr, lex_cons_of_isSpace rfl]

theorem lex_append_of_blank {s : Text} (hs : (lex s).getLast? = some (blank ' ')) (r : Text) :
    lex (s ++ r) = lex s ++ lex r := by
  apply lex_append
  intro t ht
  rw [hs] at ht
  cases ht
  cases r.head? <;> simp [Token.endsBefore, blank]

/-- The elements that follow an added clause. -/
def follow : List Token → List Token
  | [] => []
  | t :: ts => blank ' ' :: t :: ts

theorem lex_append_follow {x : Text} {rest : List Token} (hx : ∀ t ∈ lex x, t.isClosed = true)
    (hrest : lex (textOf rest) = rest) : lex (x ++ textOf (follow rest)) = lex x ++ follow rest := by
  rcases rest with _ | ⟨t, rest⟩
  · simp [follow]
  · have := lex_append_space hx (textOf (t :: rest))
    rwa [hrest] at this

theorem trimStart_textOf {t : Token} {rest : List Token}
    (hrest : lex (textOf (t :: rest)) = t :: rest) (ht : t.isBlank = false) :
    Text.trimStart (textOf (t :: rest)) = textOf (t :: rest) := by
  have h := lex_trimStart (textOf (t :: rest))
  rw [hrest, List.dropWhile_cons_of_neg (by simp [ht])] at h
  rw [← textOf_lex (Text.trimStart _), h]

/-- A text in front of elements that do not start with white space. -/
theorem followedBy_textOf (x : Text) {rest : List Token} (hrest : lex (textOf rest) = rest)
    (hblank : ∀ t ∈ rest.head?, t.isBlank = false) :
    followedBy x (textOf rest) = x ++ textOf (follow rest) := by
  rcases rest with _ | ⟨t, rest⟩
  · simp [followedBy, Text.trimStart, follow]
  · have hmem : t ∈ lex (textOf (t :: rest)) := by
      rw [hrest]
      exact List.mem_cons_self
    obtain ⟨c, body, htext, -⟩ := begins_of_mem_lex hmem
    have htrim := trimStart_textOf hrest (hblank t rfl)
    have htext' : textOf (t :: rest) = c :: (body ++ textOf rest) := by simp [htext]
    rw [followedBy, htrim]
    rw [htext'] at htrim ⊢
    simp [follow, blank, ← htext']

/-! ## Blanks at the ends -/

theorem kind_of_isBlank {t : Token} (h : t.isBlank = true) : t.kind = .other := by
  simp only [Token.isBlank, Bool.and_eq_true, beq_iff_eq] at h
  exact h.1

theorem topWordsFrom_rdropWhile (d : Int) (ts : List Token) :
    topWordsFrom d (ts.rdropWhile Token.isBlank) = topWordsFrom d ts ∧
      depthFrom d (ts.rdropWhile Token.isBlank) = depthFrom d ts := by
  have happ := List.rdropWhile_append_rtakeWhile (p := Token.isBlank) (l := ts)
  have hquiet : ∀ t ∈ ts.rtakeWhile Token.isBlank, t.kind = .other ∨ t.kind = .comment :=
    fun t ht => .inl (kind_of_isBlank (List.mem_rtakeWhile_imp ht))
  obtain ⟨hwords, hdepth⟩ :=
    topWordsFrom_of_forall hquiet (depthFrom d (ts.rdropWhile Token.isBlank))
  have hwords' := topWordsFrom_append d (ts.rdropWhile Token.isBlank) (ts.rtakeWhile Token.isBlank)
  have hdepth' := depthFrom_append d (ts.rdropWhile Token.isBlank) (ts.rtakeWhile Token.isBlank)
  rw [happ, hwords, List.append_nil] at hwords'
  rw [happ, hdepth] at hdepth'
  exact ⟨hwords'.symm, hdepth'.symm⟩

theorem topWordsFrom_dropWhile (d : Int) (ts : List Token) :
    topWordsFrom d (ts.dropWhile Token.isBlank) = topWordsFrom d ts ∧
      depthFrom d (ts.dropWhile Token.isBlank) = depthFrom d ts := by
  induction ts with
  | nil => exact ⟨rfl, rfl⟩
  | cons t ts ih =>
    by_cases ht : t.isBlank = true
    · have hk := kind_of_isBlank ht
      rw [List.dropWhile_cons_of_pos ht]
      simpa [topWordsFrom, Token.isTopWord, hk, Kind.depthAfter] using ih
    · rw [List.dropWhile_cons_of_neg ht]
      exact ⟨rfl, rfl⟩

/-! ## The two sides of a cut -/

section Cut

variable (opens : Text → Option Text → Bool) {s : Text}

theorem lex_textOf_cutBefore_fst : lex (textOf (cutBefore opens 0 (lex s)).1) =
    (cutBefore opens 0 (lex s)).1 :=
  lex_textOf_prefix (cutBefore_append opens 0 (lex s)).symm

theorem lex_textOf_cutBefore_snd : lex (textOf (cutBefore opens 0 (lex s)).2) =
    (cutBefore opens 0 (lex s)).2 :=
  lex_textOf_suffix (cutBefore_append opens 0 (lex s)).symm

theorem isBlank_of_isTopWord {t : Token} {d : Int} (h : t.isTopWord d = true) :
    t.isBlank = false := by
  simp only [Token.isTopWord, Bool.and_eq_true, beq_iff_eq] at h
  simp [Token.isBlank, h.1]

theorem isBlank_cutBefore_snd :
    ∀ t ∈ (cutBefore opens 0 (lex s)).2.head?, t.isBlank = false := by
  intro t ht
  rcases cutBefore_snd opens 0 (lex s) with hnil | ⟨u, rest, hcons, htop, -⟩
  · simp [hnil] at ht
  · rw [hcons] at ht
    cases ht
    exact isBlank_of_isTopWord htop

theorem mem_lex_of_mem_cutBefore_fst {t : Token} (h : t ∈ (cutBefore opens 0 (lex s)).1) :
    t ∈ lex s := by
  rw [← cutBefore_append opens 0 (lex s)]
  exact List.mem_append_left _ h

theorem mem_lex_of_mem_cutBefore_snd {t : Token} (h : t ∈ (cutBefore opens 0 (lex s)).2) :
    t ∈ lex s := by
  rw [← cutBefore_append opens 0 (lex s)]
  exact List.mem_append_right _ h

theorem WellFormed.cutBefore_fst (hs : WellFormed s) :
    ∀ t ∈ lex (textOf (cutBefore opens 0 (lex s)).1),
      t.isClosed = true ∨ t.isLineComment = true := by
  intro t ht
  rw [lex_textOf_cutBefore_fst] at ht
  exact hs.closed t (mem_lex_of_mem_cutBefore_fst opens ht)

/-- A statement is cut at top level. -/
theorem WellFormed.depthFrom_cutBefore (hs : WellFormed s) :
    depthFrom 0 (cutBefore opens 0 (lex s)).1 = 0 := by
  rcases cutBefore_snd opens 0 (lex s) with hnil | ⟨t, rest, -, htop, -⟩
  · have happ := cutBefore_append opens 0 (lex s)
    rw [hnil, List.append_nil] at happ
    rw [happ]
    exact hs.balanced.depthFrom_eq
  · simp only [Token.isTopWord, Bool.and_eq_true, beq_iff_eq] at htop
    exact htop.2

end Cut

theorem lex_cutTail_fst (s : Text) : lex (cutTail s).1 = (cutBefore opensTail 0 (lex s)).1 :=
  lex_textOf_cutBefore_fst opensTail

theorem cutKeyword_cutTail (keyword : String) (s : Text) : cutKeyword keyword (cutTail s).1 =
    (cutAfter keyword 0 (cutBefore opensTail 0 (lex s)).1).map
      fun p => (textOf p.1, textOf p.2) := by
  rw [cutKeyword, lex_cutTail_fst]

/-! ## Conditions -/

/-- What stands in front of an added condition. -/
def conditionLead (s : Text) : Text :=
  match cutKeyword "WHERE" (cutTail s).1 with
  | some (front, predicate) => Text.trimEnd front ++ ' ' :: conjoin (Text.trim predicate) []
  | none => Text.trimEnd (cutTail s).1 ++ " WHERE ".toList

theorem conjoin_eq (predicate condition : Text) :
    conjoin predicate condition = conjoin predicate [] ++ condition := by
  unfold conjoin
  split
  · simp
  split
  · simp
  · simp

theorem addCondition_eq (condition s : Text) :
    addCondition condition s = followedBy (conditionLead s ++ condition) (cutTail s).2 := by
  unfold addCondition conditionLead
  cases h : cutKeyword "WHERE" (cutTail s).1 with
  | none => simp [h, splice]
  | some p =>
    simp only [h, splice]
    rw [conjoin_eq]
    simp

/-- A keyword with a space on either side. -/
def spaced (keyword : String) : List Token := [blank ' ', ⟨.word, keyword.toList⟩, blank ' ']

/-- The elements of a predicate, if there are any, that a further condition is joined to. -/
def conjunctTokens (predicate : List Token) : List Token :=
  if predicate = [] then []
  else
    (if (topWordsFrom 0 predicate).any (isKeyword "OR") then group predicate else predicate) ++
      spaced "AND"

/-- The elements in front of an added condition, from those in front of the clauses that follow. -/
def leadTokens (before : List Token) : List Token :=
  match cutAfter "WHERE" 0 before with
  | some (front, predicate) => front ++ blank ' ' :: conjunctTokens (trimBlanks predicate)
  | none => before.rdropWhile Token.isBlank ++ spaced "WHERE"

theorem lex_spaced_and : lex " AND ".toList = spaced "AND" := by decide +kernel

theorem lex_spaced_where : lex " WHERE ".toList = spaced "WHERE" := by decide +kernel

theorem isClosed_of_mem_spaced {keyword : String} {t : Token} (h : t ∈ spaced keyword) :
    t.isClosed = true := by
  simp only [spaced, List.mem_cons, List.not_mem_nil, or_false] at h
  rcases h with rfl | rfl | rfl <;> rfl

theorem lex_conjoin {predicate : Text} (hp : ∀ t ∈ lex predicate, t.isClosed = true) :
    lex (conjoin predicate []) = conjunctTokens (lex predicate) := by
  unfold conjoin conjunctTokens
  by_cases hnil : predicate = []
  · simp [hnil, lex_nil]
  have hlex : lex predicate ≠ [] := by rwa [ne_eq, lex_eq_nil_iff]
  have hkeyword : hasKeyword "OR" predicate =
      (topWordsFrom 0 (lex predicate)).any (isKeyword "OR") := rfl
  rw [if_neg (by simpa using hnil), if_neg hlex, List.append_nil, List.append_nil, ← hkeyword]
  by_cases hor : hasKeyword "OR" predicate = true
  · have hclose : lex ") AND ".toList = parenClose :: spaced "AND" := by decide +kernel
    rw [if_pos hor, if_pos hor, List.cons_append, lex_cons,
      (Begins.opening (s := predicate ++ ") AND ".toList)).munch_eq,
      lex_append_of_isClosed hp (by intro c hc; cases hc; rfl), hclose]
    simp [group, parenOpen]
  · rw [if_neg hor, if_neg hor, lex_append_of_isClosed hp (by intro c hc; cases hc; rfl),
      lex_spaced_and]

/-- What a further condition adds to a predicate is closed. -/
theorem mem_conjunctTokens {predicate : List Token} {t : Token}
    (ht : t ∈ conjunctTokens predicate) :
    t ∈ predicate ∨ t.isClosed = true ∧ t.isLineComment = false := by
  have hspaced : ∀ t ∈ spaced "AND", t.isClosed = true ∧ t.isLineComment = false := by decide
  unfold conjunctTokens at ht
  split at ht
  · simp at ht
  · rcases List.mem_append.1 ht with ht | ht
    · split at ht
      · simp only [group, List.cons_append, List.mem_cons, List.mem_append, List.not_mem_nil,
          or_false] at ht
        rcases ht with rfl | ht | rfl
        · exact .inr ⟨rfl, rfl⟩
        · exact .inl ht
        · exact .inr ⟨rfl, rfl⟩
      · exact .inl ht
    · exact .inr (hspaced t ht)

theorem mem_of_mem_trimBlanks {t : Token} {ts : List Token} (h : t ∈ trimBlanks ts) : t ∈ ts :=
  (List.dropWhile_suffix _).subset ((List.rdropWhile_prefix _ _).subset h)

/-- A text that ends on a word does not end on white space. -/
theorem trimEnd_textOf_of_isTopWord {a : List Token} {t : Token} {d : Int}
    (hlex : lex (textOf (a ++ [t])) = a ++ [t]) (ht : t.isTopWord d = true) :
    Text.trimEnd (textOf (a ++ [t])) = textOf (a ++ [t]) := by
  obtain ⟨c, body, htext, hb⟩ := begins_of_mem_lex (s := textOf (a ++ [t])) (t := t)
    (by rw [hlex]; simp)
  have hk : t.kind = .word := by
    simp only [Token.isTopWord, Bool.and_eq_true, beq_iff_eq] at ht
    exact ht.1
  have htrim : Text.trimEnd t.text = t.text :=
    hb.trimEnd_eq (by simp [Token.isClosed, hk]) (isBlank_of_isTopWord ht)
      (by simp [Token.isLineComment, hk])
  have hne : Text.trimEnd t.text ≠ [] := by
    rw [htrim, htext]
    exact List.cons_ne_nil c body
  rw [textOf_append, textOf_cons, textOf_nil, List.append_nil, trimEnd_append_of_ne_nil hne, htrim]

theorem lex_conditionLead_of_isClosed {s : Text}
    (hclosed : ∀ t ∈ lex (cutTail s).1, t.isClosed = true)
    (h : endsInLineComment (cutTail s).1 = false) :
    lex (conditionLead s) = leadTokens (cutBefore opensTail 0 (lex s)).1 ∧
      ∀ t ∈ lex (conditionLead s), t.isClosed = true := by
  have hlex := @lex_textOf_cutBefore_fst opensTail s
  have hhead : (cutTail s).1 = textOf (cutBefore opensTail 0 (lex s)).1 := rfl
  rw [hhead] at h hclosed
  unfold conditionLead leadTokens
  rw [hhead, cutKeyword, hlex]
  generalize (cutBefore opensTail 0 (lex s)).1 = before at *
  have htrim := lex_trimEnd (fun t ht => .inl (hclosed t ht)) h
  rw [hlex] at hclosed htrim
  cases hcut : cutAfter "WHERE" 0 before with
  | none =>
    have hclosed' : ∀ t ∈ lex (Text.trimEnd (textOf before)), t.isClosed = true := by
      intro t ht
      rw [htrim] at ht
      exact hclosed t ((List.rdropWhile_prefix _ _).subset ht)
    simp only [Option.map_none]
    rw [lex_append_of_isClosed hclosed' (by intro c hc; cases hc; rfl), htrim, lex_spaced_where]
    refine ⟨rfl, fun t ht => ?_⟩
    rcases List.mem_append.1 ht with ht | ht
    · exact hclosed t ((List.rdropWhile_prefix _ _).subset ht)
    · exact isClosed_of_mem_spaced ht
  | some p =>
    obtain ⟨front, predicate⟩ := p
    have happ : front ++ predicate = before := cutAfter_append hcut
    obtain ⟨a, w, rfl, hw, -, -⟩ := cutAfter_eq_some hcut
    subst happ
    have hfront := lex_textOf_prefix hlex
    have hpred := lex_textOf_suffix hlex
    have hpred' : lex (Text.trim (textOf predicate)) = trimBlanks predicate := by
      rw [lex_trim _ (endsInLineComment_of_suffix hlex h), hpred]
      intro t ht
      rw [hpred] at ht
      exact .inl (hclosed t (by simp [ht]))
    have hclosedp : ∀ t ∈ trimBlanks predicate, t.isClosed = true := fun t ht =>
      hclosed t (by simp [mem_of_mem_trimBlanks ht])
    have hconj := @lex_conjoin (Text.trim (textOf predicate)) (by rwa [hpred'])
    simp only [Option.map_some]
    rw [trimEnd_textOf_of_isTopWord hfront hw, lex_append_space, hfront, hconj, hpred']
    · refine ⟨rfl, fun t ht => ?_⟩
      rcases List.mem_append.1 ht with ht | ht
      · exact hclosed t (List.mem_append_left _ ht)
      · rcases List.mem_cons.1 ht with rfl | ht
        · rfl
        · exact (mem_conjunctTokens ht).elim (hclosedp t) And.left
    · rw [hfront]
      exact fun t ht => hclosed t (List.mem_append_left _ ht)

theorem getLast?_leadTokens (before : List Token) :
    (leadTokens before).getLast? = some (blank ' ') := by
  unfold leadTokens conjunctTokens
  split
  · split <;> simp [spaced, List.getLast?_append, List.getLast?_cons]
  · simp [spaced, List.getLast?_append]

theorem WellFormed.isClosed_cutTail_fst {s : Text} (hs : WellFormed s)
    (h : endsInLineComment (cutTail s).1 = false) :
    ∀ t ∈ lex (cutTail s).1, t.isClosed = true :=
  isClosed_of_not_endsInLineComment (hs.cutBefore_fst opensTail) h

theorem lex_conditionLead {s : Text} (hs : WellFormed s)
    (h : endsInLineComment (cutTail s).1 = false) :
    lex (conditionLead s) = leadTokens (cutBefore opensTail 0 (lex s)).1 ∧
      ∀ t ∈ lex (conditionLead s), t.isClosed = true :=
  lex_conditionLead_of_isClosed (hs.isClosed_cutTail_fst h) h

theorem addCondition_eq_append (condition s : Text) :
    addCondition condition s =
      conditionLead s ++ condition ++ textOf (follow (cutBefore opensTail 0 (lex s)).2) := by
  rw [addCondition_eq]
  exact followedBy_textOf _ (lex_textOf_cutBefore_snd _) (isBlank_cutBefore_snd _)

/-- The elements of a statement with a further condition, if nothing in front of it lies open. -/
theorem lex_addCondition_of_isClosed {s condition : Text}
    (hclosed : ∀ t ∈ lex (cutTail s).1, t.isClosed = true)
    (h : endsInLineComment (cutTail s).1 = false) (hc : ∀ t ∈ lex condition, t.isClosed = true) :
    lex (addCondition condition s) =
      lex (conditionLead s) ++ lex condition ++ follow (cutBefore opensTail 0 (lex s)).2 := by
  obtain ⟨hlead, hleadClosed⟩ := lex_conditionLead_of_isClosed hclosed h
  have happ : lex (conditionLead s ++ condition) = lex (conditionLead s) ++ lex condition := by
    apply lex_append_of_blank
    rw [hlead, getLast?_leadTokens]
  rw [addCondition_eq_append, lex_append_follow ?_ (lex_textOf_cutBefore_snd _), happ]
  intro t ht
  rw [happ] at ht
  rcases List.mem_append.1 ht with ht | ht
  · exact hleadClosed t ht
  · exact hc t ht

/-- The elements of a statement with a further condition: those in front of it, its own, and those of
the clauses that follow. -/
theorem lex_addCondition {s condition : Text} (hs : WellFormed s)
    (h : endsInLineComment (cutTail s).1 = false) (hc : ∀ t ∈ lex condition, t.isClosed = true) :
    lex (addCondition condition s) =
      lex (conditionLead s) ++ lex condition ++ follow (cutBefore opensTail 0 (lex s)).2 :=
  lex_addCondition_of_isClosed (hs.isClosed_cutTail_fst h) h hc

/-! ## Sort keys -/

/-- What stands in front of added sort keys. -/
def sortKeysLead (s : Text) : Text :=
  Text.trimEnd (cutPaging s).1 ++
    if hasOrderBy (cutPaging s).1 then ", ".toList else " ORDER BY ".toList

theorem addSortKeys_eq_append (keys s : Text) :
    addSortKeys keys s =
      sortKeysLead s ++ keys ++ textOf (follow (cutBefore opensPaging 0 (lex s)).2) := by
  have h : addSortKeys keys s = followedBy (sortKeysLead s ++ keys) (cutPaging s).2 := by
    unfold addSortKeys sortKeysLead
    by_cases hby : hasOrderBy (cutPaging s).1 = true
    · simp [hby]
    · simp [hby, splice]
  rw [h]
  exact followedBy_textOf _ (lex_textOf_cutBefore_snd _) (isBlank_cutBefore_snd _)

theorem lex_cutPaging_fst (s : Text) :
    lex (cutPaging s).1 = (cutBefore opensPaging 0 (lex s)).1 :=
  lex_textOf_cutBefore_fst opensPaging

theorem WellFormed.isClosed_cutPaging_fst {s : Text} (hs : WellFormed s)
    (h : endsInLineComment (cutPaging s).1 = false) :
    ∀ t ∈ lex (cutPaging s).1, t.isClosed = true :=
  isClosed_of_not_endsInLineComment (hs.cutBefore_fst opensPaging) h

/-- The elements between a statement and the sort keys added to it. -/
def sortKeysJoint (ordered : Bool) : List Token :=
  if ordered then [⟨.other, [',']⟩, blank ' ']
  else [blank ' ', ⟨.word, "ORDER".toList⟩, blank ' ', ⟨.word, "BY".toList⟩, blank ' ']

theorem lex_sortKeysJoint (ordered : Bool) :
    lex (if ordered then ", ".toList else " ORDER BY ".toList) = sortKeysJoint ordered := by
  cases ordered <;> decide +kernel

theorem isClosed_of_mem_sortKeysJoint {ordered : Bool} {t : Token}
    (h : t ∈ sortKeysJoint ordered) : t.isClosed = true := by
  have hall : ∀ t ∈ sortKeysJoint ordered, t.isClosed = true := by
    cases ordered <;> decide
  exact hall t h

theorem lex_sortKeysLead_of_isClosed {s : Text}
    (hclosed : ∀ t ∈ lex (cutPaging s).1, t.isClosed = true)
    (h : endsInLineComment (cutPaging s).1 = false) :
    lex (sortKeysLead s) = (cutBefore opensPaging 0 (lex s)).1.rdropWhile Token.isBlank ++
        sortKeysJoint (hasOrderBy (cutPaging s).1) ∧
      ∀ t ∈ lex (sortKeysLead s), t.isClosed = true := by
  have htrim := lex_trimEnd (fun t ht => .inl (hclosed t ht)) h
  rw [lex_cutPaging_fst] at htrim hclosed
  have hclosed' : ∀ t ∈ lex (Text.trimEnd (cutPaging s).1), t.isClosed = true := by
    intro t ht
    rw [htrim] at ht
    exact hclosed t ((List.rdropWhile_prefix _ _).subset ht)
  have hjoint : lex (sortKeysLead s) = (cutBefore opensPaging 0 (lex s)).1.rdropWhile Token.isBlank ++
      sortKeysJoint (hasOrderBy (cutPaging s).1) := by
    unfold sortKeysLead
    rw [lex_append_of_isClosed hclosed', lex_sortKeysJoint, htrim]
    split <;> (intro c hc; cases hc; rfl)
  refine ⟨hjoint, fun t ht => ?_⟩
  rw [hjoint] at ht
  rcases List.mem_append.1 ht with ht | ht
  · exact hclosed t ((List.rdropWhile_prefix _ _).subset ht)
  · exact isClosed_of_mem_sortKeysJoint ht

theorem lex_sortKeysLead {s : Text} (hs : WellFormed s)
    (h : endsInLineComment (cutPaging s).1 = false) :
    lex (sortKeysLead s) = (cutBefore opensPaging 0 (lex s)).1.rdropWhile Token.isBlank ++
        sortKeysJoint (hasOrderBy (cutPaging s).1) ∧
      ∀ t ∈ lex (sortKeysLead s), t.isClosed = true :=
  lex_sortKeysLead_of_isClosed (hs.isClosed_cutPaging_fst h) h

/-- The elements of a statement with further sort keys, if nothing lies open in front of them. -/
theorem lex_addSortKeys_of_isClosed {s keys : Text}
    (hclosed : ∀ t ∈ lex (cutPaging s).1, t.isClosed = true)
    (h : endsInLineComment (cutPaging s).1 = false) (hk : ∀ t ∈ lex keys, t.isClosed = true) :
    lex (addSortKeys keys s) =
      lex (sortKeysLead s) ++ lex keys ++ follow (cutBefore opensPaging 0 (lex s)).2 := by
  obtain ⟨hlead, hleadClosed⟩ := lex_sortKeysLead_of_isClosed hclosed h
  have happ : lex (sortKeysLead s ++ keys) = lex (sortKeysLead s) ++ lex keys := by
    apply lex_append_of_blank
    rw [hlead, List.getLast?_append]
    cases hasOrderBy (cutPaging s).1 <;> rfl
  rw [addSortKeys_eq_append, lex_append_follow ?_ (lex_textOf_cutBefore_snd _), happ]
  intro t ht
  rw [happ] at ht
  rcases List.mem_append.1 ht with ht | ht
  · exact hleadClosed t ht
  · exact hk t ht

/-- The elements of a statement with further sort keys: those in front of them, their own, and those
of the clauses that follow. -/
theorem lex_addSortKeys {s keys : Text} (hs : WellFormed s)
    (h : endsInLineComment (cutPaging s).1 = false) (hk : ∀ t ∈ lex keys, t.isClosed = true) :
    lex (addSortKeys keys s) =
      lex (sortKeysLead s) ++ lex keys ++ follow (cutBefore opensPaging 0 (lex s)).2 :=
  lex_addSortKeys_of_isClosed (hs.isClosed_cutPaging_fst h) h hk

end QueryClauses.Sql
