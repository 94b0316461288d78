import QueryClauses.Proofs.Sql.Mentions
import QueryClauses.Proofs.Sql.Regions

/-!
# Placeholders that stay

Where a condition or sort keys are added to a statement, its own placeholders stay, whatever lies
open in it, unless the place is right behind a line comment (`subset_placeholderNames_addCondition`,
`subset_placeholderNames_addSortKeys`). A statement refers to a name where a colon and the name
stand in it outside of literals and comments (`References`); where the name is one that a
placeholder can have, there is a placeholder of it (`References.mem_placeholderNames`).
-/

namespace QueryClauses.Sql

open CharClass

variable {s r : Text}

/-! ## What stands in front -/

/-- Without the white space at its end, and whatever follows, a text has the placeholders that it
had, in front of all others, unless a line comment comes last in it. -/
theorem namesOf_prefix_trimEnd_append {x : Text} (hx : endsInLineComment x = false)
    (hr : BeginsApart r) : namesOf (lex x) <+: namesOf (lex (Text.trimEnd x ++ r)) := by
  by_cases hclosed : ∀ t ∈ lex x, t.isClosed = true
  · rw [lex_trimEnd_append hx hr hclosed, namesOf_append, namesOf_rdropWhile_isBlank]
    exact List.prefix_append _ _
  · push Not at hclosed
    obtain ⟨t, ht, hopen⟩ := hclosed
    rw [ne_eq, Bool.not_eq_true] at hopen
    -- What lies open is the last element, which has no name; what it reads on may have any.
    obtain ⟨a, hlex, -, hsplit⟩ := exists_open_last hx ht hopen
    have hk : t.kind ≠ .placeholder := by
      intro hk
      simp [Token.isClosed, hk] at hopen
    rw [hsplit, hlex, namesOf_append, namesOf_append, namesOf_cons_of_ne hk]
    exact (List.prefix_append_right_inj _).2 List.nil_prefix

theorem namesOf_prefix_conjoin {predicate : Text} (h : endsInLineComment predicate = false)
    (condition : Text) :
    namesOf (lex predicate) <+: namesOf (lex (conjoin (Text.trim predicate) condition)) := by
  have hstart : endsInLineComment (Text.trimStart predicate) = false := by
    rwa [endsInLineComment_trimStart]
  have hnames : namesOf (lex (Text.trimStart predicate)) = namesOf (lex predicate) := by
    rw [lex_trimStart, namesOf_dropWhile_isBlank]
  have htrim : ∀ {r}, BeginsApart r →
      namesOf (lex predicate) <+: namesOf (lex (Text.trim predicate ++ r)) := by
    intro r hr
    rw [← hnames]
    exact namesOf_prefix_trimEnd_append hstart hr
  unfold conjoin
  split
  · rename_i hempty
    have hnil := @htrim [] (by simp [BeginsApart])
    rw [List.isEmpty_iff.1 hempty, List.append_nil, lex_nil] at hnil
    rw [List.prefix_nil.1 hnil]
    exact List.nil_prefix
  split
  · rw [List.append_assoc, List.cons_append, lex_cons, Begins.opening.munch_eq,
      namesOf_cons_of_ne (by simp)]
    exact htrim (beginsApart_cons rfl _)
  · rw [List.append_assoc]
    exact htrim (beginsApart_cons rfl _)

theorem namesOf_prefix_conditionLead_append (h : endsInLineComment (cutTail s).1 = false)
    (condition : Text) :
    namesOf (lex (cutTail s).1) <+: namesOf (lex (conditionLead s ++ condition)) := by
  rcases conditionLead_append_cases h condition with
    hlead | ⟨front, predicate, happ, hpredicate, hline, hlead⟩
  · rw [hlead]
    exact namesOf_prefix_trimEnd_append h (beginsApart_cons rfl _)
  · have hconjoin := namesOf_prefix_conjoin hline condition
    rw [hpredicate] at hconjoin
    rw [hlead, happ, namesOf_append, namesOf_append,
      @namesOf_cons_of_ne (blank ' ') (by simp [blank])]
    exact (List.prefix_append_right_inj _).2 hconjoin

/-! ## Conditions and sort keys -/

/-- Where a clause follows the place, nothing in front of it lies open. -/
theorem isClosed_of_cutBefore_snd {opens : Text → Option Text → Bool}
    (h : (cutBefore opens 0 (lex s)).2 ≠ []) :
    ∀ t ∈ (cutBefore opens 0 (lex s)).1, t.isClosed = true := by
  obtain ⟨u, rest, hrest⟩ := List.exists_cons_of_ne_nil h
  have happ := cutBefore_append opens 0 (lex s)
  rw [hrest] at happ
  exact fun t ht => isClosed_of_mem_append happ.symm ht

theorem placeholderNames_cutBefore (opens : Text → Option Text → Bool) (s : Text) :
    placeholderNames s =
      namesOf (cutBefore opens 0 (lex s)).1 ++ namesOf (cutBefore opens 0 (lex s)).2 := by
  rw [← namesOf_append, cutBefore_append, placeholderNames_eq]

/-- A condition leaves the placeholders of a statement, whatever lies open in it, unless it comes
right behind a line comment. -/
theorem subset_placeholderNames_addCondition {condition : Text}
    (h : endsInLineComment (cutTail s).1 = false) (hc : ∀ t ∈ lex condition, t.isClosed = true) :
    placeholderNames s ⊆ placeholderNames (addCondition condition s) := by
  by_cases hrest : (cutBefore opensTail 0 (lex s)).2 = []
  · have hnil : namesOf [] = [] := rfl
    rw [placeholderNames_cutBefore opensTail s, hrest, hnil, List.append_nil, ← lex_cutTail_fst,
      placeholderNames_eq, addCondition_eq_append, hrest, follow, textOf_nil, List.append_nil]
    exact (namesOf_prefix_conditionLead_append h condition).subset
  · have hclosed : ∀ t ∈ lex (cutTail s).1, t.isClosed = true := by
      rw [lex_cutTail_fst]
      exact isClosed_of_cutBefore_snd hrest
    rw [placeholderNames_addCondition h hclosed hc, placeholderNames_cutTail_snd,
      placeholderNames_eq (cutTail s).1, lex_cutTail_fst, placeholderNames_cutBefore opensTail s]
    intro name hname
    simp only [List.mem_append] at hname ⊢
    exact hname.imp_left .inl

/-- The placeholders of a statement with sort keys, if nothing lies open in front of them. -/
theorem placeholderNames_addSortKeys {keys : Text}
    (h : endsInLineComment (cutPaging s).1 = false)
    (hclosed : ∀ t ∈ lex (cutPaging s).1, t.isClosed = true)
    (hk : ∀ t ∈ lex keys, t.isClosed = true) :
    placeholderNames (addSortKeys keys s) =
      namesOf (cutBefore opensPaging 0 (lex s)).1 ++ namesOf (lex keys) ++
        namesOf (cutBefore opensPaging 0 (lex s)).2 := by
  have hjoint : namesOf (sortKeysJoint (hasOrderBy (cutPaging s).1)) = [] := by
    cases hasOrderBy (cutPaging s).1 <;> rfl
  rw [placeholderNames_eq, lex_addSortKeys_of_isClosed hclosed h hk, namesOf_append, namesOf_append,
    (lex_sortKeysLead_of_isClosed hclosed h).1, namesOf_append, hjoint, List.append_nil,
    namesOf_rdropWhile_isBlank, namesOf_follow]

/-- Sort keys leave the placeholders of a statement, whatever lies open in it, unless they come
right behind a line comment. -/
theorem subset_placeholderNames_addSortKeys {keys : Text}
    (h : endsInLineComment (cutPaging s).1 = false) (hk : ∀ t ∈ lex keys, t.isClosed = true) :
    placeholderNames s ⊆ placeholderNames (addSortKeys keys s) := by
  by_cases hrest : (cutBefore opensPaging 0 (lex s)).2 = []
  · have hnil : namesOf [] = [] := rfl
    rw [placeholderNames_cutBefore opensPaging s, hrest, hnil, List.append_nil, ← lex_cutPaging_fst,
      placeholderNames_eq, addSortKeys_eq_append, hrest, follow, textOf_nil, List.append_nil,
      sortKeysLead, List.append_assoc]
    refine (namesOf_prefix_trimEnd_append h ?_).subset
    split <;> exact beginsApart_cons rfl _
  · have hclosed : ∀ t ∈ lex (cutPaging s).1, t.isClosed = true := by
      rw [lex_cutPaging_fst]
      exact isClosed_of_cutBefore_snd hrest
    rw [placeholderNames_addSortKeys h hclosed hk, placeholderNames_cutBefore opensPaging s]
    intro name hname
    simp only [List.mem_append] at hname ⊢
    exact hname.imp_left .inl

/-! ## References -/

/-- A statement refers to a name: a colon and the name stand in it outside of literals, quoted
identifiers and comments, behind no colon and in front of no identifier character. -/
def References (s name : Text) : Prop :=
  ∃ front back, s = front ++ ':' :: (name ++ back) ∧
    (survey s).isOpaque (Text.byteLength front) = false ∧ front.getLast? ≠ some ':' ∧
    ∀ c ∈ back.head?, isIdentChar c = false

theorem isNameChar_eq_false_of_isIdentChar {c : Char} (h : isIdentChar c = false) :
    isNameChar c = false := by
  by_contra hname
  rw [isIdentChar_of_isNameChar (by simpa using hname)] at h
  cases h

/-- What a colon and a name begin. -/
theorem munch_colon_append {name back : Text} (hname : IsName name)
    (hback : ∀ c ∈ back.head?, isIdentChar c = false) :
    munch ':' (name ++ back) = (placeholder name, back) := by
  rcases name with _ | ⟨c, w⟩
  · exact hname.elim
  have hall : ∀ d ∈ c :: w, isNameChar d = true :=
    List.forall_mem_cons.2 ⟨isNameChar_of_isNameStart hname.1, hname.2⟩
  obtain ⟨htake, hdrop⟩ := takeWhile_append_of_end (List.dropWhile_eq_nil_iff.2 hall)
    fun d hd => isNameChar_eq_false_of_isIdentChar (hback d hd)
  have hb := (Begins.placeholder (s := w ++ back) hname.1).munch_eq
  rw [← List.cons_append, htake, hdrop, List.takeWhile_eq_self_iff.2 hall] at hb
  exact hb

/-- A colon behind the first character of an element is in a literal, a quoted identifier or a
comment, or right behind another colon. -/
theorem Begins.colon_in_body {c : Char} {s r : Text} {t : Token} (h : Begins c s t r)
    {front more : Text} (htext : t.text = c :: (front ++ ':' :: more)) :
    t.kind.isOpaque = true ∨ (c :: front).getLast? = some ':' := by
  have hclass : ∀ {p : Char → Bool} {u : Text}, p ':' = false →
      front ++ ':' :: more = u.takeWhile p → False := by
    intro p u hp hu
    have hmem : ':' ∈ u.takeWhile p := by
      rw [← hu]
      simp
    rw [List.mem_takeWhile_imp hmem] at hp
    cases hp
  cases h with
  | quoted hq h => exact .inl rfl
  | line h => exact .inl rfl
  | block h => exact .inl rfl
  | opening => simp at htext
  | closing => simp at htext
  | cast =>
    right
    cases front with
    | nil => rfl
    | cons d front => simp at htext
  | placeholder hc => exact (hclass (by decide) (List.cons.inj htext).2.symm).elim
  | word hc => exact (hclass (by decide) (List.cons.inj htext).2.symm).elim
  | other hc hne hends => simp at htext

/-- An element of a list of two parts is in the second part or in the first. -/
theorem split_at_cons {α : Type} {body rest front back : List α} {x : α}
    (h : body ++ rest = front ++ x :: back) :
    (∃ mid, front = body ++ mid ∧ rest = mid ++ x :: back) ∨ ∃ more, body = front ++ x :: more := by
  rcases List.append_eq_append_iff.1 h with ⟨mid, hfront, hrest⟩ | ⟨more, hbody, hback⟩
  · exact .inl ⟨mid, hfront, hrest⟩
  · cases more with
    | nil => exact .inl ⟨[], by simpa using hbody.symm, by simpa using hback.symm⟩
    | cons y more =>
      obtain ⟨rfl, -⟩ := List.cons.inj hback
      exact .inr ⟨more, hbody⟩

/-- A reference to a name that a placeholder can have is a placeholder. -/
theorem References.mem_placeholderNames {name : Text} (h : References s name)
    (hname : IsName name) :
    name ∈ placeholderNames s := by
  obtain ⟨front, back, hs, hopaque, hlast, hback⟩ := h
  rw [isOpaque_eq_inside] at hopaque
  rw [placeholderNames_eq]
  fun_induction lex s generalizing front with
  | case1 => simp at hs
  | case2 c s ih =>
    cases front with
    | nil =>
      obtain ⟨rfl, rfl⟩ := List.cons.inj hs
      rw [munch_colon_append hname hback, namesOf_cons (by rfl)]
      exact List.mem_cons_self
    | cons d front =>
      rw [List.cons_append] at hs
      obtain ⟨rfl, hsplit⟩ := List.cons.inj hs
      obtain ⟨body, htext, hbody, -, -⟩ := (begins_munch c s).self
      -- The colon stands behind the first element, or in it, where nothing outside of literals and
      -- comments has one but behind another colon.
      rcases split_at_cons (hbody.symm.trans hsplit) with ⟨mid, rfl, hrest⟩ | ⟨more, rfl⟩
      · have hmid : name ∈ namesOf (lex (munch c s).2) := by
          apply ih mid hrest
          · rwa [← List.cons_append, ← htext, Text.byteLength_append, inside_munch] at hopaque
          · intro hcolon
            obtain ⟨u, rfl⟩ := List.getLast?_eq_some_iff.1 hcolon
            rw [← List.append_assoc, ← List.cons_append] at hlast
            exact hlast List.getLast?_concat
        rw [← List.singleton_append, namesOf_append]
        exact List.mem_append_right _ hmid
      · exfalso
        rcases (begins_munch c s).colon_in_body htext with hkind | hcolon
        · have hcolon : 0 < Text.byteLength (':' :: more) := by
            have := Char.utf8Size_pos ':'
            rw [Text.byteLength_cons]
            omega
          have hlt : Text.byteLength (c :: front) < Text.byteLength (munch c s).1.text := by
            rw [htext, ← List.cons_append, Text.byteLength_append]
            omega
          have hpos : 0 < Text.byteLength (c :: front) := by
            have := c.utf8Size_pos
            rw [Text.byteLength_cons]
            omega
          rw [inside_munch_of_lt hlt, hkind, Bool.true_and, decide_eq_false_iff_not] at hopaque
          exact hopaque hpos
        · exact hlast hcolon

theorem isNameChar_of_mem_placeholderNames {name : Text} (h : name ∈ placeholderNames s) :
    ∀ c ∈ name, isNameChar c = true := by
  rw [placeholderNames_eq] at h
  obtain ⟨t, ht, rfl⟩ := List.mem_map.1 h
  obtain ⟨ht, hkind⟩ := List.mem_filter.1 ht
  obtain ⟨c, body, -, hb⟩ := begins_of_mem_lex ht
  obtain ⟨-, hname⟩ := hb.of_kind_placeholder (by simpa using hkind)
  rw [hname]
  exact fun c hc => List.mem_takeWhile_imp hc

end QueryClauses.Sql
