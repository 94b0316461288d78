import QueryClauses.Sql.Extension
import QueryClauses.Proofs.Sql.Bytes.Survey

/-!
# Adding clauses at byte offsets

Where a clause begins and where a keyword ends are offsets that a survey hands out. The statement is
sliced there, surveyed again in part, and put together around the new clause. No slice fails, and
the statement is the one that is made by cutting between elements (`addCondition?_eq`,
`addSortKeys?_eq`).
-/

namespace QueryClauses.Sql

open Text

/-! ## Offsets in a survey -/

/-- The words at top level. -/
def Survey.topWords (v : Survey) : List Word := v.words.filter (·.depth == 0)

/-- Where the first word starts that opens a clause in front of the next one; `fallback` if none
does. -/
def clauseStart (opens : Text → Option Text → Bool) (fallback : Nat) : List Word → Nat
  | [] => fallback
  | w :: ws =>
    if opens w.text (ws.head?.map (·.text)) then w.start else clauseStart opens fallback ws

/-- The offset behind the first word that is a keyword. -/
def keywordStop? (keyword : String) (ws : List Word) : Option Nat :=
  (ws.find? (isKeyword keyword ·.text)).map (·.stop)

namespace Bytes

/-- The words of a text at top level. -/
def topWords? (s : Text) : Option (List Word) := (survey? s).map (·.topWords)

/-- The text with a clause at an offset, one space on either side. -/
def splice? (s : Text) (pos : Nat) (clause : Text) : Option Text := do
  let head ← slice? s 0 pos
  let tail ← slice? s pos (byteLength s)
  return followedBy (trimEnd head ++ ' ' :: clause) tail

/-- A predicate and a further condition. -/
def conjoin? (predicate condition : Text) : Option Text :=
  if predicate.isEmpty then some condition
  else do
    let words ← topWords? predicate
    if words.any (isKeyword "OR" ·.text) then
      return '(' :: predicate ++ ") AND ".toList ++ condition
    else return predicate ++ " AND ".toList ++ condition

/-- The statement with a further condition. -/
def addCondition? (condition s : Text) : Option Text := do
  let words ← topWords? s
  let pos := clauseStart opensTail (byteLength s) words
  let front ← slice? s 0 pos
  let frontWords ← topWords? front
  match keywordStop? "WHERE" frontWords with
  | some stop =>
    let predicate ← slice? s stop pos
    let clause ← conjoin? (trim predicate) condition
    let head ← slice? s 0 stop
    let tail ← slice? s pos (byteLength s)
    splice? (head ++ tail) stop clause
  | none => splice? s pos ("WHERE ".toList ++ condition)

/-- The statement with further sort keys. -/
def addSortKeys? (keys s : Text) : Option Text := do
  let words ← topWords? s
  let pos := clauseStart opensPaging (byteLength s) words
  let front ← slice? s 0 pos
  let frontWords ← topWords? front
  if orderByAmong (frontWords.map (·.text)) then
    let head ← slice? s 0 pos
    let tail ← slice? s pos (byteLength s)
    return followedBy (trimEnd head ++ ", ".toList ++ keys) tail
  else splice? s pos ("ORDER BY ".toList ++ keys)

end Bytes

/-! ## Top-level words of a survey -/

section

variable {opens : Text → Option Text → Bool} {keyword : String} {d : Int} {ts : List Token}

theorem topWords_ofTokens_cons (pos : Nat) (d : Int) (t : Token) (ts : List Token) :
    (Survey.ofTokens pos d (t :: ts)).topWords =
      (if t.isTopWord d then [⟨pos, t.text, d⟩] else []) ++
        (Survey.ofTokens (pos + byteLength t.text) (t.kind.depthAfter d) ts).topWords := by
  rw [Survey.ofTokens, Token.isTopWord]
  cases t.kind with
  | word =>
    by_cases hd : d = 0
    · simp [Survey.topWords, hd]
    · simp [Survey.topWords, hd]
  | _ => rfl

theorem map_text_topWords (pos : Nat) (d : Int) (ts : List Token) :
    (Survey.ofTokens pos d ts).topWords.map (·.text) = topWordsFrom d ts := by
  induction ts generalizing pos d with
  | nil => rfl
  | cons t ts ih =>
    rw [topWords_ofTokens_cons, topWordsFrom, List.map_append, ih]
    split <;> rfl

theorem map_text_topWords_survey (s : Text) : (survey s).topWords.map (·.text) = topWords s :=
  map_text_topWords 0 0 (lex s)

theorem any_topWords_survey (keyword : String) (s : Text) :
    (survey s).topWords.any (isKeyword keyword ·.text) = hasKeyword keyword s := by
  rw [hasKeyword, ← map_text_topWords_survey, List.any_map]
  rfl

/-- A clause starts where the elements are cut in front of it. -/
theorem clauseStart_ofTokens (pos : Nat) (d : Int) (ts : List Token) :
    clauseStart opens (pos + byteLength (textOf ts)) (Survey.ofTokens pos d ts).topWords =
      pos + byteLength (textOf (cutBefore opens d ts).1) := by
  induction ts generalizing pos d with
  | nil => rfl
  | cons t ts ih =>
    have ih := ih (pos + byteLength t.text) (t.kind.depthAfter d)
    have hnext : ((Survey.ofTokens (pos + byteLength t.text) (t.kind.depthAfter d) ts).topWords.head?.map
        fun w => w.text) = topWordFrom? (t.kind.depthAfter d) ts := by
      rw [topWordFrom?_eq_head?, ← map_text_topWords (pos + byteLength t.text), List.head?_map]
    rw [topWords_ofTokens_cons, textOf_cons, byteLength_append, ← Nat.add_assoc, cutBefore]
    by_cases ht : t.isTopWord d = true
    · rw [if_pos ht, List.singleton_append, clauseStart, hnext, ht, Bool.true_and]
      split
      · rfl
      · rw [ih, textOf_cons, byteLength_append, Nat.add_assoc]
    · rw [Bool.not_eq_true] at ht
      simp only [ht, Bool.false_and, Bool.false_eq_true, if_false, List.nil_append]
      rw [ih, textOf_cons, byteLength_append, Nat.add_assoc]

theorem clauseStart_survey (opens : Text → Option Text → Bool) (s : Text) :
    clauseStart opens (byteLength s) (survey s).topWords =
      byteLength (textOf (cutBefore opens 0 (lex s)).1) := by
  have := @clauseStart_ofTokens opens 0 0 (lex s)
  rwa [textOf_lex, Nat.zero_add, Nat.zero_add] at this

theorem keywordStop?_cons (keyword : String) (w : Word) (ws : List Word) :
    keywordStop? keyword (w :: ws) =
      if isKeyword keyword w.text then some w.stop else keywordStop? keyword ws := by
  rw [keywordStop?, List.find?_cons]
  cases isKeyword keyword w.text <;> rfl

/-- A keyword ends where the elements are cut behind it. -/
theorem keywordStop?_ofTokens (pos : Nat) (d : Int) (ts : List Token) :
    keywordStop? keyword (Survey.ofTokens pos d ts).topWords =
      (cutAfter keyword d ts).map fun p => pos + byteLength (textOf p.1) := by
  induction ts generalizing pos d with
  | nil => rfl
  | cons t ts ih =>
    have hrest : keywordStop? keyword (Survey.ofTokens (pos + byteLength t.text)
        (t.kind.depthAfter d) ts).topWords =
          ((cutAfter keyword (t.kind.depthAfter d) ts).map fun p => (t :: p.1, p.2)).map
            fun p => pos + byteLength (textOf p.1) := by
      rw [ih, Option.map_map]
      refine congrArg (fun f => Option.map f _) (funext fun p => ?_)
      simp only [Function.comp, textOf_cons, byteLength_append, Nat.add_assoc]
    rw [topWords_ofTokens_cons, cutAfter]
    by_cases htop : t.isTopWord d = true
    · rw [if_pos htop, htop, Bool.true_and, List.singleton_append, keywordStop?_cons]
      split
      · simp [Word.stop]
      · exact hrest
    · rw [Bool.not_eq_true] at htop
      rw [htop, Bool.false_and]
      exact hrest

theorem keywordStop?_survey (keyword : String) (s : Text) :
    keywordStop? keyword (survey s).topWords =
      (cutKeyword keyword s).map fun p => byteLength p.1 := by
  rw [survey, keywordStop?_ofTokens, cutKeyword, Option.map_map]
  refine congrArg (fun f => Option.map f _) (funext fun p => ?_)
  exact Nat.zero_add _

end

namespace Bytes

section

variable {condition keys s : Text}

theorem topWords?_eq (s : Text) : topWords? s = some (survey s).topWords := by
  rw [topWords?, survey?_eq, Option.map_some]

theorem splice?_append (u v clause : Text) :
    splice? (u ++ v) (byteLength u) clause = some (splice (u, v) clause) := by
  simp only [splice?, slice?_prefix, slice?_suffix, Option.bind_eq_bind, Option.bind_some]
  rfl

theorem conjoin?_eq (predicate condition : Text) :
    conjoin? predicate condition = some (conjoin predicate condition) := by
  simp only [conjoin?, topWords?_eq, any_topWords_survey, Option.bind_eq_bind, Option.bind_some,
    conjoin]
  split
  · rfl
  split <;> rfl

theorem addCondition?_eq (condition s : Text) :
    addCondition? condition s = some (addCondition condition s) := by
  have hpos := clauseStart_survey opensTail s
  have happ := cutTail_append s
  rw [addCondition]
  obtain ⟨head, tail, hcut⟩ : ∃ head tail, cutTail s = (head, tail) := ⟨_, _, rfl⟩
  have hhead : textOf (cutBefore opensTail 0 (lex s)).1 = head := congrArg Prod.fst hcut
  rw [hcut] at happ ⊢
  rw [hhead] at hpos
  subst happ
  simp only [addCondition?, topWords?_eq, hpos, slice?_prefix, slice?_suffix, keywordStop?_survey,
    Option.bind_eq_bind, Option.bind_some]
  cases hkey : cutKeyword "WHERE" head with
  | none => exact splice?_append head tail _
  | some p =>
    obtain ⟨front, predicate⟩ := p
    obtain rfl : front ++ predicate = head := cutKeyword_append hkey
    have hpredicate := slice?_append front predicate tail
    have hfront := slice?_prefix front (predicate ++ tail)
    rw [← byteLength_append] at hpredicate
    simp only [Option.map_some, List.append_assoc, hpredicate, hfront, conjoin?_eq,
      Option.bind_some]
    exact splice?_append front tail _

theorem addSortKeys?_eq (keys s : Text) : addSortKeys? keys s = some (addSortKeys keys s) := by
  have hpos := clauseStart_survey opensPaging s
  have happ := cutPaging_append s
  rw [addSortKeys]
  obtain ⟨head, tail, hcut⟩ : ∃ head tail, cutPaging s = (head, tail) := ⟨_, _, rfl⟩
  have hhead : textOf (cutBefore opensPaging 0 (lex s)).1 = head := congrArg Prod.fst hcut
  rw [hcut] at happ ⊢
  rw [hhead] at hpos
  subst happ
  simp only [addSortKeys?, topWords?_eq, hpos, slice?_prefix, slice?_suffix,
    map_text_topWords_survey, Option.bind_eq_bind, Option.bind_some]
  rw [hasOrderBy]
  split
  · rfl
  · exact splice?_append head tail _

end

end Bytes

end QueryClauses.Sql
