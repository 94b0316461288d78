import QueryClauses.Query
import QueryClauses.Proofs.Condition.Comparison
import QueryClauses.Proofs.Sql.Regions

/-!
# Folding a generated comparison

A generated comparison of a column with a pattern is read as one (`read?_like`), whatever the column
and the placeholder are named: a dotted name goes on until the blank, and what follows it is the
keyword. The ESCAPE behind the pattern is left alone. So folding puts exactly the column and the
placeholder in upper case (`fold_like`).
-/

namespace QueryClauses.Sql.Like

open CharClass

/-! ## One step of folding -/

theorem foldFrom_cons (v : Survey) (mayStart : Bool) (pos : Nat) (c : Char) (s : Text) :
    foldFrom v mayStart pos (c :: s) =
      match if mayStart then read? (c :: s) else none with
      | none =>
        let rest := foldFrom v (isBoundary c) (pos + c.utf8Size) s
        ⟨c :: rest.text, rest.count⟩
      | some (m, rest) =>
        if v.isOpaque pos || v.isOpaque (pos + Text.byteLength m.lead) then
          let rest := foldFrom v false (pos + c.utf8Size) s
          ⟨c :: rest.text, rest.count⟩
        else
          let folded := foldFrom v false (pos + Text.byteLength m.text) rest
          ⟨m.folded ++ folded.text, folded.count + 1⟩ := by
  rw [foldFrom]
  split
  · rename_i h
    rw [h]
  · rename_i m rest h
    simp only [h]

section

variable {v : Survey} {pos : Nat} {c : Char} {s : Text}

/-- Where no comparison is read, a character is left as it is. -/
theorem foldFrom_cons_of_none {mayStart : Bool} (h : mayStart = true → read? (c :: s) = none) :
    foldFrom v mayStart pos (c :: s) =
      ⟨c :: (foldFrom v (isBoundary c) (pos + c.utf8Size) s).text,
        (foldFrom v (isBoundary c) (pos + c.utf8Size) s).count⟩ := by
  have hnone : (if mayStart then read? (c :: s) else none) = none := by
    cases mayStart with
    | false => rfl
    | true => exact h rfl
  rw [foldFrom_cons, hnone]

/-- A comparison outside of literals and comments is folded. -/
theorem foldFrom_of_read? {m : Comparison} {rest : Text} (h : read? s = some (m, rest))
    (hstart : v.isOpaque pos = false)
    (hkeyword : v.isOpaque (pos + Text.byteLength m.lead) = false) :
    foldFrom v true pos s =
      ⟨m.folded ++ (foldFrom v false (pos + Text.byteLength m.text) rest).text,
        (foldFrom v false (pos + Text.byteLength m.text) rest).count + 1⟩ := by
  cases s with
  | nil => cases h
  | cons c s =>
    rw [foldFrom_cons, if_pos rfl, h]
    simp only [hstart, hkeyword, Bool.or_self, Bool.false_eq_true, if_false]

end

/-! ## Reading a generated comparison -/

theorem isWordChar_of_isIdentChar {c : Char} (h : isIdentChar c = true) :
    (isWordChar c || c == '$') = true := by
  simp only [isIdentChar, isWordChar, isNameChar, Bool.or_eq_true] at *
  rcases h with (h | h) | h
  · exact .inl (.inl (.inl h))
  · exact .inr h
  · exact .inl (.inl (.inr h))

/-- A character that a name does not go on with. -/
def EndsName (s : Text) : Prop :=
  ∀ c ∈ s.head?, isWordChar c = false ∧ c ≠ '$' ∧ c ≠ '.'

theorem nameBody_of_endsName {r : Text} (h : EndsName r) : nameBody r = ([], r) := by
  rcases r with _ | ⟨c, _ | ⟨d, r⟩⟩
  · rfl
  · obtain ⟨hword, hdollar, -⟩ := h c rfl
    simp [nameBody, hword, hdollar]
  · obtain ⟨hword, hdollar, hpoint⟩ := h c rfl
    simp [nameBody, hword, hdollar, hpoint]

theorem nameBody_cons {c : Char} (hc : isIdentChar c = true) (s : Text) :
    nameBody (c :: s) = (c :: (nameBody s).1, (nameBody s).2) := by
  have hword := isWordChar_of_isIdentChar hc
  cases s with
  | nil => simp [nameBody, hword]
  | cons d s => simp [nameBody, hword]

theorem nameBody_point {c : Char} (hc : isNameStart c = true) (s : Text) :
    nameBody ('.' :: c :: s) = ('.' :: c :: (nameBody s).1, (nameBody s).2) := by
  have hpoint : isWordChar '.' = false := by decide +kernel
  simp [nameBody, hpoint, hc]

theorem nameBody_segment_append {w : Text} (hw : ∀ c ∈ w, isIdentChar c = true) (s : Text) :
    nameBody (w ++ s) = (w ++ (nameBody s).1, (nameBody s).2) := by
  induction w with
  | nil => rfl
  | cons c w ih =>
    have ih := ih fun d hd => hw d (List.mem_cons_of_mem c hd)
    rw [List.cons_append, nameBody_cons (hw c List.mem_cons_self), ih]
    rfl

/-- A dotted name is read up to the character that ends it. -/
theorem nameBody_dotted {ws : List Text} (hws : ∀ w ∈ ws, Identifier.IsSegment w) (hne : ws ≠ [])
    {r : Text} (hr : EndsName r) :
    ∃ c s, textOf (dotted ws) = c :: s ∧ isNameStart c = true ∧ nameBody (s ++ r) = (s, r) := by
  fun_induction dotted ws with
  | case1 => exact absurd rfl hne
  | case2 w =>
    obtain _ | ⟨c, s⟩ := w
    · exact (hws [] List.mem_cons_self).elim
    obtain ⟨hc, hs⟩ := hws (c :: s) List.mem_cons_self
    refine ⟨c, s, by simp [word], hc, ?_⟩
    rw [nameBody_segment_append hs, nameBody_of_endsName hr, List.append_nil]
  | case3 w v ws ih =>
    obtain ⟨d, u, hu, hd, hbody⟩ :=
      ih (fun w hw => hws w (List.mem_cons_of_mem _ hw)) (List.cons_ne_nil v ws)
    obtain _ | ⟨c, s⟩ := w
    · exact (hws [] List.mem_cons_self).elim
    obtain ⟨hc, hs⟩ := hws (c :: s) List.mem_cons_self
    refine ⟨c, s ++ '.' :: d :: u, by simp [word, single, hu], hc, ?_⟩
    rw [List.append_assoc, nameBody_segment_append hs, List.cons_append, List.cons_append,
      nameBody_point hd, hbody]

theorem operand?_column {column r : Text} (hcolumn : IsColumn column) (hr : EndsName r) :
    operand? (column ++ r) = some (column, r) := by
  obtain ⟨w, v, ws, hws, rfl⟩ := hcolumn
  obtain ⟨c, s, hs, hc, hbody⟩ := nameBody_dotted hws (List.cons_ne_nil w _) hr
  rw [hs, List.cons_append]
  simp [operand?, hc, hbody]

theorem isWordChar_of_isNameChar {c : Char} (h : isNameChar c = true) : isWordChar c = true := by
  simp [isWordChar, h]

theorem placeholder?_name {name r : Text} (hname : IsName name)
    (hr : ∀ c ∈ r.head?, isWordChar c = false) :
    placeholder? (':' :: (name ++ r)) = some (':' :: name, r) := by
  obtain _ | ⟨c, s⟩ := name
  · exact hname.elim
  obtain ⟨hc, hs⟩ := hname
  have hall : ∀ d ∈ c :: s, isWordChar d = true := by
    intro d hd
    rcases List.mem_cons.1 hd with rfl | hd
    · exact isWordChar_of_isNameChar (isNameChar_of_isNameStart hc)
    · exact isWordChar_of_isNameChar (hs d hd)
  obtain ⟨htake, hdrop⟩ := takeWhile_append_of_end (List.dropWhile_eq_nil_iff.2 hall) hr
  rw [List.takeWhile_eq_self_iff.2 hall] at htake
  simp only [List.cons_append] at htake hdrop ⊢
  simp [placeholder?, hc, htake, hdrop]

/-- The parts of a generated comparison. -/
def generated (column name : Text) : Comparison where
  operand := column
  gap := [' ']
  negation := []
  negationGap := []
  keyword := "LIKE".toList
  keywordGap := [' ']
  pattern := ':' :: name

theorem joinedAll_of_joined?_eq_none {s : Text} (h : joined? s = none) :
    joinedAll s = ([], s) := by
  rw [joinedAll]
  split
  · rfl
  · rename_i p hp
    rw [h] at hp
    cases hp

theorem read?_like {column name r : Text} (hcolumn : IsColumn column) (hname : IsName name)
    (hr : ∀ c ∈ r.head?, isWordChar c = false) :
    read? (column ++ (" LIKE :".toList ++ name ++ r)) = some (generated column name, r) := by
  have hend : EndsName (" LIKE :".toList ++ name ++ r) := by
    intro c hc
    obtain rfl : ' ' = c := by simpa using hc
    decide +kernel
  have hblank : isSpace ' ' = true := rfl
  have hletter : isSpace 'L' = false := rfl
  have hcolon : isSpace ':' = false := rfl
  have hjoined : joined? (" LIKE :".toList ++ name ++ r) = none := by
    simp [joined?, gap, hblank, hletter]
  have hlike : keyword? "like".toList ("LIKE :".toList ++ name ++ r) =
      some ("LIKE".toList, " :".toList ++ name ++ r) := by
    simp [keyword?, isLetter]
  have hnot : negation ("LIKE :".toList ++ name ++ r) = ([], [], "LIKE :".toList ++ name ++ r) := by
    simp [negation, keyword?, isLetter]
  have hpattern : pattern? (':' :: (name ++ r)) = some (':' :: name, r) := by
    rw [pattern?, if_neg (by decide), placeholder?_name hname hr]
  have hgap : gap (" LIKE :".toList ++ name ++ r) = ([' '], "LIKE :".toList ++ name ++ r) := by
    simp [gap, hblank, hletter]
  have hgap' : gap (" :".toList ++ name ++ r) = ([' '], ':' :: (name ++ r)) := by
    simp [gap, hblank, hcolon]
  simp only [read?, operand?_column hcolumn hend, joinedAll_of_joined?_eq_none hjoined, hgap, hnot,
    hlike, hgap', hpattern]
  simp [generated]

/-! ## Text without LIKE -/

/-- In a comparison the keyword stands somewhere. -/
theorem exists_keyword_of_read? {s : Text} {p : Comparison × Text} (h : read? s = some p) :
    ∃ u, u <:+ s ∧ keyword? "like".toList u ≠ none := by
  unfold read? at h
  split at h
  · cases h
  rename_i first behindFirst hfirst
  simp only at h
  split at h
  · cases h
  rename_i keyword behindKeyword hkeyword
  refine ⟨_, ?_, by rw [hkeyword]; exact Option.some_ne_none _⟩
  have hnegation : (negation (gap (joinedAll behindFirst).2).2).2.2 <:+
      (gap (joinedAll behindFirst).2).2 := ⟨_, by rw [List.append_assoc, negation_append]⟩
  have hgap : (gap (joinedAll behindFirst).2).2 <:+ (joinedAll behindFirst).2 := ⟨_, gap_append _⟩
  have hjoined : (joinedAll behindFirst).2 <:+ behindFirst := ⟨_, joinedAll_append _⟩
  exact ((hnegation.trans hgap).trans hjoined).trans ⟨_, (operand?_append hfirst).1⟩

/-- A text in which the keyword stands nowhere is left as it is. -/
theorem foldFrom_of_forall_keyword? {s : Text}
    (h : ∀ u, u <:+ s → keyword? "like".toList u = none) (v : Survey) (mayStart : Bool) (pos : Nat) :
    foldFrom v mayStart pos s = ⟨s, 0⟩ := by
  induction s generalizing mayStart pos with
  | nil => rw [foldFrom]
  | cons c s ih =>
    have ih := ih (fun u hu => h u (hu.trans (List.suffix_cons c s)))
    have hread : read? (c :: s) = none := by
      by_contra hsome
      obtain ⟨p, hp⟩ := Option.ne_none_iff_exists'.1 hsome
      obtain ⟨u, hu, hkeyword⟩ := exists_keyword_of_read? hp
      exact hkeyword (h u hu)
    rw [foldFrom_cons_of_none fun _ => hread, ih]

/-- What stands behind the pattern of a generated comparison. -/
def escapeClause (escape : Char) : Text := " ESCAPE '".toList ++ [escape, '\'']

theorem suffix_append_cases {a b u : Text} (h : u <:+ a ++ b) :
    u <:+ b ∨ ∃ c w, u = c :: w ∧ c ∈ a := by
  induction a with
  | nil => exact .inl h
  | cons c a ih =>
    rcases List.suffix_cons_iff.1 h with rfl | h
    · exact .inr ⟨c, _, rfl, List.mem_cons_self⟩
    · exact (ih h).imp id fun ⟨d, w, hu, hd⟩ => ⟨d, w, hu, List.mem_cons_of_mem c hd⟩

theorem keyword?_of_suffix_escapeClause (escape : Char) {u : Text}
    (hu : u <:+ escapeClause escape) : keyword? "like".toList u = none := by
  have hletters : ∀ c ∈ " ESCAPE '".toList, isLetter 'l' c = false := by
    have hany : " ESCAPE '".toList.any (isLetter 'l') = false := by decide
    simpa using List.any_eq_false.1 hany
  rcases suffix_append_cases hu with hu | ⟨c, w, rfl, hc⟩
  · have hquote : isLetter 'i' '\'' = false ∧ isLetter 'l' '\'' = false := by decide
    simp only [List.suffix_cons_iff, List.suffix_nil] at hu
    rcases hu with rfl | rfl | rfl <;> simp [keyword?, hquote]
  · simp [keyword?, hletters c hc]

/-! ## The whole comparison -/

theorem isOpaque_eq_false {s : Text} {a b : List Token} (hlex : lex s = a ++ b)
    (ha : ∀ t ∈ a, t.kind.isOpaque = false) {pos : Nat} (hpos : pos ≤ Text.byteLength (textOf a)) :
    (survey s).isOpaque pos = false := by
  rw [Survey.isOpaque, List.any_eq_false]
  intro r hr
  rw [survey, hlex] at hr
  have := le_start_of_mem_regions ha hr
  simp only [Span.encloses, Bool.and_eq_true, decide_eq_true_eq, not_and]
  omega

/-- The elements of a generated comparison in front of its ESCAPE literal. -/
def likeFront (column name : Text) : List Token :=
  lex column ++ (keywords ["LIKE"] ++ [blank ' ']) ++ [placeholder name] ++
    (keywords ["ESCAPE"] ++ [blank ' '])

theorem isOpaque_of_mem_likeFront {column name : Text} (hcolumn : IsColumn column) {t : Token}
    (ht : t ∈ likeFront column name) : t.kind.isOpaque = false := by
  have hlike : ∀ t ∈ keywords ["LIKE"] ++ [blank ' '], t.kind.isOpaque = false := by decide
  have hescape : ∀ t ∈ keywords ["ESCAPE"] ++ [blank ' '], t.kind.isOpaque = false := by decide
  rcases List.mem_append.1 ht with ht | ht
  · rcases List.mem_append.1 ht with ht | ht
    · rcases List.mem_append.1 ht with ht | ht
      · rcases hcolumn.mem_lex ht with rfl | ⟨w, -, rfl⟩ <;> rfl
      · exact hlike t ht
    · rw [List.mem_singleton.1 ht]
      rfl
  · exact hescape t ht

section

variable {escape : Char} {column name : String} (hcolumn : IsColumn column.toList)
  (hname : IsName name.toList)

theorem toList_like (pattern : Text) : (Condition.like escape column name pattern).text.toList =
    column.toList ++ (" LIKE :".toList ++ name.toList ++ escapeClause escape) := by
  unfold Condition.like escapeClause
  simp

include hcolumn hname

/-- Folding a generated comparison puts its column and its placeholder in upper case, and nothing
else. -/
theorem fold_like (hescape : Pattern.isUsableEscape escape = true) (pattern : Text) :
    fold (Condition.like escape column name pattern).text.toList =
      ⟨("UPPER(" ++ column ++ ") LIKE UPPER(:" ++ name ++ ") ESCAPE '" ++
        String.singleton escape ++ "'").toList, 1⟩ := by
  have hlex : lex (Condition.like escape column name pattern).text.toList =
      likeFront column.toList name.toList ++ [quotedEscape escape] :=
    (Condition.writes_like hcolumn hescape hname pattern).lex_text
  have hmasked : ∀ {pos}, pos ≤ Text.byteLength (textOf (likeFront column.toList name.toList)) →
      (survey (Condition.like escape column name pattern).text.toList).isOpaque pos = false :=
    isOpaque_eq_false hlex fun t ht => isOpaque_of_mem_likeFront hcolumn ht
  have hread := @read?_like _ _ (escapeClause escape) hcolumn hname (by
    intro c hc
    cases hc
    decide)
  rw [← toList_like pattern] at hread
  have hlead : Text.byteLength (generated column.toList name.toList).lead ≤
      Text.byteLength (textOf (likeFront column.toList name.toList)) := by
    simp only [generated, Comparison.lead, likeFront, textOf_append, Text.byteLength_append,
      textOf_lex, List.append_nil]
    have : Text.byteLength [' '] ≤ Text.byteLength (textOf (keywords ["LIKE"])) := by decide
    omega
  rw [fold, foldFrom_of_read? hread (hmasked (Nat.zero_le _)) (hmasked (by simpa using hlead)),
    foldFrom_of_forall_keyword? fun u hu => keyword?_of_suffix_escapeClause escape hu]
  unfold Comparison.folded generated escapeClause
  simp

end

end QueryClauses.Sql.Like
