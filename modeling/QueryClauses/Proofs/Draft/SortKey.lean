import QueryClauses.Draft
import QueryClauses.Proofs.Condition.Search

/-!
# The elements of sort keys

Sort keys are written with keywords around their columns, and joined by commas. They have no
placeholders, and nothing in them lies open (`tidy_sortKeyTexts`). Their words are keywords of sort
keys and the segments of their columns (`mem_sortKeyTokens`), and the last one is a keyword
(`endsOnKeyword_sortKeyTokens`).
-/

namespace QueryClauses

open Sql

def Sql.commaTokens : List Token := [single ',', blank ' ']

namespace SortStyle

/-- The keywords behind the column of a key in its own words. -/
def nativeKeywords (d : Direction) : List String :=
  d.keyword ::
    match d.nulls? with
    | none => []
    | some .first => ["NULLS", "FIRST"]
    | some .last => ["NULLS", "LAST"]

/-- The keywords behind the column of a key in front, for the rows without a value. -/
def caseKeywords (place : NullPlace) : List String :=
  ["IS", "NULL", "THEN", "0", "ELSE", "1", "END",
    match place with
    | .first => "ASC"
    | .last => "DESC"]

def caseKeyTokens (column : Text) : Option NullPlace → List Token
  | none => []
  | some place =>
    [word "CASE".toList, blank ' ', word "WHEN".toList, blank ' '] ++ lex column ++
      (keywords (caseKeywords place) ++ commaTokens)

/-- The elements of a key. -/
def keyTokens (style : SortStyle) (column : Text) (d : Direction) : List Token :=
  match style with
  | native => lex column ++ keywords (nativeKeywords d)
  | caseWhenNulls => caseKeyTokens column d.nulls? ++ (lex column ++ keywords [d.keyword])

theorem toList_write (style : SortStyle) (column : String) (d : Direction) :
    (style.write column d).toList = textOf (style.keyTokens column.toList d) := by
  cases style with
  | native =>
    cases d <;> simp [write, keyTokens, nativeKeywords, nativeWords, keywords, blank, word,
      Direction.keyword, Direction.isDescending, Direction.nulls?]
  | caseWhenNulls =>
    cases d <;> simp [write, keyTokens, caseKey, caseKeyTokens, caseKeywords, commaTokens, keywords,
      blank, word, single, Direction.keyword, Direction.isDescending, Direction.nulls?]

section Column

variable {column : String} (hcolumn : IsColumn column.toList)
include hcolumn

theorem tidy_column_keywords {w : String} {ws : List String} (hws : Tidy (keywords (w :: ws)) []) :
    Tidy (lex column.toList ++ keywords (w :: ws)) [] :=
  hcolumn.tidy.append_of_beginsApart hws (beginsApart_cons rfl _)

theorem tidy_caseKeyTokens_append (place : Option NullPlace) {ts : List Token} (hts : Tidy ts []) :
    Tidy (caseKeyTokens column.toList place ++ ts) [] := by
  cases place with
  | none => exact hts
  | some place =>
    have hfront : Tidy [word "CASE".toList, blank ' ', word "WHEN".toList, blank ' '] [] :=
      tidy_of_eval (by decide +kernel)
    have hback : Tidy (keywords (caseKeywords place) ++ commaTokens) [] := by
      cases place <;> exact tidy_of_eval (by decide +kernel)
    have h₁ := hfront.append_of_leavesOff hcolumn.tidy (.inl rfl)
    have h₂ := h₁.append_of_beginsApart hback (beginsApart_cons rfl _)
    exact h₂.append_of_leavesOff hts (LeavesOff.append (LeavesOff.append (.inl rfl) _) _)

theorem tidy_keyTokens (style : SortStyle) (d : Direction) :
    Tidy (style.keyTokens column.toList d) [] := by
  cases style with
  | native =>
    have hwords : Tidy (keywords (nativeKeywords d)) [] := by
      cases d <;> exact tidy_of_eval (by decide +kernel)
    exact tidy_column_keywords hcolumn hwords
  | caseWhenNulls =>
    have hwords : Tidy (keywords [d.keyword]) [] := by
      cases d <;> exact tidy_of_eval (by decide +kernel)
    exact tidy_caseKeyTokens_append hcolumn d.nulls? (tidy_column_keywords hcolumn hwords)

end Column

/-! ## The words of a key -/

/-- The keywords that keys are written with. -/
def keyKeywords : List String :=
  ["CASE", "WHEN", "IS", "NULL", "THEN", "0", "ELSE", "1", "END", "ASC", "DESC", "NULLS", "FIRST",
    "LAST"]

/-- An element that stands in a key whatever its column is. -/
def IsKeyElement (t : Token) : Prop :=
  t = blank ' ' ∨ t = single ',' ∨ ∃ w ∈ keyKeywords, t = word w.toList

theorem isKeyElement_of_mem_keywords {ws : List String} (hws : ∀ w ∈ ws, w ∈ keyKeywords)
    {t : Token} (ht : t ∈ keywords ws) : IsKeyElement t := by
  obtain ⟨w, hw, ht⟩ := List.mem_flatMap.1 ht
  rcases List.mem_cons.1 ht with rfl | ht
  · exact .inl rfl
  · exact .inr (.inr ⟨w, hws w hw, List.mem_singleton.1 ht⟩)

theorem keyword_mem (d : Direction) : d.keyword ∈ keyKeywords := by
  cases d <;> decide

theorem mem_caseKeyTokens {column : Text} {place : Option NullPlace} {t : Token}
    (ht : t ∈ caseKeyTokens column place) : t ∈ lex column ∨ IsKeyElement t := by
  cases place with
  | none => cases ht
  | some place =>
    simp only [caseKeyTokens, List.mem_append, List.mem_cons, List.not_mem_nil, or_false,
      commaTokens] at ht
    rcases ht with ((rfl | rfl | rfl | rfl) | ht) | ht | rfl | rfl
    · exact .inr (.inr (.inr ⟨"CASE", by decide, rfl⟩))
    · exact .inr (.inl rfl)
    · exact .inr (.inr (.inr ⟨"WHEN", by decide, rfl⟩))
    · exact .inr (.inl rfl)
    · exact .inl ht
    · refine .inr (isKeyElement_of_mem_keywords ?_ ht)
      cases place <;> decide
    · exact .inr (.inr (.inl rfl))
    · exact .inr (.inl rfl)

/-- What stands in a key belongs to its column or to every key. -/
theorem mem_keyTokens {style : SortStyle} {column : Text} {d : Direction} {t : Token}
    (ht : t ∈ style.keyTokens column d) : t ∈ lex column ∨ IsKeyElement t := by
  cases style with
  | native =>
    refine (List.mem_append.1 ht).imp id (isKeyElement_of_mem_keywords ?_)
    cases d <;> decide
  | caseWhenNulls =>
    rcases List.mem_append.1 ht with ht | ht
    · exact mem_caseKeyTokens ht
    · refine (List.mem_append.1 ht).imp id (isKeyElement_of_mem_keywords ?_)
      rintro w hw
      rw [List.mem_singleton.1 hw]
      exact keyword_mem d

/-- Elements of which the last is a keyword of keys. -/
def EndsOnKeyword (ts : List Token) : Prop := ∃ a, ∃ w ∈ keyKeywords, ts = a ++ [word w.toList]

theorem EndsOnKeyword.append {ts : List Token} (h : EndsOnKeyword ts) (a : List Token) :
    EndsOnKeyword (a ++ ts) := by
  obtain ⟨b, w, hw, rfl⟩ := h
  exact ⟨a ++ b, w, hw, (List.append_assoc a b _).symm⟩

theorem endsOnKeyword_keyTokens (style : SortStyle) (column : Text) (d : Direction) :
    EndsOnKeyword (style.keyTokens column d) := by
  have hkeyword : EndsOnKeyword (keywords [d.keyword]) := ⟨[blank ' '], _, keyword_mem d, rfl⟩
  cases style with
  | native =>
    refine EndsOnKeyword.append ?_ _
    cases hnulls : d.nulls? with
    | none =>
      rw [nativeKeywords, hnulls]
      exact hkeyword
    | some place =>
      have hplace : EndsOnKeyword (keywords ["NULLS", "FIRST"]) ∧
          EndsOnKeyword (keywords ["NULLS", "LAST"]) :=
        ⟨⟨_, "FIRST", by decide, (List.dropLast_append_getLast (List.cons_ne_nil _ _)).symm⟩,
          _, "LAST", by decide, (List.dropLast_append_getLast (List.cons_ne_nil _ _)).symm⟩
      rw [nativeKeywords, hnulls]
      cases place with
      | first => exact hplace.1.append [blank ' ', word d.keyword.toList]
      | last => exact hplace.2.append [blank ' ', word d.keyword.toList]
  | caseWhenNulls => exact (hkeyword.append _).append _

end SortStyle

namespace Draft

/-! ## The elements of a list of keys -/

/-- The elements of the key on the identity column. -/
def idKeyTokens (idColumn : Text) : List Token := SortStyle.native.keyTokens idColumn .asc

theorem toList_idKey (idColumn : String) :
    (idColumn ++ " ASC").toList = textOf (idKeyTokens idColumn.toList) := by
  simp [idKeyTokens, SortStyle.keyTokens, SortStyle.nativeKeywords, keywords, blank, word,
    Direction.keyword, Direction.nulls?, Direction.isDescending]

/-- The elements of sort keys, key by key, with those of the key on the identity column behind them
unless it is among them. -/
def sortKeyParts (style : SortStyle) (idColumn : String) (keys : List (String × Direction)) :
    List (List Token) :=
  keys.map (fun key => style.keyTokens key.1.toList key.2) ++
    if keys.any (·.1 == idColumn) then [] else [idKeyTokens idColumn.toList]

def sortKeyTokens (style : SortStyle) (idColumn : String) (keys : List (String × Direction)) :
    List Token :=
  commaTokens.intercalate (sortKeyParts style idColumn keys)

theorem toList_sortKeyTexts (style : SortStyle) (idColumn : String)
    (keys : List (String × Direction)) :
    (", ".intercalate (sortKeyTexts style idColumn keys)).toList =
      textOf (sortKeyTokens style idColumn keys) := by
  have hkeys : (keys.map fun key => style.write key.1 key.2).map String.toList =
      (keys.map fun key => style.keyTokens key.1.toList key.2).map textOf := by
    rw [List.map_map, List.map_map]
    exact List.map_congr_left fun key _ => style.toList_write key.1 key.2
  rw [String.toList_intercalate, sortKeyTokens, textOf_intercalate, sortKeyTexts, sortKeyParts,
    List.map_append, List.map_append, hkeys]
  split
  · rfl
  · rw [List.map_singleton, List.map_singleton, toList_idKey]
    rfl

theorem mem_sortKeyParts {style : SortStyle} {idColumn : String} {keys : List (String × Direction)}
    {part : List Token} (h : part ∈ sortKeyParts style idColumn keys) :
    ∃ style' d, ∃ column ∈ keys.map (·.1) ++ [idColumn],
      part = SortStyle.keyTokens style' column.toList d := by
  rcases List.mem_append.1 h with h | h
  · obtain ⟨key, hkey, rfl⟩ := List.mem_map.1 h
    exact ⟨style, key.2, key.1, List.mem_append_left _ (List.mem_map_of_mem hkey), rfl⟩
  · split at h
    · cases h
    · refine ⟨.native, .asc, idColumn, List.mem_append_right _ List.mem_cons_self, ?_⟩
      exact List.mem_singleton.1 h

theorem sortKeyParts_ne_nil (style : SortStyle) (idColumn : String)
    (keys : List (String × Direction)) : sortKeyParts style idColumn keys ≠ [] := by
  cases keys with
  | nil => exact List.cons_ne_nil _ _
  | cons key keys => exact List.cons_ne_nil _ _

theorem tidy_sortKeyTokens (style : SortStyle) {idColumn : String} (hid : IsColumn idColumn.toList)
    {keys : List (String × Direction)} (hkeys : ∀ key ∈ keys, IsColumn key.1.toList) :
    Tidy (sortKeyTokens style idColumn keys) [] := by
  have hall : ∀ part ∈ sortKeyParts style idColumn keys, Tidy part [] := by
    intro part hpart
    obtain ⟨style', d, column, hcolumn, rfl⟩ := mem_sortKeyParts hpart
    refine SortStyle.tidy_keyTokens ?_ style' d
    rcases List.mem_append.1 hcolumn with hcolumn | hcolumn
    · obtain ⟨key, hkey, rfl⟩ := List.mem_map.1 hcolumn
      exact hkeys key hkey
    · rwa [List.mem_singleton.1 hcolumn]
  have hcomma : Tidy commaTokens [] := tidy_of_eval (by decide +kernel)
  have hparts : ∀ part ∈ sortKeyParts style idColumn keys, Tidy part (namesOf part) :=
    fun part hpart => ⟨(hall part hpart).lexed, (hall part hpart).tame, rfl⟩
  have hnames : (sortKeyParts style idColumn keys).flatMap namesOf = [] :=
    List.flatMap_eq_nil_iff.2 fun part hpart => (hall part hpart).names
  have htidy := hcomma.intercalate (beginsApart_cons rfl _) (.inl rfl) hparts
  rwa [hnames] at htidy

/-- Sort keys and the key on the identity column behind them, joined by commas. -/
theorem tidy_sortKeyTexts (style : SortStyle) {idColumn : String} (hid : IsColumn idColumn.toList)
    {keys : List (String × Direction)} (hkeys : ∀ key ∈ keys, IsColumn key.1.toList) :
    Tidy (lex (", ".intercalate (sortKeyTexts style idColumn keys)).toList) [] :=
  (tidy_sortKeyTokens style hid hkeys).lex_of_eq (toList_sortKeyTexts style idColumn keys)

theorem mem_sortKeyTokens {style : SortStyle} {idColumn : String} {keys : List (String × Direction)}
    {t : Token} (ht : t ∈ sortKeyTokens style idColumn keys) :
    (∃ column ∈ keys.map (·.1) ++ [idColumn], t ∈ lex column.toList) ∨
      SortStyle.IsKeyElement t := by
  rcases mem_of_mem_intercalate ht with hcomma | ⟨part, hpart, ht⟩
  · rcases List.mem_cons.1 hcomma with rfl | hblank
    · exact .inr (.inr (.inl rfl))
    · exact .inr (.inl (List.mem_singleton.1 hblank))
  · obtain ⟨style', d, column, hcolumn, rfl⟩ := mem_sortKeyParts hpart
    exact (SortStyle.mem_keyTokens ht).imp (fun ht => ⟨column, hcolumn, ht⟩) id

theorem endsOnKeyword_sortKeyTokens (style : SortStyle) (idColumn : String)
    (keys : List (String × Direction)) :
    SortStyle.EndsOnKeyword (sortKeyTokens style idColumn keys) := by
  have hparts : ∀ part ∈ sortKeyParts style idColumn keys, SortStyle.EndsOnKeyword part := by
    intro part hpart
    obtain ⟨style', d, column, -, rfl⟩ := mem_sortKeyParts hpart
    exact style'.endsOnKeyword_keyTokens column.toList d
  have hne := sortKeyParts_ne_nil style idColumn keys
  rw [sortKeyTokens]
  generalize sortKeyParts style idColumn keys = parts at hparts hne
  induction parts with
  | nil => exact absurd rfl hne
  | cons part parts ih =>
    cases parts with
    | nil => simpa using hparts part List.mem_cons_self
    | cons part' parts =>
      rw [List.intercalate_cons_cons]
      refine (ih ?_ (List.cons_ne_nil _ _)).append _
      exact fun part h => hparts part (List.mem_cons_of_mem _ h)

end Draft

end QueryClauses
