import QueryClauses.Proofs.Condition.Search
import QueryClauses.Proofs.SortKey.Rows

/-!
# Reading sort keys

The text of sort keys is read key by key between its commas, each key by the words between its
blanks. What is written for sort keys is read as the keys of their style (`readAll?_write`), from
which it follows that both styles sort alike (`styles_sort_alike`).
-/

namespace QueryClauses

open CharClass

/-! ## Words -/

/-- A word of a sort key: a text without white space and commas. -/
def IsPlainWord (s : Text) : Prop := s ≠ [] ∧ ∀ c ∈ s, isSpace c = false ∧ c ≠ ','

-- By the characters of the text, and not, as the instances for all characters would, by trying each.
instance (s : Text) : Decidable (IsPlainWord s) :=
  decidable_of_iff (s ≠ [] ∧ s.all (fun c => !isSpace c && c != ',') = true) (by simp [IsPlainWord])

namespace Text

theorem pieces_go_append {w : Text} (hw : ∀ c ∈ w, isSpace c = false) (piece s : Text) :
    pieces.go piece (w ++ s) = pieces.go (w.reverse ++ piece) s := by
  induction w generalizing piece with
  | nil => rfl
  | cons c w ih =>
    obtain ⟨hc, hw⟩ := List.forall_mem_cons.1 hw
    rw [List.cons_append, pieces.go, hc, if_neg Bool.false_ne_true, ih hw]
    simp

theorem pieces_of_isPlainWord {w : Text} (hw : IsPlainWord w) : pieces w = [w] := by
  have hgo := pieces_go_append (fun c hc => (hw.2 c hc).1) [] []
  rw [List.append_nil, List.append_nil] at hgo
  rw [pieces, hgo, pieces.go]
  simp [hw.1]

theorem pieces_append_space {w : Text} (hw : IsPlainWord w) (s : Text) :
    pieces (w ++ ' ' :: s) = w :: pieces s := by
  have hspace : isSpace ' ' = true := by decide
  rw [pieces, pieces_go_append fun c hc => (hw.2 c hc).1, List.append_nil, pieces.go, hspace]
  simp [hw.1, pieces]

/-- Words between blanks are the pieces of the text. -/
theorem pieces_intercalate {ws : List Text} (hws : ∀ w ∈ ws, IsPlainWord w) :
    pieces ([' '].intercalate ws) = ws := by
  induction ws with
  | nil => rfl
  | cons w ws ih =>
    obtain ⟨hw, hws⟩ := List.forall_mem_cons.1 hws
    cases ws with
    | nil => rw [List.intercalate_singleton, pieces_of_isPlainWord hw]
    | cons v ws =>
      rw [List.intercalate_cons_cons, List.append_assoc, List.singleton_append,
        pieces_append_space hw, ih hws]

end Text

theorem Sql.IsColumn.isPlainWord {s : Text} (h : IsColumn s) : IsPlainWord s := by
  constructor
  · rintro rfl
    obtain ⟨t, ts, hlex⟩ := h.lex_eq_cons
    rw [lex_nil] at hlex
    cases hlex
  · intro c hc
    by_cases hpoint : c = '.'
    · subst hpoint
      decide
    · have hident := h.isIdentChar_of_mem hc hpoint
      refine ⟨isSpace_eq_false_of_isIdentChar hident, ?_⟩
      rintro rfl
      exact absurd hident (by decide)

namespace RowKey

/-! ## One key -/

/-- The words of a key. -/
def words : RowKey → List String
  | value column descending nulls =>
    [column, if descending then "DESC" else "ASC"] ++
      match nulls with
      | none => []
      | some .first => ["NULLS", "FIRST"]
      | some .last => ["NULLS", "LAST"]
  | presence column descending =>
    ["CASE", "WHEN", column, "IS", "NULL", "THEN", "0", "ELSE", "1", "END",
      if descending then "DESC" else "ASC"]

/-- The key that words describe. -/
def ofWords? : List String → Option RowKey
  | [column, "ASC"] => some (value column false none)
  | [column, "DESC"] => some (value column true none)
  | [column, "ASC", "NULLS", "FIRST"] => some (value column false (some .first))
  | [column, "ASC", "NULLS", "LAST"] => some (value column false (some .last))
  | [column, "DESC", "NULLS", "FIRST"] => some (value column true (some .first))
  | [column, "DESC", "NULLS", "LAST"] => some (value column true (some .last))
  | ["CASE", "WHEN", column, "IS", "NULL", "THEN", "0", "ELSE", "1", "END", "ASC"] =>
    some (presence column false)
  | ["CASE", "WHEN", column, "IS", "NULL", "THEN", "0", "ELSE", "1", "END", "DESC"] =>
    some (presence column true)
  | _ => none

theorem ofWords?_words (key : RowKey) : ofWords? key.words = some key := by
  cases key with
  | value column descending nulls =>
    rcases nulls with _ | place
    · cases descending <;> rfl
    · cases descending <;> cases place <;> rfl
  | presence column descending => cases descending <;> rfl

/-- The column whose values a key compares or looks for. -/
def column : RowKey → String
  | value column _ _ | presence column _ => column

theorem isPlainWord_of_mem_words {key : RowKey} (hcolumn : IsPlainWord key.column.toList) :
    ∀ w ∈ key.words, IsPlainWord w.toList := by
  cases key with
  | value column descending nulls =>
    refine List.forall_mem_cons.2 ⟨hcolumn, ?_⟩
    rcases nulls with _ | place
    · cases descending <;> decide
    · cases descending <;> cases place <;> decide
  | presence column descending =>
    have hfront : ∀ w ∈ ["CASE", "WHEN"], IsPlainWord w.toList := by decide
    have hback : ∀ w ∈ ["IS", "NULL", "THEN", "0", "ELSE", "1", "END",
        if descending then "DESC" else "ASC"], IsPlainWord w.toList := by
      cases descending <;> decide
    exact List.forall_mem_append.2 ⟨hfront, List.forall_mem_cons.2 ⟨hcolumn, hback⟩⟩

/-- A key as it is written. -/
def text (key : RowKey) : String := " ".intercalate key.words

/-- The key that a text describes. -/
def read? (s : Text) : Option RowKey := ofWords? ((Text.pieces s).map String.ofList)

/-- The keys that a text describes, one between each two commas. -/
def readAll? (s : Text) : Option (List RowKey) := (s.splitOn ',').mapM read?

theorem read?_text {key : RowKey} (hcolumn : IsPlainWord key.column.toList) :
    read? key.text.toList = some key := by
  have hwords : Text.pieces key.text.toList = key.words.map String.toList := by
    rw [text, String.toList_intercalate]
    exact Text.pieces_intercalate (List.forall_mem_map.2 (isPlainWord_of_mem_words hcolumn))
  rw [read?, hwords, List.map_map]
  simp [Function.comp_def, ofWords?_words]

theorem read?_space_cons (s : Text) : read? (' ' :: s) = read? s := rfl

theorem comma_notMem_text {key : RowKey} (hcolumn : IsPlainWord key.column.toList) :
    ',' ∉ key.text.toList := by
  intro hmem
  rw [text, String.toList_intercalate] at hmem
  rcases Sql.mem_of_mem_intercalate hmem with hblank | ⟨w, hw, hmem⟩
  · exact absurd hblank (by decide)
  · obtain ⟨v, hv, rfl⟩ := List.mem_map.1 hw
    exact ((isPlainWord_of_mem_words hcolumn v hv).2 ',' hmem).2 rfl

/-! ## Lists of keys -/

theorem intercalate_comma_space (s : Text) (ss : List Text) :
    [',', ' '].intercalate (s :: ss) = [','].intercalate (s :: ss.map (' ' :: ·)) := by
  induction ss generalizing s with
  | nil => rfl
  | cons t ss ih =>
    rw [List.intercalate_cons_cons, ih, List.map_cons, List.intercalate_cons_cons]
    cases ss with
    | nil => simp
    | cons u ss => simp [List.intercalate_cons_cons]

theorem mapM_read? {f : RowKey → Text} {keys : List RowKey}
    (h : ∀ key ∈ keys, read? (f key) = some key) : (keys.map f).mapM read? = some keys := by
  induction keys with
  | nil => rfl
  | cons key keys ih =>
    obtain ⟨hkey, hkeys⟩ := List.forall_mem_cons.1 h
    rw [List.map_cons, List.mapM_cons, hkey, ih hkeys]
    rfl

/-- Keys that are joined by commas are read as these keys. -/
theorem readAll?_intercalate {keys : List RowKey} (hkeys : keys ≠ [])
    (hcolumns : ∀ key ∈ keys, IsPlainWord key.column.toList) :
    readAll? (", ".intercalate (keys.map text)).toList = some keys := by
  obtain ⟨key, keys, rfl⟩ := List.exists_cons_of_ne_nil hkeys
  have htext : (", ".intercalate ((key :: keys).map text)).toList =
      [','].intercalate (key.text.toList :: keys.map (' ' :: ·.text.toList)) := by
    rw [String.toList_intercalate, List.map_map, List.map_cons, Function.comp_def]
    refine (intercalate_comma_space _ _).trans ?_
    rw [List.map_map]
    rfl
  have hcomma : ∀ s ∈ key.text.toList :: keys.map (' ' :: ·.text.toList), ',' ∉ s := by
    obtain ⟨hfirst, hrest⟩ := List.forall_mem_cons.1 hcolumns
    refine List.forall_mem_cons.2 ⟨comma_notMem_text hfirst, List.forall_mem_map.2 ?_⟩
    intro key' hkey' hmem
    rcases List.mem_cons.1 hmem with hblank | hmem
    · cases hblank
    · exact comma_notMem_text (hrest key' hkey') hmem
  rw [readAll?, htext, List.splitOn_intercalate ',' hcomma (List.cons_ne_nil _ _), List.mapM_cons,
    read?_text (hcolumns key List.mem_cons_self), mapM_read? fun key' hkey' =>
      (read?_space_cons _).trans (read?_text (hcolumns key' (List.mem_cons_of_mem key hkey')))]
  rfl

end RowKey

/-! ## Sort keys in both styles -/

/-- To join texts group by group is to join them all. -/
theorem intercalate_flatten (sep : String) {groups : List (List String)}
    (h : ∀ g ∈ groups, g ≠ []) :
    sep.intercalate (groups.map sep.intercalate) = sep.intercalate groups.flatten := by
  induction groups with
  | nil => rfl
  | cons g groups ih =>
    obtain ⟨hg, hgroups⟩ := List.forall_mem_cons.1 h
    cases groups with
    | nil => simp
    | cons g' groups =>
      have hne : (g' :: groups).flatten ≠ [] := by
        rw [List.flatten_cons]
        exact List.append_ne_nil_of_left_ne_nil (hgroups g' List.mem_cons_self) _
      rw [List.map_cons, String.intercalate_cons_of_ne_nil (by simp), ih hgroups,
        @List.flatten_cons _ g, String.intercalate_append_of_ne_nil hg hne]

namespace SortStyle

/-- The keys that a sort key is written as. -/
def rowKeys (style : SortStyle) (column : String) (d : Direction) : List RowKey :=
  match style with
  | native => [.value column d.isDescending d.nulls?]
  | caseWhenNulls =>
    d.nulls?.toList.map (fun place => .presence column (place == .last)) ++
      [.value column d.isDescending none]

theorem write_eq (style : SortStyle) (column : String) (d : Direction) :
    style.write column d = ", ".intercalate ((style.rowKeys column d).map RowKey.text) := by
  apply String.toList_injective
  cases style <;> cases d <;>
    simp [write, rowKeys, RowKey.text, RowKey.words, nativeWords, caseKey, Direction.keyword,
      Direction.isDescending, Direction.nulls?]

theorem rowKeys_ne_nil (style : SortStyle) (column : String) (d : Direction) :
    style.rowKeys column d ≠ [] := by
  cases style <;> simp [rowKeys]

theorem column_of_mem_rowKeys {style : SortStyle} {column : String} {d : Direction} {key : RowKey}
    (h : key ∈ style.rowKeys column d) : key.column = column := by
  cases style with
  | native =>
    rw [List.mem_singleton.1 h]
    rfl
  | caseWhenNulls =>
    rcases List.mem_append.1 h with h | h
    · obtain ⟨place, -, rfl⟩ := List.mem_map.1 h
      rfl
    · rw [List.mem_singleton.1 h]
      rfl

theorem exists_value_mem_rowKeys (style : SortStyle) (column : String) (d : Direction) :
    ∃ descending nulls, .value column descending nulls ∈ style.rowKeys column d := by
  cases style with
  | native => exact ⟨_, _, List.mem_singleton_self _⟩
  | caseWhenNulls => exact ⟨_, _, List.mem_append_right _ (List.mem_singleton_self _)⟩

section Placed

variable {α : String → Type*} [∀ column, LinearOrder (α column)]

/-- A sort key that places rows without a value compares rows in the same way in each style. -/
theorem compareRows_rowKeys (defaults defaults' : NullDefault) (style : SortStyle) (column : String)
    {d : Direction} {place : NullPlace} (hplace : d.nulls? = some place) (r s : Row α) :
    compareRows defaults (style.rowKeys column d) r s =
      compareRows defaults' [.value column d.isDescending (some place)] r s := by
  cases style with
  | native =>
    rw [rowKeys, hplace]
    rfl
  | caseWhenNulls =>
    rw [rowKeys, hplace]
    exact compareRows_presence defaults defaults' column d.isDescending place r s

theorem compareRows_flatMap_rowKeys (defaults defaults' : NullDefault) (style style' : SortStyle)
    {keys : List (String × Direction)} (hplaced : ∀ key ∈ keys, key.2.nulls?.isSome = true)
    (r s : Row α) :
    compareRows defaults (keys.flatMap fun key => style.rowKeys key.1 key.2) r s =
      compareRows defaults' (keys.flatMap fun key => style'.rowKeys key.1 key.2) r s := by
  induction keys with
  | nil => rfl
  | cons key keys ih =>
    obtain ⟨hkey, hkeys⟩ := List.forall_mem_cons.1 hplaced
    obtain ⟨place, hplace⟩ := Option.isSome_iff_exists.1 hkey
    rw [List.flatMap_cons, List.flatMap_cons, compareRows_append, compareRows_append, ih hkeys,
      compareRows_rowKeys defaults defaults style key.1 hplace,
      compareRows_rowKeys defaults' defaults style' key.1 hplace]

end Placed

/-- Sort keys are written as the keys of their style. -/
theorem intercalate_write (style : SortStyle) (keys : List (String × Direction)) :
    ", ".intercalate (keys.map fun key => style.write key.1 key.2) =
      ", ".intercalate ((keys.flatMap fun key => style.rowKeys key.1 key.2).map RowKey.text) := by
  have hflatten := @intercalate_flatten ", "
    (keys.map fun key => (style.rowKeys key.1 key.2).map RowKey.text)
    (List.forall_mem_map.2 fun key _ => by simpa using style.rowKeys_ne_nil key.1 key.2)
  rw [List.flatMap_def, List.map_flatten, List.map_map, Function.comp_def, ← hflatten, List.map_map,
    Function.comp_def]
  simp only [write_eq]

/-- Sort keys as they are written are read as the keys of their style. -/
theorem readAll?_write (style : SortStyle) {keys : List (String × Direction)} (hkeys : keys ≠ [])
    (hcolumns : ∀ key ∈ keys, IsPlainWord key.1.toList) :
    RowKey.readAll? (", ".intercalate (keys.map fun key => style.write key.1 key.2)).toList =
      some (keys.flatMap fun key => style.rowKeys key.1 key.2) := by
  rw [intercalate_write]
  refine RowKey.readAll?_intercalate ?_ ?_
  · obtain ⟨key, keys, rfl⟩ := List.exists_cons_of_ne_nil hkeys
    rw [List.flatMap_cons]
    exact List.append_ne_nil_of_left_ne_nil (style.rowKeys_ne_nil key.1 key.2) _
  · intro rowKey hrow
    obtain ⟨key, hkey, hrow⟩ := List.mem_flatMap.1 hrow
    rw [column_of_mem_rowKeys hrow]
    exact hcolumns key hkey

/-- Sort keys that say where rows without a value come are written, in each style, as keys that
compare rows in the same way, wherever the database would put these rows. The keys can be read from
the text if the columns are plain words. A sort key that does not say is the same text in both
styles. -/
theorem styles_sort_alike {keys : List (String × Direction)} (hkeys : keys ≠ [])
    (hplaced : ∀ key ∈ keys, key.2.nulls?.isSome = true) :
    (∃ emulated native,
      let emulatedText := ", ".intercalate (keys.map fun key => caseWhenNulls.write key.1 key.2)
      let nativeText := ", ".intercalate (keys.map fun key => SortStyle.native.write key.1 key.2)
      emulatedText = ", ".intercalate (emulated.map RowKey.text) ∧
      nativeText = ", ".intercalate (native.map RowKey.text) ∧
      ((∀ key ∈ keys, IsPlainWord key.1.toList) →
        RowKey.readAll? emulatedText.toList = some emulated ∧
          RowKey.readAll? nativeText.toList = some native) ∧
      ∀ {α : String → Type*} [∀ column, LinearOrder (α column)] (defaults defaults' : NullDefault)
        (r s : Row α), compareRows defaults emulated r s = compareRows defaults' native r s) ∧
    ∀ column d, d.nulls? = none → caseWhenNulls.write column d = SortStyle.native.write column d := by
  refine ⟨⟨_, _, intercalate_write caseWhenNulls keys, intercalate_write SortStyle.native keys,
    fun hcolumns => ⟨readAll?_write caseWhenNulls hkeys hcolumns,
      readAll?_write SortStyle.native hkeys hcolumns⟩, ?_⟩, ?_⟩
  · intro α _ defaults defaults' r s
    exact compareRows_flatMap_rowKeys defaults defaults' _ _ hplaced r s
  · intro column d hnone
    rw [write, write, hnone]
    simp [caseKey, nativeWords]

theorem styles_sort_alike_nameAndRank :
    ∃ emulated native,
      RowKey.readAll? ("CASE WHEN i.name IS NULL THEN 0 ELSE 1 END ASC, i.name DESC, " ++
        "CASE WHEN i.rank IS NULL THEN 0 ELSE 1 END DESC, i.rank ASC").toList = some emulated ∧
      RowKey.readAll? "i.name DESC NULLS FIRST, i.rank ASC NULLS LAST".toList = some native ∧
      ∀ (defaults defaults' : NullDefault) (r s : Row fun _ => Nat),
        compareRows defaults emulated r s = compareRows defaults' native r s := by
  obtain ⟨⟨emulated, native, -, -, hread, halike⟩, -⟩ :=
    @styles_sort_alike [("i.name", .descNullsFirst), ("i.rank", .ascNullsLast)]
      (List.cons_ne_nil _ _) (by decide)
  obtain ⟨hemulated, hnative⟩ := hread (by decide)
  exact ⟨emulated, native, hemulated, hnative, halike⟩

end SortStyle

end QueryClauses
