import QueryClauses.Proofs.Draft.Run
import QueryClauses.Proofs.Sql.Sorting

/-!
# Requests for sort keys

Each request for sort keys writes a text of its own (`sortKeysText`), with a key on the identity
column at its end. The text of a second request comes right behind that of the first, and nothing
else changes, exactly if no word up to there limits the rows (`sorted_twice_iff`). A field that is
named like a keyword makes such a word (`cut_at_field_named_limit`).
-/

namespace QueryClauses

open Sql

namespace Draft

variable {draft next : Draft} {keys : List SortKey} {entity : String}

/-- The text that a request for sort keys writes. -/
def sortKeysText (draft : Draft) (keys : List SortKey) (entity : String) : Except Failure Text := do
  let idColumn ← draft.settings.catalog.idColumn entity
  let columns ← draft.sortColumns keys
  return draft.sortText idColumn columns

theorem sortKeysText_eq_ok {text : Text} : draft.sortKeysText keys entity = .ok text ↔
    ∃ idColumn, draft.settings.catalog.idColumn entity = .ok idColumn ∧
      ∃ columns, draft.sortColumns keys = .ok columns ∧ text = draft.sortText idColumn columns := by
  simp only [sortKeysText, bind_eq_ok, pure_eq_ok, eq_comm (b := text)]

/-- The text that a request for sort keys adds, if there are any. -/
theorem exists_sortKeysText (h : draft.addSortKeys keys entity = .ok next) (hkeys : keys ≠ []) :
    ∃ text, draft.sortKeysText keys entity = .ok text ∧
      next = { draft with text := Sql.addSortKeys text draft.text, changed := true } := by
  obtain ⟨idColumn, hid, ⟨hnil, -⟩ | ⟨-, columns, hcolumns, rfl⟩⟩ := addSortKeys_eq_ok h
  · exact absurd hnil hkeys
  · exact ⟨_, sortKeysText_eq_ok.2 ⟨idColumn, hid, columns, hcolumns, rfl⟩, rfl⟩

/-! ## The elements of the text -/

/-- The columns that a request for sort keys writes, the identity column last. -/
def sortedColumns (draft : Draft) (keys : List SortKey) (entity : String) :
    Except Failure (List String) := do
  let idColumn ← draft.settings.catalog.idColumn entity
  let columns ← draft.sortColumns keys
  return columns.map (·.1) ++ [idColumn]

theorem opensPaging_of_mem_keyKeywords {w : String} (hw : w ∈ SortStyle.keyKeywords)
    (next : Option Text) : opensPaging w.toList next = false := by
  have hall : ∀ w ∈ SortStyle.keyKeywords, ["LIMIT", "OFFSET", "FETCH"].any (isKeyword · w.toList) =
      false ∧ isKeyword "FOR" w.toList = false := by
    decide +kernel
  rw [opensPaging, (hall w hw).1, (hall w hw).2]
  rfl

section Sound

variable (hdraft : draft.Sound) {text : Text} (htext : draft.sortKeysText keys entity = .ok text)
include hdraft htext

/-- The words of sort keys are segments of their columns and keywords of sort keys. -/
theorem Sound.mem_lex_sortKeysText {t : Token} (ht : t ∈ lex text) :
    (∃ columns, draft.sortedColumns keys entity = .ok columns ∧
      ∃ column ∈ columns, IsColumn column.toList ∧ t ∈ lex column.toList) ∨
      SortStyle.IsKeyElement t := by
  obtain ⟨idColumn, hid, columns, hcolumns, rfl⟩ := sortKeysText_eq_ok.1 htext
  obtain ⟨hidColumn, hisColumn⟩ := hdraft.isColumn_sortColumns hid hcolumns
  rw [Draft.sortText, toList_sortKeyTexts, (tidy_sortKeyTokens _ hidColumn hisColumn).lexed] at ht
  refine (mem_sortKeyTokens ht).imp ?_ id
  rintro ⟨column, hcolumn, ht⟩
  refine ⟨_, ?_, column, hcolumn, ?_, ht⟩
  · simp only [sortedColumns, bind_eq_ok, pure_eq_ok]
    exact ⟨idColumn, hid, columns, hcolumns, rfl⟩
  · rcases List.mem_append.1 hcolumn with hcolumn | hcolumn
    · obtain ⟨key, hkey, rfl⟩ := List.mem_map.1 hcolumn
      exact hisColumn key hkey
    · rwa [List.mem_singleton.1 hcolumn]

theorem Sound.isSortKeys : IsSortKeys text where
  tame := by
    obtain ⟨idColumn, hid, columns, hcolumns, rfl⟩ := sortKeysText_eq_ok.1 htext
    exact (hdraft.sortText hid hcolumns).tame
  plain := by
    intro t ht
    rcases hdraft.mem_lex_sortKeysText htext ht with
      ⟨-, -, column, -, hcolumn, ht⟩ | rfl | rfl | ⟨w, -, rfl⟩
    · rcases hcolumn.mem_lex ht with rfl | ⟨w, -, rfl⟩
      · exact .inr rfl
      · exact .inl rfl
    · exact .inr rfl
    · exact .inr rfl
    · exact .inl rfl
  ends := by
    obtain ⟨idColumn, hid, columns, hcolumns, rfl⟩ := sortKeysText_eq_ok.1 htext
    obtain ⟨hidColumn, hisColumn⟩ := hdraft.isColumn_sortColumns hid hcolumns
    obtain ⟨a, w, hw, hlast⟩ :=
      endsOnKeyword_sortKeyTokens draft.settings.sortStyle idColumn columns
    refine ⟨a, w.toList, ?_, opensPaging_of_mem_keyKeywords hw⟩
    rw [Draft.sortText, toList_sortKeyTexts, (tidy_sortKeyTokens _ hidColumn hisColumn).lexed, hlast]

end Sound

/-! ## Sort keys twice -/

/-- Two requests for sort keys, one right after the other: the keys of the second come behind those
of the first, with a comma between them and nothing else changed, exactly if no word of the text up
to there, the first keys included, begins a clause that limits the rows. -/
theorem sorted_twice_iff {settings : Settings} {entity : String} {kind : QueryKind}
    {skeleton : Text} {requests : List Request} {draft next last : Draft}
    {keys keys' : List SortKey} {keysEntity keysEntity' : String}
    (hsettings : settings.check = .ok ())
    (hrun : (start settings entity kind skeleton).run requests = .ok draft)
    (htext : WellFormed draft.text) (hline : ∀ t ∈ lex draft.text, t.isLineComment = false)
    (hkeys : keys ≠ []) (hkeys' : keys' ≠ [])
    (hnext : draft.addSortKeys keys keysEntity = .ok next)
    (hlast : next.addSortKeys keys' keysEntity' = .ok last) :
    ∃ k k', draft.sortKeysText keys keysEntity = .ok k ∧
      draft.sortKeysText keys' keysEntity' = .ok k' ∧
      next.text = sortKeysLead draft.text ++ k ++ sortKeysBack draft.text ∧
      (last.text = sortKeysLead draft.text ++ k ++ ", ".toList ++ k' ++ sortKeysBack draft.text ↔
        noneOpens opensPaging none (topWords (sortKeysLead draft.text ++ k)) = true) := by
  have hdraft := (sound_start hsettings entity kind skeleton).run hrun
  obtain ⟨k, hk, rfl⟩ := exists_sortKeysText hnext hkeys
  obtain ⟨k', hk', rfl⟩ := exists_sortKeysText hlast hkeys'
  refine ⟨k, k', hk, hk', addSortKeys_eq_append k draft.text, ?_⟩
  exact addSortKeys_addSortKeys_iff htext hline (hdraft.isSortKeys hk)

def pagedSelect : Text := "SELECT i.* FROM items i WHERE i.note = 'LIMIT 1' LIMIT 10".toList

theorem sorted_twice_pagedSelect :
    (itemSettings.check = .ok () ∧ WellFormed pagedSelect ∧
      ∀ t ∈ lex pagedSelect, t.isLineComment = false) ∧
    ∃ next last, (start itemSettings "Item" .native pagedSelect).addSortKeys
        [⟨"Item", "limited", .descNullsLast⟩] "Item" = .ok next ∧
      next.addSortKeys [⟨"Item", "name", .asc⟩, ⟨"Item", "id", .desc⟩] "Item" = .ok last ∧
      next.text = "SELECT i.* FROM items i WHERE i.note = 'LIMIT 1' ORDER BY ".toList ++
        "i.limited DESC NULLS LAST, i.id ASC".toList ++ " LIMIT 10".toList ∧
      last.text = "SELECT i.* FROM items i WHERE i.note = 'LIMIT 1' ORDER BY ".toList ++
        "i.limited DESC NULLS LAST, i.id ASC".toList ++ ", ".toList ++
          "i.name ASC, i.id DESC".toList ++ " LIMIT 10".toList := by
  have hsettings : itemSettings.check = .ok () := rfl
  have htext : WellFormed pagedSelect := ⟨by decide +kernel, by decide +kernel⟩
  have hline : ∀ t ∈ lex pagedSelect, t.isLineComment = false := by decide +kernel
  refine ⟨⟨hsettings, htext, hline⟩, ?_⟩
  obtain ⟨next, hnext⟩ := @exists_eq_ok _ _ ((start itemSettings "Item" .native
    pagedSelect).addSortKeys [⟨"Item", "limited", .descNullsLast⟩] "Item") (by decide +kernel)
  obtain ⟨last, hlast⟩ := @exists_eq_ok _ _
    (next.addSortKeys [⟨"Item", "name", .asc⟩, ⟨"Item", "id", .desc⟩] "Item") (by
      obtain ⟨k, -, rfl⟩ := exists_sortKeysText hnext (List.cons_ne_nil _ _)
      rfl)
  obtain ⟨k, k', hk, hk', hfirst, hiff⟩ :=
    @sorted_twice_iff itemSettings "Item" .native pagedSelect [] _ next last _ _ _ _ hsettings rfl
      htext hline (List.cons_ne_nil _ _) (List.cons_ne_nil _ _) hnext hlast
  have hk : k = "i.limited DESC NULLS LAST, i.id ASC".toList := by
    cases hk
    decide +kernel
  have hk' : k' = "i.name ASC, i.id DESC".toList := by
    cases hk'
    decide +kernel
  have hlead : sortKeysLead (start itemSettings "Item" .native pagedSelect).text =
      "SELECT i.* FROM items i WHERE i.note = 'LIMIT 1' ORDER BY ".toList := by
    decide +kernel
  have hback : sortKeysBack (start itemSettings "Item" .native pagedSelect).text =
      " LIMIT 10".toList := by
    decide +kernel
  rw [hlead, hback, hk] at hfirst
  rw [hlead, hback, hk, hk'] at hiff
  exact ⟨next, last, hnext, hlast, hfirst, hiff.2 (by decide +kernel)⟩

def allItems : Text := "SELECT i.* FROM items i".toList

/-- A field that is named `limit` is taken for the beginning of a clause: the second keys are put in
the middle of the first ones, between an alias and its field. -/
theorem cut_at_field_named_limit :
    itemSettings.check = .ok () ∧ WellFormed allItems ∧
      (∀ t ∈ lex allItems, t.isLineComment = false) ∧
      (start itemSettings "Item" .native allItems).sortKeysText [⟨"Item", "limit", .asc⟩] "Item" =
        .ok "i.limit ASC, i.id ASC".toList ∧
      (start itemSettings "Item" .native allItems).sortKeysText [⟨"Item", "name", .asc⟩] "Item" =
        .ok "i.name ASC, i.id ASC".toList ∧
      ((start itemSettings "Item" .native allItems).run
          [.sortKeys [⟨"Item", "limit", .asc⟩] "Item"]).toOption.map (String.ofList ·.text) =
        some "SELECT i.* FROM items i ORDER BY i.limit ASC, i.id ASC" ∧
      ((start itemSettings "Item" .native allItems).run
          [.sortKeys [⟨"Item", "limit", .asc⟩] "Item",
            .sortKeys [⟨"Item", "name", .asc⟩] "Item"]).toOption.map (String.ofList ·.text) =
        some "SELECT i.* FROM items i ORDER BY i., i.name ASC, i.id ASC limit ASC, i.id ASC" :=
  ⟨rfl, ⟨by decide +kernel, by decide +kernel⟩, by decide +kernel, rfl, rfl, by decide +kernel,
    by decide +kernel⟩

end Draft

end QueryClauses
