import QueryClauses.Proofs.Draft.Attempts
import QueryClauses.Proofs.Draft.Sorting
import QueryClauses.Proofs.Sql.Commutation

/-!
# Requests in either order

What a request for sort keys adds does not depend on the text (`sortKeys_cases`), and what a request
for conditions adds depends on it only in that nothing is added to a compound statement
(`conditions_cases`). So the two may be made in either order: each succeeds or fails as in the
other order, and the draft is the same (`attempts_comm`).
-/

namespace QueryClauses

open Sql

namespace Draft

variable {draft : Draft} {keys : List SortKey} {entity : String}

/-! ## What a request adds -/

/-- A request that changes none of some drafts: it fails at all of them, for one reason, or succeeds
at all of them. -/
def Idle (p : Draft → Prop) (request : Request) : Prop :=
  (∃ failure, ∀ draft, p draft → draft.grant request = .error failure) ∨
    ∀ draft, p draft → draft.grant request = .ok draft

/-- A request for sort keys is idle, or adds the same text to all drafts with the same settings. -/
theorem sortKeys_cases (settings : Settings) (keys : List SortKey) (entity : String) :
    Idle (·.settings = settings) (.sortKeys keys entity) ∨
      keys ≠ [] ∧ ∃ text, ∀ draft : Draft, draft.settings = settings →
        draft.sortKeysText keys entity = .ok text ∧
          draft.grant (.sortKeys keys entity) = .ok (draft.sorted text) := by
  have hgrant : ∀ draft : Draft, draft.grant (.sortKeys keys entity) =
      draft.sort keys entity := fun draft => draft.addSortKeys_eq keys entity
  simp only [Idle, hgrant]
  cases hid : settings.catalog.idColumn entity with
  | error failure =>
    refine .inl (.inl ⟨failure, ?_⟩)
    rintro draft rfl
    rw [sort, hid]
    rfl
  | ok idColumn =>
    by_cases hkeys : keys = []
    · refine .inl (.inr ?_)
      rintro draft rfl
      rw [sort, hid, hkeys]
      rfl
    · have hempty : keys.isEmpty = false := by simpa using hkeys
      cases hcolumns : keys.mapM fun key =>
          (settings.catalog.column key.entity key.field).map fun column => (column, key.direction) with
      | error failure =>
        refine .inl (.inl ⟨failure, ?_⟩)
        rintro draft rfl
        rw [sort, hid, hempty, sortColumns, hcolumns]
        rfl
      | ok columns =>
        refine .inr ⟨hkeys, (", ".intercalate
          (sortKeyTexts settings.sortStyle idColumn columns)).toList, ?_⟩
        rintro draft rfl
        refine ⟨sortKeysText_eq_ok.2 ⟨idColumn, hid, columns, hcolumns, rfl⟩, ?_⟩
        rw [sort, hid, hempty, sortColumns, hcolumns]
        rfl

/-- Two drafts of which one may have had sort keys added. -/
def SameButText (draft draft' : Draft) : Prop :=
  draft' = { draft with text := draft'.text, changed := draft'.changed }

/-- A request for conditions is idle, or adds the same condition to all drafts that differ in their
text only, unless that is compound. -/
theorem conditions_cases (draft : Draft) (filters : List Filter) (search : Option Search)
    (words : Bool) :
    Idle draft.SameButText (.conditions filters search words) ∨
      ∃ addition condition, draft.generate filters search words = .ok addition ∧
        addition.text? = some condition ∧ ∀ draft', draft.SameButText draft' →
          draft'.grant (.conditions filters search words) =
            if isCompound draft'.text then .error (.query .compound)
            else .ok (draft'.extended addition condition) := by
  have hgrant : ∀ draft', draft.SameButText draft' →
      draft'.grant (.conditions filters search words) =
        draft.generate filters search words >>= draft'.extend := by
    intro draft' hsame
    refine (draft'.addConditions_eq filters search words).trans ?_
    rw [hsame]
    rfl
  cases hgenerate : draft.generate filters search words with
  | error failure =>
    refine .inl (.inl ⟨failure, fun draft' hsame => ?_⟩)
    rw [hgrant draft' hsame, hgenerate]
    rfl
  | ok addition =>
    have hextend : ∀ draft', draft.SameButText draft' →
        draft'.grant (.conditions filters search words) = draft'.extend addition := by
      intro draft' hsame
      rw [hgrant draft' hsame, hgenerate]
      rfl
    cases htext : addition.text? with
    | none =>
      refine .inl (.inr fun draft' hsame => ?_)
      rw [hextend draft' hsame, Draft.extend, htext]
    | some condition =>
      refine .inr ⟨addition, condition, rfl, htext, fun draft' hsame => ?_⟩
      rw [hextend draft' hsame, Draft.extend, htext]

theorem settings_attempt (draft : Draft) (request : Request) :
    (draft.attempt request).settings = draft.settings := by
  cases h : draft.grant request with
  | error failure => rw [attempt_of_error h]
  | ok next =>
    rw [attempt_of_ok h]
    cases request with
    | conditions filters search words =>
      obtain ⟨addition, -, ⟨-, rfl⟩ | ⟨condition, -, -, rfl⟩⟩ := addConditions_eq_ok h
      · rfl
      · rfl
    | sortKeys keys entity =>
      obtain ⟨idColumn, -, ⟨-, rfl⟩ | ⟨-, columns, -, rfl⟩⟩ := addSortKeys_eq_ok h
      · rfl
      · rfl

/-- The words of sort keys combine no SELECTs if no segment of their columns does. -/
theorem Sound.isSetOperator_sortKeysText (hdraft : draft.Sound) {text : Text}
    (htext : draft.sortKeysText keys entity = .ok text)
    (hsegments : ∀ columns, draft.sortedColumns keys entity = .ok columns →
      ∀ column ∈ columns, ∀ w ∈ Identifier.segments column.toList, isSetOperator w = false) :
    ∀ w ∈ topWords text, isSetOperator w = false := by
  intro w hw
  rcases hdraft.mem_lex_sortKeysText htext (mem_of_mem_topWordsFrom hw) with
    ⟨columns, hcolumns, column, hcolumn, hisColumn, hword⟩ | hblank | hcomma | ⟨keyword, hkeyword, hword⟩
  · rw [hisColumn.lex_eq_dotted] at hword
    rcases mem_dotted hword with hpoint | ⟨v, hv, hword⟩
    · cases hpoint
    · cases hword
      exact hsegments columns hcolumns column hcolumn w hv
  · cases hblank
  · cases hcomma
  · cases hword
    have hall : ∀ keyword ∈ SortStyle.keyKeywords, isSetOperator keyword.toList = false := by
      decide +kernel
    exact hall keyword hkeyword

/-! ## Either order -/

/-- Two requests may be made of a draft in either order: each succeeds or fails alike, and the draft
behind them is the same. -/
structure Commutes (draft : Draft) (request request' : Request) : Prop where
  first : (draft.handle request).1 = ((draft.attempt request').handle request).1
  second : (draft.handle request').1 = ((draft.attempt request).handle request').1
  draft_eq : draft.attempts [request, request'] = draft.attempts [request', request]

theorem Commutes.symm {request request' : Request} (h : draft.Commutes request request') :
    draft.Commutes request' request :=
  ⟨h.second, h.first, h.draft_eq.symm⟩

theorem commutes_of_idle {p : Draft → Prop} {request request' : Request} (h : Idle p request')
    (hdraft : p draft) (hattempt : p (draft.attempt request)) : draft.Commutes request request' := by
  have hsame : (draft.handle request').1 = ((draft.attempt request).handle request').1 := by
    rw [fst_handle, fst_handle]
    rcases h with ⟨failure, h⟩ | h
    · rw [h _ hdraft, h _ hattempt]
    · rw [h _ hdraft, h _ hattempt]
      rfl
  have hidle : ∀ draft, p draft → draft.attempt request' = draft := by
    intro draft hdraft
    rcases h with ⟨failure, h⟩ | h
    · exact attempt_of_error (h draft hdraft)
    · exact attempt_of_ok (h draft hdraft)
  refine ⟨by rw [hidle _ hdraft], hsame, ?_⟩
  rw [attempts, attempts, List.foldl_cons, List.foldl_cons, List.foldl_cons, List.foldl_cons,
    hidle _ hdraft, hidle _ hattempt]

section

variable {filters : List Filter} {search : Option Search} {words : Bool} (hdraft : draft.Sound)
  (hwellFormed : WellFormed draft.text) (hline : ∀ t ∈ lex draft.text, t.isLineComment = false)
include hdraft hwellFormed hline

/-- The draft with a condition and sort keys. -/
theorem Sound.sorted_extended {text : Text} (htext : draft.sortKeysText keys entity = .ok text)
    {addition : Addition} {condition : String}
    (hgenerate : draft.generate filters search words = .ok addition)
    (hcondition : addition.text? = some condition) :
    (draft.extended addition condition).sorted text =
      (draft.sorted text).extended addition condition := by
  have hcomm := addSortKeys_addCondition hwellFormed hline
    ((hdraft.generate hgenerate).isCondition hcondition) (hdraft.isSortKeys htext)
  rw [Draft.sorted, Draft.sorted, Draft.extended, Draft.extended]
  simp only [hcomm]

theorem Sound.commutes
    (hsegments : keys ≠ [] → ∀ columns, draft.sortedColumns keys entity = .ok columns →
      ∀ column ∈ columns, ∀ w ∈ Identifier.segments column.toList, isSetOperator w = false) :
    draft.Commutes (.conditions filters search words) (.sortKeys keys entity) := by
  rcases sortKeys_cases draft.settings keys entity with
    hidle | ⟨hkeys, text, hsorted⟩
  · exact commutes_of_idle hidle rfl (draft.settings_attempt _)
  obtain ⟨htext, hsort⟩ := hsorted draft rfl
  have hattempt := attempt_of_ok hsort
  rcases draft.conditions_cases filters search words with
    hidle | ⟨addition, condition, hgenerate, hcondition, hadded⟩
  · have hself : draft.SameButText draft := rfl
    refine (commutes_of_idle hidle hself ?_).symm
    rw [hattempt]
    rfl
  have hfirst := hadded draft rfl
  have hsecond := hadded (draft.sorted text) rfl
  have hcompound : isCompound (draft.sorted text).text = isCompound draft.text :=
    isCompound_addSortKeys hwellFormed hline (hdraft.isSortKeys htext)
      (hdraft.isSetOperator_sortKeysText htext (hsegments hkeys))
  rw [hcompound] at hsecond
  cases hc : isCompound draft.text with
  | true =>
    -- Nothing is added to a compound statement, with sort keys or without.
    rw [hc, if_pos rfl] at hfirst hsecond
    refine (@commutes_of_idle draft (fun draft' => draft'.grant (.conditions filters search words) =
      .error (.query .compound)) _ _ (.inl ⟨_, fun _ h => h⟩) hfirst ?_).symm
    rw [hattempt]
    exact hsecond
  | false =>
    rw [hc, if_neg Bool.false_ne_true] at hfirst hsecond
    have hsort' := (hsorted (draft.extended addition condition) rfl).2
    refine ⟨?_, ?_, ?_⟩
    · rw [hattempt, handle_of_ok hfirst, handle_of_ok hsecond]
    · rw [attempt_of_ok hfirst, handle_of_ok hsort, handle_of_ok hsort']
    · rw [attempts, attempts, List.foldl_cons, List.foldl_cons, List.foldl_cons, List.foldl_cons,
        attempt_of_ok hfirst, hattempt, attempt_of_ok hsort', attempt_of_ok hsecond]
      exact hdraft.sorted_extended hwellFormed hline htext hgenerate hcondition

end

/-- Conditions and sort keys may be added to a statement in either order: each request succeeds or
fails as in the other order, and text, values and all else are the same, if no segment of a column
that is sorted by is spelled like a word that combines SELECTs. -/
theorem attempts_comm {settings : Settings} {entity : String} {kind : QueryKind} {skeleton : Text}
    {filters : List Filter} {search : Option Search} {words : Bool} {keys : List SortKey}
    {keysEntity : String} (hsettings : settings.check = .ok ()) (hskeleton : WellFormed skeleton)
    (hline : ∀ t ∈ lex skeleton, t.isLineComment = false)
    (hsegments : keys ≠ [] → ∀ columns,
      (start settings entity kind skeleton).sortedColumns keys keysEntity = .ok columns →
        ∀ column ∈ columns, ∀ w ∈ Identifier.segments column.toList, isSetOperator w = false) :
    let bare := start settings entity kind skeleton
    let conditions := Request.conditions filters search words
    let sortKeys := Request.sortKeys keys keysEntity
    (bare.handle conditions).1 = ((bare.attempt sortKeys).handle conditions).1 ∧
      (bare.handle sortKeys).1 = ((bare.attempt conditions).handle sortKeys).1 ∧
      bare.attempts [conditions, sortKeys] = bare.attempts [sortKeys, conditions] := by
  intro bare conditions sortKeys
  obtain ⟨hfirst, hsecond, hdraft⟩ :=
    (sound_start hsettings entity kind skeleton).commutes hskeleton hline hsegments
  exact ⟨hfirst, hsecond, hdraft⟩

def orderedSelect : Text :=
  "SELECT i.* FROM items i WHERE i.a = 1 OR i.b = '(' GROUP BY i.c ORDER BY i.c LIMIT 5".toList

theorem attempts_comm_orderedSelect :
    (itemSettings.check = .ok () ∧ WellFormed orderedSelect ∧
      (∀ t ∈ lex orderedSelect, t.isLineComment = false) ∧
      (start itemSettings "Item" .native orderedSelect).sortedColumns
        [⟨"Item", "name", .desc⟩] "Item" = .ok ["i.name", "i.id"] ∧
      ∀ column ∈ ["i.name", "i.id"], ∀ w ∈ Identifier.segments column.toList,
        isSetOperator w = false) ∧
    ∃ draft, String.ofList draft.text =
        "SELECT i.* FROM items i WHERE (i.a = 1 OR i.b = '(') AND (i.owner = :p1) GROUP BY i.c " ++
          "ORDER BY i.c, i.name DESC, i.id ASC LIMIT 5" ∧
      (start itemSettings "Item" .native orderedSelect).attempts
          [.conditions [.eq "Item" "owner" (.int 7)] none false,
            .sortKeys [⟨"Item", "name", .desc⟩] "Item"] = draft ∧
      (start itemSettings "Item" .native orderedSelect).attempts
          [.sortKeys [⟨"Item", "name", .desc⟩] "Item",
            .conditions [.eq "Item" "owner" (.int 7)] none false] = draft := by
  have hsettings : itemSettings.check = .ok () := rfl
  have hskeleton : WellFormed orderedSelect := ⟨by decide +kernel, by decide +kernel⟩
  have hline : ∀ t ∈ lex orderedSelect, t.isLineComment = false := by decide +kernel
  have hcolumns : (start itemSettings "Item" .native orderedSelect).sortedColumns
      [⟨"Item", "name", .desc⟩] "Item" = .ok ["i.name", "i.id"] := rfl
  have hsegments : ∀ column ∈ ["i.name", "i.id"], ∀ w ∈ Identifier.segments column.toList,
      isSetOperator w = false := by
    decide +kernel
  obtain ⟨-, -, hdraft⟩ := @attempts_comm itemSettings "Item" .native orderedSelect
    [.eq "Item" "owner" (.int 7)] none false [⟨"Item", "name", .desc⟩] "Item" hsettings hskeleton hline
    (by
      intro _ columns h
      rw [hcolumns] at h
      cases h
      exact hsegments)
  refine ⟨⟨hsettings, hskeleton, hline, hcolumns, hsegments⟩, _, ?_, hdraft, rfl⟩
  decide +kernel

end Draft

end QueryClauses
