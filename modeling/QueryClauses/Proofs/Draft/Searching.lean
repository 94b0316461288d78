import QueryClauses.Proofs.Condition.Alternatives
import QueryClauses.Proofs.Draft.Steps

/-!
# What a request for a search adds

Behind any requests, a request for a search adds the comparisons of every column that is left with
every term, as many for each pair as words are searched, and binds each pattern under the name that
stands in its comparison (`alternatives_addConditions`).
-/

namespace QueryClauses

theorem Search.eq_nil_of_all_isEmpty {search : Option Search}
    (h : search.all Search.isEmpty = true) :
    search.elim [] Search.terms = [] ∨ search.elim [] Search.fieldList = [] := by
  cases search with
  | none => exact .inl rfl
  | some search => simpa [Search.isEmpty_eq] using h

namespace Draft

variable {draft : Draft}

/-- The condition of a search is that of the searched columns and the terms. -/
theorem searchCondition_eq {filtered : List String} {filters : List Filter}
    {search : Option Search} {words : Bool} {r : Condition × NameSupply}
    (hfiltered : ∀ column, column ∈ filtered ↔ column ∈
      draft.settings.catalog.columnsOf (Filter.fieldList (Filter.operands filters)))
    (h : draft.searchCondition filtered search words = .ok r) :
    r = Search.condition draft.settings.escape (draft.settings.searchesWords draft.entity words)
      (searchedColumns draft.settings.catalog filters search) (search.elim [] Search.terms)
      draft.searchSupply := by
  rcases searchCondition_eq_ok h with ⟨hempty, rfl⟩ | ⟨s, found, rfl, hfound, rfl⟩
  · refine (Search.condition_eq_empty ?_).symm
    rcases Search.eq_nil_of_all_isEmpty hempty with hterms | hfields
    · exact .inr hterms
    · refine .inl ?_
      simp [searchedColumns, hfields, Catalog.columnsOf]
  · rw [Search.filter_columns_eq hfound hfiltered]
    rfl

/-- Of a search with terms each field is looked up. -/
theorem exists_column_of_searchCondition {filtered : List String} {search : Option Search}
    {words : Bool} {r : Condition × NameSupply}
    (h : draft.searchCondition filtered search words = .ok r)
    (hterms : search.elim [] Search.terms ≠ []) :
    ∀ p ∈ search.elim [] Search.fieldList,
      ∃ column, draft.settings.catalog.column p.1 p.2 = .ok column := by
  intro p hp
  rcases searchCondition_eq_ok h with ⟨hempty, -⟩ | ⟨s, found, rfl, hfound, -⟩
  · rcases Search.eq_nil_of_all_isEmpty hempty with hnone | hnone
    · exact absurd hnone hterms
    · rw [hnone] at hp
      cases hp
  · obtain ⟨cs, hcs, -⟩ := Search.columns_eq_ok hfound
    exact exists_of_mapM_eq_ok hcs p hp

theorem entity_attempts (draft : Draft) (requests : List Request) :
    (draft.attempts requests).entity = draft.entity :=
  attempts_induction (p := fun next => next.entity = draft.entity)
    (fun hstep h => by cases hstep <;> exact h) rfl requests

/-- A value that comes in with an addition is bound to its name. -/
theorem Bound.getElem?_extended {ps ss : List String} {addition : Addition}
    (h : draft.Bound ps ss)
    (hfilters : draft.filterSupply.Draws addition.filtered.names addition.filterSupply)
    (hsearch : draft.searchSupply.Draws addition.searched.names addition.searchSupply)
    (condition : String) {p : String × Value} (hp : p ∈ addition.bindings) :
    (draft.extended addition condition).bindings[p.1]? = some p.2 := by
  have hpairs := List.pairwise_map.1 (h.nodup_names hfilters hsearch).1
  refine Std.TreeMap.getElem?_insertMany_list_of_mem Std.compare_self ?_ hp
  exact hpairs.imp fun hne heq => hne (Std.compare_eq_iff_eq.1 heq)

theorem Addition.isSome_text? {addition : Addition} (h : addition.searched.isEmpty = false) :
    addition.text?.isSome = true := by
  unfold Addition.text?
  cases hfiltered : addition.filtered.isEmpty <;> simp [hfiltered, h]

/-- The clauses of an addition, each in parentheses. -/
theorem Addition.text?_eq (addition : Addition) : addition.text? =
    let clauses := ([addition.filtered.text, addition.searched.text].filter (· ≠ "")).map
      fun clause => "(" ++ clause ++ ")"
    if clauses = [] then none else some (" AND ".intercalate clauses) := by
  have hisEmpty (c : Condition) : c.isEmpty = decide (c.text = "") := by
    rw [Condition.isEmpty, Bool.eq_iff_iff, String.isEmpty_iff, decide_eq_true_iff]
  unfold Addition.text?
  by_cases hfiltered : addition.filtered.text = "" <;>
    by_cases hsearched : addition.searched.text = "" <;> simp [hisEmpty, hfiltered, hsearched]

/-- What a request for conditions that succeeds makes of its search. -/
theorem Bound.alternatives {ps ss : List String} (hbound : draft.Bound ps ss)
    {filters : List Filter} {search : Option Search} {words : Bool} {next : Draft}
    (h : draft.addConditions filters search words = .ok next) :
    let columns := searchedColumns draft.settings.catalog filters search
    let terms := search.elim [] Search.terms
    let kinds := Search.kinds (draft.settings.searchesWords draft.entity words)
    ∃ addition, draft.generate filters search words = .ok addition ∧
      next = addition.text?.elim draft (draft.extended addition) ∧
      (terms ≠ [] → ∀ p ∈ search.elim [] Search.fieldList,
        ∃ column, draft.settings.catalog.column p.1 p.2 = .ok column) ∧
      (addition.searched.isEmpty = true ↔ columns = [] ∨ terms = []) ∧
      ∃ texts, addition.searched.text = " OR ".intercalate texts ∧
        next.searchSupply.count = draft.searchSupply.count + texts.length ∧
        Search.Alternatives draft.settings.escape columns terms kinds draft.searchSupply.count
          (fun name v => next.bindings[name]? = some v) texts := by
  intro columns terms kinds
  obtain ⟨addition, hgenerate, hnext⟩ := addConditions_eq_ok h
  obtain ⟨hfiltered, hsearched⟩ := generate_eq_ok hgenerate
  obtain ⟨hfilters, hsearch⟩ := draws_generate hgenerate
  have hstem : draft.searchSupply.stem = "s" := by
    rw [hbound.search.rest_eq, NameSupply.draw_eq]
    rfl
  have hfound := exists_column_of_searchCondition hsearched
  have hcondition := searchCondition_eq
    (fun column => Condition.mem_columns_ofFilters hfiltered) hsearched
  obtain ⟨texts, htext, halternatives⟩ := Search.alternatives_condition draft.settings.escape
    (draft.settings.searchesWords draft.entity words) columns terms hstem
  have hempty := @Search.isEmpty_condition_iff draft.settings.escape
    (draft.settings.searchesWords draft.entity words) columns terms draft.searchSupply
  have hlength := Search.length_names_condition draft.settings.escape
    (draft.settings.searchesWords draft.entity words) columns terms draft.searchSupply
  rw [← hcondition] at htext halternatives hempty hlength
  rcases hnext with ⟨hnone, rfl⟩ | ⟨condition, hsome, -, rfl⟩
  · -- No condition, and so no search.
    have hsearchedEmpty : addition.searched.isEmpty = true := by
      by_contra hsearched
      have hsome := addition.isSome_text? (Bool.eq_false_of_not_eq_true hsearched)
      rw [hnone] at hsome
      cases hsome
    rw [Search.condition_eq_empty (hempty.1 hsearchedEmpty)] at hcondition
    obtain ⟨hsearched, -⟩ := Prod.mk.inj hcondition
    have hnames : addition.searched.names = [] := by
      rw [hsearched]
      rfl
    refine ⟨addition, hgenerate, by rw [hnone]; rfl, hfound, hempty, texts, htext, ?_,
      halternatives.mono ?_⟩
    · rw [halternatives.length_eq, ← hlength, hnames]
      rfl
    · intro name v hv
      rw [hsearched] at hv
      cases hv
  · refine ⟨addition, hgenerate, by rw [hsome]; rfl, hfound, hempty, texts, htext, ?_,
      halternatives.mono ?_⟩
    · rw [halternatives.length_eq, ← hlength]
      exact hsearch.count_eq
    · intro name v hv
      exact hbound.getElem?_extended hfilters hsearch condition (List.mem_append_right _ hv)

/-- Of a request for conditions that succeeds, behind any others. The clauses of its filters and of
its search, as far as there are any, are added in parentheses and joined by AND. The columns of the
search that none of the filters compares are compared with every term, once or, if words are searched
over the entity, twice. Each comparison stands where the numbers of its column, of its term and of
its kind say, under the name of that number, which is bound to the pattern for the term. There is no
such comparison exactly if no column is left or there is no term. -/
theorem alternatives_addConditions (settings : Settings) (entity : String) (kind : QueryKind)
    (skeleton : Text) (requests : List Request) {filters : List Filter} {search : Option Search}
    {words : Bool} {next : Draft}
    (h : ((start settings entity kind skeleton).attempts requests).addConditions filters search
      words = .ok next) :
    let draft := (start settings entity kind skeleton).attempts requests
    let columns := searchedColumns settings.catalog filters search
    let terms := search.elim [] Search.terms
    let kinds := if words = true ∧ entity ∉ settings.wordSearchExclusions then 2 else 1
    ∃ addition clauses, draft.generate filters search words = .ok addition ∧
      clauses = ([addition.filtered.text, addition.searched.text].filter (· ≠ "")).map
        (fun clause => "(" ++ clause ++ ")") ∧
      (clauses = [] ∧ next = draft ∨ clauses ≠ [] ∧ next = { draft with
        text := Sql.addCondition (" AND ".intercalate clauses).toList draft.text
        bindings := draft.bindings.insertMany addition.bindings
        filterSupply := addition.filterSupply
        searchSupply := addition.searchSupply
        changed := true }) ∧
      (terms ≠ [] → ∀ p ∈ search.elim [] Search.fieldList,
        ∃ column, settings.catalog.column p.1 p.2 = .ok column) ∧
      (addition.searched.isEmpty = true ↔ columns = [] ∨ terms = []) ∧
      ∃ texts, addition.searched.text = " OR ".intercalate texts ∧
        next.searchSupply.count = draft.searchSupply.count + texts.length ∧
        Search.Alternatives settings.escape columns terms kinds draft.searchSupply.count
          (fun name v => next.bindings[name]? = some v) texts := by
  intro draft columns terms kinds
  obtain ⟨⟨ps, ss, hbound⟩, -⟩ := (bound_start settings entity kind skeleton).attempts requests
  have hsettings : draft.settings = settings := settings_attempts _ requests
  have hentity : draft.entity = entity := entity_attempts _ requests
  have hkinds : Search.kinds (settings.searchesWords entity words) = kinds := by
    simp [Search.kinds, Settings.searchesWords, kinds, ← Std.TreeSet.contains_iff_mem]
  have halternatives := hbound.alternatives h
  rw [hsettings, hentity, hkinds] at halternatives
  obtain ⟨addition, hgenerate, hnext, hrest⟩ := halternatives
  refine ⟨addition, _, hgenerate, rfl, ?_, hrest⟩
  rw [addition.text?_eq] at hnext
  dsimp only at hnext
  split at hnext
  · rename_i hnone
    exact .inl ⟨hnone, hnext⟩
  · rename_i hsome
    exact .inr ⟨hsome, hnext⟩

/-- A search for two terms in three fields. -/
def townSearch : Search :=
  Search.addFields { terms := ["ab", "c"] } "Item" ["name", "tenant", "city"]

/-- One of three fields is compared by a filter. The other two are compared with two terms in two
ways, behind an earlier comparison: the second field with the second term in the second way last of
eight. -/
theorem alternatives_addConditions_townSearch :
    searchedColumns itemSettings.catalog [.eq "Item" "tenant" (.text "a")] (some townSearch) =
        ["i.city", "i.name"] ∧
      ∃ (next : Draft) (addition : Addition) (texts : List String),
        ((start itemSettings "Item" .native "SELECT i.* FROM items i".toList).attempts
            [.conditions [] (some (Search.addFields { terms := ["d"] } "Item" ["name"])) false]
          ).addConditions [.eq "Item" "tenant" (.text "a")] (some townSearch) true = .ok next ∧
        addition.searched.text = " OR ".intercalate texts ∧ texts.length = 8 ∧
        texts[7]? = some "i.name LIKE :s9 ESCAPE '§'" ∧
        next.bindings["s9"]? = some (.text "% c%") := by
  have hcolumns : searchedColumns itemSettings.catalog [.eq "Item" "tenant" (.text "a")]
      (some townSearch) = ["i.city", "i.name"] := by
    refine Eq.trans ?_ ((List.toFinset_sort (l := ["i.city", "i.name"]) (· ≤ ·) (by decide)).2 ?_)
    · rw [searchedColumns]
      congr 1
    · decide
  obtain ⟨next, hnext⟩ := @exists_eq_ok _ _ (((start itemSettings "Item" .native
    "SELECT i.* FROM items i".toList).attempts
      [.conditions [] (some (Search.addFields { terms := ["d"] } "Item" ["name"])) false]
      ).addConditions [.eq "Item" "tenant" (.text "a")] (some townSearch) true) (by decide +kernel)
  obtain ⟨addition, -, -, -, -, -, -, texts, htext, -, halternatives⟩ :=
    alternatives_addConditions itemSettings "Item" .native "SELECT i.* FROM items i".toList _ hnext
  have hkinds : (if true = true ∧ "Item" ∉ itemSettings.wordSearchExclusions then 2 else 1) = 2 :=
    if_pos ⟨rfl, Std.TreeSet.not_mem_emptyc⟩
  have hcount : ((start itemSettings "Item" .native "SELECT i.* FROM items i".toList).attempts
      [.conditions [] (some (Search.addFields { terms := ["d"] } "Item" ["name"])) false]
      ).searchSupply.count = 1 := by
    decide +kernel
  rw [hcolumns, hkinds, hcount] at halternatives
  obtain ⟨hlast, hbound⟩ := halternatives.getElem?_eq 1 (by decide) 1 (by decide) 1 (by decide)
  exact ⟨hcolumns, next, addition, texts, hnext, htext, halternatives.length_eq, hlast, hbound⟩

end Draft

end QueryClauses
