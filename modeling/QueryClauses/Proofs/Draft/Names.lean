import Mathlib.Data.List.Perm.Basic
import QueryClauses.Proofs.Condition.Names
import QueryClauses.Proofs.Draft.Conjunction

/-!
# Names across requests

Requests for conditions are made one after another, and those that fail leave the draft as it was
(`attempts`). The names of the values that come in are p1, p2, ... and s1, s2, ..., each once,
whatever the statement says (`draws_attempts`, `nodup_generatedNames`). Each value stays bound to its
name, and nothing else is bound (`getElem?_bindings_attempts`, `getElem?_bindings_of_notMem`).
-/

namespace QueryClauses

open Sql

/-- The names that the values of both conditions are bound under. -/
def Draft.Addition.names (addition : Addition) : List String := addition.bindings.map (·.1)

namespace Draft

variable {draft : Draft} {request : Request} {requests : List Request}

/-! ## Requests that may fail -/

/-- What a request adds to a draft, if it adds a condition. -/
def addition? (draft : Draft) : Request → Option Addition
  | .conditions filters search words =>
    if isCompound draft.text then none
    else (draft.generate filters search words).toOption.filter (·.text?.isSome)
  | .sortKeys .. => none

/-- What requests add to a draft, in order. -/
def additions (draft : Draft) : List Request → List Addition
  | [] => []
  | request :: requests =>
    (draft.addition? request).toList ++ additions (draft.attempt request) requests

/-- The names of the values of filters that requests add to a draft. -/
def filterNames (draft : Draft) (requests : List Request) : List String :=
  (draft.additions requests).flatMap (·.filtered.names)

/-- The names of the patterns of searches that requests add to a draft. -/
def searchNames (draft : Draft) (requests : List Request) : List String :=
  (draft.additions requests).flatMap (·.searched.names)

/-- The names of the values that requests add to a draft. -/
def generatedNames (draft : Draft) (requests : List Request) : List String :=
  (draft.additions requests).flatMap Addition.names

/-- A request adds an addition, of which `condition` is the text, to a draft. -/
structure Adds (draft : Draft) (request : Request) (addition : Addition) (condition : String) :
    Prop where
  generated : ∃ filters search words, draft.generate filters search words = .ok addition
  text : addition.text? = some condition
  addition? : draft.addition? request = some addition
  attempt : draft.attempt request = draft.extended addition condition

/-- A request for conditions adds one, or leaves the draft as it was. -/
theorem attempt_conditions (hrequest : request.isConditions = true) :
    draft.addition? request = none ∧ draft.attempt request = draft ∨
      ∃ addition condition, draft.Adds request addition condition := by
  cases request with
  | sortKeys keys entity => cases hrequest
  | conditions filters search words =>
    have hgrant := draft.addConditions_eq filters search words
    cases hgenerate : draft.generate filters search words with
    | error failure =>
      rw [hgenerate] at hgrant
      exact .inl ⟨by simp [addition?, hgenerate, Except.toOption], attempt_of_error hgrant⟩
    | ok addition =>
      have hbind : (Except.ok addition >>= draft.extend) = draft.extend addition := rfl
      rw [hgenerate, hbind] at hgrant
      unfold extend at hgrant
      cases htext : addition.text? with
      | none =>
        rw [htext] at hgrant
        exact .inl ⟨by simp [addition?, hgenerate, Except.toOption, htext], attempt_of_ok hgrant⟩
      | some condition =>
        rw [htext] at hgrant
        cases hcompound : isCompound draft.text with
        | true =>
          simp only [hcompound, if_true] at hgrant
          exact .inl ⟨by simp [addition?, hcompound], attempt_of_error hgrant⟩
        | false =>
          simp only [hcompound, Bool.false_eq_true, if_false] at hgrant
          have hadds : draft.addition? (.conditions filters search words) = some addition := by
            simp [addition?, hcompound, hgenerate, Except.toOption, htext]
          exact .inr ⟨addition, condition, ⟨_, _, _, hgenerate⟩, htext, hadds, attempt_of_ok hgrant⟩

/-! ## The names that come in -/

theorem draws_searchCondition {filtered : List String} {search : Option Search} {words : Bool}
    {c : Condition} {supply : NameSupply}
    (h : draft.searchCondition filtered search words = .ok (c, supply)) :
    draft.searchSupply.Draws c.names supply := by
  rcases searchCondition_eq_ok h with ⟨-, h⟩ | ⟨search', columns, -, -, h⟩
  · cases h
    exact NameSupply.draws_nil _
  · obtain ⟨rfl, rfl⟩ := Prod.mk.inj h
    exact Search.draws_condition _ _ _ _ _

theorem draws_generate {filters : List Filter} {search : Option Search} {words : Bool}
    {addition : Addition} (h : draft.generate filters search words = .ok addition) :
    draft.filterSupply.Draws addition.filtered.names addition.filterSupply ∧
      draft.searchSupply.Draws addition.searched.names addition.searchSupply := by
  obtain ⟨hfilters, hsearch⟩ := generate_eq_ok h
  exact ⟨Condition.draws_ofFilters hfilters, draws_searchCondition hsearch⟩

/-- Each request draws the names that come next, and one that fails draws none. -/
theorem draws_attempts (hrequests : ∀ request ∈ requests, request.isConditions = true) :
    draft.filterSupply.Draws (draft.filterNames requests)
        (draft.attempts requests).filterSupply ∧
      draft.searchSupply.Draws (draft.searchNames requests)
        (draft.attempts requests).searchSupply := by
  induction requests generalizing draft with
  | nil => exact ⟨NameSupply.draws_nil _, NameSupply.draws_nil _⟩
  | cons request requests ih =>
    have ih := @ih (draft.attempt request) fun r hr => hrequests r (List.mem_cons_of_mem _ hr)
    simp only [filterNames, searchNames, additions, List.flatMap_append] at ih ⊢
    rcases @attempt_conditions draft request (hrequests request List.mem_cons_self) with
      ⟨hnone, hsame⟩ | ⟨addition, condition, hadds⟩
    · rw [hsame] at ih
      rw [hnone, attempts, List.foldl_cons, hsame]
      exact ih
    · obtain ⟨filters, search, words, hgenerate⟩ := hadds.generated
      obtain ⟨hfilters, hsearch⟩ := draws_generate hgenerate
      rw [hadds.attempt] at ih
      rw [hadds.addition?, attempts, List.foldl_cons, hadds.attempt, Option.toList_some,
        List.flatMap_singleton, List.flatMap_singleton]
      exact ⟨hfilters.append ih.1, hsearch.append ih.2⟩

theorem generatedNames_perm (draft : Draft) (requests : List Request) :
    (draft.filterNames requests ++ draft.searchNames requests).Perm
      (draft.generatedNames requests) := by
  have hnames : Addition.names = fun addition => addition.filtered.names ++ addition.searched.names :=
    funext fun addition => List.map_append
  rw [generatedNames, hnames]
  exact List.flatMap_append_perm _ _ _

theorem mem_generatedNames {name : String} : name ∈ draft.generatedNames requests ↔
    name ∈ draft.filterNames requests ∨ name ∈ draft.searchNames requests := by
  rw [← (generatedNames_perm draft requests).mem_iff, List.mem_append]

section Start

variable {settings : Settings} {entity : String} {kind : QueryKind} {skeleton : Text}
  (hrequests : ∀ request ∈ requests, request.isConditions = true)
include hrequests

theorem exists_filterNames_eq : ∃ n,
    (start settings entity kind skeleton).filterNames requests =
      (NameSupply.forFilters.draw n).1 :=
  ⟨_, (draws_attempts hrequests).1.names_eq⟩

theorem exists_searchNames_eq : ∃ n,
    (start settings entity kind skeleton).searchNames requests =
      (NameSupply.forSearch.draw n).1 :=
  ⟨_, (draws_attempts hrequests).2.names_eq⟩

theorem toList_ne_nil_of_mem_generatedNames {name : String}
    (h : name ∈ (start settings entity kind skeleton).generatedNames requests) :
    name.toList ≠ [] := by
  obtain ⟨n, hfilter⟩ := @exists_filterNames_eq requests settings entity kind skeleton hrequests
  obtain ⟨m, hsearch⟩ := @exists_searchNames_eq requests settings entity kind skeleton hrequests
  rw [mem_generatedNames, hfilter, hsearch] at h
  rcases h with h | h
  · exact List.ne_nil_of_mem (List.mem_of_mem_head? (NameSupply.head?_of_mem_draw h rfl))
  · exact List.ne_nil_of_mem (List.mem_of_mem_head? (NameSupply.head?_of_mem_draw h rfl))

/-- No name is handed out twice. -/
theorem nodup_generatedNames :
    ((start settings entity kind skeleton).generatedNames requests).Nodup := by
  obtain ⟨hfilter, hsearch⟩ :=
    @draws_attempts (start settings entity kind skeleton) requests hrequests
  rw [← (generatedNames_perm _ requests).nodup_iff, List.nodup_append']
  exact ⟨hfilter.nodup, hsearch.nodup, NameSupply.disjoint_forFilters_forSearch hfilter hsearch⟩

end Start

/-! ## The values under the names -/

/-- A name that is not handed out keeps its value. -/
theorem getElem?_bindings_of_notMem
    (hrequests : ∀ request ∈ requests, request.isConditions = true) {name : String}
    (hname : name ∉ draft.generatedNames requests) :
    (draft.attempts requests).bindings[name]? = draft.bindings[name]? := by
  induction requests generalizing draft with
  | nil => rfl
  | cons request requests ih =>
    rw [generatedNames, additions, List.flatMap_append, List.mem_append, not_or] at hname
    rw [attempts, List.foldl_cons]
    refine (ih (fun r hr => hrequests r (List.mem_cons_of_mem _ hr)) hname.2).trans ?_
    rcases @attempt_conditions draft request (hrequests request List.mem_cons_self) with
      ⟨-, hsame⟩ | ⟨addition, condition, hadds⟩
    · rw [hsame]
    · rw [hadds.addition?, Option.toList_some, List.flatMap_singleton] at hname
      rw [hadds.attempt]
      refine Std.TreeMap.getElem?_insertMany_list_of_contains_eq_false ?_
      rw [← Bool.not_eq_true, List.contains_iff_mem]
      exact hname.1

/-- Each value is bound to its name behind the requests. -/
theorem getElem?_bindings_attempts
    (hrequests : ∀ request ∈ requests, request.isConditions = true)
    (hnodup : (draft.generatedNames requests).Nodup) {p : String × Value}
    (hp : p ∈ (draft.additions requests).flatMap Addition.bindings) :
    (draft.attempts requests).bindings[p.1]? = some p.2 := by
  induction requests generalizing draft with
  | nil => cases hp
  | cons request requests ih =>
    have hrest : ∀ request ∈ requests, request.isConditions = true := fun r hr =>
      hrequests r (List.mem_cons_of_mem _ hr)
    rw [generatedNames, additions, List.flatMap_append, List.nodup_append'] at hnodup
    obtain ⟨hfirst, hnodup, hdisjoint⟩ := hnodup
    rw [additions, List.flatMap_append, List.mem_append] at hp
    rw [attempts, List.foldl_cons]
    rcases hp with hp | hp
    · rcases @attempt_conditions draft request (hrequests request List.mem_cons_self) with
        ⟨hnone, -⟩ | ⟨addition, condition, hadds⟩
      · rw [hnone] at hp
        cases hp
      · rw [hadds.addition?, Option.toList_some, List.flatMap_singleton] at hp hfirst hdisjoint
        have hlater : p.1 ∉ (draft.attempt request).generatedNames requests :=
          hdisjoint (List.mem_map_of_mem hp)
        refine (getElem?_bindings_of_notMem hrest hlater).trans ?_
        rw [hadds.attempt]
        refine Std.TreeMap.getElem?_insertMany_list_of_mem (Std.compare_self) ?_ hp
        have hpairs := List.pairwise_map.1 hfirst
        exact hpairs.imp fun hne heq => hne (Std.compare_eq_iff_eq.1 heq)
    · exact ih hrest hnodup hp

end Draft

/-- A name is bound to its value, or else, if it is the name of a placeholder of the text, to the
constant of that name. -/
theorem Query.getElem?_bindConstants_eq (constants : Std.TreeMap String Bool) (text : Text)
    (bindings : Bindings) (name : String) :
    (bindConstants constants text bindings)[name]? = bindings[name]?.or
      (if name.toList ∈ Sql.placeholderNames text then constants[name]?.map .bool else none) := by
  unfold bindConstants
  generalize Sql.placeholderNames text = names
  induction names generalizing bindings with
  | nil => simp
  | cons other names ih =>
    rw [List.foldl_cons, ih]
    simp only [List.mem_cons]
    by_cases hname : name = String.ofList other
    · rw [hname, String.toList_ofList]
      split
      · rename_i hbound
        obtain ⟨v, hv⟩ := Option.isSome_iff_exists.1
          (Std.TreeMap.contains_eq_isSome_getElem?.symm.trans hbound)
        rw [hv]
        rfl
      · rename_i hfree
        have hnone : bindings[String.ofList other]? = none := by
          rwa [Std.TreeMap.contains_eq_isSome_getElem?, Option.not_isSome_iff_eq_none] at hfree
        cases hconstant : constants[String.ofList other]? with
        | none => simp [hnone]
        | some b => simp [hnone]
    · have hne : name.toList ≠ other := by
        intro heq
        rw [← heq, String.ofList_toList] at hname
        exact hname rfl
      simp only [hne, false_or]
      congr 1
      split
      · rfl
      · split
        · rw [Std.TreeMap.getElem?_insert, if_neg]
          exact fun heq => hname (Std.compare_eq_iff_eq.1 heq).symm
        · rfl

/-- Binding constants changes no value that is bound. -/
theorem Query.getElem?_bindConstants {constants : Std.TreeMap String Bool} {text : Text}
    {bindings : Bindings} {name : String} {v : Value} (h : bindings[name]? = some v) :
    (bindConstants constants text bindings)[name]? = some v := by
  rw [Query.getElem?_bindConstants_eq, h]
  rfl

/-- A finished query has the text of the draft, and its values; a native one has the constants that
the text refers to besides. -/
theorem Draft.finish_eq_ok {draft : Draft} {query : Query} {events : List Event}
    (h : draft.finish = .ok (query, events)) :
    query.text = draft.text ∧ query.kind = draft.kind ∧
      query.bindings =
        match draft.kind with
        | .native => Query.bindConstants draft.settings.constants draft.text draft.bindings
        | .object => draft.bindings := by
  unfold Draft.finish at h
  dsimp only at h
  split at h
  all_goals
    obtain ⟨missing, -, h⟩ := bind_eq_ok.1 h
    cases h
    exact ⟨rfl, rfl, rfl⟩

end QueryClauses
