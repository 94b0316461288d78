import QueryClauses.Proofs.Draft.Names

/-!
# Drafts behind requests that may fail

Whatever is asked of a draft, its values are bound to the names that its supplies have handed out,
to each of them once, so that no request replaces a value (`Bound.grant`). Requests that fail can
be left out: neither the draft nor what becomes of the others shows that they were made
(`run_granted`, `outcomes_granted`). Main statement: `numbered_attempts`.
-/

namespace QueryClauses

namespace Draft

variable {draft next : Draft} {request : Request} {requests : List Request}

/-! ## What is bound -/

/-- The values of a draft are bound to the names that were handed out, `ps` for conditions and `ss`
for searches, one value to each. -/
structure Bound (draft : Draft) (ps ss : List String) : Prop where
  filters : NameSupply.forFilters.Draws ps draft.filterSupply
  search : NameSupply.forSearch.Draws ss draft.searchSupply
  mem_iff : ∀ name, name ∈ draft.bindings ↔ name ∈ ps ∨ name ∈ ss
  size : draft.bindings.size = ps.length + ss.length

/-- What is bound is p1, p2, ... and s1, s2, ..., as far as names have been handed out. -/
theorem Bound.mem_bindings_iff {ps ss : List String} (h : draft.Bound ps ss) (name : String) :
    name ∈ draft.bindings ↔
      (∃ k, 1 ≤ k ∧ k ≤ draft.filterSupply.count ∧ name = "p" ++ toString k) ∨
        ∃ k, 1 ≤ k ∧ k ≤ draft.searchSupply.count ∧ name = "s" ++ toString k := by
  rw [h.mem_iff, h.filters.mem_iff, h.search.mem_iff]
  rfl

/-- Every value of a draft is bound to the same name in another one. -/
def Keeps (draft next : Draft) : Prop :=
  ∀ (name : String) (v : Value), draft.bindings[name]? = some v → next.bindings[name]? = some v

theorem Keeps.refl (draft : Draft) : draft.Keeps draft := fun _ _ h => h

theorem Keeps.trans {last : Draft} (h : draft.Keeps next) (h' : next.Keeps last) :
    draft.Keeps last :=
  fun name v hv => h' name v (h name v hv)

theorem bound_start (settings : Settings) (entity : String) (kind : QueryKind) (text : Text) :
    (start settings entity kind text).Bound [] [] := by
  refine ⟨NameSupply.draws_nil _, NameSupply.draws_nil _, ?_, rfl⟩
  intro name
  simp [start]

theorem mem_bindings_extended {addition : Addition} {condition name : String} :
    name ∈ (draft.extended addition condition).bindings ↔
      name ∈ draft.bindings ∨ name ∈ addition.names :=
  Std.TreeMap.mem_insertMany_list.trans (or_congr_right List.contains_iff_mem)

section Extended

variable {ps ss : List String} {addition : Addition} (h : draft.Bound ps ss)
  (hfilters : draft.filterSupply.Draws addition.filtered.names addition.filterSupply)
  (hsearch : draft.searchSupply.Draws addition.searched.names addition.searchSupply)
include h hfilters hsearch

/-- The names of an addition are new and differ from one another. -/
theorem Bound.nodup_names : addition.names.Nodup ∧ ∀ name ∈ draft.bindings,
    name ∉ addition.names := by
  have hps := h.filters.append hfilters
  have hss := h.search.append hsearch
  have hapart := NameSupply.disjoint_forFilters_forSearch hps hss
  have hnames : addition.names = addition.filtered.names ++ addition.searched.names :=
    List.map_append
  rw [hnames]
  constructor
  · refine List.nodup_append'.2 ⟨hfilters.nodup, hsearch.nodup, ?_⟩
    exact fun name hp hs => hapart (List.mem_append_right _ hp) (List.mem_append_right _ hs)
  · intro name hname hnew
    rcases (h.mem_iff name).1 hname with hold | hold <;> rcases List.mem_append.1 hnew with hnew | hnew
    · exact (List.nodup_append'.1 hps.nodup).2.2 hold hnew
    · exact hapart (List.mem_append_left _ hold) (List.mem_append_right _ hnew)
    · exact hapart (List.mem_append_right _ hnew) (List.mem_append_left _ hold)
    · exact (List.nodup_append'.1 hss.nodup).2.2 hold hnew

theorem Bound.extended (condition : String) : (draft.extended addition condition).Bound
    (ps ++ addition.filtered.names) (ss ++ addition.searched.names) := by
  obtain ⟨hnodup, hnew⟩ := h.nodup_names hfilters hsearch
  have hlength : addition.bindings.length =
      addition.filtered.names.length + addition.searched.names.length := by
    simp [Addition.bindings, Condition.names]
  refine ⟨h.filters.append hfilters, h.search.append hsearch, ?_, ?_⟩
  · intro name
    have hnames : addition.names = addition.filtered.names ++ addition.searched.names :=
      List.map_append
    rw [mem_bindings_extended, h.mem_iff, hnames]
    simp only [List.mem_append]
    tauto
  · have hpairs := List.pairwise_map.1 hnodup
    have hsize : (draft.extended addition condition).bindings.size =
        draft.bindings.size + addition.bindings.length := by
      refine Std.TreeMap.size_insertMany_list ?_ ?_
      · exact hpairs.imp fun hne heq => hne (Std.compare_eq_iff_eq.1 heq)
      · intro name hname
        rw [← Bool.not_eq_true, List.contains_iff_mem]
        exact hnew name hname
    rw [hsize, h.size, hlength, List.length_append, List.length_append]
    omega

theorem Bound.keeps_extended (condition : String) :
    draft.Keeps (draft.extended addition condition) := by
  intro name v hv
  have hmem : name ∈ draft.bindings := Std.TreeMap.mem_iff_isSome_getElem?.2 (by rw [hv]; rfl)
  refine Eq.trans (Std.TreeMap.getElem?_insertMany_list_of_contains_eq_false ?_) hv
  rw [← Bool.not_eq_true, List.contains_iff_mem]
  exact (h.nodup_names hfilters hsearch).2 name hmem

end Extended

/-- What is bound behind a request that succeeds. -/
theorem Bound.grant {ps ss : List String} (h : draft.Bound ps ss)
    (hrequest : draft.grant request = .ok next) :
    (∃ ps' ss', next.Bound ps' ss') ∧ draft.Keeps next := by
  cases request with
  | conditions filters search words =>
    obtain ⟨addition, hgenerate, ⟨-, rfl⟩ | ⟨condition, -, -, rfl⟩⟩ := addConditions_eq_ok hrequest
    · exact ⟨⟨ps, ss, h⟩, .refl _⟩
    · obtain ⟨hfilters, hsearch⟩ := draws_generate hgenerate
      exact ⟨⟨_, _, h.extended hfilters hsearch condition⟩,
        h.keeps_extended hfilters hsearch condition⟩
  | sortKeys keys entity =>
    obtain ⟨idColumn, -, ⟨-, rfl⟩ | ⟨-, columns, -, rfl⟩⟩ := addSortKeys_eq_ok hrequest
    · exact ⟨⟨ps, ss, h⟩, .refl _⟩
    · exact ⟨⟨ps, ss, h.filters, h.search, h.mem_iff, h.size⟩, .refl _⟩

/-! ## Requests that fail -/

theorem Bound.attempts {ps ss : List String} (h : draft.Bound ps ss) (requests : List Request) :
    (∃ ps' ss', (draft.attempts requests).Bound ps' ss') ∧
      draft.Keeps (draft.attempts requests) := by
  induction requests generalizing draft ps ss with
  | nil => exact ⟨⟨ps, ss, h⟩, .refl _⟩
  | cons request requests ih =>
    rw [Draft.attempts, List.foldl_cons]
    cases hrequest : draft.grant request with
    | error failure =>
      rw [attempt_of_error hrequest]
      exact ih h
    | ok next =>
      rw [attempt_of_ok hrequest]
      obtain ⟨⟨ps', ss', hnext⟩, hkeeps⟩ := h.grant hrequest
      exact ⟨(ih hnext).1, hkeeps.trans (ih hnext).2⟩

/-- What becomes of requests, each made of the draft behind those before it, and that draft. -/
def outcomes (draft : Draft) : List Request → List (Except Failure Unit × Draft)
  | [] => []
  | request :: requests => draft.handle request :: (draft.attempt request).outcomes requests

/-- The requests that do not fail. -/
def granted (draft : Draft) (requests : List Request) : List Request :=
  ((requests.zip (draft.outcomes requests)).filter (·.2.1.isOk)).map (·.1)

theorem granted_cons_of_ok (h : draft.grant request = .ok next) :
    draft.granted (request :: requests) = request :: next.granted requests := by
  rw [granted, outcomes, attempt_of_ok h, handle_of_ok h]
  rfl

theorem granted_cons_of_error {failure : Failure} (h : draft.grant request = .error failure) :
    draft.granted (request :: requests) = draft.granted requests := by
  rw [granted, outcomes, attempt_of_error h, handle_of_error h]
  rfl

/-- Without the requests that fail, none fails and the draft is the same. -/
theorem run_granted (draft : Draft) (requests : List Request) :
    draft.run (draft.granted requests) = .ok (draft.attempts requests) := by
  induction requests generalizing draft with
  | nil => rfl
  | cons request requests ih =>
    rw [attempts, List.foldl_cons]
    cases h : draft.grant request with
    | error failure =>
      rw [granted_cons_of_error h, attempt_of_error h]
      exact ih draft
    | ok next =>
      rw [granted_cons_of_ok h, attempt_of_ok h]
      exact run_cons_eq_ok.2 ⟨next, h, ih next⟩

/-- Where no request fails, the draft behind them is that of the run. -/
theorem attempts_of_run (h : draft.run requests = .ok next) : draft.attempts requests = next := by
  induction requests generalizing draft with
  | nil =>
    cases h
    rfl
  | cons request requests ih =>
    obtain ⟨between, hgrant, h⟩ := run_cons_eq_ok.1 h
    rw [attempts, List.foldl_cons, attempt_of_ok hgrant]
    exact ih h

/-- Without the requests that fail, the others have the outcomes that they had. -/
theorem outcomes_granted (draft : Draft) (requests : List Request) :
    draft.outcomes (draft.granted requests) = (draft.outcomes requests).filter (·.1.isOk) := by
  induction requests generalizing draft with
  | nil => rfl
  | cons request requests ih =>
    cases h : draft.grant request with
    | error failure =>
      rw [granted_cons_of_error h, outcomes, attempt_of_error h, handle_of_error h, ih]
      rfl
    | ok next =>
      rw [granted_cons_of_ok h, outcomes, outcomes, attempt_of_ok h, handle_of_ok h, ih]
      rfl

/-! ## Drafts that nothing was added to -/

theorem eq_of_grant_of_changed (h : draft.grant request = .ok next)
    (hchanged : next.changed = false) : next = draft := by
  cases request with
  | conditions filters search words =>
    obtain ⟨addition, -, ⟨-, rfl⟩ | ⟨condition, -, -, rfl⟩⟩ := addConditions_eq_ok h
    · rfl
    · cases hchanged
  | sortKeys keys entity =>
    obtain ⟨idColumn, -, ⟨-, rfl⟩ | ⟨-, columns, -, rfl⟩⟩ := addSortKeys_eq_ok h
    · rfl
    · cases hchanged

/-- A draft that does not count as changed is the one that the requests were made of. -/
theorem attempts_eq_of_changed (hchanged : (draft.attempts requests).changed = false) :
    draft.attempts requests = draft := by
  induction requests generalizing draft with
  | nil => rfl
  | cons request requests ih =>
    rw [attempts, List.foldl_cons] at hchanged ⊢
    have hrest := ih hchanged
    rw [attempts] at hrest
    rw [hrest] at hchanged ⊢
    cases h : draft.grant request with
    | error failure => exact attempt_of_error h
    | ok next =>
      rw [attempt_of_ok h] at hchanged ⊢
      exact eq_of_grant_of_changed h hchanged

/-! ## Every sequence of requests -/

/-- Behind any requests, failing ones among them, the values are bound to p1, p2, ... and s1,
s2, ..., as far as names have been handed out, and no request to come replaces one of them. A
request that fails changes nothing, and without such requests the draft and what becomes of the
others are the same. A draft that does not count as changed is the bare statement. -/
theorem numbered_attempts (settings : Settings) (entity : String) (kind : QueryKind)
    (skeleton : Text) (requests : List Request) :
    let bare := start settings entity kind skeleton
    let draft := bare.attempts requests
    (∀ name, name ∈ draft.bindings ↔
        (∃ k, 1 ≤ k ∧ k ≤ draft.filterSupply.count ∧ name = "p" ++ toString k) ∨
          ∃ k, 1 ≤ k ∧ k ≤ draft.searchSupply.count ∧ name = "s" ++ toString k) ∧
      draft.bindings.size = draft.filterSupply.count + draft.searchSupply.count ∧
      (∀ later, draft.Keeps (draft.attempts later)) ∧
      (∀ request failure, (draft.handle request).1 = .error failure →
        (draft.handle request).2 = draft) ∧
      bare.run (bare.granted requests) = .ok draft ∧
      bare.attempts (bare.granted requests) = draft ∧
      bare.outcomes (bare.granted requests) = (bare.outcomes requests).filter (·.1.isOk) ∧
      (draft.changed = false → draft.text = skeleton ∧ draft.bindings = ∅) := by
  intro bare draft
  obtain ⟨⟨ps, ss, hbound⟩, -⟩ := (bound_start settings entity kind skeleton).attempts requests
  have hp : draft.filterSupply.count = ps.length :=
    hbound.filters.count_eq.trans (Nat.zero_add _)
  have hs : draft.searchSupply.count = ss.length :=
    hbound.search.count_eq.trans (Nat.zero_add _)
  refine ⟨hbound.mem_bindings_iff, ?_, ?_, fun request failure => eq_of_handle_of_error,
    run_granted bare requests, attempts_of_run (run_granted bare requests),
    outcomes_granted bare requests, ?_⟩
  · rw [hbound.size, hp, hs]
  · exact fun later => (hbound.attempts later).2
  · intro hchanged
    have hsame : draft = bare := attempts_eq_of_changed hchanged
    rw [hsame]
    exact ⟨rfl, rfl⟩

end Draft

end QueryClauses
