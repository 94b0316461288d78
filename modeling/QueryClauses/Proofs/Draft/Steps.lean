import QueryClauses.Proofs.Draft.Commutation
import QueryClauses.Proofs.Draft.Freshness

/-!
# What a request does

A request that is made of a draft leaves it as it was, or adds the condition of an addition, or adds
the text of sort keys (`Step`). What no such step breaks holds behind any requests, failing ones
among them (`attempts_induction`).
-/

namespace QueryClauses

open Sql

namespace Draft

variable {draft next : Draft} {request : Request}

/-- What a request may make of a draft. -/
inductive Step (draft : Draft) : Request → Draft → Prop
  | idle {request : Request} : Step draft request draft
  | condition {filters : List Filter} {search : Option Search} {words : Bool} {addition : Addition}
      {condition : String} (generated : draft.generate filters search words = .ok addition)
      (text : addition.text? = some condition) :
      Step draft (.conditions filters search words) (draft.extended addition condition)
  | sortKeys {keys : List SortKey} {entity : String} {text : Text} (given : keys ≠ [])
      (written : draft.sortKeysText keys entity = .ok text) :
      Step draft (.sortKeys keys entity) (draft.sorted text)

theorem step_of_grant (h : draft.grant request = .ok next) : draft.Step request next := by
  cases request with
  | conditions filters search words =>
    obtain ⟨addition, hgenerate, ⟨-, rfl⟩ | ⟨condition, htext, -, rfl⟩⟩ := addConditions_eq_ok h
    · exact .idle
    · exact .condition hgenerate htext
  | sortKeys keys entity =>
    by_cases hkeys : keys = []
    · obtain ⟨idColumn, -, ⟨-, rfl⟩ | ⟨hne, -⟩⟩ := addSortKeys_eq_ok h
      · exact .idle
      · exact absurd hkeys hne
    · obtain ⟨text, htext, rfl⟩ := exists_sortKeysText h hkeys
      exact .sortKeys hkeys htext

/-- A request that fails is idle. -/
theorem step_attempt (draft : Draft) (request : Request) :
    draft.Step request (draft.attempt request) := by
  cases h : draft.grant request with
  | error failure =>
    rw [attempt_of_error h]
    exact .idle
  | ok next =>
    rw [attempt_of_ok h]
    exact step_of_grant h

theorem Step.settings_eq (h : draft.Step request next) : next.settings = draft.settings := by
  cases h <;> rfl

theorem Step.sound (h : draft.Step request next) (hdraft : draft.Sound) : next.Sound := by
  cases h with
  | idle => exact hdraft
  | condition hgenerate htext =>
    have haddition := hdraft.generate hgenerate
    exact ⟨hdraft.settings, haddition.filterStem, haddition.searchStem⟩
  | sortKeys hkeys htext => exact ⟨hdraft.settings, hdraft.filterStem, hdraft.searchStem⟩

/-- What every step keeps holds behind any requests. -/
theorem attempts_induction {p : Draft → Prop}
    (hstep : ∀ {draft request next}, draft.Step request next → p draft → p next)
    (hdraft : p draft) (requests : List Request) : p (draft.attempts requests) := by
  induction requests generalizing draft with
  | nil => exact hdraft
  | cons request requests ih =>
    rw [attempts, List.foldl_cons]
    exact ih (hstep (step_attempt draft request) hdraft)

theorem settings_attempts (draft : Draft) (requests : List Request) :
    (draft.attempts requests).settings = draft.settings :=
  attempts_induction (p := fun next => next.settings = draft.settings)
    (fun hstep h => hstep.settings_eq.trans h) rfl requests

theorem kind_attempts (draft : Draft) (requests : List Request) :
    (draft.attempts requests).kind = draft.kind :=
  attempts_induction (p := fun next => next.kind = draft.kind)
    (fun hstep h => by cases hstep <;> exact h) rfl requests

end Draft

end QueryClauses
