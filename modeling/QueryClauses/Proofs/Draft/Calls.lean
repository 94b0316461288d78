import QueryClauses.Draft
import QueryClauses.Proofs.Condition.Generation

/-!
# What a call leaves behind

A call on a draft may fail at several places and changes the draft part by part, but only when
nothing can fail any more. So what comes of it can be said at once: a draft with the whole addition,
or a failure and the draft as it was (`run_addConditions`, `run_addSortKeys`). This is all that is
used of a request (`handle_eq_settled`).
-/

namespace QueryClauses

namespace Draft

variable {draft next : Draft} {call : Call Unit} {request : Request} {requests : List Request}
  {failure : Failure}

/-! ## What is added -/

/-- The values of both conditions. -/
def Addition.bindings (addition : Addition) : List (String × Value) :=
  addition.filtered.bindings ++ addition.searched.bindings

/-- The conditions of filters and of a search. -/
def generate (draft : Draft) (filters : List Filter) (search : Option Search) (words : Bool) :
    Except Failure Addition := do
  let settings := draft.settings
  (Settings.checkEscape settings.escape).mapError .settings
  let (filtered, filterSupply) :=
    Condition.ofFilters settings.catalog settings.escape draft.filterSupply filters
  let filtered ← filtered
  let (searched, searchSupply) ← draft.searchCondition filtered.columns search words
  return ⟨filtered, searched, filterSupply, searchSupply⟩

/-- The draft with an addition of which `condition` is the text. -/
def extended (draft : Draft) (addition : Addition) (condition : String) : Draft :=
  { draft with
    text := Sql.addCondition condition.toList draft.text
    bindings := draft.bindings.insertMany addition.bindings
    filterSupply := addition.filterSupply
    searchSupply := addition.searchSupply
    changed := true }

/-- The draft with an addition, if that has a text. -/
def extend (draft : Draft) (addition : Addition) : Except Failure Draft :=
  match addition.text? with
  | none => .ok draft
  | some condition =>
    if Sql.isCompound draft.text then .error (.query .compound)
    else .ok (draft.extended addition condition)

def sortText (draft : Draft) (idColumn : String) (columns : List (String × Direction)) : Text :=
  (", ".intercalate (sortKeyTexts draft.settings.sortStyle idColumn columns)).toList

/-- The draft with sort keys of which `text` is the text. -/
def sorted (draft : Draft) (text : Text) : Draft :=
  { draft with text := Sql.addSortKeys text draft.text, changed := true }

/-- The draft with sort keys, if there are any. -/
def sort (draft : Draft) (keys : List SortKey) (entity : String) : Except Failure Draft := do
  let idColumn ← draft.settings.catalog.idColumn entity
  if keys.isEmpty then return draft
  let columns ← draft.sortColumns keys
  return draft.sorted (draft.sortText idColumn columns)

/-! ## One call -/

/-- What comes of a call that changes a draft only if it succeeds, and the draft behind it. -/
def settled (draft : Draft) : Except Failure Draft → Except Failure Unit × Draft
  | .ok next => (.ok (), next)
  | .error failure => (.error failure, draft)

/-- A step that leaves the draft alone, and what follows if it succeeds. -/
theorem run_bind_eq_settled {α : Type} {x : Except Failure α} {f : α → Call Unit}
    {g : α → Except Failure Draft} (h : ∀ a, (f a).run.run draft = draft.settled (g a)) :
    (liftM x >>= f).run.run draft = draft.settled (x >>= g) := by
  cases x with
  | error failure => rfl
  | ok a => exact h a

theorem run_get_bind (f : Draft → Call Unit) (draft : Draft) :
    (get >>= f).run.run draft = (f draft).run.run draft := rfl

theorem run_extend (draft : Draft) (addition : Addition) :
    (Call.extend addition).run.run draft = draft.settled (draft.extend addition) := by
  unfold Call.extend extend
  cases addition.text? with
  | none => rfl
  | some condition =>
    dsimp only
    rw [run_get_bind]
    split
    · rfl
    · rw [extended, Addition.bindings, Std.TreeMap.insertMany_append]
      rfl

theorem run_addConditions (draft : Draft) (filters : List Filter) (search : Option Search)
    (words : Bool) : (Call.addConditions filters search words).run.run draft =
      draft.settled (draft.generate filters search words >>= draft.extend) := by
  unfold Call.addConditions generate
  rw [run_get_bind]
  dsimp only
  rw [Condition.generate_eq_ofFilters, bind_assoc]
  refine run_bind_eq_settled fun _ => ?_
  rw [bind_assoc]
  refine run_bind_eq_settled fun filtered => ?_
  rw [bind_assoc]
  exact run_bind_eq_settled fun r => run_extend draft _

theorem run_addSortKeys (draft : Draft) (keys : List SortKey) (entity : String) :
    (Call.addSortKeys keys entity).run.run draft = draft.settled (draft.sort keys entity) := by
  unfold Call.addSortKeys sort
  rw [run_get_bind]
  refine run_bind_eq_settled fun idColumn => ?_
  split
  · rfl
  · refine run_bind_eq_settled fun columns => ?_
    rfl

theorem after_eq_of_settled {x : Except Failure Draft} (h : call.run.run draft = draft.settled x) :
    draft.after call = x := by
  rw [after, h]
  cases x <;> rfl

theorem addConditions_eq (draft : Draft) (filters : List Filter) (search : Option Search)
    (words : Bool) : draft.addConditions filters search words =
      draft.generate filters search words >>= draft.extend :=
  after_eq_of_settled (run_addConditions draft filters search words)

theorem addSortKeys_eq (draft : Draft) (keys : List SortKey) (entity : String) :
    draft.addSortKeys keys entity = draft.sort keys entity :=
  after_eq_of_settled (run_addSortKeys draft keys entity)

/-! ## One request -/

/-- The draft behind a request that succeeds. -/
def grant (draft : Draft) (request : Request) : Except Failure Draft := draft.after request.call

/-- The draft behind a request, whether it succeeds or fails. -/
def attempt (draft : Draft) (request : Request) : Draft := (draft.handle request).2

theorem handle_eq_settled (draft : Draft) (request : Request) :
    draft.handle request = draft.settled (draft.grant request) := by
  cases request with
  | conditions filters search words =>
    exact (run_addConditions draft filters search words).trans
      (congrArg draft.settled (addConditions_eq draft filters search words).symm)
  | sortKeys keys entity =>
    exact (run_addSortKeys draft keys entity).trans
      (congrArg draft.settled (addSortKeys_eq draft keys entity).symm)

theorem handle_of_ok (h : draft.grant request = .ok next) :
    draft.handle request = (.ok (), next) := by
  rw [handle_eq_settled, h, settled]

theorem handle_of_error (h : draft.grant request = .error failure) :
    draft.handle request = (.error failure, draft) := by
  rw [handle_eq_settled, h, settled]

theorem attempt_of_ok (h : draft.grant request = .ok next) : draft.attempt request = next := by
  rw [attempt, handle_of_ok h]

theorem attempt_of_error (h : draft.grant request = .error failure) :
    draft.attempt request = draft := by
  rw [attempt, handle_of_error h]

/-- A request that fails leaves the draft as it was, wherever it fails. -/
theorem eq_of_handle_of_error (h : (draft.handle request).1 = .error failure) :
    (draft.handle request).2 = draft := by
  cases hgrant : draft.grant request with
  | error failure' => rw [handle_of_error hgrant]
  | ok next =>
    rw [handle_of_ok hgrant] at h
    cases h

theorem fst_handle (draft : Draft) (request : Request) :
    (draft.handle request).1 = (draft.grant request).map fun _ => () := by
  rw [handle_eq_settled]
  cases draft.grant request <;> rfl

/-! ## One request after another -/

/-- The draft behind requests, whichever of them fail. -/
def attempts (draft : Draft) (requests : List Request) : Draft := requests.foldl attempt draft

/-- The draft with what the requests ask for, up to the first that fails. -/
def run (draft : Draft) (requests : List Request) : Except Failure Draft :=
  draft.after (requests.forM Request.call)

theorem after_bind (draft : Draft) (call : Call Unit) (f : Unit → Call Unit) :
    draft.after (call >>= f) = draft.after call >>= fun next => next.after (f ()) := by
  unfold after
  rw [ExceptT.run_bind, StateT.run_bind]
  obtain ⟨_ | _, next⟩ := call.run.run draft <;> rfl

theorem run_cons_eq_ok : draft.run (request :: requests) = .ok next ↔
    ∃ between, draft.grant request = .ok between ∧ between.run requests = .ok next := by
  rw [run, List.forM_eq_forM, List.forM_cons, after_bind]
  exact bind_eq_ok

end Draft

end QueryClauses
