import QueryClauses.Proofs.Draft.Steps
import QueryClauses.Proofs.Sql.Persistence

/-!
# Constants that a statement refers to

A constant is bound under its name when a native query is finished, if the name is that of a
placeholder of the text and nothing is bound under it yet. So a constant that the statement refers
to is bound to its own value exactly if its name is none of those that were handed out and is read
as a placeholder in the end (`constant_bound_iff`). Names of constants are checked like aliases:
they may have a dollar sign, which no placeholder has, and they may be p1 or s1 (`constant_lost`).
-/

namespace QueryClauses

open Sql CharClass

/-! ## Names of constants -/

theorem Settings.isSegment_of_constant {settings : Settings} (h : settings.check = .ok ())
    {name : String} {b : Bool} (hconstant : settings.constants[name]? = some b) :
    Identifier.IsSegment name.toList := by
  obtain ⟨-, -, h⟩ := bind_eq_ok.1 h
  obtain ⟨⟨⟩, hconstants, -⟩ := bind_eq_ok.1 h
  have hmem : name ∈ settings.constants.keys :=
    Std.TreeMap.mem_keys.2 (Std.TreeMap.mem_iff_isSome_getElem?.2 (by rw [hconstant]; rfl))
  have hcheck := forM_eq_ok_iff.1 hconstants _ hmem
  unfold Settings.checkConstant at hcheck
  split at hcheck
  · rename_i halias
    exact isSegment_of_checkAlias halias
  · cases hcheck

/-- A placeholder may be named like a segment that has no dollar sign. -/
theorem isName_of_isSegment {s : Text} (h : Identifier.IsSegment s) (hdollar : '$' ∉ s) :
    IsName s := by
  cases s with
  | nil => exact h.elim
  | cons c s =>
    refine ⟨h.1, fun d hd => ?_⟩
    have hident := h.2 d hd
    have hne : d ≠ '$' := by
      rintro rfl
      exact hdollar (List.mem_cons_of_mem _ hd)
    simpa [isIdentChar, isNameChar, hne] using hident

namespace Draft

variable {draft next : Draft} {request : Request} {requests : List Request}

/-! ## Placeholders of the statement -/

/-- What stands in front of what a request adds. -/
def place (draft : Draft) : Request → Text
  | .conditions .. => (cutTail draft.text).1
  | .sortKeys .. => (cutPaging draft.text).1

/-- Whether no request puts what it adds right behind a line comment. -/
def clearOfComments (draft : Draft) : List Request → Bool
  | [] => true
  | request :: requests =>
    ((draft.attempt request).text == draft.text || !endsInLineComment (draft.place request)) &&
      clearOfComments (draft.attempt request) requests

/-- What is added leaves the placeholders of a statement, unless it comes right behind a line
comment. -/
theorem Step.subset_placeholderNames (h : draft.Step request next) (hdraft : draft.Sound)
    (hplace : endsInLineComment (draft.place request) = false) :
    placeholderNames draft.text ⊆ placeholderNames next.text := by
  cases h with
  | idle => exact List.Subset.refl _
  | condition hgenerate htext =>
    have hcondition := (hdraft.generate hgenerate).isCondition htext
    exact subset_placeholderNames_addCondition hplace fun t ht =>
      Token.isClosed_of_isTame (hcondition.tame t ht)
  | sortKeys hkeys hwritten =>
    have hsortKeys := hdraft.isSortKeys hwritten
    exact subset_placeholderNames_addSortKeys hplace fun t ht =>
      Token.isClosed_of_isTame (hsortKeys.tame t ht)

theorem Sound.subset_placeholderNames_attempts (hdraft : draft.Sound)
    (hclear : draft.clearOfComments requests = true) :
    placeholderNames draft.text ⊆ placeholderNames (draft.attempts requests).text := by
  induction requests generalizing draft with
  | nil => exact List.Subset.refl _
  | cons request requests ih =>
    rw [clearOfComments, Bool.and_eq_true, Bool.or_eq_true, beq_iff_eq, Bool.not_eq_true'] at hclear
    have hstep := step_attempt draft request
    have hfirst : placeholderNames draft.text ⊆ placeholderNames (draft.attempt request).text := by
      rcases hclear.1 with hsame | hplace
      · rw [hsame]
        exact List.Subset.refl _
      · exact hstep.subset_placeholderNames hdraft hplace
    exact List.Subset.trans hfirst (ih (hstep.sound hdraft) hclear.2)

/-! ## What a constant is bound to -/

/-- A name has been handed out to a value for a condition or for a search. -/
def HandedOut (draft : Draft) (name : String) : Prop :=
  (∃ k, 1 ≤ k ∧ k ≤ draft.filterSupply.count ∧ name = "p" ++ toString k) ∨
    ∃ k, 1 ≤ k ∧ k ≤ draft.searchSupply.count ∧ name = "s" ++ toString k

theorem getElem?_finish {query : Query} {events : List Event} (hkind : draft.kind = .native)
    (hfinish : draft.finish = .ok (query, events)) {name : String} {b : Bool}
    (hconstant : draft.settings.constants[name]? = some b) :
    query.bindings[name]? = draft.bindings[name]?.or
      (if name.toList ∈ placeholderNames draft.text then some (.bool b) else none) := by
  obtain ⟨-, -, hbindings⟩ := finish_eq_ok hfinish
  rw [hbindings, hkind]
  dsimp only
  rw [Query.getElem?_bindConstants_eq, hconstant]
  rfl

/-- A constant that the statement of a native query refers to is bound to its own value exactly if
its name has been handed out for that value, or has not been handed out and is that of a placeholder
of the finished text. Where nothing was put right behind a line comment, it is that of a placeholder
exactly if it has no dollar sign. -/
theorem constant_bound_iff {settings : Settings} {entity : String} {skeleton : Text}
    {requests : List Request} {draft : Draft} {query : Query} {events : List Event} {name : String}
    {b : Bool} (hsettings : settings.check = .ok ())
    (hdraft : draft = (start settings entity .native skeleton).attempts requests)
    (hfinish : draft.finish = .ok (query, events))
    (hconstant : settings.constants[name]? = some b)
    (hreference : References skeleton name.toList) :
    (query.bindings[name]? = some (.bool b) ↔
      draft.HandedOut name ∧ draft.bindings[name]? = some (.bool b) ∨
        ¬draft.HandedOut name ∧ name.toList ∈ placeholderNames query.text) ∧
    ((start settings entity .native skeleton).clearOfComments requests = true →
      (name.toList ∈ placeholderNames query.text ↔ '$' ∉ name.toList)) := by
  subst hdraft
  have hsound := sound_start hsettings entity .native skeleton
  obtain ⟨⟨ps, ss, hbound⟩, -⟩ := (bound_start settings entity .native skeleton).attempts requests
  have hnative := kind_attempts (start settings entity .native skeleton) requests
  have hquery := getElem?_finish hnative hfinish (b := b)
    (by rw [settings_attempts]; exact hconstant)
  have hhanded := hbound.mem_bindings_iff name
  rw [(finish_eq_ok hfinish).1]
  constructor
  · rw [hquery]
    by_cases hname : ((start settings entity .native skeleton).attempts requests).HandedOut name
    · obtain ⟨v, hv⟩ := Option.isSome_iff_exists.1
        (Std.TreeMap.mem_iff_isSome_getElem?.1 (hhanded.2 hname))
      simp [hname, hv]
    · have hnone := Std.TreeMap.getElem?_eq_none (fun hmem => hname (hhanded.1 hmem))
      simp [hname, hnone]
  · intro hclear
    constructor
    · intro hmem hdollar
      exact absurd (isNameChar_of_mem_placeholderNames hmem _ hdollar) (by decide)
    · intro hdollar
      have hname := isName_of_isSegment (Settings.isSegment_of_constant hsettings hconstant) hdollar
      exact hsound.subset_placeholderNames_attempts hclear (hreference.mem_placeholderNames hname)

/-- A statement that refers to a constant, with a literal that has its name and one left open. -/
def gateSelect : Text :=
  "SELECT i.* FROM items i WHERE i.note <> ':trueValue' AND i.on = :trueValue AND i.tag = 'x".toList

theorem references_gateSelect : References gateSelect "trueValue".toList :=
  ⟨"SELECT i.* FROM items i WHERE i.note <> ':trueValue' AND i.on = ".toList,
    " AND i.tag = 'x".toList, by decide +kernel, by decide +kernel, by decide +kernel,
    fun _ h => by cases h; rfl⟩

/-- The requests that are made over `gateSelect`. -/
def gateRequests : List Request :=
  [.sortKeys [⟨"Item", "rank", .asc⟩] "Item", .conditions [.eq "Item" "tenant" (.int 1)] none false]

theorem constant_bound_iff_gateSelect :
    (itemSettings.check = .ok () ∧ itemSettings.constants["trueValue"]? = some true ∧
      References gateSelect "trueValue".toList) ∧
    ∃ draft query events, draft = (start itemSettings "Item" .native gateSelect).attempts
        gateRequests ∧ draft.finish = .ok (query, events) ∧
      (query.bindings["trueValue"]? = some (.bool true) ↔
        draft.HandedOut "trueValue" ∧ draft.bindings["trueValue"]? = some (.bool true) ∨
          ¬draft.HandedOut "trueValue" ∧ "trueValue".toList ∈ placeholderNames query.text) ∧
      "trueValue".toList ∈ placeholderNames query.text := by
  have hconstant : itemSettings.constants["trueValue"]? = some true := by decide +kernel
  obtain ⟨⟨query, events⟩, hfinish⟩ := exists_eq_ok
    (x := ((start itemSettings "Item" .native gateSelect).attempts gateRequests).finish)
    (by decide +kernel)
  obtain ⟨hiff, hclear⟩ :=
    constant_bound_iff rfl rfl hfinish hconstant references_gateSelect
  exact ⟨⟨rfl, hconstant, references_gateSelect⟩, _, query, events, rfl, hfinish, hiff,
    (hclear (by decide +kernel)).2 (by decide)⟩

/-- Settings with constants that are named with a dollar sign and like a value for a condition. -/
def looseConstants : Settings where
  constants := .ofList [("is$on", true), ("p1", true), ("trueValue", true)]
  catalog := Catalog.insert {} "Item" { tableAlias := "i" }

/-- A constant that the statement refers to is not bound to its value: if its name has a dollar
sign, if a value for a condition is bound under its name, or if a condition is put right behind a
line comment and takes the reference into it. -/
theorem constant_lost :
    looseConstants.check = .ok () ∧
    (looseConstants.constants["is$on"]? = some true ∧
      References "SELECT i.* FROM items i WHERE i.flag = :is$on".toList "is$on".toList ∧
      ((start looseConstants "Item" .native
          "SELECT i.* FROM items i WHERE i.flag = :is$on".toList).finish.toOption.map
        fun r => r.1.bindings["is$on"]?.isSome) = some false) ∧
    (looseConstants.constants["p1"]? = some true ∧
      References "SELECT i.* FROM items i WHERE i.flag = :p1".toList "p1".toList ∧
      (((start looseConstants "Item" .native
          "SELECT i.* FROM items i WHERE i.flag = :p1".toList).run
            [.conditions [.eq "Item" "tenant" (.text "a")] none false] >>=
          Draft.finish).toOption.map
        fun r => r.1.bindings["p1"]?.bind Value.text?) = some (some "a")) ∧
    looseConstants.constants["trueValue"]? = some true ∧
      References "SELECT i.* FROM items i -- all\nORDER BY i.on = :trueValue".toList
        "trueValue".toList ∧
      (((start looseConstants "Item" .native
          "SELECT i.* FROM items i -- all\nORDER BY i.on = :trueValue".toList).run
            [.conditions [.eq "Item" "tenant" (.text "a")] none false] >>=
          Draft.finish).toOption.map
        fun r => r.1.bindings["trueValue"]?.isSome) = some false := by
  refine ⟨rfl, ⟨by decide +kernel, ?_, by decide +kernel⟩,
    ⟨by decide +kernel, ?_, by decide +kernel⟩, by decide +kernel, ?_, by decide +kernel⟩
  · exact ⟨"SELECT i.* FROM items i WHERE i.flag = ".toList, [], by decide +kernel,
      by decide +kernel, by decide +kernel, fun _ h => nomatch h⟩
  · exact ⟨"SELECT i.* FROM items i WHERE i.flag = ".toList, [], by decide +kernel,
      by decide +kernel, by decide +kernel, fun _ h => nomatch h⟩
  · exact ⟨"SELECT i.* FROM items i -- all\nORDER BY i.on = ".toList, [], by decide +kernel,
      by decide +kernel, by decide +kernel, fun _ h => nomatch h⟩

end Draft

end QueryClauses
