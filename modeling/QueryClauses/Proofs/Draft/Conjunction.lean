import QueryClauses.Proofs.Draft.Run
import QueryClauses.Proofs.Sql.Conjoining

/-!
# Runs of requests for conditions

Each request for conditions cuts the text that the one before left, and decides anew whether it has
a WHERE and whether its predicate needs parentheses. All the same the conditions end up behind the
predicate of the statement that the draft started with, each joined by AND
(`run_eq_withConditions`).
-/

namespace QueryClauses

open Sql

def Request.isConditions : Request → Bool
  | .conditions .. => true
  | .sortKeys .. => false

namespace Draft

/-- The condition that a request adds to a draft, if it adds one. -/
def addedBy (draft : Draft) : Request → Option String
  | .conditions filters search words =>
    (draft.generate filters search words).toOption.bind Addition.text?
  | .sortKeys .. => none

/-- The conditions that requests add to a draft, in order. -/
def addedConditions (draft : Draft) : List Request → List String
  | [] => []
  | request :: requests =>
    match draft.grant request with
    | .error _ => []
    | .ok next => (draft.addedBy request).toList ++ addedConditions next requests

theorem Addition.Sound.isCondition {addition : Addition} (h : addition.Sound) {text : String}
    (htext : addition.text? = some text) : IsCondition text.toList := by
  obtain ⟨ts, hts, htidy, hbalanced, hgrouped, hwords⟩ := h.writes_text htext
  have hlex : lex text.toList = ts := by
    rw [hts]
    exact htidy.lexed
  exact ⟨by rw [hlex]; exact htidy.tame, by rwa [hlex], by rwa [hlex], by rwa [hlex]⟩

theorem Sound.text_of_conditions {draft next : Draft} (hdraft : draft.Sound) {request : Request}
    (hrequest : request.isConditions = true) (h : draft.grant request = .ok next) :
    draft.addedBy request = none ∧ next.text = draft.text ∨
      ∃ c, draft.addedBy request = some c ∧ IsCondition c.toList ∧
        next.text = addCondition c.toList draft.text := by
  cases request with
  | sortKeys keys entity => cases hrequest
  | conditions filters search words =>
    obtain ⟨addition, hgenerate, ⟨htext, rfl⟩ | ⟨c, htext, -, rfl⟩⟩ := addConditions_eq_ok h
    · exact .inl ⟨by simp [addedBy, hgenerate, htext, Except.toOption], rfl⟩
    · refine .inr ⟨c, by simp [addedBy, hgenerate, htext, Except.toOption], ?_, rfl⟩
      exact (hdraft.generate hgenerate).isCondition htext

/-- Further requests for conditions: what the conditions so far made of a statement, they and the
further ones make of it. -/
theorem Sound.conjoins_run {draft draft' : Draft} (hdraft : draft.Sound) {requests : List Request}
    (hrequests : ∀ request ∈ requests, request.isConditions = true)
    (hrun : draft.run requests = .ok draft') {skeleton : Text} {conditions : List Text}
    (h : Conjoins skeleton conditions draft.text) (hne : conditions ≠ []) :
    Conjoins skeleton (conditions ++ (draft.addedConditions requests).map String.toList)
      draft'.text := by
  induction requests generalizing draft conditions with
  | nil =>
    cases hrun
    simpa [addedConditions] using h
  | cons request requests ih =>
    obtain ⟨next, hnext, hrun⟩ := run_cons_eq_ok.1 hrun
    have hrest : ∀ request ∈ requests, request.isConditions = true := fun r hr =>
      hrequests r (List.mem_cons_of_mem _ hr)
    have hnext' := hdraft.grant hnext
    simp only [addedConditions, hnext]
    rcases hdraft.text_of_conditions (hrequests request List.mem_cons_self) hnext with
      ⟨hadded, htext⟩ | ⟨c, hadded, hc, htext⟩
    · rw [hadded]
      exact ih hnext' hrest hrun (by rwa [htext]) hne
    · have hstep := h.addCondition hc hne
      rw [← htext] at hstep
      have := ih hnext' hrest hrun hstep (by simp)
      simpa [hadded] using this

theorem Sound.conjoins_run_of_wellFormed {draft draft' : Draft} (hdraft : draft.Sound)
    {requests : List Request} (hrequests : ∀ request ∈ requests, request.isConditions = true)
    (hrun : draft.run requests = .ok draft') (htext : WellFormed draft.text)
    (hline : ∀ t ∈ lex draft.text, t.isLineComment = false)
    (hne : draft.addedConditions requests ≠ []) :
    Conjoins draft.text ((draft.addedConditions requests).map String.toList) draft'.text := by
  induction requests generalizing draft with
  | nil => exact absurd rfl hne
  | cons request requests ih =>
    obtain ⟨next, hnext, hrun⟩ := run_cons_eq_ok.1 hrun
    have hrest : ∀ request ∈ requests, request.isConditions = true := fun r hr =>
      hrequests r (List.mem_cons_of_mem _ hr)
    have hnext' := hdraft.grant hnext
    simp only [addedConditions, hnext] at hne ⊢
    rcases hdraft.text_of_conditions (hrequests request List.mem_cons_self) hnext with
      ⟨hadded, hsame⟩ | ⟨c, hadded, hc, hadd⟩
    · rw [hadded] at hne ⊢
      have := ih hnext' hrest hrun (by rwa [hsame]) (by rwa [hsame]) hne
      rwa [hsame] at this
    · have hfirst := conjoins_addCondition htext hline hc
      rw [← hadd] at hfirst
      have := hnext'.conjoins_run hrest hrun hfirst (by simp)
      simpa [hadded] using this

/-- Conditions are conjoined with the predicate of the statement that a draft starts with. The text
is that of the statement up to its WHERE, what is left of the predicate and the conditions joined by
AND, and the clauses that follow; there is no OR at top level between them, and no further WHERE. -/
theorem run_eq_withConditions {settings : Settings} {entity : String} {kind : QueryKind}
    {skeleton : Text} {requests : List Request} {draft : Draft}
    (hsettings : settings.check = .ok ()) (hskeleton : WellFormed skeleton)
    (hline : ∀ t ∈ lex skeleton, t.isLineComment = false)
    (hrequests : ∀ request ∈ requests, request.isConditions = true)
    (hrun : (start settings entity kind skeleton).run requests = .ok draft)
    (hne : (start settings entity kind skeleton).addedConditions requests ≠ []) :
    draft.text = withConditions
        (((start settings entity kind skeleton).addedConditions requests).map String.toList)
        skeleton ∧
      whereFront draft.text = whereFront skeleton ∧
      (cutTail draft.text).2 = (cutTail skeleton).2 ∧
      hasKeyword "OR" (wherePredicate draft.text) = false ∧
      whereCount (topWords draft.text) ≤ whereCount (topWords skeleton) +
        if (cutKeyword "WHERE" (cutTail skeleton).1).isSome then 0 else 1 := by
  have hconjoins := (sound_start hsettings entity kind skeleton).conjoins_run_of_wellFormed
    hrequests hrun hskeleton hline hne
  refine ⟨hconjoins.eq_withConditions, ?_⟩
  obtain ⟨front, body, rest, hconj, hfront, -, hrest, hcount⟩ := hconjoins
  refine ⟨hconj.whereFront_eq.trans hfront, hconj.cutTail_eq.trans hrest, ?_, hcount⟩
  rw [hconj.wherePredicate_eq, hasKeyword, topWords, hconj.lexed_body, List.any_eq_false]
  intro w hw
  simp [hconj.noOr w hw]

def groupedSelect : Text :=
  "SELECT i.* FROM items i WHERE i.a = 'AND' OR (i.b = 1 OR i.c = 2) GROUP BY i.d".toList

def threeRequests : List Request :=
  [.conditions [.eq "Item" "e" (.int 7), .eq "Item" "f" .null] none false,
   .conditions [] none false,
   .conditions [.ge "Item" "g" (.int 1)] (some ((Search.ofText "x y").addFields "Item" ["h"])) false]

theorem run_threeRequests_groupedSelect :
    (itemSettings.check = .ok () ∧ WellFormed groupedSelect ∧
      (∀ t ∈ lex groupedSelect, t.isLineComment = false) ∧
      (∀ request ∈ threeRequests, request.isConditions = true) ∧
      (start itemSettings "Item" .native groupedSelect).addedConditions threeRequests ≠ []) ∧
    ∃ draft, (start itemSettings "Item" .native groupedSelect).run threeRequests = .ok draft ∧
      String.ofList draft.text =
        "SELECT i.* FROM items i WHERE (i.a = 'AND' OR (i.b = 1 OR i.c = 2)) AND " ++
          "(i.e = :p1 OR i.f IS NULL) AND " ++
          "(i.g >= :p2) AND (i.h LIKE :s1 ESCAPE '§' OR i.h LIKE :s2 ESCAPE '§') GROUP BY i.d" ∧
      hasKeyword "OR" (wherePredicate draft.text) = false ∧ whereCount (topWords draft.text) ≤ 1 := by
  have hsettings : itemSettings.check = .ok () := rfl
  have hskeleton : WellFormed groupedSelect := ⟨by decide +kernel, by decide +kernel⟩
  have hline : ∀ t ∈ lex groupedSelect, t.isLineComment = false := by decide +kernel
  have hrequests : ∀ request ∈ threeRequests, request.isConditions = true := by
    simp [threeRequests, Request.isConditions]
  have hne : (start itemSettings "Item" .native groupedSelect).addedConditions threeRequests ≠ [] := by
    decide +kernel
  refine ⟨⟨hsettings, hskeleton, hline, hrequests, hne⟩, ?_⟩
  obtain ⟨draft, hrun⟩ := @exists_eq_ok _ _
    ((start itemSettings "Item" .native groupedSelect).run threeRequests) (by decide +kernel)
  obtain ⟨htext, -, -, hor, hcount⟩ :=
    run_eq_withConditions hsettings hskeleton hline hrequests hrun hne
  refine ⟨draft, hrun, ?_, hor, hcount.trans ?_⟩
  · rw [htext]
    decide +kernel
  · decide +kernel

end Draft

end QueryClauses
