import QueryClauses.Proofs.Draft.Steps
import QueryClauses.Proofs.Sql.Persistence
import QueryClauses.Proofs.Sql.Positional

/-!
# Queries that can be executed

Each request leaves a statement in which every placeholder has a value or is the name of a constant,
if it was one before (`Step.runnable`): the placeholders of a condition come in with their values,
sort keys have none, and those of the statement stay what they were. A native query gets the
constants in the end, so it can be sent with numbers in place of its names
(`exists_positional_of_finish`).
-/

namespace QueryClauses

open Sql

/-! ## The placeholders of an extended statement -/

namespace Sql

section

variable {s c k : Text} (hs : WellFormed s) (hline : ∀ t ∈ lex s, t.isLineComment = false)
include hs hline

/-- Where no line comment stands in a well-formed statement, a condition brings in its own
placeholders and no others. -/
theorem WellFormed.mem_placeholderNames_addCondition (hc : IsCondition c) {name : Text} :
    name ∈ placeholderNames (Sql.addCondition c s) ↔
      name ∈ placeholderNames s ∨ name ∈ namesOf (lex c) := by
  have h := endsInLineComment_cutTail hline
  have hclosed : ∀ t ∈ lex c, t.isClosed = true := fun t ht =>
    Token.isClosed_of_isTame (hc.tame t ht)
  rw [placeholderNames_addCondition h (hs.isClosed_cutTail_fst h) hclosed,
    placeholderNames_cutTail_snd, placeholderNames_eq (cutTail s).1, lex_cutTail_fst,
    placeholderNames_cutBefore opensTail s]
  simp only [List.mem_append]
  exact or_right_comm

theorem WellFormed.placeholderNames_addSortKeys (hk : IsSortKeys k) :
    placeholderNames (Sql.addSortKeys k s) = placeholderNames s := by
  have h := endsInLineComment_cutPaging hline
  have hclosed : ∀ t ∈ lex k, t.isClosed = true := fun t ht =>
    Token.isClosed_of_isTame (hk.tame t ht)
  have hnames : namesOf (lex k) = [] := by
    rw [namesOf, List.map_eq_nil_iff, List.filter_eq_nil_iff]
    intro t ht
    rcases hk.plain t ht with hkind | hkind <;> simp [hkind]
  rw [Sql.placeholderNames_addSortKeys h (hs.isClosed_cutPaging_fst h) hclosed, hnames,
    List.append_nil, ← placeholderNames_cutBefore]

end

end Sql

namespace Draft

variable {draft next : Draft} {request : Request}

theorem Addition.Sound.namesOf_lex {addition : Addition} (h : addition.Sound) {condition : String}
    (htext : addition.text? = some condition) :
    namesOf (lex condition.toList) = addition.names.map String.toList := by
  obtain ⟨ts, hts, htidy, -⟩ := h.writes_text htext
  rw [(htidy.lex_of_eq hts).names, Addition.names, List.map_map]
  rfl

/-! ## Steps -/

/-- A draft over a well-formed statement without line comments, of which each placeholder has a
value or is the name of a constant. -/
structure Runnable (draft : Draft) : Prop where
  sound : draft.Sound
  wellFormed : WellFormed draft.text
  line : ∀ t ∈ lex draft.text, t.isLineComment = false
  valued : ∀ name ∈ placeholderNames draft.text,
    String.ofList name ∈ draft.bindings ∨ String.ofList name ∈ draft.settings.constants

/-- No step takes a value away, and the placeholders that it brings in have one. -/
theorem Step.runnable (h : draft.Step request next) (hdraft : draft.Runnable) : next.Runnable := by
  obtain ⟨hsound, hwell, hline, hvalued⟩ := hdraft
  have hnext := h.sound hsound
  cases h with
  | idle => exact ⟨hsound, hwell, hline, hvalued⟩
  | condition hgenerate htext =>
    have haddition := hsound.generate hgenerate
    have hcondition := haddition.isCondition htext
    obtain ⟨-, hwell', hline'⟩ := cutBefore_addCondition hwell hline hcondition
    refine ⟨hnext, hwell', hline', fun name hname => ?_⟩
    rw [mem_bindings_extended]
    -- A placeholder of the new text is one of the old text or one of the condition.
    rcases (hwell.mem_placeholderNames_addCondition hline hcondition).1 hname with hname | hname
    · exact (hvalued name hname).imp_left .inl
    · rw [haddition.namesOf_lex htext] at hname
      obtain ⟨other, hother, rfl⟩ := List.mem_map.1 hname
      rw [String.ofList_toList]
      exact .inl (.inr hother)
  | sortKeys hkeys hwritten =>
    have hsortKeys := hsound.isSortKeys hwritten
    refine ⟨hnext, hwell.addSortKeys hline hsortKeys,
      isLineComment_addSortKeys hwell hline hsortKeys, fun name hname => ?_⟩
    rw [sorted, hwell.placeholderNames_addSortKeys hline hsortKeys] at hname
    exact hvalued name hname

theorem Runnable.exists_positional (hdraft : draft.Runnable) (hkind : draft.kind = .native)
    {query : Query} {events : List Event} (hfinish : draft.finish = .ok (query, events)) :
    (∀ name ∈ placeholderNames query.text, ∃ v, query.bindings[String.ofList name]? = some v) ∧
      ∃ p, query.positional = .ok p := by
  obtain ⟨htext, -, hbindings⟩ := finish_eq_ok hfinish
  have hvalues : ∀ name ∈ placeholderNames query.text,
      ∃ v, query.bindings[String.ofList name]? = some v := by
    intro name hname
    rw [htext] at hname
    rw [hbindings, hkind]
    dsimp only
    rw [Query.getElem?_bindConstants_eq, String.toList_ofList, if_pos hname]
    rcases hdraft.valued name hname with hbound | hconstant
    · obtain ⟨v, hv⟩ := Option.isSome_iff_exists.1 (Std.TreeMap.mem_iff_isSome_getElem?.1 hbound)
      exact ⟨v, by rw [hv]; rfl⟩
    · obtain ⟨b, hb⟩ := Option.isSome_iff_exists.1 (Std.TreeMap.mem_iff_isSome_getElem?.1 hconstant)
      rw [hb, Option.map_some]
      cases draft.bindings[String.ofList name]? with
      | none => exact ⟨.bool b, rfl⟩
      | some v => exact ⟨v, rfl⟩
  refine ⟨hvalues, ?_⟩
  obtain ⟨p, hp⟩ := exists_positional_eq_ok_iff.2 hvalues
  exact ⟨p, by rw [Query.positional, hp]⟩

/-! ## Every sequence of requests -/

/-- A native query over a well-formed statement without line comments, of which each placeholder is
the name of a constant, can be executed with numbers in place of names, whatever was asked of it and
whichever requests failed: each placeholder of its text has a value. -/
theorem exists_positional_of_finish {settings : Settings} {entity : String} {skeleton : Text}
    {requests : List Request} {query : Query} {events : List Event}
    (hsettings : settings.check = .ok ()) (hskeleton : WellFormed skeleton)
    (hline : ∀ t ∈ lex skeleton, t.isLineComment = false)
    (hnames : ∀ name ∈ placeholderNames skeleton, String.ofList name ∈ settings.constants)
    (hfinish : ((start settings entity .native skeleton).attempts requests).finish =
      .ok (query, events)) :
    (∀ name ∈ placeholderNames query.text, ∃ v, query.bindings[String.ofList name]? = some v) ∧
      ∃ p, query.positional = .ok p := by
  have hstart : (start settings entity .native skeleton).Runnable :=
    ⟨sound_start hsettings entity .native skeleton, hskeleton, hline, fun name hname =>
      .inr (hnames name hname)⟩
  have hdraft := attempts_induction (fun hstep h => hstep.runnable h) hstart requests
  exact hdraft.exists_positional (kind_attempts _ requests) hfinish

/-- A statement with a constant, and with names in a literal and behind a cast. -/
def flaggedSelect : Text :=
  "SELECT i.* FROM items i WHERE i.gone = :falseValue::bool AND i.note = ':p9' LIMIT 5".toList

/-- Conditions and sort keys, each once as they are granted and once as they fail. -/
def mixedRequests : List Request :=
  [.conditions [.eq "Item" "tenant" (.text "a"), .or, .ge "Item" "rank" (.int 1)]
      (some ((Search.ofText "x").addFields "Item" ["name"])) false,
    .conditions [.eq "Item" "tenant" (.text "b"), .eq "Unknown" "rank" (.int 1)] none false,
    .sortKeys [⟨"Item", "rank", .desc⟩] "Item", .sortKeys [⟨"Item", "rank", .desc⟩] "Unknown"]

theorem exists_positional_of_finish_flaggedSelect :
    (itemSettings.check = .ok () ∧ WellFormed flaggedSelect ∧
      (∀ t ∈ lex flaggedSelect, t.isLineComment = false) ∧
      ∀ name ∈ placeholderNames flaggedSelect, String.ofList name ∈ itemSettings.constants) ∧
    ∃ query events, ((start itemSettings "Item" .native flaggedSelect).attempts
        mixedRequests).finish = .ok (query, events) ∧
      (∀ name ∈ placeholderNames query.text, ∃ v, query.bindings[String.ofList name]? = some v) ∧
        ∃ p, query.positional = .ok p := by
  have hwell : WellFormed flaggedSelect := ⟨by decide +kernel, by decide +kernel⟩
  have hline : ∀ t ∈ lex flaggedSelect, t.isLineComment = false := by decide +kernel
  have hnames : ∀ name ∈ placeholderNames flaggedSelect,
      String.ofList name ∈ itemSettings.constants := by
    decide +kernel
  obtain ⟨⟨query, events⟩, hfinish⟩ := exists_eq_ok
    (x := ((start itemSettings "Item" .native flaggedSelect).attempts mixedRequests).finish)
    (by decide +kernel)
  exact ⟨⟨rfl, hwell, hline, hnames⟩, query, events, hfinish,
    exists_positional_of_finish rfl hwell hline hnames hfinish⟩

end Draft

end QueryClauses
