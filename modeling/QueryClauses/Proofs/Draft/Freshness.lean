import QueryClauses.Proofs.Draft.Names
import QueryClauses.Proofs.Sql.Unbroken

/-!
# Whether generated names are fresh

Names are handed out without a look at the statement. A statement that has one of them already
shares the value (`shared_with_statement`). Where none of its placeholders has such a name, each
generated name stands in the text at most once (`Sound.count_attempts_le`), and in a well-formed
statement each condition stands whole and keeps its names to itself (`Sound.standsAlone_attempts`).
Both need that no condition is put right behind a line comment. Main statement: `generated_names`.
-/

namespace QueryClauses.Draft

open Sql

variable {draft : Draft} {requests : List Request} {name : Text}

/-- Whether no request puts its condition right behind a line comment. -/
def apartFromComments (draft : Draft) : List Request → Bool
  | [] => true
  | request :: requests =>
    ((draft.addition? request).isNone || !endsInLineComment (cutTail draft.text).1) &&
      apartFromComments (draft.attempt request) requests

/-- An addition's condition stands in a text as it is, and what is around it has no placeholder of
its names. -/
def Addition.StandsAlone (addition : Addition) (s : Text) : Prop :=
  ∃ condition front back, addition.text? = some condition ∧
    lex s = front ++ lex condition.toList ++ back ∧
    namesOf (lex condition.toList) = addition.names.map String.toList ∧
    ∀ name ∈ addition.names, name.toList ∉ namesOf front ++ namesOf back

/-! ## What an addition mentions -/

section Generate

variable (hdraft : draft.Sound) {filters : List Filter} {search : Option Search} {words : Bool}
  {addition : Addition} (hgenerate : draft.generate filters search words = .ok addition)
include hdraft

theorem Sound.mentionsNames_searchCondition {filtered : List String} {c : Condition}
    {supply : NameSupply} (h : draft.searchCondition filtered search words = .ok (c, supply)) :
    c.MentionsNames := by
  obtain ⟨-, hcatalog⟩ := Settings.of_check hdraft.settings
  rcases searchCondition_eq_ok h with ⟨-, h⟩ | ⟨search', columns, -, hcolumns, h⟩
  · cases h
    exact Condition.mentionsNames_empty
  · have hall := Search.isColumn_of_columns hcatalog hcolumns
    obtain ⟨rfl, -⟩ := Prod.mk.inj h
    exact Search.mentionsNames_condition (fun column hc => hall column (List.mem_of_mem_filter hc))
      hdraft.isName_searchStem

include hgenerate

theorem Sound.mentionsNames_generate :
    addition.filtered.MentionsNames ∧ addition.searched.MentionsNames := by
  obtain ⟨hescape, hcatalog⟩ := Settings.of_check hdraft.settings
  obtain ⟨hfilters, hsearch⟩ := generate_eq_ok hgenerate
  exact ⟨Condition.mentionsNames_ofFilters hcatalog hescape hdraft.isName_filterStem hfilters,
    hdraft.mentionsNames_searchCondition hsearch⟩

/-- The text of an addition mentions its names as often as it has them, and no other name. -/
theorem Sound.mentions_text {text : String} (htext : addition.text? = some text)
    (hname : name ≠ []) :
    mentions name text.toList = (addition.names.map String.toList).count name := by
  obtain ⟨hfiltered, hsearched⟩ := hdraft.mentionsNames_generate hgenerate
  have hbindings := (hdraft.generate hgenerate).flatMap_bindings
  have hall : ∀ c ∈ [addition.filtered, addition.searched].filter (!·.isEmpty),
      mentions name ('(' :: (c.text.toList ++ [')'])) = (c.names.map String.toList).count name := by
    intro c hc
    have hc := List.mem_of_mem_filter hc
    simp only [List.mem_cons, List.not_mem_nil, or_false] at hc
    have hmentions : c.MentionsNames := by
      rcases hc with rfl | rfl
      · exact hfiltered
      · exact hsearched
    have hopen : ':' ∉ ['('] := by decide
    rw [← List.singleton_append, mentions_append_of_notMem hopen,
      mentions_append (by simp [CharClass.isNameChar]), mentions_closing, Nat.add_zero]
    exact hmentions name hname
  have hflat : ([addition.filtered, addition.searched].filter (!·.isEmpty)).flatMap
      Condition.names = addition.names := by
    rw [Addition.names, ← hbindings, List.map_flatMap]
    rfl
  have h := mentions_intercalate hall (by decide : ':' ∉ " AND ".toList) ⟨' ', _, rfl, rfl⟩
  rw [← List.map_flatMap, hflat] at h
  rw [← h]
  simp only [Addition.text?] at htext
  split at htext
  · cases htext
  · cases htext
    rw [String.toList_intercalate, List.map_map]
    congr 2
    apply List.map_congr_left
    intro c _
    simp

end Generate

/-! ## Further requests -/

theorem Sound.attempt (hdraft : draft.Sound) (request : Request) : (draft.attempt request).Sound := by
  cases hnext : draft.grant request with
  | error failure => rwa [attempt_of_error hnext]
  | ok next =>
    rw [attempt_of_ok hnext]
    exact hdraft.grant hnext

/-- What a request adds that does not put its condition right behind a line comment. -/
theorem Sound.attempt_apart (hdraft : draft.Sound) {request : Request}
    (hrequest : request.isConditions = true)
    (hapart : draft.apartFromComments (request :: requests) = true) :
    (draft.addition? request = none ∧ draft.attempt request = draft ∨
      ∃ addition condition, draft.Adds request addition condition ∧
        IsCondition condition.toList ∧ endsInLineComment (cutTail draft.text).1 = false) ∧
      (draft.attempt request).apartFromComments requests = true := by
  rw [apartFromComments, Bool.and_eq_true] at hapart
  refine ⟨?_, hapart.2⟩
  rcases @attempt_conditions draft request hrequest with hnone | ⟨addition, condition, hadds⟩
  · exact .inl hnone
  · obtain ⟨filters, search, words, hgenerate⟩ := hadds.generated
    have hcondition := (hdraft.generate hgenerate).isCondition hadds.text
    exact .inr ⟨addition, condition, hadds, hcondition, by simpa [hadds.addition?] using hapart.1⟩

section Attempts

variable (hdraft : draft.Sound) (hrequests : ∀ request ∈ requests, request.isConditions = true)
  (hapart : draft.apartFromComments requests = true)
include hdraft hrequests hapart

/-- Requests bring in no more placeholders of a name than they hand out names, whatever lies open in
the statement. -/
theorem Sound.count_attempts_le (hname : name ≠ []) :
    (placeholderNames (draft.attempts requests).text).count name ≤
      (placeholderNames draft.text).count name +
        ((draft.generatedNames requests).map String.toList).count name := by
  induction requests generalizing draft with
  | nil => exact Nat.le_add_right _ _
  | cons request requests ih =>
    obtain ⟨hcases, hapart⟩ := hdraft.attempt_apart (hrequests request List.mem_cons_self) hapart
    have ih := ih (hdraft.attempt request) (fun r hr => hrequests r (List.mem_cons_of_mem _ hr))
      hapart
    rw [attempts, List.foldl_cons, generatedNames, additions, List.flatMap_append, List.map_append,
      List.count_append]
    refine ih.trans ?_
    rw [← Nat.add_assoc]
    apply Nat.add_le_add_right
    rcases hcases with ⟨-, hsame⟩ | ⟨addition, condition, hadds, hcondition, hline⟩
    · rw [hsame]
      exact Nat.le_add_right _ _
    · obtain ⟨filters, search, words, hgenerate⟩ := hadds.generated
      have hstep := count_placeholderNames_addCondition_le hline
        (fun t ht => Token.isClosed_of_isTame (hcondition.tame t ht)) name
      rw [hdraft.mentions_text hgenerate hadds.text hname] at hstep
      rw [hadds.attempt, hadds.addition?, Option.toList_some, List.flatMap_singleton]
      exact hstep

theorem Sound.infix_attempts (hwell : WellFormed draft.text) {d : Text} (hd : IsCondition d)
    (hstands : lex d <:+: lex draft.text) : lex d <:+: lex (draft.attempts requests).text := by
  induction requests generalizing draft with
  | nil => exact hstands
  | cons request requests ih =>
    obtain ⟨hcases, hapart⟩ := hdraft.attempt_apart (hrequests request List.mem_cons_self) hapart
    have hrest : ∀ request ∈ requests, request.isConditions = true := fun r hr =>
      hrequests r (List.mem_cons_of_mem _ hr)
    rw [attempts, List.foldl_cons]
    rcases hcases with ⟨-, hsame⟩ | ⟨addition, condition, hadds, hcondition, hline⟩
    · rw [hsame] at hapart ⊢
      exact ih hdraft hrest hapart hwell hstands
    · have hsound := hdraft.attempt request
      rw [hadds.attempt] at hsound hapart ⊢
      exact ih hsound hrest hapart (hwell.addCondition hline hcondition)
        (infix_lex_addCondition hwell hline hcondition hd hstands)

/-- In a well-formed statement the condition of each request stands whole. -/
theorem Sound.infix_of_mem_additions (hwell : WellFormed draft.text) {addition : Addition}
    (haddition : addition ∈ draft.additions requests) :
    ∃ condition, addition.text? = some condition ∧
      namesOf (lex condition.toList) = addition.names.map String.toList ∧
      lex condition.toList <:+: lex (draft.attempts requests).text := by
  induction requests generalizing draft with
  | nil => cases haddition
  | cons request requests ih =>
    obtain ⟨hcases, hapart⟩ := hdraft.attempt_apart (hrequests request List.mem_cons_self) hapart
    have hrest : ∀ request ∈ requests, request.isConditions = true := fun r hr =>
      hrequests r (List.mem_cons_of_mem _ hr)
    have hsound := hdraft.attempt request
    rw [additions, List.mem_append] at haddition
    rw [attempts, List.foldl_cons]
    rcases hcases with ⟨hnone, hsame⟩ | ⟨added, condition, hadds, hcondition, hline⟩
    · rw [hsame] at hapart hsound haddition ⊢
      rw [hnone] at haddition
      rcases haddition with haddition | haddition
      · cases haddition
      · exact ih hsound hrest hapart hwell haddition
    · have hwell' : WellFormed (draft.attempt request).text := by
        rw [hadds.attempt]
        exact hwell.addCondition hline hcondition
      rcases haddition with haddition | haddition
      · rw [hadds.addition?, Option.toList_some, List.mem_singleton] at haddition
        subst haddition
        obtain ⟨filters, search, words, hgenerate⟩ := hadds.generated
        obtain ⟨ts, hts, htidy, -⟩ := (hdraft.generate hgenerate).writes_text hadds.text
        refine ⟨condition, hadds.text, ?_, ?_⟩
        · rw [(htidy.lex_of_eq hts).names, Addition.names, List.map_map]
          rfl
        · apply hsound.infix_attempts hrest hapart hwell' hcondition
          rw [hadds.attempt]
          exact infix_lex_addCondition_self hwell hline hcondition
      · exact ih hsound hrest hapart hwell' haddition

end Attempts

/-! ## Names that the statement does not have -/

section Start

variable {settings : Settings} {entity : String} {kind : QueryKind} {skeleton : Text}
  (hsettings : settings.check = .ok ())
  (hrequests : ∀ request ∈ requests, request.isConditions = true)
  (hfresh : ∀ name ∈ (start settings entity kind skeleton).generatedNames requests,
    name.toList ∉ placeholderNames skeleton)
  (hapart : (start settings entity kind skeleton).apartFromComments requests = true)
include hsettings hrequests hfresh hapart

theorem count_generatedName_le_one {name : String}
    (hname : name ∈ (start settings entity kind skeleton).generatedNames requests) :
    (placeholderNames ((start settings entity kind skeleton).attempts requests).text).count
      name.toList ≤ 1 := by
  have hsound := sound_start hsettings entity kind skeleton
  have hnil : name.toList ≠ [] := toList_ne_nil_of_mem_generatedNames hrequests hname
  have hcount := hsound.count_attempts_le hrequests hapart hnil
  have hzero : (placeholderNames skeleton).count name.toList = 0 :=
    List.count_eq_zero.2 (hfresh name hname)
  have honce : (((start settings entity kind skeleton).generatedNames requests).map
      String.toList).count name.toList ≤ 1 :=
    List.nodup_iff_count_le_one.1
      ((nodup_generatedNames hrequests).map fun _ _ => String.toList_injective) _
  have htext : (start settings entity kind skeleton).text = skeleton := rfl
  rw [htext] at hcount
  omega

theorem standsAlone_of_mem_additions (hwell : WellFormed skeleton) {addition : Addition}
    (haddition : addition ∈ (start settings entity kind skeleton).additions requests) :
    addition.StandsAlone ((start settings entity kind skeleton).attempts requests).text := by
  have hsound := sound_start hsettings entity kind skeleton
  obtain ⟨condition, htext, hnames, front, back, hlex⟩ :=
    hsound.infix_of_mem_additions hrequests hapart hwell haddition
  refine ⟨condition, front, back, htext, hlex.symm, hnames, ?_⟩
  intro name hname
  have hgenerated : name ∈ (start settings entity kind skeleton).generatedNames requests :=
    List.mem_flatMap.2 ⟨addition, haddition, hname⟩
  have hcount := count_generatedName_le_one hsettings hrequests hfresh hapart hgenerated
  -- the one place that the name has is in the condition
  have hown : 0 < (namesOf (lex condition.toList)).count name.toList := by
    rw [hnames]
    exact List.count_pos_iff.2 (List.mem_map_of_mem hname)
  rw [placeholderNames_eq, ← hlex, namesOf_append, namesOf_append, List.count_append,
    List.count_append] at hcount
  rw [← List.count_eq_zero, List.count_append]
  omega

end Start

theorem finish_bindings {query : Query} {events : List Event} {name : String} {v : Value}
    (hfinish : draft.finish = .ok (query, events)) (h : draft.bindings[name]? = some v) :
    query.bindings[name]? = some v := by
  obtain ⟨-, -, hquery⟩ := finish_eq_ok hfinish
  rw [hquery]
  cases draft.kind with
  | native => exact Query.getElem?_bindConstants h
  | object => exact h

/-- Values are bound to p1, p2, ... and s1, s2, ... in the order in which they come in, whatever the
statement and whichever requests fail; each keeps its name in the finished query, and nothing else is
bound by the requests. A generated name is that of a placeholder of the statement exactly if the
statement has one with a stem and a number that is handed out. If it has none, the settings are
usable and no condition is put right behind a line comment, each name stands in the text at most
once; in a well-formed statement each condition stands whole, and no other part of the text has its
names. -/
theorem generated_names {settings : Settings} {entity : String} {kind : QueryKind}
    {skeleton : Text} {requests : List Request}
    (hrequests : ∀ request ∈ requests, request.isConditions = true)
    {draft final : Draft} (hstart : draft = start settings entity kind skeleton)
    (hfinal : final = draft.attempts requests) :
    ∃ n m : Nat,
      draft.filterNames requests = (List.range' 1 n).map ("p" ++ toString ·) ∧
      draft.searchNames requests = (List.range' 1 m).map ("s" ++ toString ·) ∧
      (∀ p ∈ (draft.additions requests).flatMap Addition.bindings,
        final.bindings[p.1]? = some p.2 ∧
        ∀ query events, final.finish = .ok (query, events) → query.bindings[p.1]? = some p.2) ∧
      (∀ name, name ∉ draft.generatedNames requests → final.bindings[name]? = none) ∧
      ((∃ name ∈ draft.generatedNames requests, name.toList ∈ placeholderNames skeleton) ↔
        (∃ k, 0 < k ∧ k ≤ n ∧ ("p" ++ toString k).toList ∈ placeholderNames skeleton) ∨
          ∃ k, 0 < k ∧ k ≤ m ∧ ("s" ++ toString k).toList ∈ placeholderNames skeleton) ∧
      (settings.check = .ok () →
        (∀ name ∈ draft.generatedNames requests, name.toList ∉ placeholderNames skeleton) →
        draft.apartFromComments requests = true →
        (∀ name ∈ draft.generatedNames requests,
          (placeholderNames final.text).count name.toList ≤ 1) ∧
        (WellFormed skeleton →
          ∀ addition ∈ draft.additions requests, addition.StandsAlone final.text)) := by
  subst hstart hfinal
  obtain ⟨n, hfilter⟩ := @exists_filterNames_eq requests settings entity kind skeleton hrequests
  obtain ⟨m, hsearch⟩ := @exists_searchNames_eq requests settings entity kind skeleton hrequests
  have hp : (NameSupply.forFilters.draw n).1 = (List.range' 1 n).map ("p" ++ toString ·) := by
    rw [NameSupply.draw_eq]
    rfl
  have hs : (NameSupply.forSearch.draw m).1 = (List.range' 1 m).map ("s" ++ toString ·) := by
    rw [NameSupply.draw_eq]
    rfl
  refine ⟨n, m, hfilter.trans hp, hsearch.trans hs, ?_, ?_, ?_, ?_⟩
  · intro p hp
    have hbound := getElem?_bindings_attempts hrequests (nodup_generatedNames hrequests) hp
    exact ⟨hbound, fun query events hfinish => finish_bindings hfinish hbound⟩
  · intro name hname
    refine (getElem?_bindings_of_notMem hrequests hname).trans ?_
    exact Std.TreeMap.getElem?_emptyc
  · simp only [mem_generatedNames, or_and_right, exists_or, hfilter, hsearch,
      NameSupply.exists_mem_draw]
    have hn : NameSupply.forFilters.count + n = n := Nat.zero_add n
    have hm : NameSupply.forSearch.count + m = m := Nat.zero_add m
    rw [hn, hm]
    exact Iff.rfl
  · intro hsettings hfresh hapart
    refine ⟨fun name hname => ?_, fun hwell addition haddition => ?_⟩
    · exact count_generatedName_le_one hsettings hrequests hfresh hapart hname
    · exact standsAlone_of_mem_additions hsettings hrequests hfresh hapart hwell haddition

/-- A statement with placeholders of its own, one of them in a literal only. -/
def ownerSelect : Text :=
  "SELECT i.* FROM items i WHERE i.owner = :owner OR i.kind = :p9 OR i.note = ':p1' LIMIT :max".toList

/-- Requests of which the second one fails. -/
def requestsWithFailure : List Request :=
  [.conditions [.eq "Item" "tenant" (.text "a"), .or, .ge "Item" "rank" (.int 1)] none false,
   .conditions [.eq "Item" "tenant" (.text "b"), .eq "Unknown" "rank" (.int 1)] none false,
   .conditions [.eq "Item" "state" (.int 3)]
     (some ((Search.ofText "x").addFields "Item" ["name"])) false]

theorem generated_names_ownerSelect :
    (∀ request ∈ requestsWithFailure, request.isConditions = true) ∧
      ((start itemSettings "Item" .native ownerSelect).generatedNames requestsWithFailure =
        ["p1", "p2", "p3", "s1"]) ∧
      (∀ name ∈ (start itemSettings "Item" .native ownerSelect).generatedNames requestsWithFailure,
        (placeholderNames ((start itemSettings "Item" .native ownerSelect).attempts
          requestsWithFailure).text).count name.toList ≤ 1) ∧
      ∀ addition ∈ (start itemSettings "Item" .native ownerSelect).additions requestsWithFailure,
        addition.StandsAlone ((start itemSettings "Item" .native ownerSelect).attempts
          requestsWithFailure).text := by
  have hrequests : ∀ request ∈ requestsWithFailure, request.isConditions = true := by
    simp [requestsWithFailure, Request.isConditions]
  have hnames : (start itemSettings "Item" .native ownerSelect).generatedNames
      requestsWithFailure = ["p1", "p2", "p3", "s1"] := by
    decide +kernel
  have hfresh : ∀ name ∈ (start itemSettings "Item" .native ownerSelect).generatedNames
      requestsWithFailure, name.toList ∉ placeholderNames ownerSelect := by
    rw [hnames]
    decide +kernel
  have hwell : WellFormed ownerSelect := ⟨by decide +kernel, by decide +kernel⟩
  obtain ⟨n, m, -, -, -, -, -, halone⟩ :=
    @generated_names itemSettings "Item" .native ownerSelect requestsWithFailure hrequests _ _ rfl rfl
  obtain ⟨honce, hstands⟩ := halone rfl hfresh (by decide +kernel)
  exact ⟨hrequests, hnames, honce, hstands hwell⟩

/-- A statement with a placeholder that has the first name for values of filters. -/
def ownedSelect : Text := "SELECT i.* FROM items i WHERE i.owner = :p1".toList

/-- Settings that are not usable: the alias of the entity is not a name. -/
def loosePrefixSettings : Settings where
  catalog := Catalog.insert {} "Item" { tableAlias := ":p2 OR i" }

/-- A statement may have a name that is handed out. Then the value for the condition stands for the
placeholder of the statement too. With settings that are not usable, a column may have a placeholder
of such a name. -/
theorem shared_with_statement :
    (itemSettings.check = .ok () ∧ placeholderNames ownedSelect = ["p1".toList] ∧
      (start itemSettings "Item" .native ownedSelect).generatedNames
        [.conditions [.eq "Item" "tenant" (.text "a")] none false] = ["p1"] ∧
      ((start itemSettings "Item" .native ownedSelect).addConditions
          [.eq "Item" "tenant" (.text "a")] none false).toOption.map
        (fun draft => (String.ofList draft.text, (positional draft.bindings draft.text).toOption.map
          fun p => (String.ofList p.sql, p.values.map Value.text?))) =
        some ("SELECT i.* FROM items i WHERE i.owner = :p1 AND (i.tenant = :p1)",
          some ("SELECT i.* FROM items i WHERE i.owner = $1 AND (i.tenant = $1)", [some "a"]))) ∧
    loosePrefixSettings.check.toOption = none ∧
      ((start loosePrefixSettings "Item" .native "SELECT i.* FROM items i".toList).addConditions
          [.eq "Item" "a" (.int 1), .eq "Item" "b" (.int 2)] none false).toOption.map
        (fun draft => (placeholderNames draft.text).count "p2".toList) = some 3 :=
  ⟨⟨rfl, by decide +kernel, by decide +kernel, by decide +kernel⟩, rfl, by decide +kernel⟩

end QueryClauses.Draft
