import QueryClauses.Proofs.Condition.Alike
import QueryClauses.Proofs.Draft.Run

/-!
# Runs of requests that differ in values only

Two runs of alike requests end in the same text with values bound to the same names
(`run_alike`). Nothing is asked of the settings or of the statement: the text that a request finds
is the same in both runs, so that it is cut in the same places.
-/

namespace QueryClauses

inductive AlikeSearch : Option Search → Option Search → Prop
  | none : AlikeSearch none none
  | some {s t : Search} (h : s.Alike t) : AlikeSearch (some s) (some t)

/-- Requests that differ in values only. -/
inductive Request.Alike : Request → Request → Prop
  | conditions {fs gs : List Filter} {search search' : Option Search} {words : Bool}
      (hfilters : List.Forall₂ Filter.Alike fs gs) (hsearch : AlikeSearch search search') :
      Alike (conditions fs search words) (conditions gs search' words)
  | sortKeys {keys : List SortKey} {entity : String} :
      Alike (sortKeys keys entity) (sortKeys keys entity)

namespace Draft

structure Alike (d e : Draft) : Prop where
  settings : d.settings = e.settings
  entity : d.entity = e.entity
  text : d.text = e.text
  filterSupply : d.filterSupply = e.filterSupply
  searchSupply : d.searchSupply = e.searchSupply
  names : ∀ name, d.bindings.contains name = e.bindings.contains name

theorem Alike.rfl {d : Draft} : d.Alike d := ⟨Eq.refl _, Eq.refl _, Eq.refl _, Eq.refl _, Eq.refl _,
  fun _ => Eq.refl _⟩

structure Addition.Alike (a b : Addition) : Prop where
  filtered : a.filtered.Alike b.filtered
  searched : a.searched.Alike b.searched
  filterSupply : a.filterSupply = b.filterSupply
  searchSupply : a.searchSupply = b.searchSupply

theorem Addition.Alike.text? {a b : Addition} (h : a.Alike b) : a.text? = b.text? := by
  simp only [Addition.text?, List.filter_cons, List.filter_nil, h.filtered.isEmpty,
    h.searched.isEmpty]
  have hfiltered := h.filtered.text
  have hsearched := h.searched.text
  cases b.filtered.isEmpty <;> cases b.searched.isEmpty <;> simp [hfiltered, hsearched]

theorem Addition.Alike.names {a b : Addition} (h : a.Alike b) :
    a.bindings.map (·.1) = b.bindings.map (·.1) := by
  rw [Addition.bindings, Addition.bindings, List.map_append, List.map_append, h.filtered.names,
    h.searched.names]

theorem alike_searchCondition {d e : Draft} (h : d.Alike e) (filtered : List String)
    {search search' : Option Search} (hsearch : AlikeSearch search search') {words : Bool}
    {c c' : Condition} {supply supply' : NameSupply}
    (hd : d.searchCondition filtered search words = .ok (c, supply))
    (he : e.searchCondition filtered search' words = .ok (c', supply')) :
    c.Alike c' ∧ supply = supply' := by
  cases hsearch with
  | none =>
    cases hd
    cases he
    exact ⟨.rfl, h.searchSupply⟩
  | @some s t hst =>
    have hempty := hst.isEmpty
    cases hs : s.isEmpty with
    | true =>
      rw [hs] at hempty
      simp only [searchCondition, Option.filter_some, hs, ← hempty] at hd he
      cases hd
      cases he
      exact ⟨.rfl, h.searchSupply⟩
    | false =>
      rw [hs] at hempty
      simp only [searchCondition, Option.filter_some, hs, ← hempty] at hd he
      obtain ⟨columns, hcolumns, hd⟩ := bind_eq_ok.1 hd
      obtain ⟨columns', hcolumns', he⟩ := bind_eq_ok.1 he
      rw [h.settings, hst.columns, hcolumns'] at hcolumns
      cases hcolumns
      have halike := Search.alike_condition e.settings.escape
        (e.settings.searchesWords e.entity words)
        (columns.toList.filter (!filtered.contains ·)) hst.terms e.searchSupply
      rw [h.settings, h.entity, h.searchSupply] at hd
      cases hd
      cases he
      exact halike

theorem alike_generate {d e : Draft} (h : d.Alike e) {fs gs : List Filter}
    (hfilters : List.Forall₂ Filter.Alike fs gs) {search search' : Option Search}
    (hsearch : AlikeSearch search search') {words : Bool} {a b : Addition}
    (hd : d.generate fs search words = .ok a) (he : e.generate gs search' words = .ok b) :
    a.Alike b := by
  obtain ⟨hfd, hsd⟩ := generate_eq_ok hd
  obtain ⟨hfe, hse⟩ := generate_eq_ok he
  rw [h.settings, h.filterSupply] at hfd
  obtain ⟨hfiltered, hfilterSupply⟩ := Condition.alike_ofFilters hfilters hfd hfe
  rw [hfiltered.columns] at hsd
  obtain ⟨hsearched, hsearchSupply⟩ := alike_searchCondition h b.filtered.columns hsearch hsd hse
  exact ⟨hfiltered, hsearched, hfilterSupply, hsearchSupply⟩

/-- Alike requests leave alike drafts alike, if both succeed. -/
theorem alike_grant {d e d' e' : Draft} (h : d.Alike e) {r s : Request} (hrequest : r.Alike s)
    (hd : d.grant r = .ok d') (he : e.grant s = .ok e') : d'.Alike e' := by
  cases hrequest with
  | conditions hfilters hsearch =>
    obtain ⟨a, hgenerate, ha⟩ := addConditions_eq_ok hd
    obtain ⟨b, hgenerate', hb⟩ := addConditions_eq_ok he
    have hab := alike_generate h hfilters hsearch hgenerate hgenerate'
    rw [hab.text?] at ha
    obtain ⟨hnone, rfl⟩ | ⟨condition, hsome, -, rfl⟩ := ha
    · obtain ⟨-, rfl⟩ | ⟨condition', hsome', -, -⟩ := hb
      · exact h
      · rw [hnone] at hsome'
        cases hsome'
    · obtain ⟨hnone', -⟩ | ⟨condition', hsome', -, rfl⟩ := hb
      · rw [hnone'] at hsome
        cases hsome
      · rw [hsome] at hsome'
        cases hsome'
        refine ⟨h.settings, h.entity, ?_, hab.filterSupply, hab.searchSupply, fun name => ?_⟩
        · exact congrArg (Sql.addCondition condition.toList) h.text
        · simp only [extended, Std.TreeMap.contains_insertMany_list, h.names name]
          exact congrArg (_ || ·.contains name) hab.names
  | sortKeys =>
    obtain ⟨idColumn, hid, hd⟩ := addSortKeys_eq_ok hd
    obtain ⟨idColumn', hid', he⟩ := addSortKeys_eq_ok he
    rw [h.settings, hid'] at hid
    cases hid
    obtain ⟨hnil, rfl⟩ | ⟨hcons, columns, hcolumns, rfl⟩ := hd
    · obtain ⟨-, rfl⟩ | ⟨hcons, -⟩ := he
      · exact h
      · exact absurd hnil hcons
    · obtain ⟨hnil, -⟩ | ⟨-, columns', hcolumns', rfl⟩ := he
      · exact absurd hnil hcons
      · rw [sortColumns, h.settings, ← sortColumns, hcolumns'] at hcolumns
        cases hcolumns
        refine ⟨h.settings, h.entity, ?_, h.filterSupply, h.searchSupply, h.names⟩
        simp only [sorted, sortText, h.settings, h.text]

theorem Alike.run {d e d' e' : Draft} (h : d.Alike e) {rs ss : List Request}
    (hrequests : List.Forall₂ Request.Alike rs ss) (hd : d.run rs = .ok d')
    (he : e.run ss = .ok e') : d'.Alike e' := by
  induction hrequests generalizing d e with
  | nil =>
    cases hd
    cases he
    exact h
  | cons hrequest _ ih =>
    obtain ⟨next, hnext, hd⟩ := run_cons_eq_ok.1 hd
    obtain ⟨next', hnext', he⟩ := run_cons_eq_ok.1 he
    exact ih (alike_grant h hrequest hnext hnext') hd he

/-- Values do not reach the text: requests that differ in values only lead to the same text and to
values for the same names. -/
theorem run_alike {settings : Settings} {entity : String} {kind : QueryKind} {skeleton : Text}
    {requests requests' : List Request} (hrequests : List.Forall₂ Request.Alike requests requests')
    {d e : Draft} (hd : (start settings entity kind skeleton).run requests = .ok d)
    (he : (start settings entity kind skeleton).run requests' = .ok e) :
    d.text = e.text ∧ ∀ name, name ∈ d.bindings ↔ name ∈ e.bindings := by
  have halike := Alike.run .rfl hrequests hd he
  refine ⟨halike.text, fun name => ?_⟩
  rw [← Std.TreeMap.contains_iff_mem, ← Std.TreeMap.contains_iff_mem, halike.names name]

/-- Requests for a filter of each kind, for a search and for sort keys. -/
def requestsOf (name tag : Value) (title : String) (low high : Value) (states : List Value)
    (words : String) : List Request :=
  [.conditions
    [.opening, .eq "Item" "name" name, .or, .ne "Item" "tag" tag, .closing,
      .like "Item" "title" title, .and, .between "Item" "size" low high,
      .isIn "Item" "state" states, .eq "Item" "end" .null]
    (some ((Search.ofText words).addFields "Item" ["note"])) true,
   .sortKeys [⟨"Item", "size", .desc⟩] "Item"]

def plainRequests : List Request :=
  requestsOf (.int 7) (.text "") "" (.int 1) (.int 2) [.int 1] "red green"

/-- Requests for values that would be text of a statement if they were written into it. -/
def hostileRequests : List Request :=
  requestsOf (.text "' OR 1 = 1 --") (.bool true) "100%_:p1" (.text ") OR (") (.text "/*")
    [.text ":p9", .int 2, .bool false] "') ;--"

theorem run_alike_hostileRequests :
    List.Forall₂ Request.Alike plainRequests hostileRequests ∧
      ∃ d e, (start itemSettings "Item" .native "SELECT i.* FROM items i".toList).run
          plainRequests = .ok d ∧
        (start itemSettings "Item" .native "SELECT i.* FROM items i".toList).run
          hostileRequests = .ok e ∧
        d.text = e.text ∧ ∀ name, name ∈ d.bindings ↔ name ∈ e.bindings := by
  have hrequests : List.Forall₂ Request.Alike plainRequests hostileRequests := by
    refine .cons (.conditions ?_ (.some ⟨by decide +kernel, by decide +kernel⟩))
      (.cons .sortKeys .nil)
    exact .cons ⟨rfl, rfl, rfl, trivial⟩ <| .cons ⟨rfl, rfl, rfl, fun _ => rfl⟩ <|
      .cons ⟨rfl, rfl, rfl, trivial⟩ <| .cons ⟨rfl, rfl, rfl, fun _ => rfl⟩ <|
      .cons ⟨rfl, rfl, rfl, trivial⟩ <| .cons ⟨rfl, rfl, rfl, fun _ => rfl⟩ <|
      .cons ⟨rfl, rfl, rfl, trivial⟩ <| .cons ⟨rfl, rfl, rfl, trivial⟩ <|
      .cons ⟨rfl, rfl, rfl, trivial⟩ <| .cons ⟨rfl, rfl, rfl, fun _ => rfl⟩ .nil
  obtain ⟨d, hd⟩ := exists_eq_ok (x := (start itemSettings "Item" .native
    "SELECT i.* FROM items i".toList).run plainRequests) (by decide +kernel)
  obtain ⟨e, he⟩ := exists_eq_ok (x := (start itemSettings "Item" .native
    "SELECT i.* FROM items i".toList).run hostileRequests) (by decide +kernel)
  exact ⟨hrequests, d, e, hd, he, run_alike hrequests hd he⟩

end Draft

end QueryClauses
