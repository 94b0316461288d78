import QueryClauses.Proofs.Condition.Search
import QueryClauses.Proofs.Condition.Text
import QueryClauses.Proofs.Draft.Calls

/-!
# The elements of an addition

The conditions that are generated for a request are put in parentheses and joined by AND
(`writes_text`): their placeholders are those that are bound with them, and at top level there is
nothing but AND.
-/

namespace QueryClauses

open Sql

theorem Settings.of_check {settings : Settings} (h : settings.check = .ok ()) :
    Pattern.isUsableEscape settings.escape = true ∧ settings.catalog.check = .ok () := by
  obtain ⟨u, hescape, h⟩ := bind_eq_ok.1 h
  obtain ⟨-, -, hcatalog⟩ := bind_eq_ok.1 h
  refine ⟨?_, hcatalog⟩
  unfold Settings.checkEscape at hescape
  split at hescape
  · assumption
  · cases hescape

namespace Draft

/-- A draft whose settings are usable and whose supplies have the stems they started with. -/
structure Sound (draft : Draft) : Prop where
  settings : draft.settings.check = .ok ()
  filterStem : draft.filterSupply.stem = "p"
  searchStem : draft.searchSupply.stem = "s"

theorem Sound.isName_filterStem {draft : Draft} (hdraft : draft.Sound) :
    IsName draft.filterSupply.stem.toList := by
  rw [hdraft.filterStem]
  exact isName_p

theorem Sound.isName_searchStem {draft : Draft} (hdraft : draft.Sound) :
    IsName draft.searchSupply.stem.toList := by
  rw [hdraft.searchStem]
  exact isName_s

/-- The conditions of an addition have elements whose parentheses are in pairs. -/
structure Addition.Sound (addition : Addition) : Prop where
  filtered : ∃ ts, addition.filtered.Writes ts ∧ IsBalanced ts
  searched : ∃ ts, addition.searched.Writes ts ∧ IsBalanced ts
  filterStem : addition.filterSupply.stem = "p"
  searchStem : addition.searchSupply.stem = "s"

theorem writes_empty : Condition.Writes {} [] := ⟨rfl, lex_nil, by simp, rfl⟩

/-- The condition of a search: none without terms or fields, otherwise that of the columns that are
found and left. -/
theorem searchCondition_eq_ok {draft : Draft} {filtered : List String} {search : Option Search}
    {words : Bool} {r : Condition × NameSupply}
    (h : draft.searchCondition filtered search words = .ok r) :
    (search.all Search.isEmpty = true ∧ r = ({}, draft.searchSupply)) ∨
      ∃ s columns, search = some s ∧ s.columns draft.settings.catalog = .ok columns ∧
        r = Search.condition draft.settings.escape
          (draft.settings.searchesWords draft.entity words)
          (columns.toList.filter (!filtered.contains ·)) s.terms draft.searchSupply := by
  unfold Draft.searchCondition at h
  split at h
  · rename_i hnone
    cases h
    refine .inl ⟨?_, rfl⟩
    cases search with
    | none => rfl
    | some s => simpa [Option.filter_some] using hnone
  · rename_i s hsome
    obtain ⟨rfl, -⟩ := Option.filter_eq_some_iff.1 hsome
    obtain ⟨columns, hcolumns, h⟩ := bind_eq_ok.1 h
    cases h
    exact .inr ⟨s, columns, rfl, hcolumns, rfl⟩

theorem Sound.searchCondition {draft : Draft} (hdraft : draft.Sound) {filtered : List String}
    {search : Option Search} {words : Bool} {c : Condition} {supply : NameSupply}
    (h : draft.searchCondition filtered search words = .ok (c, supply)) :
    (∃ ts, c.Writes ts ∧ IsBalanced ts) ∧ supply.stem = "s" := by
  obtain ⟨hescape, hcatalog⟩ := Settings.of_check hdraft.settings
  rcases searchCondition_eq_ok h with ⟨-, h⟩ | ⟨search', columns, -, hcolumns, h⟩
  · cases h
    exact ⟨⟨[], writes_empty, rfl⟩, hdraft.searchStem⟩
  · have hall := Search.isColumn_of_columns hcatalog hcolumns
    have hfree : ∀ column ∈ columns.toList.filter (!filtered.contains ·), IsColumn column.toList :=
      fun column hc => hall column (List.mem_of_mem_filter hc)
    obtain ⟨ts, hts, hbalanced, hstem'⟩ := @Search.writes_condition _ hescape
      (draft.settings.searchesWords draft.entity words) _ search'.terms hfree _
      hdraft.isName_searchStem
    rw [← h] at hts hstem'
    exact ⟨⟨ts, hts, hbalanced⟩, hstem'.trans hdraft.searchStem⟩

/-- What a request is generated from. -/
theorem generate_eq_ok {draft : Draft} {filters : List Filter} {search : Option Search}
    {words : Bool} {addition : Addition}
    (h : draft.generate filters search words = .ok addition) :
    Condition.ofFilters draft.settings.catalog draft.settings.escape draft.filterSupply filters =
        (.ok addition.filtered, addition.filterSupply) ∧
      draft.searchCondition addition.filtered.columns search words =
        .ok (addition.searched, addition.searchSupply) := by
  obtain ⟨-, -, h⟩ := bind_eq_ok.1 h
  obtain ⟨filtered, hfiltered, h⟩ := bind_eq_ok.1 h
  obtain ⟨⟨searched, searchSupply⟩, hsearched, h⟩ := bind_eq_ok.1 h
  cases h
  exact ⟨Prod.ext hfiltered rfl, hsearched⟩

theorem Sound.generate {draft : Draft} (hdraft : draft.Sound) {filters : List Filter}
    {search : Option Search} {words : Bool} {addition : Addition}
    (h : draft.generate filters search words = .ok addition) : addition.Sound := by
  obtain ⟨hescape, hcatalog⟩ := Settings.of_check hdraft.settings
  obtain ⟨hfilters, hsearch⟩ := generate_eq_ok h
  obtain ⟨ts, hts, hbalanced, hstem'⟩ :=
    Condition.writes_ofFilters hcatalog hescape hdraft.isName_filterStem hfilters
  obtain ⟨hsearched, hstem''⟩ := hdraft.searchCondition hsearch
  exact ⟨⟨ts, hts, hbalanced⟩, hsearched, hstem'.trans hdraft.filterStem, hstem''⟩

/-! ## The text of an addition -/

namespace Addition

/-- AND with a blank on either side. -/
def andTokens : List Token := keywords ["AND"] ++ [blank ' ']

theorem textOf_group (ts : List Token) : textOf (group ts) = '(' :: (textOf ts ++ [')']) := by
  simp [group, parenOpen, parenClose]

theorem tidy_group {ts : List Token} {names : List Text} (h : Tidy ts names) :
    Tidy (group ts) names := by
  have hopen : Tidy [parenOpen] [] := tidy_of_eval (by decide +kernel)
  have hclose : Tidy [parenClose] [] := tidy_of_eval (by decide +kernel)
  have := (hopen.append_of_leavesOff h (.inr rfl)).append_of_beginsApart hclose
    (beginsApart_cons rfl _)
  simpa [group] using this

/-- IsBalanced parts between ANDs have no other word at top level. -/
theorem topWordsFrom_intercalate {parts : List (List Token)}
    (h : ∀ part ∈ parts, IsBalanced part) :
    IsBalanced (andTokens.intercalate (parts.map group)) ∧
      ∀ w ∈ topWordsFrom 0 (andTokens.intercalate (parts.map group)), w = "AND".toList := by
  induction parts with
  | nil => exact ⟨rfl, by simp [topWordsFrom]⟩
  | cons part parts ih =>
    have hpart := h part List.mem_cons_self
    have ih := ih fun part hp => h part (List.mem_cons_of_mem _ hp)
    cases parts with
    | nil =>
      rw [List.map_singleton, List.intercalate_singleton]
      refine ⟨hpart.group, ?_⟩
      rw [topWordsFrom_group hpart]
      simp
    | cons part' parts =>
      obtain ⟨hbalanced, hwords⟩ := ih
      have hand : IsBalanced andTokens := by decide
      rw [List.map_cons, List.map_cons, List.intercalate_cons_cons, ← List.map_cons]
      refine ⟨(hpart.group.append hand).append hbalanced, ?_⟩
      intro w hw
      rw [topWordsFrom_append, topWordsFrom_append, topWordsFrom_group hpart,
        (hpart.group.append hand).depthFrom_eq, hpart.group.depthFrom_eq] at hw
      rcases List.mem_append.1 hw with hw | hw
      · have hwords : topWordsFrom 0 andTokens = ["AND".toList] := by decide
        rwa [hwords, List.nil_append, List.mem_singleton] at hw
      · exact hwords w hw

theorem exists_forall₂ {cs : List Condition} (h : ∀ c ∈ cs, ∃ ts, c.Writes ts ∧ IsBalanced ts) :
    ∃ parts, List.Forall₂ Condition.Writes cs parts ∧ ∀ part ∈ parts, IsBalanced part := by
  induction cs with
  | nil => exact ⟨[], .nil, by simp⟩
  | cons c cs ih =>
    obtain ⟨parts, hparts, hbalanced⟩ := ih fun c hc => h c (List.mem_cons_of_mem _ hc)
    obtain ⟨part, hpart, hb⟩ := h c List.mem_cons_self
    exact ⟨part :: parts, .cons hpart hparts, List.forall_mem_cons.2 ⟨hb, hbalanced⟩⟩

/-- Nothing is bound with a condition without text. -/
theorem bindings_of_isEmpty {c : Condition} {ts : List Token} (h : c.Writes ts)
    (hempty : c.isEmpty = true) : c.bindings = [] := by
  have htext : c.text = "" := by simpa [Condition.isEmpty] using hempty
  have hts : ts = [] := by
    rw [← h.lex_text, htext]
    exact lex_nil
  have hnames := h.tidy.names
  rw [hts] at hnames
  simpa [namesOf] using hnames.symm

/-- Parts in parentheses begin and end with one. -/
theorem intercalate_group {parts : List (List Token)} (h : parts ≠ []) :
    ∃ g, andTokens.intercalate (parts.map group) = group g := by
  induction parts with
  | nil => exact absurd rfl h
  | cons part parts ih =>
    cases parts with
    | nil => exact ⟨part, by simp⟩
    | cons part' parts =>
      obtain ⟨g, hg⟩ := ih (List.cons_ne_nil part' parts)
      refine ⟨part ++ [parenClose] ++ andTokens ++ [parenOpen] ++ g, ?_⟩
      rw [List.map_cons, List.map_cons, List.intercalate_cons_cons, ← List.map_cons, hg]
      simp [group]

/-- The values of an addition are those of the conditions that its text is made of. -/
theorem Sound.flatMap_bindings {addition : Addition} (h : addition.Sound) :
    ([addition.filtered, addition.searched].filter (!·.isEmpty)).flatMap (·.bindings) =
      addition.bindings := by
  have hf : addition.filtered.isEmpty = true → addition.filtered.bindings = [] := by
    obtain ⟨ts, hts, -⟩ := h.filtered
    exact bindings_of_isEmpty hts
  have hs : addition.searched.isEmpty = true → addition.searched.bindings = [] := by
    obtain ⟨ts, hts, -⟩ := h.searched
    exact bindings_of_isEmpty hts
  unfold Addition.bindings
  cases hfe : addition.filtered.isEmpty <;> cases hse : addition.searched.isEmpty <;>
    simp_all

/-- The text of an addition: its placeholders are those that are bound with it, its parentheses are
in pairs, it begins and ends with one, and at top level there is no word but AND. -/
theorem Sound.writes_text {addition : Addition} (h : addition.Sound) {text : String}
    (htext : addition.text? = some text) :
    ∃ ts, text.toList = textOf ts ∧ Tidy ts (addition.bindings.map (·.1.toList)) ∧ IsBalanced ts ∧
      (∃ g, ts = group g) ∧ ∀ w ∈ topWordsFrom 0 ts, w = "AND".toList := by
  have hall : ∀ c ∈ [addition.filtered, addition.searched], ∃ ts, c.Writes ts ∧ IsBalanced ts := by
    intro c hc
    simp only [List.mem_cons, List.not_mem_nil, or_false] at hc
    rcases hc with rfl | rfl
    · exact h.filtered
    · exact h.searched
  have hbindings := h.flatMap_bindings
  simp only [Addition.text?] at htext
  generalize hinner : [addition.filtered, addition.searched].filter (!·.isEmpty) = inner at *
  have hmem : ∀ c ∈ inner, ∃ ts, c.Writes ts ∧ IsBalanced ts := by
    intro c hc
    rw [← hinner] at hc
    exact hall c (List.mem_of_mem_filter hc)
  obtain ⟨parts, hparts, hbalanced⟩ := exists_forall₂ hmem
  obtain ⟨hnames, htexts, htidy⟩ := Condition.names_of_forall₂ hparts
  obtain ⟨hbal, hwords⟩ := topWordsFrom_intercalate hbalanced
  have hand : Tidy andTokens [] := tidy_of_eval (by decide +kernel)
  refine ⟨andTokens.intercalate (parts.map group), ?_, ?_, hbal, ?_, hwords⟩
  · split at htext
    · cases htext
    · cases htext
      rw [textOf_intercalate, String.toList_intercalate]
      have hgroups : (parts.map group).map textOf =
          (parts.map textOf).map fun s => '(' :: (s ++ [')']) := by
        simp [textOf_group]
      rw [hgroups, htexts]
      simp only [List.map_map]
      congr 1
      apply List.map_congr_left
      intro c _
      simp
  · have hgroups : ∀ part ∈ parts.map group, Tidy part (namesOf part) := by
      intro part hpart
      obtain ⟨part, hmem, rfl⟩ := List.mem_map.1 hpart
      have hgroup := tidy_group (htidy part hmem)
      exact ⟨hgroup.lexed, hgroup.tame, rfl⟩
    have hflat : (parts.map group).flatMap namesOf = parts.flatMap namesOf := by
      rw [List.flatMap_map]
      exact List.flatMap_congr fun part hpart => (tidy_group (htidy part hpart)).names
    have := hand.intercalate (beginsApart_cons rfl _) (LeavesOff.append (.inl rfl) _) hgroups
    rwa [hflat, hnames, hbindings] at this
  · apply intercalate_group
    rintro rfl
    cases hparts
    cases htext

end Addition

end Draft

end QueryClauses
