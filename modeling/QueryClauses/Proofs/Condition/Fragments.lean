import QueryClauses.Proofs.Condition.Names
import QueryClauses.Proofs.Condition.Search

/-!
# What a condition is written with

What is generated is put together from keywords and signs of a fixed list, placeholders, the escape
character and columns (`Fragment`). The columns of a condition are those of the fields that its
comparisons name, each looked up in the catalog (`Condition.composed_ofFilters`); those of a search
are the columns that are searched (`Search.composed_condition`). Nothing else that comes with a
request gets into the text.
-/

namespace QueryClauses

open Sql

/-- A fragment of generated text. -/
inductive Fragment where
  /-- A keyword, a sign or a parenthesis. -/
  | mark (s : String)
  | placeholder (name : String)
  /-- The escape character as a literal. -/
  | escape (c : Char)
  /-- A field of an alias. -/
  | column (tableAlias field : String)

namespace Fragment

def text : Fragment → Text
  | mark s => s.toList
  | placeholder name => ':' :: name.toList
  | escape c => ['\'', c, '\'']
  | column tableAlias field => (Identifier.qualify tableAlias field).toList

/-- The keywords and signs of conditions and sort keys. -/
def marks : List String :=
  ["(", ")", " ", ", ", "=", "!=", ">", ">=", "<", "<=", " <= ", " IN (", " LIKE ", " ESCAPE ",
    " IS NULL", " IS NOT NULL", " AND ", " OR ", "ASC", "DESC", " NULLS FIRST", " NULLS LAST",
    "CASE WHEN ", " IS NULL THEN 0 ELSE 1 END "]

end Fragment

/-- The text of fragments, one behind the other. -/
def writing (fs : List Fragment) : Text := fs.flatMap Fragment.text

theorem writing_append (fs gs : List Fragment) : writing (fs ++ gs) = writing fs ++ writing gs :=
  List.flatMap_append

/-- A text is made of fragments that have a property. -/
def Composed (P : Fragment → Prop) (s : Text) : Prop :=
  ∃ fs, s = writing fs ∧ ∀ f ∈ fs, P f

namespace Composed

variable {P : Fragment → Prop} {s t : Text}

theorem nil : Composed P [] := ⟨[], rfl, List.forall_mem_nil _⟩

theorem fragment {f : Fragment} (hf : P f) : Composed P f.text :=
  ⟨[f], (List.flatMap_singleton _ _).symm, List.forall_mem_singleton.2 hf⟩

theorem append (hs : Composed P s) (ht : Composed P t) : Composed P (s ++ t) := by
  obtain ⟨fs, rfl, hfs⟩ := hs
  obtain ⟨gs, rfl, hgs⟩ := ht
  exact ⟨fs ++ gs, (writing_append fs gs).symm, List.forall_mem_append.2 ⟨hfs, hgs⟩⟩

theorem intercalate {sep : Text} (hsep : Composed P sep) {parts : List Text}
    (hparts : ∀ part ∈ parts, Composed P part) : Composed P (sep.intercalate parts) := by
  induction parts with
  | nil => exact nil
  | cons part parts ih =>
    obtain ⟨hpart, hparts⟩ := List.forall_mem_cons.1 hparts
    cases parts with
    | nil => simpa using hpart
    | cons part' parts =>
      rw [List.intercalate_cons_cons]
      exact (hpart.append hsep).append (ih hparts)

theorem mark (hmarks : ∀ s ∈ Fragment.marks, P (.mark s)) {s : String} (hs : s ∈ Fragment.marks) :
    Composed P s.toList :=
  fragment (hmarks s hs)

end Composed

/-! ## Columns -/

/-- A catalog offers a field of an entity: the field passes the check, and it is one of the known
fields if these are known. -/
structure Catalog.Offers (catalog : Catalog) (name field : String) (entity : Entity) : Prop where
  found : catalog.find name = .ok entity
  checked : Identifier.checkField field = .ok ()
  known : entity.fields.all (·.contains field) = true

/-- A column is a field that is offered, behind the alias of its entity. -/
theorem Catalog.column_eq_ok_iff {catalog : Catalog} {name field column : String} :
    catalog.column name field = .ok column ↔
      ∃ entity, catalog.Offers name field entity ∧
        column = Identifier.qualify entity.tableAlias field := by
  constructor
  · intro h
    unfold Catalog.column at h
    split at h
    · cases h
    rename_i entity hfound
    split at h
    · cases h
    rename_i hchecked
    split at h
    · rename_i hknown
      cases h
      exact ⟨entity, ⟨hfound, hchecked, hknown⟩, rfl⟩
    · cases h
  · rintro ⟨entity, ⟨hfound, hchecked, hknown⟩, rfl⟩
    rw [Catalog.column, hfound]
    dsimp only
    rw [hchecked]
    exact if_pos hknown

theorem Catalog.idColumn_eq_ok_iff {catalog : Catalog} {name column : String} :
    catalog.idColumn name = .ok column ↔ ∃ entity, catalog.find name = .ok entity ∧
      column = Identifier.qualify entity.tableAlias entity.idField := by
  unfold Catalog.idColumn
  cases catalog.find name with
  | error failure => simp [Except.map]
  | ok entity => simp [Except.map, eq_comm]

/-- The fields that filters name, each with its entity. -/
def Filter.fieldList (fs : List Filter) : List (String × String) :=
  fs.filterMap fun f => f.entity.bind fun entity => f.field.map (entity, ·)

/-- What is compared is a field that a filter names. -/
theorem Element.mem_fieldList_of_readFrom {pos depth : Nat} {preceding : Preceding}
    {fs : List Filter} {es : List Element} (h : readFrom pos depth preceding fs = .ok es)
    {entity field : String} {k : Comparison} (hmem : .comparison entity field k ∈ es) :
    (entity, field) ∈ Filter.fieldList fs := by
  induction fs generalizing pos depth preceding es with
  | nil =>
    rw [(readFrom_nil h).1] at hmem
    cases hmem
  | cons f fs ih =>
    obtain ⟨e, es', depth', preceding', rfl, hstep, hrest⟩ := readFrom_cons h
    have hsub : Filter.fieldList fs ⊆ Filter.fieldList (f :: fs) :=
      ((List.sublist_cons_self f fs).filterMap _).subset
    rcases List.mem_cons.1 hmem with heq | hmem
    · subst heq
      cases hstep with
      | comparison hf hentity hfield hk => simp [Filter.fieldList, hentity, hfield]
    · exact hsub (ih hrest hmem)

section Conditions

variable {P : Fragment → Prop} (hmarks : ∀ s ∈ Fragment.marks, P (.mark s))
include hmarks

theorem composed_implicitOr (behind : Bool) :
    Composed P (Condition.implicitOr behind).toList := by
  cases behind with
  | false => exact .nil
  | true => exact .mark hmarks (by decide)

variable {escape : Char} (hescape : P (.escape escape))
include hescape

theorem Condition.composed_like {tableAlias field name : String} (hname : P (.placeholder name))
    (hcolumn : P (.column tableAlias field)) (pattern : Text) : Composed P
      (Condition.like escape (Identifier.qualify tableAlias field) name pattern).text.toList := by
  refine ⟨[.column tableAlias field, .mark " LIKE ", .placeholder name, .mark " ESCAPE ",
    .escape escape], ?_, ?_⟩
  · simp [Condition.like, writing, Fragment.text]
  · simp only [List.forall_mem_cons]
    exact ⟨hcolumn, hmarks _ (by decide), hname, hmarks _ (by decide), hescape,
      List.forall_mem_nil _⟩

/-- A comparison is written with its column and the names that are bound with it. -/
theorem Comparison.composed_written {tableAlias field : String} {supply : NameSupply}
    {k : Comparison}
    (hnames : ∀ name ∈ (k.written escape (Identifier.qualify tableAlias field) supply).1.names,
      P (.placeholder name)) (hcolumn : P (.column tableAlias field)) :
    Composed P (k.written escape (Identifier.qualify tableAlias field) supply).1.text.toList := by
  cases k with
  | isNull =>
    refine ⟨[.column tableAlias field, .mark " IS NULL"], ?_, ?_⟩
    · simp [written, writing, Fragment.text]
    · simp only [List.forall_mem_cons]
      exact ⟨hcolumn, hmarks _ (by decide), List.forall_mem_nil _⟩
  | isNotNull =>
    refine ⟨[.column tableAlias field, .mark " IS NOT NULL"], ?_, ?_⟩
    · simp [written, writing, Fragment.text]
    · simp only [List.forall_mem_cons]
      exact ⟨hcolumn, hmarks _ (by decide), List.forall_mem_nil _⟩
  | compares sign v =>
    have hblank : P (.mark " ") := hmarks _ (by decide)
    have hsign : P (.mark sign.text) := hmarks _ (by cases sign <;> decide)
    have hname : P (.placeholder supply.next.1) := hnames _ List.mem_cons_self
    refine ⟨[.column tableAlias field, .mark " ", .mark sign.text, .mark " ",
      .placeholder supply.next.1], ?_, ?_⟩
    · simp [written, writing, Fragment.text]
    · simp only [List.forall_mem_cons]
      exact ⟨hcolumn, hblank, hsign, hblank, hname, List.forall_mem_nil _⟩
  | contains s =>
    exact Condition.composed_like hmarks hescape (hnames _ List.mem_cons_self) hcolumn _
  | between low high =>
    have hlow : P (.placeholder supply.next.1) := hnames _ List.mem_cons_self
    have hhigh : P (.placeholder supply.next.2.next.1) :=
      hnames _ (List.mem_cons_of_mem _ List.mem_cons_self)
    have hsign : P (.mark " <= ") := hmarks _ (by decide)
    refine ⟨[.mark "(", .placeholder supply.next.1, .mark " <= ", .column tableAlias field,
      .mark " AND ", .column tableAlias field, .mark " <= ", .placeholder supply.next.2.next.1,
      .mark ")"], ?_, ?_⟩
    · simp [written, writing, Fragment.text]
    · simp only [List.forall_mem_cons]
      exact ⟨hmarks _ (by decide), hlow, hsign, hcolumn, hmarks _ (by decide), hcolumn, hsign,
        hhigh, hmarks _ (by decide), List.forall_mem_nil _⟩
  | isIn vs =>
    have hname : P (.placeholder supply.next.1) := hnames _ List.mem_cons_self
    refine ⟨[.column tableAlias field, .mark " IN (", .placeholder supply.next.1, .mark ")"],
      ?_, ?_⟩
    · simp [written, writing, Fragment.text]
    · simp only [List.forall_mem_cons]
      exact ⟨hcolumn, hmarks _ (by decide), hname, hmarks _ (by decide), List.forall_mem_nil _⟩

/-- What is written for elements is made of the columns of their comparisons and of the names that
are bound. -/
theorem Condition.Written.composed {catalog : Catalog} {behind : Bool} {supply supply' : NameSupply}
    {es : List Element} {c : Condition} {ts : List Token}
    (h : Written catalog escape behind supply es c ts supply')
    (hnames : ∀ name ∈ c.names, P (.placeholder name))
    (hcolumns : ∀ name field k entity, .comparison name field k ∈ es →
      catalog.Offers name field entity → P (.column entity.tableAlias field)) :
    Composed P c.text.toList := by
  have hmark : ∀ {s c}, s ∈ Fragment.marks → Composed P c.text.toList →
      Composed P (Condition.mark s ++ c).text.toList := by
    intro s c hs hc
    rw [Condition.text_append, String.toList_append]
    exact (Composed.mark hmarks hs).append hc
  have hrest : ∀ {e : Element} {es : List Element},
      (∀ name field k entity, .comparison name field k ∈ e :: es →
        catalog.Offers name field entity → P (.column entity.tableAlias field)) →
      ∀ name field k entity, .comparison name field k ∈ es →
        catalog.Offers name field entity → P (.column entity.tableAlias field) :=
    fun h name field k entity hmem => h name field k entity (List.mem_cons_of_mem _ hmem)
  induction h with
  | nil => exact .nil
  | @opening behind supply supply' es c ts h ih =>
    have hc := ih (by simpa using hnames) (hrest hcolumns)
    rw [Condition.text_append, String.toList_append, Condition.mark, String.toList_append]
    exact ((composed_implicitOr hmarks behind).append (.mark hmarks (by decide))).append hc
  | closing h ih => exact hmark (by decide) (ih (by simpa using hnames) (hrest hcolumns))
  | and h ih => exact hmark (by decide) (ih (by simpa using hnames) (hrest hcolumns))
  | or h ih => exact hmark (by decide) (ih (by simpa using hnames) (hrest hcolumns))
  | @comparison behind supply supply' es c ts name field column k hcolumn h ih =>
    obtain ⟨entity, hoffers, rfl⟩ := Catalog.column_eq_ok_iff.1 hcolumn
    rw [Condition.names_append, Condition.names_append, Condition.names_mark, List.nil_append,
      List.forall_mem_append] at hnames
    have hk := Comparison.composed_written hmarks hescape hnames.1
      (hcolumns name field k entity List.mem_cons_self hoffers)
    rw [Condition.text_append, Condition.text_append, String.toList_append, String.toList_append]
    exact ((composed_implicitOr hmarks behind).append hk).append (ih hnames.2 (hrest hcolumns))

/-- The condition of filters is made of columns of the fields that the filters name. -/
theorem Condition.composed_ofFilters {catalog : Catalog} {supply supply' : NameSupply}
    {fs : List Filter} {c : Condition} (h : ofFilters catalog escape supply fs = (.ok c, supply'))
    (hnames : ∀ name ∈ c.names, P (.placeholder name))
    (hcolumns : ∀ name field entity, (name, field) ∈ Filter.fieldList fs →
      catalog.Offers name field entity → P (.column entity.tableAlias field)) :
    Composed P c.text.toList := by
  unfold ofFilters at h
  cases hread : Element.read fs with
  | error fault =>
    rw [hread] at h
    cases h
  | ok es =>
    rw [hread] at h
    obtain ⟨ts, hwritten⟩ := written_of_ofElements h
    exact hwritten.composed hmarks hescape hnames fun name field k entity hmem =>
      hcolumns name field entity (Element.mem_fieldList_of_readFrom hread hmem)

theorem Search.composed_comparisons {supply : NameSupply} {ps : List (String × Text)}
    (hnames : ∀ name ∈ (comparisons escape supply ps).1.flatMap Condition.names,
      P (.placeholder name))
    (hcolumns : ∀ p ∈ ps, ∃ tableAlias field, p.1 = Identifier.qualify tableAlias field ∧
      P (.column tableAlias field)) :
    ∀ c ∈ (comparisons escape supply ps).1, Composed P c.text.toList := by
  induction ps generalizing supply with
  | nil => exact List.forall_mem_nil _
  | cons p ps ih =>
    obtain ⟨⟨tableAlias, field, hp, hcolumn⟩, hcolumns⟩ := List.forall_mem_cons.1 hcolumns
    rw [comparisons, List.flatMap_cons, List.forall_mem_append] at hnames
    refine List.forall_mem_cons.2 ⟨?_, ih hnames.2 hcolumns⟩
    rw [hp]
    exact Condition.composed_like hmarks hescape (hnames.1 _ List.mem_cons_self) hcolumn _

/-- The condition of a search is made of the columns that are searched. -/
theorem Search.composed_condition {words : Bool} {columns terms : List String} {supply : NameSupply}
    (hnames : ∀ name ∈ (condition escape words columns terms supply).1.names,
      P (.placeholder name))
    (hcolumns : ∀ column ∈ columns, ∃ tableAlias field,
      column = Identifier.qualify tableAlias field ∧ P (.column tableAlias field)) :
    Composed P (condition escape words columns terms supply).1.text.toList := by
  rw [names_condition] at hnames
  have hparts := Search.composed_comparisons hmarks hescape hnames fun p hp =>
    hcolumns p.1 (mem_alternatives hp)
  have htext : (condition escape words columns terms supply).1.text.toList =
      " OR ".toList.intercalate ((comparisons escape supply
        (alternatives escape words columns terms)).1.map (·.text.toList)) := by
    rw [condition, String.toList_intercalate, List.map_map]
    rfl
  rw [htext]
  exact (Composed.mark hmarks (by decide)).intercalate (List.forall_mem_map.2 hparts)

end Conditions

end QueryClauses
