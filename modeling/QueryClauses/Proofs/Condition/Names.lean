import Mathlib.Data.List.Nodup
import QueryClauses.Proofs.Condition.Search
import QueryClauses.Proofs.Condition.Text
import QueryClauses.Proofs.Sql.Mentions
import Std.Data.String.ToNat

/-!
# Names of the values in a condition

The values of a condition are bound under the names that a supply hands out next, in that order
(`draws_ofFilters`, `draws_condition`); no two of them are the same (`nodup_draw`). The text of a
condition mentions each of these names once, and no other (`mentionsNames_ofFilters`,
`mentionsNames_condition`).
-/

namespace QueryClauses

open Sql CharClass

/-! ## Names that are drawn -/

namespace NameSupply

variable {supply between rest : NameSupply} {names names' : List String}

theorem draw_eq (supply : NameSupply) (n : Nat) :
    supply.draw n = ((List.range' (supply.count + 1) n).map supply.name,
      { supply with count := supply.count + n }) := by
  induction n generalizing supply with
  | zero => rfl
  | succ n ih =>
    rw [draw]
    simp only [ih, next, List.range'_succ, List.map_cons]
    rw [Nat.add_right_comm supply.count 1 n]
    rfl

theorem draw_add (supply : NameSupply) (m n : Nat) : supply.draw (m + n) =
    ((supply.draw m).1 ++ ((supply.draw m).2.draw n).1, ((supply.draw m).2.draw n).2) := by
  induction m generalizing supply with
  | zero => rw [Nat.zero_add, draw, List.nil_append]
  | succ m ih =>
    rw [Nat.add_right_comm, draw, draw]
    simp only [ih, List.cons_append]

/-- Names that a supply hands out next, and the supply without them. -/
structure Draws (supply : NameSupply) (names : List String) (rest : NameSupply) : Prop where
  names_eq : names = (supply.draw names.length).1
  rest_eq : rest = (supply.draw names.length).2

theorem draws_nil (supply : NameSupply) : supply.Draws [] supply := ⟨rfl, rfl⟩

theorem draws_next (supply : NameSupply) : supply.Draws [supply.next.1] supply.next.2 := ⟨rfl, rfl⟩

theorem Draws.append (h : supply.Draws names between) (h' : between.Draws names' rest) :
    supply.Draws (names ++ names') rest := by
  constructor
  · rw [List.length_append, draw_add, ← h.rest_eq, ← h.names_eq, ← h'.names_eq]
  · rw [List.length_append, draw_add, ← h.rest_eq, ← h'.rest_eq]

theorem name_injective (supply : NameSupply) : Function.Injective supply.name := by
  intro m n h
  have htail := congrArg String.toList h
  rw [name, name, String.toList_append, String.toList_append] at htail
  exact Nat.repr_inj.1 (String.toList_injective (List.append_cancel_left htail))

theorem nodup_draw (supply : NameSupply) (n : Nat) : (supply.draw n).1.Nodup := by
  rw [draw_eq]
  exact (List.nodup_range' 1).map supply.name_injective

theorem exists_mem_draw {p : String → Prop} {n : Nat} : (∃ name ∈ (supply.draw n).1, p name) ↔
    ∃ k, supply.count < k ∧ k ≤ supply.count + n ∧ p (supply.name k) := by
  rw [draw_eq]
  constructor
  · rintro ⟨name, hname, h⟩
    obtain ⟨k, hk, rfl⟩ := List.mem_map.1 hname
    rw [List.mem_range'_1] at hk
    exact ⟨k, by omega, by omega, h⟩
  · rintro ⟨k, hlow, hhigh, h⟩
    have hk : k ∈ List.range' (supply.count + 1) n := List.mem_range'_1.2 ⟨hlow, by omega⟩
    exact ⟨supply.name k, List.mem_map_of_mem hk, h⟩

theorem head?_of_mem_draw {name : String} {n : Nat} (h : name ∈ (supply.draw n).1) {c : Char}
    (hstem : supply.stem.toList = [c]) : name.toList.head? = some c := by
  obtain ⟨k, -, -, rfl⟩ := exists_mem_draw.1 ⟨name, h, rfl⟩
  rw [NameSupply.name, String.toList_append, hstem]
  rfl

theorem Draws.nodup (h : supply.Draws names rest) : names.Nodup := by
  rw [h.names_eq]
  exact supply.nodup_draw _

theorem Draws.count_eq (h : supply.Draws names rest) :
    rest.count = supply.count + names.length := by
  rw [h.rest_eq, draw_eq]

theorem Draws.mem_iff (h : supply.Draws names rest) (name : String) : name ∈ names ↔
    ∃ k, supply.count < k ∧ k ≤ rest.count ∧ name = supply.name k := by
  have hdraw := @exists_mem_draw supply (· = name) names.length
  rw [← h.names_eq, ← h.count_eq] at hdraw
  simp only [exists_eq_right] at hdraw
  rw [hdraw]
  simp only [eq_comm]

/-- Names for conditions are none for searches. -/
theorem disjoint_forFilters_forSearch {ps ss : List String} {p s : NameSupply}
    (hp : forFilters.Draws ps p) (hs : forSearch.Draws ss s) : ps.Disjoint ss := by
  intro name hfilter hsearch
  rw [hp.names_eq] at hfilter
  rw [hs.names_eq] at hsearch
  have hp := head?_of_mem_draw hfilter rfl
  have hs := head?_of_mem_draw hsearch rfl
  rw [hp] at hs
  exact absurd hs (by decide)

end NameSupply

/-! ## Names that conditions draw -/

/-- The names that the values of a condition are bound under. -/
def Condition.names (c : Condition) : List String := c.bindings.map (·.1)

theorem Comparison.draws_written (escape : Char) (column : String) (supply : NameSupply)
    (k : Comparison) : supply.Draws (k.written escape column supply).1.names
      (k.written escape column supply).2 := by
  cases k with
  | isNull | isNotNull => exact supply.draws_nil
  | compares | contains | isIn => exact supply.draws_next
  | between => exact supply.draws_next.append supply.next.2.draws_next

namespace Condition

variable {catalog : Catalog} {escape : Char} {supply supply' : NameSupply}

@[simp] theorem names_append (c d : Condition) : (c ++ d).names = c.names ++ d.names := by
  simp [names]

@[simp] theorem names_mark (text : String) : (mark text).names = [] := rfl

theorem Written.draws {behind : Bool} {es : List Element} {c : Condition} {ts : List Token}
    (h : Written catalog escape behind supply es c ts supply') : supply.Draws c.names supply' := by
  induction h with
  | nil => exact NameSupply.draws_nil _
  | opening h ih | closing h ih | and h ih | or h ih => simpa using ih
  | @comparison behind supply supply' es c ts entity field column k hcolumn h ih =>
    have hk := k.draws_written escape column supply
    simpa using hk.append ih

theorem draws_ofFilters {fs : List Filter} {c : Condition}
    (h : ofFilters catalog escape supply fs = (.ok c, supply')) : supply.Draws c.names supply' := by
  unfold ofFilters at h
  cases hread : Element.read fs with
  | error fault =>
    rw [hread] at h
    cases h
  | ok es =>
    rw [hread] at h
    obtain ⟨ts, hwritten⟩ := written_of_ofElements h
    exact hwritten.draws

end Condition

namespace Search

theorem draws_comparisons (escape : Char) (ps : List (String × Text)) (supply : NameSupply) :
    supply.Draws ((comparisons escape supply ps).1.flatMap Condition.names)
      (comparisons escape supply ps).2 := by
  induction ps generalizing supply with
  | nil => exact supply.draws_nil
  | cons p ps ih => exact supply.draws_next.append (ih supply.next.2)

theorem names_condition (escape : Char) (words : Bool) (columns terms : List String)
    (supply : NameSupply) : (condition escape words columns terms supply).1.names =
      (comparisons escape supply (alternatives escape words columns terms)).1.flatMap
        Condition.names :=
  List.map_flatMap

theorem draws_condition (escape : Char) (words : Bool) (columns terms : List String)
    (supply : NameSupply) : supply.Draws (condition escape words columns terms supply).1.names
      (condition escape words columns terms supply).2 := by
  rw [names_condition]
  exact draws_comparisons escape (alternatives escape words columns terms) supply

end Search

/-! ## Names that conditions mention -/

namespace Sql

variable {name n r : Text}

theorem mentions_eq_zero {s : Text} (h : ':' ∉ s) (name : Text) : mentions name s = 0 := by
  have := mentions_append_of_notMem h name []
  rwa [List.append_nil] at this

theorem mentions_closing (name : Text) : mentions name [')'] = 0 := mentions_eq_zero (by decide) name

theorem IsColumn.notMem_colon {s : Text} (h : IsColumn s) : ':' ∉ s :=
  fun hmem => absurd (h.isIdentChar_of_mem hmem (by decide)) (by decide)

theorem IsName.isNameChar (h : IsName n) : ∀ d ∈ n, isNameChar d = true := by
  rcases n with _ | ⟨c, s⟩
  · simp
  · exact List.forall_mem_cons.2 ⟨isNameChar_of_isNameStart h.1, h.2⟩

/-- A placeholder mentions its own name. -/
theorem mentions_placeholder (hn : IsName n) (hr : ∀ d ∈ r.head?, CharClass.isNameChar d = false)
    (name : Text) :
    mentions name (':' :: (n ++ r)) = [n].count name + mentions name r := by
  have hcolon : ':' ∉ n := fun hmem => absurd (hn.isNameChar _ hmem) (by decide)
  have hself : n.takeWhile CharClass.isNameChar = n := List.takeWhile_eq_self_iff.2 hn.isNameChar
  rw [mentions, takeWhile_append_of_head hr, hself, mentions_append_of_notMem hcolon,
    List.count_singleton]
  simp

end Sql

/-- Texts joined by one that has no colon and no name runs on into. -/
theorem Sql.mentions_intercalate {α : Type} {text : α → Text} {names : α → List Text} {xs : List α}
    {name : Text} (h : ∀ x ∈ xs, mentions name (text x) = (names x).count name) {sep : Text}
    (hsep : ':' ∉ sep) (hhead : ∃ d s, sep = d :: s ∧ isNameChar d = false) :
    mentions name (sep.intercalate (xs.map text)) = (xs.flatMap names).count name := by
  induction xs with
  | nil => rfl
  | cons x xs ih =>
    have hx := h x List.mem_cons_self
    have ih := ih fun y hy => h y (List.mem_cons_of_mem _ hy)
    cases xs with
    | nil => simpa using hx
    | cons y xs =>
      obtain ⟨d, s, hs, hd⟩ := hhead
      have hbreak : ∀ e ∈ (sep ++ sep.intercalate ((y :: xs).map text)).head?,
          isNameChar e = false := by
        rw [hs]
        intro e he
        cases he
        exact hd
      have hsplit : sep.intercalate ((x :: y :: xs).map text) =
          text x ++ (sep ++ sep.intercalate ((y :: xs).map text)) := by
        rw [List.map_cons, List.map_cons, List.intercalate_cons_cons, List.append_assoc]
      rw [hsplit, mentions_append hbreak, hx, mentions_append_of_notMem hsep, ih,
        @List.flatMap_cons _ _ x, List.count_append]

/-- The text of a condition mentions the names of its values, and no other. -/
def Condition.MentionsNames (c : Condition) : Prop :=
  ∀ name : Text, name ≠ [] → mentions name c.text.toList = (c.names.map String.toList).count name

section Comparison

variable {escape : Char} {column : String} (hcolumn : IsColumn column.toList)
include hcolumn

theorem Condition.mentionsNames_like {name : String} (hname : IsName name.toList) (pattern : Text) :
    (like escape column name pattern).MentionsNames := by
  intro other hother
  have hkeyword : ':' ∉ column.toList ++ " LIKE ".toList := by
    rw [List.mem_append, not_or]
    exact ⟨hcolumn.notMem_colon, by decide⟩
  have hquoted : mentions other (" ESCAPE '".toList ++ [escape, '\'']) = 0 := by
    rw [mentions_append_of_notMem (by decide)]
    simp [mentions, Ne.symm hother, isNameChar]
  have htext : (like escape column name pattern).text.toList =
      column.toList ++ " LIKE ".toList ++
        ':' :: (name.toList ++ (" ESCAPE '".toList ++ [escape, '\''])) := by
    simp [like]
  rw [htext, mentions_append_of_notMem hkeyword, mentions_placeholder hname (by simp [isNameChar]),
    hquoted]
  simp [names, like, List.count_singleton]

theorem Comparison.mentionsNames_written {supply : NameSupply} (hstem : IsName supply.stem.toList)
    (k : Comparison) : (k.written escape column supply).1.MentionsNames := by
  have hname := isName_name hstem (supply.count + 1)
  have hcolon := hcolumn.notMem_colon
  cases k with
  | isNull =>
    intro other _
    rw [mentions_eq_zero (by simpa [written] using hcolon)]
    rfl
  | isNotNull =>
    intro other _
    rw [mentions_eq_zero (by simpa [written] using hcolon)]
    rfl
  | compares sign v =>
    intro other _
    have hsign : ':' ∉ column.toList ++ (' ' :: sign.text.toList ++ [' ']) := by
      rw [List.mem_append, not_or]
      exact ⟨hcolon, by cases sign <;> decide⟩
    have htext : ((compares sign v).written escape column supply).1.text.toList =
        column.toList ++ (' ' :: sign.text.toList ++ [' ']) ++
          ':' :: ((supply.name (supply.count + 1)).toList ++ []) := by
      simp [written, NameSupply.next]
    rw [htext, mentions_append_of_notMem hsign, mentions_placeholder hname (by simp)]
    simp [Condition.names, written, NameSupply.next, mentions, List.count_singleton]
  | contains s => exact Condition.mentionsNames_like hcolumn hname _
  | between low high =>
    intro other _
    have hname' := isName_name hstem (supply.count + 1 + 1)
    have hopen : ':' ∉ ['('] := by decide
    have hmiddle : ':' ∉ " <= ".toList ++ column.toList ++ " AND ".toList ++ column.toList ++
        " <= ".toList := by
      simp only [List.mem_append, not_or]
      exact ⟨⟨⟨⟨by decide, hcolon⟩, by decide⟩, hcolon⟩, by decide⟩
    have htext : ((between low high).written escape column supply).1.text.toList =
        ['('] ++ ':' :: ((supply.name (supply.count + 1)).toList ++
          (" <= ".toList ++ column.toList ++ " AND ".toList ++ column.toList ++ " <= ".toList ++
            ':' :: ((supply.name (supply.count + 1 + 1)).toList ++ [')']))) := by
      simp [written, NameSupply.next, NameSupply.name]
    rw [htext, mentions_append_of_notMem hopen, mentions_placeholder hname (by simp [isNameChar]),
      mentions_append_of_notMem hmiddle, mentions_placeholder hname' (by simp [isNameChar])]
    rw [mentions_closing]
    exact (@List.count_append _ _ _ [(supply.name (supply.count + 1)).toList]
      [(supply.name (supply.count + 1 + 1)).toList]).symm
  | isIn vs =>
    intro other _
    have hin : ':' ∉ column.toList ++ " IN (".toList := by
      rw [List.mem_append, not_or]
      exact ⟨hcolon, by decide⟩
    have htext : ((isIn vs).written escape column supply).1.text.toList =
        column.toList ++ " IN (".toList ++
          ':' :: ((supply.name (supply.count + 1)).toList ++ [')']) := by
      simp [written, NameSupply.next]
    rw [htext, mentions_append_of_notMem hin, mentions_placeholder hname (by simp [isNameChar]),
      mentions_closing]
    simp [Condition.names, written, NameSupply.next, List.count_singleton]

end Comparison

namespace Condition

variable {catalog : Catalog} {escape : Char} {supply supply' : NameSupply}

theorem mentionsNames_mark_append {text : String} (htext : ':' ∉ text.toList) {c : Condition}
    (hc : c.MentionsNames) : (mark text ++ c).MentionsNames := by
  intro name hname
  have hmark : (mark text).text.toList = text.toList := rfl
  rw [text_append, String.toList_append, hmark, mentions_append_of_notMem htext, names_append,
    names_mark, List.nil_append]
  exact hc name hname

theorem MentionsNames.append {c d : Condition} (hc : c.MentionsNames) (hd : d.MentionsNames)
    (hapart : BeginsApart d.text.toList) : (c ++ d).MentionsNames := by
  intro name hname
  have hhead : ∀ e ∈ d.text.toList.head?, isNameChar e = false := by
    intro e he
    by_contra hn
    rw [Bool.not_eq_false] at hn
    have hbreak := (isBreak_iff.1 (hapart e he)).1
    rw [isIdentChar_of_isNameChar hn] at hbreak
    cases hbreak
  rw [text_append, String.toList_append, names_append, List.map_append, List.count_append,
    mentions_append hhead, hc name hname, hd name hname]

theorem mentionsNames_empty : MentionsNames {} := fun _ _ => rfl

theorem notMem_colon_implicitOr (behind : Bool) : ':' ∉ (implicitOr behind).toList := by
  cases behind <;> decide

theorem Written.mentionsNames {behind : Bool} {es : List Element} {c : Condition}
    {ts : List Token} (h : Written catalog escape behind supply es c ts supply')
    (hcatalog : catalog.check = .ok ()) (hescape : Pattern.isUsableEscape escape = true)
    (hstem : IsName supply.stem.toList) : c.MentionsNames := by
  induction h with
  | nil => exact mentionsNames_empty
  | @opening behind supply supply' es c ts h ih =>
    refine mentionsNames_mark_append ?_ (ih hstem)
    rw [String.toList_append, List.mem_append, not_or]
    exact ⟨notMem_colon_implicitOr behind, by decide⟩
  | closing h ih | and h ih | or h ih => exact mentionsNames_mark_append (by decide) (ih hstem)
  | @comparison behind supply supply' es c ts entity field column k hcolumn h ih =>
    have hstem' : IsName (k.written escape column supply).2.stem.toList := by
      rwa [k.stem_written]
    obtain ⟨hwrites, hapart, -⟩ := h.writes hcatalog hescape hstem'
    have hk : (k.written escape column supply).1.MentionsNames :=
      k.mentionsNames_written (isColumn_of_column hcatalog hcolumn) hstem
    have hmark := mentionsNames_mark_append (notMem_colon_implicitOr behind) hk
    refine hmark.append (ih hstem') ?_
    rw [hwrites.text]
    exact hapart rfl

theorem mentionsNames_ofFilters {fs : List Filter} {c : Condition}
    (hcatalog : catalog.check = .ok ()) (hescape : Pattern.isUsableEscape escape = true)
    (hstem : IsName supply.stem.toList)
    (h : ofFilters catalog escape supply fs = (.ok c, supply')) : c.MentionsNames := by
  unfold ofFilters at h
  cases hread : Element.read fs with
  | error fault =>
    rw [hread] at h
    cases h
  | ok es =>
    rw [hread] at h
    obtain ⟨ts, hwritten⟩ := written_of_ofElements h
    exact hwritten.mentionsNames hcatalog hescape hstem

end Condition

namespace Search

variable {escape : Char} {supply : NameSupply}

theorem mentionsNames_comparisons {ps : List (String × Text)}
    (hps : ∀ p ∈ ps, IsColumn p.1.toList) (hstem : IsName supply.stem.toList) :
    ∀ c ∈ (comparisons escape supply ps).1, c.MentionsNames := by
  induction ps generalizing supply with
  | nil => simp [comparisons]
  | cons p ps ih =>
    obtain ⟨column, pattern⟩ := p
    have hcolumn : IsColumn column.toList := hps _ List.mem_cons_self
    have hname := isName_name hstem (supply.count + 1)
    refine List.forall_mem_cons.2 ⟨?_, ?_⟩
    · exact Condition.mentionsNames_like hcolumn hname pattern
    · exact @ih supply.next.2 (fun p hp => hps p (List.mem_cons_of_mem _ hp)) hstem

theorem mentionsNames_condition {words : Bool} {columns terms : List String}
    (hcolumns : ∀ column ∈ columns, IsColumn column.toList) (hstem : IsName supply.stem.toList) :
    (condition escape words columns terms supply).1.MentionsNames := by
  intro name hname
  have hcs := @mentionsNames_comparisons escape supply (alternatives escape words columns terms)
    (fun p hp => hcolumns p.1 (mem_alternatives hp)) hstem
  have h := mentions_intercalate (fun c hc => hcs c hc name hname)
    (by decide : ':' ∉ " OR ".toList) ⟨' ', _, rfl, rfl⟩
  have htext : (condition escape words columns terms supply).1.text.toList =
      " OR ".toList.intercalate
        ((comparisons escape supply (alternatives escape words columns terms)).1.map
          (·.text.toList)) := by
    rw [condition, String.toList_intercalate, List.map_map]
    rfl
  rw [htext, h, names_condition, List.map_flatMap]

end Search

end QueryClauses
