import Mathlib.Data.List.Basic
import QueryClauses.Proofs.Sql.Names
import QueryClauses.Sql.Positional

/-!
# What stands behind a placeholder with a number

Numbering fails exactly with the first placeholder that has no value (`positional_eq_error_iff`).
Otherwise the text is the statement's, byte for byte, but for its placeholders (`replaced`). All
placeholders of one name have the same text in their place, whose numbers lead to the value that the
name is bound to (`StandsFor`). In the order in which names first occur, their numbers are
1, 2, 3 and so on (`positional_standsFor`).
-/

namespace QueryClauses

/-! ## Cuts at the end of a prefix -/

namespace Text

theorem takeBytes_byteLength_append (s t : Text) : takeBytes (byteLength s) (s ++ t) = s := by
  induction s with
  | nil =>
    cases t with
    | nil => rfl
    | cons c t =>
      have := c.utf8Size_pos
      simp only [byteLength_nil, List.nil_append, takeBytes]
      exact if_neg (by omega)
  | cons c s ih => simp [takeBytes, ih]

theorem dropBytes_byteLength_append (s t : Text) : dropBytes (byteLength s) (s ++ t) = t := by
  have h := takeBytes_append_dropBytes (byteLength s) (s ++ t)
  rw [takeBytes_byteLength_append] at h
  exact List.append_cancel_left h

end Text

namespace Sql

namespace Positional

variable {bindings : Bindings} {seen : List (Text × Text)} {count : Nat} {t : Token}
  {ts : List Token} {p : Positional} {written : Text → Text}

/-! ## Other text in place of placeholders -/

/-- A text from offset `last` on, with other text in place of the placeholders that are there. -/
def replaced (written : Text → Text) (s : Text) (last : Nat) : List Placeholder → Text
  | [] => Text.dropBytes last s
  | p :: ps =>
    Text.takeBytes (p.start - last) (Text.dropBytes last s) ++ written p.name ++
      replaced written s p.stop ps

/-- The text of an element, or what is written in place of a placeholder. -/
def replacedToken (written : Text → Text) (t : Token) : Text :=
  if t.kind = .placeholder then written t.text.tail else t.text

theorem placeholders_ofTokens_cons (pos : Nat) (depth : Int) (t : Token) (ts : List Token) :
    (Survey.ofTokens pos depth (t :: ts)).placeholders =
      (if t.kind = .placeholder then [⟨pos, pos + Text.byteLength t.text, t.text.tail⟩] else []) ++
        (Survey.ofTokens (pos + Text.byteLength t.text) (t.kind.depthAfter depth) ts).placeholders :=
    by
  rw [Survey.ofTokens]
  cases t.kind <;> rfl

/-- Replacement by offsets is replacement element by element. Of the text in front of the elements,
`a` is copied already and `b` is still to be copied. -/
theorem replaced_ofTokens (a b : Text) (depth : Int) (ts : List Token) :
    replaced written (a ++ (b ++ textOf ts)) (Text.byteLength a)
        (Survey.ofTokens (Text.byteLength (a ++ b)) depth ts).placeholders =
      b ++ ts.flatMap (replacedToken written) := by
  induction ts generalizing a b depth with
  | nil =>
    simp only [Survey.ofTokens, replaced, textOf_nil, List.append_nil, List.flatMap_nil]
    exact Text.dropBytes_byteLength_append a b
  | cons t ts ih =>
    have hsplit : a ++ (b ++ textOf (t :: ts)) = (a ++ b ++ t.text) ++ ([] ++ textOf ts) := by simp
    have hpos : Text.byteLength (a ++ b) + Text.byteLength t.text =
        Text.byteLength (a ++ b ++ t.text) := (Text.byteLength_append _ _).symm
    rw [placeholders_ofTokens_cons, hpos]
    by_cases hk : t.kind = .placeholder
    · have hcut : Text.takeBytes (Text.byteLength (a ++ b) - Text.byteLength a)
          (Text.dropBytes (Text.byteLength a) (a ++ (b ++ textOf (t :: ts)))) = b := by
        rw [Text.dropBytes_byteLength_append, Text.byteLength_append, Nat.add_sub_cancel_left,
          Text.takeBytes_byteLength_append]
      have hrest := ih (a ++ b ++ t.text) [] (t.kind.depthAfter depth)
      rw [List.append_nil] at hrest
      rw [if_pos hk, List.singleton_append, replaced, hcut, hsplit, hrest]
      simp [replacedToken, hk]
    · have hrest := ih a (b ++ t.text) (t.kind.depthAfter depth)
      rw [if_neg hk, List.nil_append]
      simpa [replacedToken, hk] using hrest

theorem replaced_survey (written : Text → Text) (s : Text) :
    replaced written s 0 (survey s).placeholders = (lex s).flatMap (replacedToken written) := by
  have h := @replaced_ofTokens written [] [] 0 (lex s)
  rw [textOf_lex] at h
  exact h

/-! ## One element -/

/-- A statement with an element in front of it that was replaced by `text`, which took `values`. -/
def followed (text : Text) (values : List Value) (rest : Positional) : Positional :=
  ⟨text ++ rest.sql, values ++ rest.values⟩

theorem ofTokens_cons_of_ne (hk : t.kind ≠ .placeholder) :
    ofTokens bindings seen count (t :: ts) =
      (ofTokens bindings seen count ts).map (followed t.text []) := by
  rw [ofTokens, if_neg hk]
  rfl

theorem ofTokens_cons_of_lookup_eq_some (hk : t.kind = .placeholder) {text : Text}
    (hseen : seen.lookup t.text.tail = some text) :
    ofTokens bindings seen count (t :: ts) =
      (ofTokens bindings seen count ts).map (followed text []) := by
  rw [ofTokens, if_pos hk]
  simp only [hseen]
  rfl

theorem ofTokens_cons_of_unbound (hk : t.kind = .placeholder)
    (hseen : seen.lookup t.text.tail = none) (hv : bindings[String.ofList t.text.tail]? = none) :
    ofTokens bindings seen count (t :: ts) = .error t.text.tail := by
  rw [ofTokens, if_pos hk]
  simp only [hseen, hv]

theorem ofTokens_cons_of_bound (hk : t.kind = .placeholder)
    (hseen : seen.lookup t.text.tail = none) {v : Value}
    (hv : bindings[String.ofList t.text.tail]? = some v) :
    ofTokens bindings seen count (t :: ts) =
      (ofTokens bindings ((t.text.tail, numbered (count + 1) (spread v).length) :: seen)
        (count + (spread v).length) ts).map
          (followed (numbered (count + 1) (spread v).length) (spread v)) := by
  rw [ofTokens, if_pos hk]
  simp only [hseen, hv]
  rfl

/-! ## Failure -/

/-- The first name of a list that has no value. -/
def firstUnbound? (bindings : Bindings) (names : List Text) : Option Text :=
  names.find? fun name => bindings[String.ofList name]?.isNone

theorem firstUnbound?_eq_none_iff {names : List Text} :
    firstUnbound? bindings names = none ↔
      ∀ name ∈ names, ∃ v, bindings[String.ofList name]? = some v := by
  rw [firstUnbound?, List.find?_eq_none]
  apply forall₂_congr
  intro name _
  rw [Option.isNone_iff_eq_none, ← ne_eq, Option.ne_none_iff_exists']

theorem firstUnbound?_cons_of_eq_some {name : Text} {v : Value}
    (hv : bindings[String.ofList name]? = some v) (names : List Text) :
    firstUnbound? bindings (name :: names) = firstUnbound? bindings names := by
  simp [firstUnbound?, hv]

/-- Names with a text already have a value. -/
theorem ofTokens_eq_error_iff
    (hseen : ∀ name text, seen.lookup name = some text →
      ∃ v, bindings[String.ofList name]? = some v) {name : Text} :
    ofTokens bindings seen count ts = .error name ↔
      firstUnbound? bindings (namesOf ts) = some name := by
  induction ts generalizing seen count with
  | nil => simp [ofTokens, firstUnbound?, namesOf]
  | cons t ts ih =>
    by_cases hk : t.kind = .placeholder
    · rw [namesOf_cons hk]
      cases hlookup : seen.lookup t.text.tail with
      | some text =>
        obtain ⟨v, hv⟩ := hseen _ _ hlookup
        rw [ofTokens_cons_of_lookup_eq_some hk hlookup, map_eq_error_iff, ih hseen,
          firstUnbound?_cons_of_eq_some hv]
      | none =>
        cases hv : bindings[String.ofList t.text.tail]? with
        | none =>
          rw [ofTokens_cons_of_unbound hk hlookup hv]
          simp [firstUnbound?, hv]
        | some v =>
          rw [ofTokens_cons_of_bound hk hlookup hv, map_eq_error_iff,
            firstUnbound?_cons_of_eq_some hv]
          apply ih
          intro other text hother
          by_cases hname : other = t.text.tail
          · exact ⟨v, by rw [hname, hv]⟩
          · rw [List.lookup_cons, beq_eq_false_iff_ne.2 hname] at hother
            exact hseen other text hother
    · rw [ofTokens_cons_of_ne hk, map_eq_error_iff, ih hseen, namesOf_cons_of_ne hk]

/-! ## What the numbers lead to -/

/-- A placeholder with a number. -/
def mark (number : Nat) : Text := '$' :: (toString number).toList

/-- A text that stands for a value, with its numbers. The first of the values has number 1: at these
numbers is the value, or are the items of the list that it is. -/
inductive StandsFor (values : List Value) : Value → List Nat → Text → Prop
  | single {v : Value} {k : Nat} (hlist : v.isList = false) (hv : values[k]? = some v) :
    StandsFor values v [k + 1] (mark (k + 1))
  | empty : StandsFor values (.list []) [] "NULL".toList
  | items {items : List Value} {k : Nat} (hne : items ≠ [])
    (hitems : ∀ i < items.length, values[k + i]? = items[i]?) :
    StandsFor values (.list items) (List.range' (k + 1) items.length)
      (", ".toList.intercalate ((List.range' (k + 1) items.length).map mark))

theorem numbered_eq_intercalate (first : Nat) {n : Nat} (h : n ≠ 0) :
    numbered first n = ", ".toList.intercalate ((List.range' first n).map mark) := by
  rw [numbered, if_neg h, String.toList_intercalate, List.map_map]
  congr 2
  funext k
  simp [mark]

theorem spread_of_isList_eq_false {v : Value} (h : v.toBound.isList = false) :
    spread v = [v.toBound] := by
  unfold spread
  cases hv : v.toBound <;> simp_all [Value.isList]

theorem spread_of_toBound_eq_list {v : Value} {items : List Value} (h : v.toBound = .list items) :
    spread v = items := by
  unfold spread
  rw [h]

/-- The text of a name stands for its value, with the numbers behind those of the values `taken`. -/
theorem standsFor_numbered (taken rest : List Value) (v : Value) :
    StandsFor (taken ++ (spread v ++ rest)) v.toBound
      (List.range' (taken.length + 1) (spread v).length)
      (numbered (taken.length + 1) (spread v).length) := by
  cases hlist : v.toBound.isList with
  | false =>
    rw [spread_of_isList_eq_false hlist, List.length_singleton,
      numbered_eq_intercalate _ Nat.one_ne_zero, List.range'_one, List.map_singleton,
      List.intercalate_singleton]
    refine .single hlist ?_
    rw [List.getElem?_append_right (Nat.le_refl _), Nat.sub_self]
    rfl
  | true =>
    obtain ⟨items, hitems⟩ : ∃ items, v.toBound = .list items := by
      cases hv : v.toBound with
      | list items => exact ⟨items, rfl⟩
      | _ =>
        rw [hv] at hlist
        cases hlist
    rw [spread_of_toBound_eq_list hitems, hitems]
    by_cases hne : items = []
    · rw [hne]
      exact .empty
    · have hlength : items.length ≠ 0 := fun h => hne (List.length_eq_zero_iff.1 h)
      rw [numbered_eq_intercalate _ hlength]
      refine .items hne fun i hi => ?_
      rw [List.getElem?_append_right (Nat.le_add_right _ _), Nat.add_sub_cancel_left,
        List.getElem?_append_left hi]

/-! ## All elements -/

/-- The names of placeholders that have no text yet, repetitions included. -/
def unseen (seen : List (Text × Text)) (ts : List Token) : List Text :=
  (namesOf ts).filter fun name => (seen.lookup name).isNone

theorem unseen_cons_of_ne (hk : t.kind ≠ .placeholder) : unseen seen (t :: ts) = unseen seen ts := by
  rw [unseen, namesOf_cons_of_ne hk, unseen]

theorem unseen_cons_of_lookup_eq_some (hk : t.kind = .placeholder) {text : Text}
    (hseen : seen.lookup t.text.tail = some text) : unseen seen (t :: ts) = unseen seen ts := by
  rw [unseen, namesOf_cons hk, List.filter_cons_of_neg (by rw [hseen]; simp), unseen]

theorem unseen_cons_of_lookup_eq_none (hk : t.kind = .placeholder)
    (hseen : seen.lookup t.text.tail = none) :
    unseen seen (t :: ts) = t.text.tail :: unseen seen ts := by
  rw [unseen, namesOf_cons hk, List.filter_cons_of_pos (by rw [hseen]; rfl), unseen]

theorem unseen_cons_seen (name text : Text) :
    unseen ((name, text) :: seen) ts = (unseen seen ts).filter fun other => !other == name := by
  rw [unseen, unseen, List.filter_filter]
  apply List.filter_congr
  intro other _
  rw [List.lookup_cons]
  cases other == name <;> simp

/-- A numbering of elements that follow those whose names are `seen` and whose values are `taken`:
what is written in place of each name, and with which numbers. -/
structure IsNumbering (bindings : Bindings) (seen : List (Text × Text)) (taken : List Value)
    (ts : List Token) (p : Positional) (numbers : Text → List Nat) (written : Text → Text) : Prop where
  sql : p.sql = ts.flatMap (replacedToken written)
  kept : ∀ name text, seen.lookup name = some text → written name = text
  standsFor : ∀ name ∈ unseen seen ts, ∃ v, bindings[String.ofList name]? = some v ∧
    StandsFor (taken ++ p.values) v.toBound (numbers name) (written name)
  consecutive : (unseen seen ts).eraseDups.flatMap numbers =
    List.range' (taken.length + 1) p.values.length

section Step

variable {taken : List Value} {numbers : Text → List Nat}

theorem IsNumbering.copied (hk : t.kind ≠ .placeholder)
    (h : IsNumbering bindings seen taken ts p numbers written) :
    IsNumbering bindings seen taken (t :: ts) (followed t.text [] p) numbers written where
  sql := by simp [followed, replacedToken, hk, h.sql]
  kept := h.kept
  standsFor := by
    rw [unseen_cons_of_ne hk]
    exact h.standsFor
  consecutive := by
    rw [unseen_cons_of_ne hk]
    exact h.consecutive

theorem IsNumbering.repeated (hk : t.kind = .placeholder) {text : Text}
    (hseen : seen.lookup t.text.tail = some text)
    (h : IsNumbering bindings seen taken ts p numbers written) :
    IsNumbering bindings seen taken (t :: ts) (followed text [] p) numbers written where
  sql := by simp [followed, replacedToken, hk, h.sql, h.kept _ _ hseen]
  kept := h.kept
  standsFor := by
    rw [unseen_cons_of_lookup_eq_some hk hseen]
    exact h.standsFor
  consecutive := by
    rw [unseen_cons_of_lookup_eq_some hk hseen]
    exact h.consecutive

/-- A new name takes the next numbers, and keeps its text for the rest. -/
theorem IsNumbering.introduced (hk : t.kind = .placeholder)
    (hseen : seen.lookup t.text.tail = none) {v : Value}
    (hv : bindings[String.ofList t.text.tail]? = some v)
    (h : IsNumbering bindings
      ((t.text.tail, numbered (taken.length + 1) (spread v).length) :: seen) (taken ++ spread v) ts p
      numbers written) :
    IsNumbering bindings seen taken (t :: ts)
      (followed (numbered (taken.length + 1) (spread v).length) (spread v) p)
      (Function.update numbers t.text.tail
        (List.range' (taken.length + 1) (spread v).length)) written where
  sql := by
    have hname : written t.text.tail = numbered (taken.length + 1) (spread v).length :=
      h.kept _ _ (by simp)
    simp [followed, replacedToken, hk, h.sql, hname]
  kept := by
    intro name text hname
    apply h.kept
    have hne : name ≠ t.text.tail := by
      rintro rfl
      rw [hseen] at hname
      cases hname
    rw [List.lookup_cons, beq_eq_false_iff_ne.2 hne]
    exact hname
  standsFor := by
    have hname : written t.text.tail = numbered (taken.length + 1) (spread v).length :=
      h.kept _ _ (by simp)
    intro name hmem
    by_cases hsame : name = t.text.tail
    · subst hsame
      refine ⟨v, hv, ?_⟩
      rw [Function.update_self, hname]
      exact standsFor_numbered taken p.values v
    · rw [unseen_cons_of_lookup_eq_none hk hseen] at hmem
      have hrest : name ∈ unseen seen ts := (List.mem_cons.1 hmem).resolve_left hsame
      obtain ⟨w, hw, hstands⟩ := h.standsFor name (by
        rw [unseen_cons_seen]
        exact List.mem_filter.2 ⟨hrest, by simpa using hsame⟩)
      refine ⟨w, hw, ?_⟩
      rw [Function.update_of_ne hsame]
      rwa [List.append_assoc] at hstands
  consecutive := by
    have hrest : (unseen ((t.text.tail, numbered (taken.length + 1) (spread v).length) :: seen)
        ts).eraseDups.flatMap (Function.update numbers t.text.tail
          (List.range' (taken.length + 1) (spread v).length)) =
        List.range' (taken.length + 1 + (spread v).length) p.values.length := by
      have hcongr := h.consecutive
      rw [List.length_append, Nat.add_right_comm] at hcongr
      rw [← hcongr]
      apply List.flatMap_congr
      intro name hmem
      rw [List.mem_eraseDups, unseen_cons_seen] at hmem
      exact Function.update_of_ne (by simpa using (List.mem_filter.1 hmem).2) _ _
    rw [unseen_cons_of_lookup_eq_none hk hseen, List.eraseDups_cons, List.flatMap_cons,
      Function.update_self]
    rw [unseen_cons_seen] at hrest
    rw [hrest, List.range'_append_1, followed, List.length_append]

end Step

/-- Numbering numbers: each element is copied, repeated or introduced. -/
theorem isNumbering_ofTokens (taken : List Value)
    (h : ofTokens bindings seen taken.length ts = .ok p) :
    ∃ numbers written, IsNumbering bindings seen taken ts p numbers written := by
  induction ts generalizing seen taken p with
  | nil =>
    cases h
    -- a name outside the elements keeps its text, so there is only one choice for it
    exact ⟨fun _ => [], fun name => (seen.lookup name).getD [], rfl,
      fun name text hname => by rw [hname]; rfl, by simp [unseen, namesOf], rfl⟩
  | cons t ts ih =>
    by_cases hk : t.kind = .placeholder
    · cases hseen : seen.lookup t.text.tail with
      | some text =>
        rw [ofTokens_cons_of_lookup_eq_some hk hseen] at h
        obtain ⟨rest, hrest, rfl⟩ := map_eq_ok_iff.1 h
        obtain ⟨numbers, written, hnumbering⟩ := ih taken hrest
        exact ⟨numbers, written, hnumbering.repeated hk hseen⟩
      | none =>
        cases hv : bindings[String.ofList t.text.tail]? with
        | none =>
          rw [ofTokens_cons_of_unbound hk hseen hv] at h
          cases h
        | some v =>
          rw [ofTokens_cons_of_bound hk hseen hv] at h
          obtain ⟨rest, hrest, rfl⟩ := map_eq_ok_iff.1 h
          rw [← List.length_append] at hrest
          obtain ⟨numbers, written, hnumbering⟩ := ih (taken ++ spread v) hrest
          exact ⟨_, written, hnumbering.introduced hk hseen hv⟩
    · rw [ofTokens_cons_of_ne hk] at h
      obtain ⟨rest, hrest, rfl⟩ := map_eq_ok_iff.1 h
      obtain ⟨numbers, written, hnumbering⟩ := ih taken hrest
      exact ⟨numbers, written, hnumbering.copied hk⟩

end Positional

open Positional

variable {bindings : Bindings} {s : Text}

/-- Numbering fails with the first placeholder that has no value. -/
theorem positional_eq_error_iff {name : Text} :
    positional bindings s = .error name ↔
      firstUnbound? bindings (placeholderNames s) = some name := by
  rw [placeholderNames_eq]
  exact ofTokens_eq_error_iff (by simp)

theorem exists_positional_eq_ok_iff :
    (∃ p, positional bindings s = .ok p) ↔
      ∀ name ∈ placeholderNames s, ∃ v, bindings[String.ofList name]? = some v := by
  rw [← firstUnbound?_eq_none_iff, Option.eq_none_iff_forall_ne_some]
  cases h : positional bindings s with
  | error name =>
    have hname := positional_eq_error_iff.1 h
    simp [hname]
  | ok p =>
    simp only [Except.ok.injEq, exists_eq', true_iff]
    intro name hname
    rw [positional_eq_error_iff.2 hname] at h
    cases h

theorem isNumbering_positional {p : Positional} (h : positional bindings s = .ok p) :
    ∃ numbers written, IsNumbering bindings [] [] (lex s) p numbers written :=
  isNumbering_ofTokens [] h

theorem unseen_nil_lex (s : Text) : unseen [] (lex s) = placeholderNames s := by
  rw [placeholderNames_eq]
  exact List.filter_eq_self.2 fun _ _ => rfl

/-- Numbering succeeds exactly if every placeholder has a value. Then the text is unchanged but for
its placeholders, all placeholders of a name are replaced by one text, whose numbers lead to the
value of the name, and names take the numbers from 1 on in the order in which they first occur. -/
theorem positional_standsFor (bindings : Bindings) (s : Text) :
    ((∃ p, positional bindings s = .ok p) ↔
      ∀ name ∈ placeholderNames s, ∃ v, bindings[String.ofList name]? = some v) ∧
    ∀ p, positional bindings s = .ok p →
      ∃ (numbers : Text → List Nat) (written : Text → Text),
        p.sql = replaced written s 0 (survey s).placeholders ∧
        (∀ name ∈ placeholderNames s, ∃ v, bindings[String.ofList name]? = some v ∧
          StandsFor p.values v.toBound (numbers name) (written name)) ∧
        (placeholderNames s).eraseDups.flatMap numbers = List.range' 1 p.values.length := by
  refine ⟨exists_positional_eq_ok_iff, fun p hp => ?_⟩
  obtain ⟨numbers, written, h⟩ := isNumbering_positional hp
  have hstands := h.standsFor
  have hconsecutive := h.consecutive
  rw [unseen_nil_lex] at hstands hconsecutive
  refine ⟨numbers, written, ?_, hstands, hconsecutive⟩
  rw [replaced_survey, h.sql]

/-- A name twice, two lists, and a name in a literal. -/
def sharedNames : Text :=
  "SELECT ':d' FROM t WHERE a::int = :a OR b IN (:b) OR c IN (:c, :a)".toList

def sharedValues : Bindings :=
  Std.TreeMap.ofList [("a", Value.ordinal 3), ("b", .list [.ordinal 1, .null]), ("c", .list [])]

theorem positional_standsFor_sharedNames :
    ∃ p, positional sharedValues sharedNames = .ok p ∧
      p.sql = "SELECT ':d' FROM t WHERE a::int = $1 OR b IN ($2, $3) OR c IN (NULL, $1)".toList ∧
      ∃ (numbers : Text → List Nat) (written : Text → Text),
        p.sql = replaced written sharedNames 0 (survey sharedNames).placeholders ∧
        (∀ name ∈ placeholderNames sharedNames, ∃ v, sharedValues[String.ofList name]? = some v ∧
          StandsFor p.values v.toBound (numbers name) (written name)) ∧
        (placeholderNames sharedNames).eraseDups.flatMap numbers =
          List.range' 1 p.values.length := by
  have hbound : ∀ name ∈ placeholderNames sharedNames,
      (sharedValues[String.ofList name]?).isSome = true := by decide +kernel
  obtain ⟨hsucceeds, hstands⟩ := positional_standsFor sharedValues sharedNames
  obtain ⟨p, hp⟩ := hsucceeds.2 fun name hname => Option.isSome_iff_exists.1 (hbound name hname)
  have hsql : (positional sharedValues sharedNames).toOption.map (·.sql) = some
      "SELECT ':d' FROM t WHERE a::int = $1 OR b IN ($2, $3) OR c IN (NULL, $1)".toList := by
    decide +kernel
  rw [hp] at hsql
  exact ⟨p, hp, Option.some.inj hsql, hstands p hp⟩

end Sql

end QueryClauses
