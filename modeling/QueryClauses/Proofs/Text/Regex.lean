import QueryClauses.Text.Basic
import QueryClauses.Text.Regex

/-!
# Expressions that need not be tried twice

A search by backtracking comes back to a part of an expression when the rest of the expression does
not match behind it. That is in vain if the rest refuses all places but the first that the part comes
to: then the part is as good as a reader that takes a piece of text or fails (`Regex.Reads`). For
each way to put expressions together there is a lemma on the readers of its parts. What the rest has
to refuse is kept beside the reader: where a repetition stopped early, or a part took less than it
could.
-/

namespace QueryClauses

open Text

/-! ## Lists whose first member counts -/

/-- A list with a first member, if any is given, and others that are stuck. -/
structure Prefers {α : Type} (first? : Option α) (stuck : α → Prop) (l : List α) : Prop where
  head? : l.head? = first?
  tail : ∀ a ∈ l.tail, stuck a

namespace Prefers

variable {α β : Type} {first? : Option α} {stuck stuck' : α → Prop} {l l' : List α}

theorem of_none (h : Prefers none stuck l) : l = [] := List.head?_eq_none_iff.1 h.head?

theorem nil : Prefers none stuck [] := ⟨rfl, by simp⟩

theorem singleton (a : α) : Prefers (some a) stuck [a] := ⟨rfl, by simp⟩

theorem toList (first? : Option α) : Prefers first? stuck first?.toList := by
  cases first? with
  | none => exact nil
  | some a => exact singleton a

theorem mono (h : Prefers first? stuck l) (hstuck : ∀ a, stuck a → stuck' a) :
    Prefers first? stuck' l :=
  ⟨h.head?, fun a ha => hstuck a (h.tail a ha)⟩

theorem eq_toList (h : Prefers first? (fun _ => False) l) : l = first?.toList := by
  cases l with
  | nil =>
    rw [← h.head?]
    rfl
  | cons a l =>
    obtain rfl : l = [] := List.eq_nil_iff_forall_not_mem.2 h.tail
    rw [← h.head?]
    rfl

theorem append {a : α} (h : Prefers (some a) stuck l) (hstuck : ∀ b ∈ l', stuck b) :
    Prefers (some a) stuck (l ++ l') := by
  cases l with
  | nil => cases h.head?
  | cons b l =>
    refine ⟨h.head?, fun c hc => ?_⟩
    rcases List.mem_append.1 hc with hc | hc
    · exact h.tail c hc
    · exact hstuck c hc

theorem eq_or_mem_tail {a b : α} (h : Prefers (some a) stuck l) (hb : b ∈ l) :
    b = a ∨ b ∈ l.tail := by
  cases l with
  | nil => cases hb
  | cons c l =>
    obtain rfl : c = a := Option.some_inj.1 h.head?
    exact List.mem_cons.1 hb

theorem map {stuck' : β → Prop} (h : Prefers first? stuck l) (f : α → β)
    (hstuck : ∀ a, stuck a → stuck' (f a)) : Prefers (first?.map f) stuck' (l.map f) := by
  refine ⟨by rw [List.head?_map, h.head?], fun b hb => ?_⟩
  rw [← List.map_tail, List.mem_map] at hb
  obtain ⟨a, ha, rfl⟩ := hb
  exact hstuck a (h.tail a ha)

/-- Only what follows the first member counts if nothing follows the others. -/
theorem head?_flatMap {f : α → List β} (h : Prefers first? stuck l)
    (hstuck : ∀ a, stuck a → f a = []) : (l.flatMap f).head? = first?.bind fun a => (f a).head? := by
  cases l with
  | nil =>
    rw [← h.head?]
    rfl
  | cons a l =>
    have hnil : l.flatMap f = [] := List.flatMap_eq_nil_iff.2 fun b hb => hstuck b (h.tail b hb)
    rw [← h.head?, List.flatMap_cons, hnil, List.append_nil]
    rfl

theorem flatMap {f : α → List β} {g : α → Option β} {stuck' : β → Prop} (h : Prefers first? stuck l)
    (hstuck : ∀ a, stuck a → ∀ b ∈ f a, stuck' b)
    (hfirst : ∀ a, first? = some a → Prefers (g a) stuck' (f a) ∧
      ((g a).isSome = true ∨ ∀ a, stuck a → f a = [])) :
    Prefers (first?.bind g) stuck' (l.flatMap f) := by
  cases l with
  | nil =>
    rw [← h.head?]
    exact nil
  | cons a l =>
    have htail : ∀ b ∈ l.flatMap f, stuck' b := by
      intro b hb
      obtain ⟨c, hc, hb⟩ := List.mem_flatMap.1 hb
      exact hstuck c (h.tail c hc) b hb
    obtain ⟨hg, hsome⟩ := hfirst a h.head?.symm
    rw [← h.head?, List.flatMap_cons, List.head?_cons, Option.bind_some]
    cases hfa : f a with
    | nil =>
      rw [hfa] at hg
      have hnone : g a = none := hg.head?.symm
      rw [hnone] at hsome ⊢
      have hnil : l.flatMap f = [] := by
        refine List.flatMap_eq_nil_iff.2 fun b hb => ?_
        rcases hsome with hsome | hsome
        · cases hsome
        · exact hsome b (h.tail b hb)
      rw [hnil]
      exact nil
    | cons b bs =>
      rw [hfa] at hg
      refine ⟨hg.head?, fun c hc => ?_⟩
      rcases List.mem_append.1 hc with hc | hc
      · exact hg.tail c hc
      · exact htail c hc

end Prefers

/-! ## Readers -/

/-- What a reader takes of a text and what is left of it, if it takes anything. -/
abbrev Reader := Text → Option (Text × Text)

namespace Reader

/-- One character of a class. -/
def oneChar (wanted : Char → Bool) : Reader
  | [] => none
  | c :: s => if wanted c then some ([c], s) else none

/-- One reader behind another. -/
def andThen (f g : Reader) : Reader := fun s =>
  (f s).bind fun r => (g r.2).map fun r' => (r.1 ++ r'.1, r'.2)

/-- What the first of two readers takes that takes anything. -/
def orElse (f g : Reader) : Reader := fun s => (f s).or (g s)

/-- A reader as often as it takes something. -/
def many (f : Reader) (s : Text) : Text × Text :=
  match f s with
  | none => ([], s)
  | some r =>
    if r.2.length < s.length then (r.1 ++ (many f r.2).1, (many f r.2).2) else ([], s)
termination_by s.length

variable {f : Reader} {s : Text}

theorem exists_of_oneChar {wanted : Char → Bool} (h : (oneChar wanted s).isSome = true) :
    ∃ c t, s = c :: t ∧ wanted c = true := by
  cases s with
  | nil => cases h
  | cons c s =>
    rw [oneChar] at h
    split at h
    · rename_i hc
      exact ⟨c, s, rfl, hc⟩
    · cases h

/-- A reader that wants some first character refuses a text with another one. -/
theorem oneChar_andThen_of_head {wanted : Char → Bool} {g : Reader}
    (h : ∀ c ∈ s.head?, wanted c = false) : (oneChar wanted).andThen g s = none := by
  cases s with
  | nil => rfl
  | cons c s =>
    have hc : wanted c = false := h c rfl
    simp [andThen, oneChar, hc]

theorem many_of_none (h : f s = none) : f.many s = ([], s) := by
  rw [many, h]

theorem many_of_some {r : Text × Text} (h : f s = some r) (hshorter : r.2.length < s.length) :
    f.many s = (r.1 ++ (f.many r.2).1, (f.many r.2).2) := by
  rw [many, h]
  exact if_pos hshorter

/-- Whatever a reader takes, it takes a character. -/
def Shortens (f : Reader) : Prop := ∀ s r, f s = some r → r.2.length < s.length

theorem shortens_oneChar (wanted : Char → Bool) : (oneChar wanted).Shortens := by
  intro s r h
  cases s with
  | nil => cases h
  | cons c s =>
    rw [oneChar] at h
    split at h
    · cases h
      exact Nat.lt_succ_self _
    · cases h

theorem Shortens.andThen {g : Reader} (hf : f.Shortens)
    (hg : ∀ s r, g s = some r → r.2.length ≤ s.length) : (f.andThen g).Shortens := by
  intro s r h
  obtain ⟨x, hx, h⟩ := Option.bind_eq_some_iff.1 h
  obtain ⟨y, hy, rfl⟩ := Option.map_eq_some_iff.1 h
  exact Nat.lt_of_le_of_lt (hg x.2 y hy) (hf s x hx)

theorem many_oneChar (wanted : Char → Bool) (s : Text) :
    (oneChar wanted).many s = (s.takeWhile wanted, s.dropWhile wanted) := by
  induction s with
  | nil => rw [many_of_none rfl, List.takeWhile_nil, List.dropWhile_nil]
  | cons c s ih =>
    cases hc : wanted c with
    | false =>
      rw [many_of_none (by rw [oneChar, hc]; rfl), List.takeWhile_cons_of_neg (by simp [hc]),
        List.dropWhile_cons_of_neg (by simp [hc])]
    | true =>
      have hread : oneChar wanted (c :: s) = some ([c], s) := by rw [oneChar, if_pos hc]
      rw [many_of_some hread (Nat.lt_succ_self _), ih, List.takeWhile_cons_of_pos hc,
        List.dropWhile_cons_of_pos hc]
      rfl

end Reader

namespace Regex

/-! ## Places behind what a reader takes -/

/-- The place behind what a reader takes. -/
def Place.advance (p : Place) (r : Text × Text) : Place :=
  { p with pos := p.pos + byteLength r.1, rest := r.2 }

@[simp] theorem Place.advance_rest (p : Place) (r : Text × Text) : (p.advance r).rest = r.2 := rfl

theorem Place.advance_advance (p : Place) (r r' : Text × Text) :
    (p.advance r).advance r' = p.advance (r.1 ++ r'.1, r'.2) := by
  simp [Place.advance, Nat.add_assoc]

theorem Place.repeated_eq (step : Place → List Place) (p : Place) :
    p.repeated step =
      ((step p).filter fun q => q.rest.length < p.rest.length).flatMap (Place.repeated step) ++ [p] := by
  rw [Place.repeated]
  simp

/-- An expression comes first to the place behind what a reader takes, and to no place if that takes
nothing; all other places that it comes to are in front of a stuck text. -/
def Reads (r : Regex) (f : Reader) (stuck : Text → Prop) : Prop :=
  ∀ p : Place, Prefers ((f p.rest).map p.advance) (fun q => stuck q.rest) (r.behind p)

variable {r r' : Regex} {f g : Reader} {stuck stuck' : Text → Prop}

theorem Reads.behind_eq_nil (h : r.Reads f stuck) {p : Place} (hp : f p.rest = none) :
    r.behind p = [] := by
  have hfirst := h p
  rw [hp] at hfirst
  exact hfirst.of_none

theorem Reads.mono (h : r.Reads f stuck) (hstuck : ∀ s, stuck s → stuck' s) : r.Reads f stuck' :=
  fun p => (h p).mono fun q => hstuck q.rest

theorem prefers_next (wanted : Char → Bool) (p : Place) :
    Prefers ((Reader.oneChar wanted p.rest).map p.advance) (fun _ => False) (p.next wanted) := by
  rw [Place.next]
  cases p.rest with
  | nil => exact .nil
  | cons c s =>
    rw [Reader.oneChar]
    dsimp only
    split
    · exact .singleton _
    · exact .nil

theorem reads_one (item : ClassItem) :
    (one item).Reads (.oneChar item.accepts) fun _ => False :=
  prefers_next _

theorem reads_set (negated : Bool) (items : List ClassItem) :
    (set negated items).Reads (.oneChar fun c => items.any (·.accepts c) != negated)
      fun _ => False :=
  prefers_next _

theorem Reads.seq_of (h : r.Reads f stuck) (h' : r'.Reads g stuck')
    (hstuck : ∀ s, stuck s → ∀ x, g s = some x → stuck' x.2)
    (hother : (∀ s, stuck s → g s = none) ∨ ∀ s, (g s).isSome = true) :
    (seq r r').Reads (f.andThen g) stuck' := by
  intro p
  have hboth : (f.andThen g p.rest).map p.advance =
      ((f p.rest).map p.advance).bind fun q => (g q.rest).map q.advance := by
    rw [Reader.andThen]
    cases f p.rest with
    | none => rfl
    | some x =>
      rw [Option.bind_some, Option.map_some, Option.bind_some, Option.map_map, Place.advance_rest]
      refine Option.map_congr fun y _ => ?_
      exact (p.advance_advance x y).symm
  rw [hboth]
  refine (h p).flatMap (fun q hq a ha => ?_) fun q _ => ⟨h' q, ?_⟩
  · have hbehind := h' q
    cases hg : g q.rest with
    | none =>
      rw [h'.behind_eq_nil hg] at ha
      cases ha
    | some x =>
      rw [hg, Option.map_some] at hbehind
      rcases hbehind.eq_or_mem_tail ha with rfl | ha
      · exact hstuck _ hq x hg
      · exact hbehind.tail a ha
  · rcases hother with hnone | hsome
    · exact .inr fun q hq => h'.behind_eq_nil (hnone _ hq)
    · exact .inl (by simpa using hsome q.rest)

/-- One expression behind another, if the second refuses what the first is stuck at. -/
theorem Reads.seq (h : r.Reads f stuck) (h' : r'.Reads g stuck')
    (hstuck : ∀ s, stuck s → g s = none) : (seq r r').Reads (f.andThen g) stuck' :=
  h.seq_of h' (fun s hs x hx => by rw [hstuck s hs] at hx; cases hx) (.inl hstuck)

/-- Alternatives of which at most one reads a text. -/
theorem Reads.alt (h : r.Reads f stuck) (h' : r'.Reads g stuck')
    (hone : ∀ s, f s = none ∨ g s = none) :
    (alt r r').Reads (f.orElse g) fun s => stuck s ∨ stuck' s := by
  intro p
  rw [behind, Reader.orElse]
  rcases hone p.rest with hnone | hnone
  · rw [h.behind_eq_nil hnone, hnone, Option.none_or, List.nil_append]
    exact (h' p).mono fun q => .inr
  · rw [h'.behind_eq_nil hnone, hnone, Option.or_none, List.append_nil]
    exact (h p).mono fun q => .inl

theorem Reads.named (h : r.Reads f stuck) (name : String) (p : Place) :
    Prefers ((f p.rest).map fun x => (p.advance x).captured name p.pos) (fun q => stuck q.rest)
      ((Regex.named name r).behind p) := by
  have hcaptured : Prefers _ (fun q : Place => stuck q.rest) ((Regex.named name r).behind p) :=
    (h p).map (Place.captured name p.pos) fun _ hq => hq
  rwa [Option.map_map] at hcaptured

/-- An optional expression is left out last. -/
theorem prefers_opt {first? : Option Place} {stuck : Place → Prop} {p : Place}
    (h : Prefers first? stuck (r.behind p)) :
    Prefers (some (first?.getD p)) (fun q => stuck q ∨ q = p ∧ first?.isSome = true)
      ((opt r).behind p) := by
  rw [behind]
  cases first? with
  | none =>
    rw [h.of_none]
    exact .singleton p
  | some a =>
    refine (h.mono fun q => .inl).append fun q hq => ?_
    exact .inr ⟨List.mem_singleton.1 hq, rfl⟩

/-- A repetition is stuck where it could go on, and where its last part is. -/
theorem Reads.repeated (h : r.Reads f stuck) (hstuck : ∀ s, stuck s → f s = none)
    (hshorter : f.Shortens) (p : Place) :
    Prefers (some (p.advance (f.many p.rest)))
      (fun q => stuck q.rest ∨ (f q.rest).isSome = true) (p.repeated r.behind) := by
  induction hlength : p.rest.length using Nat.strongRecOn generalizing p with
  | ind n ih =>
    subst hlength
    rw [Place.repeated_eq]
    have hfirst := h p
    cases hread : f p.rest with
    | none =>
      rw [h.behind_eq_nil hread, Reader.many_of_none hread]
      exact .singleton _
    | some x =>
      rw [hread, Option.map_some] at hfirst
      have hlt := hshorter _ _ hread
      have hrest := ih x.2.length hlt (p.advance x) rfl
      rw [Reader.many_of_some hread hlt, ← Place.advance_advance]
      cases hbehind : r.behind p with
      | nil =>
        rw [hbehind] at hfirst
        cases hfirst.head?
      | cons q qs =>
        rw [hbehind] at hfirst
        obtain rfl : q = p.advance x := Option.some_inj.1 hfirst.head?
        have hkept : decide ((p.advance x).rest.length < p.rest.length) = true := decide_eq_true hlt
        rw [List.filter_cons, if_pos hkept, List.flatMap_cons, List.append_assoc]
        refine hrest.append fun a ha => ?_
        rcases List.mem_append.1 ha with ha | ha
        · -- Another place is stuck, and so is the repetition from there on.
          obtain ⟨o, ho, ha⟩ := List.mem_flatMap.1 ha
          have hostuck := hfirst.tail o (List.mem_filter.1 ho).1
          rw [Place.repeated_eq, h.behind_eq_nil (hstuck _ hostuck)] at ha
          obtain rfl : a = o := List.mem_singleton.1 ha
          exact .inl hostuck
        · obtain rfl : a = p := List.mem_singleton.1 ha
          exact .inr (by rw [hread]; rfl)

/-- A repetition of an expression that is never stuck. -/
theorem Reads.repeated_eq (h : r.Reads f fun _ => False) (hshorter : f.Shortens) (p : Place) :
    p.repeated r.behind =
      match f p.rest with
      | none => [p]
      | some x => (p.advance x).repeated r.behind ++ [p] := by
  rw [Place.repeated_eq, (h p).eq_toList]
  cases hread : f p.rest with
  | none => rfl
  | some x =>
    have hkept : decide ((p.advance x).rest.length < p.rest.length) = true :=
      decide_eq_true (hshorter _ _ hread)
    rw [Option.map_some, Option.toList_some, List.filter_cons, if_pos hkept, List.filter_nil,
      List.flatMap_cons, List.flatMap_nil, List.append_nil]

section

variable (hstuck : ∀ s, stuck s → f s = none)
  (hshorter : f.Shortens)
include hstuck hshorter

theorem Reads.star (h : r.Reads f stuck) :
    (star r).Reads (fun s => some (f.many s)) fun s => stuck s ∨ (f s).isSome = true :=
  h.repeated hstuck hshorter

/-- A repetition behind an expression, if it cannot start where that is stuck. -/
theorem Reads.seq_star (h : r'.Reads g stuck') (hrepeated : r.Reads f stuck)
    (hstart : ∀ s, stuck' s → f s = none) :
    (Regex.seq r' (.star r)).Reads (g.andThen fun s => some (f.many s)) fun s =>
      stuck' s ∨ stuck s ∨ (f s).isSome = true := by
  refine (h.seq_of ((hrepeated.star hstuck hshorter).mono fun s => .inr) ?_ (.inr fun _ => rfl))
  rintro s hs _ ⟨⟩
  rw [Reader.many_of_none (hstart s hs)]
  exact .inl hs

theorem Reads.plus (h : r.Reads f stuck) :
    (plus r).Reads (f.andThen fun s => some (f.many s)) fun s => stuck s ∨ (f s).isSome = true :=
  (h.seq_star hstuck hshorter h hstuck).mono fun _ hs => hs.elim .inl id

end

end Regex

end QueryClauses
