import QueryClauses.Proofs.Boolean.Parsing
import QueryClauses.Proofs.Sql.Names

/-!
# The text of a condition as a boolean expression

The text of a condition is cut into symbols (`Sql.expression`): AND, OR and the parentheses of
groups, and as atoms the texts between them. A parenthesis belongs to an atom if the atom has begun,
as behind IN, or if a placeholder follows it directly, as where a range is written; what stands in
such a parenthesis belongs to the atom too. AND and OR next to a point are part of a qualified name.

Elements that are no joints and no parentheses lengthen the atom (`symbolsFrom_plain`), a qualified
name with them (`symbolsFrom_column`); joints end it (`symbolsFrom_joint`).
-/

namespace QueryClauses.Sql

open CharClass

/-- The atom of a text, if there is more to it than white space. -/
def atomOf (atom : Text) : List (Boolean.Symbol Text) :=
  match Text.trimEnd atom with
  | [] => []
  | c :: s => [.atom (c :: s)]

/-- The joint that an element is behind the text of an atom and in front of the next element. -/
def joint? (atom : Text) (t : Token) (next : Option Token) : Option (Boolean.Symbol Text) :=
  if t.kind ≠ .word ∨ atom.getLast? = some '.' ∨ next = some (single '.') then none
  else if isKeyword "AND" t.text then some .and
  else if isKeyword "OR" t.text then some .or
  else none

/-- The symbols of elements behind the text of an atom in which `depth` parentheses are open. -/
def symbolsFrom (atom : Text) (depth : Nat) : List Token → List (Boolean.Symbol Text)
  | [] => atomOf atom
  | t :: ts =>
    match depth, t.kind with
    | 0, .closing => atomOf atom ++ .closing :: symbolsFrom [] 0 ts
    | 0, .opening =>
      if atom = [] ∧ ts.head?.all (·.kind != .placeholder) then .opening :: symbolsFrom [] 0 ts
      else symbolsFrom (atom ++ t.text) 1 ts
    | 0, _ =>
      match joint? atom t ts.head? with
      | some s => atomOf atom ++ s :: symbolsFrom [] 0 ts
      | none => symbolsFrom (Text.trimStart (atom ++ t.text)) 0 ts
    | depth + 1, .closing => symbolsFrom (atom ++ t.text) depth ts
    | depth + 1, .opening => symbolsFrom (atom ++ t.text) (depth + 2) ts
    | depth + 1, _ => symbolsFrom (atom ++ t.text) (depth + 1) ts

def expression (s : Text) : List (Boolean.Symbol Text) := symbolsFrom [] 0 (lex s)

example : expression "a.or = :p1 AND (b.x IN (:p2) OR (:p3 <= c.y AND c.y <= :p4))".toList =
    [.atom "a.or = :p1".toList, .and, .opening, .atom "b.x IN (:p2)".toList, .or,
      .atom "(:p3 <= c.y AND c.y <= :p4)".toList, .closing] := by
  decide +kernel

/-! ## Elements of an atom -/

/-- A text that does not start with white space. -/
def Begun (atom : Text) : Prop := ∃ c s, atom = c :: s ∧ isSpace c = false

theorem Begun.append {atom : Text} (h : Begun atom) (s : Text) : Begun (atom ++ s) := by
  obtain ⟨c, r, rfl, hc⟩ := h
  exact ⟨c, r ++ s, rfl, hc⟩

theorem Begun.trimStart {atom : Text} (h : Begun atom) : Text.trimStart atom = atom := by
  obtain ⟨c, s, rfl, hc⟩ := h
  simp [Text.trimStart, hc]

theorem Begun.ne_nil {atom : Text} (h : Begun atom) : atom ≠ [] := by
  obtain ⟨c, s, rfl, -⟩ := h
  exact List.cons_ne_nil c s

/-- An element that belongs to the atom in which it is found. -/
def Token.isPlain (t : Token) : Bool :=
  match t.kind with
  | .opening | .closing => false
  | .word => !(isKeyword "AND" t.text || isKeyword "OR" t.text)
  | _ => true

theorem joint?_of_isPlain {t : Token} (h : t.isPlain = true) (atom : Text) (next : Option Token) :
    joint? atom t next = none := by
  unfold joint?
  by_cases hkind : t.kind = .word
  · simp only [Token.isPlain, hkind, Bool.not_eq_true', Bool.or_eq_false_iff] at h
    simp [h.1, h.2]
  · simp [hkind]

theorem symbolsFrom_of_joint?_eq_none {atom : Text} {t : Token} {ts : List Token}
    (hopening : t.kind ≠ .opening) (hclosing : t.kind ≠ .closing)
    (hjoint : joint? atom t ts.head? = none) (hatom : Begun (atom ++ t.text)) :
    symbolsFrom atom 0 (t :: ts) = symbolsFrom (atom ++ t.text) 0 ts := by
  simp only [symbolsFrom]
  cases hk : t.kind with
  | opening => exact absurd hk hopening
  | closing => exact absurd hk hclosing
  | _ => simp only [hjoint, hatom.trimStart]

theorem symbolsFrom_plain {ts : List Token} (h : ∀ t ∈ ts, t.isPlain = true) {atom : Text}
    (hatom : Begun atom) (rest : List Token) :
    symbolsFrom atom 0 (ts ++ rest) = symbolsFrom (atom ++ textOf ts) 0 rest := by
  induction ts generalizing atom with
  | nil => simp
  | cons t ts ih =>
    have ht := h t List.mem_cons_self
    have ih := ih (fun u hu => h u (List.mem_cons_of_mem t hu)) (hatom.append t.text)
    have hkind : t.kind ≠ .opening ∧ t.kind ≠ .closing := by
      constructor
      · intro hk
        simp [Token.isPlain, hk] at ht
      · intro hk
        simp [Token.isPlain, hk] at ht
    rw [List.cons_append, symbolsFrom_of_joint?_eq_none hkind.1 hkind.2
      (joint?_of_isPlain ht _ _) (hatom.append t.text), ih]
    simp

/-- What stands in a parenthesis of an atom belongs to the atom. -/
theorem symbolsFrom_enclosed {ts : List Token}
    (h : ∀ t ∈ ts, t.kind ≠ .opening ∧ t.kind ≠ .closing) (atom : Text) (rest : List Token) :
    symbolsFrom atom 1 (ts ++ parenClose :: rest) =
      symbolsFrom (atom ++ textOf ts ++ [')']) 0 rest := by
  induction ts generalizing atom with
  | nil => simp [symbolsFrom, parenClose]
  | cons t ts ih =>
    obtain ⟨hopening, hclosing⟩ := h t List.mem_cons_self
    have ih := ih (fun u hu => h u (List.mem_cons_of_mem t hu)) (atom ++ t.text)
    simp only [List.cons_append, symbolsFrom]
    cases hk : t.kind with
    | opening => exact absurd hk hopening
    | closing => exact absurd hk hclosing
    | _ => simpa using ih

/-! ## Qualified names -/

theorem begun_of_isSegment {w : Text} (h : Identifier.IsSegment w) : Begun w := by
  rcases w with _ | ⟨c, s⟩
  · exact h.elim
  · exact ⟨c, s, rfl, isSpace_eq_false_of_isIdentChar
      (isIdentChar_of_isNameChar (isNameChar_of_isNameStart h.1))⟩

theorem symbolsFrom_point {atom : Text} (hatom : Begun atom) (ts : List Token) :
    symbolsFrom atom 0 (single '.' :: ts) = symbolsFrom (atom ++ ['.']) 0 ts :=
  symbolsFrom_of_joint?_eq_none (by decide) (by decide) (joint?_of_isPlain rfl _ _)
    (hatom.append _)

/-- Next to a point a word belongs to the atom, whatever it is. -/
theorem symbolsFrom_word {atom w : Text} {ts : List Token}
    (h : atom.getLast? = some '.' ∨ ts.head? = some (single '.')) (hatom : Begun (atom ++ w)) :
    symbolsFrom atom 0 (word w :: ts) = symbolsFrom (atom ++ w) 0 ts :=
  symbolsFrom_of_joint?_eq_none (by simp [word]) (by simp [word]) (if_pos (.inr h)) hatom

theorem symbolsFrom_dotted (ws : List Text) {atom : Text} (hatom : Begun atom)
    (hpoint : atom.getLast? = some '.') (rest : List Token) :
    symbolsFrom atom 0 (dotted ws ++ rest) = symbolsFrom (atom ++ textOf (dotted ws)) 0 rest := by
  fun_induction dotted ws generalizing atom with
  | case1 => simp
  | case2 w =>
    rw [List.singleton_append, symbolsFrom_word (.inl hpoint) (hatom.append _)]
    simp [word]
  | case3 w v ws ih =>
    have hword := hatom.append w
    rw [List.cons_append, List.cons_append, symbolsFrom_word (.inl hpoint) hword,
      symbolsFrom_point hword, ih (hword.append _) (by simp)]
    simp [single, word]

theorem symbolsFrom_column {column : Text} (h : IsColumn column) (rest : List Token) :
    symbolsFrom [] 0 (lex column ++ rest) = symbolsFrom column 0 rest ∧ Begun column := by
  obtain ⟨w, v, ws, hws, rfl⟩ := h
  have hw : Begun ([] ++ w) := begun_of_isSegment (hws w List.mem_cons_self)
  rw [lexed_dotted hws, dotted, List.cons_append, List.cons_append,
    symbolsFrom_word (.inr rfl) hw, symbolsFrom_point hw,
    symbolsFrom_dotted _ (hw.append _) (by simp)]
  refine ⟨?_, ?_⟩
  · simp [single, word]
  · simpa [word] using hw.append (textOf (single '.' :: dotted (v :: ws)))

theorem symbolsFrom_column_append {column : Text} (h : IsColumn column) {ts : List Token}
    (hts : ∀ t ∈ ts, t.isPlain = true) (rest : List Token) :
    symbolsFrom [] 0 (lex column ++ ts ++ rest) = symbolsFrom (textOf (lex column ++ ts)) 0 rest ∧
      Begun (textOf (lex column ++ ts)) := by
  obtain ⟨hsymbols, hbegun⟩ := symbolsFrom_column h (ts ++ rest)
  rw [List.append_assoc, hsymbols, symbolsFrom_plain hts hbegun, textOf_append, textOf_lex]
  exact ⟨rfl, hbegun.append _⟩

theorem isPlain_placeholder (name : Text) : ∀ t ∈ [placeholder name], t.isPlain = true := by
  simp [Token.isPlain, placeholder]

/-! ## Joints and groups -/

theorem atomOf_of_trimEnd {atom : Text} (h : Begun atom) (htrim : Text.trimEnd atom = atom) :
    atomOf atom = [.atom atom] := by
  obtain ⟨c, s, rfl, -⟩ := h
  simp [atomOf, htrim]

theorem symbolsFrom_blank (ts : List Token) :
    symbolsFrom [] 0 (blank ' ' :: ts) = symbolsFrom [] 0 ts := by
  have hblank : Text.trimStart ([] ++ [' ']) = [] := by decide
  simp only [symbolsFrom, blank]
  rw [joint?_of_isPlain rfl]
  simp only [hblank]

theorem joint?_and (atom : Text) (h : atom.getLast? ≠ some '.') :
    joint? atom (word "AND".toList) (some (blank ' ')) = some .and := by
  rw [joint?, if_neg (by simp [word, h, blank, single]), if_pos (by decide)]

theorem joint?_or (atom : Text) (h : atom.getLast? ≠ some '.') :
    joint? atom (word "OR".toList) (some (blank ' ')) = some .or := by
  rw [joint?, if_neg (by simp [word, h, blank, single]), if_neg (by decide), if_pos (by decide)]

theorem symbolsFrom_joint {w : Text} {s : Boolean.Symbol Text}
    (hs : ∀ atom : Text, atom.getLast? ≠ some '.' →
      joint? atom (word w) (some (blank ' ')) = some s)
    {atom : Text} (hatom : atom = [] ∨ Begun atom) (ts : List Token) :
    symbolsFrom atom 0 (blank ' ' :: word w :: blank ' ' :: ts) =
      atomOf atom ++ s :: symbolsFrom [] 0 ts := by
  have hword : ∀ a : Text, a.getLast? ≠ some '.' →
      symbolsFrom a 0 (word w :: blank ' ' :: ts) = atomOf a ++ s :: symbolsFrom [] 0 ts := by
    intro a ha
    rw [← symbolsFrom_blank ts]
    simp only [symbolsFrom, word]
    have := hs a ha
    simp only [word] at this
    simp only [List.head?_cons, this]
  rcases hatom with rfl | hatom
  · rw [symbolsFrom_blank]
    exact hword [] (by simp)
  · rw [symbolsFrom_of_joint?_eq_none (by decide) (by decide) (joint?_of_isPlain rfl _ _)
      (hatom.append _), hword _ (by simp [blank])]
    have htrim : Text.trimEnd (atom ++ (blank ' ').text) = Text.trimEnd atom :=
      trimEnd_append_of_all fun c hc => by
        obtain rfl := List.mem_singleton.1 hc
        decide
    rw [atomOf, htrim, atomOf]

/-- A parenthesis in front of which no atom has begun opens a group unless a placeholder follows. -/
theorem symbolsFrom_opening {ts : List Token}
    (h : ts.head?.all (·.kind != .placeholder) = true) :
    symbolsFrom [] 0 (parenOpen :: ts) = .opening :: symbolsFrom [] 0 ts := by
  simp only [symbolsFrom, parenOpen]
  exact if_pos ⟨trivial, h⟩

/-- A parenthesis belongs to an atom that has begun, and begins one in front of a placeholder. -/
theorem symbolsFrom_inner {atom : Text} {ts : List Token}
    (h : Begun atom ∨ ∃ name, ts.head? = some (placeholder name)) :
    symbolsFrom atom 0 (parenOpen :: ts) = symbolsFrom (atom ++ ['(']) 1 ts := by
  simp only [symbolsFrom, parenOpen]
  refine if_neg fun hgroup => ?_
  rcases h with hatom | ⟨name, hname⟩
  · exact hatom.ne_nil hgroup.1
  · rw [hname] at hgroup
    cases hgroup.2

end QueryClauses.Sql
