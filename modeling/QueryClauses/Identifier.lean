import QueryClauses.Text.Basic

/-!
# Identifiers

Identifiers cannot be bound to placeholders, they are written into the query text as they are. So an
alias has to be one segment of letters, digits, underscores and dollar signs that starts with a
letter or an underscore, and a field name one or more such segments joined by points.

Main statement: `checkField_eq_ok_iff`, the field names that pass are exactly those.
-/

namespace QueryClauses

/-- Why a text is no identifier. -/
inductive IdentifierFault where
  | dottedAlias (whole : String)
  | emptyField
  | emptySegment (whole : String)
  | badStart (whole : String) (c : Char)
  | badCharacter (whole : String) (c : Char)
  /-- A reason in words. -/
  | stated (reason : String)
deriving DecidableEq, Repr

def IdentifierFault.message : IdentifierFault → String
  | dottedAlias whole => "alias '" ++ whole ++ "' must not be dotted"
  | emptyField => "field name cannot be empty"
  | emptySegment whole => "empty segment in '" ++ whole ++ "'"
  | badStart whole c =>
    "'" ++ whole ++ "' has invalid start character '" ++ String.singleton c ++ "'"
  | badCharacter whole c =>
    "'" ++ whole ++ "' has invalid character '" ++ String.singleton c ++ "'"
  | stated reason => reason

namespace Identifier

open CharClass

/-- The pieces of a text between its points. -/
def segments : Text → List Text
  | [] => [[]]
  | c :: s =>
    if c = '.' then [] :: segments s
    else
      match segments s with
      | [] => [[c]]
      | piece :: pieces => (c :: piece) :: pieces

/-- A segment is a letter or an underscore and any number of identifier characters. -/
def IsSegment : Text → Prop
  | [] => False
  | c :: s => isNameStart c = true ∧ ∀ d ∈ s, isIdentChar d = true

/-- Fails unless the text is a segment; `whole` is what it is a segment of. -/
def checkSegment (whole : String) : Text → Except IdentifierFault Unit
  | [] => .error (.emptySegment whole)
  | c :: s =>
    if !isNameStart c then .error (.badStart whole c)
    else
      match s.find? (fun d => !isIdentChar d) with
      | some d => .error (.badCharacter whole d)
      | none => .ok ()

/-- Fails at the first piece that is no segment. -/
def checkSegments (whole : String) : List Text → Except IdentifierFault Unit
  | [] => .ok ()
  | piece :: pieces =>
    match checkSegment whole piece with
    | .error fault => .error fault
    | .ok () => checkSegments whole pieces

/-- Fails unless the text is one segment. -/
def checkAlias (name : String) : Except IdentifierFault Unit :=
  if name.toList.contains '.' then .error (.dottedAlias name)
  else checkSegment name name.toList

/-- Fails unless the text is one or more segments joined by points. -/
def checkField (field : String) : Except IdentifierFault Unit :=
  if field.isEmpty then .error .emptyField else checkSegments field (segments field.toList)

/-- A field of an alias, as it is written in query text. -/
def qualify (tableAlias field : String) : String := tableAlias ++ "." ++ field

theorem checkSegment_eq_ok_iff (whole : String) {s : Text} :
    checkSegment whole s = .ok () ↔ IsSegment s := by
  cases s with
  | nil => simp [checkSegment, IsSegment]
  | cons c s =>
    simp only [checkSegment, IsSegment]
    by_cases hc : isNameStart c = true
    · simp only [hc, Bool.not_true, Bool.false_eq_true, ↓reduceIte, true_and]
      cases hf : s.find? (fun d => !isIdentChar d) with
      | none => simpa using hf
      | some d =>
        have hd := List.find?_some hf
        have hm := List.mem_of_find?_eq_some hf
        simp only [reduceCtorEq, false_iff]
        intro h
        simp [h d hm] at hd
    · simp [hc]

theorem checkSegments_eq_ok_iff (whole : String) {pieces : List Text} :
    checkSegments whole pieces = .ok () ↔ ∀ piece ∈ pieces, IsSegment piece := by
  induction pieces with
  | nil => simp [checkSegments]
  | cons piece pieces ih =>
    rw [List.forall_mem_cons, ← ih, ← checkSegment_eq_ok_iff whole]
    simp only [checkSegments]
    cases checkSegment whole piece with
    | error fault => simp
    | ok u => simp

/-- A field name passes exactly if its pieces between points are segments. -/
theorem checkField_eq_ok_iff {field : String} :
    checkField field = .ok () ↔ ∀ piece ∈ segments field.toList, IsSegment piece := by
  rw [← checkSegments_eq_ok_iff field]
  simp only [checkField]
  split
  · rename_i h
    have : field = "" := by simpa using h
    subst this
    simp [segments, checkSegments, checkSegment]
  · rfl

end Identifier

end QueryClauses
