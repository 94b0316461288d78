import QueryClauses.Filter.Basic

/-!
# Well-formed conditions

A list of filters is read from left to right into a list of elements in which every comparison has
its field and an operand of the right shape. The list is refused at its first fault: a parenthesis
without a partner, an empty or incomplete group, AND or OR without a left side, a comparison without
a field, or one whose operand does not fit. Then come the faults of the whole: groups left open, and
AND or OR at the end.
-/

namespace QueryClauses

/-- Why a list of filters describes no condition. Positions count from zero. -/
inductive FilterFault where
  | unbalanced (pos : Nat)
  | incompleteGroup (pos : Nat)
  | noLeftSide (operation : Operation) (pos : Nat)
  | noField (operation : Operation) (pos : Nat)
  | unfitOperand (operation : Operation) (pos : Nat) (operand : Operand)
  | unclosed (groups : Nat)
  | dangling
  /-- A reason in words. -/
  | stated (reason : String)
deriving Repr

def FilterFault.message : FilterFault → String
  | unbalanced pos => "unbalanced ')' at position " ++ toString pos
  | incompleteGroup pos =>
    "')' at position " ++ toString pos ++ " closes an empty or incomplete group"
  | noLeftSide operation pos =>
    operation.name ++ " at position " ++ toString pos ++ " has no left operand"
  | noField operation pos =>
    operation.name ++ " at position " ++ toString pos ++ " has no entity or field"
  | unfitOperand operation pos operand =>
    operation.name ++ " at position " ++ toString pos ++ " has an unsupported value: " ++
      operand.shown
  | unclosed groups => toString groups ++ " unclosed '(' in filter expression"
  | dangling => "filter expression ends with a combinator"
  | stated reason => reason

/-- The signs of comparisons. -/
inductive Sign where
  | eq | ne | gt | ge | lt | le
deriving DecidableEq, Repr

def Sign.text : Sign → String
  | eq => "="
  | ne => "!="
  | gt => ">"
  | ge => ">="
  | lt => "<"
  | le => "<="

/-- The sign of an operation that compares with one value. -/
def Operation.sign? : Operation → Option Sign
  | equals => some .eq
  | different => some .ne
  | greater => some .gt
  | greaterOrEquals => some .ge
  | less => some .lt
  | lessOrEquals => some .le
  | _ => none

/-- What is said of a field. -/
inductive Comparison where
  | isNull
  | isNotNull
  | compares (sign : Sign) (v : Value)
  | contains (text : String)
  | between (low high : Value)
  | isIn (vs : List Value)
deriving Repr

namespace Comparison

/-- An order comparison, which takes neither null nor a list. -/
def ordered? (sign : Sign) (v : Value) : Option Comparison :=
  if v.isNull || v.isList then none else some (compares sign v)

/-- An equality or inequality, which takes null as a comparison of its own and no list. -/
def matched? (sign : Sign) (ofNull : Comparison) (v : Value) : Option Comparison :=
  if v.isList then none else if v.isNull then some ofNull else some (compares sign v)

/-- Membership in values, of which there has to be one. -/
def isIn? (vs : List Value) : Option Comparison := if vs.isEmpty then none else some (isIn vs)

/-- The comparison that an operation and an operand make, if they fit. -/
def of? : Operation → Operand → Option Comparison
  | .equals, .single v => matched? .eq isNull v
  | .different, .single v => matched? .ne isNotNull v
  | .greater, .single v => ordered? .gt v
  | .greaterOrEquals, .single v => ordered? .ge v
  | .less, .single v => ordered? .lt v
  | .lessOrEquals, .single v => ordered? .le v
  | .like, .single (.text s) => some (contains s)
  | .between, .range low high =>
    if low.isNull || high.isNull then none else some (between low high)
  | .isIn, .list vs => isIn? vs
  | .isIn, .single (.list vs) => isIn? vs
  | _, _ => none

end Comparison

/-- An element of a condition. -/
inductive Element where
  | opening
  | closing
  | and
  | or
  | comparison (entity field : String) (c : Comparison)
deriving Repr

/-- What stands before an element. -/
inductive Preceding where
  | start
  /-- A comparison or a closing parenthesis. -/
  | operand
  /-- AND or OR. -/
  | joint
  | opening
deriving DecidableEq, Repr

namespace Element

/-- The comparison that a filter at a position describes. -/
def comparisonOf (pos : Nat) (f : Filter) : Except FilterFault Element :=
  match f.entity, f.field with
  | some entity, some field =>
    match Comparison.of? f.operation f.operand with
    | some c => .ok (comparison entity field c)
    | none => .error (.unfitOperand f.operation pos f.operand)
  | _, _ => .error (.noField f.operation pos)

/-- Reads the filters from a position on, with `depth` groups open. -/
def readFrom (pos depth : Nat) (preceding : Preceding) :
    List Filter → Except FilterFault (List Element)
  | [] =>
    if depth ≠ 0 then .error (.unclosed depth)
    else if preceding = .joint then .error .dangling
    else .ok []
  | f :: fs =>
    match f.operation with
    | .opening => (readFrom (pos + 1) (depth + 1) .opening fs).map (opening :: ·)
    | .closing =>
      if depth = 0 then .error (.unbalanced pos)
      else if preceding ≠ .operand then .error (.incompleteGroup pos)
      else (readFrom (pos + 1) (depth - 1) .operand fs).map (closing :: ·)
    | .and =>
      if preceding ≠ .operand then .error (.noLeftSide .and pos)
      else (readFrom (pos + 1) depth .joint fs).map (and :: ·)
    | .or =>
      if preceding ≠ .operand then .error (.noLeftSide .or pos)
      else (readFrom (pos + 1) depth .joint fs).map (or :: ·)
    | _ =>
      match comparisonOf pos f with
      | .error fault => .error fault
      | .ok element => (readFrom (pos + 1) depth .operand fs).map (element :: ·)

/-- Reads a list of filters. -/
def read (fs : List Filter) : Except FilterFault (List Element) := readFrom 0 0 .start fs

end Element

/-- Whether a list of filters describes a condition, or why not. -/
def Filter.check (fs : List Filter) : Except FilterFault Unit := (Element.read fs).map fun _ => ()

end QueryClauses
