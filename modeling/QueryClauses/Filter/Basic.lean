import QueryClauses.Value.Shown

/-!
# Filters

A condition is described by a flat list of filters. A filter compares a field of an entity with an
operand, or is a mark: AND, OR or a parenthesis. Two comparisons without a mark between them are
joined by OR.
-/

namespace QueryClauses

/-- What a filter does. -/
inductive Operation where
  | equals | different | like | greater | greaterOrEquals | less | lessOrEquals | between | isIn
  | and | or | opening | closing
deriving DecidableEq, Repr

namespace Operation

/-- Marks take no field and no operand. -/
def isMark : Operation → Bool
  | and | or | opening | closing => true
  | _ => false

/-- The name that messages give to the operation. -/
def name : Operation → String
  | equals => "Equals"
  | different => "Different"
  | like => "Like"
  | greater => "Greater"
  | greaterOrEquals => "GreaterOrEquals"
  | less => "Less"
  | lessOrEquals => "LessOrEquals"
  | between => "Between"
  | isIn => "In"
  | and => "And"
  | or => "Or"
  | opening => "LParenthesis"
  | closing => "RParenthesis"

end Operation

/-- What a field is compared with. -/
inductive Operand where
  | absent
  | single (v : Value)
  | range (low high : Value)
  | list (vs : List Value)
deriving Repr

/-- The operand as messages show it. -/
def Operand.shown : Operand → String
  | absent => "Absent"
  | single v => "Single(" ++ v.shown ++ ")"
  | range low high => "Range(" ++ low.shown ++ ", " ++ high.shown ++ ")"
  | list vs => "List([" ++ ", ".intercalate (vs.map Value.shown) ++ "])"

/-- One element of a flat condition. Nothing ties the operand to the operation: a list is checked as
a whole when a condition is made of it. -/
structure Filter where
  entity : Option String
  field : Option String
  operation : Operation
  operand : Operand
deriving Repr

namespace Filter

/-- A filter from its parts. -/
def of (entity field : String) (operation : Operation) (operand : Operand) : Filter :=
  ⟨some entity, some field, operation, operand⟩

/-- A mark. -/
def mark (operation : Operation) : Filter := ⟨none, none, operation, .absent⟩

def and : Filter := mark .and
def or : Filter := mark .or
def opening : Filter := mark .opening
def closing : Filter := mark .closing

/-- Equality; with null, that the field is null. -/
def eq (entity field : String) (v : Value) : Filter := of entity field .equals (.single v)

/-- Inequality; with null, that the field is not null. -/
def ne (entity field : String) (v : Value) : Filter := of entity field .different (.single v)

def isNull (entity field : String) : Filter := eq entity field .null
def gt (entity field : String) (v : Value) : Filter := of entity field .greater (.single v)

def ge (entity field : String) (v : Value) : Filter :=
  of entity field .greaterOrEquals (.single v)

def lt (entity field : String) (v : Value) : Filter := of entity field .less (.single v)
def le (entity field : String) (v : Value) : Filter := of entity field .lessOrEquals (.single v)

/-- That the field contains a text. -/
def like (entity field text : String) : Filter := of entity field .like (.single (.text text))

/-- That the field lies between two values, both included. -/
def between (entity field : String) (low high : Value) : Filter :=
  of entity field .between (.range low high)

/-- That the field is one of the values. -/
def isIn (entity field : String) (vs : List Value) : Filter := of entity field .isIn (.list vs)

end Filter

end QueryClauses
