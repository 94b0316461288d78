import QueryClauses.Value.Basic

/-!
# Values for columns

A value is sent in the form of its own kind, whatever the type of the column, but for three points:
integers are narrowed for the 2 and 4 byte integer types if they fit, floating point numbers for the
4 byte type, and a list is sent for an array type only. The types themselves, and the form of each
kind of value, come from the database's client library.
-/

namespace QueryClauses

/-- Why a value has no binary form for a column. -/
inductive WireFault where
  | tooLarge
  | tooSmall
  /-- A list for a column that holds no arrays. -/
  | listForScalar (type : String)
  /-- A reason of the client library's own. -/
  | client (message : String)
deriving DecidableEq, Repr

def WireFault.message : WireFault → String
  | tooLarge => "number too large to fit in target type"
  | tooSmall => "number too small to fit in target type"
  | listForScalar type =>
    "list parameter bound to non-array type " ++ type ++
      "; expand it into one placeholder per element"
  | client message => message

/-- What comes of a value for a column: its bytes, none for null, or a fault. -/
abbrev WireResult := Except WireFault (Option (List UInt8))

/-- The number types of columns. -/
inductive NumberType where
  | int2 | int4 | int8
  /-- Object numbers. -/
  | oid
  | float4 | float8
deriving DecidableEq, Repr

/-- A client library of the database with the types of columns that it knows: what it tells of a
type, and how it writes values of each kind for one. -/
structure Client (T : Type) where
  /-- Which number type a type is, if it is one. -/
  number? : T → Option NumberType
  /-- The type of the elements of an array type. -/
  element? : T → Option T
  /-- A type as messages show it. -/
  shown : T → String
  bool : Bool → T → WireResult
  int16 : Int16 → T → WireResult
  int32 : Int32 → T → WireResult
  int64 : Int64 → T → WireResult
  /-- Writes a floating point number of 32 bits, given by these. -/
  float32 : UInt32 → T → WireResult
  float64 : Binary64 → T → WireResult
  text : String → T → WireResult
  timestamp : Timestamp → T → WireResult
  uuid : Uuid → T → WireResult
  /-- Writes a list for an array type, given how each element is written for a type. -/
  list : List (T → WireResult) → T → WireResult

variable {T : Type}

namespace Client

/-- An integer in a narrower type, if it lies between the least and the greatest value of that. -/
def narrowed {α : Type} (least greatest : Int64) (convert : Int64 → α) (n : Int64) :
    Except WireFault α :=
  if n < least then .error .tooSmall
  else if greatest < n then .error .tooLarge
  else .ok (convert n)

/-- An integer for a column: narrowed where the type is an integer type of 2 or 4 bytes. -/
def integer (client : Client T) (n : Int64) (t : T) : WireResult :=
  match client.number? t with
  | some .int2 => do
    client.int16 (← narrowed Int16.minValue.toInt64 Int16.maxValue.toInt64 Int64.toInt16 n) t
  | some .int4 => do
    client.int32 (← narrowed Int32.minValue.toInt64 Int32.maxValue.toInt64 Int64.toInt32 n) t
  | _ => client.int64 n t

/-- A floating point number for a column: narrowed where the type is that of 4 bytes. -/
def floating (client : Client T) (x : Binary64) (t : T) : WireResult :=
  match client.number? t with
  | some .float4 => client.float32 x.narrow t
  | _ => client.float64 x t

end Client

namespace Value

mutual

/-- What comes of a value for a column. -/
def write (client : Client T) : Value → T → WireResult
  | null, _ => .ok none
  | bool b, t => client.bool b t
  | int n, t => client.integer n t
  | ordinal n, t => client.integer n.toInt64 t
  | float x, t => client.floating x t
  | text s, t => client.text s t
  | timestamp p, t => client.timestamp p t
  | uuid id, t => client.uuid id t
  | list items, t =>
    match client.element? t with
    | none => .error (.listForScalar (client.shown t))
    | some _ => client.list (writers client items) t

/-- How each value of a list is written. -/
def writers (client : Client T) : List Value → List (T → WireResult)
  | [] => []
  | v :: vs => write client v :: writers client vs

end

theorem writers_eq_map (client : Client T) (vs : List Value) :
    writers client vs = vs.map (write client) := by
  induction vs with
  | nil => rfl
  | cons v vs ih => rw [writers, ih, List.map_cons]

end Value

end QueryClauses
