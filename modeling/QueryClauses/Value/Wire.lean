import QueryClauses.Value.Client

/-!
# A client library

The built-in types of the database with their numbers, types that it declares, and the binary format
in which a client library writes values for them: each in the form of its own kind, most significant
byte first, and a list as an array of one dimension, its elements in the form for the element type.
-/

namespace QueryClauses

/-- The built-in types that are no arrays. -/
inductive ScalarType where
  | bool | int2 | int4 | int8 | oid | float4 | float8 | text | varchar | timestamp | timestamptz
  | uuid
deriving DecidableEq, Repr

namespace ScalarType

def name : ScalarType → String
  | bool => "bool"
  | int2 => "int2"
  | int4 => "int4"
  | int8 => "int8"
  | oid => "oid"
  | float4 => "float4"
  | float8 => "float8"
  | text => "text"
  | varchar => "varchar"
  | timestamp => "timestamp"
  | timestamptz => "timestamptz"
  | uuid => "uuid"

/-- The identifying number of the type. -/
def number : ScalarType → Nat
  | bool => 16
  | int8 => 20
  | int2 => 21
  | int4 => 23
  | text => 25
  | oid => 26
  | float4 => 700
  | float8 => 701
  | varchar => 1043
  | timestamp => 1114
  | timestamptz => 1184
  | uuid => 2950

/-- The identifying number of the type's array type. -/
def arrayNumber : ScalarType → Nat
  | bool => 1000
  | int2 => 1005
  | int4 => 1007
  | text => 1009
  | varchar => 1015
  | int8 => 1016
  | float4 => 1021
  | float8 => 1022
  | oid => 1028
  | timestamp => 1115
  | timestamptz => 1185
  | uuid => 2951

end ScalarType

/-- The type of a column. -/
inductive ColumnType where
  | scalar (t : ScalarType)
  | array (element : ScalarType)
  /-- A vector of 2 byte integers: an array whose indices start at zero. -/
  | int2vector
  /-- A vector of object numbers, likewise. -/
  | oidvector
  /-- A type that the database declares, an array type if it has elements. -/
  | declared (schema name : String) (number : Nat) (element : Option ColumnType)
deriving Repr

namespace ColumnType

def name : ColumnType → String
  | scalar t => t.name
  | array t => "_" ++ t.name
  | int2vector => "int2vector"
  | oidvector => "oidvector"
  | declared _ name _ _ => name

/-- The name, with the schema in front unless it is one that is always searched. -/
def qualifiedName : ColumnType → String
  | declared schema name _ _ =>
    if schema = "public" ∨ schema = "pg_catalog" then name else schema ++ "." ++ name
  | t => t.name

def number : ColumnType → Nat
  | scalar t => t.number
  | array t => t.arrayNumber
  | int2vector => 22
  | oidvector => 30
  | declared _ _ number _ => number

def number? : ColumnType → Option NumberType
  | scalar .int2 => some .int2
  | scalar .int4 => some .int4
  | scalar .int8 => some .int8
  | scalar .oid => some .oid
  | scalar .float4 => some .float4
  | scalar .float8 => some .float8
  | _ => none

/-- The type of the elements of an array type. -/
def element? : ColumnType → Option ColumnType
  | scalar _ => none
  | array t => some (scalar t)
  | int2vector => some (scalar .int2)
  | oidvector => some (scalar .oid)
  | declared _ _ _ element => element

/-- The index of the first element of an array type. -/
def lowerBound : ColumnType → Nat
  | int2vector | oidvector => 0
  | _ => 1

/-- Whether texts of the type are preceded by a version byte. -/
def hasVersionByte (t : ColumnType) : Bool := ["ltree", "lquery", "ltxtquery"].contains t.name

end ColumnType

namespace Wire

/-- A number in `width` bytes, most significant first, reduced to that many. -/
def bigEndian : Nat → Nat → List UInt8
  | 0, _ => []
  | width + 1, n => bigEndian width (n / 256) ++ [UInt8.ofNat (n % 256)]

/-- An integer in `width` bytes, in two's complement. -/
def signed (width : Nat) (n : Int) : List UInt8 := bigEndian width (n % Int.pow 256 width).toNat

/-- An array of one dimension: its head, then each element with its length, -1 for null. -/
def arrayOf (t element : ColumnType) (items : List (Option (List UInt8))) : List UInt8 :=
  bigEndian 4 1 ++ bigEndian 4 (if items.any Option.isNone then 1 else 0) ++
    bigEndian 4 element.number ++ bigEndian 4 items.length ++ bigEndian 4 t.lowerBound ++
    items.flatMap fun
      | none => signed 4 (-1)
      | some bytes => bigEndian 4 bytes.length ++ bytes

/-- What comes of a list for an array type; the first fault of an element counts. -/
def list (writers : List (ColumnType → WireResult)) (t : ColumnType) : WireResult := do
  match t.element? with
  | none => throw (.client "expected array type")
  | some element =>
    let items ← writers.mapM fun write => write element
    return some (arrayOf t element items)

/-- The client library with this format. -/
def client : Client ColumnType where
  number? := ColumnType.number?
  element? := ColumnType.element?
  shown := ColumnType.qualifiedName
  bool b _ := .ok (some [if b then 1 else 0])
  int16 n _ := .ok (some (signed 2 n.toInt))
  int32 n _ := .ok (some (signed 4 n.toInt))
  int64 n _ := .ok (some (signed 8 n.toInt))
  float32 bits _ := .ok (some (bigEndian 4 bits.toNat))
  float64 x _ := .ok (some (bigEndian 8 x.bits.toNat))
  text s t := .ok (some ((if t.hasVersionByte then [1] else []) ++ s.toUTF8.toList))
  timestamp p _ := .ok (some (signed 8 p.microseconds))
  uuid id _ := .ok (some (bigEndian 16 id.bits.toNat))
  list := list

end Wire

namespace Value

/-- What comes of a value for a column, with this client library. -/
def encode (t : ColumnType) (v : Value) : WireResult := v.write Wire.client t

end Value

end QueryClauses
