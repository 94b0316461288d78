import Mathlib.Data.Nat.Digits.Defs
import QueryClauses.Proofs.Except
import QueryClauses.Value.Wire

/-!
# Integers in binary form

The database reads the bytes for a column in the format of its type. Each number type has a format of
fixed width: two's complement, no sign for object numbers, or the floating point form. Of the client
library it is assumed that it writes an integer of 16, 32 or 64 bits in two's complement of that
width, and each element of a list for the element type (`Client.Follows`). Then an integer is written
in the format of the type, or refused if it lies outside of its range, exactly if the type is none of
the two for which `Client.integer` leaves it at 8 bytes although they have 4
(`integers_encoded_iff`).
-/

namespace QueryClauses

/-! ## The formats of numbers -/

/-- How the database reads the numbers of a type, and from how many bytes. -/
inductive NumberFormat where
  | signed (width : Nat)
  | unsigned (width : Nat)
  | floating (width : Nat)
deriving DecidableEq, Repr

def NumberType.format : NumberType → NumberFormat
  | int2 => .signed 2
  | int4 => .signed 4
  | int8 => .signed 8
  | oid => .unsigned 4
  | float4 => .floating 4
  | float8 => .floating 8

/-- The number in base 256 whose digits are bytes, most significant first. -/
def Wire.magnitude (bytes : List UInt8) : Nat :=
  Nat.ofDigits 256 (bytes.reverse.map UInt8.toNat)

namespace NumberFormat

def width : NumberFormat → Nat
  | signed width | unsigned width | floating width => width

/-- Whether an integer lies in the range of the format. Floating point formats, which round, have
none. -/
def Admits : NumberFormat → Int → Prop
  | signed width, n => -2 ^ (8 * width - 1) ≤ n ∧ n < 2 ^ (8 * width - 1)
  | unsigned width, n => 0 ≤ n ∧ n < 2 ^ (8 * width)
  | floating _, _ => True

/-- The integer that bytes denote in an integer format. -/
def read? : NumberFormat → List UInt8 → Option Int
  | signed width, bytes => some ((Wire.magnitude bytes : Int).bmod (256 ^ width))
  | unsigned _, bytes => some (Wire.magnitude bytes)
  | floating _, _ => none

/-- Bytes of the width of a format, which denote an integer if the format is one for integers. -/
structure Denotes (format : NumberFormat) (bytes : List UInt8) (n : Int) : Prop where
  length : bytes.length = format.width
  read : ∀ m, format.read? bytes = some m → m = n

/-- What is to come of an integer for a column: bytes that denote it, or a fault if it lies outside of
the range. -/
structure Encodes (format : NumberFormat) (n : Int) (result : WireResult) : Prop where
  written : ∀ bytes?, result = .ok bytes? → ∃ bytes, bytes? = some bytes ∧ format.Denotes bytes n
  refused_iff : (∃ fault, result = .error fault) ↔ ¬ format.Admits n

/-- What is to come of integers for an array column: an array of bytes that denote them, or a fault if
one of them lies outside of the range. -/
structure EncodesAll (format : NumberFormat) (array : List (Option (List UInt8)) → List UInt8)
    (ns : List Int) (result : WireResult) : Prop where
  written : ∀ bytes?, result = .ok bytes? → ∃ parts, bytes? = some (array (parts.map some)) ∧
    List.Forall₂ format.Denotes parts ns
  refused_iff : (∃ fault, result = .error fault) ↔ ∃ n ∈ ns, ¬ format.Admits n

end NumberFormat

/-! ## What is assumed of the client library -/

/-- A client library writes integers in two's complement of their own width, and a list for an array
type as what `array` makes of its elements, each written for the element type. -/
structure Client.Follows {T : Type} (client : Client T)
    (array : T → List (Option (List UInt8)) → List UInt8) : Prop where
  int16 : ∀ n t, ∃ bytes, client.int16 n t = .ok (some bytes) ∧
    (NumberFormat.signed 2).Denotes bytes n.toInt
  int32 : ∀ n t, ∃ bytes, client.int32 n t = .ok (some bytes) ∧
    (NumberFormat.signed 4).Denotes bytes n.toInt
  int64 : ∀ n t, ∃ bytes, client.int64 n t = .ok (some bytes) ∧
    (NumberFormat.signed 8).Denotes bytes n.toInt
  list : ∀ (t element : T) (writers : List (T → WireResult)), client.element? t = some element →
    client.list writers t =
      (writers.mapM fun (write : T → WireResult) => write element).map fun parts =>
        some (array t parts)

/-! ## Integers -/

namespace NumberFormat

variable {α : Type} {n : Int} {bytes : List UInt8}

/-- Bytes that denote an integer of the range. -/
theorem Encodes.of_denotes {format : NumberFormat} (h : format.Denotes bytes n)
    (hrange : format.Admits n) : format.Encodes n (.ok (some bytes)) where
  written := by
    rintro _ ⟨⟩
    exact ⟨bytes, rfl, h⟩
  refused_iff := ⟨(fun ⟨_, hfault⟩ => nomatch hfault), fun hno => absurd hrange hno⟩

/-- Bytes of another width do not do for the format. -/
theorem not_encodes_of_length_ne {format : NumberFormat} (h : bytes.length ≠ format.width) :
    ¬ format.Encodes n (.ok (some bytes)) := by
  intro hencodes
  obtain ⟨_, hbytes, hdenotes⟩ := hencodes.written _ rfl
  cases hbytes
  exact h hdenotes.length

/-- A floating point number of 8 bytes is only known by its width. -/
theorem Denotes.floating (h : (signed 8).Denotes bytes n) : (floating 8).Denotes bytes n :=
  ⟨h.length, fun _ hread => nomatch hread⟩

/-- An integer is narrowed if it lies in the range of the narrower type. -/
theorem encodes_narrowed {width : Nat} {least greatest : Int64} {convert : Int64 → α}
    {write : α → WireResult} (hleast : least.toInt = -2 ^ (8 * width - 1))
    (hgreatest : greatest.toInt + 1 = 2 ^ (8 * width - 1)) (n : Int64)
    (hwrite : (signed width).Admits n.toInt → ∃ bytes, write (convert n) = .ok (some bytes) ∧
      (signed width).Denotes bytes n.toInt) :
    (signed width).Encodes n.toInt (Client.narrowed least greatest convert n >>= write) := by
  have hrefused (fault : WireFault) (h : ¬ (signed width).Admits n.toInt) :
      (signed width).Encodes n.toInt (.error fault) :=
    ⟨(fun _ hbytes => nomatch hbytes), fun _ => h, fun _ => ⟨fault, rfl⟩⟩
  unfold Client.narrowed
  split
  · rename_i hlow
    rw [Int64.lt_iff_toInt_lt] at hlow
    exact hrefused _ fun h => absurd h.1 (by omega)
  split
  · rename_i hhigh
    rw [Int64.lt_iff_toInt_lt] at hhigh
    exact hrefused _ fun h => absurd h.2 (by omega)
  · rename_i hlow hhigh
    rw [Int64.lt_iff_toInt_lt] at hlow hhigh
    have hrange : (signed width).Admits n.toInt := ⟨by omega, by omega⟩
    obtain ⟨bytes, hbytes, hdenotes⟩ := hwrite hrange
    show (signed width).Encodes n.toInt (write (convert n))
    rw [hbytes]
    exact .of_denotes hdenotes hrange

end NumberFormat

namespace Value

variable {T : Type} {client : Client T} {array : T → List (Option (List UInt8)) → List UInt8}
  {t : T} {number : NumberType} {v : Value} {n : Int}

/-- The integer of a value that is sent as one. -/
def integer? : Value → Option Int
  | int n => some n.toInt
  | ordinal n => some n.toInt
  | _ => none

/-- A value that is sent as an integer has one of 64 bits. -/
theorem exists_write_of_integer? (h : v.integer? = some n) (client : Client T) :
    ∃ m : Int64, m.toInt = n ∧ ∀ t, v.write client t = client.integer m t := by
  cases v with
  | int m =>
    cases h
    exact ⟨m, rfl, fun t => by rw [write]⟩
  | ordinal m =>
    cases h
    exact ⟨m.toInt64, m.toInt_toInt64, fun t => by rw [write]⟩
  | _ => cases h

theorem admits_toInt (m : Int64) : (NumberFormat.signed 8).Admits m.toInt := ⟨m.le_toInt, m.toInt_lt⟩

section

variable (hclient : client.Follows array) (ht : client.number? t = some number)
include hclient ht

/-- What is written for a type that integers are not narrowed for. -/
theorem exists_integer_of_ne (hint2 : number ≠ .int2) (hint4 : number ≠ .int4) (m : Int64) :
    ∃ bytes, client.integer m t = .ok (some bytes) ∧
      (NumberFormat.signed 8).Denotes bytes m.toInt := by
  obtain ⟨bytes, hbytes, hdenotes⟩ := hclient.int64 m t
  refine ⟨bytes, ?_, hdenotes⟩
  rw [Client.integer, ht, ← hbytes]
  cases number with
  | int2 => exact absurd rfl hint2
  | int4 => exact absurd rfl hint4
  | _ => rfl

theorem encodes_integer_iff (m : Int64) :
    number.format.Encodes m.toInt (client.integer m t) ↔ number ≠ .oid ∧ number ≠ .float4 := by
  cases number with
  | int2 =>
    refine iff_of_true ?_ (by decide)
    rw [Client.integer, ht]
    refine NumberFormat.encodes_narrowed (by decide) (by decide) m fun hrange => ?_
    obtain ⟨bytes, hbytes, hdenotes⟩ := hclient.int16 m.toInt16 t
    rw [Int64.toInt_toInt16, Int.bmod_eq_of_le (by have := hrange.1; norm_num at this ⊢; omega)
      (by have := hrange.2; norm_num at this ⊢; omega)] at hdenotes
    exact ⟨bytes, hbytes, hdenotes⟩
  | int4 =>
    refine iff_of_true ?_ (by decide)
    rw [Client.integer, ht]
    refine NumberFormat.encodes_narrowed (by decide) (by decide) m fun hrange => ?_
    obtain ⟨bytes, hbytes, hdenotes⟩ := hclient.int32 m.toInt32 t
    rw [Int64.toInt_toInt32, Int.bmod_eq_of_le (by have := hrange.1; norm_num at this ⊢; omega)
      (by have := hrange.2; norm_num at this ⊢; omega)] at hdenotes
    exact ⟨bytes, hbytes, hdenotes⟩
  | int8 =>
    obtain ⟨bytes, hbytes, hdenotes⟩ := exists_integer_of_ne hclient ht (by decide) (by decide) m
    rw [hbytes]
    exact iff_of_true (.of_denotes hdenotes (admits_toInt m)) (by decide)
  | float8 =>
    obtain ⟨bytes, hbytes, hdenotes⟩ := exists_integer_of_ne hclient ht (by decide) (by decide) m
    rw [hbytes]
    exact iff_of_true (.of_denotes hdenotes.floating trivial) (by decide)
  | oid | float4 =>
    obtain ⟨bytes, hbytes, hdenotes⟩ := exists_integer_of_ne hclient ht (by decide) (by decide) m
    rw [hbytes]
    refine iff_of_false (NumberFormat.not_encodes_of_length_ne ?_) (by decide)
    rw [hdenotes.length]
    decide

/-- What comes of a value for a number type: the integer types of 2 and 4 bytes, and those of 8, are
written in their format. -/
theorem encodes_iff (hv : v.integer? = some n) :
    number.format.Encodes n (v.write client t) ↔ number ≠ .oid ∧ number ≠ .float4 := by
  obtain ⟨m, rfl, hwrite⟩ := exists_write_of_integer? hv client
  rw [hwrite]
  exact encodes_integer_iff hclient ht m

end

/-! ## Lists -/

section

variable {s : T} (hclient : client.Follows array) (hs : client.element? s = some t)
include hclient hs

theorem write_list_eq (items : List Value) : (list items).write client s =
    (items.mapM fun (v : Value) => v.write client t).map fun parts => some (array s parts) := by
  rw [write, hs, writers_eq_map]
  dsimp only
  rw [hclient.list s t _ hs, List.mapM_map]
  rfl

theorem write_list_eq_ok_iff {items : List Value} {bytes? : Option (List UInt8)} :
    (list items).write client s = .ok bytes? ↔ ∃ parts, bytes? = some (array s parts) ∧
      List.Forall₂ (fun v part => v.write client t = .ok part) items parts := by
  rw [write_list_eq hclient hs, map_eq_ok_iff]
  refine exists_congr fun parts => ?_
  rw [mapM_eq_ok_iff, and_comm, eq_comm]

theorem exists_write_list_eq_error_iff {items : List Value} :
    (∃ fault, (list items).write client s = .error fault) ↔
      ∃ v ∈ items, ∃ fault, v.write client t = .error fault := by
  rw [write_list_eq hclient hs, ← exists_mapM_eq_error_iff]
  exact exists_congr fun fault => map_eq_error_iff

/-- If each element is written in the format, the list is. -/
theorem encodesAll_of_encodes {format : NumberFormat} {items : List Value} {ns : List Int}
    (h : List.Forall₂ (fun v n => format.Encodes n (v.write client t)) items ns) :
    format.EncodesAll (array s) ns ((list items).write client s) where
  written := by
    intro bytes? hbytes
    obtain ⟨parts, rfl, hparts⟩ := (write_list_eq_ok_iff hclient hs).1 hbytes
    clear hbytes
    suffices ∃ bytes : List (List UInt8), parts = bytes.map some ∧
        List.Forall₂ format.Denotes bytes ns by
      obtain ⟨bytes, rfl, hdenotes⟩ := this
      exact ⟨bytes, rfl, hdenotes⟩
    induction h generalizing parts with
    | nil =>
      cases hparts
      exact ⟨[], rfl, .nil⟩
    | cons hencodes _ ih =>
      obtain ⟨part, others, hpart, hothers, rfl⟩ := List.forall₂_cons_left_iff.1 hparts
      obtain ⟨bytes, rfl, hdenotes⟩ := hencodes.written _ hpart
      obtain ⟨rest, rfl, hrest⟩ := ih _ hothers
      exact ⟨bytes :: rest, rfl, .cons hdenotes hrest⟩
  refused_iff := by
    rw [exists_write_list_eq_error_iff hclient hs]
    induction h with
    | nil => simp
    | cons hencodes _ ih => rw [List.exists_mem_cons_iff, List.exists_mem_cons_iff, ih,
        hencodes.refused_iff]

end

/-- With a client library that writes integers in two's complement of their own width, and the
elements of a list for the element type: an integer for a number type is written in its format, or
refused if it lies outside of the range, exactly unless the type is that of object numbers or of the
floating point numbers of 4 bytes; for these it is written in 8 bytes. A list for an array of the type
is written as the array of what is written for each element by itself, and refused if an element is:
so a list of integers is written in the format of the type, or refused, where an integer is. -/
theorem integers_encoded_iff {T : Type} {client : Client T}
    {array : T → List (Option (List UInt8)) → List UInt8} (hclient : client.Follows array) {t : T}
    {number : NumberType} (ht : client.number? t = some number) :
    (∀ (v : Value) (n : Int), v.integer? = some n →
      (number.format.Encodes n (v.write client t) ↔ number ≠ .oid ∧ number ≠ .float4) ∧
      (number = .oid ∨ number = .float4 → ∃ bytes, v.write client t = .ok (some bytes) ∧
        (NumberFormat.signed 8).Denotes bytes n)) ∧
    ∀ s : T, client.element? s = some t → ∀ items : List Value,
      (∀ bytes?, (list items).write client s = .ok bytes? ↔
        ∃ parts, bytes? = some (array s parts) ∧
          List.Forall₂ (fun v part => v.write client t = .ok part) items parts) ∧
      ((∃ fault, (list items).write client s = .error fault) ↔
        ∃ v ∈ items, ∃ fault, v.write client t = .error fault) ∧
      ∀ ns : List Int, List.Forall₂ (fun v n => v.integer? = some n) items ns →
        number ≠ .oid → number ≠ .float4 →
        number.format.EncodesAll (array s) ns ((list items).write client s) := by
  refine ⟨fun v n hv => ⟨encodes_iff hclient ht hv, fun hnumber => ?_⟩, fun s hs items =>
    ⟨fun bytes? => write_list_eq_ok_iff hclient hs, exists_write_list_eq_error_iff hclient hs,
      fun ns hns hoid hfloat4 => encodesAll_of_encodes hclient hs ?_⟩⟩
  · obtain ⟨m, rfl, hwrite⟩ := exists_write_of_integer? hv client
    rw [hwrite]
    refine exists_integer_of_ne hclient ht ?_ ?_ m
    · rintro rfl
      rcases hnumber with h | h <;> cases h
    · rintro rfl
      rcases hnumber with h | h <;> cases h
  · exact hns.imp fun v n hv => (encodes_iff hclient ht hv).2 ⟨hoid, hfloat4⟩

end Value

/-! ## A library that does as assumed -/

namespace Wire

theorem length_bigEndian (width n : Nat) : (bigEndian width n).length = width := by
  induction width generalizing n with
  | zero => rfl
  | succ width ih => rw [bigEndian, List.length_append, ih, List.length_singleton]

/-- Of a number the remainder is written. -/
theorem magnitude_bigEndian (width n : Nat) : magnitude (bigEndian width n) = n % 256 ^ width := by
  induction width generalizing n with
  | zero =>
    rw [Nat.pow_zero, Nat.mod_one]
    rfl
  | succ width ih =>
    have hlast : (UInt8.ofNat (n % 256)).toNat = n % 256 := by simp
    calc magnitude (bigEndian (width + 1) n)
        = n % 256 + 256 * magnitude (bigEndian width (n / 256)) := by
          rw [magnitude, bigEndian, List.reverse_append, List.reverse_singleton,
            List.singleton_append, List.map_cons, Nat.ofDigits_cons, hlast]
          rfl
      _ = n % 256 + 256 * (n / 256 % 256 ^ width) := by rw [ih]
      _ = n % 256 ^ (width + 1) := by rw [Nat.pow_succ', Nat.mod_mul]

/-- In two's complement, bytes of an integer are those of its remainder. -/
theorem magnitude_signed (width : Nat) (n : Int) :
    (magnitude (signed width n) : Int) = n % (256 ^ width : Nat) := by
  have hpos : (0 : Int) < (256 ^ width : Nat) := by positivity
  obtain ⟨r, hr⟩ : ∃ r : Nat, (r : Int) = n % (256 ^ width : Nat) :=
    ⟨_, Int.toNat_of_nonneg (Int.emod_nonneg _ hpos.ne')⟩
  have hmod := Int.emod_lt_of_pos n hpos
  have hlt : r < 256 ^ width := by omega
  have htoNat : (n % Int.pow 256 width).toNat = r := by
    change (n % 256 ^ width).toNat = r
    push_cast at hr
    omega
  rw [signed, htoNat, magnitude_bigEndian, Nat.mod_eq_of_lt hlt, hr]

/-- In the range, the remainder around zero of what is written is the integer. -/
theorem denotes_signed {width : Nat} {n : Int} (hwidth : 0 < width)
    (h : (NumberFormat.signed width).Admits n) :
    (NumberFormat.signed width).Denotes (signed width n) n where
  length := length_bigEndian _ _
  read := by
    rintro _ ⟨⟩
    obtain ⟨hlow, hhigh⟩ := h
    have hpow : ((256 ^ width : Nat) : Int) = 2 * 2 ^ (8 * width - 1) := by
      rw [← pow_succ', show 8 * width - 1 + 1 = 8 * width by omega, pow_mul]
      norm_num
    rw [magnitude_signed, Int.emod_bmod]
    refine Int.bmod_eq_of_le_mul_two ?_ ?_
    · omega
    · omega

theorem follows_client :
    client.Follows fun t parts => arrayOf t (t.element?.getD t) parts where
  int16 n _ := ⟨_, rfl, denotes_signed (by decide) ⟨n.le_toInt, n.toInt_lt⟩⟩
  int32 n _ := ⟨_, rfl, denotes_signed (by decide) ⟨n.le_toInt, n.toInt_lt⟩⟩
  int64 n _ := ⟨_, rfl, denotes_signed (by decide) ⟨n.le_toInt, n.toInt_lt⟩⟩
  list t element writers h := by
    have helement : t.element? = some element := h
    show list writers t = _
    rw [list, helement, Option.getD_some]
    show (writers.mapM fun (write : ColumnType → WireResult) => write element) >>= _ = _
    cases writers.mapM fun (write : ColumnType → WireResult) => write element <;> rfl

end Wire

namespace Value

/-- A negative integer for the 2 byte type, and lists with an ordinal that fits into it and with one
that does not. -/
theorem integers_encoded_iff_smallNumbers :
    Wire.client.Follows (fun t parts => Wire.arrayOf t (t.element?.getD t) parts) ∧
      Wire.client.number? (.scalar .int2) = some .int2 ∧
      (NumberFormat.signed 2).Encodes (-2) ((int (-2)).write Wire.client (.scalar .int2)) ∧
      (NumberFormat.signed 2).EncodesAll
        (fun parts => Wire.arrayOf (.array .int2) (.scalar .int2) parts) [7, 300]
        ((list [int 7, ordinal 300]).write Wire.client (.array .int2)) ∧
      ∃ fault, (list [int 7, ordinal 40000]).write Wire.client (.array .int2) = .error fault := by
  obtain ⟨hscalar, hlist⟩ := integers_encoded_iff Wire.follows_client
    (show Wire.client.number? (.scalar .int2) = some .int2 from rfl)
  have hgood : NumberType.int2 ≠ .oid ∧ NumberType.int2 ≠ .float4 := by decide
  have hlarge := ((hscalar (ordinal 40000) 40000 rfl).1).2 hgood
  have hrange : ¬ (NumberFormat.signed 2).Admits 40000 := by
    rintro ⟨-, hhigh⟩
    revert hhigh
    decide
  obtain ⟨-, hrefused, -⟩ := hlist (.array .int2) rfl [int 7, ordinal 40000]
  obtain ⟨-, -, hall⟩ := hlist (.array .int2) rfl [int 7, ordinal 300]
  exact ⟨Wire.follows_client, rfl, ((hscalar (int (-2)) (-2) rfl).1).2 hgood,
    hall [7, 300] (.cons rfl (.cons rfl .nil)) hgood.1 hgood.2,
    hrefused.2 ⟨ordinal 40000, by simp, hlarge.refused_iff.2 hrange⟩⟩

/-- An integer for a floating point column of 4 bytes is written in 8, in an array too, and for a
column of object numbers so is one that is none. -/
theorem eight_bytes_for_float4 :
    Wire.client.number? (.scalar .float4) = some .float4 ∧
      (int 7).write Wire.client (.scalar .float4) = .ok (some [0, 0, 0, 0, 0, 0, 0, 7]) ∧
      ¬ NumberType.float4.format.Encodes 7 ((int 7).write Wire.client (.scalar .float4)) ∧
      (list [int 7]).write Wire.client (.array .float4) = .ok (some (Wire.arrayOf (.array .float4)
        (.scalar .float4) [some [0, 0, 0, 0, 0, 0, 0, 7]])) ∧
      Wire.client.number? (.scalar .oid) = some .oid ∧
      ¬ NumberType.oid.format.Admits (-1) ∧
      (int (-1)).write Wire.client (.scalar .oid) = .ok (some (List.replicate 8 255)) := by
  have hfloat : (int 7).write Wire.client (.scalar .float4) =
      .ok (some [0, 0, 0, 0, 0, 0, 0, 7]) := by
    rw [write]
    decide
  refine ⟨rfl, hfloat, ?_, ?_, rfl, fun h => absurd h.1 (by decide), ?_⟩
  · rw [hfloat]
    exact NumberFormat.not_encodes_of_length_ne (by decide)
  · rw [write_list_eq Wire.follows_client (rfl : Wire.client.element? (.array .float4) = _),
      List.mapM_cons, hfloat]
    rfl
  · rw [write]
    decide

end Value

end QueryClauses
