import Mathlib.Data.List.Basic
import QueryClauses.Proofs.Sql.Positional

/-!
# Slices of a text between byte offsets

A text in the form of its UTF-8 bytes is read byte by byte and cut at offsets. Between two characters
is where the byte at the offset starts a character (`isBoundary_iff`), and a slice is there exactly
for two such offsets in order (`slice?_eq_some_iff`). The byte of an ASCII character is no part of
any other character, so that an offset where such a byte stands is one between characters
(`exists_of_byteAt?`).

A text is abbreviated by going back from the limit to the next offset between characters: that is the
longest prefix within the limit (`prefix_takeBytes_iff`, `abbreviate?_eq`).
-/

namespace QueryClauses.Text

/-- The bytes of the UTF-8 form. -/
def utf8 (s : Text) : List UInt8 := s.flatMap String.utf8EncodeChar

/-- The byte at an offset, as the character of that number: an ASCII character stands for itself. -/
def byteAt? (s : Text) (i : Nat) : Option Char := (utf8 s)[i]?.map Char.ofUInt8

/-- Whether a cut at an offset runs through no character. Inside a character, the bytes are those
from 80 to BF in hexadecimal. -/
def isBoundary (s : Text) (i : Nat) : Bool :=
  match byteAt? s i with
  | some c => c.toNat < 0x80 || 0xC0 ≤ c.toNat
  | none => i == byteLength s

/-- The text from offset `i` to offset `j`. There is none if the offsets are out of order or out of
range, or if one of them is inside a character. -/
def slice? (s : Text) (i j : Nat) : Option Text :=
  if i ≤ j ∧ j ≤ byteLength s ∧ isBoundary s i = true ∧ isBoundary s j = true then
    some (takeBytes (j - i) (dropBytes i s))
  else none

/-! ## Bytes of one character -/

section

variable {c d : Char} {i : Nat}

theorem toNat_ofUInt8 (b : UInt8) : (Char.ofUInt8 b).toNat = b.toNat := rfl

theorem utf8Size_of_ascii (hc : c.toNat < 128) : c.utf8Size = 1 := by
  refine Char.utf8Size_eq_one_iff.2 (UInt32.le_iff_toNat_le.2 ?_)
  have : c.val.toNat < 128 := hc
  have : (127 : UInt32).toNat = 127 := rfl
  omega

theorem utf8EncodeChar_of_ascii (hc : c.toNat < 128) :
    (String.utf8EncodeChar c).map Char.ofUInt8 = [c] := by
  rw [String.utf8EncodeChar_eq_singleton (utf8Size_of_ascii hc), List.map_singleton,
    List.singleton_inj]
  apply Char.toNat_inj.1
  rw [toNat_ofUInt8, UInt32.toNat_toUInt8, Nat.mod_eq_of_lt]
  · rfl
  · have : c.val.toNat < 128 := hc
    omega

/-- The bytes of a character that is not ASCII: the first one is from C0 on, the others are from 80
to BF. -/
theorem toNat_utf8EncodeChar (hc : 128 ≤ c.toNat) :
    ∃ b bs, String.utf8EncodeChar c = b :: bs ∧ 192 ≤ b.toNat ∧
      ∀ b ∈ bs, 128 ≤ b.toNat ∧ b.toNat < 192 := by
  have hmax : c.toNat < 1114112 := by
    have := c.valid
    simp only [UInt32.isValidChar, Nat.isValidChar] at this
    have : c.toNat = c.val.toNat := rfl
    omega
  have hval : c.val.toNat = c.toNat := rfl
  rw [String.utf8EncodeChar.eq_1, hval, if_neg (by omega)]
  split
  · refine ⟨_, _, rfl, ?_, ?_⟩
    · rw [UInt8.toNat_ofNat']
      omega
    · simp only [List.forall_mem_cons, UInt8.toNat_ofNat']
      refine ⟨by omega, List.forall_mem_nil _⟩
  split
  · refine ⟨_, _, rfl, ?_, ?_⟩
    · rw [UInt8.toNat_ofNat']
      omega
    · simp only [List.forall_mem_cons, UInt8.toNat_ofNat']
      refine ⟨by omega, by omega, List.forall_mem_nil _⟩
  · refine ⟨_, _, rfl, ?_, ?_⟩
    · rw [UInt8.toNat_ofNat']
      omega
    · simp only [List.forall_mem_cons, UInt8.toNat_ofNat']
      refine ⟨by omega, by omega, by omega, List.forall_mem_nil _⟩

end

/-! ## Bytes of a text -/

section

variable {s u v : Text} {c d : Char} {i : Nat}

theorem utf8_cons (c : Char) (s : Text) : utf8 (c :: s) = String.utf8EncodeChar c ++ utf8 s := rfl

theorem utf8_append (u v : Text) : utf8 (u ++ v) = utf8 u ++ utf8 v := List.flatMap_append

theorem length_utf8 (s : Text) : (utf8 s).length = byteLength s := by
  induction s with
  | nil => rfl
  | cons c s ih => rw [utf8_cons, List.length_append, String.length_utf8EncodeChar, ih,
      byteLength_cons]

@[simp] theorem byteAt?_nil (i : Nat) : byteAt? [] i = none := rfl

theorem byteAt?_eq_none_iff : byteAt? s i = none ↔ byteLength s ≤ i := by
  rw [byteAt?, Option.map_eq_none_iff, List.getElem?_eq_none_iff, length_utf8]

theorem lt_byteLength_of_byteAt? (h : byteAt? s i = some c) : i < byteLength s := by
  by_contra hi
  rw [byteAt?_eq_none_iff.2 (by omega)] at h
  cases h

/-- Behind a prefix, the bytes are those of what follows it. -/
theorem byteAt?_append_add (u v : Text) (i : Nat) :
    byteAt? (u ++ v) (byteLength u + i) = byteAt? v i := by
  rw [byteAt?, utf8_append, List.getElem?_append_right (by rw [length_utf8]; omega), length_utf8,
    Nat.add_sub_cancel_left, byteAt?]

theorem byteAt?_append (u v : Text) : byteAt? (u ++ v) (byteLength u) = byteAt? v 0 :=
  byteAt?_append_add u v 0

theorem byteAt?_append_of_lt (v : Text) (hi : i < byteLength u) :
    byteAt? (u ++ v) i = byteAt? u i := by
  rw [byteAt?, utf8_append, List.getElem?_append_left (by rwa [length_utf8]), byteAt?]

theorem byteAt?_cons_of_lt (s : Text) (hi : i < c.utf8Size) :
    byteAt? (c :: s) i = (String.utf8EncodeChar c)[i]?.map Char.ofUInt8 := by
  rw [byteAt?, utf8_cons, List.getElem?_append_left (by rwa [String.length_utf8EncodeChar])]

theorem byteAt?_cons_add (c : Char) (s : Text) (i : Nat) :
    byteAt? (c :: s) (c.utf8Size + i) = byteAt? s i := by
  have := byteAt?_append_add [c] s i
  rwa [byteLength_cons, byteLength_nil, Nat.add_zero] at this

/-- An ASCII character is a byte of its own. -/
theorem byteAt?_ascii (hc : c.toNat < 128) (s : Text) : byteAt? (c :: s) 0 = some c := by
  rw [byteAt?_cons_of_lt s c.utf8Size_pos, ← List.getElem?_map, utf8EncodeChar_of_ascii hc]
  rfl

/-- The first byte of another character. -/
theorem byteAt?_first (hc : 128 ≤ c.toNat) (s : Text) :
    ∃ d, byteAt? (c :: s) 0 = some d ∧ 192 ≤ d.toNat := by
  obtain ⟨b, bs, hbytes, hb, -⟩ := toNat_utf8EncodeChar hc
  refine ⟨Char.ofUInt8 b, ?_, hb⟩
  rw [byteAt?_cons_of_lt s c.utf8Size_pos, hbytes]
  rfl

/-- A further byte of a character. -/
theorem byteAt?_inside (hi : i + 1 < c.utf8Size) (s : Text) :
    ∃ d, byteAt? (c :: s) (i + 1) = some d ∧ 128 ≤ d.toNat ∧ d.toNat < 192 := by
  have hc : 128 ≤ c.toNat := by
    by_contra hc
    rw [utf8Size_of_ascii (by omega)] at hi
    omega
  obtain ⟨b, bs, hbytes, -, hbs⟩ := toNat_utf8EncodeChar hc
  have hlt : i < bs.length := by
    have := String.length_utf8EncodeChar c
    rw [hbytes, List.length_cons] at this
    omega
  refine ⟨Char.ofUInt8 bs[i], ?_, hbs _ (List.getElem_mem hlt)⟩
  rw [byteAt?_cons_of_lt s hi, hbytes, List.getElem?_cons_succ, List.getElem?_eq_getElem hlt]
  rfl

/-- Every byte of a character that is not ASCII is from 80 on. -/
theorem byteAt?_not_ascii (hc : 128 ≤ c.toNat) (hi : i < c.utf8Size) (s : Text) :
    ∃ d, byteAt? (c :: s) i = some d ∧ 128 ≤ d.toNat := by
  cases i with
  | zero =>
    obtain ⟨d, hd, hle⟩ := byteAt?_first hc s
    exact ⟨d, hd, by omega⟩
  | succ i =>
    obtain ⟨d, hd, hle, -⟩ := byteAt?_inside hi s
    exact ⟨d, hd, hle⟩

/-- No byte of a character looks like another character that is ASCII. -/
theorem byteAt?_ne (hd : d.toNat < 128) (hne : c ≠ d) (hi : i < c.utf8Size) (s : Text) :
    ∃ e, byteAt? (c :: s) i = some e ∧ e ≠ d := by
  by_cases hc : c.toNat < 128
  · have hzero : i = 0 := by
      rw [utf8Size_of_ascii hc] at hi
      omega
    subst hzero
    exact ⟨c, byteAt?_ascii hc s, hne⟩
  · obtain ⟨e, he, hle⟩ := byteAt?_not_ascii (Nat.le_of_not_lt hc) hi s
    refine ⟨e, he, ?_⟩
    rintro rfl
    omega

theorem byteAt?_zero_eq_some_iff (hd : d.toNat < 128) :
    byteAt? s 0 = some d ↔ s.head? = some d := by
  cases s with
  | nil => simp
  | cons c s =>
    by_cases hcd : c = d
    · subst hcd
      simp [byteAt?_ascii hd]
    · obtain ⟨e, he, hne⟩ := byteAt?_ne hd hcd c.utf8Size_pos s
      simp [he, hne, hcd]

/-- Where an ASCII byte stands, that character stands. -/
theorem exists_of_byteAt? (h : byteAt? s i = some c) (hc : c.toNat < 128) :
    ∃ u v, s = u ++ c :: v ∧ byteLength u = i := by
  induction s generalizing i with
  | nil => cases h
  | cons d s ih =>
    by_cases hi : i < d.utf8Size
    · by_cases hd : d.toNat < 128
      · have hzero : i = 0 := by
          rw [utf8Size_of_ascii hd] at hi
          omega
        subst hzero
        rw [byteAt?_ascii hd] at h
        cases h
        exact ⟨[], s, rfl, rfl⟩
      · obtain ⟨e, he, hle⟩ := byteAt?_not_ascii (by omega) hi s
        rw [h] at he
        cases he
        omega
    · obtain ⟨k, rfl⟩ := Nat.exists_eq_add_of_le (Nat.le_of_not_lt hi)
      rw [byteAt?_cons_add] at h
      obtain ⟨u, v, rfl, rfl⟩ := ih h
      exact ⟨d :: u, v, rfl, rfl⟩

end

/-! ## Boundaries -/

section

variable {s t u v : Text} {c : Char} {i j : Nat}

theorem isBoundary_nil : isBoundary [] i = decide (i = 0) := by
  rw [isBoundary, byteAt?_eq_none_iff.2 (Nat.zero_le i)]
  rfl

theorem isBoundary_zero (s : Text) : isBoundary s 0 = true := by
  cases s with
  | nil => rfl
  | cons c s =>
    by_cases hc : c.toNat < 128
    · rw [isBoundary, byteAt?_ascii hc]
      simp [hc]
    · obtain ⟨d, hd, hle⟩ := byteAt?_first (Nat.le_of_not_lt hc) s
      rw [isBoundary, hd]
      simp [hle]

theorem isBoundary_inside (hi : i + 1 < c.utf8Size) (s : Text) :
    isBoundary (c :: s) (i + 1) = false := by
  obtain ⟨d, hd, hle, hlt⟩ := byteAt?_inside hi s
  rw [isBoundary, hd]
  simp only [Bool.or_eq_false_iff, decide_eq_false_iff_not]
  omega

theorem isBoundary_cons_add (c : Char) (s : Text) (i : Nat) :
    isBoundary (c :: s) (c.utf8Size + i) = isBoundary s i := by
  rw [isBoundary, isBoundary, byteAt?_cons_add, byteLength_cons]
  cases byteAt? s i with
  | some d => rfl
  | none => simp

/-- Between two characters is where a prefix ends. -/
theorem isBoundary_iff : isBoundary s i = true ↔ ∃ u v, s = u ++ v ∧ byteLength u = i := by
  constructor
  · intro h
    induction s generalizing i with
    | nil =>
      rw [isBoundary_nil, decide_eq_true_eq] at h
      exact ⟨[], [], rfl, h.symm⟩
    | cons c s ih =>
      cases i with
      | zero => exact ⟨[], c :: s, rfl, rfl⟩
      | succ i =>
        by_cases hi : i + 1 < c.utf8Size
        · rw [isBoundary_inside hi] at h
          cases h
        · obtain ⟨k, hk⟩ := Nat.exists_eq_add_of_le (Nat.le_of_not_lt hi)
          rw [hk, isBoundary_cons_add] at h
          obtain ⟨u, v, rfl, rfl⟩ := ih h
          exact ⟨c :: u, v, rfl, hk.symm⟩
  · rintro ⟨u, v, rfl, rfl⟩
    induction u with
    | nil => exact isBoundary_zero v
    | cons c u ih => rwa [List.cons_append, byteLength_cons, isBoundary_cons_add]

theorem isBoundary_byteLength (u v : Text) : isBoundary (u ++ v) (byteLength u) = true :=
  isBoundary_iff.2 ⟨u, v, rfl, rfl⟩

theorem byteLength_eq_zero_iff : byteLength s = 0 ↔ s = [] := by
  cases s with
  | nil => simp
  | cons c s =>
    have := c.utf8Size_pos
    simp only [byteLength_cons, reduceCtorEq, iff_false]
    omega

theorem byteLength_le_of_prefix (h : u <+: v) : byteLength u ≤ byteLength v := by
  obtain ⟨w, rfl⟩ := h
  rw [byteLength_append]
  omega

/-- Of two prefixes, the one with fewer bytes is a prefix of the other. -/
theorem prefix_of_byteLength_le (hu : u <+: s) (hv : v <+: s) (h : byteLength u ≤ byteLength v) :
    u <+: v := by
  rcases List.prefix_or_prefix_of_prefix hu hv with huv | ⟨w, rfl⟩
  · exact huv
  · obtain rfl : w = [] := by
      rw [byteLength_append] at h
      exact byteLength_eq_zero_iff.1 (by omega)
    exact ⟨[], by rw [List.append_nil, List.append_nil]⟩

/-! ## Slices -/

/-- The middle one of three texts. -/
theorem slice?_append (u t v : Text) :
    slice? (u ++ (t ++ v)) (byteLength u) (byteLength u + byteLength t) = some t := by
  have hstop : isBoundary (u ++ (t ++ v)) (byteLength u + byteLength t) = true := by
    have := isBoundary_byteLength (u ++ t) v
    rwa [byteLength_append, List.append_assoc] at this
  rw [slice?, if_pos ⟨Nat.le_add_right _ _, by simp only [byteLength_append]; omega,
    isBoundary_byteLength _ _, hstop⟩, Nat.add_sub_cancel_left, dropBytes_byteLength_append,
    takeBytes_byteLength_append]

theorem slice?_prefix (u v : Text) : slice? (u ++ v) 0 (byteLength u) = some u := by
  have := slice?_append [] u v
  rwa [List.nil_append, byteLength_nil, Nat.zero_add] at this

theorem slice?_suffix (u v : Text) :
    slice? (u ++ v) (byteLength u) (byteLength (u ++ v)) = some v := by
  have := slice?_append u v []
  rwa [List.append_nil, ← byteLength_append] at this

theorem slice?_eq_some_iff :
    slice? s i j = some t ↔
      ∃ u v, s = u ++ (t ++ v) ∧ byteLength u = i ∧ byteLength u + byteLength t = j := by
  constructor
  · intro h
    rw [slice?] at h
    split at h
    · rename_i hcut
      obtain ⟨hij, -, hi, hj⟩ := hcut
      cases h
      obtain ⟨u, w, rfl, rfl⟩ := isBoundary_iff.1 hi
      obtain ⟨x, v, hx, rfl⟩ := isBoundary_iff.1 hj
      obtain ⟨t, rfl⟩ := prefix_of_byteLength_le (List.prefix_append u w) ⟨v, hx.symm⟩ hij
      rw [List.append_assoc, List.append_cancel_left_eq] at hx
      subst hx
      rw [byteLength_append, Nat.add_sub_cancel_left, dropBytes_byteLength_append,
        takeBytes_byteLength_append]
      exact ⟨u, v, rfl, rfl, rfl⟩
    · cases h
  · rintro ⟨u, v, rfl, rfl, rfl⟩
    exact slice?_append u t v

/-- A slice is there exactly for two offsets in order, in range and between characters. -/
theorem isSome_slice?_iff :
    (slice? s i j).isSome = true ↔
      i ≤ j ∧ j ≤ byteLength s ∧ isBoundary s i = true ∧ isBoundary s j = true := by
  rw [slice?]
  split
  · rename_i h
    simpa using h
  · rename_i h
    simpa using h

end

/-! ## Abbreviation -/

section

variable {s u : Text} {i : Nat}

/-- The last offset between characters that is not behind offset `i`. -/
def boundaryBefore (s : Text) : Nat → Nat
  | 0 => 0
  | i + 1 => if isBoundary s (i + 1) then i + 1 else boundaryBefore s i

/-- A text within a limit, cut by offset. -/
def abbreviate? (limit : Option Nat) (s : Text) : Option Text :=
  match limit with
  | none => some s
  | some limit =>
    if limit < byteLength s then
      (slice? s 0 (boundaryBefore s limit)).map (· ++ "...".toList)
    else some s

theorem isPrefix_takeBytes (n : Nat) (s : Text) : takeBytes n s <+: s :=
  ⟨_, takeBytes_append_dropBytes n s⟩

/-- What is taken within a budget is the longest prefix within it. -/
theorem prefix_takeBytes_iff {n : Nat} :
    u <+: takeBytes n s ↔ u <+: s ∧ byteLength u ≤ n := by
  constructor
  · intro h
    have := byteLength_le_of_prefix h
    have := byteLength_takeBytes_le n s
    exact ⟨h.trans (isPrefix_takeBytes n s), by omega⟩
  · rintro ⟨⟨v, rfl⟩, hle⟩
    induction u generalizing n with
    | nil => exact List.nil_prefix
    | cons c u ih =>
      rw [byteLength_cons] at hle
      rw [List.cons_append, takeBytes, if_pos (by omega), List.cons_prefix_cons]
      exact ⟨rfl, ih (by omega)⟩

theorem byteLength_takeBytes (s : Text) (n : Nat) :
    byteLength (takeBytes n s) = boundaryBefore s n := by
  induction n with
  | zero =>
    have := byteLength_takeBytes_le 0 s
    rw [boundaryBefore]
    omega
  | succ n ih =>
    have hle := byteLength_takeBytes_le (n + 1) s
    rw [boundaryBefore]
    split
    · rename_i h
      obtain ⟨u, v, rfl, hu⟩ := isBoundary_iff.1 h
      have := byteLength_le_of_prefix
        (prefix_takeBytes_iff.2 ⟨List.prefix_append u v, by omega⟩ : u <+: takeBytes (n + 1) (u ++ v))
      omega
    · rename_i h
      have hne : byteLength (takeBytes (n + 1) s) ≠ n + 1 := by
        intro heq
        exact h (isBoundary_iff.2 ⟨_, _, (takeBytes_append_dropBytes (n + 1) s).symm, heq⟩)
      have hshorter : takeBytes (n + 1) s <+: takeBytes n s :=
        prefix_takeBytes_iff.2 ⟨isPrefix_takeBytes _ s, by omega⟩
      have hlonger : takeBytes n s <+: takeBytes (n + 1) s :=
        prefix_takeBytes_iff.2 ⟨isPrefix_takeBytes n s,
          Nat.le_succ_of_le (byteLength_takeBytes_le n s)⟩
      have := byteLength_le_of_prefix hshorter
      have := byteLength_le_of_prefix hlonger
      omega

theorem slice?_boundaryBefore (s : Text) (n : Nat) :
    slice? s 0 (boundaryBefore s n) = some (takeBytes n s) := by
  have := slice?_prefix (takeBytes n s) (dropBytes n s)
  rwa [takeBytes_append_dropBytes, byteLength_takeBytes] at this

/-- Going back to a boundary is counting characters within the limit. -/
theorem abbreviate?_eq (limit : Option Nat) (s : Text) :
    abbreviate? limit s = some (abbreviate limit s) := by
  cases limit with
  | none => rfl
  | some limit =>
    rw [abbreviate?, abbreviate]
    split
    · rw [slice?_boundaryBefore]
      rfl
    · rfl

end

end QueryClauses.Text
