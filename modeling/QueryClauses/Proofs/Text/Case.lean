/-!
# The case of a letter

Only the letters of ASCII have a case. What is said of them here is checked character by character
(`forall_ascii`).
-/

namespace QueryClauses

theorem forall_ascii {p : Char → Prop} (h : ∀ n < 128, p (Char.ofNat n)) {c : Char}
    (hc : c.toNat < 128) : p c := by
  have hp := h c.toNat hc
  rwa [Char.ofNat_toNat] at hp

theorem isAlpha_of_isUpper {c : Char} (h : c.isUpper = true) : c.isAlpha = true :=
  Bool.or_eq_true_iff.2 (.inl h)

theorem isAlpha_of_isLower {c : Char} (h : c.isLower = true) : c.isAlpha = true :=
  Bool.or_eq_true_iff.2 (.inr h)

theorem isLower_iff {c : Char} : c.isLower = true ↔ 'a' ≤ c ∧ c ≤ 'z' :=
  Bool.and_eq_true_iff.trans (and_congr decide_eq_true_iff decide_eq_true_iff)

theorem toNat_lt_of_isUpper {c : Char} (h : c.isUpper = true) : c.toNat < 128 := by
  have hle : c.toNat ≤ 'Z'.toNat := (of_decide_eq_true h).2
  exact Nat.lt_of_le_of_lt hle (by decide)

theorem toNat_lt_of_isLower {c : Char} (h : c.isLower = true) : c.toNat < 128 := by
  have hle : c.toNat ≤ 'z'.toNat := (isLower_iff.1 h).2
  exact Nat.lt_of_le_of_lt hle (by decide)

theorem isLower_eq_false_of_isUpper {c : Char} (h : c.isUpper = true) : c.isLower = false :=
  forall_ascii (p := fun c => c.isUpper = true → c.isLower = false) (by decide)
    (toNat_lt_of_isUpper h) h

/-- A capital letter in lower case is a small one, of which it is the capital. -/
theorem toUpper_toLower {c : Char} (h : c.isUpper = true) :
    c.toLower.isLower = true ∧ c.toLower.toUpper = c :=
  forall_ascii (p := fun c => c.isUpper = true → c.toLower.isLower = true ∧ c.toLower.toUpper = c)
    (by decide) (toNat_lt_of_isUpper h) h

/-- A small letter in upper case is a capital one. -/
theorem isUpper_toUpper {c : Char} (h : c.isLower = true) : c.toUpper.isUpper = true :=
  forall_ascii (p := fun c => c.isLower = true → c.toUpper.isUpper = true) (by decide)
    (toNat_lt_of_isLower h) h

/-- Only small letters have another form in upper case. -/
theorem toUpper_of_isLower_eq_false {c : Char} (h : c.isLower = false) : c.toUpper = c :=
  dif_neg fun hc => Bool.eq_false_iff.1 h (isLower_iff.2 hc)

/-- Only letters have another form in lower case. -/
theorem isAlpha_of_isAlpha_toLower {c : Char} (h : c.toLower.isAlpha = true) : c.isAlpha = true := by
  cases hc : c.isUpper with
  | true => exact isAlpha_of_isUpper hc
  | false =>
    have hlower : c.toLower = c := dif_neg (of_decide_eq_false hc)
    rwa [hlower] at h

end QueryClauses
