import QueryClauses.Sql.Clause
import Mathlib.Data.List.Basic

/-!
# Parentheses and top-level words

Elements are balanced if no parenthesis closes that is not open and none is left open
(`IsBalanced`). The words at top level of elements one behind the other are those of the first and,
from the depth on that these leave, those of the second (`topWordsFrom_append`); balanced elements
between parentheses have none (`topWordsFrom_group`).
-/

namespace QueryClauses.Sql

/-! ## Depth -/

/-- The depth of nesting behind elements that start at depth `d`. -/
def depthFrom (d : Int) (ts : List Token) : Int := ts.foldl (fun d t => t.kind.depthAfter d) d

@[simp] theorem depthFrom_nil (d : Int) : depthFrom d [] = d := rfl

@[simp] theorem depthFrom_cons (d : Int) (t : Token) (ts : List Token) :
    depthFrom d (t :: ts) = depthFrom (t.kind.depthAfter d) ts := rfl

@[simp] theorem depthFrom_append (d : Int) (a b : List Token) :
    depthFrom d (a ++ b) = depthFrom (depthFrom d a) b :=
  List.foldl_append

/-- How many parentheses are open behind elements in front of which `n` are, unless one is closed
that is not open. -/
def open? (n : Nat) : List Token → Option Nat
  | [] => some n
  | t :: ts =>
    match t.kind with
    | .opening => open? (n + 1) ts
    | .closing => if n = 0 then none else open? (n - 1) ts
    | _ => open? n ts

/-- Elements with every parenthesis in a pair. -/
def IsBalanced (ts : List Token) : Prop := open? 0 ts = some 0

instance (ts : List Token) : Decidable (IsBalanced ts) := inferInstanceAs (Decidable (_ = _))

theorem open?_append (n : Nat) (a b : List Token) :
    open? n (a ++ b) = (open? n a).bind (open? · b) := by
  induction a generalizing n with
  | nil => rfl
  | cons t a ih =>
    simp only [List.cons_append, open?]
    cases t.kind with
    | closing =>
      by_cases hn : n = 0
      · simp [hn]
      · simp [hn, ih]
    | _ => exact ih _

theorem open?_add {n m : Nat} {ts : List Token} (h : open? n ts = some m) (k : Nat) :
    open? (n + k) ts = some (m + k) := by
  induction ts generalizing n with
  | nil =>
    cases h
    rfl
  | cons t ts ih =>
    simp only [open?] at h ⊢
    cases hk : t.kind with
    | opening =>
      simp only [hk] at h ⊢
      rw [Nat.add_right_comm]
      exact ih h
    | closing =>
      simp only [hk] at h ⊢
      by_cases hn : n = 0
      · simp [hn] at h
      · rw [if_neg hn] at h
        rw [if_neg (by omega), Nat.sub_add_comm (by omega)]
        exact ih h
    | _ =>
      simp only [hk] at h ⊢
      exact ih h

theorem depthFrom_of_open? {n m : Nat} {ts : List Token} (h : open? n ts = some m) :
    depthFrom n ts = m := by
  induction ts generalizing n with
  | nil =>
    cases h
    rfl
  | cons t ts ih =>
    simp only [open?] at h
    simp only [depthFrom_cons, Kind.depthAfter]
    cases hk : t.kind with
    | opening =>
      simp only [hk] at h
      exact ih h
    | closing =>
      simp only [hk] at h
      by_cases hn : n = 0
      · simp [hn] at h
      · rw [if_neg hn] at h
        have hpred : (n : Int) - 1 = (n - 1 : Nat) := by omega
        rw [hpred]
        exact ih h
    | _ =>
      simp only [hk] at h
      exact ih h

theorem IsBalanced.append {a b : List Token} (ha : IsBalanced a) (hb : IsBalanced b) :
    IsBalanced (a ++ b) := by
  unfold IsBalanced at *
  rw [open?_append, ha]
  exact hb

theorem IsBalanced.open?_append {a : List Token} (ha : IsBalanced a) (n : Nat) (b : List Token) :
    open? n (a ++ b) = open? n b := by
  have := open?_add ha n
  rw [Nat.zero_add] at this
  rw [Sql.open?_append, this]
  rfl

theorem IsBalanced.depthFrom_eq {ts : List Token} (h : IsBalanced ts) : depthFrom 0 ts = 0 :=
  depthFrom_of_open? h

theorem IsBalanced.intercalate {sep : List Token} (hsep : IsBalanced sep) {parts : List (List Token)}
    (h : ∀ part ∈ parts, IsBalanced part) : IsBalanced (sep.intercalate parts) := by
  induction parts with
  | nil => rfl
  | cons part parts ih =>
    have hpart := h part List.mem_cons_self
    have ih := ih fun part hp => h part (List.mem_cons_of_mem _ hp)
    cases parts with
    | nil => simpa using hpart
    | cons part' parts =>
      rw [List.intercalate_cons_cons]
      exact (hpart.append hsep).append ih

/-- Words and signs open no parenthesis. -/
theorem open?_of_plain {ts : List Token} (h : ∀ t ∈ ts, t.kind = .word ∨ t.kind = .other) (n : Nat) :
    open? n ts = some n := by
  induction ts with
  | nil => rfl
  | cons t ts ih =>
    have ih := ih fun u hu => h u (List.mem_cons_of_mem t hu)
    rcases h t List.mem_cons_self with ht | ht
    all_goals simpa [open?, ht] using ih

theorem isBalanced_of_plain {ts : List Token} (h : ∀ t ∈ ts, t.kind = .word ∨ t.kind = .other) :
    IsBalanced ts :=
  open?_of_plain h 0

/-! ## Top-level words -/

theorem topWordsFrom_append (d : Int) (a b : List Token) :
    topWordsFrom d (a ++ b) = topWordsFrom d a ++ topWordsFrom (depthFrom d a) b := by
  induction a generalizing d with
  | nil => rfl
  | cons t a ih =>
    simp only [List.cons_append, topWordsFrom, depthFrom_cons]
    rw [ih]
    split
    · rfl
    · rfl

/-- Within an open parenthesis no word is at top level. -/
theorem topWordsFrom_of_open? {n m : Nat} {ts : List Token} (h : open? n ts = some m) {k : Int}
    (hk : 0 < k) : topWordsFrom (n + k) ts = [] := by
  induction ts generalizing n with
  | nil => rfl
  | cons t ts ih =>
    have hd : ((n : Int) + k == 0) = false := by
      simp only [beq_eq_false_iff_ne, ne_eq]
      omega
    simp only [open?] at h
    simp only [topWordsFrom, Token.isTopWord, hd, Bool.and_false, Bool.false_eq_true, if_false,
      Kind.depthAfter]
    cases hkind : t.kind with
    | opening =>
      simp only [hkind] at h
      have hsucc : (n : Int) + k + 1 = (n + 1 : Nat) + k := by omega
      rw [hsucc]
      exact ih h
    | closing =>
      simp only [hkind] at h
      by_cases hn : n = 0
      · simp [hn] at h
      · rw [if_neg hn] at h
        have hpred : (n : Int) + k - 1 = (n - 1 : Nat) + k := by omega
        rw [hpred]
        exact ih h
    | _ =>
      simp only [hkind] at h
      exact ih h

theorem topWordsFrom_of_forall {ts : List Token} (h : ∀ t ∈ ts, t.kind = .other ∨ t.kind = .comment)
    (d : Int) : topWordsFrom d ts = [] ∧ depthFrom d ts = d := by
  induction ts with
  | nil => exact ⟨rfl, rfl⟩
  | cons t ts ih =>
    have ih := ih fun u hu => h u (List.mem_cons_of_mem t hu)
    rcases h t List.mem_cons_self with ht | ht
    all_goals
      simp only [topWordsFrom, depthFrom_cons, Token.isTopWord, ht, Kind.depthAfter]
      simpa using ih

def parenOpen : Token := ⟨.opening, ['(']⟩

def parenClose : Token := ⟨.closing, [')']⟩

/-- Elements between parentheses. -/
def group (ts : List Token) : List Token := parenOpen :: ts ++ [parenClose]

theorem IsBalanced.group {ts : List Token} (h : IsBalanced ts) : IsBalanced (group ts) := by
  have h₁ : open? 1 (ts ++ [parenClose]) = open? 1 [parenClose] := h.open?_append 1 _
  exact h₁

theorem topWordsFrom_group {ts : List Token} (h : IsBalanced ts) : topWordsFrom 0 (group ts) = [] := by
  have h₁ : topWordsFrom 1 ts = [] := topWordsFrom_of_open? h (k := 1) (by decide)
  have h₂ : topWordsFrom 1 (ts ++ [parenClose]) = [] := by
    rw [topWordsFrom_append, h₁]
    rfl
  exact h₂

end QueryClauses.Sql
