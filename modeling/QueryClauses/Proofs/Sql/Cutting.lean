import QueryClauses.Proofs.Sql.Nesting

/-!
# Where a statement is cut

The elements in front of a cut have no top-level word that opens the clause looked for, each word
taken with the one that follows (`noneOpens`), and the first one behind it opens such a clause
(`cutBefore_snd`); that determines the cut (`cutBefore_of_noneOpens`, `cutBefore_of_opens`). A cut
behind a keyword is found in whatever follows as well (`cutAfter_append_right`).
-/

namespace QueryClauses.Sql

variable {opens : Text → Option Text → Bool} {keyword : String}

/-! ## Cuts in front of a clause -/

/-- Whether no word opens a clause, `next` being the word that follows the last one. -/
def noneOpens (opens : Text → Option Text → Bool) (next : Option Text) : List Text → Bool
  | [] => true
  | w :: ws => !opens w (ws.head?.or next) && noneOpens opens next ws

theorem noneOpens_append (next : Option Text) (u v : List Text) :
    noneOpens opens next (u ++ v) =
      (noneOpens opens (v.head?.or next) u && noneOpens opens next v) := by
  induction u with
  | nil => rfl
  | cons w u ih =>
    simp only [List.cons_append, noneOpens, ih, Bool.and_assoc, List.head?_append, Option.or_assoc]

/-- The word behind may be another if that opens nothing new. -/
theorem noneOpens_mono {next next' : Option Text} {ws : List Text}
    (h : noneOpens opens next ws = true)
    (hnext : ∀ w, opens w next' = true → opens w next = true) :
    noneOpens opens next' ws = true := by
  induction ws with
  | nil => rfl
  | cons w ws ih =>
    simp only [noneOpens, Bool.and_eq_true, Bool.not_eq_true'] at h ⊢
    refine ⟨?_, ih h.2⟩
    cases ws with
    | nil =>
      have h₁ : opens w next = false := h.1
      by_contra hw
      rw [Bool.not_eq_false] at hw
      simp [hnext w hw] at h₁
    | cons v ws => exact h.1

theorem cutBefore_of_noneOpens {d : Int} {a b : List Token}
    (h : noneOpens opens (topWordsFrom (depthFrom d a) b).head? (topWordsFrom d a) = true) :
    cutBefore opens d (a ++ b) =
      (a ++ (cutBefore opens (depthFrom d a) b).1, (cutBefore opens (depthFrom d a) b).2) := by
  induction a generalizing d with
  | nil => rfl
  | cons t a ih =>
    simp only [List.cons_append, cutBefore, depthFrom_cons, topWordsFrom] at h ⊢
    by_cases ht : t.isTopWord d = true
    · rw [if_pos ht] at h
      simp only [noneOpens, Bool.and_eq_true, Bool.not_eq_true'] at h
      rw [topWordFrom?_eq_head?, topWordsFrom_append, List.head?_append, h.1, ih h.2]
      simp
    · rw [if_neg ht] at h
      rw [ih h]
      simp [ht]

/-- Elements of which a word opens a clause are cut within them. -/
theorem cutBefore_of_opens {d : Int} {a b : List Token}
    (h : noneOpens opens (topWordsFrom (depthFrom d a) b).head? (topWordsFrom d a) = false) :
    ∃ x t z, a = x ++ t :: z ∧ cutBefore opens d (a ++ b) = (x, t :: (z ++ b)) ∧
      t.isTopWord (depthFrom d x) = true ∧
      opens t.text (topWordsFrom (t.kind.depthAfter (depthFrom d x)) (z ++ b)).head? = true := by
  induction a generalizing d with
  | nil => cases h
  | cons t a ih =>
    simp only [List.cons_append, cutBefore, depthFrom_cons, topWordsFrom] at h ⊢
    by_cases ht : (t.isTopWord d && opens t.text
        (topWordFrom? (t.kind.depthAfter d) (a ++ b))) = true
    · rw [if_pos ht]
      rw [Bool.and_eq_true, topWordFrom?_eq_head?] at ht
      exact ⟨[], t, a, rfl, rfl, ht.1, ht.2⟩
    · rw [if_neg ht]
      have hrest : noneOpens opens (topWordsFrom (depthFrom (t.kind.depthAfter d) a) b).head?
          (topWordsFrom (t.kind.depthAfter d) a) = false := by
        by_cases htop : t.isTopWord d = true
        · rw [htop, Bool.true_and, topWordFrom?_eq_head?, topWordsFrom_append, List.head?_append,
            Bool.not_eq_true] at ht
          rw [if_pos htop, noneOpens, ht] at h
          exact h
        · rwa [if_neg htop] at h
      obtain ⟨x, u, z, rfl, hcut, htop, hopens⟩ := ih hrest
      exact ⟨t :: x, u, z, rfl, by rw [hcut], htop, hopens⟩

/-- No word in front of a cut opens a clause. -/
theorem noneOpens_cutBefore (d : Int) (ts : List Token) :
    noneOpens opens (topWordsFrom (depthFrom d (cutBefore opens d ts).1)
      (cutBefore opens d ts).2).head? (topWordsFrom d (cutBefore opens d ts).1) = true := by
  induction ts generalizing d with
  | nil => rfl
  | cons t ts ih =>
    have happ := cutBefore_append opens (t.kind.depthAfter d) ts
    simp only [cutBefore]
    split
    · rfl
    · rename_i ht
      simp only [topWordsFrom, depthFrom_cons]
      by_cases htop : t.isTopWord d = true
      · have hopens : opens t.text (topWordFrom? (t.kind.depthAfter d) ts) = false := by
          simpa [htop] using ht
        rw [if_pos htop]
        simp only [noneOpens, Bool.and_eq_true, Bool.not_eq_true']
        refine ⟨?_, ih _⟩
        rw [← List.head?_append, ← topWordsFrom_append, happ, ← topWordFrom?_eq_head?]
        exact hopens
      · rw [if_neg htop]
        exact ih _

/-- Behind a cut there is a top-level word that opens a clause, or nothing. -/
theorem cutBefore_snd (opens : Text → Option Text → Bool) (d : Int) (ts : List Token) :
    (cutBefore opens d ts).2 = [] ∨ ∃ t rest, (cutBefore opens d ts).2 = t :: rest ∧
      t.isTopWord (depthFrom d (cutBefore opens d ts).1) = true ∧
      cutBefore opens (depthFrom d (cutBefore opens d ts).1) (t :: rest) = ([], t :: rest) := by
  induction ts generalizing d with
  | nil => exact .inl rfl
  | cons t ts ih =>
    by_cases ht : (t.isTopWord d && opens t.text (topWordFrom? (t.kind.depthAfter d) ts)) = true
    · have hcut : cutBefore opens d (t :: ts) = ([], t :: ts) := by
        simp only [cutBefore]
        rw [if_pos ht]
      rw [hcut]
      exact .inr ⟨t, ts, rfl, ((Bool.and_eq_true _ _).mp ht).1, hcut⟩
    · simp only [cutBefore]
      rw [if_neg ht]
      exact ih _

/-- A cut in front of everything is in front of a top-level word that opens a clause. -/
theorem opens_of_cutBefore_eq {d : Int} {t : Token} {ts : List Token}
    (h : cutBefore opens d (t :: ts) = ([], t :: ts)) : t.isTopWord d = true ∧
      opens t.text (topWordsFrom (t.kind.depthAfter d) ts).head? = true := by
  rw [← topWordFrom?_eq_head?, ← Bool.and_eq_true]
  by_contra hnot
  simp only [cutBefore] at h
  rw [if_neg hnot] at h
  cases h

/-! ## Cuts behind a keyword -/

theorem cutAfter_eq_none_iff {d : Int} {ts : List Token} :
    cutAfter keyword d ts = none ↔ ∀ w ∈ topWordsFrom d ts, isKeyword keyword w = false := by
  induction ts generalizing d with
  | nil => simp [cutAfter, topWordsFrom]
  | cons t ts ih =>
    simp only [cutAfter, topWordsFrom]
    by_cases ht : t.isTopWord d = true
    · by_cases hk : isKeyword keyword t.text = true
      · simp [ht, hk]
      · simp [ht, hk, ih]
    · simp [ht, ih]

theorem cutAfter_append_right {d : Int} {a b : List Token} {p : List Token × List Token}
    (h : cutAfter keyword d a = some p) : cutAfter keyword d (a ++ b) = some (p.1, p.2 ++ b) := by
  induction a generalizing d p with
  | nil => simp [cutAfter] at h
  | cons t a ih =>
    simp only [List.cons_append, cutAfter] at h ⊢
    split at h
    · rename_i ht
      cases h
      rw [if_pos ht]
    · rename_i ht
      obtain ⟨q, hq, rfl⟩ := Option.map_eq_some_iff.1 h
      rw [if_neg ht, ih hq]
      rfl

theorem cutAfter_append_of_none {d : Int} {a : List Token} (h : cutAfter keyword d a = none)
    (b : List Token) :
    cutAfter keyword d (a ++ b) =
      (cutAfter keyword (depthFrom d a) b).map fun p => (a ++ p.1, p.2) := by
  induction a generalizing d with
  | nil => simp
  | cons t a ih =>
    simp only [cutAfter] at h
    split at h
    · cases h
    · rename_i ht
      rw [Option.map_eq_none_iff] at h
      simp only [List.cons_append, cutAfter, depthFrom_cons]
      rw [if_neg ht, ih h, Option.map_map]
      rfl

/-- The last element in front of the cut is the keyword, at top level. -/
theorem cutAfter_eq_some {d : Int} {ts : List Token} {p : List Token × List Token}
    (h : cutAfter keyword d ts = some p) :
    ∃ a t, p.1 = a ++ [t] ∧ t.isTopWord (depthFrom d a) = true ∧
      isKeyword keyword t.text = true ∧ cutAfter keyword d a = none := by
  induction ts generalizing d p with
  | nil => simp [cutAfter] at h
  | cons t ts ih =>
    simp only [cutAfter] at h
    split at h
    · rename_i ht
      cases h
      simp only [Bool.and_eq_true] at ht
      exact ⟨[], t, rfl, ht.1, ht.2, rfl⟩
    · rename_i ht
      obtain ⟨q, hq, rfl⟩ := Option.map_eq_some_iff.1 h
      obtain ⟨a, u, ha, hu, hk, hnone⟩ := ih hq
      refine ⟨t :: a, u, by simp [ha], hu, hk, ?_⟩
      simp only [cutAfter]
      rw [if_neg ht, hnone]
      rfl

end QueryClauses.Sql
