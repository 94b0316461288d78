import QueryClauses.Filter.Expression

/-!
# Reading a list of filters

An operation and an operand make at most one comparison (`Comparison.Makes`). An accepted list is
read filter by filter (`readFrom_cons`): each gives one element and leaves a depth and what precedes
the next one (`ReadStep`). At the end no group is open (`readFrom_nil`), so
that parentheses are in pairs (`open?_of_readFrom`).
-/

namespace QueryClauses

/-! ## Comparisons -/

namespace Comparison

/-- The comparison that an operation and an operand make. -/
inductive Makes : Operation → Operand → Comparison → Prop
  | isNull : Makes .equals (.single .null) .isNull
  | isNotNull : Makes .different (.single .null) .isNotNull
  | compares {operation : Operation} {sign : Sign} {v : Value} (hsign : operation.sign? = some sign)
      (hnull : v.isNull = false) (hlist : v.isList = false) :
      Makes operation (.single v) (.compares sign v)
  | contains (s : String) : Makes .like (.single (.text s)) (.contains s)
  | between {low high : Value} (hlow : low.isNull = false) (hhigh : high.isNull = false) :
      Makes .between (.range low high) (.between low high)
  | isIn {vs : List Value} (h : vs ≠ []) : Makes .isIn (.list vs) (.isIn vs)
  | isInSingle {vs : List Value} (h : vs ≠ []) : Makes .isIn (.single (.list vs)) (.isIn vs)

variable {operation : Operation} {sign : Sign} {ofNull k : Comparison} {v : Value}

theorem ordered?_eq_some (h : ordered? sign v = some k) :
    k = compares sign v ∧ v.isNull = false ∧ v.isList = false := by
  unfold ordered? at h
  split at h
  · cases h
  rename_i hv
  cases h
  rw [Bool.or_eq_true, not_or, Bool.not_eq_true, Bool.not_eq_true] at hv
  exact ⟨rfl, hv⟩

theorem matched?_eq_some (h : matched? sign ofNull v = some k) :
    v = .null ∧ k = ofNull ∨ k = compares sign v ∧ v.isNull = false ∧ v.isList = false := by
  cases v with
  | null => exact .inl ⟨rfl, (Option.some.inj h).symm⟩
  | list => cases h
  | _ =>
    cases h
    exact .inr ⟨rfl, rfl, rfl⟩

theorem isIn?_eq_some {vs : List Value} (h : isIn? vs = some k) : k = isIn vs ∧ vs ≠ [] := by
  cases vs with
  | nil => cases h
  | cons => exact ⟨(Option.some.inj h).symm, List.cons_ne_nil _ _⟩

theorem Makes.of_ordered? (hsign : operation.sign? = some sign) (h : ordered? sign v = some k) :
    Makes operation (.single v) k := by
  obtain ⟨rfl, hnull, hlist⟩ := ordered?_eq_some h
  exact .compares hsign hnull hlist

theorem of?_eq_some_iff {operand : Operand} :
    of? operation operand = some k ↔ Makes operation operand k := by
  constructor
  · intro h
    unfold of? at h
    split at h
    · obtain ⟨rfl, rfl⟩ | ⟨rfl, hnull, hlist⟩ := matched?_eq_some h
      · exact .isNull
      · exact .compares rfl hnull hlist
    · obtain ⟨rfl, rfl⟩ | ⟨rfl, hnull, hlist⟩ := matched?_eq_some h
      · exact .isNotNull
      · exact .compares rfl hnull hlist
    · exact .of_ordered? rfl h
    · exact .of_ordered? rfl h
    · exact .of_ordered? rfl h
    · exact .of_ordered? rfl h
    · cases h
      exact .contains _
    · split at h
      · cases h
      rename_i hnull
      cases h
      rw [Bool.or_eq_true, not_or, Bool.not_eq_true, Bool.not_eq_true] at hnull
      exact .between hnull.1 hnull.2
    · obtain ⟨rfl, hvs⟩ := isIn?_eq_some h
      exact .isIn hvs
    · obtain ⟨rfl, hvs⟩ := isIn?_eq_some h
      exact .isInSingle hvs
    · cases h
  · intro h
    cases h with
    | isNull | isNotNull | contains => rfl
    | compares hsign hnull hlist =>
      cases operation <;> cases hsign <;> simp [of?, matched?, ordered?, hnull, hlist]
    | between hlow hhigh => simp [of?, hlow, hhigh]
    | isIn h | isInSingle h => simp [of?, isIn?, h]

end Comparison

namespace Element

/-! ## Steps -/

/-- How one filter is read, at a depth and behind what precedes it: the element that it gives, the
depth behind it, and what it is to the next one. -/
inductive ReadStep (depth : Nat) (preceding : Preceding) (f : Filter) :
    Element → Nat → Preceding → Prop
  | opening (hf : f.operation = .opening) :
      ReadStep depth preceding f .opening (depth + 1) .opening
  | closing (hf : f.operation = .closing) (hdepth : depth ≠ 0) (hp : preceding = .operand) :
      ReadStep depth preceding f .closing (depth - 1) .operand
  | and (hf : f.operation = .and) (hp : preceding = .operand) :
      ReadStep depth preceding f .and depth .joint
  | or (hf : f.operation = .or) (hp : preceding = .operand) :
      ReadStep depth preceding f .or depth .joint
  | comparison {entity field : String} {k : Comparison} (hf : f.operation.isMark = false)
      (hentity : f.entity = some entity) (hfield : f.field = some field)
      (hk : Comparison.of? f.operation f.operand = some k) :
      ReadStep depth preceding f (.comparison entity field k) depth .operand

variable {pos depth : Nat} {preceding : Preceding} {f : Filter} {fs : List Filter}
  {e : Element} {es : List Element}

theorem map_cons_eq_ok {r : Except FilterFault (List Element)} (h : r.map (e :: ·) = .ok es) :
    ∃ es', es = e :: es' ∧ r = .ok es' := by
  cases r with
  | error fault => cases h
  | ok es' =>
    cases h
    exact ⟨es', rfl, rfl⟩

theorem comparisonOf_eq_ok (h : comparisonOf pos f = .ok e) :
    ∃ entity field k, e = .comparison entity field k ∧ f.entity = some entity ∧
      f.field = some field ∧ Comparison.of? f.operation f.operand = some k := by
  unfold comparisonOf at h
  split at h
  · rename_i entity field hentity hfield
    split at h
    · rename_i k hk
      cases h
      exact ⟨entity, field, k, rfl, hentity, hfield, hk⟩
    · cases h
  · cases h

theorem readFrom_nil (h : readFrom pos depth preceding [] = .ok es) :
    es = [] ∧ depth = 0 ∧ preceding ≠ .joint := by
  simp only [readFrom] at h
  split at h
  · cases h
  · rename_i hdepth
    split at h
    · cases h
    · rename_i hp
      cases h
      exact ⟨rfl, by simpa using hdepth, hp⟩

/-- What an accepted list starts with. -/
theorem readFrom_cons (h : readFrom pos depth preceding (f :: fs) = .ok es) :
    ∃ e es' depth' preceding', es = e :: es' ∧ ReadStep depth preceding f e depth' preceding' ∧
      readFrom (pos + 1) depth' preceding' fs = .ok es' := by
  simp only [readFrom] at h
  split at h
  · rename_i hf
    obtain ⟨es', rfl, hrest⟩ := map_cons_eq_ok h
    exact ⟨_, es', _, _, rfl, .opening hf, hrest⟩
  · rename_i hf
    split at h
    · cases h
    rename_i hdepth
    split at h
    · cases h
    rename_i hp
    obtain ⟨es', rfl, hrest⟩ := map_cons_eq_ok h
    exact ⟨_, es', _, _, rfl, .closing hf hdepth (by simpa using hp), hrest⟩
  · rename_i hf
    split at h
    · cases h
    rename_i hp
    obtain ⟨es', rfl, hrest⟩ := map_cons_eq_ok h
    exact ⟨_, es', _, _, rfl, .and hf (by simpa using hp), hrest⟩
  · rename_i hf
    split at h
    · cases h
    rename_i hp
    obtain ⟨es', rfl, hrest⟩ := map_cons_eq_ok h
    exact ⟨_, es', _, _, rfl, .or hf (by simpa using hp), hrest⟩
  · rename_i h₁ h₂ h₃ h₄
    split at h
    · cases h
    rename_i e he
    obtain ⟨entity, field, k, rfl, hentity, hfield, hk⟩ := comparisonOf_eq_ok he
    obtain ⟨es', rfl, hrest⟩ := map_cons_eq_ok h
    have hf : f.operation.isMark = false := by
      cases hop : f.operation with
      | opening => exact absurd hop h₁
      | closing => exact absurd hop h₂
      | and => exact absurd hop h₃
      | or => exact absurd hop h₄
      | _ => rfl
    exact ⟨_, es', _, _, rfl, .comparison hf hentity hfield hk, hrest⟩

/-- A filter that can be read is, and the filters behind it are read from there on. -/
theorem ReadStep.readFrom_eq {depth' : Nat} {preceding' : Preceding}
    (h : ReadStep depth preceding f e depth' preceding') (pos : Nat) (fs : List Filter) :
    readFrom pos depth preceding (f :: fs) =
      (readFrom (pos + 1) depth' preceding' fs).map (e :: ·) := by
  cases h with
  | opening hf => simp only [readFrom, hf]
  | closing hf hdepth hp =>
    simp only [readFrom, hf]
    rw [if_neg hdepth, if_neg (not_not_intro hp)]
  | and hf hp | or hf hp =>
    simp only [readFrom, hf]
    rw [if_neg (not_not_intro hp)]
  | @comparison entity field k hf hentity hfield hk =>
    have hcomparison : comparisonOf pos f = .ok (.comparison entity field k) := by
      simp only [comparisonOf, hentity, hfield, hk]
    simp only [readFrom, hcomparison]
    cases hop : f.operation with
    | and | or | opening | closing =>
      rw [hop] at hf
      cases hf
    | _ => rfl

/-- The list of which an element comes first. -/
theorem readFrom_eq_cons (h : readFrom pos depth preceding fs = .ok (e :: es)) :
    ∃ f fs' depth' preceding', fs = f :: fs' ∧ ReadStep depth preceding f e depth' preceding' ∧
      readFrom (pos + 1) depth' preceding' fs' = .ok es := by
  cases fs with
  | nil => cases (readFrom_nil h).1
  | cons f fs =>
    obtain ⟨e', es', depth', preceding', heq, hstep, hrest⟩ := readFrom_cons h
    cases heq
    exact ⟨f, fs, depth', preceding', rfl, hstep, hrest⟩

/-- How many groups are open behind elements in front of which `n` are, unless one is closed that is
not open. -/
def open? (n : Nat) : List Element → Option Nat
  | [] => some n
  | .opening :: es => open? (n + 1) es
  | .closing :: es => if n = 0 then none else open? (n - 1) es
  | _ :: es => open? n es

theorem open?_of_readFrom (h : readFrom pos depth preceding fs = .ok es) :
    open? depth es = some 0 := by
  induction fs generalizing pos depth preceding es with
  | nil =>
    obtain ⟨rfl, rfl, -⟩ := readFrom_nil h
    rfl
  | cons f fs ih =>
    obtain ⟨e, es', depth', preceding', rfl, hstep, h⟩ := readFrom_cons h
    have ih := ih h
    cases hstep with
    | closing hf hdepth hp => simpa [open?, hdepth] using ih
    | _ => exact ih

end Element

theorem Filter.check_eq_ok_iff_exists_read {fs : List Filter} :
    check fs = .ok () ↔ ∃ es, Element.read fs = .ok es := by
  unfold check
  cases Element.read fs <;> simp [Except.map]

end QueryClauses
