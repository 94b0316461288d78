import QueryClauses.Proofs.Filter.Reading

/-!
# The lists of filters that are accepted

Terms stand one behind the other in a sequence, with or without AND or OR between two of them; a
term is an operand or a sequence in parentheses (`Derives`). A list of filters is accepted exactly
if it is empty or a sequence (`check_eq_ok_iff`).

The pass over a list keeps no more than the number of open groups and what the last filter was. That
is enough: these two tell how the filters that were read can be derived (`Reached`), and whatever
they are, a sequence is taken as a whole (`Element.exists_readFrom_append`).
-/

namespace QueryClauses

/-- The operands that an operation takes. -/
inductive Operation.Takes : Operation → Operand → Prop
  | equality {operation : Operation} {v : Value}
      (h : operation = .equals ∨ operation = .different) (hlist : v.isList = false) :
      Takes operation (.single v)
  | order {operation : Operation} {v : Value}
      (h : operation ∈ [.greater, .greaterOrEquals, .less, .lessOrEquals])
      (hnull : v.isNull = false) (hlist : v.isList = false) : Takes operation (.single v)
  | like (s : String) : Takes .like (.single (.text s))
  | between {low high : Value} (hlow : low.isNull = false) (hhigh : high.isNull = false) :
      Takes .between (.range low high)
  | isIn {vs : List Value} (h : vs ≠ []) : Takes .isIn (.list vs)
  | isInSingle {vs : List Value} (h : vs ≠ []) : Takes .isIn (.single (.list vs))

/-- A comparison is made of an operation and an operand that it takes. -/
theorem Comparison.exists_of?_iff {operation : Operation} {operand : Operand} :
    (∃ k, of? operation operand = some k) ↔ operation.Takes operand := by
  simp only [of?_eq_some_iff]
  constructor
  · rintro ⟨k, hk⟩
    cases hk with
    | isNull => exact .equality (.inl rfl) rfl
    | isNotNull => exact .equality (.inr rfl) rfl
    | @compares _ sign v hsign hnull hlist =>
      cases operation with
      | equals => exact .equality (.inl rfl) hlist
      | different => exact .equality (.inr rfl) hlist
      | greater | greaterOrEquals | less | lessOrEquals => exact .order (by simp) hnull hlist
      | _ => cases hsign
    | contains s => exact .like s
    | between hlow hhigh => exact .between hlow hhigh
    | isIn h => exact .isIn h
    | isInSingle h => exact .isInSingle h
  · intro h
    cases h with
    | @equality _ v h hlist =>
      cases hnull : v.isNull with
      | true =>
        cases v with
        | null =>
          rcases h with rfl | rfl
          · exact ⟨_, .isNull⟩
          · exact ⟨_, .isNotNull⟩
        | _ => cases hnull
      | false =>
        rcases h with rfl | rfl
        · exact ⟨_, .compares rfl hnull hlist⟩
        · exact ⟨_, .compares rfl hnull hlist⟩
    | order h hnull hlist =>
      simp only [List.mem_cons, List.not_mem_nil, or_false] at h
      rcases h with rfl | rfl | rfl | rfl <;> exact ⟨_, .compares rfl hnull hlist⟩
    | like s => exact ⟨_, .contains s⟩
    | between hlow hhigh => exact ⟨_, .between hlow hhigh⟩
    | isIn h => exact ⟨_, .isIn h⟩
    | isInSingle h => exact ⟨_, .isInSingle h⟩

namespace Filter

/-- A filter that is no mark, with a field and an operand that its operation takes. -/
structure IsOperand (f : Filter) : Prop where
  isMark : f.operation.isMark = false
  entity : ∃ entity, f.entity = some entity
  field : ∃ field, f.field = some field
  takes : f.operation.Takes f.operand

/-- A filter between two terms. -/
def IsJoint (f : Filter) : Prop := f.operation = .and ∨ f.operation = .or

inductive Part where
  | term
  | sequence

/-- The lists of filters that are terms, and those that are sequences of terms. -/
inductive Derives : Part → List Filter → Prop
  | operand {f : Filter} (h : f.IsOperand) : Derives .term [f]
  | group {f g : Filter} {fs : List Filter} (hf : f.operation = .opening)
      (h : Derives .sequence fs) (hg : g.operation = .closing) : Derives .term (f :: (fs ++ [g]))
  | term {fs : List Filter} (h : Derives .term fs) : Derives .sequence fs
  | follow {fs gs : List Filter} (h : Derives .sequence fs) (hg : Derives .term gs) :
      Derives .sequence (fs ++ gs)
  | join {f : Filter} {fs gs : List Filter} (h : Derives .sequence fs) (hf : f.IsJoint)
      (hg : Derives .term gs) : Derives .sequence (fs ++ f :: gs)

end Filter

namespace Element

open QueryClauses.Filter

/-- What has been read of a group, by what precedes the next filter. -/
inductive Holds : Preceding → List Filter → Prop
  | start : Holds .start []
  | opening : Holds .opening []
  | operand {fs : List Filter} (h : Derives .sequence fs) : Holds .operand fs
  | joint {f : Filter} {fs : List Filter} (h : Derives .sequence fs) (hf : f.IsJoint) :
      Holds .joint (fs ++ [f])

/-- What has been read in front of the innermost group: for each group that is open, what the one
around it holds, and its parenthesis. -/
inductive Opened : Nat → List Filter → Prop
  | nil : Opened 0 []
  | opening {depth : Nat} {preceding : Preceding} {f : Filter} {fs gs : List Filter}
      (h : Opened depth fs) (hg : Holds preceding gs) (hf : f.operation = .opening) :
      Opened (depth + 1) (fs ++ gs ++ [f])

/-- The filters behind which `depth` groups are open. -/
inductive Reached : Nat → Preceding → List Filter → Prop
  | intro {depth : Nat} {preceding : Preceding} {fs gs : List Filter} (h : Opened depth fs)
      (hg : Holds preceding gs) : Reached depth preceding (fs ++ gs)

variable {pos depth : Nat} {preceding : Preceding} {f : Filter} {fs gs : List Filter}
  {e : Element} {es : List Element}

theorem ReadStep.exists_readFrom_cons {depth' : Nat} {preceding' : Preceding}
    (h : ReadStep depth preceding f e depth' preceding')
    (hfs : readFrom (pos + 1) depth' preceding' fs = .ok es) :
    ∃ es, readFrom pos depth preceding (f :: fs) = .ok es := by
  rw [h.readFrom_eq, hfs]
  exact ⟨_, rfl⟩

/-! ## Derived lists are read -/

/-- What is derived is read, whatever precedes it, and is an operand to what is read behind it. -/
theorem exists_readFrom_append {part : Part} (h : Derives part fs) {rest : List Filter}
    (hrest : ∃ es, readFrom (pos + fs.length) depth .operand rest = .ok es) :
    ∃ es, readFrom pos depth preceding (fs ++ rest) = .ok es := by
  induction h generalizing pos depth preceding rest with
  | operand h =>
    obtain ⟨hmark, ⟨entity, hentity⟩, ⟨field, hfield⟩, htakes⟩ := h
    obtain ⟨k, hk⟩ := Comparison.exists_of?_iff.2 htakes
    obtain ⟨es, hrest⟩ := hrest
    exact (ReadStep.comparison hmark hentity hfield hk).exists_readFrom_cons hrest
  | @group f g fs hf h hg ih =>
    obtain ⟨es, hrest⟩ := hrest
    have hclosing : ∃ es, readFrom (pos + 1 + fs.length) (depth + 1) .operand (g :: rest) =
        .ok es := by
      have hpos : pos + (f :: (fs ++ [g])).length = pos + 1 + fs.length + 1 := by
        rw [List.length_cons, List.length_append, List.length_singleton]
        omega
      rw [hpos] at hrest
      exact (ReadStep.closing hg (Nat.succ_ne_zero depth) rfl).exists_readFrom_cons hrest
    obtain ⟨es', hinner⟩ := @ih _ _ .opening _ hclosing
    rw [List.cons_append, List.append_assoc, List.singleton_append]
    exact (ReadStep.opening hf).exists_readFrom_cons hinner
  | term h ih => exact ih hrest
  | follow h hg ih ihg =>
    rw [List.length_append, ← Nat.add_assoc] at hrest
    rw [List.append_assoc]
    exact ih (ihg hrest)
  | @join f fs gs h hf hg ih ihg =>
    have hpos : pos + (fs ++ f :: gs).length = pos + fs.length + 1 + gs.length := by
      rw [List.length_append, List.length_cons]
      omega
    rw [hpos] at hrest
    rw [List.append_assoc, List.cons_append]
    apply ih
    obtain ⟨es, hgs⟩ : ∃ es, readFrom (pos + fs.length + 1) depth .joint (gs ++ rest) = .ok es :=
      ihg hrest
    rcases hf with hf | hf
    · exact (ReadStep.and hf rfl).exists_readFrom_cons hgs
    · exact (ReadStep.or hf rfl).exists_readFrom_cons hgs

/-! ## Lists that are read can be derived -/

theorem Holds.append_term (h : Holds preceding fs) (hg : Derives .term gs) :
    Derives .sequence (fs ++ gs) := by
  cases h with
  | start | opening => exact .term hg
  | operand h => exact .follow h hg
  | joint h hf =>
    rw [List.append_assoc, List.singleton_append]
    exact .join h hf hg

/-- Each filter that is read is accounted for. -/
theorem ReadStep.reached {depth' : Nat} {preceding' : Preceding}
    (hstep : ReadStep depth preceding f e depth' preceding') (h : Reached depth preceding fs) :
    Reached depth' preceding' (fs ++ [f]) := by
  obtain ⟨houter, hinner⟩ := h
  cases hstep with
  | opening hf =>
    have := Reached.intro (houter.opening hinner hf) .opening
    rwa [List.append_nil] at this
  | closing hf hdepth hp =>
    -- the group becomes a term of the one around it
    subst hp
    cases hinner with
    | operand hinner =>
      cases houter with
      | nil => exact absurd rfl hdepth
      | opening houter haround hg =>
        have hterm := haround.append_term (.group hg hinner hf)
        have := Reached.intro houter (.operand hterm)
        simpa using this
  | and hf hp =>
    subst hp
    cases hinner with
    | operand hinner =>
      rw [List.append_assoc]
      exact .intro houter (.joint hinner (.inl hf))
  | or hf hp =>
    subst hp
    cases hinner with
    | operand hinner =>
      rw [List.append_assoc]
      exact .intro houter (.joint hinner (.inr hf))
  | comparison hf hentity hfield hk =>
    have hf : f.IsOperand :=
      ⟨hf, ⟨_, hentity⟩, ⟨_, hfield⟩, Comparison.exists_of?_iff.1 ⟨_, hk⟩⟩
    rw [List.append_assoc]
    exact .intro houter (.operand (hinner.append_term (.operand hf)))

theorem Reached.of_readFrom (h : Reached depth preceding fs)
    (hread : readFrom pos depth preceding gs = .ok es) :
    ∃ last, last ≠ .joint ∧ Reached 0 last (fs ++ gs) := by
  induction gs generalizing pos depth preceding fs es with
  | nil =>
    obtain ⟨-, rfl, hlast⟩ := readFrom_nil hread
    exact ⟨preceding, hlast, by rwa [List.append_nil]⟩
  | cons g gs ih =>
    obtain ⟨e, es', depth', preceding', -, hstep, hrest⟩ := readFrom_cons hread
    rw [← List.singleton_append, ← List.append_assoc]
    exact ih (hstep.reached h) hrest

theorem Reached.eq_nil_or_derives (h : Reached 0 preceding fs) (hp : preceding ≠ .joint) :
    fs = [] ∨ Derives .sequence fs := by
  obtain ⟨houter, hinner⟩ := h
  cases houter
  cases hinner with
  | start | opening => exact .inl rfl
  | operand h => exact .inr h
  | joint h hf => exact absurd rfl hp

end Element

namespace Filter

/-- The lists that are accepted are the empty one and the sequences of the grammar. -/
theorem check_eq_ok_iff (fs : List Filter) :
    check fs = .ok () ↔ fs = [] ∨ Derives .sequence fs := by
  rw [check_eq_ok_iff_exists_read]
  constructor
  · rintro ⟨es, hread⟩
    have hstart : Element.Reached 0 .start [] := .intro .nil .start
    obtain ⟨last, hlast, h⟩ := hstart.of_readFrom hread
    exact h.eq_nil_or_derives hlast
  · rintro (rfl | h)
    · exact ⟨[], rfl⟩
    · have := @Element.exists_readFrom_append 0 0 .start fs .sequence h [] ⟨[], rfl⟩
      rwa [List.append_nil] at this

end Filter

end QueryClauses
