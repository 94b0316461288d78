import QueryClauses.Proofs.Draft.Run
import QueryClauses.Proofs.Sql.OrderBy
import QueryClauses.Proofs.Sql.Placeholders

/-!
# Whether additions stand

An addition stands if it is not swallowed by a comment: a condition has its own elements in the new
text, so that its placeholders are found there, and sort keys make the text one with an ORDER BY.
In front of an addition the white space is taken away, the line feed at the end of a line comment
included. So additions to a well-formed text stand exactly if no line comment comes last in front of
them (`additions_stand_iff`); otherwise they are swallowed (`swallowed_by_line_comment`).
-/

namespace QueryClauses.Draft

open Sql

variable {draft draft' : Draft}

/-- A condition that changes a draft, the elements of its text, and the draft with it. -/
theorem Sound.addConditions (hdraft : draft.Sound) {filters : List Filter}
    {search : Option Search} {words : Bool}
    (h : draft.addConditions filters search words = .ok draft') (hne : draft' ≠ draft) :
    ∃ addition condition, draft.generate filters search words = .ok addition ∧
      addition.text? = some condition ∧ draft' = draft.extended addition condition ∧
      Tidy (lex condition.toList) (addition.bindings.map (·.1.toList)) ∧ condition.toList ≠ [] := by
  obtain ⟨addition, hgenerate, ⟨-, rfl⟩ | ⟨condition, htext, -, rfl⟩⟩ := addConditions_eq_ok h
  · exact absurd rfl hne
  · obtain ⟨ts, hts, htidy, -, ⟨g, rfl⟩, -⟩ := (hdraft.generate hgenerate).writes_text htext
    refine ⟨addition, condition, hgenerate, htext, rfl, htidy.lex_of_eq hts, ?_⟩
    rw [hts, Addition.textOf_group]
    exact List.cons_ne_nil _ _

/-- Additions to a well-formed text stand exactly if no line comment comes last in front of them. A
condition stands with its own elements; its placeholders are found then, and else only as far as the
rest of the text has placeholders of these names. Sort keys make a text with an ORDER BY then, and
else only if the words of the rest make one. -/
theorem additions_stand_iff {settings : Settings} {entity : String} {kind : QueryKind}
    {skeleton : Text} {requests : List Request} (hsettings : settings.check = .ok ())
    (hrun : (start settings entity kind skeleton).run requests = .ok draft)
    (htext : WellFormed draft.text) :
    (∀ filters search words draft', draft.addConditions filters search words = .ok draft' →
      draft' ≠ draft →
      ∃ addition condition, draft.generate filters search words = .ok addition ∧
        addition.text? = some condition ∧
        ((∃ back, lex draft'.text =
            lex (conditionLead draft.text) ++ lex condition.toList ++ back) ↔
          endsInLineComment (cutTail draft.text).1 = false) ∧
        ((∀ p ∈ addition.bindings, p.1.toList ∈ placeholderNames draft'.text) ↔
          endsInLineComment (cutTail draft.text).1 = false ∨
            ∀ p ∈ addition.bindings, p.1.toList ∈ placeholderNames (cutTail draft.text).1 ++
              placeholderNames (munchLine (cutTail draft.text).2).2)) ∧
    (∀ keys keyEntity draft', draft.addSortKeys keys keyEntity = .ok draft' → keys ≠ [] →
      (hasOrderBy draft'.text = true ↔
        endsInLineComment (cutPaging draft.text).1 = false ∨
          orderByAmong (topWords (cutPaging draft.text).1 ++
            topWords (munchLine (cutPaging draft.text).2).2) = true)) := by
  have hdraft := (sound_start hsettings entity kind skeleton).run hrun
  constructor
  · intro filters search words draft' h hne
    obtain ⟨addition, condition, hgenerate, hcondition, rfl, htidy, hnil⟩ :=
      hdraft.addConditions h hne
    have hline : '\n' ∉ condition.toList := by
      have := notMem_textOf_of_isTame htidy.tame
      rwa [textOf_lex] at this
    refine ⟨addition, condition, hgenerate, hcondition, ?_, ?_⟩
    · exact lex_addCondition_iff htext htidy.isClosed hline hnil
    · have hnames := mem_placeholderNames_addCondition_iff htext htidy.isClosed hline
      rw [htidy.names] at hnames
      simp only [List.forall_mem_map] at hnames
      exact hnames
  · intro keys keyEntity draft' h hkeys
    obtain ⟨idColumn, hid, ⟨hnil, -⟩ | ⟨-, columns, hcolumns, rfl⟩⟩ := addSortKeys_eq_ok h
    · exact absurd hnil hkeys
    have htidy := hdraft.sortText hid hcolumns
    have hline : '\n' ∉ draft.sortText idColumn columns := by
      have := notMem_textOf_of_isTame htidy.tame
      rwa [textOf_lex] at this
    cases hcomment : endsInLineComment (cutPaging draft.text).1 with
    | false => simp [sorted, hasOrderBy_addSortKeys htext hcomment htidy.isClosed]
    | true => simp [sorted, hasOrderBy_addSortKeys_of_endsInLineComment htext hcomment hline]

/-- A statement with a line comment that does not come last in front of a clause. -/
def commentedSelect : Text :=
  "SELECT i.* FROM items i -- all rows\nWHERE i.a = '--' OR i.b = 1 LIMIT 10".toList

/-- A statement with a line comment that comes last in front of its ORDER BY and its LIMIT. -/
def commentedTail : Text :=
  "SELECT i.* FROM items i -- all rows\nLIMIT 10".toList

theorem additions_stand_commentedSelect :
    itemSettings.check = .ok () ∧
      (start itemSettings "Item" .native commentedSelect).run [] =
        .ok (start itemSettings "Item" .native commentedSelect) ∧
      WellFormed commentedSelect ∧
      (∀ filters search words draft',
        (start itemSettings "Item" .native commentedSelect).addConditions filters search words =
          .ok draft' →
        draft' ≠ start itemSettings "Item" .native commentedSelect →
        ∃ addition, (start itemSettings "Item" .native commentedSelect).generate filters search
            words = .ok addition ∧
          ∀ p ∈ addition.bindings, p.1.toList ∈ placeholderNames draft'.text) ∧
      ∀ keys keyEntity draft',
        (start itemSettings "Item" .native commentedSelect).addSortKeys keys keyEntity = .ok draft' →
        keys ≠ [] → hasOrderBy draft'.text = true := by
  have hsettings : itemSettings.check = .ok () := rfl
  have htext : WellFormed commentedSelect := ⟨by decide +kernel, by decide +kernel⟩
  obtain ⟨hconditions, hkeys⟩ :=
    @additions_stand_iff _ itemSettings "Item" .native commentedSelect [] hsettings rfl htext
  refine ⟨hsettings, rfl, htext, ?_, ?_⟩
  · intro filters search words draft' h hne
    obtain ⟨addition, -, hgenerate, -, -, hnames⟩ := hconditions filters search words draft' h hne
    refine ⟨addition, hgenerate, hnames.2 (.inl ?_)⟩
    decide +kernel
  · intro keys keyEntity draft' h hne
    refine (hkeys keys keyEntity draft' h hne).2 (.inl ?_)
    decide +kernel

/-- A condition and sort keys behind a line comment become part of it: the value is bound to a
placeholder that is not in the text, and the text has no ORDER BY. -/
theorem swallowed_by_line_comment :
    itemSettings.check = .ok () ∧ WellFormed commentedTail ∧
      ((start itemSettings "Item" .native commentedTail).addConditions
          [.eq "Item" "tenantId" (.int 7)] none false).toOption.map
        (fun draft => (draft.bindings.keys, placeholderNames draft.text)) = some (["p1"], []) ∧
      ((start itemSettings "Item" .native commentedTail).addSortKeys
          [⟨"Item", "name", .asc⟩] "Item").toOption.map
        (fun draft => hasOrderBy draft.text) = some false :=
  ⟨rfl, ⟨by decide +kernel, by decide +kernel⟩, by decide +kernel, by decide +kernel⟩

end QueryClauses.Draft
