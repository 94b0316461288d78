import QueryClauses.Proofs.Condition.Search
import QueryClauses.Proofs.Condition.Text
import QueryClauses.Proofs.Pattern.Matching
import QueryClauses.Proofs.Sql.Like.Generated

/-!
# Folding a condition

A condition is written in pieces: comparisons with LIKE, and other text (`pieces`, `Search.pieces`).
Folding it folds each comparison with LIKE and copies the other text, whatever the columns are named
and whatever the escape character is (`folds_of_check`).
-/

namespace QueryClauses

open Sql Sql.Like CharClass

/-! ## Pieces -/

/-- A piece of a condition: a comparison of a column with a pattern, or other text. -/
inductive Condition.Piece where
  | text (s : String)
  | like (column name : String)
deriving DecidableEq, Repr

namespace Condition.Piece

/-- What a piece is written as. -/
def written (escape : Char) : Piece → Text
  | text s => s.toList
  | like column name =>
    (column ++ " LIKE :" ++ name ++ " ESCAPE '" ++ String.singleton escape ++ "'").toList

/-- What a piece is written as with both sides of LIKE in upper case. -/
def folded (escape : Char) : Piece → Text
  | text s => s.toList
  | like column name =>
    ("UPPER(" ++ column ++ ") LIKE UPPER(:" ++ name ++ ") ESCAPE '" ++ String.singleton escape ++
      "'").toList

section

variable {escape : Char} {column name : String}

theorem written_like (pattern : Text) : (like column name).written escape =
    (Condition.like escape column name pattern).text.toList := rfl

theorem folded_like : (like column name).folded escape =
    (generated column.toList name.toList).folded ++ escapeClause escape := by
  unfold folded Like.Comparison.folded generated escapeClause
  simp

theorem foldAt_written_like (hcolumn : IsColumn column.toList) (hname : IsName name.toList)
    (hescape : Pattern.isUsableEscape escape = true) {r : Text} (hr : Follows r) :
    foldAt true ((like column name).written escape ++ r) =
      (like column name).folded escape ++ foldAt false r := by
  have hlike := foldAt_like hescape hr hcolumn hname
  rw [written_like [], toList_like, folded_like]
  simpa only [List.append_assoc] using hlike

end

end Condition.Piece

namespace Comparison

/-- The piece that a comparison is written as. -/
def piece (escape : Char) (column : String) (supply : NameSupply) : Comparison → Condition.Piece
  | contains _ => .like column supply.next.1
  | k => .text (k.written escape column supply).1.text

theorem written_piece (escape : Char) (column : String) (supply : NameSupply) (k : Comparison) :
    (k.piece escape column supply).written escape =
      (k.written escape column supply).1.text.toList := by
  cases k <;> rfl

variable {escape : Char} {column : String} {supply : NameSupply}

theorem breaksOff_written (hcolumn : IsColumn column.toList) (k : Comparison) (r : Text) :
    BreaksOff ((k.written escape column supply).1.text.toList ++ r) := by
  have hbreaks : ∀ t : String, BreaksOff ((column ++ t).toList ++ r) := by
    intro t
    rw [String.toList_append, List.append_assoc]
    exact breaksOff_column hcolumn _
  cases k with
  | between low high =>
    simp only [written, String.toList_append, List.append_assoc]
    exact breaksOff_cons (c := '(') (by decide) _
  | isNull | isNotNull => exact hbreaks _
  | compares sign v | contains s | isIn vs =>
    simp only [written, Condition.like, String.append_assoc]
    exact hbreaks _

/-- Of a comparison that is written, both sides of LIKE are folded, and all else is copied. -/
theorem foldAt_written (hcolumn : IsColumn column.toList)
    (hescape : Pattern.isUsableEscape escape = true) (hstem : IsName supply.stem.toList)
    (k : Comparison) {r : Text} (hr : Follows r) :
    ∃ mayStart, foldAt true ((k.written escape column supply).1.text.toList ++ r) =
      (k.piece escape column supply).folded escape ++ foldAt mayStart r := by
  have hname : IsName supply.next.1.toList := isName_name hstem _
  cases k with
  | isNull =>
    have hsplit : ∀ z, (column ++ " IS NULL").toList ++ z =
        column.toList ++ ' ' :: ("IS".toList ++ ' ' :: ("NULL".toList ++ z)) := by simp
    have his : ∀ z, BreaksOff ("IS".toList ++ z) := fun _ => breaksOff_cons (c := 'I') (by decide) _
    obtain ⟨mayStart, hlast⟩ := foldAt_word_last true (@isSegment_of_checkAlias "NULL" rfl) hr
    refine ⟨mayStart, ?_⟩
    simp only [written, piece, Condition.Piece.folded]
    rw [hsplit, foldAt_column_blank true hcolumn (his _),
      foldAt_word_blank true (@isSegment_of_checkAlias "IS" rfl) (breaksOff_null r), hlast,
      ← hsplit]
  | isNotNull =>
    have hsplit : ∀ z, (column ++ " IS NOT NULL").toList ++ z = column.toList ++
        ' ' :: ("IS".toList ++ ' ' :: ("NOT".toList ++ ' ' :: ("NULL".toList ++ z))) := by simp
    have his : ∀ z, BreaksOff ("IS".toList ++ z) := fun _ => breaksOff_cons (c := 'I') (by decide) _
    obtain ⟨mayStart, hlast⟩ := foldAt_word_last true (@isSegment_of_checkAlias "NULL" rfl) hr
    refine ⟨mayStart, ?_⟩
    simp only [written, piece, Condition.Piece.folded]
    rw [hsplit, foldAt_column_blank true hcolumn (his _),
      foldAt_word_blank true (@isSegment_of_checkAlias "IS" rfl) (breaksOff_notNull r),
      foldAt_word_blank true (@isSegment_of_checkAlias "NOT" rfl) (breaksOff_null r), hlast,
      ← hsplit]
  | compares sign v =>
    have hsplit : ∀ z, (column ++ " " ++ sign.text ++ " :" ++ supply.next.1).toList ++ z =
        column.toList ++ ' ' :: (sign.text.toList ++
          ' ' :: (':' :: supply.next.1.toList ++ z)) := by simp
    obtain ⟨mayStart, hlast⟩ := foldAt_placeholder_last true hname hr
    refine ⟨mayStart, ?_⟩
    simp only [written, piece, Condition.Piece.folded]
    rw [hsplit, foldAt_column_blank true hcolumn (breaksOff_sign sign _), foldAt_sign, hlast,
      ← hsplit]
  | contains s =>
    exact ⟨false, Condition.Piece.foldAt_written_like hcolumn hname hescape hr⟩
  | between low high =>
    have hname' : IsName supply.next.2.next.1.toList := isName_name hstem _
    have hsplit : ∀ z, ("(:" ++ supply.next.1 ++ " <= " ++ column ++ " AND " ++ column ++ " <= :" ++
        supply.next.2.next.1 ++ ")").toList ++ z =
          '(' :: (':' :: supply.next.1.toList ++ ' ' :: (Sign.le.text.toList ++
            ' ' :: (column.toList ++ ' ' :: ("AND".toList ++ ' ' :: (column.toList ++
              ' ' :: (Sign.le.text.toList ++ ' ' :: (':' :: supply.next.2.next.1.toList ++
                ')' :: z))))))) := by simp [Sign.text]
    have hand : ∀ z, BreaksOff ("AND".toList ++ z) := fun _ =>
      breaksOff_cons (c := 'A') (by decide) _
    obtain ⟨mayStart, hlast⟩ := foldAt_placeholder_last true hname' (follows_close r)
    refine ⟨true, ?_⟩
    simp only [written, piece, Condition.Piece.folded]
    rw [hsplit, foldAt_parenOpen, foldAt_placeholder_blank true hname (breaksOff_sign .le _),
      foldAt_sign, foldAt_column_blank true hcolumn (hand _),
      foldAt_word_blank true (@isSegment_of_checkAlias "AND" rfl) (breaksOff_column hcolumn _),
      foldAt_column_blank true hcolumn (breaksOff_sign .le _), foldAt_sign, hlast,
      foldAt_parenClose, ← hsplit]
  | isIn vs =>
    have hsplit : ∀ z, (column ++ " IN (:" ++ supply.next.1 ++ ")").toList ++ z = column.toList ++
        ' ' :: ("IN".toList ++ ' ' :: '(' :: (':' :: supply.next.1.toList ++ ')' :: z)) := by simp
    have hin : ∀ z, BreaksOff ("IN".toList ++ z) := fun _ => breaksOff_cons (c := 'I') (by decide) _
    obtain ⟨mayStart, hlast⟩ := foldAt_placeholder_last true hname (follows_close r)
    refine ⟨true, ?_⟩
    simp only [written, piece, Condition.Piece.folded]
    rw [hsplit, foldAt_column_blank true hcolumn (hin _),
      foldAt_word_blank true (@isSegment_of_checkAlias "IN" rfl) (breaksOff_cons (by decide) _),
      foldAt_parenOpen, hlast, foldAt_parenClose, ← hsplit]

end Comparison

/-! ## Pieces in a row -/

namespace Condition

/-- Pieces that make up a text behind an operand or not: no comparison goes on with the text, and
folding it folds each comparison with LIKE. -/
structure FoldsBehind (escape : Char) (behind : Bool) (s : Text) (ps : List Piece) : Prop where
  written : s = ps.flatMap (Piece.written escape)
  breaksOff : BreaksOff s
  ends : behind = true → EndsOperand s
  folded : ∀ mayStart, behind = true ∨ mayStart = true →
    foldAt mayStart s = ps.flatMap (Piece.folded escape)

namespace FoldsBehind

variable {escape : Char} {behind : Bool} {s : Text} {ps : List Piece}

theorem nil : FoldsBehind escape behind [] [] where
  written := rfl
  breaksOff := follows_nil.breaksOff
  ends := fun _ => follows_nil.ends
  folded := fun mayStart _ => foldAt_nil mayStart

theorem follows (h : FoldsBehind escape true s ps) : Follows s := ⟨h.ends rfl, h.breaksOff⟩

theorem joint {w : String} {c : Char} (h : FoldsBehind escape false s ps)
    (hw : Identifier.checkAlias w = .ok ()) (hhead : w.toList.head? = some c)
    (hc : isSpace c = false ∧ c ≠ '|' ∧ isLetter 'n' c = false ∧ isLetter 'l' c = false) :
    FoldsBehind escape behind ((" " ++ w ++ " ").toList ++ s) (.text (" " ++ w ++ " ") :: ps) := by
  have hsplit : ∀ z, (" " ++ w ++ " ").toList ++ z = ' ' :: (w.toList ++ ' ' :: z) := by simp
  have hbreaks : BreaksOff (w.toList ++ ' ' :: s) := by
    obtain ⟨u, hu⟩ := List.head?_eq_some_iff.1 hhead
    rw [hu]
    exact breaksOff_cons hc _
  have hfollows := follows_blank hbreaks
  rw [← hsplit] at hfollows
  refine ⟨?_, hfollows.breaksOff, fun _ => hfollows.ends, fun mayStart _ => ?_⟩
  · rw [List.flatMap_cons, ← h.written, Piece.written]
  · rw [hsplit, foldAt_joint (isSegment_of_checkAlias hw) h.breaksOff, h.folded true (.inr rfl),
      ← hsplit]
    rfl

theorem and (h : FoldsBehind escape false s ps) :
    FoldsBehind escape behind (" AND ".toList ++ s) (.text " AND " :: ps) :=
  h.joint (w := "AND") rfl rfl (by decide)

theorem or (h : FoldsBehind escape false s ps) :
    FoldsBehind escape behind (" OR ".toList ++ s) (.text " OR " :: ps) :=
  h.joint (w := "OR") rfl rfl (by decide)

/-- OR stands in front where an operand would otherwise follow another. -/
theorem implicitOr (h : FoldsBehind escape false s ps) : FoldsBehind escape behind
    ((Condition.implicitOr behind).toList ++ s) (.text (Condition.implicitOr behind) :: ps) := by
  cases behind with
  | true => exact h.or
  | false => exact ⟨h.written, h.breaksOff, nofun, h.folded⟩

theorem opening (h : FoldsBehind escape false s ps) :
    FoldsBehind escape false ('(' :: s) (.text "(" :: ps) where
  written := by
    rw [List.flatMap_cons, ← h.written]
    rfl
  breaksOff := breaksOff_cons (by decide) s
  ends := nofun
  folded := fun mayStart _ => by
    rw [foldAt_parenOpen, h.folded true (.inr rfl)]
    rfl

theorem closing (h : FoldsBehind escape true s ps) :
    FoldsBehind escape behind (')' :: s) (.text ")" :: ps) where
  written := by
    rw [List.flatMap_cons, ← h.written]
    rfl
  breaksOff := (follows_close s).breaksOff
  ends := fun _ => (follows_close s).ends
  folded := fun mayStart _ => by
    rw [foldAt_parenClose, h.folded true (.inl rfl)]
    rfl

/-- A comparison stands in front of text that may follow an operand. -/
theorem comparison {column : String} {supply : NameSupply} (h : FoldsBehind escape true s ps)
    (hcolumn : IsColumn column.toList) (hescape : Pattern.isUsableEscape escape = true)
    (hstem : IsName supply.stem.toList) (k : Comparison) :
    FoldsBehind escape false ((k.written escape column supply).1.text.toList ++ s)
      (k.piece escape column supply :: ps) where
  written := by rw [List.flatMap_cons, ← h.written, k.written_piece]
  breaksOff := k.breaksOff_written hcolumn s
  ends := nofun
  folded := fun mayStart hstart => by
    obtain ⟨mayStart', hfold⟩ := k.foldAt_written hcolumn hescape hstem h.follows
    rw [hstart.resolve_left nofun, hfold, h.folded mayStart' (.inl rfl), List.flatMap_cons]

end FoldsBehind

/-! ## Conditions of filters -/

/-- The pieces of the condition of a list of elements, behind an operand or not. -/
def pieces (catalog : Catalog) (escape : Char) : Bool → NameSupply → List Element → List Piece
  | _, _, [] => []
  | behind, supply, .opening :: es =>
    .text (implicitOr behind) :: .text "(" :: pieces catalog escape false supply es
  | _, supply, .closing :: es => .text ")" :: pieces catalog escape true supply es
  | _, supply, .and :: es => .text " AND " :: pieces catalog escape false supply es
  | _, supply, .or :: es => .text " OR " :: pieces catalog escape false supply es
  | behind, supply, .comparison entity field k :: es =>
    match catalog.column entity field with
    | .error _ => []
    | .ok column =>
      .text (implicitOr behind) :: k.piece escape column supply ::
        pieces catalog escape true (k.written escape column supply).2 es

variable {catalog : Catalog} {escape : Char}

theorem Written.foldsBehind {behind : Bool} {supply supply' : NameSupply} {es : List Element}
    {c : Condition} {ts : List Token} (h : Written catalog escape behind supply es c ts supply')
    (hcatalog : catalog.check = .ok ()) (hescape : Pattern.isUsableEscape escape = true)
    (hstem : IsName supply.stem.toList) :
    FoldsBehind escape behind c.text.toList (pieces catalog escape behind supply es) := by
  induction h with
  | nil => exact .nil
  | opening h ih => simpa [mark, pieces] using (ih hstem).opening.implicitOr
  | closing h ih => simpa [mark, pieces] using (ih hstem).closing
  | and h ih => simpa [mark, pieces] using (ih hstem).and
  | or h ih => simpa [mark, pieces] using (ih hstem).or
  | @comparison behind supply supply' es c ts entity field column k hcolumn h ih =>
    have hcol := isColumn_of_column hcatalog hcolumn
    have hrest := ih (by rwa [k.stem_written])
    simpa [mark, pieces, hcolumn] using (hrest.comparison hcol hescape hstem k).implicitOr

end Condition

/-- The pieces of the condition of a list of filters. -/
def Condition.filterPieces (catalog : Catalog) (escape : Char) (supply : NameSupply)
    (fs : List Filter) : List Piece :=
  match Element.read fs with
  | .error _ => []
  | .ok es => pieces catalog escape false supply es

theorem Condition.foldsBehind_ofFilters {catalog : Catalog} {escape : Char}
    {supply supply' : NameSupply} {fs : List Filter} {c : Condition}
    (hcatalog : catalog.check = .ok ()) (hescape : Pattern.isUsableEscape escape = true)
    (hstem : IsName supply.stem.toList)
    (h : ofFilters catalog escape supply fs = (.ok c, supply')) :
    FoldsBehind escape false c.text.toList (filterPieces catalog escape supply fs) := by
  unfold ofFilters at h
  unfold filterPieces
  cases hread : Element.read fs with
  | error fault =>
    rw [hread] at h
    cases h
  | ok es =>
    rw [hread] at h
    obtain ⟨ts, hwritten⟩ := written_of_ofElements h
    exact hwritten.foldsBehind hcatalog hescape hstem

/-! ## Conditions of searches -/

namespace Search

/-- The comparisons of columns with patterns. -/
def likes (supply : NameSupply) : List (String × Text) → List Condition.Piece
  | [] => []
  | (column, _) :: rest => .like column supply.next.1 :: likes supply.next.2 rest

/-- The pieces of the condition of a search. -/
def pieces (escape : Char) (words : Bool) (columns terms : List String) (supply : NameSupply) :
    List Condition.Piece :=
  (likes supply (alternatives escape words columns terms)).intersperse (.text " OR ")

variable {escape : Char}

theorem toList_text_comparisons (supply : NameSupply) (ps : List (String × Text)) :
    ((comparisons escape supply ps).1.map (·.text)).map String.toList =
      (likes supply ps).map (Condition.Piece.written escape) := by
  induction ps generalizing supply with
  | nil => rfl
  | cons p ps ih => exact congrArg (_ :: ·) (ih supply.next.2)

theorem foldsBehind_likes (hescape : Pattern.isUsableEscape escape = true) {supply : NameSupply}
    (hstem : IsName supply.stem.toList) {ps : List (String × Text)}
    (hps : ∀ p ∈ ps, IsColumn p.1.toList) :
    Condition.FoldsBehind escape false
      (" OR ".toList.intercalate ((likes supply ps).map (Condition.Piece.written escape)))
      ((likes supply ps).intersperse (.text " OR ")) := by
  induction ps generalizing supply with
  | nil => exact .nil
  | cons p ps ih =>
    obtain ⟨hcolumn, hps⟩ := List.forall_mem_cons.1 hps
    have hlike : ∀ {s qs}, Condition.FoldsBehind escape true s qs →
        Condition.FoldsBehind escape false
          ((Condition.Piece.like p.1 supply.next.1).written escape ++ s)
          (.like p.1 supply.next.1 :: qs) := fun hs =>
      hs.comparison hcolumn hescape hstem (.contains "")
    have hrest := @ih supply.next.2 hstem hps
    cases ps with
    | nil => simpa [likes] using hlike .nil
    | cons q ps => simpa [likes] using hlike hrest.or

theorem foldsBehind_condition (hescape : Pattern.isUsableEscape escape = true) {words : Bool}
    {columns terms : List String} (hcolumns : ∀ column ∈ columns, IsColumn column.toList)
    {supply : NameSupply} (hstem : IsName supply.stem.toList) :
    Condition.FoldsBehind escape false (condition escape words columns terms supply).1.text.toList
      (pieces escape words columns terms supply) := by
  have htext : (condition escape words columns terms supply).1.text.toList =
      " OR ".toList.intercalate ((likes supply (alternatives escape words columns terms)).map
        (Condition.Piece.written escape)) := by
    rw [← toList_text_comparisons]
    exact String.toList_intercalate
  rw [htext]
  exact foldsBehind_likes hescape hstem fun p hp => hcolumns p.1 (mem_alternatives hp)

end Search

/-! ## Conditions of both kinds -/

namespace Condition

/-- A text is written in pieces, and folding it folds each comparison with LIKE. -/
structure Folds (escape : Char) (s : Text) (ps : List Piece) : Prop where
  written : s = ps.flatMap (Piece.written escape)
  folded : (fold s).text = ps.flatMap (Piece.folded escape)

theorem FoldsBehind.folds {escape : Char} {s : Text} {ps : List Piece}
    (h : FoldsBehind escape false s ps) : Folds escape s ps where
  written := h.written
  folded := h.folded true (.inr rfl)

/-- With a catalog and an escape character that are accepted, folding the condition of filters or of
a search puts both sides of each comparison with LIKE in upper case, and nothing else is changed. -/
theorem folds_of_check {catalog : Catalog} {escape : Char} (hcatalog : catalog.check = .ok ())
    (hescape : Settings.checkEscape escape = .ok ()) :
    (∀ {count : Nat} {fs : List Filter} {c : Condition} {supply' : NameSupply},
      ofFilters catalog escape { NameSupply.forFilters with count } fs = (.ok c, supply') →
        Folds escape c.text.toList
          (filterPieces catalog escape { NameSupply.forFilters with count } fs)) ∧
    ∀ {count : Nat} {words : Bool} {columns terms : List String},
      (∀ column ∈ columns, ∃ entity field, catalog.column entity field = .ok column) →
        Folds escape
          (Search.condition escape words columns terms
            { NameSupply.forSearch with count }).1.text.toList
          (Search.pieces escape words columns terms { NameSupply.forSearch with count }) := by
  have husable := Pattern.isUsableEscape_of_checkEscape hescape
  constructor
  · intro count fs c supply' h
    exact (foldsBehind_ofFilters hcatalog husable isName_p h).folds
  · intro count words columns terms hcolumns
    refine (Search.foldsBehind_condition husable (fun column hcolumn => ?_) isName_s).folds
    obtain ⟨entity, field, hfield⟩ := hcolumns column hcolumn
    exact isColumn_of_column hcatalog hfield

def likeCatalog : Catalog := Catalog.insert {} "Item" { tableAlias := "like" }

/-- Filters of which one is met by a pattern; the fields are named like keywords. -/
def likeFilters : List Filter :=
  [.ne "Item" "or.like" .null, .opening, .like "Item" "not" "x", .and, .eq "Item" "and" (.int 1),
    .closing]

theorem folds_likeFilters :
    likeCatalog.check = .ok () ∧ Settings.checkEscape '|' = .ok () ∧
    likeCatalog.column "Item" "not" = .ok "like.not" ∧
    (∃ c supply', ofFilters likeCatalog '|' { NameSupply.forFilters with count := 4 } likeFilters =
        (.ok c, supply') ∧
      c.text = "like.or.like IS NOT NULL OR (like.not LIKE :p5 ESCAPE '|' AND like.and = :p6)" ∧
      (fold c.text.toList).text = ("like.or.like IS NOT NULL OR " ++
        "(UPPER(like.not) LIKE UPPER(:p5) ESCAPE '|' AND like.and = :p6)").toList) ∧
    (fold (Search.condition '|' true ["like.not"] ["a"]
      { NameSupply.forSearch with count := 0 }).1.text.toList).text =
        ("UPPER(like.not) LIKE UPPER(:s1) ESCAPE '|' OR " ++
          "UPPER(like.not) LIKE UPPER(:s2) ESCAPE '|'").toList := by
  have hcatalog : likeCatalog.check = .ok () := rfl
  have hescape : Settings.checkEscape '|' = .ok () := rfl
  have hcolumn : likeCatalog.column "Item" "not" = .ok "like.not" := rfl
  obtain ⟨hfilters, hsearch⟩ := folds_of_check hcatalog hescape
  refine ⟨hcatalog, hescape, hcolumn, ?_, ?_⟩
  · have htext : (ofFilters likeCatalog '|' { NameSupply.forFilters with count := 4 }
        likeFilters).1.toOption.map (·.text) =
          some "like.or.like IS NOT NULL OR (like.not LIKE :p5 ESCAPE '|' AND like.and = :p6)" := by
      decide +kernel
    cases hof : ofFilters likeCatalog '|' { NameSupply.forFilters with count := 4 } likeFilters with
    | mk result supply' =>
      rw [hof] at htext
      cases result with
      | error failure => cases htext
      | ok c =>
        refine ⟨c, supply', rfl, Option.some.inj htext, ?_⟩
        rw [(hfilters hof).folded]
        decide +kernel
  · have hcolumns : ∀ column ∈ ["like.not"],
        ∃ entity field, likeCatalog.column entity field = .ok column := by
      intro column hmem
      obtain rfl := List.mem_singleton.1 hmem
      exact ⟨"Item", "not", hcolumn⟩
    rw [(hsearch hcolumns).folded]
    decide +kernel

end Condition

end QueryClauses
