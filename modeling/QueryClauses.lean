import QueryClauses.Draft
import QueryClauses.Proofs.Sql.Concatenation
import QueryClauses.Settings.Document
import QueryClauses.Sql.Like.Folding
import QueryClauses.Sql.Positional
import QueryClauses.Value.Shown
import QueryClauses.Value.Wire
import QueryClauses.Proofs.Sql.Trimming
import QueryClauses.Proofs.Sql.Cutting
import QueryClauses.Proofs.Sql.Extension
import QueryClauses.Proofs.Sql.OpenComment
import QueryClauses.Proofs.Sql.OrderBy
import QueryClauses.Proofs.Condition.Comparison
import QueryClauses.Proofs.Condition.Text
import QueryClauses.Proofs.Condition.Search
import QueryClauses.Proofs.Draft.Addition
import QueryClauses.Proofs.Draft.SortKey
import QueryClauses.Proofs.Draft.Run
import QueryClauses.Proofs.Sql.Placeholders
import QueryClauses.Proofs.Draft.Standing
import QueryClauses.Proofs.Sql.Conjunction
import QueryClauses.Proofs.Draft.Conjunction
import QueryClauses.Proofs.Condition.Alike
import QueryClauses.Proofs.Draft.Alike
import QueryClauses.Proofs.Boolean.Parsing
import QueryClauses.Proofs.Filter.Grammar
import QueryClauses.Proofs.Sql.Expression
import QueryClauses.Proofs.Condition.Expression
import QueryClauses.Proofs.Pattern.Matching
import QueryClauses.Proofs.Sql.Like.Folding
import QueryClauses.Proofs.Pattern.Folding
import QueryClauses.Proofs.Sql.Positional
import QueryClauses.Proofs.Sql.Mentions
import QueryClauses.Proofs.Sql.Unbroken
import QueryClauses.Proofs.Condition.Names
import QueryClauses.Proofs.Draft.Names
import QueryClauses.Proofs.Draft.Freshness
import QueryClauses.Proofs.Draft.Attempts
import QueryClauses.Proofs.Sql.Sorting
import QueryClauses.Proofs.Draft.Sorting
import QueryClauses.Proofs.Sql.Commutation
import QueryClauses.Proofs.Draft.Commutation
import QueryClauses.Proofs.Sql.Like.ClosedOperand
import QueryClauses.Proofs.Sql.Like.Lookahead
import QueryClauses.Proofs.Sql.Like.Steps
import QueryClauses.Proofs.Condition.Folding
import QueryClauses.Proofs.Sql.Like.Concatenated
import QueryClauses.Proofs.Sql.Like.Marks
import QueryClauses.Proofs.Sql.Like.Refolding
import QueryClauses.Proofs.Sql.Renumbering
import QueryClauses.Proofs.Sql.Persistence
import QueryClauses.Proofs.Draft.Steps
import QueryClauses.Proofs.Draft.Execution
import QueryClauses.Proofs.Draft.Constants
import QueryClauses.Proofs.Condition.Fragments
import QueryClauses.Proofs.Draft.Columns
import QueryClauses.Proofs.Filter.Derivation
import QueryClauses.Proofs.Condition.Generation
import QueryClauses.Proofs.Condition.Values
import QueryClauses.Proofs.Condition.Lists
import QueryClauses.Proofs.Draft.Searching
import QueryClauses.Proofs.Draft.Pagination
import QueryClauses.Proofs.Value.Integers
import QueryClauses.Proofs.Sql.Bytes.Slices
import QueryClauses.Proofs.Sql.Tokenisation
import QueryClauses.Proofs.Sql.Locality
