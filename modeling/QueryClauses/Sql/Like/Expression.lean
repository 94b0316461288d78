import QueryClauses.Text.Regex

/-!
# LIKE comparisons as a regular expression

What is looked for in a statement is given by a regular expression. Its groups take the character in
front of a comparison, the operand, NOT with the white space behind it, LIKE and the pattern.
-/

namespace QueryClauses.Sql.Like.Expression

open Regex

def quote : Regex := .one (.char '\'')

/-- What a literal goes on with: a character that is no quote, or a doubled quote. -/
def literalPart : Regex := .group (.alts (.set true [.char '\'']) [.seqs quote [quote]])

/-- A literal from behind its opening quote. -/
def literalEnd : Regex := .seqs (.star literalPart) [quote]

def literal : Regex := .seqs quote [literalEnd]

def nameStart : Regex := .set false [.range 'A' 'Z', .range 'a' 'z', .char '_']

def nameRest : Regex := .star (.set false [.word, .char '$'])

/-- Names joined by points. -/
def dottedName : Regex :=
  .seqs nameStart [nameRest, .star (.group (.seqs (.one (.char '.')) [nameStart, nameRest]))]

def namedPlaceholder : Regex := .seqs (.one (.char ':')) [nameStart, .star (.one .word)]

def numberedPlaceholder : Regex := .seqs (.one (.char '$')) [.plus (.one .digit)]

def questionMark : Regex := .one (.char '?')

def operand : Regex :=
  .group (.alts literal [dottedName, namedPlaceholder, numberedPlaceholder, questionMark])

def pattern : Regex := .group (.alts literal [namedPlaceholder, numberedPlaceholder, questionMark])

/-- One more operand behind a concatenation sign. -/
def joined : Regex :=
  .seqs (.star (.one .space)) [.one (.char '|'), .one (.char '|'), .star (.one .space), operand]

def concatenation : Regex := .seqs operand [.star (.group joined)]

def spaces : Regex := .plus (.one .space)

def negation : Regex := .seqs (.anyCase "NOT".toList) [spaces]

/-- LIKE and a pattern. -/
def likePattern : Regex :=
  .seqs (.named "like" (.anyCase "LIKE".toList)) [spaces, .named "pat" pattern]

/-- A comparison from its keywords on. -/
def keywords : Regex := .seqs (.opt (.named "not" negation)) [likePattern]

def body : Regex := .seqs (.named "expr" concatenation) [spaces, keywords]

/-- What an operand may stand behind. -/
def lead : Regex := .alts .start [.set true [.word, .char '.', .char ':', .char '$', .char '\'']]

def comparison : Regex := .seqs (.named "pre" lead) [body]

example : pattern.source = "(?:'(?:[^']|'')*'|:[A-Za-z_]\\w*|\\$\\d+|\\?)" := by decide +kernel

example : operand.source =
    "(?:'(?:[^']|'')*'|[A-Za-z_][\\w$]*(?:\\.[A-Za-z_][\\w$]*)*|:[A-Za-z_]\\w*|\\$\\d+|\\?)" := by
  decide +kernel

example : comparison.source =
    "(?P<pre>^|[^\\w.:$'])(?P<expr>" ++ operand.source ++ "(?:\\s*\\|\\|\\s*" ++ operand.source ++
      ")*)\\s+(?P<not>(?i:NOT)\\s+)?(?P<like>(?i:LIKE))\\s+(?P<pat>" ++ pattern.source ++ ")" := by
  decide +kernel

end QueryClauses.Sql.Like.Expression
