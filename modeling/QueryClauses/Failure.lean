import QueryClauses.Identifier
import QueryClauses.Filter.Expression

/-!
# Failures

Everything that can go wrong while settings are read or a query is made, by cause. The wording is
that of `Failure.message`, which says what kind of failure it is and then the cause.
-/

namespace QueryClauses

/-- What is wrong with settings. -/
inductive SettingsFault where
  | escapeChar (c : Char)
  | constantName (fault : IdentifierFault)
  | entity (name : String) (fault : IdentifierFault)
  | unreadableFile (path : String)
  /-- A document that is no settings document. -/
  | unfitDocument
  /-- A fault in the settings of a file. -/
  | inFile (path : String) (fault : SettingsFault)
  /-- A reason in words. -/
  | stated (reason : String)
deriving Repr

/-- What cannot be done with a query. -/
inductive QueryFault where
  /-- Conditions cannot be added to several SELECTs at once. -/
  | compound
  /-- A placeholder has no value. -/
  | unbound (name : String)
  /-- A reason in words. -/
  | stated (reason : String)
deriving DecidableEq, Repr

def QueryFault.message : QueryFault → String
  | compound =>
    "cannot add conditions to a compound query (UNION/INTERSECT/EXCEPT); wrap it in a sub-select"
  | unbound name => "no value bound for :" ++ name
  | stated reason => reason

/-- A failure, by its cause. -/
inductive Failure where
  | unmappedEntity (entity : String)
  | unknownField (entity field : String)
  | invalidIdentifier (fault : IdentifierFault)
  | malformedFilter (fault : FilterFault)
  /-- The query, perhaps abbreviated, has to have an ORDER BY and has none. -/
  | missingOrderBy (text : String)
  | settings (fault : SettingsFault)
  | query (fault : QueryFault)
deriving Repr

def IdentifierFault.failureMessage (fault : IdentifierFault) : String :=
  "Invalid identifier: " ++ fault.message

def SettingsFault.message : SettingsFault → String
  | escapeChar c =>
    "escape_char '" ++ String.singleton c ++ "' is not usable in an ESCAPE clause"
  | constantName fault => "boolean constant: " ++ fault.failureMessage
  | entity name fault => "entity '" ++ name ++ "': " ++ fault.failureMessage
  | unreadableFile path => "failed to read config file " ++ path
  | unfitDocument => "invalid settings document"
  | inFile path fault => path ++ ": " ++ fault.message
  | stated reason => reason

namespace Failure

def message : Failure → String
  | unmappedEntity entity => "No alias mapping for entity '" ++ entity ++ "'"
  | unknownField entity field =>
    "Unknown field '" ++ field ++ "' on entity '" ++ entity ++ "'"
  | invalidIdentifier fault => fault.failureMessage
  | malformedFilter fault => "Malformed filter expression: " ++ fault.message
  | missingOrderBy text => "Query has no ORDER BY clause: " ++ text
  | settings fault => "Configuration error: " ++ fault.message
  | query fault => "Validation error: " ++ fault.message

/-- Whether the catalog of entities lacks what was asked for. -/
def isMapping : Failure → Bool
  | unmappedEntity _ | unknownField _ _ => true
  | _ => false

/-- Whether a list of filters describes no condition. -/
def isMalformedFilter : Failure → Bool
  | malformedFilter _ => true
  | _ => false

end Failure

end QueryClauses
