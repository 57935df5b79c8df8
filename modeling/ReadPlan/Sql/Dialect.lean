import ReadPlan.Text.Case

namespace ReadPlan

inductive Dialect
  | postgres | mysql | duckdb
  deriving DecidableEq

namespace Dialect

def name : Dialect → String
  | postgres => "postgres"
  | mysql => "mysql"
  | duckdb => "duckdb"

def title : Dialect → String
  | postgres => "Postgres"
  | mysql => "MySql"
  | duckdb => "DuckDb"

def every : List Dialect :=
  [postgres, mysql, duckdb]

def named? (s : String) : Option Dialect :=
  every.find? (·.name == s)

/-- Reads a name or a common other name of a dialect in any case; an unknown one comes back in lower
case. -/
def ofName (s : String) : Except String Dialect :=
  match Text.lower s with
  | "postgres" | "postgresql" | "pg" => .ok postgres
  | "mysql" | "mariadb" => .ok mysql
  | "duckdb" => .ok duckdb
  | other => .error other

def doubled (q : Char) (cs : List Char) : List Char :=
  cs.flatMap fun c => if c = q then [q, q] else [c]

def identifierQuote : Dialect → Char
  | mysql => '\x60'
  | postgres | duckdb => '"'

def quoteIdentifier (d : Dialect) (name : String) : String :=
  let q := d.identifierQuote
  String.ofList (q :: doubled q name.toList ++ [q])

def escapesBackslash : Dialect → Bool
  | mysql => true
  | postgres | duckdb => false

def quoteString (d : Dialect) (s : String) : String :=
  let cs := if d.escapesBackslash then doubled '\\' s.toList else s.toList
  String.ofList ('\'' :: doubled '\'' cs ++ ['\''])

def boolText : Dialect → Bool → String
  | mysql, b => if b then "1" else "0"
  | _, b => if b then "true" else "false"

def supportsILike : Dialect → Bool
  | mysql => false
  | postgres | duckdb => true

def supportsCaseInsensitiveRegex : Dialect → Bool
  | mysql => false
  | postgres | duckdb => true

def regexIsFunction : Dialect → Bool
  | duckdb => true
  | postgres | mysql => false

def supportsArrays : Dialect → Bool
  | mysql => false
  | postgres | duckdb => true

def regexText (d : Dialect) (negated caseInsensitive : Bool) : String :=
  match d with
  | mysql => if negated then "NOT REGEXP" else "REGEXP"
  | _ => (if negated then "!~" else "~") ++ (if caseInsensitive then "*" else "")

end Dialect

end ReadPlan
