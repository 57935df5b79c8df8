import ReadPlan.Sql.Dialect
import ReadPlan.Number.Shortest

namespace ReadPlan.Sql

inductive Keyword
  | select | from | where | and | or | not | as | on | join | inner | left | outer
  | groupBy | having | orderBy | asc | desc | limit | offset
  | in | between | like | iLike | is | isNull | isNotNull | exists | any | all | array | distinct
  | null | true | false
  deriving DecidableEq

def Keyword.text : Keyword → String
  | .select => "SELECT"
  | .from => "FROM"
  | .where => "WHERE"
  | .and => "AND"
  | .or => "OR"
  | .not => "NOT"
  | .as => "AS"
  | .on => "ON"
  | .join => "JOIN"
  | .inner => "INNER"
  | .left => "LEFT"
  | .outer => "OUTER"
  | .groupBy => "GROUP BY"
  | .having => "HAVING"
  | .orderBy => "ORDER BY"
  | .asc => "ASC"
  | .desc => "DESC"
  | .limit => "LIMIT"
  | .offset => "OFFSET"
  | .in => "IN"
  | .between => "BETWEEN"
  | .like => "LIKE"
  | .iLike => "ILIKE"
  | .is => "IS"
  | .isNull => "IS NULL"
  | .isNotNull => "IS NOT NULL"
  | .exists => "EXISTS"
  | .any => "ANY"
  | .all => "ALL"
  | .array => "ARRAY"
  | .distinct => "DISTINCT"
  | .null => "NULL"
  | .true => "TRUE"
  | .false => "FALSE"

inductive Symbol
  | comma | dot | star | openParen | closeParen | openBracket | closeBracket
  | eq | ne | lt | gt | lte | gte | overlap | contains | containedBy
  deriving DecidableEq

def Symbol.text : Symbol → String
  | comma => ","
  | dot => "."
  | star => "*"
  | openParen => "("
  | closeParen => ")"
  | openBracket => "["
  | closeBracket => "]"
  | eq => "="
  | ne => "<>"
  | lt => "<"
  | gt => ">"
  | lte => "<="
  | gte => ">="
  | overlap => "&&"
  | contains => "@>"
  | containedBy => "<@"

inductive Token
  | keyword (word : Keyword)
  | symbol (symbol : Symbol)
  | regexMatch (negated caseInsensitive : Bool)
  | space
  | newline
  | indent (level : Nat)
  | ident (name : String)
  | qualifiedIdent (schema : Option String) (name : String)
  | int (n : Int)
  | float (x : Binary64)
  | string (s : String)
  | bool (b : Bool)
  | functionName (name : String)
  | raw (sql : String)
  deriving DecidableEq

/-- A large exponent has no plus sign, and a whole float keeps its point. -/
def floatLayout : NumberLayout := ⟨""⟩

def Token.text (d : Dialect) : Token → String
  | .keyword w => w.text
  | .symbol s => s.text
  | .regexMatch negated caseInsensitive => d.regexText negated caseInsensitive
  | .space => " "
  | .newline => "\n"
  | .indent level => String.ofList (List.replicate (2 * level) ' ')
  | .ident name => d.quoteIdentifier name
  | .qualifiedIdent none name => d.quoteIdentifier name
  | .qualifiedIdent (some schema) name => d.quoteIdentifier schema ++ "." ++ d.quoteIdentifier name
  | .int n => toString n
  | .float x => x.text floatLayout
  | .string s => d.quoteString s
  | .bool b => d.boolText b
  | .functionName name => Text.upper name
  | .raw sql => sql

inductive FloatFault
  | notANumber | infinite
  deriving DecidableEq

def FloatFault.message : FloatFault → String
  | notANumber => "Cannot serialize NaN to SQL"
  | infinite => "Cannot serialize Infinity to SQL"

def Token.fault? : Token → Option FloatFault
  | .float .nan => some .notANumber
  | .float (.infinite _) => some .infinite
  | _ => none

def tokensText (d : Dialect) (tokens : List Token) : String :=
  String.join (tokens.map (Token.text d))

/-- The text of a token list, refused at its first float that is not finite. -/
def write (d : Dialect) (tokens : List Token) : Except FloatFault String :=
  match tokens.findSome? Token.fault? with
  | some fault => .error fault
  | none => .ok (tokensText d tokens)

end ReadPlan.Sql
