import ReadPlan.Sql.Dialect

/-!
The lexical rules of the dialects, as an automaton that reads a text character by character. It is
careful: it has no lexemes for a text with comments, with prefixed or dollar-quoted strings, with
parameters, with operators that no statement here uses or with anything beyond ASCII outside quotes.
Where it has lexemes, they are the ones that the dialect itself finds; strings with only blanks
between them are left apart.
-/

namespace ReadPlan.Sql

/-- A piece of a statement. Names and strings are held without their quotes and escapes. -/
inductive Lexeme
  | word (text : String)
  | name (text : String)
  | string (text : String)
  | number (text : String)
  | symbol (text : String)
  deriving DecidableEq

namespace Lexer

def blanks : List Char :=
  [' ', '\n', '\t', '\r', '\x0b', '\x0c']

def punctuation : List Char :=
  [',', '(', ')', '[', ']']

def isWordChar (c : Char) : Bool :=
  c.isAlphanum || c == '_'

def operatorChars : List Char :=
  ['+', '-', '*', '/', '<', '>', '=', '~', '!', '@', '%', '^', '&', '|']

/-- A longest run of operator characters has to be one of these, so one that starts a comment is
refused. -/
def operators : List String :=
  ["=", "<>", "<", ">", "<=", ">=", "*", "&&", "@>", "<@", "~", "!~", "~*", "!~*"]

def isNameQuote (d : Dialect) (c : Char) : Bool :=
  c == d.identifierQuote

/-- One dialect reads texts between double quotes as strings too. -/
def isStringQuote (d : Dialect) (c : Char) : Bool :=
  match d with
  | .mysql => c == '\'' || c == '"'
  | .postgres | .duckdb => c == '\''

def isQuote (d : Dialect) (c : Char) : Bool :=
  isNameQuote d c || isStringQuote d c

/-- What a character stands for after a backslash. Before a wildcard the backslash stays. -/
def unescaped : Char → List Char
  | '0' => ['\x00']
  | 'b' => ['\x08']
  | 'n' => ['\n']
  | 'r' => ['\r']
  | 't' => ['\t']
  | 'Z' => ['\x1a']
  | '%' => ['\\', '%']
  | '_' => ['\\', '_']
  | c => [c]

inductive Phase
  | start | sign | whole | point | fraction | exponent | exponentSign | power
  deriving DecidableEq

namespace Phase

def next? (phase : Phase) (c : Char) : Option Phase :=
  match phase with
  | start => if c.isDigit then some whole else if c == '-' then some sign else none
  | sign => if c.isDigit then some whole else none
  | whole =>
    if c.isDigit then some whole
    else if c == '.' then some point
    else if c == 'e' || c == 'E' then some exponent
    else none
  | point => if c.isDigit then some fraction else none
  | fraction =>
    if c.isDigit then some fraction else if c == 'e' || c == 'E' then some exponent else none
  | exponent =>
    if c.isDigit then some power else if c == '-' || c == '+' then some exponentSign else none
  | exponentSign | power => if c.isDigit then some power else none

def isLast : Phase → Bool
  | whole | fraction | power => true
  | _ => false

end Phase

inductive Mode
  | between
  | word (read : List Char)
  | number (phase : Phase) (read : List Char)
  | point
  | operator (read : List Char)
  | quoted (quote : Char) (read : List Char)
  | escape (quote : Char) (read : List Char)
  | closing (quote : Char) (read : List Char)
  deriving DecidableEq

def Mode.finish? (d : Dialect) : Mode → Option (List Lexeme)
  | between => some []
  | word read => some [.word (String.ofList read)]
  | number phase read => if phase.isLast then some [.number (String.ofList read)] else none
  | point => some [.symbol "."]
  | operator read =>
    if operators.contains (String.ofList read) then some [.symbol (String.ofList read)] else none
  | closing quote read =>
    if isNameQuote d quote then some [.name (String.ofList read)]
    else if isStringQuote d quote then some [.string (String.ofList read)]
    else none
  | quoted .. | escape .. => none

def begin? (d : Dialect) (c : Char) : Option (List Lexeme × Mode) :=
  match Phase.start.next? c with
  | some phase => some ([], .number phase [c])
  | none =>
    if blanks.contains c then some ([], .between)
    else if punctuation.contains c then some ([.symbol (String.singleton c)], .between)
    else if c == '.' then some ([], .point)
    else if isWordChar c then some ([], .word [c])
    else if operatorChars.contains c then some ([], .operator [c])
    else if isQuote d c then some ([], .quoted c [])
    else none

def Mode.leave? (d : Dialect) (m : Mode) (c : Char) : Option (List Lexeme × Mode) := do
  let done ← m.finish? d
  let (more, next) ← begin? d c
  return (done ++ more, next)

/-- A word is not directly followed by a quote, nor a number by a word or a point. -/
def Mode.follow? (d : Dialect) (m : Mode) (c : Char) : Option (List Lexeme × Mode) :=
  match m with
  | between => begin? d c
  | word read =>
    if isWordChar c then some ([], word (read ++ [c]))
    else if isQuote d c then none
    else m.leave? d c
  | number phase read =>
    match phase.next? c with
    | some next => some ([], number next (read ++ [c]))
    | none => if isWordChar c || c == '.' then none else m.leave? d c
  | point => if c.isDigit then none else m.leave? d c
  | operator read =>
    if operatorChars.contains c then some ([], operator (read ++ [c])) else m.leave? d c
  | quoted quote read =>
    if c == quote then some ([], closing quote read)
    else if c == '\\' && d.escapesBackslash && isStringQuote d quote then
      some ([], escape quote read)
    else some ([], quoted quote (read ++ [c]))
  | escape quote read => some ([], quoted quote (read ++ unescaped c))
  | closing quote read =>
    if c == quote then some ([], quoted quote (read ++ [c])) else m.leave? d c

def scan (d : Dialect) : Mode → List Char → Option (List Lexeme)
  | m, [] => m.finish? d
  | m, c :: rest => do
    let (done, next) ← m.follow? d c
    (done ++ ·) <$> scan d next rest

end Lexer

def lex (d : Dialect) (text : String) : Option (List Lexeme) :=
  Lexer.scan d .between text.toList

end ReadPlan.Sql
