import ReadPlan.Json.Basic
import ReadPlan.Number.Shortest

namespace ReadPlan.Json

/-- A whole float keeps its point, and a large exponent its plus sign. -/
def numberLayout : NumberLayout := ⟨"+"⟩

def hexDigit (n : Nat) : Char :=
  (Nat.toDigits 16 (n % 16)).headD '0'

def escape (c : Char) : List Char :=
  match c with
  | '"' => ['\\', '"']
  | '\\' => ['\\', '\\']
  | '\x08' => ['\\', 'b']
  | '\x0c' => ['\\', 'f']
  | '\n' => ['\\', 'n']
  | '\r' => ['\\', 'r']
  | '\t' => ['\\', 't']
  | c =>
    if c.toNat < 32 then ['\\', 'u', '0', '0', hexDigit (c.toNat / 16), hexDigit c.toNat]
    else [c]

def stringText (s : String) : String :=
  String.ofList ('"' :: s.toList.flatMap escape ++ ['"'])

def scalarText : Json → String
  | .null => "null"
  | .bool b => if b then "true" else "false"
  | .int n => toString n
  | .float x => x.text numberLayout
  | .str s => stringText s
  | .arr _ | .obj _ => ""

mutual

def compact : Json → String
  | .arr items => "[" ++ compactItems items ++ "]"
  | .obj ms => "\x7b" ++ compactMembers ms ++ "\x7d"
  | v => v.scalarText

def compactItems : List Json → String
  | [] => ""
  | [v] => v.compact
  | v :: rest => v.compact ++ "," ++ compactItems rest

def compactMembers : List (String × Json) → String
  | [] => ""
  | [(k, v)] => stringText k ++ ":" ++ v.compact
  | (k, v) :: rest => stringText k ++ ":" ++ v.compact ++ "," ++ compactMembers rest

end

private def newline (level : Nat) : String :=
  "\n" ++ String.ofList (List.replicate (2 * level) ' ')

mutual

def indented (level : Nat) : Json → String
  | .arr [] => "[]"
  | .arr items => "[" ++ indentedItems (level + 1) items ++ newline level ++ "]"
  | .obj [] => "\x7b\x7d"
  | .obj ms => "\x7b" ++ indentedMembers (level + 1) ms ++ newline level ++ "\x7d"
  | v => v.scalarText

def indentedItems (level : Nat) : List Json → String
  | [] => ""
  | [v] => newline level ++ v.indented level
  | v :: rest => newline level ++ v.indented level ++ "," ++ indentedItems level rest

def indentedMembers (level : Nat) : List (String × Json) → String
  | [] => ""
  | [(k, v)] => newline level ++ stringText k ++ ": " ++ v.indented level
  | (k, v) :: rest =>
    newline level ++ stringText k ++ ": " ++ v.indented level ++ "," ++ indentedMembers level rest

end

def pretty (v : Json) : String :=
  v.indented 0

end ReadPlan.Json
