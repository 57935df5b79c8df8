import ReadPlan.Text.Class

namespace ReadPlan.Expansion

inductive Piece
  | text (s : String)
  | dollar
  | reference (name : String)
  deriving DecidableEq

def isNameChar (c : Char) : Bool :=
  Text.isAlphanumeric c || c == '_'

/-- A name in braces runs to the closing brace, or to the end if there is none. -/
def pieces (s : List Char) : List Piece :=
  match s with
  | [] => []
  | '$' :: '{' :: rest =>
    .reference (String.ofList (rest.takeWhile (· != '}'))) ::
      pieces ((rest.dropWhile (· != '}')).drop 1)
  | '$' :: rest =>
    match rest.takeWhile isNameChar with
    | [] => .dollar :: pieces rest
    | name => .reference (String.ofList name) :: pieces (rest.dropWhile isNameChar)
  | c :: rest =>
    .text (String.ofList (c :: rest.takeWhile (· != '$'))) :: pieces (rest.dropWhile (· != '$'))
termination_by s.length
decreasing_by
  · have h := (List.dropWhile_sublist (l := rest) (· != '}')).length_le
    simp only [List.length_drop, List.length_cons]
    omega
  · simp only [List.length_cons]
    omega
  · have h := (List.dropWhile_sublist (l := rest) isNameChar).length_le
    simp only [List.length_cons]
    omega
  · have h := (List.dropWhile_sublist (l := rest) (· != '$')).length_le
    simp only [List.length_cons]
    omega

def Piece.expand (env : String → Option String) : Piece → Except String String
  | .text s => .ok s
  | .dollar => .ok "$"
  | .reference name =>
    match env name with
    | some value => .ok value
    | none => .error name

def Piece.name? : Piece → Option String
  | .reference name => some name
  | _ => none

def names (s : String) : List String :=
  (pieces s.toList).filterMap Piece.name?

def expand (env : String → Option String) (s : String) : Except String String := do
  return String.join (← (pieces s.toList).mapM (Piece.expand env))

end ReadPlan.Expansion
