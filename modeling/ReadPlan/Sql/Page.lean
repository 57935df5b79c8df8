import ReadPlan.Page
import ReadPlan.Sql.Token

namespace ReadPlan.Sql

/-- Row counts in a clause are signed integers of 64 bits; a larger one stands for the largest. -/
def rowCount (n : Nat) : Int :=
  min n (0x8000000000000000 - 1)

def allRows : String := "18446744073709551615"

def limitTokens (n : Nat) : List Token :=
  [.keyword .limit, .space, .int (rowCount n)]

def offsetTokens (n : Nat) : List Token :=
  [.keyword .offset, .space, .int (rowCount n)]

def pageTokens (d : Dialect) (p : Page) : List Token :=
  match p.limit, p.offset with
  | none, none => []
  | some n, none => limitTokens n
  | some n, some k => limitTokens n ++ .space :: offsetTokens k
  | none, some k =>
    match d with
    | .mysql => [.keyword .limit, .space, .raw allRows, .space] ++ offsetTokens k
    | _ => offsetTokens k

end ReadPlan.Sql
