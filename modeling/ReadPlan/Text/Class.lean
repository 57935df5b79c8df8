import ReadPlan.Text.Case
import ReadPlan.Text.ClassTable

namespace ReadPlan.Text

def isAlphanumeric (c : Char) : Bool :=
  if c.toNat < 128 then c.isAlphanum else inRanges alphanumericRanges c

def isLegible (c : Char) : Bool :=
  if c.toNat < 127 then 32 ≤ c.toNat else !inRanges escapedRanges c

/-- Letters, digits and underscores of ASCII, with no digit in front: names that need no quotes. -/
def isPlainName (s : String) : Bool :=
  match s.toList with
  | [] => false
  | c :: rest => (c.isAlpha || c == '_') && rest.all fun d => d.isAlphanum || d == '_'

end ReadPlan.Text
