import ReadPlan.Text.CaseTable

namespace ReadPlan.Text

def inRanges (ranges : Array (Nat × Nat)) (c : Char) : Bool :=
  ranges.any fun (low, high) => low ≤ c.toNat && c.toNat ≤ high

def Run.image? (c : Nat) (run : Run) : Option Nat :=
  if run.first ≤ c ∧ c ≤ run.last ∧ (c - run.first) % run.step = 0 then
    some ((c : Int) + run.shift).toNat
  else
    none

private def mapped (runs : Array Run) (c : Char) : Char :=
  match runs.findSome? (Run.image? c.toNat) with
  | some image => Char.ofNat image
  | none => c

def upperChar (c : Char) : List Char :=
  if c.toNat < 128 then
    [c.toUpper]
  else
    match upperExpansions.find? (·.1 == c.toNat) with
    | some (_, image) => image.map Char.ofNat
    | none => [mapped upperRuns c]

def upper (s : String) : String :=
  String.ofList (s.toList.flatMap upperChar)

def lowerChar (c : Char) : List Char :=
  if c.toNat < 128 then
    [c.toLower]
  else if c.toNat = 0x130 then
    ['i', Char.ofNat 0x307]
  else
    [mapped lowerRuns c]

def isCased (c : Char) : Bool :=
  if c.toNat < 128 then c.isAlpha else inRanges casedRanges c

def isCaseIgnorable (c : Char) : Bool :=
  if c.toNat < 128 then c == '\'' || c == '.' || c == ':' || c == '^' || c == '\x60'
  else inRanges caseIgnorableRanges c

def startsCased (cs : List Char) : Bool :=
  match cs.dropWhile isCaseIgnorable with
  | [] => false
  | c :: _ => isCased c

/-- `inWord` says whether the last letter that counts before the text was cased. -/
def lowerChars (inWord : Bool) : List Char → List Char
  | [] => []
  | c :: rest =>
    let here :=
      if c.toNat = 0x3a3 then
        if inWord && !startsCased rest then [Char.ofNat 0x3c2] else [Char.ofNat 0x3c3]
      else
        lowerChar c
    here ++ lowerChars (if isCaseIgnorable c then inWord else isCased c) rest

def lower (s : String) : String :=
  String.ofList (lowerChars false s.toList)

theorem upperChar_ascii {c : Char} (h : c.toNat < 128) : upperChar c = [c.toUpper] := by
  simp [upperChar, h]

end ReadPlan.Text
