namespace ReadPlan

def chain (separator : String) : List String → String
  | [] => ""
  | [s] => s
  | s :: rest => s ++ separator ++ chain separator rest

/-- The stretches between the dots; a text without a dot is one stretch. -/
def splitDots : List Char → List (List Char)
  | [] => [[]]
  | c :: rest =>
    if c = '.' then [] :: splitDots rest
    else
      match splitDots rest with
      | [] => [[c]]
      | s :: more => (c :: s) :: more

structure Reference where
  path : List String
  field : String
  deriving DecidableEq

/-- The last stretch is the field and those before it are the path. -/
def Reference.ofString (s : String) : Reference :=
  let parts := (splitDots s.toList).map String.ofList
  ⟨parts.dropLast, parts.getLastD ""⟩

/-- The name of a joined relation: the associations that lead to it from the root. -/
def relationAlias (segments : List String) : String :=
  chain "->" segments

def dottedPath (segments : List String) : String :=
  chain "." segments

theorem splitDots_ne_nil (cs : List Char) : splitDots cs ≠ [] := by
  cases cs with
  | nil => simp [splitDots]
  | cons c rest =>
    rw [splitDots]
    split
    · simp
    · split <;> simp

end ReadPlan
