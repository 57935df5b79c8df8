import ReadPlan.Binding

namespace ReadPlan

inductive JoinCall
  | ensure (segments : List String)
  | project (segments : List String) (field : String)
  | resolve (reference : String)
  deriving DecidableEq

namespace Frame

def ensure (f : Frame) (options : JoinOptions) (segments fields : List String)
    (forest : JoinForest) : Except QueryError JoinForest := do
  return forest.meet options f.root.name ⟨← f.steps segments, fields⟩

/-- The relation that the field of a reference is on; none for a field of the root. -/
def joinOf (f : Frame) (reference : String) : Option String :=
  let path := (Reference.ofString reference).path
  if path.isEmpty then none else some (f.relation path)

def register (f : Frame) (options : JoinOptions) (reference : String) (forest : JoinForest) :
    JoinForest :=
  (f.demand reference).foldl (JoinForest.meet options f.root.name) forest

def answer (f : Frame) (options : JoinOptions) (forest : JoinForest) : JoinCall → JoinForest
  | .ensure segments => (f.ensure options segments [] forest).toOption.getD forest
  | .project segments field => (f.ensure options segments [field] forest).toOption.getD forest
  | .resolve reference => f.register options reference forest

def answerAll (f : Frame) (options : JoinOptions) (calls : List JoinCall) : JoinForest :=
  calls.foldl (f.answer options) []

end Frame

end ReadPlan
