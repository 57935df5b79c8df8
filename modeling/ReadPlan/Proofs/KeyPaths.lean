import ReadPlan.Proofs.FieldConditions
import ReadPlan.Proofs.FilterReading
import ReadPlan.Proofs.JoinShape
import ReadPlan.Proofs.ReferencePositions
import ReadPlan.Proofs.UsableFields

/-!
The path to a field behind associations, cut into successive keys. Every key but the last leads on
to an entity, and the last one binds the field; the joins on the way are those of the path, however
it is cut.
-/

namespace ReadPlan

structure PlainName (name : String) : Prop where
  undotted : isDotted name = false
  combinator : Combinator.ofToken? name = none
  operator : Operator.ofToken? name = none
  unmarked : name ≠ subqueryMarker

/-- Associations that lead from a root to an entity with the field. No name on the way is both a
field and an association of the entity that it is looked up in. -/
structure Catalog.FieldPath (c : Catalog) (root : String) (names : List String) (field : String) :
    Prop where
  joined : names ≠ []
  leads : ∃ steps, c.follow root names = .ok steps ∧ field ∈ c.fieldsOf (endOf root steps)
  plain : ∀ name ∈ names ++ [field], PlainName name
  apart : ∀ before name, before ++ [name] <+: names ++ [field] → ∀ steps,
    c.follow root before = .ok steps → name ∈ c.fieldsOf (endOf root steps) →
      c.association? (endOf root steps) name = none

/-- The names of a path to a field, cut into successive keys. -/
structure Cuts (groups : List (List String)) (names : List String) (field : String) : Prop where
  whole : groups.flatten = names ++ [field]
  filled : [] ∉ groups

/-- The innermost key is the bare name of the field. -/
def endsBare (groups : List (List String)) (field : String) : Bool :=
  groups.getLast? == some [field]

/-- A condition under successive keys. -/
def spelled (condition : Json) : List (List String) → Json
  | [] => condition
  | group :: groups => .obj [(dottedPath group, spelled condition groups)]

def Condition.under (condition : Condition) : List (List String) → Condition
  | [] => condition
  | group :: groups => .nested [.field (dottedPath group) (condition.under groups)]

/-! Keys. -/

/-- A key that is neither a token nor the marker. -/
structure FieldKey (key : String) : Prop where
  combinator : Combinator.ofToken? key = none
  operator : Operator.ofToken? key = none
  unmarked : key ≠ subqueryMarker

theorem operator_of_isDotted {key : String} (dotted : isDotted key = true) :
    Operator.ofToken? key = none := by
  cases known : Operator.ofToken? key with
  | none => rfl
  | some op =>
    have kept := dot_mem_bareToken dotted
    rw [Operator.bareToken_of_ofToken? known] at kept
    revert kept
    cases op <;> decide

theorem isDotted_dottedPath {names : List String} (more : names ≠ []) (last : String) :
    isDotted (dottedPath (names ++ [last])) = true := by
  obtain ⟨name, rest, rfl⟩ := List.exists_cons_of_ne_nil more
  simp [isDotted, dottedPath_cons_toList]

theorem fieldKey_dottedPath {group : List String} (filled : group ≠ [])
    (plain : ∀ name ∈ group, PlainName name) : FieldKey (dottedPath group) := by
  obtain ⟨names, last, rfl⟩ := (List.eq_nil_or_concat' group).resolve_left filled
  by_cases bare : names = []
  · subst bare
    have here := plain last (by simp)
    exact ⟨here.combinator, here.operator, here.unmarked⟩
  · have dotted := isDotted_dottedPath bare last
    refine ⟨ofToken?_of_isDotted dotted, operator_of_isDotted dotted, ?_⟩
    intro same
    rw [same] at dotted
    revert dotted
    decide

theorem Catalog.FieldPath.fieldKeys {c : Catalog} {root : String} {names : List String}
    {field : String} (path : c.FieldPath root names field) {groups : List (List String)}
    (cuts : Cuts groups names field) : ∀ group ∈ groups, FieldKey (dottedPath group) := by
  intro group member
  apply fieldKey_dottedPath
  · rintro rfl
    exact cuts.filled member
  · intro name named
    apply path.plain
    rw [← cuts.whole]
    exact List.mem_flatten.mpr ⟨group, member, named⟩

/-! Reading. -/

theorem readCondition_key {key : String} (fieldKey : FieldKey key) (path : String) (v : Json) :
    readCondition path (.obj [(key, v)]) =
      (fun condition => .nested [.field key condition]) <$>
        readCondition (childPath path key) v := by
  have absent : Keyed.get? subqueryMarker [(key, v)] = none := by
    simp [Keyed.get?, fieldKey.unmarked]
  have filter : classify (.obj [(key, v)]) = some .filter := by
    simp [classify, isPlainOperator, isCombinator, fieldKey.operator, fieldKey.combinator]
  rw [readCondition, absent]
  simp only [filter, readTerms, fieldKey.combinator]
  cases readCondition (childPath path key) v <;> rfl

theorem readCondition_spelled {groups : List (List String)}
    (keys : ∀ group ∈ groups, FieldKey (dottedPath group)) (path path' : String) (v : Json) :
    Alike (fun whole condition => whole = condition.under groups)
      (readCondition path (spelled v groups)) (readCondition path' v) := by
  induction groups generalizing path with
  | nil => exact readCondition_alike path path' v
  | cons group groups ih =>
    obtain ⟨here, others⟩ := List.forall_mem_cons.mp keys
    rw [spelled, readCondition_key here]
    apply (ih others (childPath path (dottedPath group))).map_left
    intro whole condition related
    rw [related, Condition.under]

/-! Where the keys of a path lead. -/

/-- The first key of a path behind the names `before`, and the keys under it. Each key leads on to
an entity on the way, but for the last, which ends in the field. -/
inductive Cut (names : List String) (field : String) :
    (before group : List String) → (more : List (List String)) → Prop
  | last {before mid : List String} (ends : before ++ mid = names) :
      Cut names field before (mid ++ [field]) []
  | under {before group next : List String} {more : List (List String)} (filled : group ≠ [])
      (leads : before ++ group <+: names) (rest : Cut names field (before ++ group) next more) :
      Cut names field before group (next :: more)

section

variable {names before group : List String} {field : String} {more : List (List String)}

theorem cut_of_flatten (whole : before ++ (group :: more).flatten = names ++ [field])
    (filled : [] ∉ group :: more) : Cut names field before group more := by
  induction more generalizing before group with
  | nil =>
    rw [List.flatten_singleton] at whole
    rcases List.eq_nil_or_concat' group with rfl | ⟨mid, last, rfl⟩
    · simp at filled
    · rw [← List.append_assoc] at whole
      obtain ⟨ends, same⟩ := List.append_inj' whole rfl
      cases same
      exact .last ends
  | cons next more ih =>
    obtain ⟨here, others⟩ := List.ne_and_not_mem_of_not_mem_cons filled
    rw [List.flatten_cons, ← List.append_assoc] at whole
    refine .under (Ne.symm here) ?_ (ih whole others)
    rcases List.eq_nil_or_concat' (next :: more).flatten with none | ⟨init, last, flat⟩
    · simp_all
    · rw [flat, ← List.append_assoc] at whole
      exact ⟨init, (List.append_inj' whole rfl).1⟩

theorem Cuts.keys {groups : List (List String)} (cuts : Cuts groups names field) :
    ∃ group more, groups = group :: more ∧ Cut names field [] group more := by
  cases groups with
  | nil => simpa using cuts.whole
  | cons group more => exact ⟨group, more, rfl, cut_of_flatten cuts.whole cuts.filled⟩

theorem Cut.filled (cut : Cut names field before group more) : group ≠ [] := by
  cases cut with
  | last => simp
  | under filled => exact filled

theorem Cut.complete (cut : Cut names field before group []) :
    before ++ group = names ++ [field] := by
  cases cut with
  | last ends => simp [← List.append_assoc, ends]

theorem Cut.within (cut : Cut names field before group more) :
    before ++ group <+: names ++ [field] := by
  cases cut with
  | last ends => simp [← List.append_assoc, ends]
  | under _ leads => exact leads.trans (List.prefix_append _ _)

end

section

variable {f : Frame} {names before group : List String} {field : String}
  {more : List (List String)} {condition : Condition} {e : Entity}

theorem reach_of_follow (valid : f.catalog.Valid) (rooted : f.Rooted)
    {steps : List Association} (followed : f.catalog.follow f.root.name names = .ok steps) :
    ∃ e, f.reach names = .ok e := by
  have ends : ∃ e, f.catalog.entity? (Catalog.endOf f.root.name steps) = some e := by
    rcases List.eq_nil_or_concat' steps with rfl | ⟨init, a, rfl⟩
    · exact ⟨f.root, rooted⟩
    · have step := Catalog.mem_of_follow followed a (by simp)
      obtain ⟨target, known, -⟩ := (valid.fits a step).target
      exact ⟨target, by simpa [Catalog.endOf] using known⟩
  obtain ⟨e, known⟩ := ends
  exact ⟨e, rooted.reach_eq_ok.mpr ⟨steps, followed, known⟩⟩

namespace Catalog.FieldPath

variable (valid : f.catalog.Valid) (rooted : f.Rooted)
  (path : f.catalog.FieldPath f.root.name names field)

include path in
theorem undotted : ∀ name ∈ names ++ [field], isDotted name = false :=
  fun name named => (path.plain name named).undotted

include valid rooted path in
theorem reaches (on : before <+: names) : ∃ e, f.reach before = .ok e := by
  obtain ⟨rest, rfl⟩ := on
  obtain ⟨steps, followed, -⟩ := path.leads
  obtain ⟨first, _, begun, -, -⟩ := follow_append_eq_ok.mp followed
  exact reach_of_follow valid rooted begun

include rooted path in
theorem onward {name : String} (on : before ++ [name] <+: names)
    (reached : f.reach before = .ok e) :
    e.field? name = none ∧ (f.catalog.association? e.name name).isSome = true := by
  obtain ⟨steps, followed, known⟩ := rooted.reach_eq_ok.mp reached
  obtain ⟨whole, leads, -⟩ := path.leads
  have apart := path.apart before name (on.trans (List.prefix_append _ _)) steps followed
  obtain ⟨rest, rfl⟩ := on
  obtain ⟨_, _, begun, -, -⟩ := follow_append_eq_ok.mp leads
  obtain ⟨first, a, again, owned, -⟩ := follow_concat_eq_ok.mp begun
  cases followed.symm.trans again
  rw [name_of_entity? known, owned]
  refine ⟨?_, rfl⟩
  by_contra declared
  have mem : name ∈ f.catalog.fieldsOf (endOf f.root.name steps) :=
    mem_fieldsOf.mpr ⟨e, known, Entity.hasField_iff.mp (Option.isSome_iff_ne_none.mpr declared)⟩
  rw [owned] at apart
  cases apart mem

include rooted path in
theorem ended (reached : f.reach names = .ok e) :
    (∃ x, e.field? field = some x) ∧ f.catalog.association? e.name field = none := by
  obtain ⟨steps, followed, known⟩ := rooted.reach_eq_ok.mp reached
  obtain ⟨_, again, declared⟩ := path.leads
  cases followed.symm.trans again
  have apart := path.apart names field (List.prefix_refl _) steps followed declared
  obtain ⟨_, known', mem⟩ := mem_fieldsOf.mp declared
  cases known.symm.trans known'
  rw [name_of_entity? known]
  exact ⟨Option.isSome_iff_exists.mp (Entity.hasField_iff.mpr mem), apart⟩

include path in
theorem undotted_key (on : before ++ group <+: names ++ [field]) :
    ∀ name ∈ group, isDotted name = false := by
  intro name named
  exact path.undotted name (on.subset (List.mem_append_right _ named))

include valid rooted path in
theorem locate_onward (filled : group ≠ []) (on : before ++ group <+: names)
    (reached : f.reach before = .ok e) :
    f.locate ⟨e, before⟩ (dottedPath group) true = .ok (.association (before ++ group)) := by
  have plain := path.undotted_key (on.trans (List.prefix_append _ _))
  obtain ⟨mid, last, rfl⟩ := (List.eq_nil_or_concat' group).resolve_left filled
  by_cases bare : mid = []
  · subst bare
    obtain ⟨undeclared, owned⟩ := path.onward rooted on reached
    simp [Frame.locate, dottedPath, chain, plain, undeclared, owned]
  · rw [← List.append_assoc] at on
    obtain ⟨owner, further⟩ := path.reaches valid rooted ((List.prefix_append _ _).trans on)
    obtain ⟨-, owned⟩ := path.onward rooted on further
    simp [Frame.locate, isDotted_dottedPath bare, Reference.ofString_dottedPath plain, further,
      owned, ok_bind, pure, Except.pure]

/-- The place and the recorded name of the field, under its last key. -/
def lastPlace (names mid : List String) (field : String) (x : Field) : Place :=
  if mid = [] then .own x else .joined names field

include rooted path in
theorem binds_last {mid : List String} {target : Entity} {x : Field} (ends : before ++ mid = names)
    (here : f.reach before = .ok e) (there : f.reach names = .ok target)
    (declared : target.field? field = some x) :
    ∃ name, f.Binds ⟨e, before⟩ (dottedPath (mid ++ [field])) (lastPlace names mid field x)
      ⟨⟨name, ⟨f.relation names, x.column⟩⟩, some (f.relation names)⟩ := by
  have plain : ∀ name ∈ mid ++ [field], isDotted name = false := by
    have on : before ++ (mid ++ [field]) <+: names ++ [field] := by
      simp [← List.append_assoc, ends]
    exact path.undotted_key on
  have joined : names ≠ [] := path.joined
  by_cases bare : mid = []
  · subst bare
    rw [List.append_nil] at ends
    subst ends
    cases here.symm.trans there
    refine ⟨Frame.ownName ⟨e, before⟩ field, ?_, ?_, ?_⟩
    · intro nested
      simp [Frame.locate, dottedPath, chain, plain, declared, lastPlace]
    · simp [lastPlace]
    · simp [lastPlace, Frame.bindPlace, dottedPath, chain, joined]
  · obtain ⟨-, unowned⟩ := path.ended rooted there
    refine ⟨dottedPath (mid ++ [field]), ?_, ?_, ?_⟩
    · intro nested
      simp [Frame.locate, isDotted_dottedPath bare, Reference.ofString_dottedPath plain, ends,
        there, unowned, ok_bind, pure, Except.pure, lastPlace, bare]
    · simp [lastPlace, bare]
    · have bound (name : String) : f.bindField names field name =
          .ok ⟨name, ⟨f.relation names, x.column⟩⟩ :=
        bindField_eq_ok.mpr ⟨target, x, there, declared, rfl⟩
      simp [lastPlace, bare, Frame.bindPlace, bound, ok_bind, pure, Except.pure]

include valid rooted path in
theorem compile_cut (cut : Cut names field before group more) {target : Entity} {x : Field}
    (here : f.reach before = .ok e) (there : f.reach names = .ok target)
    (declared : target.field? field = some x) (unmarked : ∀ sql, condition ≠ .subquery sql) :
    ∃ key name, (condition.under more).compile f ⟨e, before⟩ (dottedPath group) =
      f.condition key ⟨⟨name, ⟨f.relation names, x.column⟩⟩, some (f.relation names)⟩
        condition := by
  induction cut generalizing e with
  | last ends =>
    obtain ⟨name, binds⟩ := path.binds_last rooted ends here there declared
    exact ⟨_, name, binds.compile unmarked⟩
  | under filled leads rest ih =>
    obtain ⟨next, reached⟩ := path.reaches valid rooted leads
    obtain ⟨key, name, inner⟩ := ih reached
    have located := path.locate_onward valid rooted filled leads here
    refine ⟨key, name, ?_⟩
    rw [← Frame.condition_all condition, ← inner]
    simp only [Condition.under, Condition.compile, located, ok_bind, reached, compileTerms,
      Term.compile, bind_assoc, pure_bind, List.append_nil]

end Catalog.FieldPath

end

/-! What the keys of a path demand. -/

def Catalog.PlainFields (c : Catalog) : Prop :=
  ∀ e ∈ c.entities, ∀ field ∈ e.fieldNames, isDotted field = false

/-- The fields that demands return at the end of a chain of names. -/
def returnedAt (trail : List String) (demands : List Demand) : List String :=
  demands.flatMap fun d => if d.registration.names = trail then d.fields else []

section

variable {f : Frame} {names before group : List String} {field : String}
  {more : List (List String)} {condition : Condition} {e : Entity}

/-- What is demanded from behind the names `before` to the end of a path. It leaves the joins of the
whole path, and a field is returned only at its end, when the last of the keys is bare. -/
structure Frame.Passes (f : Frame) (names : List String) (field : String)
    (before : List String) (more : List (List String)) (passes : List Demand) : Prop where
  grafts : ∀ options first steps, f.catalog.follow f.root.name before = .ok first →
    f.catalog.follow f.root.name names = .ok steps →
      (passes.map (·.steps)).foldl
        (fun forest steps => JoinForest.graft options f.root.name [] steps forest)
        (JoinForest.graft options f.root.name [] first []) =
          JoinForest.graft options f.root.name [] steps []
  ends : before = names ∨ ∃ d ∈ passes, d.registration.names = names
  returns : f.catalog.PlainFields → ∀ trail, returnedAt trail passes =
    if trail = names ∧ more.getLast? = some [field] then [field] else []

theorem hasField_dotted (plain : f.catalog.PlainFields) (rooted : f.Rooted)
    (reached : f.reach before = .ok e) {key : String} (dotted : isDotted key = true) :
    e.hasField key = false := by
  obtain ⟨steps, -, known⟩ := rooted.reach_eq_ok.mp reached
  by_contra declared
  have named := Entity.hasField_iff.mp (Bool.of_not_eq_false declared)
  rw [plain e (List.mem_of_find?_eq_some known) key named] at dotted
  cases dotted

namespace Catalog.FieldPath

variable (valid : f.catalog.Valid) (rooted : f.Rooted)
  (path : f.catalog.FieldPath f.root.name names field)

include rooted path in
theorem hasField_key (plain : f.catalog.PlainFields) (cut : Cut names field before group more)
    (reached : f.reach before = .ok e) :
    e.hasField (dottedPath group) = true ↔ more = [] ∧ group = [field] := by
  have dotted {mid : List String} {last : String} (longer : mid ≠ []) :
      e.hasField (dottedPath (mid ++ [last])) = false :=
    hasField_dotted plain rooted reached (isDotted_dottedPath longer last)
  cases cut with
  | @last _ mid ends =>
    by_cases bare : mid = []
    · subst bare
      rw [List.append_nil] at ends
      subst ends
      obtain ⟨⟨x, declared⟩, -⟩ := path.ended rooted reached
      simp [Entity.hasField, dottedPath, chain, declared]
    · simp [dotted bare, bare]
  | under filled leads rest =>
    obtain ⟨mid, last, rfl⟩ := (List.eq_nil_or_concat' group).resolve_left filled
    by_cases bare : mid = []
    · subst bare
      obtain ⟨undeclared, -⟩ := path.onward rooted leads reached
      simp [Entity.hasField, dottedPath, chain, undeclared]
    · simp [dotted bare]

omit path rooted valid in
theorem graft_onward (options : JoinOptions) (root : String) {first steps : List Association}
    (begun : f.catalog.follow f.root.name before = .ok first)
    (followed : f.catalog.follow f.root.name (before ++ group) = .ok steps) :
    JoinForest.graft options root [] steps (JoinForest.graft options root [] first []) =
      JoinForest.graft options root [] steps [] := by
  obtain ⟨again, rest, leads, -, rfl⟩ := follow_append_eq_ok.mp followed
  cases begun.symm.trans leads
  exact JoinForest.graft_further options root [] first rest

omit path rooted valid in
theorem passes_last {mid : List String} (ends : before ++ mid = names) {steps : List Association}
    (followed : f.catalog.follow f.root.name names = .ok steps) (x : Field) :
    f.Passes names field before [] (f.demandPlace (lastPlace names mid field x)) := by
  constructor
  case grafts =>
    intro options first whole begun complete
    cases followed.symm.trans complete
    by_cases bare : mid = []
    · subst bare
      rw [List.append_nil] at ends
      subst ends
      cases begun.symm.trans followed
      rfl
    · have joined : names ≠ [] := by
        rintro rfl
        exact bare (List.append_eq_nil_iff.mp ends).2
      have onward := graft_onward options f.root.name begun
        (ends ▸ followed)
      simpa [lastPlace, bare, Frame.demandPlace, demandPath_of_follow followed, joined] using onward
  case ends =>
    by_cases bare : mid = []
    · subst bare
      exact .inl (by simpa using ends)
    · have joined : names ≠ [] := by
        rintro rfl
        exact bare (List.append_eq_nil_iff.mp ends).2
      refine .inr ⟨⟨steps, []⟩, ?_, names_of_follow followed⟩
      rw [lastPlace, if_neg bare]
      exact Frame.mem_demandPath.mpr ⟨joined, followed, rfl⟩
  case returns =>
    intro _ trail
    have nothing : ∀ d ∈ f.demandPlace (lastPlace names mid field x), d.fields = [] := by
      intro d hd
      by_cases bare : mid = []
      · simp [lastPlace, bare, Frame.demandPlace] at hd
      · rw [lastPlace, if_neg bare] at hd
        exact (Frame.mem_demandPath.mp hd).2.2
    simpa [returnedAt] using fun d hd _ => nothing d hd

include rooted path in
theorem passes_under (condition : Condition) {next : List String} {passes : List Demand}
    {steps : List Association} (rest : Cut names field (before ++ group) next more)
    (h : f.Passes names field (before ++ group) more passes)
    (followed : f.catalog.follow f.root.name (before ++ group) = .ok steps)
    (reached : f.reach (before ++ group) = .ok e) :
    f.Passes names field before (next :: more)
      (⟨steps, namedFields e [.field (dottedPath next) (condition.under more)]⟩ :: passes) := by
  constructor
  case grafts =>
    intro options first whole begun complete
    rw [List.map_cons, List.foldl_cons, graft_onward options f.root.name begun followed]
    exact h.grafts options steps whole followed complete
  case ends =>
    rcases h.ends with whole | ⟨d, hd, complete⟩
    · exact .inr ⟨_, List.mem_cons_self, (names_of_follow followed).trans whole⟩
    · exact .inr ⟨d, List.mem_cons_of_mem _ hd, complete⟩
  case returns =>
    intro plain trail
    have named := path.hasField_key rooted plain rest reached
    have here : returnedAt trail (⟨steps,
        namedFields e [.field (dottedPath next) (condition.under more)]⟩ :: passes) =
      (if before ++ group = trail then
        if e.hasField (dottedPath next) then [dottedPath next] else [] else []) ++
          returnedAt trail passes := by
      simp only [returnedAt, List.flatMap_cons, Demand.registration, names_of_follow followed]
      congr 2
      simp only [namedFields, List.filterMap_cons, List.filterMap_nil]
      split <;> simp_all
    rw [here, h.returns plain]
    by_cases bare : more = [] ∧ next = [field]
    · obtain ⟨rfl, rfl⟩ := bare
      obtain ⟨ends, -⟩ := List.append_inj' rest.complete rfl
      have declared : e.hasField field = true := named.mpr ⟨rfl, rfl⟩
      by_cases whole : trail = names
      · simp [declared, ends, whole, dottedPath, chain]
      · simp [ends, whole, Ne.symm whole]
    · have unnamed : e.hasField (dottedPath next) = false :=
        Bool.eq_false_iff.mpr fun declared => bare (named.mp declared)
      cases more with
      | nil => simp [unnamed, show next ≠ [field] by simpa using bare]
      | cons => simp [unnamed, List.getLast?_cons_cons]

include valid rooted path in
theorem demands_cut (cut : Cut names field before group more) {target : Entity} {x : Field}
    (here : f.reach before = .ok e) (there : f.reach names = .ok target)
    (declared : target.field? field = some x) (unmarked : ∀ sql, condition ≠ .subquery sql)
    (unbare : ∀ v, condition ≠ .scalar v) :
    ∃ passes, f.Passes names field before more passes ∧
      (condition.under more).demands f ⟨e, before⟩ (dottedPath group) =
        passes ++ condition.references.flatMap f.demand := by
  induction cut generalizing e with
  | last ends =>
    obtain ⟨name, binds⟩ := path.binds_last rooted ends here there declared
    obtain ⟨steps, followed, -⟩ := rooted.reach_eq_ok.mp there
    exact ⟨_, passes_last ends followed x, binds.demands unmarked unbare⟩
  | @under before group next more filled leads rest ih =>
    obtain ⟨e', reached⟩ := path.reaches valid rooted leads
    obtain ⟨passes, h, inner⟩ := ih reached
    have located := path.locate_onward valid rooted filled leads here
    obtain ⟨steps, followed, -⟩ := rooted.reach_eq_ok.mp reached
    refine ⟨_, path.passes_under rooted condition rest h followed reached, ?_⟩
    have joined : before ++ group ≠ [] := by simp [filled]
    simp only [Condition.under, Condition.demands, located, reached, termDemands, Term.demands,
      inner, demandPath_of_follow followed, List.isEmpty_eq_false_iff.mpr joined, List.append_nil]
    simp

end Catalog.FieldPath

end
end ReadPlan
