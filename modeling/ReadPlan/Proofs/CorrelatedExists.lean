import ReadPlan.Proofs.PartnerRows
import ReadPlan.Proofs.StatementScope

/-!
Which rows around it a query under `EXISTS` sees. A relation that the query introduces hides the
relation of the same name outside, and then its rows make no difference. Such a query is given names
without a path, so it can hide the root of a statement and the first joins, and nothing below them.
-/

namespace ReadPlan

namespace Sql

section

variable {V : Type} {db : Database V} {rows all : Combination V} {name : String}

theorem Joined.outside {joins : List Join} (joined : Joined db joins rows all)
    (other : name ∉ joins.map (·.table.alias)) : all name = rows name := by
  induction joins generalizing rows with
  | nil =>
    have same : all = rows := joined
    rw [same]
  | cons join rest ih =>
    obtain ⟨apart, others⟩ := not_or.mp (mt List.mem_cons.mpr other)
    rcases joined with ⟨row, -, -, joined⟩ | ⟨-, -, joined⟩
    · have below := ih joined others
      exact below.trans (bind_other rows apart _)
    · have below := ih joined others
      exact below.trans (bind_other rows apart _)

theorem Expr.value_congr {other : Combination V} : {e : Expr} →
    (∀ m ∈ e.mentions, m.Names fun table _ => rows table = other table) →
      e.value rows = e.value other
  | .column (some table) key, same => by
    have here : rows table = other table := same _ (List.mem_singleton.mpr rfl)
    rw [Expr.value, Expr.value, here]
  | .column none _, _ | .star _, _ | .exists _, _ | .literal _, _ | .raw _, _ | .array _, _
  | .binary .., _ | .not _, _ | .isNull .., _ | .paren _, _ | .call .., _ | .inList .., _
  | .between .., _ | .is .., _ | .quantified .., _ => rfl

theorem Expr.holds_congr {other : Combination V} {e : Expr}
    (same : ∀ m ∈ e.mentions, m.Names fun table _ => rows table = other table) :
    e.Holds rows ↔ e.Holds other := by
  unfold Expr.Holds
  split
  · rename_i left right
    rw [Expr.mentions, List.forall_mem_append] at same
    rw [Expr.value_congr same.1, Expr.value_congr same.2]
  · rfl

theorem bind_update_same (t : TableRef) (row other : Option (Row V)) :
    Combination.bind (Function.update rows t.alias other) t row = rows.bind t row :=
  Function.update_idem ..

theorem bind_update_other {t : TableRef} (apart : name ≠ t.alias) (row other : Option (Row V)) :
    Combination.bind (Function.update rows name other) t row =
      Function.update (rows.bind t row) name other :=
  Function.update_comm apart ..

/-- The row that a name stood for is gone once a join takes the name, and no condition of the joins
before looks at it. -/
theorem joined_hidden {known : List String} {joins : List Join} (ordered : joinsScoped known joins)
    (fresh : name ∉ known) (hides : name ∈ joins.map (·.table.alias)) (other : Option (Row V)) :
    Joined db joins (Function.update rows name other) all ↔ Joined db joins rows all := by
  induction joins generalizing known rows with
  | nil => cases hides
  | cons join rest ih =>
    by_cases here : name = join.table.alias
    · subst here
      simp only [Joined, bind_update_same]
    · have later : name ∈ rest.map (·.table.alias) := (List.mem_cons.mp hides).resolve_left here
      have unknown : name ∉ join.table.alias :: known := by
        rw [List.mem_cons]
        exact not_or.mpr ⟨here, fresh⟩
      have condition (row : Option (Row V)) :
          join.on.Holds (Function.update (rows.bind join.table row) name other) ↔
            join.on.Holds (rows.bind join.table row) := by
        refine Expr.holds_congr fun m hm => (ordered.1 m hm).imp fun table _ bound => ?_
        have apart : table ≠ name := by
          rintro rfl
          exact unknown bound
        exact Function.update_of_ne apart ..
      simp only [Joined, bind_update_other here, condition, ih ordered.2 unknown later]

end

namespace Query

/-- In every combination of rows that the query keeps, the name stands for its row outside. -/
def Sees (q : Query) (name : String) : Prop :=
  ∀ {V : Type} (db : Database V) (outer all : Combination V),
    q.Keeps db outer all → all name = outer name

/-- Whatever row the name stands for outside, the query keeps the same combinations. -/
def Ignores (q : Query) (name : String) : Prop :=
  ∀ {V : Type} (db : Database V) (outer all : Combination V) (row : Option (Row V)),
    q.Keeps db (Function.update outer name row) all ↔ q.Keeps db outer all

def Ordered (q : Query) : Prop :=
  ∀ t ∈ q.source, joinsScoped [t.alias] q.joins

/-- The condition of the query equates a column of the relation `outer` with one of its own. -/
def Ties (q : Query) (outer : String) : Prop :=
  ∃ column inner key, inner ∈ q.aliases ∧
    q.filter = some ((Expr.ofColumn outer column).equals (.ofColumn inner key))

variable {q : Query} {name : String}

theorem mem_aliases {t : TableRef} (source : t ∈ q.source) :
    name ∈ q.aliases ↔ name = t.alias ∨ name ∈ q.joins.map (·.table.alias) := by
  rw [aliases, Option.mem_def.mp source]
  simp [eq_comm]

theorem sees_of_not_mem (other : name ∉ q.aliases) : q.Sees name := by
  rintro V db outer all ⟨t, source, row, -, joined, -⟩
  obtain ⟨apart, others⟩ := not_or.mp (mt (mem_aliases source).mpr other)
  have below := joined.outside others
  exact below.trans (bind_other outer apart _)

theorem ignores_of_mem (ordered : q.Ordered) (hides : name ∈ q.aliases) : q.Ignores name := by
  intro V db outer all other
  refine exists_congr fun t => and_congr_right fun source => exists_congr fun row =>
    and_congr_right fun _ => and_congr_left fun _ => ?_
  by_cases here : name = t.alias
  · subst here
    rw [bind_update_same]
  · have later := ((mem_aliases source).mp hides).resolve_left here
    have fresh : name ∉ [t.alias] := mt List.mem_singleton.mp here
    rw [bind_update_other here]
    exact joined_hidden (ordered t source) fresh later other

end Query

end Sql

/-- The query under `EXISTS` takes the name of the association for the target, and that of the table
for the junction. -/
theorem existsQuery_spec {c : Catalog} (valid : c.Valid) {a : Association}
    (declared : a ∈ c.associations) (source : String) :
    ∃ q, c.existsQuery source a = .ok q ∧ q.Ties source ∧ q.Ordered ∧
      ∀ name, name ∈ q.aliases ↔ name = a.name ∨ ∃ t ∈ a.through, name = t.table := by
  have fits := valid.fits a declared
  obtain ⟨owner, start, -⟩ := fits.source
  obtain ⟨target, found, -⟩ := fits.target
  cases through : a.through with
  | none =>
    obtain ⟨q, made, single, joins, filter⟩ :=
      Catalog.existsQuery_direct source start found through
    have names (name : String) : name ∈ q.aliases ↔ name = a.name := by
      rw [Sql.Query.mem_aliases single, joins]
      simp [Entity.tableRef, Sql.TableRef.alias]
    refine ⟨q, made, ⟨_, _, _, (names a.name).mpr rfl, filter⟩, ?_, fun name => ?_⟩
    · intro t _
      rw [joins]
      trivial
    · simp [names]
  | some j =>
    obtain ⟨q, made, first, joins, filter⟩ :=
      Catalog.existsQuery_through source start found through
    have names (name : String) : name ∈ q.aliases ↔ name = a.name ∨ name = j.table := by
      rw [Sql.Query.mem_aliases first, joins]
      simp [Entity.tableRef, Junction.tableRef, Sql.TableRef.alias, or_comm]
    refine ⟨q, made, ⟨_, _, _, (names j.table).mpr (.inr rfl), filter⟩, ?_, fun name => ?_⟩
    · intro t ht
      cases first.symm.trans ht
      rw [joins]
      simp [Sql.joinsScoped, Sql.Expr.equals, Sql.Expr.ofColumn, Sql.Expr.mentions,
        Sql.Mention.Names, Entity.tableRef, Junction.tableRef, Sql.TableRef.alias]
    · simp [names]

def Predicate.fragment? : Predicate → Option (String × FragmentScope)
  | .fragment sql scope => some (sql, scope)
  | .comparison _ | .qualified .. | .logical .. | .globalPattern _ => none

def Plan.fragments (p : Plan) : List (String × FragmentScope) :=
  (predicateLeaves p.predicate.toList ++ predicateLeaves p.having.toList).filterMap
    Predicate.fragment?

section

variable {f : Frame} {r : Request} {demands : List Demand} {p : Plan}

theorem Plan.BoundIn.owner_of_fragment (bound : p.BoundIn f r demands) {sql source : String}
    {a : Association} (written : (sql, .exists source a) ∈ p.fragments) :
    (source, a.source) ∈ p.relations ∧ a ∈ f.catalog.associations := by
  obtain ⟨leaf, member, made⟩ := List.mem_filterMap.mp written
  cases leaf with
  | fragment sql' scope =>
    cases made
    rcases List.mem_append.mp member with member | member
    · obtain ⟨s, stands, rfl, owns, declared⟩ :=
        each_of_mem_predicateLeaves _ bound.predicate _ member
      exact ⟨owns ▸ bound.relation_mem stands.leads stands.reached, declared⟩
    · cases each_of_mem_predicateLeaves _ bound.having _ member
  | _ => cases made

end

theorem shallow_of_segment {c : Catalog} {policy : FragmentPolicy} {r : Request} {p : Plan}
    (compiled : Plan.ofRequest c policy r = .ok p) {name entity : String}
    (related : (name, entity) ∈ p.relations) (segment : IsSegment name) :
    name = p.entity ∨ name ∈ p.joins.map (·.path) := by
  rcases List.mem_cons.mp related with root | joined
  · exact .inl (Prod.mk.inj root).1
  · obtain ⟨j, hj, same⟩ := List.mem_map.mp joined
    obtain ⟨rfl, -⟩ := Prod.mk.inj same
    obtain ⟨rs, tree⟩ := plan_joins_mirror compiled
    obtain ⟨chain, found⟩ := tree.exists_chain hj
    have path : j.path = relationAlias chain := tree.path_of_root found
    match chain with
    | [] => cases found
    | [first] =>
      refine .inr (List.mem_map_of_mem (f := JoinNode.path) ?_)
      exact List.mem_of_find?_eq_some found
    | first :: second :: rest =>
      refine absurd ⟨first.toList, (relationAlias (second :: rest)).toList, ?_⟩ segment
      rw [path, relationAlias_cons_toList (List.cons_ne_nil second rest)]
      exact List.append_assoc ..

/-- A fragment under an association is rendered as a query that compares a column of the relation
that owns the association. The query sees the rows of that relation unless the association, or its
junction table, goes by the same name; then they make no difference to it. Where neither name holds
the separator of paths, the owner is the root or a first join then. -/
theorem exists_sees_owner_iff {declarations : List Declaration} {c : Catalog}
    (built : Catalog.build declarations = .ok c) {policy : FragmentPolicy} {r : Request} {p : Plan}
    (compiled : Plan.ofRequest c policy r = .ok p) {sql source : String} {a : Association}
    (written : (sql, .exists source a) ∈ p.fragments) :
    (source, a.source) ∈ p.relations ∧ ∃ q : Sql.Query,
      c.fragmentExpr sql (.exists source a) = .ok (.exists (q.addFilter (.paren (.raw sql)))) ∧
      q.Ties source ∧
      (source ∉ q.aliases ↔ source ≠ a.name ∧ ∀ t ∈ a.through, source ≠ t.table) ∧
      (source ∉ q.aliases → q.Sees source) ∧
      (source ∈ q.aliases → q.Ignores source) ∧
      (IsSegment a.name → (∀ t ∈ a.through, IsSegment t.table) → source ∈ q.aliases →
        source = p.entity ∨ source ∈ p.joins.map (·.path)) := by
  obtain ⟨f, demands, rfl, bound⟩ := bound_of_ofRequest compiled
  obtain ⟨related, declared⟩ := bound.owner_of_fragment written
  have valid := Catalog.valid_of_build built
  obtain ⟨q, made, ties, ordered, names⟩ := existsQuery_spec valid declared source
  refine ⟨related, q, ?_, ties, ?_, Sql.Query.sees_of_not_mem, Sql.Query.ignores_of_mem ordered, ?_⟩
  · rw [Catalog.fragmentExpr, made]
    rfl
  · rw [names, not_or]
    simp
  · intro name table hides
    refine shallow_of_segment compiled related ?_
    rcases (names source).mp hides with rfl | ⟨t, through, rfl⟩
    · exact name
    · exact table t through

theorem film_exists_sees_film :
    ∃ p q, Plan.ofRequest filmCatalog .allow groupedRequest = .ok p ∧
      ("actors.last_name = 'Z'", .exists "film" filmActors) ∈ p.fragments ∧
      filmCatalog.fragmentExpr "actors.last_name = 'Z'" (.exists "film" filmActors) =
        .ok (.exists (Sql.Query.addFilter q (.paren (.raw "actors.last_name = 'Z'")))) ∧
      q.Sees "film" := by
  have checks : (Plan.ofRequest filmCatalog .allow groupedRequest).toOption.any (fun p =>
      decide (("actors.last_name = 'Z'", .exists "film" filmActors) ∈ p.fragments)) = true := by
    decide +kernel
  obtain ⟨p, compiled, checks⟩ := exists_ok_of_any checks
  have written := of_decide_eq_true checks
  obtain ⟨-, q, made, -, apart, sees, -⟩ := exists_sees_owner_iff film_build compiled written
  exact ⟨p, q, compiled, written, made, sees (apart.mpr (by decide))⟩

/-! Employees and their bosses, who are employees. -/

def employeeEntity : Entity :=
  ⟨"employee", "employee", none, "id", ["id", "boss_id", "name"].map Field.plain⟩

def employeeBoss : Association :=
  ⟨"boss", "employee", "employee", .belongsTo, "boss_id", "id", none⟩

def employeeDeclarations : List Declaration :=
  [.entity employeeEntity, .association "employee" employeeBoss]

def employeeCatalog : Catalog :=
  ⟨[employeeEntity], [employeeBoss]⟩

def bossRequest : Request :=
  { Request.ofModel "employee" with
    filters := .obj [("boss", .obj [("boss", .obj [("subquery", .str "name = 'Ann'")])])]
    select := some ["id"] }

def ann : Sql.Row Nat
  | "id" => some 1
  | _ => none

def annsReport : Sql.Row Nat
  | "id" => some 2
  | "boss_id" => some 1
  | _ => none

def staff : Sql.Database Nat
  | _, "employee" => [ann, annsReport]
  | _, _ => []

/-- The boss of the boss goes by the name of the boss, and hides their row: Ann is a partner of the
boss, and the query does not find her. -/
theorem boss_hidden_by_boss :
    ∃ p q, Catalog.build employeeDeclarations = .ok employeeCatalog ∧
      Plan.ofRequest employeeCatalog .allow bossRequest = .ok p ∧
      ("name = 'Ann'", .exists "boss" employeeBoss) ∈ p.fragments ∧
      employeeCatalog.existsQuery "boss" employeeBoss = .ok q ∧ "boss" ∈ q.aliases ∧
      employeeBoss.Partners employeeCatalog staff annsReport ann ∧
      ¬ employeeCatalog.ExistsRelates staff "boss" employeeBoss annsReport ann := by
  have checks : (Plan.ofRequest employeeCatalog .allow bossRequest).toOption.any (fun p =>
      decide (("name = 'Ann'", .exists "boss" employeeBoss) ∈ p.fragments)) = true := by
    decide +kernel
  obtain ⟨p, compiled, checks⟩ := exists_ok_of_any checks
  have known : employeeCatalog.entity? "employee" = some employeeEntity := rfl
  have present : ann ∈ staff employeeEntity.schema employeeEntity.table := List.mem_cons_self
  refine ⟨p, _, rfl, compiled, of_decide_eq_true checks, rfl, by decide, ?_, ?_⟩
  · exact (partners_iff known known).mpr ⟨present, 1, rfl, rfl⟩
  · intro related
    obtain ⟨-, v, boss, -⟩ := (exists_relates_hidden known known rfl).mp related
    cases boss

end ReadPlan
