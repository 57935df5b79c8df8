import ReadPlan.Proofs.RelationAliases
import ReadPlan.Proofs.RowCombinations
import Mathlib.Data.Nat.Basic

/-!
Which rows an association relates, in a statement that joins it and in a query under `EXISTS`. The
joins go by the kind of the association, the query by its junction table, so the two relate the same
rows where a junction table stands on many-to-many associations only.
-/

namespace ReadPlan

section

variable {V : Type}

open Sql

/-- The keys of the rows agree, or those of some row of the junction table agree with both. -/
def Association.Links (db : Database V) (owner target : Entity) (a : Association) (s t : Row V) :
    Option Junction → Prop
  | none => Agree (s (owner.columnOf a.sourceKey)) (t (target.columnOf a.targetKey))
  | some j => ∃ row ∈ db j.schema j.table,
    Agree (s (owner.columnOf a.sourceKey)) (row j.sourceKey) ∧
      Agree (row j.targetKey) (t (target.columnOf a.targetKey))

@[simp] theorem links_direct {db : Database V} {owner target : Entity} {a : Association}
    {s t : Row V} : a.Links db owner target s t none ↔
      Agree (s (owner.columnOf a.sourceKey)) (t (target.columnOf a.targetKey)) :=
  Iff.rfl

@[simp] theorem links_through {db : Database V} {owner target : Entity} {a : Association}
    {s t : Row V} {j : Junction} : a.Links db owner target s t (some j) ↔
      ∃ row ∈ db j.schema j.table, Agree (s (owner.columnOf a.sourceKey)) (row j.sourceKey) ∧
        Agree (row j.targetKey) (t (target.columnOf a.targetKey)) :=
  Iff.rfl

/-- Partner rows, by the kind of the association. -/
def Association.Partners (c : Catalog) (db : Database V) (a : Association) (s t : Row V) : Prop :=
  ∃ owner target, c.entity? a.source = some owner ∧ c.entity? a.target = some target ∧
    t ∈ db target.schema target.table ∧
    match a.kind with
    | .belongsTo | .hasOne | .hasMany => a.Links db owner target s t none
    | .belongsToMany => ∃ j, a.through = some j ∧ a.Links db owner target s t (some j)

/-- The statement joins row `t` of the target to row `s` of the owner. -/
def JoinNode.Relates (c : Catalog) (db : Database V) (j : JoinNode) (s t : Row V) : Prop :=
  ∃ target joins all, c.entity? j.target = some target ∧ j.sqlJoins c target = .ok joins ∧
    Joined db joins (.only j.parent s) all ∧ all j.path = some t

/-- The query under `EXISTS`, before the text of a fragment is added to it, finds row `t` of the
target for row `s` of the relation `source`. -/
def Catalog.ExistsRelates (c : Catalog) (db : Database V) (source : String) (a : Association)
    (s t : Row V) : Prop :=
  ∃ q all, c.existsQuery source a = .ok q ∧ q.Keeps db (.only source s) all ∧ all a.name = some t

/-- The names that the joins of an association introduce hide neither each other nor the owner. -/
def JoinNode.NamesApart (j : JoinNode) : Prop :=
  (j.parent :: j.aliases).Nodup

instance (j : JoinNode) : Decidable j.NamesApart :=
  inferInstanceAs (Decidable (List.Nodup _))

/-- The same of the query under `EXISTS`. -/
def Association.NamesApart (a : Association) (source : String) : Prop :=
  (source :: a.name :: (a.through.map (·.table)).toList).Nodup

instance (a : Association) (source : String) : Decidable (a.NamesApart source) :=
  inferInstanceAs (Decidable (List.Nodup _))

/-- A junction table that is the target itself, tied twice by the key of the association, relates
what the keys relate. Any other junction table is for many-to-many associations. -/
def Association.OneRoute (c : Catalog) (a : Association) : Prop :=
  ∀ j target, a.through = some j → c.entity? a.target = some target →
    a.kind = .belongsToMany ∨
      (j.schema = target.schema ∧ j.table = target.table) ∧
        j.sourceKey = target.columnOf a.targetKey ∧ j.targetKey = target.columnOf a.targetKey

variable {c : Catalog} {db : Database V} {s t : Row V}

theorem partners_iff {a : Association} {owner target : Entity}
    (source : c.entity? a.source = some owner) (ends : c.entity? a.target = some target) :
    a.Partners c db s t ↔ t ∈ db target.schema target.table ∧
      match a.kind with
      | .belongsTo | .hasOne | .hasMany => a.Links db owner target s t none
      | .belongsToMany => ∃ j, a.through = some j ∧ a.Links db owner target s t (some j) := by
  simp only [Association.Partners, source, ends, Option.some.injEq, exists_and_left,
    exists_eq_left']

section

variable {j : JoinNode} {owner target : Entity}

theorem JoinNode.relates_iff_joined {joins : List Join} (ends : c.entity? j.target = some target)
    (made : j.sqlJoins c target = .ok joins) :
    j.Relates c db s t ↔ ∃ all, Joined db joins (.only j.parent s) all ∧ all j.path = some t := by
  constructor
  · rintro ⟨target', joins', all, ends', made', rest, here⟩
    cases ends.symm.trans ends'
    cases made.symm.trans made'
    exact ⟨all, rest, here⟩
  · rintro ⟨all, rest, here⟩
    exact ⟨target, joins, all, ends, made, rest, here⟩

theorem JoinNode.sqlJoins_direct (source : c.entity? j.association.source = some owner)
    (direct : j.association.kind ≠ .belongsToMany) :
    j.sqlJoins c target = .ok [⟨j.kind, target.tableRef j.path,
      (Expr.ofColumn j.parent (owner.columnOf j.association.sourceKey)).equals
        (.ofColumn j.path (target.columnOf j.association.targetKey))⟩] := by
  simp only [JoinNode.sqlJoins, Catalog.requireEntity_eq_ok.mpr source, ok_bind]
  split <;> first | contradiction | rfl

theorem JoinNode.sqlJoins_through {through : Junction}
    (source : c.entity? j.association.source = some owner)
    (many : j.association.kind = .belongsToMany) (given : j.association.through = some through) :
    j.sqlJoins c target = .ok [
      ⟨j.kind, through.tableRef (j.junctionAlias through),
        (Expr.ofColumn j.parent (owner.columnOf j.association.sourceKey)).equals
          (.ofColumn (j.junctionAlias through) through.sourceKey)⟩,
      ⟨j.kind, target.tableRef j.path,
        (Expr.ofColumn (j.junctionAlias through) through.targetKey).equals
          (.ofColumn j.path (target.columnOf j.association.targetKey))⟩] := by
  simp only [JoinNode.sqlJoins, Catalog.requireEntity_eq_ok.mpr source, ok_bind, many, given]
  rfl

theorem join_relates_direct (source : c.entity? j.association.source = some owner)
    (ends : c.entity? j.target = some target) (direct : j.association.kind ≠ .belongsToMany)
    (apart : j.parent ≠ j.path) :
    j.Relates c db s t ↔ t ∈ db target.schema target.table ∧
      j.association.Links db owner target s t none := by
  have owned (row : Option (Row V)) :
      (Combination.only j.parent s).bind (target.tableRef j.path) row j.parent = some s :=
    (bind_other _ apart _).trans (Function.update_self ..)
  rw [JoinNode.relates_iff_joined ends (JoinNode.sqlJoins_direct source direct)]
  exact joined_one.trans (and_congr_right fun _ => equals_holds (owned _) (bind_alias ..) ..)

theorem join_relates_through {through : Junction}
    (source : c.entity? j.association.source = some owner)
    (ends : c.entity? j.target = some target) (many : j.association.kind = .belongsToMany)
    (given : j.association.through = some through) (near : j.parent ≠ j.junctionAlias through)
    (far : j.junctionAlias through ≠ j.path) :
    j.Relates c db s t ↔ t ∈ db target.schema target.table ∧
      j.association.Links db owner target s t (some through) := by
  have owned (row : Option (Row V)) : (Combination.only j.parent s).bind
      (through.tableRef (j.junctionAlias through)) row j.parent = some s :=
    (bind_other _ near _).trans (Function.update_self ..)
  have middle (row other : Option (Row V)) :
      ((Combination.only j.parent s).bind (through.tableRef (j.junctionAlias through)) row).bind
        (target.tableRef j.path) other (j.junctionAlias through) = row :=
    (bind_other _ far _).trans (bind_alias ..)
  rw [JoinNode.relates_iff_joined ends (JoinNode.sqlJoins_through source many given)]
  -- A left join of the junction table may leave its name without a row, which matches no target.
  refine (joined_two fun row => equals_missing (middle none row) _ _ _).trans ?_
  constructor
  · rintro ⟨row, known, first, partner, second⟩
    exact ⟨partner, row, known, (equals_holds (owned _) (bind_alias ..) ..).mp first,
      (equals_holds (middle _ _) (bind_alias ..) ..).mp second⟩
  · rintro ⟨partner, row, known, first, second⟩
    exact ⟨row, known, (equals_holds (owned _) (bind_alias ..) ..).mpr first, partner,
      (equals_holds (middle _ _) (bind_alias ..) ..).mpr second⟩

theorem join_relates_partners (valid : c.Valid) (declared : j.association ∈ c.associations)
    (ends : j.target = j.association.target) (apart : j.NamesApart) :
    j.Relates c db s t ↔ j.association.Partners c db s t := by
  have fits := valid.fits j.association declared
  obtain ⟨owner, source, -⟩ := fits.source
  obtain ⟨target, found, -⟩ := fits.target
  have here : c.entity? j.target = some target := ends ▸ found
  have junction := fits.junction
  rw [partners_iff source found]
  unfold JoinNode.NamesApart JoinNode.aliases JoinNode.junction? at apart
  cases kind : j.association.kind with
  | belongsToMany =>
    obtain ⟨through, given⟩ := Option.isSome_iff_exists.mp (junction kind)
    obtain ⟨near, -, far⟩ : j.parent ≠ j.junctionAlias through ∧ j.parent ≠ j.path ∧
        j.junctionAlias through ≠ j.path := by
      simpa [kind, given, and_assoc] using apart
    rw [join_relates_through source here kind given near far]
    simp [given]
  | belongsTo | hasOne | hasMany =>
    have direct : j.association.kind ≠ .belongsToMany := by
      rw [kind]
      decide
    exact join_relates_direct source here direct (by simpa [kind] using apart)

end

section

variable {a : Association} {owner target : Entity} {relation : String}

theorem Catalog.existsRelates_iff_keeps {q : Query} (made : c.existsQuery relation a = .ok q) :
    c.ExistsRelates db relation a s t ↔
      ∃ all, q.Keeps db (.only relation s) all ∧ all a.name = some t := by
  constructor
  · rintro ⟨q', all, made', kept, here⟩
    cases made.symm.trans made'
    exact ⟨all, kept, here⟩
  · rintro ⟨all, kept, here⟩
    exact ⟨q, all, made, kept, here⟩

theorem Catalog.existsQuery_direct (relation : String) (source : c.entity? a.source = some owner)
    (ends : c.entity? a.target = some target) (through : a.through = none) :
    ∃ q, c.existsQuery relation a = .ok q ∧ q.source = some (target.tableRef a.name) ∧
      q.joins = [] ∧ q.filter = some
        ((Expr.ofColumn relation (owner.columnOf a.sourceKey)).equals
          (.ofColumn a.name (target.columnOf a.targetKey))) := by
  simp only [Catalog.existsQuery, Catalog.requireEntity_eq_ok.mpr source,
    Catalog.requireEntity_eq_ok.mpr ends, ok_bind, through]
  exact ⟨_, rfl, rfl, rfl, rfl⟩

theorem Catalog.existsQuery_through (relation : String) {j : Junction}
    (source : c.entity? a.source = some owner)
    (ends : c.entity? a.target = some target) (through : a.through = some j) :
    ∃ q, c.existsQuery relation a = .ok q ∧ q.source = some (j.tableRef j.table) ∧
      q.joins = [⟨.inner, target.tableRef a.name, (Expr.ofColumn j.table j.targetKey).equals
        (.ofColumn a.name (target.columnOf a.targetKey))⟩] ∧
      q.filter = some ((Expr.ofColumn relation (owner.columnOf a.sourceKey)).equals
        (.ofColumn j.table j.sourceKey)) := by
  simp only [Catalog.existsQuery, Catalog.requireEntity_eq_ok.mpr source,
    Catalog.requireEntity_eq_ok.mpr ends, ok_bind, through]
  exact ⟨_, rfl, rfl, rfl, rfl⟩

theorem exists_relates_seen (source : c.entity? a.source = some owner)
    (ends : c.entity? a.target = some target) (through : a.through = none) {seen : Row V}
    (sees : (Combination.only relation s).bind (target.tableRef a.name) (some t) relation =
      some seen) :
    c.ExistsRelates db relation a s t ↔ t ∈ db target.schema target.table ∧
      a.Links db owner target seen t none := by
  obtain ⟨q, made, single, joins, filter⟩ :=
    Catalog.existsQuery_direct relation source ends through
  have partner (row : Row V) : (Combination.only relation s).bind (target.tableRef a.name)
      (some row) a.name = some row :=
    bind_alias ..
  simp only [Catalog.existsRelates_iff_keeps made, keeps_one single joins filter]
  constructor
  · rintro ⟨_, ⟨row, known, rfl, holds⟩, here⟩
    cases (partner row).symm.trans here
    exact ⟨known, (equals_holds sees (partner t) ..).mp holds⟩
  · rintro ⟨known, agree⟩
    exact ⟨_, ⟨t, known, rfl, (equals_holds sees (partner t) ..).mpr agree⟩, partner t⟩

/-- Under the name of the relation it starts from, the partner hides the row of the owner: the keys
are compared within the partner. -/
theorem exists_relates_hidden (source : c.entity? a.source = some owner)
    (ends : c.entity? a.target = some target) (through : a.through = none) :
    c.ExistsRelates db a.name a s t ↔ t ∈ db target.schema target.table ∧
      a.Links db owner target t t none :=
  exists_relates_seen source ends through (bind_alias ..)

theorem exists_relates_through {j : Junction} (source : c.entity? a.source = some owner)
    (ends : c.entity? a.target = some target) (through : a.through = some j)
    (tied : relation ≠ a.name) (outside : relation ≠ j.table) (inside : a.name ≠ j.table) :
    c.ExistsRelates db relation a s t ↔ t ∈ db target.schema target.table ∧
      a.Links db owner target s t (some j) := by
  obtain ⟨q, made, first, joins, filter⟩ :=
    Catalog.existsQuery_through relation source ends through
  let rows (row other : Row V) : Combination V :=
    ((Combination.only relation s).bind (j.tableRef j.table) (some row)).bind
      (target.tableRef a.name) (some other)
  have owned (row other : Row V) : rows row other relation = some s :=
    (bind_other _ tied _).trans ((bind_other _ outside _).trans (Function.update_self ..))
  have middle (row other : Row V) : rows row other j.table = some row :=
    (bind_other _ inside.symm _).trans (bind_alias ..)
  have partner (row other : Row V) : rows row other a.name = some other := bind_alias ..
  simp only [Catalog.existsRelates_iff_keeps made, keeps_two first joins rfl filter]
  constructor
  · rintro ⟨_, ⟨row, known, other, found, second, rfl, first⟩, here⟩
    cases (partner row other).symm.trans here
    exact ⟨found, row, known, (equals_holds (owned row t) (middle row t) ..).mp first,
      (equals_holds (middle row t) (partner row t) ..).mp second⟩
  · rintro ⟨found, row, known, first, second⟩
    exact ⟨rows row t, ⟨row, known, t, found,
      (equals_holds (middle row t) (partner row t) ..).mpr second, rfl,
      (equals_holds (owned row t) (middle row t) ..).mpr first⟩, partner row t⟩

theorem exists_relates_iff (source : c.entity? a.source = some owner)
    (ends : c.entity? a.target = some target) (apart : a.NamesApart relation) :
    c.ExistsRelates db relation a s t ↔ t ∈ db target.schema target.table ∧
      a.Links db owner target s t a.through := by
  unfold Association.NamesApart at apart
  cases through : a.through with
  | none =>
    have tied : relation ≠ a.name := by
      simpa [through] using apart
    exact exists_relates_seen source ends through
      ((bind_other _ tied _).trans (Function.update_self ..))
  | some j =>
    obtain ⟨tied, outside, inside⟩ :
        relation ≠ a.name ∧ relation ≠ j.table ∧ a.name ≠ j.table := by
      simpa [through, and_assoc] using apart
    exact exists_relates_through source ends through tied outside inside

end

section

variable {a : Association} {owner target : Entity}

theorem Sql.Agree.trans {x y z : Option V} (left : Agree x y) (right : Agree y z) : Agree x z := by
  obtain ⟨v, rfl, rfl⟩ := left
  exact right

theorem links_through_target {j : Junction} (known : t ∈ db target.schema target.table)
    (table : j.schema = target.schema ∧ j.table = target.table)
    (keys : j.sourceKey = target.columnOf a.targetKey ∧ j.targetKey = target.columnOf a.targetKey) :
    a.Links db owner target s t (some j) ↔ a.Links db owner target s t none := by
  rw [links_through, links_direct, table.1, table.2, keys.1, keys.2]
  constructor
  · rintro ⟨row, -, first, second⟩
    exact first.trans second
  · rintro ⟨v, here, there⟩
    exact ⟨t, known, ⟨v, here, there⟩, v, there, there⟩

theorem links_iff_partners (fits : a.kind = .belongsToMany → a.through.isSome = true)
    (source : c.entity? a.source = some owner) (ends : c.entity? a.target = some target)
    (route : a.OneRoute c) :
    (t ∈ db target.schema target.table ∧ a.Links db owner target s t a.through) ↔
      a.Partners c db s t := by
  rw [partners_iff source ends]
  refine and_congr_right fun known => ?_
  cases kind : a.kind with
  | belongsToMany =>
    obtain ⟨j, through⟩ := Option.isSome_iff_exists.mp (fits kind)
    simp only [through, Option.some.injEq, exists_eq_left']
  | belongsTo | hasOne | hasMany =>
    cases through : a.through with
    | none => rfl
    | some j =>
      obtain many | ⟨table, keys⟩ := route j target through ends
      · cases kind.symm.trans many
      · exact links_through_target known table keys

/-- The database that tells a detour from the keys: the target holds one row, marked by its key, and
every other table is empty. -/
theorem oneRoute_of_links [Nontrivial V]
    (source : c.entity? a.source = some owner) (ends : c.entity? a.target = some target)
    (same : ∀ (db : Database V) (s t : Row V), a.Partners c db s t →
      a.Links db owner target s t a.through) : a.OneRoute c := by
  intro j target' through ends'
  cases ends.symm.trans ends'
  refine or_iff_not_imp_left.mpr fun direct => ?_
  obtain ⟨v, w, apart⟩ := exists_pair_ne V
  let marked : Row V := fun column =>
    if column = target.columnOf a.targetKey then some v else some w
  let db : Database V := fun schema table =>
    if schema = target.schema ∧ table = target.table then [marked] else []
  have key : marked (target.columnOf a.targetKey) = some v := if_pos rfl
  have partners : a.Partners c db (fun _ => some v) marked := by
    have known : marked ∈ db target.schema target.table := by
      simp [db]
    refine (partners_iff source ends).mpr ⟨known, ?_⟩
    cases kind : a.kind with
    | belongsToMany => exact absurd kind direct
    | belongsTo | hasOne | hasMany => exact ⟨v, rfl, key⟩
  have links := same db _ _ partners
  rw [through, links_through] at links
  obtain ⟨row, known, ⟨x, here, near⟩, y, far, there⟩ := links
  cases here
  cases key.symm.trans there
  obtain ⟨table, rfl⟩ : (j.schema = target.schema ∧ j.table = target.table) ∧ row = marked := by
    simpa [db] using known
  have only {column : String} (reads : marked column = some v) :
      column = target.columnOf a.targetKey := by
    by_contra other
    exact apart (Option.some.inj (reads.symm.trans (if_neg other)))
  exact ⟨table, only near, only far⟩

end

/-- A statement joins the partners of a row. The query under `EXISTS` finds the same rows in every
database just where no junction table makes a second route. -/
theorem exists_relates_as_join_iff [Nontrivial V] {declarations : List Declaration}
    (built : Catalog.build declarations = .ok c) {a : Association} (declared : a ∈ c.associations)
    {j : JoinNode} (follows : j.association = a) (ends : j.target = a.target)
    (joined : j.NamesApart) {source : String} (tied : a.NamesApart source) :
    (∀ (db : Database V) (s t : Row V), j.Relates c db s t ↔ a.Partners c db s t) ∧
      ((∀ (db : Database V) (s t : Row V), c.ExistsRelates db source a s t ↔ j.Relates c db s t) ↔
        a.OneRoute c) := by
  subst follows
  have valid := Catalog.valid_of_build built
  have fits := valid.fits j.association declared
  obtain ⟨owner, start, -⟩ := fits.source
  obtain ⟨target, found, -⟩ := fits.target
  have partners (db : Database V) (s t : Row V) :
      j.Relates c db s t ↔ j.association.Partners c db s t :=
    join_relates_partners valid declared ends joined
  refine ⟨partners, fun same => ?_, fun route db s t => ?_⟩
  · refine oneRoute_of_links (V := V) start found fun db s t related => ?_
    exact ((exists_relates_iff start found tied).mp
      ((same db s t).mpr ((partners db s t).mpr related))).2
  · exact (exists_relates_iff start found tied).trans
      ((links_iff_partners fits.junction start found route).trans (partners db s t).symm)

end

/-! One film with one actor. -/

def actorsJoin : JoinNode :=
  ⟨"actors", "actors", "film", "actor", filmActors, false, [], []⟩

def oneFilm : Sql.Row Nat :=
  fun _ => some 1

def oneActor : Sql.Row Nat :=
  fun _ => some 2

def oneCasting : Sql.Database Nat
  | _, "actor" => [oneActor]
  | _, "film_actor" => [fun column => if column = "film_id" then some 1 else some 2]
  | _, _ => []

theorem film_actor_exists_as_join :
    filmCatalog.ExistsRelates oneCasting "film" filmActors oneFilm oneActor ∧
      actorsJoin.Relates filmCatalog oneCasting oneFilm oneActor := by
  obtain ⟨partners, same⟩ := exists_relates_as_join_iff (V := Nat) (j := actorsJoin) film_build
    (by decide) rfl rfl (by decide) (by decide : filmActors.NamesApart "film")
  have joined : actorsJoin.Relates filmCatalog oneCasting oneFilm oneActor :=
    (partners ..).mpr ⟨filmEntity, actorEntity, rfl, rfl, List.mem_singleton.mpr rfl, _, rfl, _,
      List.mem_singleton.mpr rfl, ⟨1, rfl, rfl⟩, 2, rfl, rfl⟩
  exact ⟨(same.mpr (fun _ _ _ _ => .inl rfl) ..).mpr joined, joined⟩

/-! A film belongs to a language, and the association names a junction table all the same. -/

def taggedLanguage : Association :=
  { filmLanguage with through := some ⟨"film_language", none, "film_id", "language_id"⟩ }

def taggedDeclarations : List Declaration :=
  [.entity filmEntity, .entity languageEntity, .association "film" taggedLanguage]

def taggedCatalog : Catalog :=
  ⟨[filmEntity, languageEntity], [taggedLanguage]⟩

def languageJoin : JoinNode :=
  ⟨"language", "language", "film", "language", taggedLanguage, false, [], []⟩

def oneLanguage : Sql.Row Nat :=
  fun _ => some 1

def untagged : Sql.Database Nat
  | _, "language" => [oneLanguage]
  | _, _ => []

theorem tagged_language_exists_not_as_join :
    Catalog.build taggedDeclarations = .ok taggedCatalog ∧
      languageJoin.Relates taggedCatalog untagged oneFilm oneLanguage ∧
        ¬ taggedCatalog.ExistsRelates untagged "film" taggedLanguage oneFilm oneLanguage := by
  have source : taggedCatalog.entity? "film" = some filmEntity := rfl
  have ends : taggedCatalog.entity? "language" = some languageEntity := rfl
  refine ⟨rfl, ?_, ?_⟩
  · exact (join_relates_direct (j := languageJoin) source ends (by decide) (by decide)).mpr
      ⟨List.mem_singleton.mpr rfl, 1, rfl, rfl⟩
  · intro related
    obtain ⟨-, row, none, -⟩ := (exists_relates_iff source ends (by decide)).mp related
    cases none

end ReadPlan
