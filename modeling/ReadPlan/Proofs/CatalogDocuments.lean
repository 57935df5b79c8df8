import ReadPlan.Proofs.CatalogDefaults

namespace ReadPlan

section

variable {α β γ δ : Type} {R : α → β → Prop} {S : γ → δ → Prop}

/-! Readings that both fail or both have related results. -/

theorem rel_same {R : α → α → Prop} (each : ∀ a, R a a) (x : Option α) : Option.Rel R x x := by
  cases x with
  | none => exact .none
  | some a => exact .some (each a)

theorem rel_bind {x : Option α} {y : Option β} {f : α → Option γ} {g : β → Option δ}
    (h : Option.Rel R x y) (next : ∀ a b, x = some a → R a b → Option.Rel S (f a) (g b)) :
    Option.Rel S (x >>= f) (y >>= g) := by
  cases h with
  | none => exact .none
  | some related => exact next _ _ rfl related

theorem rel_mapM {f : α → Option γ} {g : β → Option δ}
    (each : ∀ x y, R x y → Option.Rel S (f x) (g y)) {xs : List α} {ys : List β}
    (h : List.Forall₂ R xs ys) : Option.Rel (List.Forall₂ S) (xs.mapM f) (ys.mapM g) := by
  induction h with
  | nil => exact .some .nil
  | @cons x y xs ys first _ ih =>
    rw [List.mapM_cons, List.mapM_cons]
    refine rel_bind (each x y first) fun a b _ here => ?_
    exact rel_bind ih fun as bs _ more => .some (.cons here more)

theorem mem_of_mapM {f : α → Option β} {xs : List α} {ys : List β} (h : xs.mapM f = some ys) {x : α}
    (member : x ∈ xs) : ∃ y ∈ ys, f x = some y := by
  induction mapM_eq_some_iff.mp h with
  | nil => cases member
  | @cons x' y' xs ys here others ih =>
    rcases List.mem_cons.mp member with rfl | member
    · exact ⟨y', List.mem_cons_self, here⟩
    · obtain ⟨y, more, read⟩ := ih (mapM_eq_some_iff.mpr others) member
      exact ⟨y, List.mem_cons_of_mem y' more, read⟩

theorem rel_mapM_perm (f : α → Option β) {xs ys : List α} (h : xs.Perm ys) :
    Option.Rel List.Perm (xs.mapM f) (ys.mapM f) := by
  have follows {xs ys : List α} (h : xs.Perm ys) {as : List β} (read : xs.mapM f = some as) :
      ∃ bs, ys.mapM f = some bs ∧ as.Perm bs := by
    obtain ⟨bs, related, moved⟩ : Relation.Comp (List.Forall₂ _) List.Perm ys as := by
      rw [List.forall₂_comp_perm_eq_perm_comp_forall₂]
      exact ⟨xs, h.symm, mapM_eq_some_iff.mp read⟩
    exact ⟨bs, mapM_eq_some_iff.mpr related, moved.symm⟩
  cases left : xs.mapM f with
  | some as =>
    obtain ⟨bs, right, moved⟩ := follows h left
    rw [right]
    exact .some moved
  | none =>
    cases right : ys.mapM f with
    | none => exact .none
    | some bs =>
      obtain ⟨as, back, -⟩ := follows h.symm right
      cases left.symm.trans back

end

namespace Catalog

/-! Documents in two spellings. -/

/-- A text that is left out, or null, and then a default of it. -/
inductive FilledIn (Default : String → Prop) : Option Json → Option Json → Prop
  | same (v : Option Json) : FilledIn Default v v
  | absent {s : String} (usual : Default s) : FilledIn Default none (some (.str s))
  | null {s : String} (usual : Default s) : FilledIn Default (some .null) (some (.str s))

inductive KindNamed : Option Json → Option Json → Prop
  | same (v : Option Json) : KindNamed v v
  | canonical {text : String} {kind : AssociationKind}
      (spelled : AssociationKind.ofText? text = some kind) :
      KindNamed (some (.str text)) (some (.str kind.name))

inductive Itemwise (R : Json → Json → Prop) : Option Json → Option Json → Prop
  | same (v : Option Json) : Itemwise R v v
  | items {xs ys : List Json} (each : List.Forall₂ R xs ys) :
      Itemwise R (some (.arr xs)) (some (.arr ys))

inductive Recordwise (names : List String)
    (R : (String → Option Json) → (String → Option Json) → Prop) : Json → Json → Prop
  | same (v : Json) : Recordwise names R v v
  | record {v w : Json} {f g : String → Option Json} (left : v.openRecord? names = some f)
      (right : w.openRecord? names = some g) (related : R f g) : Recordwise names R v w

/-- A bare name, or a table that may leave the column out, and then with the column. -/
inductive FieldSpelled : Json → Json → Prop
  | same (v : Json) : FieldSpelled v v
  | bare {name : String} {w : Json} {g : String → Option Json}
      (right : w.object? ["name", "column", "nullable"] = some g)
      (named : g "name" = some (.str name)) (column : g "column" = some (.str name))
      (nullable : g "nullable" = none) (fits : w.fitsWords = true) :
      FieldSpelled (.str name) w
  | table {v w : Json} {f g : String → Option Json}
      (left : v.object? ["name", "column", "nullable"] = some f)
      (right : w.object? ["name", "column", "nullable"] = some g)
      (name : g "name" = f "name")
      (column : FilledIn (fun s => f "name" = some (.str s)) (f "column") (g "column"))
      (nullable : g "nullable" = f "nullable") (fits : w.fitsWords = v.fitsWords) :
      FieldSpelled v w

section

variable (IsKey : String → String → Prop)

/-- The keys of the association are defaults for its kind: the owner's key, and that of its target,
which `IsKey` knows. -/
structure AssociationSpelled (ownerKey : Option Json) (f g : String → Option Json) : Prop where
  name : g "alias" = f "alias"
  kind : KindNamed (f "kind") (g "kind")
  target : g "target" = f "target"
  sourceKey : FilledIn (fun key => ∃ text kind target, f "kind" = some (.str text) ∧
    AssociationKind.ofText? text = some kind ∧ f "target" = some (.str target) ∧
    DefaultSource (fun k => ownerKey = some (.str k)) (IsKey target) kind key)
    (f "source_key") (g "source_key")
  targetKey : FilledIn (fun key => ∃ text kind target, f "kind" = some (.str text) ∧
    AssociationKind.ofText? text = some kind ∧ f "target" = some (.str target) ∧
    DefaultTarget (fun k => ownerKey = some (.str k)) (IsKey target) kind key)
    (f "target_key") (g "target_key")
  through : g "through" = f "through"

structure EntitySpelled (f g : String → Option Json) : Prop where
  name : g "name" = f "name"
  table : FilledIn (fun s => f "name" = some (.str s)) (f "table") (g "table")
  schema : g "schema" = f "schema"
  primaryKey : g "primary_key" = f "primary_key"
  fields : Itemwise FieldSpelled (f "fields") (g "fields")
  associations : Itemwise
    (Recordwise ["alias", "kind", "target", "source_key", "target_key", "through"]
      (AssociationSpelled IsKey (f "primary_key")))
    (f "association") (g "association")

end

def HasTables (v : Json) (tables : List Json) : Prop :=
  ∃ f, v.openRecord? ["entity"] = some f ∧ f "entity" = some (.arr tables)

def DeclaresKey (v : Json) (entity key : String) : Prop :=
  ∃ tables, HasTables v tables ∧ ∃ table ∈ tables, ∃ f,
    table.openRecord? ["name", "table", "schema", "primary_key", "fields", "association"] = some f ∧
      f "name" = some (.str entity) ∧ f "primary_key" = some (.str key)

/-- The second document is the first one with some defaults written out and some kinds under their
own names. -/
def Respelled (v w : Json) : Prop :=
  Recordwise ["entity"] (fun f g => Itemwise
    (Recordwise ["name", "table", "schema", "primary_key", "fields", "association"]
      (EntitySpelled (DeclaresKey v))) (f "entity") (g "entity")) v w

/-- The second document has the tables of the first one in some order. -/
def Reordered (v w : Json) : Prop :=
  ∃ tables tables', HasTables v tables ∧ HasTables w tables' ∧ tables.Perm tables'

/-! What is read of two spellings. -/

section

variable {v w : Option Json}

theorem required_string_iff {s : String} :
    Json.required? Json.string? v = some s ↔ v = some (.str s) := by
  rcases v with _ | v
  · simp [Json.required?]
  · cases v <;> simp [Json.required?, Json.string?]

theorem optional_string_filled {Default : String → Prop} (h : FilledIn Default v w) :
    Option.Rel (FillsIn Default) (Json.optional? Json.string? v)
      (Json.optional? Json.string? w) := by
  cases h with
  | same => exact rel_same (fun _ => .inl rfl) _
  | absent usual | null usual => exact .some (.inr ⟨rfl, _, usual, rfl⟩)

theorem required_string_named (h : KindNamed v w) :
    Option.Rel (fun text text' => AssociationKind.ofText? text' = AssociationKind.ofText? text)
      (Json.required? Json.string? v) (Json.required? Json.string? w) := by
  cases h with
  | same =>
    refine rel_same ?_ _
    intro text
    rfl
  | @canonical text kind spelled =>
    have same := (AssociationKind.ofText?_name kind).trans spelled.symm
    exact Option.Rel.some (a := text) (b := kind.name) same

theorem defaulted_list_itemwise {α : Type} {R : Json → Json → Prop} {S : α → α → Prop}
    {item? : Json → Option α} (h : Itemwise R v w)
    (each : ∀ x y, R x y → Option.Rel S (item? x) (item? y)) (same : ∀ a, S a a) :
    Option.Rel (List.Forall₂ S) (Json.defaulted? [] (Json.list? item?) v)
      (Json.defaulted? [] (Json.list? item?) w) := by
  cases h with
  | same => exact rel_same (fun as => List.forall₂_same.mpr fun a _ => same a) _
  | items related => exact rel_mapM each related

end

theorem field?_object {v : Json} {f : String → Option Json}
    (h : v.object? ["name", "column", "nullable"] = some f) :
    field? v = (do
      let name ← Json.required? Json.string? (f "name")
      let column ← Json.optional? Json.string? (f "column")
      let nullable ← Json.defaulted? true Json.bool? (f "nullable")
      if v.fitsWords then some ⟨name, column.getD name, nullable⟩ else none) := by
  cases v with
  | obj ms =>
    simp only [field?, h]
    rfl
  | null | bool _ | int _ | float _ | str _ | arr _ => cases h

theorem field?_spelled {v w : Json} (h : FieldSpelled v w) :
    Option.Rel Eq (field? v) (field? w) := by
  cases h with
  | same => exact rel_same (fun _ => rfl) _
  | bare right named column nullable fits =>
    rw [field?_object right, named, column, nullable, fits]
    exact .some rfl
  | table left right name column nullable fits =>
    rw [field?_object left, field?_object right, name, nullable, fits]
    refine rel_bind (rel_same (fun _ => rfl) _) ?_
    rintro name _ named rfl
    refine rel_bind (optional_string_filled column) fun column column' _ filled => ?_
    have usual : column'.getD name = column.getD name := by
      refine filled.getD fun s given => ?_
      cases (required_string_iff.mp named).symm.trans given
      rfl
    rw [usual]
    exact rel_same (fun _ => rfl) _

theorem associationEntry?_spelled {IsKey : String → String → Prop} {v w : Json}
    {primaryKey : Option Json} {ownerKey : String} (owner : primaryKey = some (.str ownerKey))
    (h : Recordwise ["alias", "kind", "target", "source_key", "target_key", "through"]
      (AssociationSpelled IsKey primaryKey) v w) :
    Option.Rel (AssociationEntry.Completes IsKey ownerKey)
      ( associationEntry? v) ( associationEntry? w) := by
  cases h with
  | same => exact rel_same .refl _
  | record left right spelled =>
    simp only [left, right, associationEntry?, Option.bind_eq_bind, Option.bind_some,
      spelled.name, spelled.target, spelled.through]
    refine rel_bind (rel_same (fun _ => rfl) _) ?_
    rintro name _ - rfl
    refine rel_bind (required_string_named spelled.kind) fun kind kind' read same => ?_
    refine rel_bind (rel_same (fun _ => rfl) _) ?_
    rintro target _ aimed rfl
    refine rel_bind (optional_string_filled spelled.sourceKey) fun source source' _ sources => ?_
    refine rel_bind (optional_string_filled spelled.targetKey) fun key key' _ targets => ?_
    refine rel_bind (rel_same (fun _ => rfl) _) ?_
    rintro through _ - rfl
    have read := required_string_iff.mp read
    have aimed := required_string_iff.mp aimed
    have keys : (fun k => primaryKey = some (.str k)) = (· = ownerKey) := by
      funext k
      simp [owner, eq_comm]
    refine .some ⟨rfl, same, rfl, sources.mono ?_, targets.mono ?_, rfl⟩
    all_goals
      rintro s ⟨_, kind, _, here, known, aim, usual⟩
      cases read.symm.trans here
      cases aimed.symm.trans aim
      exact ⟨kind, known, keys ▸ usual⟩

theorem entityEntry?_spelled {IsKey : String → String → Prop} {v w : Json}
    (h : Recordwise ["name", "table", "schema", "primary_key", "fields", "association"]
      (EntitySpelled IsKey) v w) :
    Option.Rel (EntityEntry.Completes IsKey) ( entityEntry? v) ( entityEntry? w) := by
  cases h with
  | same => exact rel_same .refl _
  | record left right spelled =>
    simp only [left, right, entityEntry?, Option.bind_eq_bind, Option.bind_some,
      spelled.name, spelled.schema, spelled.primaryKey]
    refine rel_bind (rel_same (fun _ => rfl) _) ?_
    rintro name _ named rfl
    refine rel_bind (optional_string_filled spelled.table) fun table table' _ filled => ?_
    refine rel_bind (rel_same (fun _ => rfl) _) ?_
    rintro schema _ - rfl
    refine rel_bind (rel_same (fun _ => rfl) _) ?_
    rintro ownerKey _ owner rfl
    refine rel_bind (defaulted_list_itemwise spelled.fields (fun _ _ => field?_spelled)
      fun _ => rfl) fun fields fields' _ same => ?_
    refine rel_bind (defaulted_list_itemwise spelled.associations
      (fun _ _ => associationEntry?_spelled (required_string_iff.mp owner)) .refl)
      fun as as' _ related => ?_
    have usual : table'.getD name = table.getD name := by
      refine filled.getD fun s given => ?_
      cases (required_string_iff.mp named).symm.trans given
      rfl
    rw [List.forall₂_eq_eq_eq] at same
    refine .some ⟨?_, related⟩
    simp only [usual, same]

theorem entries?_spelled {v w : Json} (h : Respelled v w) :
    Option.Rel (List.Forall₂ (EntityEntry.Completes (DeclaresKey v))) (entries? v) (entries? w) := by
  cases h with
  | same => exact rel_same (fun es => List.forall₂_same.mpr fun e _ => .refl e) _
  | record left right spelled =>
    simp only [entries?, left, right, Option.bind_eq_bind, Option.bind_some]
    exact defaulted_list_itemwise spelled (fun _ _ => entityEntry?_spelled) .refl

theorem entries?_tables {v : Json} {tables : List Json} (h : HasTables v tables) :
    entries? v = tables.mapM entityEntry? := by
  obtain ⟨f, record, listed⟩ := h
  simp only [entries?, record, Option.bind_eq_bind, Option.bind_some, listed]
  rfl

theorem entities_of_declaresKey {v : Json} {entries : List EntityEntry}
    (read : entries? v = some entries) {entity key : String} (h : DeclaresKey v entity key) :
    ∃ e ∈ entries, e.entity.name = entity ∧ e.entity.primaryKey = key := by
  obtain ⟨tables, has, table, member, f, record, named, keyed⟩ := h
  rw [entries?_tables has] at read
  obtain ⟨e, listed, entry⟩ := mem_of_mapM read member
  refine ⟨e, listed, ?_⟩
  simp only [record, entityEntry?, named, keyed, Json.required?, Json.string?,
    Option.bind_eq_bind, Option.bind_some, Option.bind_eq_some_iff, Option.pure_def,
    Option.some.injEq] at entry
  obtain ⟨table, -, schema, -, fields, -, associations, -, rfl⟩ := entry
  exact ⟨rfl, rfl⟩

theorem ofDocument_of_entries {R : List EntityEntry → List EntityEntry → Prop}
    {S : Catalog → Catalog → Prop} {v w : Json} (read : Option.Rel R (entries? v) (entries? w))
    (next : ∀ entries entries', entries? v = some entries → R entries entries' →
      Accord S (ofEntries entries) (ofEntries entries')) :
    Accord S (ofDocument v) (ofDocument w) := by
  unfold ofDocument
  revert read next
  generalize entries? v = left
  generalize entries? w = right
  intro read next
  cases read with
  | none => exact .error
  | some related => exact next _ _ rfl related

/-- A document with its tables in another order is as good as it was, and gives the same answers;
with defaults written out, or kinds under their own names, it makes the very same catalog. -/
theorem documents_alike :
    (∀ v w, Reordered v w → Accord SameAnswers (ofDocument v) (ofDocument w)) ∧
      ∀ v w, Respelled v w → Accord Eq (ofDocument v) (ofDocument w) := by
  constructor
  · rintro v w ⟨tables, tables', left, right, moved⟩
    have read : Option.Rel List.Perm (entries? v) (entries? w) := by
      rw [entries?_tables left, entries?_tables right]
      exact rel_mapM_perm entityEntry? moved
    exact ofDocument_of_entries read fun _ _ _ moved => ofEntries_reordered moved
  · intro v w h
    exact ofDocument_of_entries (entries?_spelled h) fun _ _ read completed =>
      ofEntries_completed (fun _ _ => entities_of_declaresKey read) completed

def filmTable : Json :=
  .obj [("name", .str "film"), ("primary_key", .str "film_id"),
    ("fields", .arr [.str "film_id", .str "language_id",
      .obj [("name", .str "title"), ("nullable", .bool false)]]),
    ("association", .arr [.obj [("alias", .str "spoken"), ("kind", .str "Belongs-To"),
      ("target", .str "language")]])]

def filledFilmTable : Json :=
  .obj [("name", .str "film"), ("table", .str "film"), ("primary_key", .str "film_id"),
    ("fields", .arr [.obj [("name", .str "film_id"), ("column", .str "film_id")],
      .str "language_id",
      .obj [("name", .str "title"), ("column", .str "title"), ("nullable", .bool false)]]),
    ("association", .arr [.obj [("alias", .str "spoken"), ("kind", .str "belongs_to"),
      ("target", .str "language"), ("source_key", .str "language_id"),
      ("target_key", .str "language_id")]])]

def languageTable : Json :=
  .obj [("name", .str "language"), ("primary_key", .str "language_id"),
    ("fields", .arr [.str "language_id", .str "name"])]

def documentOf (tables : List Json) : Json :=
  .obj [("entity", .arr tables)]

theorem film_documents_alike :
    (∃ c, ofDocument (documentOf [filmTable, languageTable]) = .ok c) ∧
    Accord SameAnswers (ofDocument (documentOf [filmTable, languageTable]))
      (ofDocument (documentOf [languageTable, filmTable])) ∧
    Accord Eq (ofDocument (documentOf [filmTable, languageTable]))
      (ofDocument (documentOf [filledFilmTable, languageTable])) := by
  refine ⟨?_, documents_alike.1 _ _ ?_, documents_alike.2 _ _ ?_⟩
  · obtain ⟨c, made, -⟩ := exists_ok_of_any (P := fun _ => true)
      (x := ofDocument (documentOf [filmTable, languageTable])) (by decide +kernel)
    exact ⟨c, made⟩
  · exact ⟨_, _, ⟨_, rfl, rfl⟩, ⟨_, rfl, rfl⟩, .swap _ _ []⟩
  · have declared : DeclaresKey (documentOf [filmTable, languageTable]) "language" "language_id" :=
      ⟨_, ⟨_, rfl, rfl⟩, languageTable, by simp, _, rfl, rfl, rfl⟩
    refine .record rfl rfl (.items (.cons (.record rfl rfl ?_) (.cons (.same _) .nil)))
    constructor
    case name | schema | primaryKey => rfl
    case table => exact .absent rfl
    case fields =>
      refine .items (.cons ?_ (.cons (.same _) (.cons ?_ .nil)))
      · exact .bare rfl rfl rfl rfl rfl
      · exact .table rfl rfl rfl (.absent rfl) rfl rfl
    case associations =>
      have spelled : AssociationKind.ofText? "Belongs-To" = some .belongsTo := by decide +kernel
      refine .items (.cons (.record rfl rfl ?_) .nil)
      constructor
      case name | target | through => rfl
      case kind => exact .canonical spelled
      case sourceKey | targetKey =>
        exact .absent ⟨_, .belongsTo, _, rfl, spelled, rfl, declared⟩

end Catalog

end ReadPlan
