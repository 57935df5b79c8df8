import ReadPlan.Proofs.CatalogOrder

namespace ReadPlan

theorem AssociationKind.ofText?_name (kind : AssociationKind) : ofText? kind.name = some kind := by
  cases kind <;> decide +kernel

namespace Catalog

/-! The keys that an association joins by default, from those of its owner and of its target. -/

section

variable (OwnerKey TargetKey : String → Prop)

def DefaultSource : AssociationKind → String → Prop
  | .belongsTo => TargetKey
  | .hasOne | .hasMany | .belongsToMany => OwnerKey

def DefaultTarget : AssociationKind → String → Prop
  | .belongsTo | .belongsToMany => TargetKey
  | .hasOne | .hasMany => OwnerKey

variable {OwnerKey TargetKey} {ownerKey targetKey : String}
  (owner : ∀ key, OwnerKey key → key = ownerKey) (target : ∀ key, TargetKey key → key = targetKey)

include owner target

theorem DefaultSource.eq {kind : AssociationKind} {key : String}
    (h : DefaultSource OwnerKey TargetKey kind key) :
    key = (defaultKeys kind ownerKey targetKey).1 := by
  cases kind with
  | belongsTo => exact target key h
  | hasOne | hasMany | belongsToMany => exact owner key h

theorem DefaultTarget.eq {kind : AssociationKind} {key : String}
    (h : DefaultTarget OwnerKey TargetKey kind key) :
    key = (defaultKeys kind ownerKey targetKey).2 := by
  cases kind with
  | belongsTo | belongsToMany => exact target key h
  | hasOne | hasMany => exact owner key h

end

end Catalog

/-! Entries. -/

/-- The second value is the first one, or a default in its place. -/
def FillsIn (Default : String → Prop) (a b : Option String) : Prop :=
  b = a ∨ a = none ∧ ∃ s, Default s ∧ b = some s

theorem FillsIn.mono {Default Default' : String → Prop} {a b : Option String}
    (h : FillsIn Default a b) (next : ∀ s, Default s → Default' s) : FillsIn Default' a b :=
  h.imp_right fun ⟨absent, s, given, filled⟩ => ⟨absent, s, next s given, filled⟩

theorem FillsIn.getD {Default : String → Prop} {a b : Option String} (h : FillsIn Default a b)
    {usual : String} (only : ∀ s, Default s → s = usual) : b.getD usual = a.getD usual := by
  obtain rfl | ⟨rfl, s, given, rfl⟩ := h
  · rfl
  · exact only s given

section

variable (IsKey : String → String → Prop)

/-- The second entry is the first one with another spelling of its kind and some keys filled in,
where the keys of its target are known from `IsKey`. -/
structure AssociationEntry.Completes (ownerKey : String) (a b : AssociationEntry) : Prop where
  name : b.name = a.name
  kind : AssociationKind.ofText? b.kind = AssociationKind.ofText? a.kind
  target : b.target = a.target
  sourceKey : FillsIn (fun key => ∃ kind, AssociationKind.ofText? a.kind = some kind ∧
    Catalog.DefaultSource (· = ownerKey) (IsKey a.target) kind key) a.sourceKey b.sourceKey
  targetKey : FillsIn (fun key => ∃ kind, AssociationKind.ofText? a.kind = some kind ∧
    Catalog.DefaultTarget (· = ownerKey) (IsKey a.target) kind key) a.targetKey b.targetKey
  through : b.through = a.through

structure EntityEntry.Completes (e e' : EntityEntry) : Prop where
  entity : e'.entity = e.entity
  associations : List.Forall₂ (AssociationEntry.Completes IsKey e.entity.primaryKey)
    e.associations e'.associations

end

theorem AssociationEntry.Completes.refl {IsKey : String → String → Prop} {ownerKey : String}
    (a : AssociationEntry) : a.Completes IsKey ownerKey a :=
  ⟨rfl, rfl, rfl, .inl rfl, .inl rfl, rfl⟩

theorem EntityEntry.Completes.refl {IsKey : String → String → Prop} (e : EntityEntry) :
    e.Completes IsKey e :=
  ⟨rfl, List.forall₂_same.mpr fun a _ => .refl a⟩

namespace Catalog

section

variable {IsKey : String → String → Prop} {entities : List Entity}
  {entries entries' : List EntityEntry}

theorem key_eq (known : ∀ name key, IsKey name key →
      ∃ e ∈ entities, e.name = name ∧ e.primaryKey = key)
    (distinct : (entities.map (·.name)).Nodup) {name key found : String} (h : IsKey name key)
    (lookup : primaryKey? entities name = some found) : key = found := by
  obtain ⟨e, member, named, rfl⟩ := known name key h
  have names : (entities.reverse.map (·.name)).Nodup := by
    rwa [List.map_reverse, List.nodup_reverse]
  have here := (find?_eq_some_of_nodup names).mpr ⟨List.mem_reverse.mpr member, named⟩
  rw [primaryKey?, here] at lookup
  cases lookup
  rfl

variable (known : ∀ name key, IsKey name key →
    ∃ e ∈ entities, e.name = name ∧ e.primaryKey = key)
  (distinct : (entities.map (·.name)).Nodup)

include known distinct

theorem resolveEntry_completed {owner : Entity} {a b : AssociationEntry}
    (h : a.Completes IsKey owner.primaryKey b) :
    Accord Eq (resolveEntry entities owner a) (resolveEntry entities owner b) := by
  obtain ⟨name, kind, target, sourceKey, targetKey, through⟩ := h
  unfold resolveEntry
  rw [kind, target]
  split
  · exact .error
  · rename_i kind spelled
    split
    · exact .error
    · rename_i key found
      have owners : ∀ k, k = owner.primaryKey → k = owner.primaryKey := fun _ => id
      have targets : ∀ k, IsKey a.target k → k = key := fun k usual =>
        key_eq known distinct usual found
      have source : b.sourceKey.getD (defaultKeys kind owner.primaryKey key).1 =
          a.sourceKey.getD (defaultKeys kind owner.primaryKey key).1 := by
        refine sourceKey.getD ?_
        rintro s ⟨kind', spelled', usual⟩
        cases spelled.symm.trans spelled'
        exact usual.eq owners targets
      have target : b.targetKey.getD (defaultKeys kind owner.primaryKey key).2 =
          a.targetKey.getD (defaultKeys kind owner.primaryKey key).2 := by
        refine targetKey.getD ?_
        rintro s ⟨kind', spelled', usual⟩
        cases spelled.symm.trans spelled'
        exact usual.eq owners targets
      simp only [name, through, source, target]
      exact .ok rfl

theorem resolveAll_completed (h : List.Forall₂ (EntityEntry.Completes IsKey) entries entries') :
    Accord Eq (resolveAll entities entries) (resolveAll entities entries') := by
  have pairs : List.Forall₂ (fun x y => x.1 = y.1 ∧ x.2.Completes IsKey x.1.primaryKey y.2)
      (entryPairs entries) (entryPairs entries') := by
    induction h with
    | nil => exact .nil
    | @cons e e' _ _ first _ ih =>
      refine List.rel_append ?_ ih
      rw [List.forall₂_map_left_iff, List.forall₂_map_right_iff]
      exact first.associations.imp fun a b completed => ⟨first.entity.symm, completed⟩
  have each : Accord (List.Forall₂ Eq) (resolveAll entities entries)
      (resolveAll entities entries') := by
    refine Accord.mapM ?_ pairs
    rintro ⟨owner, a⟩ ⟨_, b⟩ ⟨rfl, completed⟩
    exact resolveEntry_completed known distinct completed
  rwa [List.forall₂_eq_eq_eq] at each

end

section

variable {IsKey : String → String → Prop} {entries entries' : List EntityEntry}

theorem ofEntries_eq_error (h : ¬ ((entries.map (·.entity)).map (·.name)).Nodup) :
    ∃ e, ofEntries entries = .error e := by
  cases made : ofEntries entries with
  | error e => exact ⟨e, rfl⟩
  | ok c =>
    obtain ⟨ds, -, rfl, valid⟩ := ofEntries_eq_ok_iff.mp made
    exact absurd valid.entityNames h

/-- Completed entries make the same catalog. Two entities of one name make none. -/
theorem ofEntries_completed (known : ∀ name key, IsKey name key →
      ∃ e ∈ entries, e.entity.name = name ∧ e.entity.primaryKey = key)
    (h : List.Forall₂ (EntityEntry.Completes IsKey) entries entries') :
    Accord Eq (ofEntries entries) (ofEntries entries') := by
  have entities : entries'.map (·.entity) = entries.map (·.entity) := by
    symm
    rw [← List.forall₂_eq_eq_eq, List.forall₂_map_left_iff, List.forall₂_map_right_iff]
    exact h.imp fun e e' completed => completed.entity.symm
  by_cases distinct : ((entries.map (·.entity)).map (·.name)).Nodup
  · rw [ofEntries_eq, ofEntries_eq, entities]
    refine (resolveAll_completed ?_ distinct h).bind ?_
    · intro name key usual
      obtain ⟨e, member, here⟩ := known name key usual
      exact ⟨e.entity, List.mem_map_of_mem member, here⟩
    · rintro ds _ rfl
      exact .refl (fun _ => rfl) _
  · obtain ⟨e, failed⟩ := ofEntries_eq_error distinct
    rw [← entities] at distinct
    obtain ⟨e', failed'⟩ := ofEntries_eq_error distinct
    rw [failed, failed']
    exact .error

end

end Catalog

end ReadPlan
