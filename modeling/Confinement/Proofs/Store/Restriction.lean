import Confinement.Proofs.Access.Operation

/-!
# Leaving members out

A store can be cut down to some members of one value. Two stores differ at most in the other members
of that value exactly if they are cut down to the same store. Cutting down commutes with every
change to a member that is kept, and leaves the natures and all kept slots as they are.
-/
namespace Confinement

variable {code : Type}

namespace Table

variable {α : Type*}

/-- The entries whose names are in `A`, in their order. -/
def restrict (t : Table α) (A : List String) : Table α where
  entries := t.entries.filter (·.1 ∈ A)
  nodup := (List.filter_sublist.map Prod.fst).nodup t.nodup

theorem findEntry_filter (A : List String) (k : String) (l : List (String × α)) :
    findEntry k (l.filter (·.1 ∈ A)) = if k ∈ A then findEntry k l else none := by
  induction l with
  | nil => simp [findEntry]
  | cons e rest ih =>
    obtain ⟨k', v⟩ := e
    by_cases hk' : k' ∈ A
    · rw [List.filter_cons_of_pos (by simpa using hk'), findEntry, findEntry, ih]
      by_cases hk : k' = k
      · rw [if_pos hk, if_pos hk, if_pos (hk ▸ hk')]
      · rw [if_neg hk, if_neg hk]
    · rw [List.filter_cons_of_neg (by simpa using hk'), ih, findEntry]
      by_cases hk : k' = k
      · rw [if_neg (hk ▸ hk'), if_neg (hk ▸ hk')]
      · rw [if_neg hk]

theorem find?_restrict (t : Table α) (A : List String) (k : String) :
    (t.restrict A).find? k = if k ∈ A then t.find? k else none :=
  findEntry_filter A k t.entries

theorem filter_insertEntry {A : List String} {k : String} (hk : k ∈ A) (v : α)
    (l : List (String × α)) :
    (insertEntry k v l).filter (·.1 ∈ A) = insertEntry k v (l.filter (·.1 ∈ A)) := by
  induction l with
  | nil => simp [insertEntry, hk]
  | cons e rest ih =>
    obtain ⟨k', v'⟩ := e
    rw [insertEntry]
    by_cases heq : k' = k
    · subst heq
      simp [insertEntry, hk]
    · rw [if_neg heq]
      by_cases hk' : k' ∈ A
      · rw [List.filter_cons_of_pos (by simpa using hk'),
          List.filter_cons_of_pos (by simpa using hk'), insertEntry, if_neg heq, ih]
      · rw [List.filter_cons_of_neg (by simpa using hk'),
          List.filter_cons_of_neg (by simpa using hk'), ih]

theorem restrict_insert (t : Table α) {A : List String} {k : String} (hk : k ∈ A) (v : α) :
    (t.insert k v).restrict A = (t.restrict A).insert k v :=
  Table.ext (filter_insertEntry hk v t.entries)

theorem restrict_erase (t : Table α) (A : List String) (k : String) :
    (t.erase k).restrict A = (t.restrict A).erase k :=
  Table.ext (List.filter_comm _ _ _)

end Table

namespace Entity

/-- The entity without the properties whose names are not in `A`. -/
def restrict (e : Entity code) (A : List String) : Entity code :=
  { e with properties := e.properties.restrict A }

theorem find?_restrict (e : Entity code) {A : List String} {m : String} (hm : m ∈ A) :
    (e.restrict A).properties.find? m = e.properties.find? m := by
  rw [restrict, Table.find?_restrict, if_pos hm]

theorem isImmutable_restrict (e : Entity code) {A : List String} {m : String} (hm : m ∈ A) :
    (e.restrict A).isImmutable m = e.isImmutable m := by
  rw [isImmutable, isImmutable, e.find?_restrict hm, restrict]

theorem restrict_setValue (e : Entity code) {A : List String} {m : String} (hm : m ∈ A)
    (x : Value) : (e.setValue m x).restrict A = (e.restrict A).setValue m x := by
  simp only [setValue, e.find?_restrict hm]
  cases e.properties.find? m with
  | none => simp only [define, restrict, Table.restrict_insert _ hm]
  | some slot => simp only [define, restrict, Table.restrict_insert _ hm]

theorem restrict_eraseProperty (e : Entity code) (A : List String) (m : String) :
    (e.eraseProperty m).restrict A = (e.restrict A).eraseProperty m := by
  simp only [eraseProperty, restrict, Table.restrict_erase]

/-- Two entities that differ at most in the properties whose names are not in `A`. Those in `A` are
the same, in the same relative order. -/
structure AgreeOn (A : List String) (e f : Entity code) : Prop where
  nature : e.nature = f.nature
  frozen : e.frozen = f.frozen
  listed : e.properties.entries.filter (·.1 ∈ A) = f.properties.entries.filter (·.1 ∈ A)

theorem agreeOn_iff {A : List String} {e f : Entity code} :
    e.AgreeOn A f ↔ e.restrict A = f.restrict A := by
  constructor
  · rintro ⟨nature, frozen, listed⟩
    have properties : e.properties.restrict A = f.properties.restrict A := Table.ext listed
    rw [restrict, restrict, nature, frozen, properties]
  · intro h
    obtain ⟨nature, properties, frozen⟩ := Entity.mk.inj h
    exact ⟨nature, frozen, congrArg Table.entries properties⟩

theorem rel_agreeOn_iff {A : List String} {a b : Option (Entity code)} :
    Option.Rel (AgreeOn A) a b ↔ a.map (·.restrict A) = b.map (·.restrict A) := by
  cases a with
  | none =>
    cases b with
    | none => exact ⟨fun _ => rfl, fun _ => .none⟩
    | some f => exact ⟨fun h => (by cases h), fun h => (by cases h)⟩
  | some e =>
    cases b with
    | none => exact ⟨fun h => (by cases h), fun h => (by cases h)⟩
    | some f => rw [Option.rel_some_some, agreeOn_iff, Option.map_some, Option.map_some,
        Option.some.injEq]

end Entity

namespace Store

/-- The store in which the value `o` has no properties but those whose names are in `A`. -/
def restrict (s : Store code) (o : Value) (A : List String) : Store code :=
  o.id?.elim s fun id => s.update id (·.restrict A)

/-- Two stores that differ at most in the properties of `o` whose names are not in `A`. -/
structure AgreeBut (o : Value) (A : List String) (s t : Store code) : Prop where
  elsewhere : ∀ id, o.id? ≠ some id → s.entity? id = t.entity? id
  there : ∀ id, o.id? = some id → Option.Rel (Entity.AgreeOn A) (s.entity? id) (t.entity? id)

theorem ext_entity? {s t : Store code} (h : ∀ id, s.entity? id = t.entity? id) : s = t := by
  cases s
  cases t
  exact congrArg Store.mk (Array.ext_getElem? h)

variable (s : Store code) (o : Value) (A : List String)

theorem entity?_restrict (id : EntityId) : (s.restrict o A).entity? id =
    if o.id? = some id then (s.entity? id).map (·.restrict A) else s.entity? id := by
  unfold restrict
  cases o.id? with
  | none => rfl
  | some j => simp only [Option.elim_some, entity?_update, Option.some.injEq]

theorem sameNatures_restrict : s.SameNatures (s.restrict o A) := by
  unfold restrict
  cases o.id? with
  | none => exact .refl s
  | some id => exact s.sameNatures_update id fun _ => rfl

theorem entityOf?_restrict : (s.restrict o A).entityOf? o = (s.entityOf? o).map (·.restrict A) := by
  unfold entityOf?
  cases h : o.id? with
  | none => rfl
  | some id => rw [Option.bind_some, Option.bind_some, entity?_restrict, if_pos h]

variable {A}

theorem slot?_restrict {m : String} (hm : m ∈ A) (id : EntityId) :
    (s.restrict o A).slot? id m = s.slot? id m := by
  unfold slot?
  rw [entity?_restrict]
  split
  · cases s.entity? id with
    | none => rfl
    | some e => simp only [Option.map_some, Option.bind_some, e.find?_restrict hm]
  · rfl

/-- A change that respects leaving members out can be made before or after it. -/
theorem restrict_update {f : Entity code → Entity code}
    (h : ∀ e, (f e).restrict A = f (e.restrict A)) (id : EntityId) :
    (s.update id f).restrict o A = (s.restrict o A).update id f := by
  refine ext_entity? fun j => ?_
  simp only [entity?_restrict, entity?_update]
  by_cases hid : id = j <;> by_cases hj : o.id? = some j <;> simp [hid, hj, Function.comp_def, h]

variable {s o} {t : Store code}

/-- What counts is what remains when the other members are left out. -/
theorem agreeBut_iff : s.AgreeBut o A t ↔ s.restrict o A = t.restrict o A := by
  constructor
  · intro h
    refine ext_entity? fun id => ?_
    rw [entity?_restrict, entity?_restrict]
    split
    · exact Entity.rel_agreeOn_iff.mp (h.there id ‹_›)
    · exact h.elsewhere id ‹_›
  · intro h
    have same (id : EntityId) := congrArg (·.entity? id) h
    simp only [entity?_restrict] at same
    refine ⟨fun id hid => ?_, fun id hid => ?_⟩
    · simpa only [if_neg hid] using same id
    · exact Entity.rel_agreeOn_iff.mpr (by simpa only [if_pos hid] using same id)

theorem AgreeBut.sameNatures (h : s.AgreeBut o A t) : s.SameNatures t := by
  intro id
  rw [s.sameNatures_restrict o A id, agreeBut_iff.mp h, ← t.sameNatures_restrict o A id]

end Store

end Confinement
