import Confinement.Proofs.Access.PlainObject
import Confinement.Proofs.Registry.Overwriting
import Confinement.Proofs.Store.Persistence

/-!
# Display objects

Some host objects are made only to be looked at: each member comes with a grant that is attached to
it, and the object is frozen. What the registry grants to the class counts for no member that has a
grant attached, so a guest sees the members as they were put there, whatever the registry. For other
names the class may have grants, but there is nothing to be had. And no guest ever changes the
object.
-/
namespace Confinement

variable {code : Type}

/-- A member together with the grant that is attached to it. -/
structure Exhibit where
  name : String
  slot : Slot
  caps : CapabilitySet

namespace HostObject

def exhibit (h : HostObject) (x : Exhibit) : HostObject :=
  (h.slot x.name x.slot).grant x.name x.caps

/-- A frozen object of a class with these members. -/
def display (cls : String) (xs : List Exhibit) : HostObject :=
  { xs.foldl exhibit { cls } with frozen := true }

theorem slots_foldl_exhibit (h : HostObject) (xs : List Exhibit) :
    (xs.foldl exhibit h).slots = h.slots ++ xs.map fun x => (x.name, x.slot) := by
  induction xs generalizing h with
  | nil => simp
  | cons x xs ih =>
    rw [List.foldl_cons, ih]
    simp [exhibit, slot, grant]

theorem grants_foldl_exhibit (h : HostObject) (xs : List Exhibit) :
    (xs.foldl exhibit h).grants =
      (xs.map fun x => (x.name, x.caps)).foldl (fun t e => t.insert e.1 e.2) h.grants := by
  induction xs generalizing h with
  | nil => rfl
  | cons x xs ih =>
    rw [List.foldl_cons, ih]
    rfl

end HostObject

namespace Access

/-- The entity `id` is a frozen host object with these members. -/
def Displays (s : Store code) (id : EntityId) (xs : List Exhibit) : Prop :=
  ∃ cls members grants, s.entity? id = some ⟨.object (.host cls grants) false, members, true⟩ ∧
    members.entries = (xs.map fun x => (x.name, x.slot)) ∧
    grants.entries = xs.map fun x => (x.name, x.caps)

theorem displays_build (cls : String) {xs : List Exhibit} (nodup : (xs.map Exhibit.name).Nodup)
    (s : Store code) : Displays ((HostObject.display cls xs).build s).2 s.size xs := by
  have slots := HostObject.slots_foldl_exhibit { cls } xs
  have grants := HostObject.grants_foldl_exhibit { cls } xs
  refine ⟨_, _, _, s.entity?_alloc_self _, ?_, ?_⟩
  · have hslots : (HostObject.display cls xs).slots = xs.map fun x => (x.name, x.slot) := slots
    rw [hslots]
    refine Table.entries_ofList ?_
    simpa [Function.comp_def] using nodup
  · have hgrants : (HostObject.display cls xs).grants =
        Table.ofList (xs.map fun x => (x.name, x.caps)) := grants
    rw [hgrants]
    refine Table.entries_ofList ?_
    simpa [Function.comp_def] using nodup

namespace Displays

variable {r : Registry} {s t : Store code} {id : EntityId} {xs : List Exhibit} {x : Exhibit}
  {name : String}

theorem endures (h : Displays s id xs) (endures : s.Endures t) : Displays t id xs := by
  obtain ⟨cls, members, grants, held, hmembers, hgrants⟩ := h
  exact ⟨cls, members, grants, endures.entity?_of_frozen held rfl, hmembers, hgrants⟩

theorem view?_eq_none (h : Displays s id xs) : s.view? (.object id) = none := by
  obtain ⟨cls, members, grants, held, -⟩ := h
  refine Store.view?_eq_none rfl fun target allow => ?_
  simp [Store.origin?, held]

/-- The attached grant outranks what the class has. -/
theorem check_of_mem (h : Displays s id xs) (ungranted : ∀ m, r.granted? (.ofInstance id) m = none)
    (hx : x ∈ xs) (free : Text.isReserved x.name = false) (c : Capability) :
    r.check s (.object id) x.name c = x.caps.contains c := by
  obtain ⟨cls, members, grants, held, -, hgrants⟩ := h
  have horigin : s.origin? id = some (.host cls grants) := by simp [Store.origin?, held]
  have attached : grants.find? x.name = some x.caps :=
    Table.find?_of_mem (hgrants ▸ List.mem_map_of_mem hx)
  have silent : r.instanceGrant? (.object id) x.name = none := ungranted x.name
  rw [Registry.check, r.capabilities_host horigin free, silent, attached]
  rfl

theorem lookup?_of_mem (h : Displays s id xs) (hx : x ∈ xs) :
    lookup? s (.object id) x.name = some x.slot.value := by
  have resolved := Store.resolve_of_view?_eq_none h.view?_eq_none
  obtain ⟨cls, members, grants, held, hmembers, -⟩ := h
  have hslot : members.find? x.name = some x.slot :=
    Table.find?_of_mem (hmembers ▸ List.mem_map_of_mem hx)
  simp only [lookup?, resolved, Store.entityOf?, Value.id?, Option.bind_some, held,
    Entity.ownValue?, hslot, Option.map_some]

theorem lookup?_of_notMem (h : Displays s id xs) (hname : name ∉ xs.map Exhibit.name) :
    lookup? s (.object id) name = none := by
  have resolved := Store.resolve_of_view?_eq_none h.view?_eq_none
  obtain ⟨cls, members, grants, held, hmembers, -⟩ := h
  have hslot : members.find? name = none := by
    by_contra hsome
    have hkey := Table.mem_keys_iff.mpr (Option.isSome_iff_ne_none.mpr hsome)
    rw [Table.keys, hmembers, List.map_map] at hkey
    exact hname hkey
  simp only [lookup?, resolved, Store.entityOf?, Value.id?, Option.bind_some, held,
    Entity.ownValue?, hslot, Option.map_none]

/-- A member that is shown for reading reads as it was put there. -/
theorem read_of_mem (h : Displays s id xs) (ungranted : ∀ m, r.granted? (.ofInstance id) m = none)
    (hx : x ∈ xs) (free : Text.isReserved x.name = false) (hread : x.caps.contains .read = true) :
    read r s (.object id) x.name = .ok x.slot.value := by
  have granted := (h.check_of_mem ungranted hx free .read).trans hread
  refine granted_eq_ok_iff.mpr ⟨⟨nofun, nofun, nofun⟩, granted, ?_⟩
  rw [rewrap, h.view?_eq_none, h.lookup?_of_mem hx, Option.getD_some]

/-- Any other name has no value, even if it may be read. -/
theorem eq_missing_of_read (h : Displays s id xs) (hname : name ∉ xs.map Exhibit.name) {y : Value}
    (hread : read r s (.object id) name = .ok y) : y = .missing := by
  obtain ⟨-, -, hact⟩ := granted_eq_ok_iff.mp hread
  rw [rewrap, h.view?_eq_none, h.lookup?_of_notMem hname, Option.getD_none] at hact
  exact (Except.ok.inj hact).symm

/-- The members that are shown for enumeration are listed in order. -/
theorem keys_eq (h : Displays s id xs) (ungranted : ∀ m, r.granted? (.ofInstance id) m = none)
    (free : ∀ x ∈ xs, Text.isReserved x.name = false) : keys r s (.object id) =
      .ok ((xs.filter fun x => x.slot.enumerable && x.caps.contains .enumerate).map
        Exhibit.name) := by
  have check := fun x hx => h.check_of_mem ungranted (x := x) hx (free x hx) .enumerate
  have resolved := Store.resolve_of_view?_eq_none h.view?_eq_none
  obtain ⟨cls, members, grants, held, hmembers, -⟩ := h
  have hentity : s.entityOf? (s.resolve (.object id)) =
      some ⟨.object (.host cls grants) false, members, true⟩ := by
    rw [resolved]
    exact held
  have listed : (⟨.object (.host cls grants) false, members, true⟩ : Entity code).enumerableKeys =
      (xs.filter (·.slot.enumerable)).map Exhibit.name := by
    rw [Entity.enumerableKeys, hmembers, List.filter_map, List.map_map]
    rfl
  simp only [keys, requireObject, hentity, listed]
  refine congrArg Except.ok ?_
  rw [List.filter_map, List.filter_filter]
  refine congrArg (List.map Exhibit.name) (List.filter_congr fun x hx => ?_)
  rw [Function.comp_apply, free x hx, check x hx, Bool.not_false, Bool.true_and, Bool.and_comm]

end Displays

end Access

end Confinement
