import Mathlib.Logic.Relation
import Confinement.Proofs.Access.Operation

/-!
# Chains of views

A view stands in front of its target, and the target may be a view again. In a grounded store every
target is older than its view, so the chain ends at a value that is no view. Stores only grow: what
came into being stays what it is, and with it every chain.
-/
namespace Confinement

variable {code : Type}

theorem Value.sameIdentity_iff {v w : Value} :
    v.sameIdentity w = true ↔ v = w ∧ v.isReference = true := by
  cases v <;> cases w <;> simp [sameIdentity, isReference, id?]

namespace Store

/-- The view `v` stands directly in front of `w`. -/
def Fronts (s : Store code) (v w : Value) : Prop := ∃ allow, s.view? v = some (w, allow)

/-- The view `v` stands in front of `w`, directly or through other views. -/
def Behind (s : Store code) : Value → Value → Prop := Relation.TransGen s.Fronts

/-- Every view is younger than what it stands in front of. -/
def Grounded (s : Store code) : Prop :=
  ∀ id target allow, s.origin? id = some (.view target allow) → ∀ j ∈ target.id?, j < id

/-- A later store: nothing is forgotten, and objects keep their origins. -/
structure Extends (s t : Store code) : Prop where
  size_le : s.size ≤ t.size
  origin?_eq : ∀ id < s.size, t.origin? id = s.origin? id

variable {s t : Store code} {v w : Value}

theorem lt_size_of_entity? {id : EntityId} {e : Entity code} (h : s.entity? id = some e) :
    id < s.size :=
  (Array.getElem?_eq_some_iff.mp h).choose

theorem lt_size_of_origin? {id : EntityId} {origin : ObjectOrigin}
    (h : s.origin? id = some origin) : id < s.size := by
  unfold origin? at h
  split at h
  · rename_i he
    exact lt_size_of_entity? he
  · cases h

theorem lt_size_of_function? {id : EntityId} {f : FunctionRecord code}
    (h : s.function? id = some f) : id < s.size := by
  unfold function? at h
  split at h
  · rename_i he
    exact lt_size_of_entity? he
  · cases h

/-- A new object is behind all that the store has, with the origin it was made with. -/
theorem origin?_newObject (s : Store code) (origin : ObjectOrigin) (entries : List (String × Slot))
    (frozen tamed : Bool) :
    (s.newObject origin entries frozen tamed).2.origin? s.size = some origin := by
  have hentity : (s.newObject origin entries frozen tamed).2.entity? s.size =
      some ⟨.object origin tamed, Table.ofList entries, frozen⟩ := s.entity?_alloc_self _
  simp only [origin?, hentity]

theorem Fronts.exists_id (h : s.Fronts v w) : ∃ id, v = .object id ∧ id < s.size := by
  obtain ⟨allow, hview⟩ := h
  obtain ⟨id, hv, horigin⟩ := view?_eq_some_iff.mp hview
  exact ⟨id, hv, lt_size_of_origin? horigin⟩

theorem view?_eq_none_or_fronts (s : Store code) (v : Value) :
    s.view? v = none ∨ ∃ w, s.Fronts v w := by
  cases h : s.view? v with
  | none => exact .inl rfl
  | some found => exact .inr ⟨found.1, found.2, h⟩

theorem Grounded.lt_of_fronts (grounded : s.Grounded) {i j : EntityId}
    (h : s.Fronts (.object i) w) (hj : w.id? = some j) : j < i := by
  obtain ⟨allow, hview⟩ := h
  obtain ⟨id, hv, horigin⟩ := view?_eq_some_iff.mp hview
  cases hv
  exact grounded _ w allow horigin j hj

/-- Going down a chain leads to ever older values. -/
theorem Grounded.lt_of_behind (grounded : s.Grounded) {i j : EntityId}
    (h : s.Behind (.object i) w) (hj : w.id? = some j) : j < i := by
  induction h generalizing j with
  | single h => exact grounded.lt_of_fronts h hj
  | tail _ h ih =>
    obtain ⟨k, rfl, -⟩ := h.exists_id
    exact (grounded.lt_of_fronts h hj).trans (ih rfl)

/-- A view does not stand in front of itself. -/
theorem Grounded.not_behind_self (grounded : s.Grounded) : ¬ s.Behind v v := by
  intro h
  obtain ⟨w, hfronts, -⟩ := Relation.TransGen.head'_iff.mp h
  obtain ⟨id, rfl, -⟩ := hfronts.exists_id
  exact lt_irrefl id (grounded.lt_of_behind h rfl)

theorem resolveWithin_of_view?_eq_none (h : s.view? v = none) (n : Nat) :
    s.resolveWithin n v = v := by
  cases n with
  | zero => rfl
  | succ n => rw [resolveWithin, h]

theorem resolve_of_view?_eq_none (h : s.view? v = none) : s.resolve v = v :=
  resolveWithin_of_view?_eq_none h s.size

theorem resolveWithin_succ_of_fronts (h : s.Fronts v w) (n : Nat) :
    s.resolveWithin (n + 1) v = s.resolveWithin n w := by
  obtain ⟨allow, hview⟩ := h
  rw [resolveWithin, hview]

/-- As many steps as there are older values lead to the end of a chain. -/
theorem Grounded.view?_resolveWithin (grounded : s.Grounded) {n : Nat}
    (h : ∀ id ∈ v.id?, id < n) : s.view? (s.resolveWithin n v) = none := by
  induction n generalizing v with
  | zero =>
    rw [resolveWithin]
    cases v with
    | object id => exact absurd (h id rfl) (Nat.not_lt_zero id)
    | _ => rfl
  | succ n ih =>
    rcases s.view?_eq_none_or_fronts v with hview | ⟨w, hfronts⟩
    · rw [resolveWithin_of_view?_eq_none hview]
      exact hview
    · obtain ⟨id, rfl, -⟩ := hfronts.exists_id
      rw [resolveWithin_succ_of_fronts hfronts]
      exact ih fun j hj =>
        (grounded.lt_of_fronts hfronts hj).trans_le (Nat.le_of_lt_add_one (h id rfl))

/-- Once a chain has ended, further steps change nothing. -/
theorem resolveWithin_succ_of_ended {n : Nat} (h : s.view? (s.resolveWithin n v) = none) :
    s.resolveWithin (n + 1) v = s.resolveWithin n v := by
  induction n generalizing v with
  | zero => exact resolveWithin_of_view?_eq_none h 1
  | succ n ih =>
    rcases s.view?_eq_none_or_fronts v with hview | ⟨w, hfronts⟩
    · simp only [resolveWithin_of_view?_eq_none hview]
    · rw [resolveWithin_succ_of_fronts hfronts] at h
      rw [resolveWithin_succ_of_fronts hfronts, resolveWithin_succ_of_fronts hfronts]
      exact ih h

theorem Grounded.resolve_eq_of_fronts (grounded : s.Grounded) (h : s.Fronts v w) :
    s.resolve v = s.resolve w := by
  obtain ⟨id, rfl, hid⟩ := h.exists_id
  obtain ⟨n, hn⟩ := Nat.exists_eq_add_one_of_ne_zero (Nat.ne_zero_of_lt hid)
  have hended : s.view? (s.resolveWithin n w) = none := by
    refine grounded.view?_resolveWithin fun j hj => ?_
    exact (grounded.lt_of_fronts h hj).trans_le (Nat.le_of_lt_add_one (hn ▸ hid))
  rw [resolve, resolve, hn, resolveWithin_succ_of_fronts h, resolveWithin_succ_of_ended hended]

theorem Grounded.resolve_eq_of_behind (grounded : s.Grounded) (h : s.Behind v w) :
    s.resolve v = s.resolve w := by
  induction h with
  | single h => exact grounded.resolve_eq_of_fronts h
  | tail _ h ih => rw [ih, grounded.resolve_eq_of_fronts h]

/-- What a value finally stands for is no view. -/
theorem Grounded.view?_resolve (grounded : s.Grounded) (v : Value) :
    s.view? (s.resolve v) = none := by
  rcases s.view?_eq_none_or_fronts v with hview | ⟨w, hfronts⟩
  · rw [resolve_of_view?_eq_none hview]
    exact hview
  · obtain ⟨id, rfl, hid⟩ := hfronts.exists_id
    refine grounded.view?_resolveWithin fun j hj => ?_
    cases hj
    exact hid

/-- The end of a chain is its only link that is no view. -/
theorem Grounded.eq_resolve_of_behind (grounded : s.Grounded) (h : s.Behind v w)
    (hw : s.view? w = none) : w = s.resolve v := by
  rw [grounded.resolve_eq_of_behind h, resolve_of_view?_eq_none hw]

theorem behind_resolveWithin (h : s.Fronts v w) (n : Nat) :
    s.Behind v (s.resolveWithin n w) := by
  induction n generalizing v w with
  | zero => exact .single h
  | succ n ih =>
    rcases s.view?_eq_none_or_fronts w with hview | ⟨u, hfronts⟩
    · rw [resolveWithin_of_view?_eq_none hview]
      exact .single h
    · rw [resolveWithin_succ_of_fronts hfronts]
      exact .head h (ih hfronts)

theorem Grounded.behind_resolve (grounded : s.Grounded) (h : s.Fronts v w) :
    s.Behind v (s.resolve v) := by
  rw [grounded.resolve_eq_of_fronts h]
  exact behind_resolveWithin h s.size

/-- Whatever a view finally stands for, if it is an object or function, is in the store. -/
theorem Grounded.resolve_lt_size (grounded : s.Grounded) (h : s.Fronts v w) {j : EntityId}
    (hj : (s.resolve v).id? = some j) : j < s.size := by
  have hbehind := grounded.behind_resolve h
  obtain ⟨id, rfl, hid⟩ := h.exists_id
  exact (grounded.lt_of_behind hbehind hj).trans hid

namespace Extends

theorem refl (s : Store code) : s.Extends s := ⟨le_rfl, fun _ _ => rfl⟩

theorem trans {u : Store code} (h : s.Extends t) (h' : t.Extends u) : s.Extends u := by
  refine ⟨h.size_le.trans h'.size_le, fun id hid => ?_⟩
  rw [h'.origin?_eq id (hid.trans_le h.size_le), h.origin?_eq id hid]

theorem alloc (s : Store code) (e : Entity code) : s.Extends (s.alloc e).2 := by
  refine ⟨by simp, fun id hid => ?_⟩
  simp only [origin?, entity?_alloc_of_lt s e hid]

/-- What a value in the store stands in front of does not change. -/
theorem view?_eq (h : s.Extends t) (hv : ∀ id ∈ v.id?, id < s.size) : t.view? v = s.view? v := by
  cases v with
  | object id => simp only [view?, h.origin?_eq id (hv id rfl)]
  | _ => rfl

theorem view?_eq_of_fronts (h : s.Extends t) (hv : s.Fronts v w) : t.view? v = s.view? v := by
  obtain ⟨id, rfl, hid⟩ := hv.exists_id
  refine h.view?_eq fun j hj => ?_
  cases hj
  exact hid

theorem resolveWithin_eq (h : s.Extends t) (grounded : s.Grounded) (n : Nat)
    (hv : ∀ id ∈ v.id?, id < s.size) : t.resolveWithin n v = s.resolveWithin n v := by
  induction n generalizing v with
  | zero => rfl
  | succ n ih =>
    rw [resolveWithin, resolveWithin, h.view?_eq hv]
    cases hview : s.view? v with
    | none => rfl
    | some found =>
      have hfronts : s.Fronts v found.1 := ⟨found.2, hview⟩
      obtain ⟨id, rfl, hid⟩ := hfronts.exists_id
      exact ih fun j hj => (grounded.lt_of_fronts hfronts hj).trans hid

/-- A view goes on standing for what it stood for. -/
theorem resolve_eq (h : s.Extends t) (grounded : s.Grounded) (hv : s.Fronts v w) :
    t.resolve v = s.resolve v := by
  obtain ⟨id, rfl, hid⟩ := hv.exists_id
  have hlt : ∀ j ∈ (Value.object id).id?, j < s.size := by
    intro j hj
    cases hj
    exact hid
  have more (k : Nat) :
      s.resolveWithin (s.size + k) (.object id) = s.resolveWithin s.size (.object id) := by
    induction k with
    | zero => rfl
    | succ k ih =>
      refine (resolveWithin_succ_of_ended ?_).trans ih
      exact grounded.view?_resolveWithin fun j hj => (hlt j hj).trans_le (Nat.le_add_right _ _)
  obtain ⟨k, hk⟩ := Nat.exists_eq_add_of_le h.size_le
  rw [resolve, h.resolveWithin_eq grounded t.size hlt, hk, more, resolve]

end Extends

end Store

end Confinement
