import Confinement.Proofs.Invocation.Growth

/-!
# What a view lets out

Reading through a view and calling its methods hand back the view itself in place of the value that
it finally stands for. The views in between are another matter: one that lies in a slot of the
target, or that a method returns, comes out as it is. So of all that a view stands in front of,
exactly the views can come out, and each of them exactly when it was stored or returned.
-/
namespace Confinement

variable {code σ : Type}

namespace Access

variable {s t : Store code} {v target w : Value}

/-- Of what a view stands in front of, rewrapping lets the views pass and nothing else. -/
theorem sameIdentity_rewrap_iff (grounded : s.Grounded) (hv : s.Fronts v target)
    (behind : s.Behind v w) (y : Value) :
    (rewrap s v y).sameIdentity w = true ↔ s.view? w ≠ none ∧ y = w := by
  obtain ⟨allow, hview⟩ := hv
  rw [rewrap, hview]
  dsimp only
  by_cases hsame : y.sameIdentity (s.resolve v) = true
  · -- the view comes back in place of the value it stands for, and it is not behind itself
    rw [if_pos hsame]
    obtain ⟨rfl, -⟩ := Value.sameIdentity_iff.mp hsame
    constructor
    · intro h
      obtain ⟨rfl, -⟩ := Value.sameIdentity_iff.mp h
      exact absurd behind grounded.not_behind_self
    · rintro ⟨hw, rfl⟩
      exact absurd (grounded.view?_resolve v) hw
  · rw [if_neg hsame]
    constructor
    · intro h
      obtain ⟨rfl, -⟩ := Value.sameIdentity_iff.mp h
      refine ⟨fun hw => hsame ?_, rfl⟩
      rw [← grounded.eq_resolve_of_behind behind hw]
      exact h
    · rintro ⟨hw, rfl⟩
      rcases s.view?_eq_none_or_fronts y with hnone | ⟨u, hfronts⟩
      · exact absurd hnone hw
      · obtain ⟨id, rfl, -⟩ := hfronts.exists_id
        exact Value.sameIdentity_iff.mpr ⟨rfl, rfl⟩

theorem not_sameIdentity_rewrap_resolve (grounded : s.Grounded) (hv : s.Fronts v target)
    (y : Value) : (rewrap s v y).sameIdentity (s.resolve v) = false := by
  refine Bool.not_eq_true _ ▸ fun h => ?_
  exact ((sameIdentity_rewrap_iff grounded hv (grounded.behind_resolve hv) y).mp h).1
    (grounded.view?_resolve v)

/-- Rewrapping does not depend on what has been added to the store. -/
theorem rewrap_of_extends (hst : s.Extends t) (grounded : s.Grounded) (hv : s.Fronts v target)
    (y : Value) : rewrap t v y = rewrap s v y := by
  rw [rewrap, rewrap, hst.view?_eq_of_fronts hv, hst.resolve_eq grounded hv]

theorem eq_of_read_eq_ok {r : Registry} {m : String} {x : Value} (h : read r s v m = .ok x) :
    x = rewrap s v ((lookup? s v m).getD .missing) :=
  (Except.ok.inj (of_granted_eq_ok h).2).symm

end Access

namespace Invocation

theorem callMethod_eq_ok {run : Runner code σ} {v : Value} {m : String} {args : List Value}
    {fr fr' : Frame code σ} {x : Value} (h : callMethod run v m args fr = (.ok x, fr')) :
    ∃ id y, methodOf fr.registry fr.store v m = .ok id ∧
      invoke run id (some (fr.store.resolve v)) args fr = (.ok y, fr') ∧
      x = Access.rewrap fr'.store v y := by
  unfold callMethod at h
  cases hmethod : methodOf fr.registry fr.store v m with
  | error f =>
    rw [hmethod] at h
    cases h
  | ok id =>
    rw [hmethod] at h
    dsimp only at h
    rcases hinvoke : invoke run id (some (fr.store.resolve v)) args fr with ⟨f | y, fr₁⟩
    · rw [hinvoke] at h
      cases h
    · rw [hinvoke] at h
      cases h
      exact ⟨id, y, rfl, hinvoke, rfl⟩

/-- Let `v` be a view. A value that it stands in front of comes out of a read exactly when it is a
view and lies in the slot, and out of a method call exactly when it is a view and the method returns
it, whatever the code that runs may do. The value that `v` finally stands for never comes out. -/
theorem view_lets_out_inner_views_only {run : Runner code σ} (grows : run.Grows)
    (fr : Frame code σ) (grounded : fr.store.Grounded) {v target : Value}
    (hv : fr.store.Fronts v target) (m : String) (args : List Value) :
    (∀ x, Access.read fr.registry fr.store v m = .ok x →
      x.sameIdentity (fr.store.resolve v) = false ∧
      ∀ w, fr.store.Behind v w → (x.sameIdentity w = true ↔
        fr.store.view? w ≠ none ∧ Access.lookup? fr.store v m = some w)) ∧
    ∀ x fr', callMethod run v m args fr = (.ok x, fr') →
      x.sameIdentity (fr.store.resolve v) = false ∧
      ∀ w, fr.store.Behind v w → (x.sameIdentity w = true ↔
        fr.store.view? w ≠ none ∧ ∃ id, methodOf fr.registry fr.store v m = .ok id ∧
          (invoke run id (some (fr.store.resolve v)) args fr).1 = .ok w) := by
  refine ⟨fun x hread => ?_, fun x fr' hcall => ?_⟩
  · obtain rfl := Access.eq_of_read_eq_ok hread
    refine ⟨Access.not_sameIdentity_rewrap_resolve grounded hv _, fun w behind => ?_⟩
    rw [Access.sameIdentity_rewrap_iff grounded hv behind]
    refine and_congr_right fun hw => ?_
    cases hlookup : Access.lookup? fr.store v m with
    | some y => simp
    | none =>
      -- what an absent member reads as is no view
      refine iff_of_false (fun h => hw ?_) (fun h => nomatch h)
      rw [← h]
      rfl
  · obtain ⟨id, y, hmethod, hinvoke, rfl⟩ := callMethod_eq_ok hcall
    have hgrown : fr.store.Extends fr'.store := by
      have h := extends_invoke grows id (some (fr.store.resolve v)) args fr
      rwa [hinvoke] at h
    rw [Access.rewrap_of_extends hgrown grounded hv]
    refine ⟨Access.not_sameIdentity_rewrap_resolve grounded hv y, fun w behind => ?_⟩
    rw [Access.sameIdentity_rewrap_iff grounded hv behind]
    refine and_congr_right fun _ => ⟨?_, ?_⟩
    · rintro rfl
      exact ⟨id, hmethod, by rw [hinvoke]⟩
    · rintro ⟨id', hmethod', hinvoke'⟩
      obtain rfl : id = id' := Except.ok.inj (hmethod.symm.trans hmethod')
      rw [hinvoke] at hinvoke'
      exact Except.ok.inj hinvoke'

/-- An object that holds a view on itself and a method, that view, and a narrower view on the view.
-/
def nestedViews : Store Unit :=
  ⟨#[⟨.object .guest false, .ofList [("text", .plain .null), ("self", .plain (.object 1)),
      ("whole", .plain (.object 0)), ("open", .plain (.function 3))], false⟩,
    ⟨.object (.view (.object 0) ["text", "self", "whole", "open"]) false, .empty, true⟩,
    ⟨.object (.view (.object 1) ["self", "whole", "open"]) false, .empty, true⟩,
    ⟨.function ⟨some "open", .method, .guest, 3, .closure ()⟩, .empty, true⟩]⟩

/-- The method returns the inner view. -/
def returnInner : Runner Unit Unit := fun _ _ _ fr => (.ok (.object 1), fr)

/-- Through the outer view, a slot that holds the inner view is read as that view, and a method
returns it. -/
theorem inner_view_read_and_returned :
    nestedViews.view? (.object 2) = some (.object 1, ["self", "whole", "open"]) ∧
    Access.read .empty nestedViews (.object 2) "self" = .ok (.object 1) ∧
    (callMethod returnInner (.object 2) "open" [] (.ofStore nestedViews)).1 = .ok (.object 1) :=
  ⟨rfl, rfl, rfl⟩

theorem nestedViews_grounded : nestedViews.Grounded := by
  intro id target allow h j hj
  match id with
  | 0 => cases h
  | 1 =>
    cases h
    cases hj
    decide
  | 2 =>
    cases h
    cases hj
    decide
  | 3 => cases h
  | _ + 4 => cases h

/-- Reading `whole` gives the outer view in place of the object that it finally stands for. Reading
`self` and calling `open` give the inner view, since the slot holds it and the method returns it. -/
theorem view_lets_out_inner_views_only_of_nestedViews :
    nestedViews.Grounded ∧ nestedViews.Fronts (.object 2) (.object 1) ∧
    Access.read .empty nestedViews (.object 2) "whole" = .ok (.object 2) ∧
    (Value.object 2).sameIdentity (nestedViews.resolve (.object 2)) = false ∧
    ((Value.object 1).sameIdentity (.object 1) = true ↔ nestedViews.view? (.object 1) ≠ none ∧
      Access.lookup? nestedViews (.object 2) "self" = some (.object 1)) ∧
    (Value.object 1).sameIdentity (nestedViews.resolve (.object 2)) = false :=
  have fronts : nestedViews.Fronts (.object 2) (.object 1) := ⟨_, rfl⟩
  have grows : returnInner.Grows := fun _ _ _ _ => .refl _
  have outcome (m : String) :=
    view_lets_out_inner_views_only grows (.ofStore nestedViews) nestedViews_grounded fronts m []
  ⟨nestedViews_grounded, fronts, rfl, ((outcome "whole").1 (.object 2) rfl).1,
    ((outcome "self").1 (.object 1) rfl).2 (.object 1) (.single fronts),
    ((outcome "open").2 (.object 1) (.ofStore nestedViews) rfl).1⟩

end Invocation

end Confinement
