import Confinement.Proofs.Registry.History
import Confinement.Proofs.Access.Operation

/-!
# Views attenuate

A view shows at most what its target shows, and nothing outside its allow-list, however deep the
chain of views goes on below it. The one exception is a grant that the registry holds on the view
itself: the most specific grant decides, and it then decides alone.
-/
namespace Confinement

variable {code : Type}

/-- Every capability of the one set is in the other. -/
instance : HasSubset CapabilitySet where
  Subset a b := ∀ c, a.contains c = true → b.contains c = true

namespace CapabilitySet

instance (a b : CapabilitySet) : Decidable (a ⊆ b) :=
  decidable_of_iff (∀ c ∈ Capability.all, a.contains c = true → b.contains c = true)
    ⟨fun h c => h c c.mem_all, fun h c _ => h c⟩

theorem subset_refl (a : CapabilitySet) : a ⊆ a := fun _ h => h

theorem empty_subset (a : CapabilitySet) : empty ⊆ a := by
  intro c hc
  rw [contains_empty] at hc
  cases hc

end CapabilitySet

namespace Registry

/-- The grant that the registry holds on a member of this very object or function. -/
def instanceGrant? (r : Registry) (v : Value) (member : String) : Option CapabilitySet :=
  (Subject.ofValue? v).bind (r.granted? · member)

/-- The capabilities on a member of a view: its own grant, or through the allow-list those of its
target. -/
theorem capabilitiesWithin_view (r : Registry) {s : Store code} {v target : Value}
    {allow : List String} (hview : s.view? v = some (target, allow)) (m : String) (n : Nat) :
    r.capabilitiesWithin s m (n + 1) v = (r.instanceGrant? v m).getD
      (if m ∈ allow then r.capabilitiesWithin s m n target else .empty) := by
  obtain ⟨id, rfl, horigin⟩ := Store.view?_eq_some_iff.mp hview
  obtain ⟨tamed, hnature⟩ := Store.exists_nature_of_origin? horigin
  obtain ⟨⟨nature, p, frozen⟩, hentity, rfl⟩ := Option.map_eq_some_iff.mp hnature
  rw [capabilitiesWithin]
  simp only [Value.id?, Store.entityOf?, Option.bind_some, hentity, instanceGrant?,
    Subject.ofValue?, Option.map_some]
  cases r.granted? (.ofInstance id) m <;> rfl

/-- A longer walk through views finds at least the capabilities of a shorter one. -/
theorem capabilitiesWithin_subset_succ (r : Registry) (s : Store code) (m : String) (n : Nat)
    (v : Value) : r.capabilitiesWithin s m n v ⊆ r.capabilitiesWithin s m (n + 1) v := by
  induction n generalizing v with
  | zero => exact CapabilitySet.empty_subset _
  | succ n ih =>
    rw [capabilitiesWithin, capabilitiesWithin]
    cases v.id? with
    | none => exact CapabilitySet.subset_refl _
    | some id =>
      rcases s.entityOf? v with - | ⟨nature, p, frozen⟩
      · exact CapabilitySet.subset_refl _
      · dsimp only
        cases r.granted? (.ofInstance id) m with
        | some caps => exact CapabilitySet.subset_refl caps
        | none =>
          -- Only a view goes on to another value.
          rcases nature with ⟨- | - | ⟨target, allow⟩, tamed⟩ | f
          · exact CapabilitySet.subset_refl _
          · exact CapabilitySet.subset_refl _
          · dsimp only
            split
            · exact ih target
            · exact CapabilitySet.subset_refl _
          · exact CapabilitySet.subset_refl _

theorem capabilities_of_isReserved (r : Registry) (s : Store code) (v : Value) {m : String}
    (h : Text.isReserved m = true) : r.capabilities s v m = .empty := by
  rw [capabilities, if_pos h]

theorem capabilities_of_not_isReserved (r : Registry) (s : Store code) (v : Value) {m : String}
    (h : Text.isReserved m = false) :
    r.capabilities s v m = r.capabilitiesWithin s m (s.size + 1) v := by
  rw [capabilities, if_neg (Bool.not_eq_true _ ▸ h)]

section View

variable (r : Registry) {s : Store code} {v target : Value} {allow : List String}
  (hview : s.view? v = some (target, allow)) {m : String}

include hview

/-- Without a grant of its own a view shows no more than its target. -/
theorem capabilities_view_subset (h : r.instanceGrant? v m = none) :
    r.capabilities s v m ⊆ r.capabilities s target m := by
  cases hreserved : Text.isReserved m with
  | true =>
    rw [r.capabilities_of_isReserved s v hreserved]
    exact CapabilitySet.empty_subset _
  | false =>
    rw [r.capabilities_of_not_isReserved s v hreserved,
      r.capabilities_of_not_isReserved s target hreserved, r.capabilitiesWithin_view hview, h,
      Option.getD_none]
    split
    · exact r.capabilitiesWithin_subset_succ s m s.size target
    · exact CapabilitySet.empty_subset _

/-- Without a grant of its own a view shows nothing outside its allow-list. -/
theorem capabilities_view_eq_empty (h : r.instanceGrant? v m = none) (hm : m ∉ allow) :
    r.capabilities s v m = .empty := by
  rw [capabilities, r.capabilitiesWithin_view hview, h, Option.getD_none, if_neg hm, ite_self]

theorem capabilities_view_of_instanceGrant? {caps : CapabilitySet}
    (hreserved : Text.isReserved m = false) (h : r.instanceGrant? v m = some caps) :
    r.capabilities s v m = caps := by
  rw [r.capabilities_of_not_isReserved s v hreserved, r.capabilitiesWithin_view hview, h,
    Option.getD_some]

end View

theorem not_isReserved_of_instanceGrant? {calls : List Call} {v : Value} {m : String}
    {caps : CapabilitySet} (h : (ofCalls calls).instanceGrant? v m = some caps) :
    Text.isReserved m = false := by
  obtain ⟨subject, -, hgranted⟩ := Option.bind_eq_some_iff.mp h
  exact (valid_of_mem_grants calls _ (mem_grants_of_granted? hgranted)).1

/-- Whatever calls filled the registry: a view shows no more of a member than its target does, and
nothing of it if the allow-list lacks it, unless the registry holds a grant on the view itself for
that member. Such a grant is then all that counts. -/
theorem view_attenuates_unless_granted (calls : List Call) (s : Store code) {v target : Value}
    {allow : List String} (hview : s.view? v = some (target, allow)) (m : String) :
    ((ofCalls calls).instanceGrant? v m = none →
      (ofCalls calls).capabilities s v m ⊆ (ofCalls calls).capabilities s target m ∧
        (m ∉ allow → (ofCalls calls).capabilities s v m = .empty)) ∧
    ∀ caps, (ofCalls calls).instanceGrant? v m = some caps →
      (ofCalls calls).capabilities s v m = caps := by
  refine ⟨fun h => ⟨?_, ?_⟩, fun caps h => ?_⟩
  · exact (ofCalls calls).capabilities_view_subset hview h
  · exact (ofCalls calls).capabilities_view_eq_empty hview h
  · exact (ofCalls calls).capabilities_view_of_instanceGrant? hview
      (not_isReserved_of_instanceGrant? h) h

/-- A host object, a view on it that lists `label`, and a view on that view. -/
def stackedViews : Store Unit :=
  ⟨#[⟨.object (.host "Host" .empty) false, Table.empty.insert "code" (.plain (.int 7)), false⟩,
    ⟨.object (.view (.object 0) ["label"]) false, .empty, true⟩,
    ⟨.object (.view (.object 1) ["label", "code"]) false, .empty, true⟩]⟩

/-- A class grant, a second set for the same pair, which is refused, and a grant on the inner
view. -/
def stackedCalls : List Call :=
  [.grant (.ofClass "Host") "label" (.ofList [.read]),
    .grant (.ofClass "Host") "label" (.ofList [.read, .write]),
    .grantAll (.ofInstance 1) ["code"] (.ofList [.read])]

/-- A view with a grant of its own shows a member that its allow-list lacks and its target hides. -/
theorem view_shows_more_when_granted :
    stackedViews.view? (.object 1) = some (.object 0, ["label"]) ∧ "code" ∉ ["label"] ∧
    (ofCalls stackedCalls).capabilities stackedViews (.object 1) "code" = .ofList [.read] ∧
    (ofCalls stackedCalls).capabilities stackedViews (.object 0) "code" = .empty ∧
    ¬ (ofCalls stackedCalls).capabilities stackedViews (.object 1) "code" ⊆
      (ofCalls stackedCalls).capabilities stackedViews (.object 0) "code" :=
  ⟨rfl, by decide, by decide, by decide, by decide⟩

/-- The outer view has no grant of its own: on `code` it shows no more than the inner view, and
nothing of `lock`, which it does not list. The inner view shows what its own grant says. -/
theorem view_attenuates_unless_granted_of_stackedViews :
    stackedViews.view? (.object 2) = some (.object 1, ["label", "code"]) ∧
    (ofCalls stackedCalls).instanceGrant? (.object 2) "code" = none ∧
    (ofCalls stackedCalls).capabilities stackedViews (.object 2) "code" ⊆
      (ofCalls stackedCalls).capabilities stackedViews (.object 1) "code" ∧
    (ofCalls stackedCalls).capabilities stackedViews (.object 2) "lock" = .empty ∧
    (ofCalls stackedCalls).capabilities stackedViews (.object 1) "code" = .ofList [.read] :=
  have outer : stackedViews.view? (.object 2) = some (.object 1, ["label", "code"]) := rfl
  have attenuates := view_attenuates_unless_granted stackedCalls stackedViews outer
  ⟨outer, by decide, ((attenuates "code").1 (by decide)).1,
    ((attenuates "lock").1 (by decide)).2 (by decide),
    (view_attenuates_unless_granted stackedCalls stackedViews rfl "code").2 _ (by decide)⟩

end Registry

end Confinement
