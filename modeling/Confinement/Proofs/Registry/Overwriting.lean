import Confinement.Proofs.Access.Authority

/-!
# Overwritable methods

A member that may be both written and called lets a guest replace the code behind it. The registry
refuses every grant of that kind, for classes as for single objects. The grants that a host object
gets while it is put together pass no such check, so they are the one source from which both
capabilities can come at once; and they count unless the registry has a grant on the object itself.
-/
namespace Confinement

variable {code : Type}

namespace HostObject

/-- A step in putting a host object together. -/
inductive Step (code : Type) where
  | slot (name : String) (s : Slot)
  /-- A host method, made together with its slot. -/
  | method (name : String) (c : code)
  | grant (member : String) (caps : CapabilitySet)
  | freeze

def perform (draft : HostObject × Store code) : Step code → HostObject × Store code
  | .slot name s => (draft.1.slot name s, draft.2)
  | .method name c =>
    let (f, s) := draft.2.newHostFunction name .method (.native c)
    (draft.1.slot name (.plain f), s)
  | .grant member caps => (draft.1.grant member caps, draft.2)
  | .freeze => ({ draft.1 with frozen := true }, draft.2)

/-- The object of a class that the steps describe, and the store with the methods made for it. -/
def draft (cls : String) (steps : List (Step code)) (s : Store code) : HostObject × Store code :=
  steps.foldl perform ({ cls }, s)

/-- Takes the steps and builds the object. -/
def make (cls : String) (steps : List (Step code)) (s : Store code) : Value × Store code :=
  (draft cls steps s).1.build (draft cls steps s).2

def Step.grantOn? (m : String) : Step code → Option CapabilitySet
  | .grant member caps => if member = m then some caps else none
  | .slot _ _ | .method _ _ | .freeze => none

/-- The set that was attached to a member last. -/
def attached? (steps : List (Step code)) (m : String) : Option CapabilitySet :=
  (steps.filterMap (Step.grantOn? m)).getLast?

theorem draft_concat (cls : String) (steps : List (Step code)) (step : Step code) (s : Store code) :
    draft cls (steps ++ [step]) s = perform (draft cls steps s) step := List.foldl_concat ..

theorem attached?_concat (steps : List (Step code)) (step : Step code) (m : String) :
    attached? (steps ++ [step]) m = (step.grantOn? m).or (attached? steps m) := by
  rw [attached?, List.filterMap_append]
  cases h : step.grantOn? m <;> simp [h, attached?]

theorem cls_perform (draft : HostObject × Store code) (step : Step code) :
    (perform draft step).1.cls = draft.1.cls := by
  cases step <;> rfl

theorem find?_grants_perform (draft : HostObject × Store code) (step : Step code) (m : String) :
    (perform draft step).1.grants.find? m = (step.grantOn? m).or (draft.1.grants.find? m) := by
  cases step with
  | grant member caps =>
    have hfind : (perform draft (.grant member caps)).1.grants.find? m =
        if m = member then some caps else draft.1.grants.find? m := draft.1.grants.find?_insert ..
    rw [hfind, Step.grantOn?]
    by_cases hm : m = member
    · rw [if_pos hm, if_pos hm.symm, Option.some_or]
    · rw [if_neg hm, if_neg (Ne.symm hm), Option.none_or]
  | _ => rfl

theorem cls_draft (cls : String) (steps : List (Step code)) (s : Store code) :
    (draft cls steps s).1.cls = cls := by
  induction steps using List.reverseRecOn with
  | nil => rfl
  | append_singleton steps step ih => rw [draft_concat, cls_perform, ih]

/-- Whatever else is done, the grant that was attached last counts. -/
theorem find?_grants_draft (cls : String) (steps : List (Step code)) (s : Store code) (m : String) :
    (draft cls steps s).1.grants.find? m = attached? steps m := by
  induction steps using List.reverseRecOn with
  | nil => rfl
  | append_singleton steps step ih =>
    rw [draft_concat, find?_grants_perform, ih, attached?_concat]

/-- A host object keeps its class and what was attached to it, in every later store. -/
theorem exists_origin?_make (cls : String) (steps : List (Step code)) {s t : Store code}
    (later : (make cls steps s).2.Extends t) : ∃ id grants, (make cls steps s).1 = .object id ∧
      t.origin? id = some (.host cls grants) ∧ ∀ m, grants.find? m = attached? steps m := by
  have hmade : (make cls steps s).2.origin? (draft cls steps s).2.size =
      some (.host cls (draft cls steps s).1.grants) := by
    rw [make, build, cls_draft]
    exact Store.origin?_newObject _ _ _ _ _
  refine ⟨_, _, rfl, ?_, find?_grants_draft cls steps s⟩
  rw [later.origin?_eq _ (Store.lt_size_of_origin? hmade), hmade]

end HostObject

namespace Registry

/-- What applies to a host object: the grant of the registry on it, or else what was attached to it,
or else the grant of the nearest class. -/
theorem capabilities_host (r : Registry) {s : Store code} {id : EntityId} {cls : String}
    {attached : Table CapabilitySet} (horigin : s.origin? id = some (.host cls attached))
    {m : String} (hm : Text.isReserved m = false) :
    r.capabilities s (.object id) m = ((r.instanceGrant? (.object id) m).or
      ((attached.find? m).or (r.classGrant? cls m))).getD .empty := by
  obtain ⟨tamed, hnature⟩ := Store.exists_nature_of_origin? horigin
  rw [r.capabilities_of_not_isReserved s _ hm, capabilitiesWithin_succ]
  simp only [Value.id?, Option.elim_some, verdict, hnature, instanceGrant?, Subject.ofValue?,
    Option.map_some, Option.bind_some]
  cases r.granted? (.ofInstance id) m <;> rfl

theorem exists_granted?_of_classGrant? {r : Registry} {cls m : String} {caps : CapabilitySet}
    (h : r.classGrant? cls m = some caps) : ∃ c, r.granted? (.ofClass c) m = some caps := by
  obtain ⟨c, -, hc⟩ := List.exists_of_findSome?_eq_some h
  exact ⟨c, hc⟩

/-- What the registry itself grants never has both `write` and `call`. -/
theorem not_both_of_granted? (calls : List Call) {subject : Subject} {m : String}
    {caps : CapabilitySet} (h : (ofCalls calls).granted? subject m = some caps) :
    ¬ (caps.contains .write = true ∧ caps.contains .call = true) := by
  have hvalid := (valid_of_mem_grants calls _ (mem_grants_of_granted? h)).2
  simpa using hvalid

end Registry

namespace HostObject

open Registry

/-- Let a host object be put together in any way, and a registry be filled by any calls. At any time
from then on a member of the object may be both written and called exactly if it is not reserved,
the registry has no grant on it for the object itself, and the set attached to it last, when the
object was put together, has both. -/
theorem overwritable_iff_attached (calls : List Call) (cls : String) (steps : List (Step code))
    (s : Store code) {t : Store code} (later : (make cls steps s).2.Extends t) (m : String) :
    (((ofCalls calls).capabilities t (make cls steps s).1 m).contains .write = true ∧
      ((ofCalls calls).capabilities t (make cls steps s).1 m).contains .call = true) ↔
    Text.isReserved m = false ∧ (ofCalls calls).instanceGrant? (make cls steps s).1 m = none ∧
      ∃ caps, attached? steps m = some caps ∧ caps.contains .write = true ∧
        caps.contains .call = true := by
  obtain ⟨id, grants, hid, horigin, hgrants⟩ := exists_origin?_make cls steps later
  rw [hid]
  cases hm : Text.isReserved m with
  | true =>
    rw [(ofCalls calls).capabilities_of_isReserved t _ hm]
    simp
  | false =>
    rw [(ofCalls calls).capabilities_host horigin hm, hgrants]
    cases hinstance : (ofCalls calls).instanceGrant? (.object id) m with
    | some caps =>
      have hnot := not_both_of_granted? calls hinstance
      simpa using hnot
    | none =>
      cases hattached : attached? steps m with
      | some caps => simp
      | none =>
        cases hclass : (ofCalls calls).classGrant? cls m with
        | none => simp
        | some caps =>
          obtain ⟨c, hgranted⟩ := exists_granted?_of_classGrant? hclass
          have hnot := not_both_of_granted? calls hgranted
          simpa using hnot

/-- A host object with a method. The set attached to it last has both capabilities. -/
def methodSteps : List (Step Unit) :=
  [.grant "open" (.ofList [.read]), .method "open" (), .slot "size" (.pinned (.int 3)),
    .grant "open" (.ofList [.write, .call]), .freeze]

/-- The registry refuses the set with both capabilities and accepts one with a single one. -/
def methodCalls : List Call :=
  [.grant (.ofClass "Host") "open" (.ofList [.write, .call]),
    .grant (.ofClass "Host") "open" (.ofList [.call])]

/-- The method may be called and replaced, though no grant of the registry says so. -/
theorem attached_method_overwritable :
    (ofCalls methodCalls).granted? (.ofClass "Host") "open" = some (.ofList [.call]) ∧
    ((ofCalls methodCalls).capabilities (make "Host" methodSteps {}).2
      (make "Host" methodSteps {}).1 "open") = .ofList [.write, .call] := by
  decide

/-- Both capabilities come from the set that was attached last. -/
theorem overwritable_iff_attached_of_methodSteps :
    attached? methodSteps "open" = some (.ofList [.write, .call]) ∧
    ((ofCalls methodCalls).capabilities (make "Host" methodSteps {}).2
      (make "Host" methodSteps {}).1 "open").contains .write = true ∧
    ((ofCalls methodCalls).capabilities (make "Host" methodSteps {}).2
      (make "Host" methodSteps {}).1 "open").contains .call = true :=
  ⟨rfl, (overwritable_iff_attached methodCalls "Host" methodSteps {} (.refl _) "open").mpr
    ⟨by decide, by decide, _, rfl, by decide, by decide⟩⟩

end HostObject

end Confinement
