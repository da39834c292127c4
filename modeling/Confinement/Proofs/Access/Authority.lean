import Confinement.Proofs.Registry.Attenuation
import Confinement.Proofs.Store.Chain

/-!
# When authority changes

What a registry allows on a member of a value is settled by natures and grants, except where a guest
object or function decides: it owns its members, unless their slots are hidden. `decider?` finds the
entity whose slot counts in that way.

No operation hides a slot. So authority never shrinks, and it grows in one way only: a hidden slot
is removed. The owner of the slot does not allow that, hence a view in front of it does, one on
which the registry itself grants the removal.
-/
namespace Confinement

variable {code : Type}

/-- Whether the member is there but not enumerable. -/
def Store.isHidden (s : Store code) (id : EntityId) (m : String) : Bool :=
  ((s.slot? id m).map (!·.enumerable)).getD false

namespace Registry

/-- What is known about a member of an entity without looking further. -/
inductive Verdict where
  /-- These are the capabilities. -/
  | settled (caps : CapabilitySet)
  /-- The slot of the entity itself counts. -/
  | own
  /-- The value behind the view is asked. -/
  | ask (target : Value)

def verdict (r : Registry) (s : Store code) (m : String) (id : EntityId) : Verdict :=
  match (s.entity? id).map Entity.nature, r.granted? (.ofInstance id) m with
  | none, _ => .settled .empty
  | some _, some caps => .settled caps
  | some (.object (.view target allow) _), none =>
    if m ∈ allow then .ask target else .settled .empty
  | some (.object (.host cls attached) _), none => .settled (r.hostCapabilities cls attached m)
  | some (.object .guest _), none => .own
  | some (.function f), none =>
    match f.origin with
    | .guest => .own
    | .host => .settled .empty

/-- The entity whose own slot decides on a member of a value, found through at most `fuel` views. -/
def deciderWithin (r : Registry) (s : Store code) (m : String) : Nat → Value → Option EntityId
  | 0, _ => none
  | fuel + 1, v => v.id?.bind fun id =>
    match r.verdict s m id with
    | .settled _ => none
    | .own => some id
    | .ask target => r.deciderWithin s m fuel target

def decider? (r : Registry) (s : Store code) (v : Value) (m : String) : Option EntityId :=
  if Text.isReserved m then none else r.deciderWithin s m (s.size + 1) v

theorem capabilitiesWithin_succ (r : Registry) (s : Store code) (m : String) (n : Nat) (v : Value) :
    r.capabilitiesWithin s m (n + 1) v = v.id?.elim .empty fun id =>
      match r.verdict s m id with
      | .settled caps => caps
      | .own => ownCapabilities (s.slot? id m)
      | .ask target => r.capabilitiesWithin s m n target := by
  rw [capabilitiesWithin]
  cases hv : v.id? with
  | none => rfl
  | some id =>
    simp only [Store.entityOf?, hv, Option.bind_some, Option.elim_some, verdict, Store.slot?]
    rcases s.entity? id with - | ⟨nature, p, frozen⟩
    · rfl
    · simp only [Option.map_some, Option.bind_some]
      cases r.granted? (.ofInstance id) m with
      | some caps => rfl
      | none =>
        rcases nature with ⟨- | ⟨cls, attached⟩ | ⟨target, allow⟩, tamed⟩ | f
        · rfl
        · rfl
        · dsimp only
          split <;> rfl
        · dsimp only
          cases f.origin <;> rfl

theorem verdict_congr (r : Registry) {s t : Store code} (natures : s.SameNatures t) (m : String)
    (id : EntityId) : r.verdict s m id = r.verdict t m id := by
  rw [verdict, verdict, natures id]

theorem deciderWithin_congr (r : Registry) {s t : Store code} (natures : s.SameNatures t)
    (m : String) (n : Nat) (v : Value) :
    r.deciderWithin s m n v = r.deciderWithin t m n v := by
  induction n generalizing v with
  | zero => rfl
  | succ n ih => simp only [deciderWithin, r.verdict_congr natures, ih]

theorem decider?_congr (r : Registry) {s t : Store code} (natures : s.SameNatures t) (v : Value)
    (m : String) : r.decider? s v m = r.decider? t v m := by
  rw [decider?, decider?, natures.size, r.deciderWithin_congr natures]

theorem capabilitiesWithin_of_decider (r : Registry) {s : Store code} {m : String} {n : Nat}
    {v : Value} {id : EntityId} (h : r.deciderWithin s m n v = some id) :
    r.verdict s m id = .own ∧ r.capabilitiesWithin s m n v = ownCapabilities (s.slot? id m) := by
  induction n generalizing v with
  | zero => cases h
  | succ n ih =>
    obtain ⟨k, hk, h⟩ := Option.bind_eq_some_iff.mp h
    rw [capabilitiesWithin_succ, hk, Option.elim_some]
    cases hverdict : r.verdict s m k with
    | settled caps => simp [hverdict] at h
    | own =>
      obtain rfl : k = id := by simpa [hverdict] using h
      exact ⟨hverdict, rfl⟩
    | ask target => exact ih (by simpa [hverdict] using h)

theorem capabilitiesWithin_of_no_decider (r : Registry) {s t : Store code}
    (natures : s.SameNatures t) {m : String} {n : Nat} {v : Value}
    (h : r.deciderWithin s m n v = none) :
    r.capabilitiesWithin t m n v = r.capabilitiesWithin s m n v := by
  induction n generalizing v with
  | zero => rfl
  | succ n ih =>
    rw [capabilitiesWithin_succ, capabilitiesWithin_succ]
    cases hk : v.id? with
    | none => rfl
    | some k =>
      rw [deciderWithin, hk, Option.bind_some] at h
      rw [Option.elim_some, Option.elim_some, ← r.verdict_congr natures]
      cases hverdict : r.verdict s m k with
      | settled caps => rfl
      | own => simp [hverdict] at h
      | ask target => exact ih (by simpa [hverdict] using h)

/-- A slot that decides gives everything or, if it is hidden, nothing. -/
theorem check_of_decider (r : Registry) {s : Store code} {v : Value} {m : String} {id : EntityId}
    (h : r.decider? s v m = some id) (c : Capability) :
    r.check s v m c = !s.isHidden id m := by
  unfold decider? at h
  split at h
  · cases h
  · rename_i hreserved
    have hcaps := (r.capabilitiesWithin_of_decider h).2
    rw [check, capabilities, if_neg hreserved, hcaps, Store.isHidden]
    rcases s.slot? id m with - | ⟨value, - | -, fixed⟩ <;> simp [ownCapabilities]

theorem check_of_no_decider (r : Registry) {s t : Store code} (natures : s.SameNatures t)
    {v : Value} {m : String} (h : r.decider? s v m = none) (c : Capability) :
    r.check t v m c = r.check s v m c := by
  rw [check, check, capabilities, capabilities]
  unfold decider? at h
  split at h
  · rename_i hreserved
    rw [if_pos hreserved, if_pos hreserved]
  · rw [← natures.size, r.capabilitiesWithin_of_no_decider natures h]

theorem verdict_of_decider (r : Registry) {s : Store code} {v : Value} {m : String} {id : EntityId}
    (h : r.decider? s v m = some id) : r.verdict s m id = .own := by
  unfold decider? at h
  split at h
  · cases h
  · exact (r.capabilitiesWithin_of_decider h).1

/-- A hidden member that its owner decides on is granted at most through a view in front of the
owner that has a grant of its own. -/
theorem exists_grant_of_isHidden (r : Registry) {s : Store code} {m : String} {id : EntityId}
    (own : r.verdict s m id = .own) (hidden : s.isHidden id m = true) {c : Capability} {n : Nat}
    {u : Value} (stands : (s.resolveWithin n u).id? = some id)
    (h : (r.capabilitiesWithin s m (n + 1) u).contains c = true) :
    ∃ w target caps, Relation.ReflTransGen s.Fronts u w ∧ s.Fronts w target ∧
      r.instanceGrant? w m = some caps ∧ caps.contains c = true := by
  -- the owner itself grants nothing
  have denied {n : Nat} {u : Value} (hu : u.id? = some id) :
      (r.capabilitiesWithin s m (n + 1) u).contains c = false := by
    rw [capabilitiesWithin_succ, hu, Option.elim_some, own]
    unfold Store.isHidden at hidden
    rcases hslot : s.slot? id m with - | ⟨value, - | -, fixed⟩
    · simp [hslot] at hidden
    · simp [ownCapabilities]
    · simp [hslot] at hidden
  induction n generalizing u with
  | zero =>
    rw [Store.resolveWithin] at stands
    rw [denied stands] at h
    cases h
  | succ n ih =>
    cases hview : s.view? u with
    | none =>
      rw [Store.resolveWithin_of_view?_eq_none hview] at stands
      rw [denied stands] at h
      cases h
    | some found =>
      obtain ⟨target, allow⟩ := found
      have hfronts : s.Fronts u target := ⟨allow, hview⟩
      rw [Store.resolveWithin_succ_of_fronts hfronts] at stands
      rw [r.capabilitiesWithin_view hview] at h
      cases hgrant : r.instanceGrant? u m with
      | some caps =>
        rw [hgrant, Option.getD_some] at h
        exact ⟨u, target, caps, .refl, hfronts, hgrant, h⟩
      | none =>
        rw [hgrant, Option.getD_none] at h
        split at h
        · obtain ⟨w, behind, caps, hchain, hw⟩ := ih stands h
          exact ⟨w, behind, caps, .head hfronts hchain, hw⟩
        · simp at h

end Registry

namespace Access

/-- Through `u` the member is taken away from the entity that `u` stands for. What permits it is a
grant on a view that the registry holds itself. -/
structure Uncovers (r : Registry) (s : Store code) (id : EntityId) (m : String) (u : Value) :
    Prop where
  removed : (perform r s (.remove u m)).1 = .ok (.removed true)
  stands : (s.resolve u).id? = some id
  granted : ∃ w target caps, Relation.ReflTransGen s.Fronts u w ∧ s.Fronts w target ∧
    r.instanceGrant? w m = some caps ∧ caps.contains .delete = true

theorem removeTarget_eq_some_iff {r : Registry} {s : Store code} {u : Value} {m : String}
    {id : EntityId} : removeTarget r s u m = .ok (some id) ↔
      (perform r s (.remove u m)).1 = .ok (.removed true) ∧ (s.resolve u).id? = some id := by
  rw [perform, remove_eq]
  cases h : removeTarget r s u m with
  | error fault => simp [decided, Except.map]
  | ok found =>
    obtain ⟨-, j, -, hid, -, ⟨rfl, -⟩ | ⟨rfl, -⟩⟩ := of_removeTarget_eq_ok h
    · simp [decided, Except.map]
    · simp [decided, Except.map, hid]

theorem isHidden_update_of_ne {m : String} {f : Entity code → Entity code} (only : ChangesOnly m f)
    (s : Store code) {id j : EntityId} {m' : String} (h : (j, m') ≠ (id, m)) :
    (s.update id f).isHidden j m' = s.isHidden j m' := by
  rw [Store.isHidden, slot?_update only s h, Store.isHidden]

/-- Writing neither hides a member nor shows a hidden one. -/
theorem isHidden_update_setValue (s : Store code) (id : EntityId) (m : String) (x : Value)
    (j : EntityId) (m' : String) :
    (s.update id (·.setValue m x)).isHidden j m' = s.isHidden j m' := by
  by_cases h : (j, m') = (id, m)
  · obtain ⟨rfl, rfl⟩ := Prod.mk.inj h
    simp only [Store.isHidden, Store.slot?, Store.entity?_update, if_true]
    cases s.entity? j with
    | none => rfl
    | some e =>
      simp only [Option.map_some, Option.bind_some, Entity.setValue]
      cases hslot : e.properties.find? m' <;> simp [Entity.define, Slot.plain]
  · exact isHidden_update_of_ne (changesOnly_setValue m x) s h

/-- A slot is hidden after an operation if it was so before and the operation did not remove it. -/
theorem isHidden_perform_iff (r : Registry) (s : Store code) (op : Operation) (id : EntityId)
    (m : String) : (perform r s op).2.isHidden id m = true ↔
      s.isHidden id m = true ∧
        ¬ ∃ u, op = .remove u m ∧ removeTarget r s u m = .ok (some id) := by
  rw [perform_store]
  cases op with
  | write u m' x =>
    simp only [change?]
    cases writeTarget r s u m' with
    | error fault => simp
    | ok j => simp [isHidden_update_setValue]
  | remove u m' =>
    simp only [change?, Operation.remove.injEq]
    cases hremove : removeTarget r s u m' with
    | error fault =>
      simp only [Option.elim_none, iff_self_and]
      rintro - ⟨_, ⟨rfl, rfl⟩, h⟩
      cases hremove.symm.trans h
    | ok found =>
      cases found with
      | none =>
        simp only [Option.elim_none, iff_self_and]
        rintro - ⟨_, ⟨rfl, rfl⟩, h⟩
        cases hremove.symm.trans h
      | some j =>
        simp only [Option.elim_some]
        by_cases h : (id, m) = (j, m')
        · obtain ⟨rfl, rfl⟩ := Prod.mk.inj h
          refine iff_of_false ?_ fun hkept => hkept.2 ⟨u, ⟨rfl, rfl⟩, hremove⟩
          simp only [Store.isHidden, Store.slot?, Store.entity?_update, if_true]
          cases s.entity? id with
          | none => simp
          | some e => simp [Entity.eraseProperty]
        · rw [isHidden_update_of_ne (changesOnly_eraseProperty m') s h, iff_self_and]
          rintro - ⟨_, ⟨rfl, rfl⟩, hother⟩
          rw [hremove] at hother
          cases hother
          exact h rfl
  | _ => simp [change?]

theorem sameNatures_run (r : Registry) (s : Store code) (ops : List Operation) :
    s.SameNatures (run r s ops).2 := by
  induction ops generalizing s with
  | nil => exact .refl s
  | cons op ops ih => exact (sameNatures_perform r s op).trans (ih _)

/-- No sequence of operations hides a slot. -/
theorem isHidden_of_isHidden_run {r : Registry} {s : Store code} {ops : List Operation}
    {id : EntityId} {m : String} (h : (run r s ops).2.isHidden id m = true) :
    s.isHidden id m = true := by
  induction ops generalizing s with
  | nil => exact h
  | cons op ops ih => exact ((isHidden_perform_iff r s op id m).mp (ih h)).1

/-- A hidden slot that its owner decides on is gone after a sequence of operations exactly if one of
them removes it, at its place in the sequence. -/
theorem not_isHidden_run_iff {r : Registry} {s : Store code} (ops : List Operation) {id : EntityId}
    {m : String} (own : r.verdict s m id = .own) (hidden : s.isHidden id m = true) :
    (run r s ops).2.isHidden id m = false ↔ ∃ before u after, ops = before ++ .remove u m :: after ∧
      Uncovers r (run r s before).2 id m u := by
  induction ops generalizing s with
  | nil => simp [run, hidden]
  | cons op ops ih =>
    have natures := sameNatures_perform r s op
    cases hnext : (perform r s op).2.isHidden id m with
    | true =>
      rw [run, ih ((r.verdict_congr natures m id).symm.trans own) hnext]
      have hkept := ((isHidden_perform_iff r s op id m).mp hnext).2
      constructor
      · rintro ⟨before, u, after, rfl, huncovers⟩
        exact ⟨op :: before, u, after, rfl, huncovers⟩
      · rintro ⟨before, u, after, hops, huncovers⟩
        cases before with
        | nil =>
          -- the first operation is the removal, but the slot is still there
          obtain ⟨rfl, -⟩ := List.cons.inj hops
          exact absurd ⟨u, rfl, removeTarget_eq_some_iff.mpr ⟨huncovers.removed, huncovers.stands⟩⟩
            hkept
        | cons first before =>
          obtain ⟨rfl, rfl⟩ := List.cons.inj hops
          exact ⟨before, u, after, rfl, huncovers⟩
    | false =>
      have hgone : ∃ u, op = .remove u m ∧ removeTarget r s u m = .ok (some id) := by
        by_contra hkept
        rw [(isHidden_perform_iff r s op id m).mpr ⟨hidden, hkept⟩] at hnext
        cases hnext
      obtain ⟨u, rfl, htarget⟩ := hgone
      obtain ⟨hremoved, hstands⟩ := removeTarget_eq_some_iff.mp htarget
      have hcheck := (of_removeTarget_eq_ok htarget).1
      rw [Registry.check, Registry.capabilities] at hcheck
      refine iff_of_true ?_ ⟨[], u, ops, rfl, hremoved, hstands, ?_⟩
      · by_contra hstill
        rw [isHidden_of_isHidden_run (Bool.not_eq_false _ ▸ hstill)] at hnext
        cases hnext
      · split at hcheck
        · simp at hcheck
        · exact r.exists_grant_of_isHidden own hidden hstands hcheck

/-- Whatever guests ask for, no authority is lost. It changes on a member of a value exactly if the
member is hidden, a guest object or function decides on it, and one of the operations removes it by
way of a view on which the registry grants the removal. -/
theorem authority_changes_iff_uncovered (r : Registry) (s : Store code) (ops : List Operation)
    (v : Value) (m : String) (c : Capability) :
    (r.check s v m c = true → r.check (run r s ops).2 v m c = true) ∧
    (r.check (run r s ops).2 v m c ≠ r.check s v m c ↔
      ∃ id, r.decider? s v m = some id ∧ s.isHidden id m = true ∧
        ∃ before u after, ops = before ++ .remove u m :: after ∧
          Uncovers r (run r s before).2 id m u) := by
  have natures := sameNatures_run r s ops
  cases hdecider : r.decider? s v m with
  | none =>
    rw [r.check_of_no_decider natures hdecider]
    simp
  | some id =>
    have hlater : r.decider? (run r s ops).2 v m = some id :=
      (r.decider?_congr natures v m).symm.trans hdecider
    rw [r.check_of_decider hdecider, r.check_of_decider hlater]
    simp only [Option.some.injEq, exists_eq_left']
    cases hidden : s.isHidden id m with
    | true =>
      rw [← not_isHidden_run_iff ops (r.verdict_of_decider hdecider) hidden]
      simp
    | false =>
      have hshown : (run r s ops).2.isHidden id m = false := by
        by_contra hcovered
        rw [isHidden_of_isHidden_run (Bool.not_eq_false _ ▸ hcovered)] at hidden
        cases hidden
      simp [hshown]

/-- A guest object with the hidden slot `key`, and a view on it that lists nothing. -/
def covered : Store Unit :=
  ⟨#[⟨.object .guest false, Table.empty.insert "key" (.hidden .null), false⟩,
    ⟨.object (.view (.object 0) []) false, .empty, true⟩]⟩

/-- `key` may be removed through the view, by a grant on the view itself. -/
def viewGrants : Registry := .ofCalls [.grant (.ofInstance 1) "key" (.ofList [.delete])]

/-- Writes another member, then removes the hidden slot through the view. -/
def uncovering : List Operation :=
  [.write (.object 0) "page" .null, .remove (.object 1) "key"]

/-- `key` may not be read while its slot is hidden, and may be read once the slot is gone. -/
theorem authority_not_stable :
    viewGrants.check covered (.object 0) "key" .read = false ∧
    viewGrants.check (run viewGrants covered uncovering).2 (.object 0) "key" .read = true :=
  ⟨by decide, by decide⟩

/-- The object decides on `key` and hides it, and the removal through the view uncovers it, so the
authority on `key` changes. The authority on `page` stays. -/
theorem authority_changes_iff_uncovered_of_covered :
    viewGrants.decider? covered (.object 0) "key" = some 0 ∧ covered.isHidden 0 "key" = true ∧
    Uncovers viewGrants (run viewGrants covered [.write (.object 0) "page" .null]).2 0 "key"
      (.object 1) ∧
    viewGrants.check (run viewGrants covered uncovering).2 (.object 0) "key" .write ≠
      viewGrants.check covered (.object 0) "key" .write ∧
    viewGrants.check covered (.object 0) "page" .delete = true ∧
    viewGrants.check (run viewGrants covered uncovering).2 (.object 0) "page" .delete = true :=
  have hdecider : viewGrants.decider? covered (.object 0) "key" = some 0 := by decide
  have hidden : covered.isHidden 0 "key" = true := by decide
  have uncovers : Uncovers viewGrants
      (run viewGrants covered [.write (.object 0) "page" .null]).2 0 "key" (.object 1) :=
    ⟨rfl, rfl, .object 1, .object 0, .ofList [.delete], .refl, ⟨[], rfl⟩, by decide, by decide⟩
  have page : viewGrants.check covered (.object 0) "page" .delete = true := by decide
  ⟨hdecider, hidden, uncovers,
    (authority_changes_iff_uncovered viewGrants covered uncovering (.object 0) "key" .write).2.mpr
      ⟨0, hdecider, hidden, [.write (.object 0) "page" .null], .object 1, [], rfl, uncovers⟩,
    page,
    (authority_changes_iff_uncovered viewGrants covered uncovering (.object 0) "page" .delete).1
      page⟩

end Access

end Confinement
