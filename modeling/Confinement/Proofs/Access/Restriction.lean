import Confinement.Proofs.Access.Noninterference
import Confinement.Proofs.Module.Import
import Confinement.Proofs.Registry.Attenuation
import Confinement.Proofs.Store.Restriction

/-!
# Restricted imports

An import with an allow-list arrives as a new view. Through it a module works on the target as if
the target had no other members than the listed ones: leaving the others out of the store changes no
answer, and what is left out before a run can as well be left out after it. So two stores that
differ only in members outside the allow-list cannot be told apart through the view.
-/
namespace Confinement

variable {code : Type}

namespace Access

section View

variable {r : Registry} {s : Store code} {v target : Value} {allow A : List String}
  (hview : s.view? v = some (target, allow)) (hA : ∀ m ∈ allow, m ∈ A)
  (unnamed : ∀ m, r.instanceGrant? v m = none)

include hview hA unnamed

theorem mem_of_check {m : String} {c : Capability} (h : r.check s v m c = true) : m ∈ A := by
  refine hA m (by_contra fun hm => ?_)
  rw [Registry.check, r.capabilities_view_eq_empty hview (unnamed m) hm,
    CapabilitySet.contains_empty] at h
  cases h

theorem check_restrict (m : String) (c : Capability) :
    r.check (s.restrict (s.resolve v) A) v m c = r.check s v m c := by
  have natures := s.sameNatures_restrict (s.resolve v) A
  by_cases hm : m ∈ A
  · have same (id : EntityId) := congrArg (Option.map Slot.enumerable)
      (s.slot?_restrict (s.resolve v) hm id)
    rw [Registry.check, ← r.capabilities_congr natures (fun id => (same id).symm), Registry.check]
  · have hallow : m ∉ allow := fun h => hm (hA m h)
    rw [Registry.check, r.capabilities_view_eq_empty (natures.view? v ▸ hview) (unnamed m) hallow,
      Registry.check, r.capabilities_view_eq_empty hview (unnamed m) hallow]

omit hview hA unnamed in
theorem lookup?_restrict {m : String} (hm : m ∈ A) :
    lookup? (s.restrict (s.resolve v) A) v m = lookup? s v m := by
  rw [lookup?_eq_slot?, lookup?_eq_slot?, ← (s.sameNatures_restrict (s.resolve v) A).resolve v]
  simp only [s.slot?_restrict (s.resolve v) hm]

/-- An act behind both checks may rely on a member that is kept. -/
theorem granted_restrict {α : Type} {m : String} {c : Capability} {act act' : Except Fault α}
    (h : m ∈ A → act' = act) :
    (do requireObject v m; require r (s.restrict (s.resolve v) A) v m c; act') =
      (do requireObject v m; require r s v m c; act) := by
  unfold require
  rw [check_restrict hview hA unnamed]
  cases hc : r.check s v m c with
  | false => rfl
  | true => rw [h (mem_of_check hview hA unnamed hc)]

theorem read_restrict (m : String) : read r (s.restrict (s.resolve v) A) v m = read r s v m := by
  have natures := s.sameNatures_restrict (s.resolve v) A
  refine granted_restrict hview hA unnamed fun hm => ?_
  rw [rewrap, rewrap, lookup?_restrict hm, ← natures.view? v, ← natures.resolve v]

theorem has_restrict (m : String) : has r (s.restrict (s.resolve v) A) v m = has r s v m := by
  unfold has
  rw [check_restrict hview hA unnamed, check_restrict hview hA unnamed]
  cases hc : r.check s v m .read || r.check s v m .call with
  | false => rfl
  | true =>
    have hm : m ∈ A := by
      rcases (Bool.or_eq_true _ _).mp hc with hc | hc
      · exact mem_of_check hview hA unnamed hc
      · exact mem_of_check hview hA unnamed hc
    rw [lookup?_restrict hm]

/-- The names that may be listed are among those in `A`, so the others drop out either way. -/
theorem keys_restrict : keys r (s.restrict (s.resolve v) A) v = keys r s v := by
  unfold keys
  simp only [check_restrict hview hA unnamed, ← (s.sameNatures_restrict (s.resolve v) A).resolve v,
    s.entityOf?_restrict]
  cases s.entityOf? (s.resolve v) with
  | none => rfl
  | some e =>
    simp only [Option.map_some, Entity.enumerableKeys, Entity.restrict, Table.restrict,
      List.filter_map, List.filter_filter, Function.comp_def]
    refine congrArg (fun l => requireObject v "" >>= fun _ => Except.ok (List.map Prod.fst l))
      (List.filter_congr fun entry _ => ?_)
    cases hc : r.check s v entry.1 .enumerate with
    | false => simp
    | true => simp [mem_of_check hview hA unnamed hc]

theorem writeTarget_restrict (m : String) :
    writeTarget r (s.restrict (s.resolve v) A) v m = writeTarget r s v m := by
  refine granted_restrict hview hA unnamed fun hm => ?_
  rw [← (s.sameNatures_restrict (s.resolve v) A).resolve v, s.entityOf?_restrict]
  cases (s.resolve v).id? with
  | none => cases s.entityOf? (s.resolve v) <;> rfl
  | some id =>
    cases s.entityOf? (s.resolve v) with
    | none => rfl
    | some e => simp only [Option.map_some, e.isImmutable_restrict hm]

theorem removeTarget_restrict (m : String) :
    removeTarget r (s.restrict (s.resolve v) A) v m = removeTarget r s v m := by
  refine granted_restrict hview hA unnamed fun hm => ?_
  rw [← (s.sameNatures_restrict (s.resolve v) A).resolve v, s.entityOf?_restrict]
  cases (s.resolve v).id? with
  | none => cases s.entityOf? (s.resolve v) <;> rfl
  | some id =>
    cases s.entityOf? (s.resolve v) with
    | none => rfl
    | some e => simp only [Option.map_some, e.find?_restrict hm, e.isImmutable_restrict hm]

/-- Leaving members out changes neither the answer nor the change that is made. -/
theorem answer_and_change_restrict (op : Operation) (hop : op.subject = v) :
    (perform r (s.restrict (s.resolve v) A) op).1 = (perform r s op).1 ∧
      change? r (s.restrict (s.resolve v) A) op = change? r s op := by
  cases op with
  | read w m =>
    obtain rfl : w = v := hop
    exact ⟨by simp only [perform, read_restrict hview hA unnamed], rfl⟩
  | write w m x =>
    obtain rfl : w = v := hop
    simp only [perform, change?, write_eq, writeTarget_restrict hview hA unnamed]
    cases writeTarget r s w m <;> exact ⟨rfl, trivial⟩
  | remove w m =>
    obtain rfl : w = v := hop
    simp only [perform, change?, remove_eq, removeTarget_restrict hview hA unnamed]
    cases removeTarget r s w m <;> exact ⟨rfl, trivial⟩
  | keys w =>
    obtain rfl : w = v := hop
    exact ⟨by simp only [perform, keys_restrict hview hA unnamed], rfl⟩
  | has w m =>
    obtain rfl : w = v := hop
    exact ⟨by simp only [perform, has_restrict hview hA unnamed], rfl⟩

theorem mem_of_change? {op : Operation} (hop : op.subject = v) {id : EntityId} {m : String}
    {f : Entity code → Entity code} (h : change? r s op = some (id, m, f)) : m ∈ A := by
  cases op with
  | write w m' x =>
    obtain rfl : w = v := hop
    simp only [change?] at h
    split at h
    · rename_i htarget
      cases h
      exact mem_of_check hview hA unnamed (of_granted_eq_ok htarget).1
    · cases h
  | remove w m' =>
    obtain rfl : w = v := hop
    simp only [change?] at h
    split at h
    · rename_i htarget
      cases h
      exact mem_of_check hview hA unnamed (of_granted_eq_ok htarget).1
    · cases h
  | _ => cases h

/-- One operation through the view: members can be left out before it or after it. -/
theorem perform_restrict (op : Operation) (hop : op.subject = v) :
    perform r (s.restrict (s.resolve v) A) op =
      ((perform r s op).1, (perform r s op).2.restrict (s.resolve v) A) := by
  obtain ⟨answer, change⟩ := answer_and_change_restrict hview hA unnamed op hop
  refine Prod.ext answer ?_
  rw [perform_store, perform_store, change]
  cases h : change? r s op with
  | none => rfl
  | some c =>
    obtain ⟨id, m, f⟩ := c
    refine (s.restrict_update _ (fun e => ?_) id).symm
    rcases change?_cases h with ⟨x, rfl⟩ | rfl
    · exact e.restrict_setValue (mem_of_change? hview hA unnamed hop h) x
    · exact e.restrict_eraseProperty A m

/-- A whole run through the view. -/
theorem run_restrict (ops : List Operation) (hops : ∀ op ∈ ops, op.subject = v) :
    run r (s.restrict (s.resolve v) A) ops =
      ((run r s ops).1, (run r s ops).2.restrict (s.resolve v) A) := by
  induction ops generalizing s with
  | nil => rfl
  | cons op ops ih =>
    have natures := sameNatures_perform r s op
    have rest := ih (natures.view? v ▸ hview) fun op' hop' =>
      hops op' (List.mem_cons_of_mem op hop')
    rw [← natures.resolve v] at rest
    simp only [run, perform_restrict hview hA unnamed op (hops op (List.mem_cons_self ..)), rest]

/-- Stores that differ at most in members outside `A` are told apart by no run through the view. -/
theorem run_agreeBut {t : Store code} (agree : s.AgreeBut (s.resolve v) A t) (ops : List Operation)
    (hops : ∀ op ∈ ops, op.subject = v) :
    (run r s ops).1 = (run r t ops).1 ∧
      (run r s ops).2.AgreeBut (s.resolve v) A (run r t ops).2 := by
  have natures := agree.sameNatures
  have left := run_restrict hview hA unnamed ops hops
  have right := run_restrict (natures.view? v ▸ hview) hA unnamed ops hops
  rw [← natures.resolve v, ← Store.agreeBut_iff.mp agree, left] at right
  obtain ⟨answers, stores⟩ := Prod.mk.inj right
  exact ⟨answers, Store.agreeBut_iff.mpr stores⟩

end View

end Access

namespace Access

/-- Let a module be linked against an import with allow-list `A`. It arrives as a view that was not
there before, so that no earlier grant names it; let no grant of the registry name it. Two later
stores that differ at most in members outside `A` of what the view stands for answer every sequence
of operations through the view alike, and go on differing at most there. -/
theorem restricted_import_does_not_interfere (r : Registry) {s built h₁ h₂ : Store code}
    {imports : List Import} {table : Table Value} {i : Import} {A : List String}
    (linked : Import.table s imports = .ok (table, built)) (hi : i ∈ imports)
    (hA : i.allow = some A) (unnamed : ∀ m, r.instanceGrant? (Import.get table i.name) m = none)
    (later : built.Extends h₁)
    (agree : h₁.AgreeBut (h₁.resolve (Import.get table i.name)) A h₂) (ops : List Operation)
    (hops : ∀ op ∈ ops, op.subject = Import.get table i.name) :
    s.entityOf? (Import.get table i.name) = none ∧
    (run r h₁ ops).1 = (run r h₂ ops).1 ∧
      (run r h₁ ops).2.AgreeBut (h₁.resolve (Import.get table i.name)) A (run r h₂ ops).2 := by
  obtain ⟨hnew, hview⟩ := Import.view?_of_link linked hi hA
  have hview₁ : h₁.view? (Import.get table i.name) = some (i.value, A.eraseDups) := by
    rw [later.view?_eq_of_fronts ⟨_, hview⟩, hview]
  exact ⟨hnew, run_agreeBut hview₁ (fun m hm => List.mem_eraseDups.mp hm) unnamed agree ops hops⟩

/-- A host object with the slot `title` between other slots. -/
def slotsAround (before after : List (String × Slot)) : Store Unit :=
  ⟨#[⟨.object (.host "Host" .empty) false,
    .ofList (before ++ [("title", .plain (.string "a"))] ++ after), false⟩]⟩

/-- An import of the object with an allow-list. -/
def restrictedImport : Import :=
  { name := "host", value := .object 0, allow := some ["title", "note"] }

/-- The names and the store after linking a module against the object. -/
def linkedSlots (before after : List (String × Slot)) : Table Value × Store Unit :=
  (Table.empty.insert "host" (.object 1),
    ((slotsAround before after).newView (.object 0) ["title", "note"]).2)

/-- Grants on listed and on unlisted members, of the class and of the object, not on the view. -/
def slotGrants : Registry :=
  { grants := [⟨.ofInstance 0, "title", .ofList [.read, .delete, .enumerate]⟩,
      ⟨.ofClass "Host", "note", .ofList [.read, .write, .enumerate]⟩,
      ⟨.ofClass "Host", "extra", .ofList [.read, .write, .enumerate]⟩] }

/-- Operations through the view, on listed and on unlisted names. -/
def slotRequests : List Operation :=
  [.keys (.object 1), .read (.object 1) "extra", .write (.object 1) "note" .null,
    .has (.object 1) "extra", .remove (.object 1) "title", .keys (.object 1)]

/-- A store with unlisted slots on both sides of the listed one, against a store without them. -/
theorem restricted_import_does_not_interfere_of_unlisted_slots :
    Import.table (slotsAround [] []) [restrictedImport] = .ok (linkedSlots [] []) ∧
    (linkedSlots [] []).2.AgreeBut (.object 0) ["title", "note"]
      (linkedSlots [("extra", .plain .null)] [("fixed", .pinned .null)]).2 ∧
    (slotsAround [] []).entityOf? (.object 1) = none ∧
    (run slotGrants (linkedSlots [] []).2 slotRequests).1 =
      (run slotGrants (linkedSlots [("extra", .plain .null)] [("fixed", .pinned .null)]).2
        slotRequests).1 ∧
    (run slotGrants (linkedSlots [] []).2 slotRequests).2.AgreeBut (.object 0) ["title", "note"]
      (run slotGrants (linkedSlots [("extra", .plain .null)] [("fixed", .pinned .null)]).2
        slotRequests).2 :=
  have linked : Import.table (slotsAround [] []) [restrictedImport] = .ok (linkedSlots [] []) := rfl
  have agree : (linkedSlots [] []).2.AgreeBut (.object 0) ["title", "note"]
      (linkedSlots [("extra", .plain .null)] [("fixed", .pinned .null)]).2 := by
    constructor
    · intro id hid
      match id with
      | 0 => exact absurd rfl hid
      | 1 => rfl
      | _ + 2 => rfl
    · intro id hid
      cases hid
      exact .some ⟨rfl, rfl, rfl⟩
  have asked : ∀ op ∈ slotRequests, op.subject = .object 1 := by
    intro op hop
    simp only [slotRequests, List.mem_cons, List.not_mem_nil, or_false] at hop
    rcases hop with rfl | rfl | rfl | rfl | rfl | rfl <;> rfl
  ⟨linked, agree, restricted_import_does_not_interfere slotGrants linked
    (List.mem_singleton.mpr rfl) rfl (fun _ => rfl) (.refl _) agree slotRequests asked⟩

end Access

end Confinement
