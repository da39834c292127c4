import Mathlib.Tactic
import Confinement.Access

/-!
# Sequences of mediated operations

One operation on behalf of a guest gives an answer or a fault, and leaves a store. Whatever it does,
no object or function changes its nature: views keep their targets, so every value resolves to what
it resolved to before, and classes and origins stay what they were. What a registry allows on a
member then depends, besides the natures, on one flag: whether the slot of that member in the
resolved entity is hidden.
-/
namespace Confinement

variable {code : Type}

namespace Store

/-- The slot of a member of an entity. -/
def slot? (s : Store code) (id : EntityId) (m : String) : Option Slot :=
  (s.entity? id).bind (·.properties.find? m)

/-- Each entity of one store has the nature of the entity of that identity in the other. -/
def SameNatures (s t : Store code) : Prop :=
  ∀ id, (s.entity? id).map Entity.nature = (t.entity? id).map Entity.nature

namespace SameNatures

variable {s t : Store code}

theorem refl (s : Store code) : SameNatures s s := fun _ => rfl

theorem trans {u : Store code} (h : SameNatures s t) (h' : SameNatures t u) : SameNatures s u :=
  fun id => (h id).trans (h' id)

theorem size (h : SameNatures s t) : s.size = t.size := by
  have bound (u : Store code) (id : EntityId) : (u.entity? id).isSome ↔ id < u.size := by
    simp [entity?, Store.size]
  refine eq_of_forall_lt_iff fun id => ?_
  rw [← bound s, ← bound t, ← Option.isSome_map (f := Entity.nature), h id, Option.isSome_map]

theorem origin? (h : SameNatures s t) (id : EntityId) : s.origin? id = t.origin? id := by
  have through (u : Store code) : u.origin? id = ((u.entity? id).map Entity.nature).bind fun
      | .object origin _ => some origin
      | .function _ => none := by
    unfold Store.origin?
    rcases u.entity? id with - | ⟨nature, -, -⟩
    · rfl
    · cases nature <;> rfl
  rw [through s, through t, h id]

theorem function? (h : SameNatures s t) (id : EntityId) : s.function? id = t.function? id := by
  have through (u : Store code) : u.function? id = ((u.entity? id).map Entity.nature).bind fun
      | .object _ _ => none
      | .function record => some record := by
    unfold Store.function?
    rcases u.entity? id with - | ⟨nature, -, -⟩
    · rfl
    · cases nature <;> rfl
  rw [through s, through t, h id]

theorem view? (h : SameNatures s t) (v : Value) : s.view? v = t.view? v := by
  cases v with
  | object id => simp only [Store.view?, h.origin? id]
  | _ => rfl

theorem resolveWithin (h : SameNatures s t) (n : Nat) (v : Value) :
    s.resolveWithin n v = t.resolveWithin n v := by
  induction n generalizing v with
  | zero => rfl
  | succ n ih => simp only [Store.resolveWithin, h.view? v, ih]

theorem resolve (h : SameNatures s t) (v : Value) : s.resolve v = t.resolve v := by
  rw [Store.resolve, Store.resolve, h.size, h.resolveWithin]

end SameNatures

theorem exists_nature_of_origin? {s : Store code} {id : EntityId} {origin : ObjectOrigin}
    (h : s.origin? id = some origin) :
    ∃ tamed, (s.entity? id).map Entity.nature = some (.object origin tamed) := by
  unfold origin? at h
  split at h
  · rename_i hentity
    cases h
    exact ⟨_, by rw [hentity, Option.map_some]⟩
  · cases h

theorem nature_of_function? {s : Store code} {id : EntityId} {f : FunctionRecord code}
    (h : s.function? id = some f) : (s.entity? id).map Entity.nature = some (.function f) := by
  unfold function? at h
  split at h
  · rename_i hentity
    cases h
    rw [hentity, Option.map_some]
  · cases h

theorem sameNatures_update (s : Store code) (id : EntityId) {f : Entity code → Entity code}
    (h : ∀ e, (f e).nature = e.nature) : SameNatures s (s.update id f) := by
  intro j
  rw [entity?_update]
  split
  · cases s.entity? j with
    | none => rfl
    | some e => simp [h e]
  · rfl

/-- A value names an object as an object and a function as a function. -/
def Typed (s : Store code) : Value → Prop
  | .object id => s.function? id = none
  | .function id => s.origin? id = none
  | _ => True

/-- What a view stands in front of is named as what it is. -/
def ViewsTyped (s : Store code) : Prop :=
  ∀ id target allow, s.origin? id = some (.view target allow) → s.Typed target

theorem view?_eq_some_iff {s : Store code} {v target : Value} {allow : List String} :
    s.view? v = some (target, allow) ↔
      ∃ id, v = .object id ∧ s.origin? id = some (.view target allow) := by
  cases v with
  | object id =>
    simp only [view?, Value.object.injEq, exists_eq_left']
    rcases s.origin? id with - | - | - | - <;> simp
  | _ => simp [view?]

theorem view?_eq_none {s : Store code} {v : Value} {id : EntityId} (hv : v.id? = some id)
    (h : ∀ target allow, s.origin? id ≠ some (.view target allow)) : s.view? v = none := by
  by_contra hview
  obtain ⟨⟨target, allow⟩, hview⟩ := Option.ne_none_iff_exists'.mp hview
  obtain ⟨id', rfl, horigin⟩ := view?_eq_some_iff.mp hview
  obtain rfl : id' = id := Option.some.inj hv
  exact h target allow horigin

theorem view?_of_origin? {s : Store code} {v target : Value} {allow : List String} {id : EntityId}
    (typed : s.Typed v) (hv : v.id? = some id) (h : s.origin? id = some (.view target allow)) :
    s.view? v = some (target, allow) := by
  refine view?_eq_some_iff.mpr ⟨id, ?_, h⟩
  cases v with
  | object id' => rw [Option.some.inj hv]
  | function id' =>
    rw [Option.some.inj hv] at typed
    rw [Typed, h] at typed
    cases typed
  | _ => cases hv

theorem ViewsTyped.of_view? {s : Store code} (views : s.ViewsTyped) {v target : Value}
    {allow : List String} (h : s.view? v = some (target, allow)) : s.Typed target := by
  obtain ⟨id, -, horigin⟩ := view?_eq_some_iff.mp h
  exact views id target allow horigin

theorem SameNatures.typed {s t : Store code} (h : SameNatures s t) (v : Value) :
    s.Typed v ↔ t.Typed v := by
  cases v with
  | object id => simp only [Typed, h.function? id]
  | function id => simp only [Typed, h.origin? id]
  | _ => exact Iff.rfl

theorem SameNatures.viewsTyped {s t : Store code} (h : SameNatures s t) (views : s.ViewsTyped) :
    t.ViewsTyped := by
  intro id target allow hview
  rw [← h.origin? id] at hview
  exact (h.typed target).mp (views id target allow hview)

end Store

namespace Registry

theorem ownCapabilities_eq {a b : Option Slot} (h : a.map Slot.enumerable = b.map Slot.enumerable) :
    ownCapabilities a = ownCapabilities b := by
  have through (o : Option Slot) : ownCapabilities o =
      if (o.map Slot.enumerable).getD true then .full else .empty := by
    cases o <;> rfl
  rw [through a, through b, h]

/-- One step of the walk through the views of a value: either the next value decides, or this one
does, and then the only slot that counts is its own. -/
theorem capabilitiesWithin_step (r : Registry) {s t : Store code} {m : String}
    (natures : s.SameNatures t) {n : Nat} {v : Value}
    (deeper : ∀ id, v.id? = some id → ∀ target allow, s.origin? id = some (.view target allow) →
      r.capabilitiesWithin s m n target = r.capabilitiesWithin t m n target)
    (here : ∀ id, v.id? = some id → (∀ target allow, s.origin? id ≠ some (.view target allow)) →
      (s.slot? id m).map Slot.enumerable = (t.slot? id m).map Slot.enumerable) :
    r.capabilitiesWithin s m (n + 1) v = r.capabilitiesWithin t m (n + 1) v := by
  rw [capabilitiesWithin, capabilitiesWithin]
  cases hv : v.id? with
  | none => rfl
  | some id =>
    have same := natures id
    simp only [Store.entityOf?, hv, Option.bind_some]
    rcases he : s.entity? id with - | ⟨nature, p, frozen⟩
    · rw [he] at same
      rw [Option.map_eq_none_iff.mp same.symm]
    · rcases hf : t.entity? id with - | ⟨nature', p', frozen'⟩
      · rw [he, hf] at same
        cases same
      · rw [he, hf] at same
        obtain rfl : nature = nature' := Option.some.inj same
        have own (hview : ∀ target allow, s.origin? id ≠ some (.view target allow)) :
            ownCapabilities (p.find? m) = ownCapabilities (p'.find? m) := by
          have h := here id hv hview
          simp only [Store.slot?, he, hf, Option.bind_some] at h
          exact ownCapabilities_eq h
        dsimp only
        cases r.granted? (.ofInstance id) m with
        | some caps => rfl
        | none =>
          rcases nature with ⟨- | ⟨cls, attached⟩ | ⟨target, allow⟩, tamed⟩ | f
          · exact own (by simp [Store.origin?, he])
          · rfl
          · dsimp only
            rw [deeper id hv target allow (by simp [Store.origin?, he])]
          · dsimp only
            cases f.origin with
            | guest => exact own (by simp [Store.origin?, he])
            | host => rfl

/-- The walk through the views of a value ends where the value resolves to. -/
theorem capabilitiesWithin_eq (r : Registry) {s t : Store code} {m : String}
    (natures : s.SameNatures t) (views : s.ViewsTyped) (n : Nat) {v : Value} (typed : s.Typed v)
    (h : ∀ id, (s.resolveWithin n v).id? = some id →
      (s.slot? id m).map Slot.enumerable = (t.slot? id m).map Slot.enumerable) :
    r.capabilitiesWithin s m (n + 1) v = r.capabilitiesWithin t m (n + 1) v := by
  induction n generalizing v with
  | zero => exact r.capabilitiesWithin_step natures (fun _ _ _ _ _ => rfl) fun id hv _ => h id hv
  | succ n ih =>
    refine r.capabilitiesWithin_step natures (fun id hv target allow horigin => ?_)
      fun id hv hview => ?_
    · have hview := Store.view?_of_origin? typed hv horigin
      rw [Store.resolveWithin, hview] at h
      exact ih (views.of_view? hview) h
    · rw [Store.resolveWithin, Store.view?_eq_none hv hview] at h
      exact h id hv

theorem check_eq (r : Registry) {s t : Store code} {m : String} (natures : s.SameNatures t)
    (views : s.ViewsTyped) {v : Value} (typed : s.Typed v)
    (h : ∀ id, (s.resolve v).id? = some id →
      (s.slot? id m).map Slot.enumerable = (t.slot? id m).map Slot.enumerable) (c : Capability) :
    r.check s v m c = r.check t v m c := by
  rw [check, check, capabilities, capabilities, ← natures.size,
    r.capabilitiesWithin_eq natures views s.size typed h]

/-- A member is subject to the same authority in two stores that hide it in the same places. -/
theorem capabilities_congr (r : Registry) {s t : Store code} {m : String}
    (natures : s.SameNatures t)
    (h : ∀ id, (s.slot? id m).map Slot.enumerable = (t.slot? id m).map Slot.enumerable)
    (v : Value) : r.capabilities s v m = r.capabilities t v m := by
  have within (n : Nat) : r.capabilitiesWithin s m n v = r.capabilitiesWithin t m n v := by
    induction n generalizing v with
    | zero => rfl
    | succ n ih =>
      exact r.capabilitiesWithin_step natures (fun _ _ target _ _ => ih target) fun id _ _ => h id
  rw [capabilities, capabilities, natures.size, within]

end Registry

namespace Access

/-- What a guest may ask for, with the subject as it is given. -/
inductive Operation where
  | read (subject : Value) (member : String)
  | write (subject : Value) (member : String) (value : Value)
  | remove (subject : Value) (member : String)
  | keys (subject : Value)
  | has (subject : Value) (member : String)

def Operation.subject : Operation → Value
  | .read v _ | .write v _ _ | .remove v _ | .keys v | .has v _ => v

inductive Answer where
  | value (v : Value)
  | written
  | removed (any : Bool)
  | keys (names : List String)
  | has (present : Bool)

/-- The outcome of one operation and the store it leaves. -/
def perform (r : Registry) (s : Store code) : Operation → Except Fault Answer × Store code
  | .read v m => ((read r s v m).map .value, s)
  | .write v m x => ((write r s v m x).1.map fun _ => .written, (write r s v m x).2)
  | .remove v m => ((remove r s v m).1.map .removed, (remove r s v m).2)
  | .keys v => ((keys r s v).map .keys, s)
  | .has v m => ((has r s v m).map .has, s)

/-- The outcomes of operations made one after the other, and the store left by the last. -/
def run (r : Registry) (s : Store code) : List Operation → List (Except Fault Answer) × Store code
  | [] => ([], s)
  | op :: ops =>
    let rest := run r (perform r s op).2 ops
    ((perform r s op).1 :: rest.1, rest.2)

/-- An act that stands behind both checks was granted, and gives the outcome itself. -/
theorem of_granted_eq_ok {α : Type} {r : Registry} {s : Store code} {v : Value} {m : String}
    {c : Capability} {act : Except Fault α} {x : α}
    (h : (do requireObject v m; require r s v m c; act) = .ok x) :
    r.check s v m c = true ∧ act = .ok x := by
  unfold require at h
  cases hobject : requireObject v m with
  | error f =>
    rw [hobject] at h
    cases h
  | ok _ =>
    cases hcheck : r.check s v m c with
    | false =>
      rw [hobject, hcheck] at h
      cases h
    | true =>
      rw [hobject, hcheck] at h
      exact ⟨rfl, h⟩

/-- The entity that a write may change. Writing and removing first decide which one that is. -/
def writeTarget (r : Registry) (s : Store code) (v : Value) (m : String) :
    Except Fault EntityId := do
  requireObject v m
  require r s v m .write
  match (s.resolve v).id?, s.entityOf? (s.resolve v) with
  | some id, some e => if e.isImmutable m then .error (.immutableField m) else .ok id
  | _, _ => .error (.capabilityDenied .write m)

/-- A decision as an outcome: its answer, beside the store with the change that it allows. -/
def decided {α β : Type} (s : Store code) (answer : α → β) (change : α → Store code) :
    Except Fault α → Except Fault β × Store code
  | .ok a => (.ok (answer a), change a)
  | .error fault => (.error fault, s)

theorem write_eq (r : Registry) (s : Store code) (v : Value) (m : String) (x : Value) :
    write r s v m x = decided s (fun _ => ()) (fun id => s.update id (·.setValue m x))
      (writeTarget r s v m) := by
  unfold write permit writeTarget
  cases requireObject v m with
  | error f => rfl
  | ok _ =>
    cases require r s v m .write with
    | error f => rfl
    | ok _ =>
      simp only [bind, Except.bind]
      cases (s.resolve v).id? with
      | none => rfl
      | some id =>
        cases s.entityOf? (s.resolve v) with
        | none => rfl
        | some e => dsimp only; split <;> rfl

/-- The entity to remove a member from, if it is there. -/
def removeTarget (r : Registry) (s : Store code) (v : Value) (m : String) :
    Except Fault (Option EntityId) := do
  requireObject v m
  require r s v m .delete
  match (s.resolve v).id?, s.entityOf? (s.resolve v) with
  | some id, some e =>
    if (e.properties.find? m).isNone then .ok none
    else if e.isImmutable m then .error (.immutableField m) else .ok (some id)
  | _, _ => .error (.capabilityDenied .delete m)

theorem remove_eq (r : Registry) (s : Store code) (v : Value) (m : String) :
    remove r s v m = decided s Option.isSome
      (fun target => target.elim s fun id => s.update id (·.eraseProperty m))
      (removeTarget r s v m) := by
  unfold remove permit removeTarget
  cases requireObject v m with
  | error f => rfl
  | ok _ =>
    cases require r s v m .delete with
    | error f => rfl
    | ok _ =>
      simp only [bind, Except.bind]
      cases (s.resolve v).id? with
      | none => rfl
      | some id =>
        cases s.entityOf? (s.resolve v) with
        | none => rfl
        | some e =>
          dsimp only
          cases e.properties.find? m with
          | none => rfl
          | some slot => dsimp only [Option.isNone_some]; split <;> simp_all [decided]

theorem decided_eq_error_iff {α β : Type} {s t : Store code} {answer : α → β}
    {change : α → Store code} {decision : Except Fault α} {fault : Fault} :
    decided s answer change decision = (.error fault, t) ↔ decision = .error fault ∧ t = s := by
  cases decision <;> simp [decided, eq_comm]

/-- A write that is refused leaves the store as it was. -/
theorem write_of_error {r : Registry} {s t : Store code} {v : Value} {m : String} {x : Value}
    {fault : Fault} (h : write r s v m x = (.error fault, t)) : t = s := by
  rw [write_eq] at h
  exact (decided_eq_error_iff.mp h).2

/-- A removal that is refused leaves the store as it was. -/
theorem remove_of_error {r : Registry} {s t : Store code} {v : Value} {m : String} {fault : Fault}
    (h : remove r s v m = (.error fault, t)) : t = s := by
  rw [remove_eq] at h
  exact (decided_eq_error_iff.mp h).2

/-- All that a permitted write has passed. -/
theorem of_writeTarget_eq_ok {r : Registry} {s : Store code} {v : Value} {m : String}
    {id : EntityId} (h : writeTarget r s v m = .ok id) :
    r.check s v m .write = true ∧ (s.resolve v).id? = some id ∧
      ∃ e, s.entity? id = some e ∧ e.isImmutable m = false := by
  obtain ⟨hcheck, hact⟩ := of_granted_eq_ok h
  refine ⟨hcheck, ?_⟩
  unfold Store.entityOf? at hact
  cases hid : (s.resolve v).id? with
  | none =>
    rw [hid] at hact
    cases hact
  | some j =>
    rw [hid, Option.bind_some] at hact
    cases he : s.entity? j with
    | none =>
      rw [he] at hact
      cases hact
    | some e =>
      simp only [he] at hact
      cases himmutable : e.isImmutable m with
      | true => simp [himmutable] at hact
      | false =>
        obtain rfl : j = id := by simpa [himmutable] using hact
        exact ⟨rfl, e, he, himmutable⟩

/-- All that a permitted removal has passed: the member is absent, or there and open to change. -/
theorem of_removeTarget_eq_ok {r : Registry} {s : Store code} {v : Value} {m : String}
    {found : Option EntityId} (h : removeTarget r s v m = .ok found) :
    r.check s v m .delete = true ∧ ∃ id e, (s.resolve v).id? = some id ∧ s.entity? id = some e ∧
      ((found = none ∧ e.properties.find? m = none) ∨
        (found = some id ∧ e.properties.find? m ≠ none ∧ e.isImmutable m = false)) := by
  obtain ⟨hcheck, hact⟩ := of_granted_eq_ok h
  refine ⟨hcheck, ?_⟩
  unfold Store.entityOf? at hact
  cases hid : (s.resolve v).id? with
  | none =>
    rw [hid] at hact
    cases hact
  | some j =>
    rw [hid, Option.bind_some] at hact
    cases he : s.entity? j with
    | none =>
      rw [he] at hact
      cases hact
    | some e =>
      refine ⟨j, e, rfl, he, ?_⟩
      simp only [he] at hact
      cases hslot : e.properties.find? m with
      | none => exact .inl ⟨by simpa [hslot, eq_comm] using hact, rfl⟩
      | some slot =>
        cases himmutable : e.isImmutable m with
        | true => simp [hslot, himmutable] at hact
        | false => exact .inr ⟨by simpa [hslot, himmutable, eq_comm] using hact, by simp, rfl⟩

/-- A change to at most the slot of one member. -/
structure ChangesOnly (m : String) (f : Entity code → Entity code) : Prop where
  nature : ∀ e, (f e).nature = e.nature
  others : ∀ e, ∀ m' ≠ m, (f e).properties.find? m' = e.properties.find? m'

theorem changesOnly_setValue (m : String) (x : Value) :
    ChangesOnly m fun e : Entity code => e.setValue m x := by
  constructor
  · intro e
    simp only [Entity.setValue]
    split <;> rfl
  · intro e m' hm
    simp only [Entity.setValue]
    split <;> simp [Entity.define, hm]

theorem changesOnly_eraseProperty (m : String) :
    ChangesOnly m fun e : Entity code => e.eraseProperty m :=
  ⟨fun _ => rfl, fun e m' hm => by simp [Entity.eraseProperty, hm]⟩

theorem slot?_update {m : String} {f : Entity code → Entity code} (only : ChangesOnly m f)
    (s : Store code) {id j : EntityId} {m' : String} (h : (j, m') ≠ (id, m)) :
    (s.update id f).slot? j m' = s.slot? j m' := by
  simp only [Store.slot?, Store.entity?_update]
  split
  · rename_i hj
    have hm : m' ≠ m := fun hm => h (by rw [hj, hm])
    cases s.entity? j with
    | none => rfl
    | some e => exact only.others e m' hm
  · rfl

/-- The change that an operation makes, with the entity it is made to. -/
def change? (r : Registry) (s : Store code) :
    Operation → Option (EntityId × String × (Entity code → Entity code))
  | .write v m x =>
    match writeTarget r s v m with
    | .ok id => some (id, m, (·.setValue m x))
    | .error _ => none
  | .remove v m =>
    match removeTarget r s v m with
    | .ok (some id) => some (id, m, (·.eraseProperty m))
    | _ => none
  | _ => none

/-- The whole effect of an operation: none, or a change to one slot of one entity. -/
theorem perform_store (r : Registry) (s : Store code) (op : Operation) :
    (perform r s op).2 = (change? r s op).elim s fun c => s.update c.1 c.2.2 := by
  cases op with
  | write v m x =>
    simp only [perform, change?, write_eq]
    cases writeTarget r s v m <;> rfl
  | remove v m =>
    simp only [perform, change?, remove_eq]
    rcases removeTarget r s v m with - | - | - <;> rfl
  | _ => rfl

theorem change?_cases {r : Registry} {s : Store code} {op : Operation} {id : EntityId}
    {m : String} {f : Entity code → Entity code} (h : change? r s op = some (id, m, f)) :
    (∃ x, f = (·.setValue m x)) ∨ f = (·.eraseProperty m) := by
  cases op with
  | write v m' x =>
    simp only [change?] at h
    split at h
    · cases h
      exact .inl ⟨x, rfl⟩
    · cases h
  | remove v m' =>
    simp only [change?] at h
    split at h
    · cases h
      exact .inr rfl
    · cases h
  | _ => cases h

theorem changesOnly_change? {r : Registry} {s : Store code} {op : Operation} {id : EntityId}
    {m : String} {f : Entity code → Entity code} (h : change? r s op = some (id, m, f)) :
    ChangesOnly m f := by
  rcases change?_cases h with ⟨x, rfl⟩ | rfl
  · exact changesOnly_setValue m x
  · exact changesOnly_eraseProperty m

theorem sameNatures_perform (r : Registry) (s : Store code) (op : Operation) :
    s.SameNatures (perform r s op).2 := by
  rw [perform_store]
  cases h : change? r s op with
  | none => exact .refl s
  | some c => exact s.sameNatures_update c.1 (changesOnly_change? h).nature

end Access

end Confinement
