import Confinement.Proofs.Access.Operation

/-!
# Values that cannot be read do not matter

Two stores agree off a set of slots if they differ at most in the values of these slots. As long as
no subject may read a slot of the set, a guest cannot tell the stores apart by any sequence of
operations, and the stores go on agreeing.

Authority itself may change on the way: a guest that may delete a hidden member, but not read it,
can put a readable one in its place. From then on the slot holds the same value in both stores. So
the step lemma follows the slots that still differ, and drops a slot once it is changed.
-/
namespace Confinement

variable {code : Type}

/-- All of a slot but its value. -/
def Slot.flags (a : Slot) : Bool × Bool := (a.enumerable, a.fixed)

theorem Slot.withValue_eq {a b : Slot} (h : a.flags = b.flags) (x : Value) :
    { a with value := x } = { b with value := x } := by
  obtain ⟨henumerable, hfixed⟩ := Prod.mk.inj h
  rw [henumerable, hfixed]

/-- Two entities that differ at most in the values of the members in `M`. -/
structure Entity.AgreeOff (M : Set String) (e f : Entity code) : Prop where
  nature : e.nature = f.nature
  frozen : e.frozen = f.frozen
  keys : e.properties.keys = f.properties.keys
  flags : ∀ m, (e.properties.find? m).map Slot.flags = (f.properties.find? m).map Slot.flags
  slots : ∀ m ∉ M, e.properties.find? m = f.properties.find? m

/-- Two stores that differ at most in the values of the slots in `S`. -/
def Store.AgreeOff (S : Set (EntityId × String)) (s t : Store code) : Prop :=
  ∀ id, Option.Rel (Entity.AgreeOff {m | (id, m) ∈ S}) (s.entity? id) (t.entity? id)

theorem Table.find?_of_mem {t : Table α} {k : String} {v : α} (h : (k, v) ∈ t.entries) :
    t.find? k = some v := by
  obtain ⟨entries, nodup⟩ := t
  simp only [find?]
  induction entries with
  | nil => cases h
  | cons e rest ih =>
    obtain ⟨hnew, nodup⟩ := List.nodup_cons.mp nodup
    rcases List.mem_cons.mp h with rfl | h
    · simp [findEntry]
    · have hne : e.1 ≠ k := fun hk => hnew (hk ▸ List.mem_map_of_mem h)
      rw [findEntry, if_neg hne]
      exact ih nodup h

namespace Entity

/-- Names and flags determine which members are listed, in which order. -/
theorem enumerableKeys_eq (e : Entity code) : e.enumerableKeys =
    e.properties.keys.filter fun k => ((e.properties.find? k).map Slot.enumerable).getD false := by
  rw [enumerableKeys, Table.keys, List.filter_map]
  refine congrArg (List.map Prod.fst) (List.filter_congr fun a ha => ?_)
  simp [Table.find?_of_mem ha]

namespace AgreeOff

variable {M : Set String} {e f : Entity code}

theorem mono {N : Set String} (h : e.AgreeOff M f) (hMN : M ⊆ N) : e.AgreeOff N f :=
  { h with slots := fun m hm => h.slots m fun hM => hm (hMN hM) }

theorem enumerable (h : e.AgreeOff M f) (m : String) :
    (e.properties.find? m).map Slot.enumerable = (f.properties.find? m).map Slot.enumerable := by
  simpa [Option.map_map, Function.comp_def, Slot.flags] using
    congrArg (Option.map Prod.fst) (h.flags m)

theorem isNone (h : e.AgreeOff M f) (m : String) :
    (e.properties.find? m).isNone = (f.properties.find? m).isNone := by
  simpa using congrArg Option.isNone (h.flags m)

theorem isImmutable (h : e.AgreeOff M f) (m : String) : e.isImmutable m = f.isImmutable m := by
  have fixed : (e.properties.find? m).map Slot.fixed = (f.properties.find? m).map Slot.fixed := by
    simpa [Option.map_map, Function.comp_def, Slot.flags] using
      congrArg (Option.map Prod.snd) (h.flags m)
  rw [Entity.isImmutable, Entity.isImmutable, h.frozen, fixed]

theorem enumerableKeys (h : e.AgreeOff M f) : e.enumerableKeys = f.enumerableKeys := by
  simp only [enumerableKeys_eq, h.keys, h.enumerable]

theorem define (h : e.AgreeOff M f) (m : String) (a : Slot) :
    (e.define m a).AgreeOff (M \ {m}) (f.define m a) where
  nature := h.nature
  frozen := h.frozen
  keys := by simp only [Entity.define, Table.keys_insert, h.keys]
  flags m' := by
    simp only [Entity.define, Table.find?_insert]
    split
    · rfl
    · exact h.flags m'
  slots m' hm' := by
    simp only [Entity.define, Table.find?_insert]
    split
    · rfl
    · rename_i hne
      exact h.slots m' fun hM => hm' ⟨hM, hne⟩

/-- Writing a member keeps its flags, so it puts the same slot into both. -/
theorem setValue (h : e.AgreeOff M f) (m : String) (x : Value) :
    (e.setValue m x).AgreeOff (M \ {m}) (f.setValue m x) := by
  have flags := h.flags m
  cases he : e.properties.find? m with
  | none =>
    rw [he, eq_comm, Option.map_none, Option.map_eq_none_iff] at flags
    simp only [Entity.setValue, he, flags]
    exact h.define m _
  | some a =>
    rw [he, eq_comm, Option.map_some, Option.map_eq_some_iff] at flags
    obtain ⟨b, hf, hb⟩ := flags
    simp only [Entity.setValue, he, hf, Slot.withValue_eq hb]
    exact h.define m _

theorem eraseProperty (h : e.AgreeOff M f) (m : String) :
    (e.eraseProperty m).AgreeOff (M \ {m}) (f.eraseProperty m) where
  nature := h.nature
  frozen := h.frozen
  keys := by simp only [Entity.eraseProperty, Table.keys_erase, h.keys]
  flags m' := by
    simp only [Entity.eraseProperty, Table.find?_erase]
    split
    · rfl
    · exact h.flags m'
  slots m' hm' := by
    simp only [Entity.eraseProperty, Table.find?_erase]
    split
    · rfl
    · rename_i hne
      exact h.slots m' fun hM => hm' ⟨hM, hne⟩

end AgreeOff

end Entity

namespace Store.AgreeOff

variable {S : Set (EntityId × String)} {s t : Store code}

theorem cases (h : s.AgreeOff S t) (id : EntityId) :
    (s.entity? id = none ∧ t.entity? id = none) ∨ ∃ e f, s.entity? id = some e ∧
      t.entity? id = some f ∧ e.AgreeOff {m | (id, m) ∈ S} f := by
  have hid := h id
  generalize s.entity? id = a at hid ⊢
  generalize t.entity? id = b at hid ⊢
  cases hid with
  | none => exact .inl ⟨rfl, rfl⟩
  | some hef => exact .inr ⟨_, _, rfl, rfl, hef⟩

theorem mono {S' : Set (EntityId × String)} (h : s.AgreeOff S t) (hS : S ⊆ S') :
    s.AgreeOff S' t := by
  intro id
  rcases h.cases id with ⟨hs, ht⟩ | ⟨e, f, hs, ht, hef⟩ <;> rw [hs, ht]
  · exact .none
  · exact .some (hef.mono fun _ hm => hS hm)

theorem sameNatures (h : s.AgreeOff S t) : s.SameNatures t := by
  intro id
  rcases h.cases id with ⟨hs, ht⟩ | ⟨e, f, hs, ht, hef⟩
  · rw [hs, ht]
  · rw [hs, ht, Option.map_some, Option.map_some, hef.nature]

theorem slot? (h : s.AgreeOff S t) {id : EntityId} {m : String} (hS : (id, m) ∉ S) :
    s.slot? id m = t.slot? id m := by
  rcases h.cases id with ⟨hs, ht⟩ | ⟨e, f, hs, ht, hef⟩
  · simp only [Store.slot?, hs, ht]
  · simp only [Store.slot?, hs, ht]
    exact hef.slots m hS

theorem enumerable (h : s.AgreeOff S t) (id : EntityId) (m : String) :
    (s.slot? id m).map Slot.enumerable = (t.slot? id m).map Slot.enumerable := by
  rcases h.cases id with ⟨hs, ht⟩ | ⟨e, f, hs, ht, hef⟩
  · simp only [Store.slot?, hs, ht]
  · simp only [Store.slot?, hs, ht]
    exact hef.enumerable m

theorem entityOf? (h : s.AgreeOff S t) (v : Value) :
    (s.entityOf? v = none ∧ t.entityOf? v = none) ∨ ∃ id M e f, v.id? = some id ∧
      s.entityOf? v = some e ∧ t.entityOf? v = some f ∧ e.AgreeOff M f := by
  unfold Store.entityOf?
  cases v.id? with
  | none => exact .inl ⟨rfl, rfl⟩
  | some id =>
    rcases h.cases id with hnone | ⟨e, f, hs, ht, hef⟩
    · exact .inl hnone
    · exact .inr ⟨id, _, e, f, rfl, hs, ht, hef⟩

/-- The registry gives both stores the same authority. -/
theorem check (h : s.AgreeOff S t) (views : s.ViewsTyped) (r : Registry) {v : Value}
    (typed : s.Typed v) (m : String) (c : Capability) : r.check s v m c = r.check t v m c :=
  r.check_eq h.sameNatures views typed (fun id _ => h.enumerable id m) c

/-- One and the same change, which makes the slots of a member the same, on both sides. -/
theorem update (h : s.AgreeOff S t) {f : Entity code → Entity code} {m : String}
    (aligns : ∀ M e e', Entity.AgreeOff M e e' → (f e).AgreeOff (M \ {m}) (f e')) (id : EntityId) :
    (s.update id f).AgreeOff (S \ {(id, m)}) (t.update id f) := by
  intro j
  rw [Store.entity?_update, Store.entity?_update]
  rcases h.cases j with ⟨hs, ht⟩ | ⟨e, e', hs, ht, hef⟩ <;> rw [hs, ht] <;> split
  · exact .none
  · exact .none
  · rename_i hj
    refine .some ((aligns _ e e' hef).mono fun m' hm' => ?_)
    simpa [hj] using hm'
  · rename_i hj
    refine .some (hef.mono fun m' hm' => ⟨hm', ?_⟩)
    simpa using fun hid : j = id => absurd hid.symm hj

end Store.AgreeOff

namespace Access

/-- No subject that resolves to the entity, be it the entity itself or a view on it, may read the
member. -/
def Unreadable (r : Registry) (s : Store code) (id : EntityId) (m : String) : Prop :=
  ∀ v, s.Typed v → (s.resolve v).id? = some id → r.check s v m .read = false

theorem lookup?_eq_slot? (s : Store code) (v : Value) (m : String) :
    lookup? s v m = ((s.resolve v).id?.bind fun id => s.slot? id m).map Slot.value := by
  unfold lookup? Store.entityOf?
  cases (s.resolve v).id? with
  | none => rfl
  | some id =>
    simp only [Option.bind_some, Store.slot?]
    cases s.entity? id <;> rfl

section Agreeing

variable {S : Set (EntityId × String)} {s t : Store code} {r : Registry} {v : Value}

theorem read_eq (agree : s.AgreeOff S t) (views : s.ViewsTyped) (typed : s.Typed v)
    (secret : ∀ slot ∈ S, Unreadable r s slot.1 slot.2) (m : String) :
    read r s v m = read r t v m := by
  have natures := agree.sameNatures
  have hcheck := agree.check views r typed m .read
  unfold read require rewrap
  cases hc : r.check s v m .read with
  | false => rw [← hcheck, hc]; rfl
  | true =>
    have same : lookup? s v m = lookup? t v m := by
      rw [lookup?_eq_slot?, lookup?_eq_slot?, ← natures.resolve v]
      cases hid : (s.resolve v).id? with
      | none => rfl
      | some id =>
        have hS : (id, m) ∉ S := fun hS => by
          rw [secret (id, m) hS v typed hid] at hc
          cases hc
        simp only [Option.bind_some, agree.slot? hS]
    rw [← hcheck, hc, same, natures.view? v, natures.resolve v]

theorem has_eq (agree : s.AgreeOff S t) (views : s.ViewsTyped) (typed : s.Typed v) (m : String) :
    has r s v m = has r t v m := by
  have present : (lookup? s v m).isSome = (lookup? t v m).isSome := by
    rw [lookup?_eq_slot?, lookup?_eq_slot?, ← agree.sameNatures.resolve v]
    cases (s.resolve v).id? with
    | none => rfl
    | some id => simpa using congrArg Option.isSome (agree.enumerable id m)
  unfold has
  rw [agree.check views r typed m .read, agree.check views r typed m .call, present]

theorem keys_eq (agree : s.AgreeOff S t) (views : s.ViewsTyped) (typed : s.Typed v) :
    keys r s v = keys r t v := by
  unfold keys
  simp only [← agree.sameNatures.resolve v, agree.check views r typed]
  rcases agree.entityOf? (s.resolve v) with ⟨hs, ht⟩ | ⟨id, M, e, f, hid, hs, ht, hef⟩
  · rw [hs, ht]
  · rw [hs, ht]
    simp only [hef.enumerableKeys]

theorem writeTarget_eq (agree : s.AgreeOff S t) (views : s.ViewsTyped) (typed : s.Typed v)
    (m : String) : writeTarget r s v m = writeTarget r t v m := by
  unfold writeTarget require
  rw [agree.check views r typed m .write, ← agree.sameNatures.resolve v]
  rcases agree.entityOf? (s.resolve v) with ⟨hs, ht⟩ | ⟨id, M, e, f, hid, hs, ht, hef⟩
  · rw [hs, ht]
  · rw [hid, hs, ht]
    simp only [hef.isImmutable m]

theorem removeTarget_eq (agree : s.AgreeOff S t) (views : s.ViewsTyped) (typed : s.Typed v)
    (m : String) : removeTarget r s v m = removeTarget r t v m := by
  unfold removeTarget require
  rw [agree.check views r typed m .delete, ← agree.sameNatures.resolve v]
  rcases agree.entityOf? (s.resolve v) with ⟨hs, ht⟩ | ⟨id, M, e, f, hid, hs, ht, hef⟩
  · rw [hs, ht]
  · rw [hid, hs, ht]
    simp only [hef.isNone m, hef.isImmutable m]

/-- Both stores give the same answer and undergo the same change. -/
theorem perform_eq (agree : s.AgreeOff S t) (views : s.ViewsTyped)
    (secret : ∀ slot ∈ S, Unreadable r s slot.1 slot.2) (op : Operation)
    (typed : s.Typed op.subject) :
    (perform r s op).1 = (perform r t op).1 ∧ change? r s op = change? r t op := by
  cases op with
  | read v m => exact ⟨by simp only [perform, read_eq (v := v) agree views typed secret m], rfl⟩
  | write v m x =>
    simp only [perform, change?, write_eq, writeTarget_eq (v := v) agree views typed m]
    cases writeTarget r t v m <;> exact ⟨rfl, trivial⟩
  | remove v m =>
    simp only [perform, change?, remove_eq, removeTarget_eq (v := v) agree views typed m]
    cases removeTarget r t v m <;> exact ⟨rfl, trivial⟩
  | keys v => exact ⟨by simp only [perform, keys_eq (v := v) agree views typed], rfl⟩
  | has v m => exact ⟨by simp only [perform, has_eq (v := v) agree views typed m], rfl⟩

end Agreeing

/-- Whatever an operation changes is the same on both sides from then on. -/
theorem change?_aligns {r : Registry} {s : Store code} {op : Operation} {id : EntityId} {m : String}
    {f : Entity code → Entity code} (h : change? r s op = some (id, m, f)) {M : Set String}
    {e e' : Entity code} (agree : e.AgreeOff M e') : (f e).AgreeOff (M \ {m}) (f e') := by
  rcases change?_cases h with ⟨x, rfl⟩ | rfl
  · exact agree.setValue m x
  · exact agree.eraseProperty m

/-- A slot that cannot be read stays so while it is not changed itself. -/
theorem Unreadable.update {r : Registry} {s : Store code} (views : s.ViewsTyped) {j : EntityId}
    {m' : String} (h : Unreadable r s j m') {m : String} {f : Entity code → Entity code}
    (only : ChangesOnly m f) {id : EntityId} (hne : (j, m') ≠ (id, m)) :
    Unreadable r (s.update id f) j m' := by
  have natures := s.sameNatures_update id only.nature
  intro v typed hid
  rw [← natures.typed] at typed
  rw [← natures.resolve] at hid
  rw [← h v typed hid]
  refine (r.check_eq natures views typed (fun k hk => ?_) .read).symm
  obtain rfl : j = k := Option.some.inj (hid.symm.trans hk)
  rw [slot?_update only s hne]

/-- One operation: the same answer, and stores that agree off the slots that still differ. -/
theorem perform_agree {r : Registry} {s t : Store code} {S : Set (EntityId × String)}
    (agree : s.AgreeOff S t) (views : s.ViewsTyped)
    (secret : ∀ slot ∈ S, Unreadable r s slot.1 slot.2) (op : Operation)
    (typed : s.Typed op.subject) :
    (perform r s op).1 = (perform r t op).1 ∧
      ∃ S' ⊆ S, (perform r s op).2.AgreeOff S' (perform r t op).2 ∧
        ∀ slot ∈ S', Unreadable r (perform r s op).2 slot.1 slot.2 := by
  obtain ⟨answer, change⟩ := perform_eq agree views secret op typed
  refine ⟨answer, ?_⟩
  rw [perform_store, perform_store, ← change]
  cases h : change? r s op with
  | none => exact ⟨S, subset_rfl, agree, secret⟩
  | some c =>
    obtain ⟨id, m, f⟩ := c
    refine ⟨S \ {(id, m)}, Set.sdiff_subset, ?_, ?_⟩
    · exact agree.update (fun M e e' hef => change?_aligns h hef) id
    · rintro slot ⟨hS, hne⟩
      exact (secret slot hS).update views (changesOnly_change? h) hne

/-- Two stores that differ at most in the values of slots which no subject may read. Every sequence
of operations has the same outcomes in both, and leaves stores that differ at most there. Nothing is
asked of views and subjects but that they name objects as objects and functions as functions. -/
theorem unreadable_values_do_not_interfere (r : Registry) {s t : Store code}
    {S : Set (EntityId × String)} (agree : s.AgreeOff S t) (views : s.ViewsTyped)
    (secret : ∀ slot ∈ S, Unreadable r s slot.1 slot.2) (ops : List Operation)
    (typed : ∀ op ∈ ops, s.Typed op.subject) :
    (run r s ops).1 = (run r t ops).1 ∧ (run r s ops).2.AgreeOff S (run r t ops).2 := by
  induction ops generalizing s t S with
  | nil => exact ⟨rfl, agree⟩
  | cons op ops ih =>
    obtain ⟨answer, S', hS', agree', secret'⟩ :=
      perform_agree agree views secret op (typed op (List.mem_cons_self ..))
    have natures := sameNatures_perform r s op
    obtain ⟨answers, final⟩ := ih agree' (natures.viewsTyped views) secret' fun op' hop' =>
      (natures.typed _).mp (typed op' (List.mem_cons_of_mem op hop'))
    simp only [run]
    exact ⟨by rw [answer, answers], final.mono hS'⟩

/-- A host object with the member `pin`, and a view that shows it. -/
def pinStore (pin : Value) : Store Unit :=
  ⟨#[⟨.object (.host "Host" .empty) false, Table.empty.insert "pin" (.plain pin), false⟩,
    ⟨.object (.view (.object 0) ["pin"]) false, .empty, true⟩]⟩

/-- The member may be listed and replaced, but not read. -/
def pinGrants : Registry :=
  { grants := [⟨.ofClass "Host", "pin", .ofList [.write, .enumerate]⟩] }

theorem pinStore_agreeOff (a b : Value) : (pinStore a).AgreeOff {(0, "pin")} (pinStore b) := by
  intro id
  match id with
  | 0 =>
    have find (x : Value) (m : String) : ((Table.empty.insert "pin" (Slot.plain x)).find? m) =
        if m = "pin" then some (.plain x) else none := by
      rw [Table.find?_insert]
      rfl
    refine .some ⟨rfl, rfl, rfl, fun m => ?_, fun m hm => ?_⟩
    · change Option.map _ ((Table.empty.insert _ (Slot.plain a)).find? m) =
        Option.map _ ((Table.empty.insert _ (Slot.plain b)).find? m)
      rw [find, find]
      split <;> rfl
    · change (Table.empty.insert _ (Slot.plain a)).find? m =
        (Table.empty.insert _ (Slot.plain b)).find? m
      rw [find, find, if_neg (by simpa using hm), if_neg (by simpa using hm)]
  | 1 => exact .some ⟨rfl, rfl, rfl, fun _ => rfl, fun _ _ => rfl⟩
  | _ + 2 => exact .none

theorem pinStore_viewsTyped (pin : Value) : (pinStore pin).ViewsTyped := by
  intro id target allow h
  match id with
  | 0 => cases h
  | 1 => cases h; rfl
  | _ + 2 => cases h

theorem pinStore_unreadable (pin : Value) : Unreadable pinGrants (pinStore pin) 0 "pin" := by
  intro v typed h
  match v with
  | .object 0 => rfl
  | .object 1 => rfl
  | .object (_ + 2) => cases h
  | .function 0 => cases typed
  | .function 1 => cases h
  | .function (_ + 2) => cases h

/-- Every kind of operation on the member, all but the last through the view. -/
def pinRequests : List Operation :=
  [.keys (.object 1), .has (.object 1) "pin", .read (.object 1) "pin",
    .write (.object 1) "pin" .null, .remove (.object 0) "pin"]

/-- Two stores that differ in the value of a member that nothing may read. -/
theorem unreadable_values_do_not_interfere_of_pinStore :
    (pinStore (.int 1234)).AgreeOff {(0, "pin")} (pinStore (.int 4321)) ∧
    (pinStore (.int 1234)).ViewsTyped ∧ Unreadable pinGrants (pinStore (.int 1234)) 0 "pin" ∧
    (∀ op ∈ pinRequests, (pinStore (.int 1234)).Typed op.subject) ∧
    (run pinGrants (pinStore (.int 1234)) pinRequests).1 =
      (run pinGrants (pinStore (.int 4321)) pinRequests).1 ∧
    (run pinGrants (pinStore (.int 1234)) pinRequests).2.AgreeOff {(0, "pin")}
      (run pinGrants (pinStore (.int 4321)) pinRequests).2 :=
  have typed : ∀ op ∈ pinRequests, (pinStore (.int 1234)).Typed op.subject := by
    intro op hop
    simp only [pinRequests, List.mem_cons, List.not_mem_nil, or_false] at hop
    rcases hop with rfl | rfl | rfl | rfl | rfl <;> rfl
  ⟨pinStore_agreeOff _ _, pinStore_viewsTyped _, pinStore_unreadable _, typed,
    unreadable_values_do_not_interfere pinGrants (pinStore_agreeOff _ _) (pinStore_viewsTyped _)
      (fun slot hslot => by rw [Set.mem_singleton_iff.mp hslot]; exact pinStore_unreadable _)
      pinRequests typed⟩

end Access

end Confinement
