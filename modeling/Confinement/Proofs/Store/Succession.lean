import Confinement.Proofs.Access.Effect
import Confinement.Proofs.Module.Import
import Confinement.Proofs.Store.Persistence

/-!
# How stores come about

A store begins empty. Objects, functions, views and wrappers are made, each out of values that are
there already; members change, through the boundary or behind it; functions are frozen and named.
What a view stands in front of, and what a wrapper runs, is said when it is made and never again. So
it is older than the view or wrapper and stays what it is, though members may well refer to each
other in circles.

A step makes new entities out of values that are there, or amends the members of one. All that is
said of steps follows from that.
-/
namespace Confinement

variable {code : Type}

namespace Nature

/-- The values that an object or function was made with: what a view stands in front of, what a
wrapper runs and with which receiver. -/
def values : Nature code → List Value
  | .object (.view target _) _ => [target]
  | .object .guest _ | .object (.host _ _) _ => []
  | .function f => f.body.bound?.elim [] fun b => [.function b.1, b.2]

/-- The code that a function has of its own. -/
def code? : Nature code → Option code
  | .object _ _ => none
  | .function f => f.body.code?

/-- The same nature at a later time, when a function may have another name. -/
inductive Alike : Nature code → Nature code → Prop
  | object (origin : ObjectOrigin) (tamed : Bool) :
      Alike (.object origin tamed) (.object origin tamed)
  | function {f g : FunctionRecord code} (h : f.Alike g) : Alike (.function f) (.function g)

namespace Alike

theorem refl (n : Nature code) : n.Alike n := by
  cases n with
  | object origin tamed => exact .object origin tamed
  | function f => exact .function ⟨rfl, rfl, rfl⟩

theorem trans {n n' n'' : Nature code} (h : n.Alike n') (h' : n'.Alike n'') : n.Alike n'' := by
  cases h with
  | object origin tamed => exact h'
  | function h =>
    cases h' with
    | function h' =>
      exact .function ⟨h'.kind.trans h.kind, h'.origin.trans h.origin, h'.body.trans h.body⟩

theorem values_eq {n n' : Nature code} (h : n.Alike n') : n'.values = n.values := by
  cases h with
  | object origin tamed => rfl
  | function h => simp only [values, h.body]

theorem code?_eq {n n' : Nature code} (h : n.Alike n') : n'.code? = n.code? := by
  cases h with
  | object origin tamed => rfl
  | function h => simp only [code?, h.body]

end Alike

end Nature

namespace Entity

variable {e : Entity code} {v : Value}

/-- The values of the members. -/
def slotValues (e : Entity code) : List Value := e.properties.entries.map fun p => p.2.value

theorem mem_slotValues_define {name : String} {slot : Slot}
    (h : v ∈ (e.define name slot).slotValues) : v = slot.value ∨ v ∈ e.slotValues := by
  obtain ⟨p, hp, rfl⟩ := List.mem_map.mp h
  rcases mem_of_mem_insertEntry hp with rfl | hold
  · exact .inl rfl
  · exact .inr (List.mem_map.mpr ⟨p, hold, rfl⟩)

theorem mem_slotValues_setValue {name : String} {x : Value}
    (h : v ∈ (e.setValue name x).slotValues) : v = x ∨ v ∈ e.slotValues := by
  unfold setValue at h
  split at h
  · exact mem_slotValues_define h
  · exact mem_slotValues_define h

theorem mem_slotValues_of_eraseProperty {name : String}
    (h : v ∈ (e.eraseProperty name).slotValues) : v ∈ e.slotValues :=
  (List.filter_sublist.map _).subset h

theorem mem_slotValues_of_ownValue? {name : String} (h : e.ownValue? name = some v) :
    v ∈ e.slotValues := by
  obtain ⟨slot, hslot, rfl⟩ := Option.map_eq_some_iff.mp h
  exact List.mem_map.mpr ⟨(name, slot), Table.mem_of_find? hslot, rfl⟩

end Entity

/-- The values that a step is given to keep. -/
def Guardian.Step.stored : Step → List Value
  | .access (.write _ _ x) => [x]
  | .bind _ receiver _ => [receiver]
  | _ => []

namespace Store

variable {s t : Store code} {v : Value}

/-- A later store: everything is still there, and of the same nature. -/
def Lasts (s t : Store code) : Prop :=
  ∀ id e, s.entity? id = some e → ∃ e', t.entity? id = some e' ∧ e.nature.Alike e'.nature

namespace Lasts

theorem refl (s : Store code) : s.Lasts s := fun _ e he => ⟨e, he, .refl e.nature⟩

theorem trans {u : Store code} (h : s.Lasts t) (h' : t.Lasts u) : s.Lasts u := by
  intro id e he
  obtain ⟨e', he', alike⟩ := h id e he
  obtain ⟨e'', he'', alike'⟩ := h' id e' he'
  exact ⟨e'', he'', alike.trans alike'⟩

theorem origin? (h : s.Lasts t) {id : EntityId} {origin : ObjectOrigin}
    (horigin : s.origin? id = some origin) : t.origin? id = some origin := by
  obtain ⟨tamed, hnature⟩ := exists_nature_of_origin? horigin
  obtain ⟨e, he, henature⟩ := Option.map_eq_some_iff.mp hnature
  obtain ⟨⟨nature, p, frozen⟩, he', alike⟩ := h id e he
  rw [henature] at alike
  cases alike
  simp only [Store.origin?, he']

theorem keepsFunctions (h : s.Lasts t) : s.KeepsFunctions t := by
  intro id f hf
  obtain ⟨e, he, henature⟩ := Option.map_eq_some_iff.mp (nature_of_function? hf)
  obtain ⟨⟨nature, p, frozen⟩, he', alike⟩ := h id e he
  rw [henature] at alike
  cases alike with
  | @function _ g same => exact ⟨g, by simp only [Store.function?, he'], same⟩

/-- A value that names something goes on naming it. -/
theorem holds (h : s.Lasts t) (held : s.Holds v) : t.Holds v := by
  cases v with
  | object id =>
    obtain ⟨origin, horigin⟩ := held
    exact ⟨origin, h.origin? horigin⟩
  | function id =>
    obtain ⟨f, hf⟩ := held
    obtain ⟨g, hg, -⟩ := h.keepsFunctions id f hf
    exact ⟨g, hg⟩
  | _ => trivial

theorem alloc (s : Store code) (e : Entity code) : s.Lasts (s.alloc e).2 := by
  intro id e' he'
  have hlt : id < s.size := lt_size_of_entity? he'
  exact ⟨e', by rw [s.entity?_alloc_of_lt e hlt, he'], .refl e'.nature⟩

theorem update (s : Store code) (id : EntityId) {f : Entity code → Entity code}
    (alike : ∀ e : Entity code, e.nature.Alike (f e).nature) : s.Lasts (s.update id f) := by
  intro j e he
  rw [entity?_update, he]
  by_cases hj : id = j
  · rw [if_pos hj]
    exact ⟨f e, rfl, alike e⟩
  · rw [if_neg hj]
    exact ⟨e, rfl, .refl e.nature⟩

end Lasts

/-- Nothing in the store refers to what is not there, entities were made out of older ones, and all
code is of the kind that is allowed. -/
structure Sound (allowed : code → Prop) (s : Store code) : Prop where
  held : ∀ id e, s.entity? id = some e → ∀ v ∈ e.nature.values ++ e.slotValues, s.Holds v
  older : ∀ id e, s.entity? id = some e → ∀ v ∈ e.nature.values, ∀ j ∈ v.id?, j < id
  code : ∀ id e, s.entity? id = some e → ∀ c ∈ e.nature.code?, allowed c

theorem sound_empty (allowed : code → Prop) : ({} : Store code).Sound allowed where
  held id e he := by simp [entity?] at he
  older id e he := by simp [entity?] at he
  code id e he := by simp [entity?] at he

/-- A change of the store: an entity is made out of values that are there, or the members of one are
amended with such values. -/
inductive Change (allowed : code → Prop) (s : Store code) : Store code → Prop
  | create (e : Entity code) (given : ∀ v ∈ e.nature.values ++ e.slotValues, s.Holds v)
      (code : ∀ c ∈ e.nature.code?, allowed c) : Change allowed s (s.alloc e).2
  | amend (id : EntityId) (f : Entity code → Entity code)
      (alike : ∀ e : Entity code, e.nature.Alike (f e).nature)
      (given : ∀ e, ∀ v ∈ (f e).slotValues, v ∈ e.slotValues ∨ s.Holds v) :
      Change allowed s (s.update id f)

variable {allowed : code → Prop}

theorem Change.lasts (h : s.Change allowed t) : s.Lasts t := by
  cases h with
  | create e _ _ => exact .alloc s e
  | amend id f alike _ => exact .update s id alike

theorem sound_alloc (sound : s.Sound allowed) {e : Entity code}
    (given : ∀ v ∈ e.nature.values ++ e.slotValues, s.Holds v)
    (hcode : ∀ c ∈ e.nature.code?, allowed c) : (s.alloc e).2.Sound allowed := by
  -- what there is now was there before, or is `e` and behind everything else
  have cases {id : EntityId} {e' : Entity code} (he' : (s.alloc e).2.entity? id = some e') :
      s.entity? id = some e' ∨ id = s.size ∧ e' = e := by
    have hid : id < s.size + 1 := s.size_alloc e ▸ lt_size_of_entity? he'
    by_cases hlt : id < s.size
    · rw [s.entity?_alloc_of_lt e hlt] at he'
      exact .inl he'
    · obtain rfl : id = s.size := Nat.le_antisymm (Nat.le_of_lt_add_one hid) (Nat.le_of_not_lt hlt)
      exact .inr ⟨rfl, Option.some.inj (he'.symm.trans (s.entity?_alloc_self e))⟩
  constructor
  · intro id e' he' v hv
    rcases cases he' with hold | ⟨rfl, rfl⟩
    · exact (Lasts.alloc s e).holds (sound.held id e' hold v hv)
    · exact (Lasts.alloc s e').holds (given v hv)
  · intro id e' he' v hv j hj
    rcases cases he' with hold | ⟨rfl, rfl⟩
    · exact sound.older id e' hold v hv j hj
    · exact (given v (List.mem_append_left _ hv)).lt_size j hj
  · intro id e' he'
    rcases cases he' with hold | ⟨rfl, rfl⟩
    · exact sound.code id e' hold
    · exact hcode

theorem sound_update (sound : s.Sound allowed) {id : EntityId} {f : Entity code → Entity code}
    (alike : ∀ e : Entity code, e.nature.Alike (f e).nature)
    (given : ∀ e, ∀ v ∈ (f e).slotValues, v ∈ e.slotValues ∨ s.Holds v) :
    (s.update id f).Sound allowed := by
  -- every entity is one of before, whose members alone may differ
  have cases {j : EntityId} {e' : Entity code} (he' : (s.update id f).entity? j = some e') :
      ∃ e, s.entity? j = some e ∧ e.nature.Alike e'.nature ∧
        ∀ v ∈ e'.slotValues, v ∈ e.slotValues ∨ s.Holds v := by
    rw [entity?_update] at he'
    by_cases hj : id = j
    · rw [if_pos hj] at he'
      obtain ⟨e, he, rfl⟩ := Option.map_eq_some_iff.mp he'
      exact ⟨e, he, alike e, given e⟩
    · rw [if_neg hj] at he'
      exact ⟨e', he', .refl _, fun v hv => .inl hv⟩
  constructor
  · intro j e' he' v hv
    obtain ⟨e, he, same, slots⟩ := cases he'
    refine (Lasts.update s id alike).holds ?_
    rcases List.mem_append.mp hv with hnature | hslot
    · rw [same.values_eq] at hnature
      exact sound.held j e he v (List.mem_append_left _ hnature)
    · rcases slots v hslot with hold | hgiven
      · exact sound.held j e he v (List.mem_append_right _ hold)
      · exact hgiven
  · intro j e' he' v hv
    obtain ⟨e, he, same, -⟩ := cases he'
    rw [same.values_eq] at hv
    exact sound.older j e he v hv
  · intro j e' he'
    obtain ⟨e, he, same, -⟩ := cases he'
    rw [same.code?_eq]
    exact sound.code j e he

theorem Change.sound (h : s.Change allowed t) (sound : s.Sound allowed) : t.Sound allowed := by
  cases h with
  | create e given hcode => exact sound_alloc sound given hcode
  | amend id f alike given => exact sound_update sound alike given

variable (allowed) in
/-- One step in the life of a store. Whatever a step is given to keep is in the store already, and
functions have code of the kind that is allowed. -/
inductive Step (s : Store code) : Store code → Prop
  | plain (entries : List (String × Value)) (given : ∀ p ∈ entries, s.Holds p.2) :
      Step s (s.newPlain entries).2
  | host (h : HostObject) (given : ∀ p ∈ h.slots, s.Holds p.2.value) : Step s (h.build s).2
  | record (entries : List (String × Value)) (given : ∀ p ∈ entries, s.Holds p.2) :
      Step s (s.newTamedRecord entries).2
  | view (target : Value) (allow : List String) (given : s.Holds target) :
      Step s (s.newView target allow).2
  /-- A function with a body of its own. -/
  | function (name : Option String) (kind : FunctionKind) (origin : FunctionOrigin)
      (body : FunctionBody code) (frozen : Bool) (guid : Option EntityId)
      (own : body.bound? = none) (code : ∀ c ∈ body.code?, allowed c) :
      Step s (s.newFunction name kind origin body frozen guid).2
  /-- The import table of a module: a view for each import with an allow-list. -/
  | imports (imports : List Import) (given : ∀ i ∈ imports, s.Holds i.value) {table : Table Value}
      {t : Store code} (linked : Import.table s imports = .ok (table, t)) : Step s t
  /-- A mediated access, or a step of the function guardian, wrappers among them. -/
  | guarded (r : Registry) (x : Guardian.Step) (given : ∀ v ∈ x.stored, s.Holds v) :
      Step s (Guardian.step r s x)
  /-- Host code defines a member, whatever the grants and flags. -/
  | define (id : EntityId) (name : String) (slot : Slot) (given : s.Holds slot.value) :
      Step s (s.update id (·.define name slot))
  /-- Host code sets a member, whatever the grants and flags. -/
  | assign (id : EntityId) (name : String) (x : Value) (given : s.Holds x) :
      Step s (s.update id (·.setValue name x))

variable (allowed) in
/-- From one store to another in any number of steps. -/
abbrev Steps : Store code → Store code → Prop := Relation.ReflTransGen (Step allowed)

/-- The store has come about from the empty one, whatever the code of its functions. -/
def Reached (s : Store code) : Prop := Steps (fun _ => True) {} s

theorem Step.unrestricted (h : s.Step allowed t) : s.Step (fun _ => True) t := by
  cases h with
  | plain entries given => exact .plain entries given
  | host h given => exact .host h given
  | record entries given => exact .record entries given
  | view target allow given => exact .view target allow given
  | function name kind origin body frozen guid own _ =>
    exact .function name kind origin body frozen guid own fun _ _ => trivial
  | imports imports given linked => exact .imports imports given linked
  | guarded r x given => exact .guarded r x given
  | define id name slot given => exact .define id name slot given
  | assign id name x given => exact .assign id name x given

theorem Steps.unrestricted (h : s.Steps allowed t) : s.Steps (fun _ => True) t := by
  induction h with
  | refl => exact .refl
  | tail _ step ih => exact ih.tail step.unrestricted

variable (allowed) in
abbrev Changes : Store code → Store code → Prop := Relation.ReflTransGen (Change allowed)

theorem Change.newObject {origin : ObjectOrigin} {entries : List (String × Slot)}
    {frozen tamed : Bool}
    (made : ∀ v ∈ (Nature.object origin tamed : Nature code).values, s.Holds v)
    (given : ∀ p ∈ entries, s.Holds p.2.value) :
    s.Change allowed (s.newObject origin entries frozen tamed).2 := by
  refine .create _ (fun v hv => ?_) fun c hc => ?_
  · rcases List.mem_append.mp hv with hnature | hslot
    · exact made v hnature
    · obtain ⟨p, hp, rfl⟩ := List.mem_map.mp hslot
      exact given p (Table.mem_of_mem_ofList hp)
  · cases hc

theorem Change.newRecord {entries : List (String × Value)} {frozen tamed : Bool}
    (given : ∀ p ∈ entries, s.Holds p.2) : s.Change allowed
      (s.newObject .guest (entries.map fun p => (p.1, .plain p.2)) frozen tamed).2 := by
  refine .newObject (fun v hv => ?_) fun p hp => ?_
  · cases hv
  · obtain ⟨entry, hentry, rfl⟩ := List.mem_map.mp hp
    exact given entry hentry

theorem Change.newView {target : Value} (given : s.Holds target) (allow : List String) :
    s.Change allowed (s.newView target allow).2 := by
  refine .newObject (fun v hv => ?_) fun p hp => ?_
  · rw [List.mem_singleton.mp hv]
    exact given
  · cases hp

theorem Change.newFunction {name : Option String} {kind : FunctionKind} {origin : FunctionOrigin}
    {body : FunctionBody code} {frozen : Bool} {guid : Option EntityId}
    (given : ∀ b ∈ body.bound?, s.Holds (.function b.1) ∧ s.Holds b.2)
    (hcode : ∀ c ∈ body.code?, allowed c) :
    s.Change allowed (s.newFunction name kind origin body frozen guid).2 := by
  refine .create _ (fun v hv => ?_) hcode
  rcases List.mem_append.mp hv with hnature | hslot
  · cases hbound : body.bound? with
    | none => simp [Nature.values, hbound] at hnature
    | some b =>
      obtain ⟨hfunction, hreceiver⟩ := given b hbound
      simp only [Nature.values, hbound, Option.elim_some, List.mem_cons, List.not_mem_nil,
        or_false] at hnature
      rcases hnature with rfl | rfl
      · exact hfunction
      · exact hreceiver
  · cases hslot

/-- A change of members leaves natures alone. -/
theorem Change.members (id : EntityId) {f : Entity code → Entity code}
    (nature : ∀ e, (f e).nature = e.nature)
    (given : ∀ e, ∀ v ∈ (f e).slotValues, v ∈ e.slotValues ∨ s.Holds v) :
    s.Change allowed (s.update id f) := by
  refine .amend id f (fun e => ?_) given
  rw [nature e]
  exact .refl e.nature

theorem Change.setValue (id : EntityId) (name : String) {x : Value} (given : s.Holds x) :
    s.Change allowed (s.update id (·.setValue name x)) := by
  refine .members id (Access.changesOnly_setValue name x).nature fun e v hv => ?_
  rcases Entity.mem_slotValues_setValue hv with rfl | hold
  · exact .inr given
  · exact .inl hold

theorem Change.freeze (s : Store code) (id : EntityId) : s.Change allowed (s.freeze id) :=
  .members id (fun _ => rfl) fun _ _ hv => .inl hv

theorem Change.rename (s : Store code) (id : EntityId) (name : String) :
    s.Change allowed (s.rename id name) := by
  refine .amend id _ (fun e => ?_) fun e v hv => .inl ?_
  · rcases e with ⟨nature, p, frozen⟩
    cases nature with
    | object origin tamed => exact .object origin tamed
    | function f => exact .function ⟨rfl, rfl, rfl⟩
  · rcases e with ⟨nature, p, frozen⟩
    cases nature with
    | object origin tamed => exact hv
    | function f => exact hv

theorem changes_tagName (s : Store code) (id : EntityId) (name : String) :
    s.Changes allowed (s.tagName id name).2 := by
  rcases s.tagName_cases id name with h | ⟨-, h⟩
  · rw [h]
  · rw [h]
    exact .single (.rename s id name)

theorem changes_markFrozen (s : Store code) (id : EntityId) (name : String) :
    s.Changes allowed (s.markFrozen id name).2 := by
  have named : s.Changes allowed (s.tagName id name).2 := s.changes_tagName id name
  rcases s.markFrozen_cases id name with h | h
  · rwa [h]
  · rw [h]
    exact named.tail (.freeze _ id)

theorem changes_bind (s : Store code) (id : EntityId) {receiver : Value}
    (given : s.Holds receiver) (guid : Option EntityId) :
    s.Changes allowed (s.bind id receiver guid).2 := by
  unfold bind
  cases hf : s.function? id with
  | none => exact .refl
  | some f =>
    refine .single (.newFunction (fun b hb => ?_) fun c hc => ?_)
    · cases hb
      exact ⟨⟨f, hf⟩, given⟩
    · cases hc

theorem changes_perform (r : Registry) (s : Store code) (op : Access.Operation)
    (given : ∀ v ∈ (Guardian.Step.access op).stored, s.Holds v) :
    s.Changes allowed (Access.perform r s op).2 := by
  cases op with
  | write v m x =>
    rw [Access.perform, Access.write_eq]
    cases Access.writeTarget r s v m with
    | error fault => exact .refl
    | ok id => exact .single (.setValue id m (given x List.mem_cons_self))
  | remove v m =>
    rw [Access.perform, Access.remove_eq]
    cases Access.removeTarget r s v m with
    | error fault => exact .refl
    | ok found =>
      cases found with
      | none => exact .refl
      | some id =>
        refine .single (.members id (fun _ => rfl) fun e w hw => .inl ?_)
        exact Entity.mem_slotValues_of_eraseProperty hw
  | _ => exact .refl

theorem changes_guarded (r : Registry) (s : Store code) (x : Guardian.Step)
    (given : ∀ v ∈ x.stored, s.Holds v) : s.Changes allowed (Guardian.step r s x) := by
  cases x with
  | access op => exact changes_perform r s op given
  | freeze id => exact .single (.freeze s id)
  | tag id name => exact s.changes_tagName id name
  | mark id name => exact s.changes_markFrozen id name
  | bind id receiver guid => exact changes_bind s id (given receiver List.mem_cons_self) guid

theorem Changes.lasts (h : s.Changes allowed t) : s.Lasts t := by
  induction h with
  | refl => exact .refl s
  | tail _ change ih => exact ih.trans change.lasts

theorem Changes.sound (h : s.Changes allowed t) (sound : s.Sound allowed) : t.Sound allowed := by
  induction h with
  | refl => exact sound
  | tail _ change ih => exact change.sound ih

theorem changes_provide (s : Store code) {i : Import} (given : s.Holds i.value) :
    s.Changes allowed (i.provide s).2 := by
  unfold Import.provide
  cases i.allow with
  | none => exact .refl
  | some allow => exact .single (.newView given allow)

theorem changes_link {taken table : Table Value} {imports : List Import}
    (given : ∀ i ∈ imports, s.Holds i.value)
    (linked : Import.link s taken imports = .ok (table, t)) : s.Changes allowed t := by
  induction imports generalizing s taken with
  | nil =>
    cases linked
    exact .refl
  | cons i imports ih =>
    obtain ⟨first, later⟩ := List.forall_mem_cons.mp given
    have provided : s.Changes allowed (i.provide s).2 := changes_provide s first
    refine provided.trans (ih (fun j hj => ?_) (Import.link_cons linked).2)
    exact provided.lasts.holds (later j hj)

/-- Whatever a step does, it creates and amends. -/
theorem Step.changes (h : s.Step allowed t) : s.Changes allowed t := by
  cases h with
  | plain entries given => exact .single (.newRecord given)
  | host h given =>
    refine .single (.newObject (fun v hv => ?_) given)
    cases hv
  | record entries given => exact .single (.newRecord given)
  | view target allow given => exact .single (.newView given allow)
  | function name kind origin body frozen guid own hcode =>
    refine .single (.newFunction (fun b hb => ?_) hcode)
    rw [own] at hb
    cases hb
  | imports imports given linked => exact changes_link given linked
  | guarded r x given => exact changes_guarded r s x given
  | define id name slot given =>
    refine .single (.members id (fun _ => rfl) fun e v hv => ?_)
    rcases Entity.mem_slotValues_define hv with rfl | hold
    · exact .inr given
    · exact .inl hold
  | assign id name x given => exact .single (.setValue id name given)

theorem Steps.changes (h : s.Steps allowed t) : s.Changes allowed t := by
  induction h with
  | refl => exact .refl
  | tail _ step ih => exact ih.trans step.changes

theorem Steps.lasts (h : s.Steps allowed t) : s.Lasts t := h.changes.lasts

theorem Steps.sound (h : s.Steps allowed t) (sound : s.Sound allowed) : t.Sound allowed :=
  h.changes.sound sound

theorem Sound.founded (sound : s.Sound allowed) : s.Founded := by
  have view {id : EntityId} {target : Value} {allow : List String}
      (h : s.origin? id = some (.view target allow)) :
      ∃ e, s.entity? id = some e ∧ e.nature.values = [target] := by
    obtain ⟨tamed, hnature⟩ := exists_nature_of_origin? h
    obtain ⟨e, he, henature⟩ := Option.map_eq_some_iff.mp hnature
    exact ⟨e, he, by rw [henature, Nature.values]⟩
  constructor
  · intro id target allow h
    obtain ⟨e, he, hvalues⟩ := view h
    exact sound.older id e he target (by rw [hvalues]; exact List.mem_singleton_self target)
  · intro id target allow h
    obtain ⟨e, he, hvalues⟩ := view h
    exact sound.held id e he target (by rw [hvalues]; exact List.mem_cons_self)

theorem Sound.wrapsOlder (sound : s.Sound allowed) : s.WrapsOlder := by
  intro id f target receiver hf hbody
  obtain ⟨e, he, henature⟩ := Option.map_eq_some_iff.mp (nature_of_function? hf)
  have hmem : .function target ∈ e.nature.values := by
    rw [henature, Nature.values, hbody]
    exact List.mem_cons_self
  exact ⟨sound.older id e he (.function target) hmem target rfl,
    sound.held id e he (.function target) (List.mem_append_left _ hmem)⟩

end Store

end Confinement
