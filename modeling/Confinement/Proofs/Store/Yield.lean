import Confinement.Proofs.Access.Arguments
import Confinement.Proofs.Module.Linkage
import Confinement.Proofs.Store.Succession

/-!
# Values in flight

Functions that work on the store are given values and hand values on. What is made, tamed or linked
is there afterwards, if what it is made of was there; and the store changes by steps alone.
-/
namespace Confinement

variable {code : Type}

namespace Table

variable {α : Type} {t : Table α} {k : String} {x y : α}

/-- The values of a table, in order. -/
def values (t : Table α) : List α := t.entries.map Prod.snd

theorem mem_values_of_find? (h : t.find? k = some x) : x ∈ t.values :=
  List.mem_map.mpr ⟨(k, x), mem_of_find? h, rfl⟩

theorem mem_values_insert (h : x ∈ (t.insert k y).values) : x = y ∨ x ∈ t.values := by
  obtain ⟨e, he, rfl⟩ := List.mem_map.mp h
  rcases mem_of_mem_insertEntry he with rfl | hold
  · exact .inl rfl
  · exact .inr (List.mem_map.mpr ⟨e, hold, rfl⟩)

theorem mem_of_mem_values_ofList {pairs : List (String × α)} (h : x ∈ (ofList pairs).values) :
    x ∈ pairs.map Prod.snd := by
  obtain ⟨e, he, rfl⟩ := List.mem_map.mp h
  exact List.mem_map.mpr ⟨e, mem_of_mem_ofList he, rfl⟩

end Table

/-- The values that a fault carries. -/
def Fault.values : Fault → List Value
  | .thrown v => [v]
  | .host ex => ex.fields.values
  | _ => []

def Bindings.values (b : Bindings) : List Value := b.host.values ++ b.declared.values

namespace Store

variable {allowed : code → Prop} {s t : Store code} {v w : Value}

/-- By steps the store has become `t`, and these values are there. -/
structure Yields (allowed : code → Prop) (s : Store code) (vs : List Value) (t : Store code) :
    Prop where
  steps : s.Steps allowed t
  held : ∀ v ∈ vs, t.Holds v

theorem holds_of_not_isReference (h : v.isReference = false) : s.Holds v := by
  cases v with
  | object id => cases h
  | function id => cases h
  | _ => trivial

theorem holds_ofArgument (held : s.Holds v) : s.Holds v.ofArgument := by
  cases v with
  | missing => trivial
  | _ => exact held

theorem holds_normalize {args : List Value} (held : ∀ v ∈ args, s.Holds v) :
    ∀ v ∈ Arguments.normalize args, s.Holds v := by
  intro v hv
  obtain ⟨w, hw, rfl⟩ := List.mem_map.mp hv
  exact holds_ofArgument (held w hw)

theorem holds_get {args : List Value} (held : ∀ v ∈ args, s.Holds v) (i : Nat) :
    s.Holds (Arguments.get args i) := by
  unfold Arguments.get
  cases harg : args[i]? with
  | none => trivial
  | some v => exact held v (List.mem_of_getElem? harg)

theorem holds_newObject (s : Store code) (origin : ObjectOrigin) (entries : List (String × Slot))
    (frozen tamed : Bool) :
    (s.newObject origin entries frozen tamed).2.Holds (s.newObject origin entries frozen tamed).1 :=
  ⟨origin, s.origin?_newObject origin entries frozen tamed⟩

theorem holds_newFunction (s : Store code) (name : Option String) (kind : FunctionKind)
    (origin : FunctionOrigin) (body : FunctionBody code) (frozen : Bool) (guid : Option EntityId) :
    (s.newFunction name kind origin body frozen guid).2.Holds
      (s.newFunction name kind origin body frozen guid).1 :=
  ⟨_, s.function?_alloc_self _ _ _⟩

theorem Yields.single (step : s.Step allowed t) (held : t.Holds v) : s.Yields allowed [v] t where
  steps := .single step
  held := List.forall_mem_singleton.mpr held

theorem build_yields {h : HostObject} (given : ∀ p ∈ h.slots, s.Holds p.2.value) :
    s.Yields allowed [(h.build s).1] (h.build s).2 :=
  .single (.host h given) (holds_newObject _ _ _ _ _)

theorem display_yields (cls : String) {xs : List Exhibit} (given : ∀ x ∈ xs, s.Holds x.slot.value) :
    s.Yields allowed [((HostObject.display cls xs).build s).1]
      ((HostObject.display cls xs).build s).2 := by
  refine build_yields fun p hp => ?_
  have hslots : (HostObject.display cls xs).slots = xs.map fun x => (x.name, x.slot) :=
    HostObject.slots_foldl_exhibit { cls } xs
  rw [hslots] at hp
  obtain ⟨x, hx, rfl⟩ := List.mem_map.mp hp
  exact given x hx

theorem toObject_yields {args : List Value} (given : ∀ v ∈ args, s.Holds v) :
    s.Yields allowed [(Arguments.toObject args s).1] (Arguments.toObject args s).2 := by
  rw [Arguments.toObject_eq]
  refine display_yields "Arguments" fun x hx => ?_
  rcases List.mem_append.mp hx with hplaced | hlength
  · obtain ⟨arg, harg, rfl⟩ := List.mem_map.mp hplaced
    exact given arg.1 (List.fst_mem_of_mem_zipIdx harg)
  · rw [List.mem_singleton.mp hlength]
    trivial

theorem importsObject_yields {imports : Table Value} (given : ∀ v ∈ imports.values, s.Holds v) :
    s.Yields allowed [(Import.toObject imports s).1] (Import.toObject imports s).2 := by
  rw [Import.toObject_eq]
  refine display_yields "Imports" fun x hx => ?_
  obtain ⟨e, he, rfl⟩ := List.mem_map.mp hx
  exact given e.2 (List.mem_map.mpr ⟨e, he, rfl⟩)

theorem Founded.holds_resolve (founded : s.Founded) (held : s.Holds v) : s.Holds (s.resolve v) := by
  suffices h : ∀ n, s.Holds (s.resolveWithin n v) from h s.size
  intro n
  induction n generalizing v with
  | zero => exact held
  | succ n ih =>
    rw [resolveWithin]
    split
    · rename_i hview
      exact ih (founded.holds_target hview)
    · exact held

theorem Sound.holds_lookup? (sound : s.Sound allowed) {m : String}
    (h : Access.lookup? s v m = some w) : s.Holds w := by
  obtain ⟨e, he, hvalue⟩ := Option.bind_eq_some_iff.mp h
  obtain ⟨id, -, hentity⟩ := Option.bind_eq_some_iff.mp he
  exact sound.held id e hentity w
    (List.mem_append_right _ (Entity.mem_slotValues_of_ownValue? hvalue))

theorem holds_rewrap (hv : s.Holds v) (hw : s.Holds w) : s.Holds (Access.rewrap s v w) := by
  unfold Access.rewrap
  split
  · exact hw
  · split
    · exact hv
    · exact hw

end Store

namespace Taming

open Store

variable {allowed : code → Prop} {s : Store code}

theorem tameThrown_yields {v : Value} (held : s.Holds v) :
    s.Yields allowed [(tameThrown s v).1] (tameThrown s v).2 := by
  cases hlive : isLive s v with
  | false =>
    rw [tameThrown_of_not_isLive hlive]
    exact ⟨.refl, by simpa using held⟩
  | true =>
    cases v with
    | function id =>
      cases hf : s.function? id with
      | none => simp [isLive, hf] at hlive
      | some f =>
        have hpower : f.isPowerless = false := by simpa [isLive, hf] using hlive
        simp only [tameThrown, hf, hpower, Bool.false_eq_true, if_false]
        refine .single (.function _ _ _ _ _ _ rfl fun c hc => ?_) (s.holds_newFunction _ _ _ _ _ _)
        cases hc
    | _ => cases hlive

theorem tameFields_yields (p : Policy) {fields : List (String × Value)}
    (held : ∀ e ∈ fields, s.Holds e.2) :
    s.Yields allowed ((tameFields p s fields).1.map Prod.snd) (tameFields p s fields).2 := by
  induction fields generalizing s with
  | nil => exact ⟨.refl, by simp [tameFields]⟩
  | cons field rest ih =>
    obtain ⟨hfirst, hrest⟩ := List.forall_mem_cons.mp held
    rw [tameFields]
    split
    · have first : s.Yields allowed _ _ := tameThrown_yields hfirst
      have later := ih fun e he => first.steps.lasts.holds (hrest e he)
      refine ⟨first.steps.trans later.steps, List.forall_mem_cons.mpr ⟨?_, later.held⟩⟩
      exact later.steps.lasts.holds (first.held _ List.mem_cons_self)
    · exact ih hrest

variable {vault : Vault code}

theorem tameHost_yields (p : Policy) {ex : HostException}
    (records : ∀ w, some w ∈ vault.records → vault.store.Holds w)
    (held : ∀ v ∈ ex.fields.values, vault.store.Holds v) :
    vault.store.Yields allowed [(tameHost p vault ex).1] (tameHost p vault ex).2.store := by
  unfold tameHost
  cases hrecord : vault.record? ex with
  | some record =>
    refine ⟨.refl, fun w hw => ?_⟩
    rw [List.mem_singleton.mp hw]
    refine records record (Array.mem_of_getElem? (i := ex.id) ?_)
    rw [Vault.record?] at hrecord
    exact Option.join_eq_some_iff.mp hrecord
  | none =>
    have fields : vault.store.Yields allowed _ _ :=
      tameFields_yields p fun e he => held e.2 (List.mem_map.mpr ⟨e, he, rfl⟩)
    refine ⟨fields.steps.tail (.record _ fun e he => ?_), fun w hw => ?_⟩
    · rcases List.mem_cons.mp he with rfl | he
      · trivial
      rcases List.mem_cons.mp he with rfl | he
      · trivial
      exact fields.held e.2 (List.mem_map.mpr ⟨e, he, rfl⟩)
    · rw [List.mem_singleton.mp hw]
      exact holds_newObject _ _ _ _ _

theorem tame_yields (p : Policy) {fault : Fault}
    (records : ∀ w, some w ∈ vault.records → vault.store.Holds w)
    (held : ∀ v ∈ fault.values, vault.store.Holds v) :
    vault.store.Yields allowed [(tame p vault fault).1] (tame p vault fault).2.store := by
  -- a fault with neither value nor exception becomes a record of texts
  have texts {entries : List (String × Value)} (h : ∀ e ∈ entries, vault.store.Holds e.2) :
      vault.store.Yields allowed [(vault.store.newTamedRecord entries).1]
        (vault.store.newTamedRecord entries).2 :=
    .single (.record entries h) (holds_newObject _ _ _ _ _)
  cases fault with
  | thrown v => exact tameThrown_yields (held v List.mem_cons_self)
  | host ex => exact tameHost_yields p records held
  | _ => exact texts (by simp [details, Store.Holds])

theorem mem_records_tame (p : Policy) {fault : Fault} {w : Value}
    (h : some w ∈ (tame p vault fault).2.records) :
    some w ∈ vault.records ∨ w = (tame p vault fault).1 := by
  cases fault with
  | host ex =>
    rw [tame] at h ⊢
    unfold tameHost at h ⊢
    cases hrecord : vault.record? ex with
    | some record =>
      rw [hrecord] at h
      exact .inl h
    | none =>
      rw [hrecord] at h
      rcases Array.mem_or_eq_of_mem_setIfInBounds h with hold | hnew
      · exact .inl hold
      · exact .inr (Option.some.inj hnew)
  | _ => exact .inl h

end Taming

namespace Import

variable {allowed : code → Prop} {s t : Store code} {taken table : Table Value}
  {imports : List Import}

theorem values_of_link_eq_error {fault : Fault} (h : link s taken imports = .error fault) :
    fault.values = [] := by
  induction imports generalizing s taken with
  | nil => cases h
  | cons i imports ih =>
    rw [link] at h
    split at h
    · cases h
      rfl
    · exact ih h

theorem holds_of_link (given : ∀ i ∈ imports, s.Holds i.value)
    (htaken : ∀ v ∈ taken.values, s.Holds v) (linked : link s taken imports = .ok (table, t)) :
    ∀ v ∈ table.values, t.Holds v := by
  induction imports generalizing s taken with
  | nil =>
    cases linked
    exact htaken
  | cons i imports ih =>
    obtain ⟨first, later⟩ := List.forall_mem_cons.mp given
    have provided : s.Lasts (i.provide s).2 :=
      (Store.changes_provide s first : s.Changes (fun _ => True) _).lasts
    refine ih (fun j hj => provided.holds (later j hj)) (fun v hv => ?_) (link_cons linked).2
    rcases Table.mem_values_insert hv with rfl | hold
    · unfold provide
      cases i.allow with
      | none => exact first
      | some allow => exact Store.holds_newObject _ _ _ _ _
    · exact provided.holds (htaken v hold)

theorem table_yields (given : ∀ i ∈ imports, s.Holds i.value)
    (linked : Import.table s imports = .ok (table, t)) : s.Yields allowed table.values t where
  steps := .single (.imports imports given linked)
  held := holds_of_link given (List.forall_mem_nil _) linked

end Import

end Confinement
