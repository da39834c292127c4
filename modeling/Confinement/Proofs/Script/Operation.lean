import Confinement.Proofs.Script.Sound

/-!
# Operations of a script

An operation works on values that the script was given or has just come by. So it leads from a sound
frame to a sound frame, what it hands on is there, and it changes the store by steps alone. This is
followed through the parts of each operation: what was at hand before the first part is still at
hand for the second, together with what the first has handed on.
-/
namespace Confinement.Script

/-- In every sound frame in which the values of the locals are there, and those in `given`, the step
has a sequel; `values` are those that it hands on. -/
def Act.Safe {α : Type} (l : Locals) (given : List Value) (act : Act α) (values : α → List Value) :
    Prop :=
  ∀ fr : ScriptFrame, fr.Sound → (∀ v ∈ l.values ++ given, fr.store.Holds v) →
    Sequel fr values (act fr)

namespace Act

section Rules

variable {α β : Type} {l : Locals} {given given' : List Value} {act : Act α} {next : α → Act β}
  {values : α → List Value} {values' : β → List Value}

theorem bind_of_error {fr left : ScriptFrame} {fault : Fault} (h : act fr = (.error fault, left)) :
    (act >>= next) fr = (.error fault, left) := by
  simp only [Bind.bind, ExceptT.bind, ExceptT.mk, StateT.bind, ExceptT.bindCont, h]
  rfl

theorem bind_of_ok {fr left : ScriptFrame} {a : α} (h : act fr = (.ok a, left)) :
    (act >>= next) fr = next a left := by
  simp only [Bind.bind, ExceptT.bind, ExceptT.mk, StateT.bind, ExceptT.bindCont, h]

namespace Safe

theorem pure {a : α} (h : ∀ v ∈ values a, v ∈ l.values ++ given) :
    (Pure.pure a : Act α).Safe l given values :=
  fun _ sound held => .refl sound fun v hv => held v (h v hv)

theorem idle (a : α) : (Pure.pure a : Act α).Safe l given fun _ => [] :=
  .pure (List.forall_mem_nil _)

theorem option {o : Option Value} (h : ∀ v ∈ o.toList, v ∈ l.values ++ given) :
    (Pure.pure o : Act (Option Value)).Safe l given Option.toList :=
  .pure h

theorem throw {fault : Fault} (h : ∀ v ∈ fault.values, v ∈ l.values ++ given) :
    (MonadExcept.throw fault : Act α).Safe l given values :=
  fun _ sound held => .refl sound fun v hv => held v (h v hv)

theorem mono (h : act.Safe l given values) (sub : ∀ v ∈ given, v ∈ l.values ++ given') :
    act.Safe l given' values := by
  intro fr sound held
  refine h fr sound (List.forall_mem_append.mpr ⟨fun v hv => ?_, fun v hv => held v (sub v hv)⟩)
  exact held v (List.mem_append_left _ hv)

/-- What was at hand stays at hand, and what the first part hands on comes to it. -/
theorem bind (h : act.Safe l given values) (h' : ∀ a, (next a).Safe l (given ++ values a) values') :
    (act >>= next).Safe l given values' := by
  intro fr sound held
  have first := h fr sound held
  rcases hact : act fr with ⟨fault | a, left⟩
  · rw [hact] at first
    rw [bind_of_error hact]
    exact first.recast fun _ hv => hv
  · rw [hact] at first
    rw [bind_of_ok hact]
    refine first.trans (h' a left first.sound fun v hv => ?_)
    rw [← List.append_assoc] at hv
    rcases List.mem_append.mp hv with hold | hnew
    · exact first.steps.lasts.holds (held v hold)
    · exact first.held v hnew

theorem forIn (given : List Value) (values' : β → List Value) {xs : List α}
    {body : α → β → Act (ForInStep β)}
    (h : ∀ x ∈ xs, ∀ b, (body x b).Safe l (given ++ values' b) fun step => values' step.value)
    (init : β) : (forIn xs init body : Act β).Safe l (given ++ values' init) values' := by
  induction xs generalizing init with
  | nil => exact .pure fun v hv => by simp [hv]
  | cons x rest ih =>
    obtain ⟨first, later⟩ := List.forall_mem_cons.mp h
    rw [List.forIn_cons]
    refine .bind (first init) fun step => ?_
    cases step with
    | done b => exact .pure fun v hv => by simp [ForInStep.value, hv]
    | yield b =>
      refine (ih later b).mono fun v hv => ?_
      rcases List.mem_append.mp hv with hgiven | hb
      · simp [hgiven]
      · simp [ForInStep.value, hb]

end Safe

end Rules

variable {l : Locals} {given : List Value}

theorem safe_get : (get : Act ScriptFrame).Safe l given fun _ => [] :=
  fun _ sound _ => .refl sound (List.forall_mem_nil _)

theorem safe_session : session.Safe l given fun _ => [] :=
  fun _ sound _ => .refl sound (List.forall_mem_nil _)

theorem safe_store : store.Safe l given fun _ => [] :=
  fun _ sound _ => .refl sound (List.forall_mem_nil _)

theorem safe_registry : registry.Safe l given fun _ => [] :=
  fun _ sound _ => .refl sound (List.forall_mem_nil _)

theorem safe_setRegistry (r : Registry) : (setRegistry r).Safe l given fun _ => [] :=
  fun _ sound _ => ⟨.refl, sound.next .refl (fun _ hv => .inl hv) rfl rfl, List.forall_mem_nil _⟩

/-- A plain expression stands for something that is there. -/
theorem holds_eval {fr : ScriptFrame} (sound : fr.Sound)
    (held : ∀ v ∈ l.values, fr.store.Holds v) {e : Expr} (plain : e.Plain) :
    fr.store.Holds (eval l fr.world.state e) := by
  simp only [Locals.values, List.forall_mem_append] at held
  obtain ⟨⟨hargs, hreceiver⟩, himports⟩ := held
  cases e with
  | literal v => exact Store.holds_of_not_isReference plain
  | var name =>
    rw [eval]
    cases hvar : fr.world.state.vars.find? name with
    | none => trivial
    | some v => exact sound.held v (.var (Table.mem_values_of_find? hvar))
  | arg i => exact Store.holds_get hargs i
  | this =>
    rw [eval]
    cases hthis : l.receiver with
    | none => trivial
    | some v => exact hreceiver v (by simp [hthis])
  | imported name =>
    rw [eval, Import.get]
    cases himport : l.imports.find? name with
    | none => trivial
    | some v => exact himports v (Table.mem_values_of_find? himport)

theorem safe_value {e : Expr} (plain : e.Plain) : (value l e).Safe l given fun v => [v] := by
  intro fr sound held
  refine .refl sound (List.forall_mem_singleton.mpr ?_)
  exact holds_eval sound (List.forall_mem_append.mp held).1 plain

theorem safe_values {es : List Expr} (plain : ∀ e ∈ es, e.Plain) :
    (values l es).Safe l given fun vs => vs := by
  intro fr sound held
  refine .refl sound fun v hv => ?_
  obtain ⟨e, he, rfl⟩ := List.mem_map.mp hv
  exact holds_eval sound (List.forall_mem_append.mp held).1 (plain e he)

theorem safe_pairs {es : List (String × Expr)} (plain : ∀ e ∈ es.map Prod.snd, e.Plain) :
    (pairs l es).Safe l given fun ps => ps.map Prod.snd := by
  intro fr sound held
  refine .refl sound fun v hv => ?_
  obtain ⟨p, hp, rfl⟩ := List.mem_map.mp hv
  obtain ⟨e, he, rfl⟩ := List.mem_map.mp hp
  exact holds_eval sound (List.forall_mem_append.mp held).1
    (plain e.2 (List.mem_map.mpr ⟨e, he, rfl⟩))

theorem safe_function {e : Expr} (plain : e.Plain) :
    (function l e).Safe l given fun id => [.function id] := by
  refine .bind (safe_value plain) fun v => ?_
  split
  · exact .pure (by simp)
  · exact .throw (by simp [Fault.values])

theorem safe_guid (id : EntityId) : (guid id).Safe l given fun _ => [] := by
  refine .bind safe_store fun s => ?_
  split
  · exact .pure (List.forall_mem_nil _)
  · exact .pure (List.forall_mem_nil _)

theorem safe_capabilitySet (names : List String) :
    (capabilitySet names).Safe l given fun _ => [] := by
  unfold capabilitySet
  split
  · exact .pure (List.forall_mem_nil _)
  · exact .throw (List.forall_mem_nil _)

theorem safe_newException (name message : String) {fields : List (String × Value)}
    (h : ∀ s : Store Code, (∀ v ∈ l.values ++ given, s.Holds v) →
      ∀ v ∈ fields.map Prod.snd, s.Holds v) :
    (newException name message fields).Safe l given fun ex => ex.fields.values := by
  intro fr sound held
  refine ⟨.refl, sound.next .refl (fun v hv => .inl ?_) rfl rfl, fun v hv => ?_⟩
  · rcases hv with hrecord | hother
    · rcases Array.mem_push.mp hrecord with hold | hnew
      · exact .record hold
      · cases hnew
    · exact .inr hother
  · exact h fr.store held v (Table.mem_of_mem_values_ofList hv)

theorem safe_fault {f : FaultExpr} (plain : ∀ e ∈ f.exprs, e.Plain) :
    (fault l f).Safe l given Fault.values := by
  cases f with
  | ready f =>
    intro fr sound held
    refine .refl sound fun v hv => Store.holds_of_not_isReference ?_
    exact plain (.literal v) (List.mem_map.mpr ⟨v, hv, rfl⟩)
  | thrown e =>
    exact .bind (safe_value (plain e List.mem_cons_self)) fun v => .pure (by simp [Fault.values])
  | exception name =>
    intro fr sound held
    have hread : session fr = (.ok fr.world.state, fr) := rfl
    rw [fault, bind_of_ok hread]
    cases hfound : fr.world.state.exceptions.find? name with
    | none => exact .refuse sound rfl
    | some ex =>
      refine .refl sound fun v hv => sound.held v ?_
      exact .exception ⟨ex, Table.mem_values_of_find? hfound, hv⟩

theorem safe_create {α : Type} {values : α → List Value} {f : Store Code → α × Store Code}
    (h : ∀ s : Store Code, (∀ v ∈ l.values ++ given, s.Holds v) →
      s.Yields Code.Plain (values (f s).1) (f s).2) : (create f).Safe l given values := by
  intro fr sound held
  have yields := h fr.store held
  exact ⟨yields.steps, sound.withStore yields.steps, yields.held⟩

/-- A change to the session that keeps variables and modules, and adds no exception whose fields
are not at hand. -/
theorem safe_modifySession {f : Session → Session} (vars : ∀ x, (f x).vars = x.vars)
    (modules : ∀ x, (f x).modules = x.modules)
    (exceptions : ∀ x, ∀ ex ∈ (f x).exceptions.values, ex ∈ x.exceptions.values ∨
      ∀ v ∈ ex.fields.values, v ∈ l.values ++ given) :
    (modifySession f).Safe l given fun _ => [] := by
  intro fr sound held
  refine ⟨.refl, sound.next .refl (fun v hv => ?_) (modules _) rfl, List.forall_mem_nil _⟩
  rcases hv with hrecord | hscope | hvar | ⟨ex, hex, hfield⟩ | hbinding
  · exact .inl (.record hrecord)
  · exact .inl (.scope hscope)
  · exact .inl (.var (vars fr.world.state ▸ hvar))
  · rcases exceptions fr.world.state ex hex with hold | hnew
    · exact .inl (.exception ⟨ex, hold, hfield⟩)
    · exact .inr (held v (hnew v hfield))
  · exact .inl (.binding hbinding)

end Act

open Act

variable {l : Locals} {given : List Value}

namespace Outcome

theorem safe_ofValue {v : Value} (h : v ∈ l.values ++ given) :
    (ofValue v).Safe l given Outcome.values :=
  .bind safe_store fun s => .pure (by simpa [Outcome.values] using h)

theorem safe_created {f : Store Code → Value × Store Code}
    (h : ∀ s : Store Code, (∀ v ∈ l.values ++ given, s.Holds v) →
      s.Yields Code.Plain [(f s).1] (f s).2) : (created f).Safe l given Outcome.values := by
  have made : (create f).Safe l given fun v => [v] := safe_create h
  exact .bind made fun v => safe_ofValue (by simp)

/-- An outcome that yields a primitive. -/
theorem safe_primitive {o : Outcome} {v : Value} (h : o.yield = some v)
    (primitive : v.isReference = false) : (pure o : Act Outcome).Safe l given Outcome.values := by
  intro fr sound _
  refine .refl sound fun w hw => ?_
  rw [handed, Outcome.values, h, Option.toList_some, List.mem_singleton] at hw
  rw [hw]
  exact Store.holds_of_not_isReference primitive

theorem safe_ofTable (t : Table Value) : (ofTable t).Safe l given Outcome.values :=
  .bind safe_store fun _ => .pure (List.forall_mem_nil _)

end Outcome

open Outcome

theorem native_yields (s : Store Code) (name : String) (kind : FunctionKind) (n : Native) :
    s.Yields Code.Plain [(s.newHostFunction name kind (.native (.native n))).1]
      (s.newHostFunction name kind (.native (.native n))).2 := by
  refine .single (.function _ _ _ _ _ _ rfl fun c hc => ?_) (s.holds_newFunction _ _ _ _ _ _)
  cases hc
  trivial

theorem safe_newNative (name : String) (kind : FunctionKind) (n : Native) :
    (create fun s => s.newHostFunction name kind (.native (.native n))).Safe l given fun v => [v] :=
  safe_create fun s _ => native_yields s name kind n

/-- The values of a draft are those of its members. -/
def draftValues (h : HostObject) : List Value := h.slots.map fun p => p.2.value

theorem draftValues_slot (h : HostObject) (name : String) (slot : Slot) :
    draftValues (h.slot name slot) = draftValues h ++ [slot.value] := by
  simp [draftValues, HostObject.slot]

theorem SlotKind.value_make (kind : SlotKind) (v : Value) : (kind.make v).value = v := by
  cases kind <;> rfl

theorem safe_hostDraft (cls : String) {props : List (String × Expr × SlotKind)}
    (plain : ∀ e ∈ props.map fun p => p.2.1, e.Plain) (methods : List (String × Native))
    (grants : List (String × List String)) (frozen : Bool) :
    (hostDraft l cls props methods grants frozen).Safe l [] draftValues := by
  refine .bind (.forIn [] draftValues (fun prop hprop h => ?_) { cls, frozen }) fun h =>
    .bind (.forIn _ draftValues (fun method _ h => ?_) h) fun h' =>
    .bind (.forIn _ draftValues (fun grant _ h => ?_) h') fun h'' => .pure fun v hv => by simp [hv]
  · refine .bind (safe_value (plain prop.2.1 (List.mem_map.mpr ⟨prop, hprop, rfl⟩))) fun v =>
      .pure fun w hw => ?_
    rw [ForInStep.value, draftValues_slot, SlotKind.value_make] at hw
    exact List.mem_append_right _ hw
  · refine .bind (safe_newNative method.1 .method method.2) fun f => .pure fun w hw => ?_
    rw [ForInStep.value, draftValues_slot] at hw
    rw [List.append_assoc]
    exact List.mem_append_right _ (List.mem_append_right _ hw)
  · refine .bind (safe_capabilitySet grant.2) fun caps => .pure fun w hw => ?_
    have hw : w ∈ draftValues h := hw
    simp [hw]

theorem ValueOp.safe_perform {op : ValueOp} (plain : ∀ e ∈ op.exprs, e.Plain) :
    (op.perform l).Safe l [] Outcome.values := by
  cases op with
  | set e =>
    exact .bind (safe_value (plain e List.mem_cons_self)) fun v => safe_ofValue (by simp)
  | plain props =>
    refine .bind (safe_pairs plain) fun entries => safe_created fun s held => ?_
    refine .single (.plain entries fun p hp => held p.2 ?_) (Store.holds_newObject _ _ _ _ _)
    exact List.mem_append_right _ (List.mem_map.mpr ⟨p, hp, rfl⟩)
  | host cls props methods grants frozen =>
    refine .bind (safe_hostDraft cls plain methods grants frozen) fun h =>
      safe_created fun s held => Store.build_yields fun p hp => held p.2.value ?_
    exact List.mem_append_right _ (List.mem_map.mpr ⟨p, hp, rfl⟩)
  | view target allow =>
    refine .bind (safe_value (plain target List.mem_cons_self)) fun v =>
      safe_created fun s held => ?_
    exact .single (.view v allow (held v (by simp))) (Store.holds_newObject _ _ _ _ _)
  | native name kind n =>
    exact safe_created fun s _ => native_yields s (nativeName name kind) kind n
  | slot target member e kind =>
    refine .bind (safe_value (plain target (by simp [exprs]))) fun target =>
      .bind (safe_value (plain e (by simp [exprs]))) fun v => ?_
    split
    · rename_i id _
      intro fr sound held
      refine .changed sound (.single (.define id member (kind.make v) ?_))
        (List.forall_mem_nil _)
      rw [SlotKind.value_make]
      exact held v (by simp)
    · exact .pure (List.forall_mem_nil _)
  | dump e =>
    exact .bind safe_store fun s =>
      .bind (safe_value (plain e List.mem_cons_self)) fun v => .pure (List.forall_mem_nil _)
  | describe e =>
    exact .bind (safe_value (plain e List.mem_cons_self)) fun v =>
      .bind safe_store fun s => .pure (List.forall_mem_nil _)
  | equal a b =>
    exact .bind safe_store fun s => .bind (safe_value (plain a (by simp [exprs]))) fun x =>
      .bind (safe_value (plain b (by simp [exprs]))) fun y => safe_primitive rfl rfl
  | exception id name text fields =>
    have made {given : List Value} {fields : List (String × Value)}
        (s : Store Code) (held : ∀ v ∈ l.values ++ (given ++ fields.map Prod.snd), s.Holds v)
        (v : Value) (hv : v ∈ fields.map Prod.snd) : s.Holds v :=
      held v (List.mem_append_right _ (List.mem_append_right _ hv))
    refine .bind (safe_pairs plain) fun fields =>
      .bind (safe_newException name text made) fun ex =>
      .bind (safe_modifySession (fun _ => rfl) (fun _ => rfl) fun x ex' h => ?_) fun _ =>
      .pure (List.forall_mem_nil _)
    rcases Table.mem_values_insert h with rfl | hold
    · exact .inr fun v hv => by simp [hv]
    · exact .inl hold
  | isTamed e =>
    exact .bind safe_store fun s =>
      .bind (safe_value (plain e List.mem_cons_self)) fun v => safe_primitive rfl rfl
  | message e =>
    exact .bind safe_store fun s =>
      .bind (safe_value (plain e List.mem_cons_self)) fun v => safe_primitive rfl rfl

theorem SubjectExpr.safe_eval {subject : SubjectExpr} (plain : ∀ e ∈ subject.exprs, e.Plain) :
    (subject.eval l).Safe l given fun _ => [] := by
  cases subject with
  | ofClass cls => exact .pure (List.forall_mem_nil _)
  | ofValue e =>
    refine .bind (safe_value (plain e List.mem_cons_self)) fun v => ?_
    split
    · exact .pure (List.forall_mem_nil _)
    · exact .throw (List.forall_mem_nil _)

theorem safe_fill (call : Registry → Except GrantRefusal Unit × Registry) :
    (fill call).Safe l given Outcome.values := by
  refine .bind safe_registry fun r => .bind (safe_setRegistry _) fun _ => ?_
  split
  · exact .pure (List.forall_mem_nil _)
  · exact .throw (List.forall_mem_nil _)

theorem RegistryOp.safe_perform {op : RegistryOp} (plain : ∀ e ∈ op.exprs, e.Plain) :
    (op.perform l).Safe l [] Outcome.values := by
  cases op with
  | declare cls parent => exact safe_fill _
  | grant subject member caps =>
    exact .bind (SubjectExpr.safe_eval plain) fun subject => .bind (safe_capabilitySet caps)
      fun caps => safe_fill _
  | grantAll subject members caps =>
    exact .bind (SubjectExpr.safe_eval plain) fun subject => .bind (safe_capabilitySet caps)
      fun caps => safe_fill _
  | grants => exact .bind safe_registry fun r => .pure (List.forall_mem_nil _)
  | parents => exact .bind safe_registry fun r => .pure (List.forall_mem_nil _)
  | chain cls => exact .bind safe_registry fun r => .pure (List.forall_mem_nil _)
  | classAllows cls member c => exact .bind safe_registry fun r => .pure (List.forall_mem_nil _)
  | capabilities e member =>
    exact .bind safe_registry fun r => .bind safe_store fun s =>
      .bind (safe_value (plain e List.mem_cons_self)) fun v => .pure (List.forall_mem_nil _)
  | check e member c =>
    exact .bind safe_registry fun r => .bind safe_store fun s =>
      .bind (safe_value (plain e List.mem_cons_self)) fun v => safe_primitive rfl rfl

theorem safe_handlerIn (list : String) {f : Expr} (plain : f.Plain) :
    (handlerIn l list f).Safe l given fun _ => [] :=
  .bind (safe_function plain) fun id => .bind (safe_guid id) fun _ =>
    .bind safe_session fun _ => .pure (List.forall_mem_nil _)

theorem safe_keepList (list : String) (result : Bool) (h : HandlerList) :
    (keepList list result h).Safe l given Outcome.values :=
  .bind (safe_modifySession (fun _ => rfl) (fun _ => rfl) fun _ _ hex => .inl hex)
    fun _ => .pure (List.forall_mem_nil _)

/-- Freezing and naming give the store nothing to keep. -/
theorem steps_guarded (r : Registry) (s : Store Code) {x : Guardian.Step} (h : x.stored = []) :
    s.Steps Code.Plain (Guardian.step r s x) :=
  .single (.guarded r x (by rw [h]; exact List.forall_mem_nil _))

theorem values_of_tagName_eq_error {s : Store Code} {id : EntityId} {name : String} {fault : Fault}
    (h : (s.tagName id name).1 = .error fault) : fault.values = [] := by
  unfold Store.tagName at h
  split at h
  · cases h
  · split at h
    · split at h
      · cases h
      · cases h
        rfl
    · cases h

theorem values_of_markFrozen_eq_error {s : Store Code} {id : EntityId} {name : String}
    {fault : Fault} (h : (s.markFrozen id name).1 = .error fault) : fault.values = [] := by
  unfold Store.markFrozen at h
  rcases htag : s.tagName id name with ⟨fault' | _, t⟩
  · rw [htag] at h
    cases h
    exact values_of_tagName_eq_error (congrArg Prod.fst htag)
  · rw [htag] at h
    cases h

/-- What is looked up hands on values that are there, or else is refused. -/
theorem safe_mediated {α : Type} {f : Registry → Store Code → Except Fault α}
    {values : α → List Value}
    (h : ∀ r (s : Store Code) a, s.Sound Code.Plain → (∀ v ∈ l.values ++ given, s.Holds v) →
      f r s = .ok a → ∀ v ∈ values a, s.Holds v)
    (refused : ∀ r s fault, f r s = .error fault → fault.values = []) :
    (mediated f).Safe l given values := by
  intro fr sound held
  have hmediated : mediated f fr = (f fr.registry fr.store, fr) := rfl
  rw [hmediated]
  cases hf : f fr.registry fr.store with
  | error fault => exact .refuse sound (refused _ _ fault hf)
  | ok a => exact .refl sound (h _ _ a sound.store held hf)

/-- The store goes through steps, and what is handed on is no entity. -/
theorem safe_change {α : Type} {f : Store Code → Except Fault α × Store Code}
    (steps : ∀ s : Store Code, (∀ v ∈ l.values ++ given, s.Holds v) →
      s.Steps Code.Plain (f s).2)
    (refused : ∀ s fault, (f s).1 = .error fault → fault.values = []) :
    (Act.change f).Safe l given fun _ => [] := by
  intro fr sound held
  have done : Act.change f fr = ((f fr.store).1, fr.withStore (f fr.store).2) := rfl
  rw [done]
  refine .changed sound (steps _ held) fun v hv => ?_
  cases hf : (f fr.store).1 with
  | error fault =>
    rw [hf, handed, refused _ fault hf] at hv
    cases hv
  | ok a =>
    rw [hf] at hv
    cases hv

theorem sequel_freeze {fr : ScriptFrame} (sound : fr.Sound) (id : EntityId) {o : Outcome}
    (h : ∀ v ∈ o.values, fr.store.Holds v) :
    Sequel fr Outcome.values (.ok o, fr.withStore (fr.store.freeze id)) := by
  have steps := steps_guarded fr.registry fr.store (x := .freeze id) rfl
  exact .changed sound steps fun v hv => steps.lasts.holds (h v hv)

theorem bind_yields {s : Store Code} (id : EntityId) {receiver : Value} (given : s.Holds receiver)
    (guid : Option EntityId) :
    s.Yields Code.Plain [(s.bind id receiver guid).1] (s.bind id receiver guid).2 := by
  refine .single (.guarded .empty (.bind id receiver guid) (List.forall_mem_singleton.mpr given)) ?_
  unfold Store.bind
  split
  · exact s.holds_newFunction _ _ _ _ _ _
  · trivial

theorem GuardianOp.safe_perform {op : GuardianOp} (plain : ∀ e ∈ op.exprs, e.Plain) :
    (op.perform l).Safe l [] Outcome.values := by
  cases op with
  | freeze f =>
    refine .bind (safe_function (plain f List.mem_cons_self)) fun id fr sound held =>
      sequel_freeze sound id (List.forall_mem_singleton.mpr ?_)
    exact held (.function id) (by simp)
  | freezeObject e =>
    refine .bind (safe_value (plain e List.mem_cons_self)) fun v => ?_
    split
    · rename_i id
      intro fr sound held
      refine sequel_freeze sound id (List.forall_mem_singleton.mpr ?_)
      exact held (.object id) (by simp)
    · exact safe_ofValue (by simp)
  | tag f name =>
    exact .bind (safe_function (plain f List.mem_cons_self)) fun id =>
      .bind (safe_change (fun s _ => steps_guarded .empty s (x := .tag id name) rfl)
        fun _ _ => values_of_tagName_eq_error) fun _ => .pure (List.forall_mem_nil _)
  | mark f name =>
    exact .bind (safe_function (plain f List.mem_cons_self)) fun id =>
      .bind (safe_change (fun s _ => steps_guarded .empty s (x := .mark id name) rfl)
        fun _ _ => values_of_markFrozen_eq_error) fun _ => safe_ofValue (by simp)
  | bind f receiver guid =>
    refine .bind (safe_function (plain f (by simp [exprs]))) fun id =>
      .bind (safe_value (plain receiver (by simp [exprs]))) fun v => ?_
    split
    · rename_i g
      exact .bind (safe_function (plain g (by simp [exprs]))) fun id' =>
        .bind (safe_guid id') fun _ => .bind (.idle _) fun guid =>
          safe_created fun s held => bind_yields id (held v (by simp)) guid
    · exact .bind (.idle _) fun guid =>
        safe_created fun s held => bind_yields id (held v (by simp)) guid
  | addHandler list f =>
    exact .bind (safe_handlerIn list (plain f List.mem_cons_self)) fun _ => safe_keepList _ _ _
  | removeHandler list f =>
    exact .bind (safe_handlerIn list (plain f List.mem_cons_self)) fun _ => safe_keepList _ _ _
  | hasHandler list f =>
    exact .bind (safe_handlerIn list (plain f List.mem_cons_self)) fun _ => safe_keepList _ _ _

section Refusals

variable {α : Type} {r : Registry} {s : Store Code} {v : Value} {m : String} {fault : Fault}

/-- The checks before an access refuse it without naming any value. -/
theorem values_of_object_eq_error {act : Except Fault α}
    (hact : act = .error fault → fault.values = [])
    (h : (do Access.requireObject v m; act) = .error fault) : fault.values = [] := by
  cases hobject : Access.requireObject v m with
  | error f =>
    rw [hobject] at h
    obtain rfl : f = fault := Except.error.inj h
    cases v <;> cases hobject <;> rfl
  | ok _ =>
    rw [hobject] at h
    exact hact h

theorem values_of_granted_eq_error {c : Capability} {act : Except Fault α}
    (hact : act = .error fault → fault.values = [])
    (h : (do Access.requireObject v m; Access.require r s v m c; act) = .error fault) :
    fault.values = [] := by
  refine values_of_object_eq_error (fun hrest => ?_) h
  unfold Access.require at hrest
  cases hcheck : r.check s v m c with
  | false =>
    rw [hcheck] at hrest
    cases hrest
    rfl
  | true =>
    rw [hcheck] at hrest
    exact hact hrest

theorem values_of_write_eq_error {x : Value} (h : (Access.write r s v m x).1 = .error fault) :
    fault.values = [] := by
  rw [Access.write_eq] at h
  obtain ⟨htarget, -⟩ := Access.decided_eq_error_iff.mp (Prod.ext h rfl)
  refine values_of_granted_eq_error (fun hact => ?_) htarget
  split at hact
  · split at hact
    · cases hact
      rfl
    · cases hact
  · cases hact
    rfl

theorem values_of_remove_eq_error (h : (Access.remove r s v m).1 = .error fault) :
    fault.values = [] := by
  rw [Access.remove_eq] at h
  obtain ⟨htarget, -⟩ := Access.decided_eq_error_iff.mp (Prod.ext h rfl)
  refine values_of_granted_eq_error (fun hact => ?_) htarget
  split at hact
  · split at hact
    · cases hact
    · split at hact
      · cases hact
        rfl
      · cases hact
  · cases hact
    rfl

end Refusals

theorem safe_read {v : Value} (h : v ∈ l.values ++ given) (m : String) :
    (mediated fun r s => Access.read r s v m).Safe l given fun w => [w] := by
  refine safe_mediated (fun r s w sound held hread => ?_) fun r s fault hread => ?_
  · obtain ⟨-, hvalue⟩ := Access.of_granted_eq_ok hread
    obtain rfl := Except.ok.inj hvalue
    refine List.forall_mem_singleton.mpr (Store.holds_rewrap (held v h) ?_)
    cases hlookup : Access.lookup? s v m with
    | none => trivial
    | some x => exact sound.holds_lookup? hlookup
  · refine values_of_granted_eq_error (fun hact => ?_) hread
    cases hact

theorem AccessOp.safe_perform {op : AccessOp} (plain : ∀ e ∈ op.exprs, e.Plain) :
    (op.perform l).Safe l [] Outcome.values := by
  cases op with
  | read e m =>
    exact .bind (safe_value (plain e List.mem_cons_self)) fun v =>
      .bind (safe_read (by simp) m) fun w => safe_ofValue (by simp)
  | write e m x =>
    refine .bind (safe_value (plain e (by simp [exprs]))) fun v =>
      .bind (safe_value (plain x (by simp [exprs]))) fun x => .bind safe_registry fun r =>
      .bind (safe_change (fun s held => ?_) fun _ _ => values_of_write_eq_error) fun _ =>
        .pure (List.forall_mem_nil _)
    exact .single (.guarded r (.access (.write v m x))
      (List.forall_mem_singleton.mpr (held x (by simp))))
  | remove e m =>
    exact .bind (safe_value (plain e List.mem_cons_self)) fun v => .bind safe_registry fun r =>
      .bind (safe_change (fun s _ => steps_guarded r s (x := .access (.remove v m)) rfl)
        fun _ _ => values_of_remove_eq_error) fun _ => safe_primitive rfl rfl
  | keys e =>
    refine .bind (safe_value (plain e List.mem_cons_self)) fun v =>
      .bind (safe_mediated (fun _ _ _ _ _ _ => List.forall_mem_nil _) fun r s fault h => ?_)
        fun _ => .pure (List.forall_mem_nil _)
    refine values_of_object_eq_error (fun hact => ?_) h
    cases hact
  | has e m =>
    refine .bind (safe_value (plain e List.mem_cons_self)) fun v =>
      .bind (safe_mediated (fun _ _ _ _ _ _ => List.forall_mem_nil _) fun r s fault h => ?_)
        fun _ => safe_primitive rfl rfl
    refine values_of_object_eq_error (fun hact => ?_) h
    cases hact

theorem CallOp.safe_perform {run : Runner Code Session} (runs : run.Sound) {op : CallOp}
    (plain : ∀ e ∈ op.exprs, e.Plain) : (op.perform run l).Safe l [] Outcome.values := by
  cases op with
  | call f args =>
    obtain ⟨hf, hargs⟩ := List.forall_mem_cons.mp plain
    refine .bind (safe_value hf) fun f => .bind (safe_values hargs) fun args =>
      .bind (fun fr sound held => runs.callFunction sound fun v hv => held v ?_) fun v =>
        safe_ofValue (by simp)
    simp [hv]
  | method e member args =>
    obtain ⟨he, hargs⟩ := List.forall_mem_cons.mp plain
    refine .bind (safe_value he) fun v => .bind (safe_values hargs) fun args =>
      .bind (fun fr sound held => runs.callMethod sound fun w hw => held w ?_) fun v =>
        safe_ofValue (by simp)
    exact List.mem_append_right _ hw
  | construct f args =>
    obtain ⟨hf, hargs⟩ := List.forall_mem_cons.mp plain
    refine .bind (safe_value hf) fun f => .bind (safe_values hargs) fun args =>
      .bind (fun fr sound held => runs.construct sound fun v hv => held v ?_) fun v =>
        safe_ofValue (by simp)
    simp [hv]
  | invoke f args receiver =>
    obtain ⟨hf, hrest⟩ := List.forall_mem_cons.mp plain
    obtain ⟨hargs, hreceiver⟩ := List.forall_mem_append.mp hrest
    refine .bind (safe_function hf) fun id => .bind (safe_values hargs) fun args => ?_
    have rest {given : List Value} (receiver : Option Value)
        (h : ∀ v ∈ args, v ∈ l.values ++ given) :
        (Act.lift (Invocation.invoke run id receiver args) >>= ofValue).Safe l
          (given ++ receiver.toList) Outcome.values := by
      refine .bind (fun fr sound held => runs.invoke sound fun v hv => held v ?_) fun w =>
        safe_ofValue (by simp)
      rw [← List.append_assoc]
      rcases List.mem_append.mp hv with hreceiver | harg
      · exact List.mem_append_right _ hreceiver
      · exact List.mem_append_left _ (h v harg)
    split
    · rename_i e
      exact .bind (safe_value (hreceiver e (by simp))) fun v =>
        .bind (.option (by simp)) fun receiver => rest receiver fun w hw => by simp [hw]
    · exact .bind (.option (by simp)) fun receiver => rest receiver fun w hw => by simp [hw]
  | arguments args =>
    have object {given : List Value} {args : List Value} (h : ∀ v ∈ args, v ∈ l.values ++ given) :
        (created (Arguments.toObject args)).Safe l given Outcome.values :=
      safe_created fun s held => Store.toObject_yields fun v hv => held v (h v hv)
    cases args with
    | some es =>
      exact .bind (safe_values plain) fun args => object fun v hv => List.mem_append_right _ hv
    | none =>
      have own : (pure l.args : Act (List Value)).Safe l [] fun vs => vs :=
        .pure fun v hv => by simp [Locals.values, hv]
      exact .bind own fun args => object fun v hv => List.mem_append_right _ hv
  | fire list args =>
    refine .bind (safe_values plain) fun args => .bind safe_session fun s =>
      .bind (fun fr sound held => runs.fireAll _ sound ?_) fun _ => .pure (List.forall_mem_nil _)
    have hargs (v : Value) (hv : v ∈ args) : fr.store.Holds v := held v (by simp [hv])
    refine List.forall_mem_cons.mpr ⟨Store.holds_get hargs 0, Store.holds_normalize fun v hv => ?_⟩
    exact hargs v (List.mem_of_mem_drop hv)

theorem mentions_of_bindings {fr : ScriptFrame} {v : Value} (h : v ∈ fr.bindings.values) :
    fr.Mentions v := by
  unfold Frame.bindings at h
  cases hscope : fr.world.scopes[fr.context.scope]? with
  | none =>
    rw [hscope] at h
    cases h
  | some b =>
    rw [hscope] at h
    exact .scope ⟨b, Array.mem_of_getElem? hscope, h⟩

/-- Outer bindings change to hold what they held, and values that are at hand. -/
theorem safe_rebind {f : Bindings → Except Fault Unit × Bindings}
    (h : ∀ (s : Store Code) b, (∀ v ∈ l.values ++ given, s.Holds v) →
      ∀ v ∈ (f b).2.values, v ∈ b.values ∨ s.Holds v)
    (refused : ∀ b fault, (f b).1 = .error fault → fault.values = []) :
    (rebind f).Safe l given Outcome.values := by
  intro fr sound held
  have next : (fr.withBindings (f fr.bindings).2).Sound := by
    refine sound.next .refl (fun v hv => ?_) rfl rfl
    rcases hv with hrecord | ⟨b', hb', hv⟩ | hother
    · exact .inl (.record hrecord)
    · rcases Array.mem_or_eq_of_mem_setIfInBounds hb' with hold | rfl
      · exact .inl (.scope ⟨b', hold, hv⟩)
      · exact (h fr.store fr.bindings held v hv).imp_left mentions_of_bindings
    · exact .inl (.inr (.inr hother))
  have answered : Sequel fr (fun _ : Unit => [])
      ((f fr.bindings).1, fr.withBindings (f fr.bindings).2) := by
    refine ⟨.refl, next, fun v hv => ?_⟩
    cases hf : (f fr.bindings).1 with
    | ok u =>
      rw [hf] at hv
      cases hv
    | error fault =>
      rw [hf, handed, refused _ fault hf] at hv
      cases hv
  exact answered.map fun _ => rfl

theorem mem_values_declare {b : Bindings} {name : String} {x v : Value}
    (hv : v ∈ ({ b with declared := b.declared.insert name x } : Bindings).values) :
    v = x ∨ v ∈ b.values := by
  rcases List.mem_append.mp hv with hhost | hdeclared
  · exact .inr (List.mem_append_left _ hhost)
  · exact (Table.mem_values_insert hdeclared).imp_right (List.mem_append_right _)

theorem safe_init (name : String) : (rebind (·.init name)).Safe l given Outcome.values := by
  refine safe_rebind (fun s b _ v hv => ?_) fun b fault h => ?_
  · unfold Bindings.init at hv
    split at hv
    · exact .inl hv
    · exact .inl hv
    · rcases mem_values_declare hv with rfl | hold
      · exact .inr trivial
      · exact .inl hold
  · unfold Bindings.init at h
    split at h
    · cases h
      rfl
    · cases h
    · cases h

theorem safe_write (name : String) {x : Value} (hx : x ∈ l.values ++ given) :
    (rebind (·.write name x)).Safe l given Outcome.values := by
  refine safe_rebind (fun s b held v hv => ?_) fun b fault h => ?_
  · unfold Bindings.write at hv
    split at hv
    · exact .inl hv
    · rcases mem_values_declare hv with rfl | hold
      · exact .inr (held _ hx)
      · exact .inl hold
  · unfold Bindings.write at h
    split at h
    · cases h
      rfl
    · cases h

theorem safe_readOuter (name : String) :
    (Act.lift fun fr => (fr.bindings.read name, fr)).Safe l given fun v => [v] := by
  intro fr sound held
  have hread : Act.lift (fun fr => (fr.bindings.read name, fr)) fr =
      (fr.bindings.read name, fr) := rfl
  rw [hread, Bindings.read]
  split
  · rename_i v hfound
    refine .refl sound (List.forall_mem_singleton.mpr (sound.held v (mentions_of_bindings ?_)))
    rcases Option.or_eq_some_iff.mp hfound with hhost | ⟨-, hdeclared⟩
    · exact List.mem_append_left _ (Table.mem_values_of_find? hhost)
    · exact List.mem_append_right _ (Table.mem_values_of_find? hdeclared)
  · exact .refuse sound rfl

theorem safe_tame {fault : Fault} (h : ∀ v ∈ fault.values, v ∈ l.values ++ given) :
    (Act.lift fun fr => (.ok (fr.tame fault).1, (fr.tame fault).2)).Safe l given fun v => [v] :=
  fun _ sound held => sound.tame fault fun v hv => held v (h v hv)

theorem safe_setLine (line : Nat) :
    (modify fun fr => { fr with context := { fr.context with line := some line } } :
      Act Unit).Safe l given fun _ => [] :=
  fun _ sound _ => ⟨.refl, sound.next .refl (fun _ hv => .inl hv) rfl rfl, List.forall_mem_nil _⟩

theorem ContextOp.safe_perform {op : ContextOp} (plain : ∀ e ∈ op.exprs, e.Plain) :
    (op.perform l).Safe l [] Outcome.values := by
  cases op with
  | initOuter name => exact safe_init name
  | readOuter name => exact .bind (safe_readOuter name) fun v => safe_ofValue (by simp)
  | writeOuter name e =>
    exact .bind (safe_value (plain e List.mem_cons_self)) fun v => safe_write name (by simp)
  | outerState name => exact .bind safe_get fun fr => .pure (List.forall_mem_nil _)
  | hostNames => exact .bind safe_get fun fr => .pure (List.forall_mem_nil _)
  | snapshot id =>
    exact .bind safe_get fun fr =>
      .bind (safe_modifySession (fun _ => rfl) (fun _ => rfl) fun _ _ hex => .inl hex) fun _ =>
      .pure (List.forall_mem_nil _)
  | look id => exact .bind safe_get fun fr => .pure (List.forall_mem_nil _)
  | tame f =>
    exact .bind (safe_fault plain) fun fault =>
      .bind (safe_tame fun v hv => List.mem_append_right _ hv) fun v =>
      .bind safe_store fun s => .pure (by simp [Outcome.values])
  | setLine line =>
    exact .bind (safe_setLine line) fun _ => .pure (List.forall_mem_nil _)
  | place => exact .bind safe_get fun fr => .pure (List.forall_mem_nil _)
  | policy => exact .bind safe_get fun fr => .pure (List.forall_mem_nil _)
  | imports => exact safe_ofTable l.imports
  | importsObject =>
    refine safe_created fun s held => Store.importsObject_yields fun v hv => held v ?_
    simp [Locals.values, hv]

theorem safe_performEmit (strict : Bool) (steps : List SandboxStep) :
    (performEmit strict steps).Safe l given Outcome.values := by
  intro fr sound held
  have kept (b : Bench) {result : Except Fault Outcome} (h : handed Outcome.values result = []) :
      Sequel fr Outcome.values (result,
        { context := { fr.context with sandbox := b.sandbox }
          world := { fr.world with state := { fr.world.state with fragments := b.fragments } } }) :=
    ⟨.refl, sound.next .refl (fun _ hv => .inl hv) rfl rfl, by rw [h]; exact List.forall_mem_nil _⟩
  cases strict with
  | true =>
    rcases hrun : runSandboxStrict ⟨fr.context.sandbox, fr.world.state.fragments⟩ steps with
      ⟨v | reports, b⟩
    · simpa only [performEmit, Act.lift, ExceptT.mk, if_true, hrun] using kept b rfl
    · simpa only [performEmit, Act.lift, ExceptT.mk, if_true, hrun] using kept b rfl
  | false => exact kept (runSandbox ⟨fr.context.sandbox, fr.world.state.fragments⟩ steps).2 rfl

end Confinement.Script
