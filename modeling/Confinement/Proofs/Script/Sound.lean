import Confinement.Proofs.Module.Conduct
import Confinement.Proofs.Store.Yield
import Confinement.Script.Program

/-!
# Frames in which nothing dangles

The values that a running script can get hold of are in its variables and arguments, in outer
bindings, in exceptions and their records, and in the store itself. A frame is sound if all of them
name something. Taming, calls and loads lead from sound frames to sound frames, and change the store
by steps alone.
-/
namespace Confinement

namespace Script

/-- A literal that names neither object nor function, or something other than a literal. -/
def Expr.Plain : Expr → Prop
  | .literal v => v.isReference = false
  | _ => True

instance : DecidablePred Expr.Plain
  | .literal v => inferInstanceAs (Decidable (v.isReference = false))
  | .var _ | .arg _ | .this | .imported _ => isTrue trivial

def FaultExpr.exprs : FaultExpr → List Expr
  | .ready f => f.values.map .literal
  | .thrown e => [e]
  | .exception _ => []

def SubjectExpr.exprs : SubjectExpr → List Expr
  | .ofClass _ => []
  | .ofValue e => [e]

def ValueOp.exprs : ValueOp → List Expr
  | .set e | .dump e | .describe e | .isTamed e | .message e => [e]
  | .plain props | .exception _ _ _ props => props.map Prod.snd
  | .host _ props _ _ _ => props.map fun p => p.2.1
  | .view target _ => [target]
  | .native _ _ _ => []
  | .slot target _ e _ => [target, e]
  | .equal a b => [a, b]

def RegistryOp.exprs : RegistryOp → List Expr
  | .grant subject _ _ | .grantAll subject _ _ => subject.exprs
  | .capabilities e _ | .check e _ _ => [e]
  | _ => []

def GuardianOp.exprs : GuardianOp → List Expr
  | .bind f receiver guid => f :: receiver :: guid.toList
  | .freeze e | .freezeObject e | .tag e _ | .mark e _ => [e]
  | .addHandler _ f | .removeHandler _ f | .hasHandler _ f => [f]

def AccessOp.exprs : AccessOp → List Expr
  | .write e _ x => [e, x]
  | .read e _ | .remove e _ | .keys e | .has e _ => [e]

def CallOp.exprs : CallOp → List Expr
  | .call e args | .method e _ args | .construct e args => e :: args
  | .invoke f args receiver => f :: (args ++ receiver.toList)
  | .arguments args => args.getD []
  | .fire _ args => args

def ContextOp.exprs : ContextOp → List Expr
  | .writeOuter _ e => [e]
  | .tame f => f.exprs
  | _ => []

def Operation.exprs : Operation → List Expr
  | .value op => op.exprs
  | .registry op => op.exprs
  | .guardian op => op.exprs
  | .access op => op.exprs
  | .call op => op.exprs
  | .context op => op.exprs
  | .load _ imports => imports.map ImportExpr.value
  | .emit _ => []

mutual

def Statement.exprs : Statement → List Expr
  | .perform _ op => op.exprs
  | .define _ _ _ _ body | .attempt _ body | .within _ _ body => bodyExprs body
  | .finish e | .throw e => [e]
  | .raise f => f.exprs

def bodyExprs : List Statement → List Expr
  | [] => []
  | statement :: rest => statement.exprs ++ bodyExprs rest

end

/-- Scripts are written down before anything is made, so their literals name nothing. -/
def Plain (body : List Statement) : Prop := ∀ e ∈ bodyExprs body, e.Plain

def Code.Plain : Code → Prop
  | .native _ => True
  | .script _ body => Script.Plain body

def Locals.values (l : Locals) : List Value := l.args ++ l.receiver.toList ++ l.imports.values

def Outcome.values (o : Outcome) : List Value := o.yield.toList

end Script

open Script

/-- The frame holds on to the value: in the record of an exception, an outer binding, a variable, an
exception, or a binding for modules to come. -/
def Frame.Mentions (fr : ScriptFrame) (v : Value) : Prop :=
  some v ∈ fr.world.vault.records ∨ (∃ b ∈ fr.world.scopes, v ∈ b.values) ∨
    v ∈ fr.world.state.vars.values ∨
    (∃ ex ∈ fr.world.state.exceptions.values, v ∈ ex.fields.values) ∨
    v ∈ fr.context.loader.hostBindings.values

namespace Frame.Mentions

variable {fr : ScriptFrame} {v : Value}

theorem record (h : some v ∈ fr.world.vault.records) : fr.Mentions v := .inl h

theorem scope (h : ∃ b ∈ fr.world.scopes, v ∈ b.values) : fr.Mentions v := .inr (.inl h)

theorem var (h : v ∈ fr.world.state.vars.values) : fr.Mentions v := .inr (.inr (.inl h))

theorem exception (h : ∃ ex ∈ fr.world.state.exceptions.values, v ∈ ex.fields.values) :
    fr.Mentions v :=
  .inr (.inr (.inr (.inl h)))

theorem binding (h : v ∈ fr.context.loader.hostBindings.values) : fr.Mentions v :=
  .inr (.inr (.inr (.inr h)))

end Frame.Mentions

/-- Whatever can be got hold of in the frame is there, and all code is plain. -/
structure Frame.Sound (fr : ScriptFrame) : Prop where
  store : fr.store.Sound Code.Plain
  held : ∀ v, fr.Mentions v → fr.store.Holds v
  modules : ∀ body ∈ fr.world.state.modules.values, Plain body
  report : ∃ h : Handling, fr.context.loader.report = h.report

theorem Frame.Sound.next {fr fr' : ScriptFrame} (sound : fr.Sound)
    (steps : fr.store.Steps Code.Plain fr'.store)
    (held : ∀ v, fr'.Mentions v → fr.Mentions v ∨ fr'.store.Holds v)
    (modules : fr'.world.state.modules = fr.world.state.modules)
    (report : fr'.context.loader.report = fr.context.loader.report) : fr'.Sound where
  store := steps.sound sound.store
  held v hv := by
    rcases held v hv with hold | hnew
    · exact steps.lasts.holds (sound.held v hold)
    · exact hnew
  modules := modules ▸ sound.modules
  report := report ▸ sound.report

theorem Frame.Sound.withStore {fr : ScriptFrame} (sound : fr.Sound) {t : Store Code}
    (steps : fr.store.Steps Code.Plain t) : (fr.withStore t).Sound :=
  sound.next steps (fun _ hv => .inl hv) rfl rfl

/-- The values that a result hands on. -/
def handed {α : Type} (values : α → List Value) : Except Fault α → List Value
  | .ok a => values a
  | .error fault => fault.values

/-- What comes of running something in the frame: the store goes through steps, the frame that is
left is sound, and what is handed on is there. -/
structure Sequel {α : Type} (fr : ScriptFrame) (values : α → List Value)
    (out : Except Fault α × ScriptFrame) : Prop where
  steps : fr.store.Steps Code.Plain out.2.store
  sound : out.2.Sound
  held : ∀ v ∈ handed values out.1, out.2.store.Holds v

namespace Sequel

variable {α β : Type} {values : α → List Value} {values' : β → List Value} {fr left : ScriptFrame}

theorem refl {result : Except Fault α} (sound : fr.Sound)
    (held : ∀ v ∈ handed values result, fr.store.Holds v) : Sequel fr values (result, fr) :=
  ⟨.refl, sound, held⟩

/-- A fault that carries no value, before anything has been done. -/
theorem refuse {fault : Fault} (sound : fr.Sound) (h : fault.values = []) :
    Sequel fr values (.error fault, fr) := by
  refine .refl sound fun v hv => ?_
  rw [handed, h] at hv
  cases hv

theorem trans {result : Except Fault α} {out : Except Fault β × ScriptFrame}
    (first : Sequel fr values (result, left)) (second : Sequel left values' out) :
    Sequel fr values' out :=
  ⟨first.steps.trans second.steps, second.sound, second.held⟩

theorem changed {result : Except Fault α} {t : Store Code} (sound : fr.Sound)
    (steps : fr.store.Steps Code.Plain t) (held : ∀ v ∈ handed values result, t.Holds v) :
    Sequel fr values (result, fr.withStore t) :=
  ⟨steps, sound.withStore steps, held⟩

/-- The result may be put in another way, as long as it hands on nothing more. -/
theorem recast {result : Except Fault α} {result' : Except Fault β}
    (h : Sequel fr values (result, left))
    (sub : ∀ v ∈ handed values' result', v ∈ handed values result) :
    Sequel fr values' (result', left) :=
  ⟨h.steps, h.sound, fun v hv => h.held v (sub v hv)⟩

theorem map {result : Except Fault α} {f : α → β} (h : Sequel fr values (result, left))
    (hf : ∀ a, values' (f a) = values a) : Sequel fr values' (result.map f, left) := by
  refine h.recast fun v hv => ?_
  cases result with
  | error fault => exact hv
  | ok a => rwa [handed, ← hf a]

end Sequel

variable {fr left : ScriptFrame}

theorem Frame.Sound.tame (sound : fr.Sound) (fault : Fault)
    (held : ∀ v ∈ fault.values, fr.store.Holds v) :
    Sequel fr (fun v => [v]) (.ok (fr.tame fault).1, (fr.tame fault).2) := by
  have tamed : fr.store.Yields Code.Plain [(fr.tame fault).1] (fr.tame fault).2.store :=
    Taming.tame_yields _ (fun w hw => sound.held w (.record hw)) held
  refine ⟨tamed.steps, sound.next tamed.steps (fun v hv => ?_) rfl rfl, tamed.held⟩
  rcases hv with hrecord | hother
  · rcases Taming.mem_records_tame _ hrecord with hold | rfl
    · exact .inl (.record hold)
    · exact .inr (tamed.held _ List.mem_cons_self)
  · exact .inl (.inr hother)

theorem Sequel.contain {result : Except Fault Value} (ran : Sequel fr (fun v => [v]) (result, left))
    (origin : FunctionOrigin) :
    Sequel fr (fun v => [v]) (Invocation.contain origin result left) := by
  unfold Invocation.contain
  split
  · rename_i ex
    exact ran.trans ((ran.sound.tame (.host ex) ran.held).recast fun _ hv => hv)
  · exact ran

def CatchOutcome.values : CatchOutcome → List Value
  | .completed v | .caught v => [v]

theorem Sequel.catchGuest {block : Run Code Session Value}
    (ran : Sequel fr (fun v => [v]) (block fr)) :
    Sequel fr CatchOutcome.values (catchGuest block fr) := by
  unfold Confinement.catchGuest
  rcases hblock : block fr with ⟨fault | v, left⟩
  · rw [hblock] at ran
    dsimp only
    split
    · exact ran.trans ((ran.sound.tame fault ran.held).recast fun _ hv => hv)
    · exact ran.recast fun _ hv => hv
  · rw [hblock] at ran
    exact ran.recast fun _ hv => hv

theorem Invocation.newInstance_yields (s : Store Code) (cls : Option String) :
    s.Yields Code.Plain [(newInstance s cls).1] (newInstance s cls).2 := by
  cases cls with
  | none => exact .single (.plain [] (List.forall_mem_nil _)) (Store.holds_newObject _ _ _ _ _)
  | some cls => exact Store.build_yields (List.forall_mem_nil _)

/-- Plain code that is run in a sound frame. -/
def Runner.Sound (run : Runner Code Session) : Prop :=
  ∀ c receiver args (fr : ScriptFrame), c.Plain → fr.Sound →
    (∀ v ∈ receiver.toList ++ args, fr.store.Holds v) →
    Sequel fr (fun v => [v]) (run c receiver args fr)

namespace Runner.Sound

variable {run : Runner Code Session} (runs : run.Sound)

include runs

theorem runWithin (n : Nat) {id : EntityId} {receiver : Option Value} {args : List Value}
    (sound : fr.Sound) (held : ∀ v ∈ receiver.toList ++ args, fr.store.Holds v) :
    Sequel fr (fun v => [v]) (Invocation.runWithin run n id receiver args fr) := by
  induction n generalizing id receiver with
  | zero => exact .refuse sound rfl
  | succ n ih =>
    rw [Invocation.runWithin]
    cases hf : fr.store.function? id with
    | none => exact .refuse sound rfl
    | some f =>
      obtain ⟨e, he, hnature⟩ := Option.map_eq_some_iff.mp (Store.nature_of_function? hf)
      have plain := sound.store.code id e he
      have stored := sound.store.held id e he
      rw [hnature] at plain stored
      dsimp only
      refine Sequel.contain ?_ f.origin
      cases hbody : f.body with
      | native c =>
        refine runs c receiver args fr (plain c ?_) sound held
        rw [Nature.code?, hbody]
        rfl
      | closure c =>
        refine runs c receiver args fr (plain c ?_) sound held
        rw [Nature.code?, hbody]
        rfl
      | standIn text => exact .refl sound (by simp [handed, Store.Holds])
      | bound target own =>
        refine ih fun v hv => ?_
        rcases List.mem_append.mp hv with hown | harg
        · rw [Option.toList_some, List.mem_singleton] at hown
          rw [hown]
          exact stored own (by simp [Nature.values, hbody, FunctionBody.bound?])
        · exact held v (List.mem_append_right _ harg)

theorem runFunction {id : EntityId} {receiver : Option Value} {args : List Value}
    (sound : fr.Sound) (held : ∀ v ∈ receiver.toList ++ args, fr.store.Holds v) :
    Sequel fr (fun v => [v])
      (Invocation.runFunction run id receiver (Arguments.normalize args) fr) := by
  refine runs.runWithin fr.store.size sound (List.forall_mem_append.mpr ⟨?_, ?_⟩)
  · exact (List.forall_mem_append.mp held).1
  · exact Store.holds_normalize (List.forall_mem_append.mp held).2

theorem invoke {id : EntityId} {receiver : Option Value} {args : List Value}
    (sound : fr.Sound) (held : ∀ v ∈ receiver.toList ++ args, fr.store.Holds v) :
    Sequel fr (fun v => [v]) (Invocation.invoke run id receiver args fr) := by
  unfold Invocation.invoke
  split
  · exact .refuse sound rfl
  · split
    · exact runs.runFunction sound held
    · exact .refuse sound rfl

theorem callFunction {callee : Value} {args : List Value} (sound : fr.Sound)
    (held : ∀ v ∈ args, fr.store.Holds v) :
    Sequel fr (fun v => [v]) (Invocation.callFunction run callee args fr) := by
  cases callee with
  | function id => exact runs.invoke sound held
  | _ => exact .refuse sound rfl

theorem callMethod {v : Value} {m : String} {args : List Value} (sound : fr.Sound)
    (held : ∀ w ∈ v :: args, fr.store.Holds w) :
    Sequel fr (fun v => [v]) (Invocation.callMethod run v m args fr) := by
  obtain ⟨hsubject, hargs⟩ := List.forall_mem_cons.mp held
  unfold Invocation.callMethod
  cases hmethod : Invocation.methodOf fr.registry fr.store v m with
  | error fault =>
    refine .refuse sound ?_
    rcases Invocation.methodOf_eq_error hmethod with rfl | rfl | rfl <;> rfl
  | ok id =>
    have hreceiver : fr.store.Holds (fr.store.resolve v) :=
      sound.store.founded.holds_resolve hsubject
    have called : Sequel fr (fun v => [v])
        (Invocation.invoke run id (some (fr.store.resolve v)) args fr) :=
      runs.invoke sound (List.forall_mem_cons.mpr ⟨hreceiver, hargs⟩)
    rcases hout : Invocation.invoke run id (some (fr.store.resolve v)) args fr with
      ⟨fault | w, left⟩
    · rw [hout] at called
      simpa only [hout] using called
    · rw [hout] at called
      simp only [hout]
      refine ⟨called.steps, called.sound, fun x hx => ?_⟩
      rw [List.mem_singleton.mp hx]
      exact Store.holds_rewrap (called.steps.lasts.holds hsubject)
        (called.held w List.mem_cons_self)

theorem construct {ctor : Value} {args : List Value} (sound : fr.Sound)
    (held : ∀ v ∈ args, fr.store.Holds v) :
    Sequel fr (fun v => [v]) (Invocation.construct run ctor args fr) := by
  unfold Invocation.construct
  cases hctor : Invocation.constructorOf fr.registry fr.store ctor with
  | error fault =>
    refine .refuse sound ?_
    rcases Invocation.constructorOf_eq_error hctor with ⟨name, rfl⟩ | rfl <;> rfl
  | ok found =>
    obtain ⟨id, cls⟩ := found
    have instanced := Invocation.newInstance_yields fr.store cls
    have hmade := instanced.held _ List.mem_cons_self
    have ran : Sequel (fr.withStore (Invocation.newInstance fr.store cls).2) (fun v => [v])
        (Invocation.runFunction run (fr.store.unbound id)
          (some (Invocation.newInstance fr.store cls).1) (Arguments.normalize args)
          (fr.withStore (Invocation.newInstance fr.store cls).2)) :=
      runs.runFunction (sound.withStore instanced.steps) (List.forall_mem_cons.mpr
        ⟨hmade, fun v hv => instanced.steps.lasts.holds (held v hv)⟩)
    rcases hout : Invocation.runFunction run (fr.store.unbound id)
      (some (Invocation.newInstance fr.store cls).1) (Arguments.normalize args)
      (fr.withStore (Invocation.newInstance fr.store cls).2) with ⟨fault | v, left⟩
    · rw [hout] at ran
      simp only [hout]
      exact ⟨instanced.steps.trans ran.steps, ran.sound, ran.held⟩
    · rw [hout] at ran
      simp only [hout]
      refine ⟨instanced.steps.trans ran.steps, ran.sound, fun w hw => ?_⟩
      rw [List.mem_singleton.mp hw]
      split
      · exact ran.held v List.mem_cons_self
      · exact ran.steps.lasts.holds hmade

theorem fireAll {receiver : Value} {args : List Value} (handlers : List Handler) (sound : fr.Sound)
    (held : ∀ v ∈ receiver :: args, fr.store.Holds v) :
    Sequel fr (fun _ => []) (HandlerList.fireAll run receiver args handlers fr) := by
  induction handlers generalizing fr with
  | nil => exact .refl sound (List.forall_mem_nil _)
  | cons h rest ih =>
    have told : Sequel fr (fun v => [v])
        (Invocation.invoke run h.function (some receiver) args fr) := runs.invoke sound held
    rw [HandlerList.fireAll]
    rcases hout : Invocation.invoke run h.function (some receiver) args fr with ⟨fault | w, left⟩
    · rw [hout] at told
      exact told.recast fun _ hv => hv
    · rw [hout] at told
      exact told.trans (ih told.sound fun v hv => told.steps.lasts.holds (held v hv))

end Runner.Sound

theorem Loader.values_of_newContext_eq_error {code σ : Type} {l : Loader code σ} {moduleId : String}
    {w : World code σ} {fault : Fault} (h : l.newContext moduleId w = .error fault) :
    fault.values = [] := by
  unfold newContext at h
  split at h
  · cases h
    rfl
  · cases h

namespace Frame.Sound

theorem fresh (sound : fr.Sound) (moduleId : String) :
    (fr.context.loader.fresh moduleId fr.world).Sound := by
  refine sound.next .refl (fun v hv => .inl ?_) rfl rfl
  rcases hv with hrecord | ⟨b, hb, hv⟩ | hother
  · exact .record hrecord
  · rcases Array.mem_push.mp hb with hold | rfl
    · exact .scope ⟨b, hold, hv⟩
    · rw [Bindings.values] at hv
      exact .binding (by simpa [Table.values, Table.empty] using hv)
  · exact .inr (.inr hother)

/-- Code goes on in its own context after work in another. -/
theorem rejoin (sound : fr.Sound) (inner : left.Sound)
    (steps : fr.store.Steps Code.Plain left.store) :
    ({ fr with world := left.world } : ScriptFrame).Sound where
  store := inner.store
  held v hv := by
    rcases hv with hrecord | hscope | hvar | hexception | hbinding
    · exact inner.held v (.record hrecord)
    · exact inner.held v (.scope hscope)
    · exact inner.held v (.var hvar)
    · exact inner.held v (.exception hexception)
    · exact steps.lasts.holds (sound.held v (.binding hbinding))
  modules := inner.modules
  report := sound.report

/-- A fault that ended a module is tamed, and told to a handler that only writes the log. -/
theorem conclude (sound : fr.Sound) (inner : left.Sound)
    (steps : fr.store.Steps Code.Plain left.store) {fault : Fault}
    (held : ∀ v ∈ fault.values, left.store.Holds v) (moduleId : String) {loaded : Loaded}
    (hnone : loaded.outcome = none) :
    Sequel fr (fun loaded => loaded.outcome.toList)
      (.ok loaded, { fr with world := (fr.context.loader.conclude moduleId fault left).2 }) := by
  have tamed := (sound.rejoin inner steps).tame fault held
  obtain ⟨h, hreport⟩ := sound.report
  have told : Sequel fr (fun _ => []) (.ok loaded,
      { fr with world := (fr.context.loader.conclude moduleId fault left).2 }) := by
    rw [Loader.conclude, hreport]
    exact ⟨steps.trans tamed.steps, tamed.sound.next .refl (fun v hv => .inl hv) rfl rfl,
      List.forall_mem_nil _⟩
  refine told.recast fun v hv => ?_
  rw [handed, hnone] at hv
  cases hv

theorem loadWithin (sound : fr.Sound) {moduleId : String} {body : ModuleBody Code Session}
    {imports : List Import} (given : ∀ i ∈ imports, fr.store.Holds i.value)
    (runs : ∀ (table : Table Value) (fresh : ScriptFrame), fresh.Sound →
      (∀ v ∈ table.values, fresh.store.Holds v) → Sequel fresh Option.toList (body table fresh)) :
    Sequel fr (fun loaded => loaded.outcome.toList)
      (fr.context.loader.loadWithin moduleId body imports fr) := by
  unfold Loader.loadWithin
  cases hlink : Import.table fr.world.store imports with
  | error fault =>
    rw [Loader.load_of_table_error hlink]
    exact .refuse sound (Import.values_of_link_eq_error hlink)
  | ok linked =>
    obtain ⟨table, s⟩ := linked
    cases hnew : fr.context.loader.newContext moduleId (fr.world.withStore s) with
    | error fault =>
      simp only [Loader.load, hlink, hnew]
      exact .refuse sound (Loader.values_of_newContext_eq_error hnew)
    | ok fresh =>
      have yields : fr.store.Yields Code.Plain table.values s := Import.table_yields given hlink
      obtain ⟨-, hfresh⟩ := Loader.newContext_eq_ok_iff.mp hnew
      have started : fresh.Sound := hfresh ▸ (sound.withStore yields.steps).fresh moduleId
      have hstore : fresh.store = s := by rw [← hfresh]; rfl
      have ran := runs table fresh started (hstore ▸ yields.held)
      rcases hbody : body table fresh with ⟨fault | outcome, left⟩
      · rw [hbody] at ran
        rw [Loader.load_of_failed hlink hnew hbody]
        exact sound.conclude ran.sound (yields.steps.trans (hstore ▸ ran.steps)) ran.held moduleId
          rfl
      · rw [hbody] at ran
        rw [Loader.load_of_completed hlink hnew hbody]
        have steps := yields.steps.trans (hstore ▸ ran.steps)
        exact ⟨steps, sound.rejoin ran.sound steps, ran.held⟩

end Frame.Sound

end Confinement
