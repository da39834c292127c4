import Confinement.Proofs.Invocation.Growth
import Confinement.Proofs.Module.Conduct
import Confinement.Script.Program

/-!
# What a script does

Every module body that is a script has a history, whatever it calls, catches, emits or loads. A step
of a script is followed through its parts: a history of the first part and one of the second make
one of both.
-/
namespace Confinement

section Calls

variable {code σ : Type}

theorem Frame.reaches_tame (fr : Frame code σ) (fault : Fault) : fr.Reaches (fr.tame fault).2 :=
  .of_scopes_eq rfl

/-- Catching a fault costs no history: the block has one, and taming leaves all scopes. -/
theorem reaches_catchGuest {body : Run code σ Value} {fr : Frame code σ}
    (h : fr.Reaches (body fr).2) : fr.Reaches (catchGuest body fr).2 :=
  catchGuest_invariant (fun left fault hleft => hleft.trans (left.reaches_tame fault)) h

theorem Runner.Tracked.respects {run : Runner code σ} (tracked : run.Tracked) :
    run.Respects Frame.Reaches where
  refl := .refl
  trans := .trans
  tame fr fault := fr.reaches_tame fault
  create fr _ := .of_aside (.withStore fr _)
  code := tracked

end Calls

namespace Script

/-- Wherever the step starts, there is a history of it. -/
def Act.Tracked (act : Act α) : Prop := ∀ fr : ScriptFrame, fr.Reaches (act fr).2

namespace Act.Tracked

theorem lift {run : Run Code Session α} (h : ∀ fr : ScriptFrame, fr.Reaches (run fr).2) :
    (Act.lift run).Tracked := h

theorem pure (a : α) : (Pure.pure a : Act α).Tracked := .refl

theorem throw (fault : Fault) : (MonadExcept.throw fault : Act α).Tracked := .refl

theorem bind {act : Act α} {next : α → Act β} (h : act.Tracked) (h' : ∀ a, (next a).Tracked) :
    (act >>= next).Tracked := by
  intro fr
  have first := h fr
  rcases hact : act fr with ⟨fault | a, left⟩
  · rw [hact] at first
    have hbind : (act >>= next) fr = (.error fault, left) := by
      simp only [Bind.bind, ExceptT.bind, ExceptT.mk, StateT.bind, ExceptT.bindCont, hact]
      rfl
    rwa [hbind]
  · rw [hact] at first
    have hbind : (act >>= next) fr = next a left := by
      simp only [Bind.bind, ExceptT.bind, ExceptT.mk, StateT.bind, ExceptT.bindCont, hact]
    rw [hbind]
    exact first.trans (h' a left)

theorem forIn {xs : List α} {next : α → β → Act (ForInStep β)} (h : ∀ x b, (next x b).Tracked)
    (init : β) : (forIn xs init next : Act β).Tracked := by
  induction xs generalizing init with
  | nil => exact .pure init
  | cons x rest ih =>
    rw [List.forIn_cons]
    refine .bind (h x init) fun step => ?_
    cases step with
    | done b => exact .pure b
    | yield b => exact ih b

end Act.Tracked

namespace Act

/-- A step that only looks. -/
theorem tracked_get : (get : Act ScriptFrame).Tracked := .refl

theorem tracked_session : session.Tracked := .refl

theorem tracked_store : store.Tracked := .refl

theorem tracked_registry : registry.Tracked := .refl

theorem tracked_modifySession (f : Session → Session) : (modifySession f).Tracked :=
  fun _ => .of_scopes_eq rfl

theorem tracked_setStore (s : Store Code) : (setStore s).Tracked := fun _ => .of_scopes_eq rfl

theorem tracked_change {α : Type} (f : Store Code → Except Fault α × Store Code) :
    (change f).Tracked := .lift fun _ => .of_scopes_eq rfl

theorem tracked_setRegistry (r : Registry) : (setRegistry r).Tracked :=
  fun _ => .of_aside ⟨rfl, rfl, rfl, rfl, .of_eq rfl⟩

theorem tracked_create (f : Store Code → α × Store Code) : (create f).Tracked :=
  .bind tracked_store fun _ => .bind (tracked_setStore _) fun _ => .pure _

theorem tracked_value (l : Locals) (e : Expr) : (value l e).Tracked := .refl

theorem tracked_values (l : Locals) (es : List Expr) : (values l es).Tracked := .refl

theorem tracked_pairs (l : Locals) (es : List (String × Expr)) : (pairs l es).Tracked := .refl

theorem tracked_function (l : Locals) (e : Expr) : (function l e).Tracked := by
  refine .bind (tracked_value l e) fun v => ?_
  split
  · exact .pure _
  · exact .throw _

theorem tracked_guid (id : EntityId) : (guid id).Tracked := by
  refine .bind tracked_store fun s => ?_
  split
  · exact .pure _
  · exact .pure _

theorem tracked_newException (name message : String) (fields : List (String × Value)) :
    (newException name message fields).Tracked := fun _ => .of_scopes_eq rfl

theorem tracked_capabilitySet (names : List String) : (capabilitySet names).Tracked := by
  unfold capabilitySet
  split
  · exact .pure _
  · exact .throw _

theorem tracked_fault (l : Locals) (f : FaultExpr) : (fault l f).Tracked := by
  cases f with
  | ready f => exact .pure f
  | thrown e => exact .bind (tracked_value l e) fun v => .pure _
  | exception name =>
    refine .bind tracked_session fun s => ?_
    split
    · exact .pure _
    · exact .throw _

end Act

open Act

namespace Outcome

theorem tracked_ofValue (v : Value) : (ofValue v).Tracked := .refl

theorem tracked_created (f : Store Code → Value × Store Code) : (created f).Tracked :=
  .bind (tracked_create f) tracked_ofValue

theorem tracked_ofTable (t : Table Value) : (ofTable t).Tracked := .refl

end Outcome

open Outcome

theorem tracked_hostDraft (l : Locals) (cls : String) (props : List (String × Expr × SlotKind))
    (methods : List (String × Native)) (grants : List (String × List String)) (frozen : Bool) :
    (hostDraft l cls props methods grants frozen).Tracked := by
  refine .bind (.forIn (fun prop h => ?_) _) fun h =>
    .bind (.forIn (fun method h => ?_) _) fun h =>
    .bind (.forIn (fun grant h => ?_) _) fun h => .pure h
  · exact .bind (tracked_value l _) fun v => .pure _
  · exact .bind (tracked_create _) fun f => .pure _
  · exact .bind (tracked_capabilitySet _) fun caps => .pure _

theorem ValueOp.tracked_perform (l : Locals) (op : ValueOp) : (op.perform l).Tracked := by
  cases op with
  | set e => exact .bind (tracked_value l e) tracked_ofValue
  | plain props => exact .bind (tracked_pairs l props) fun entries => tracked_created _
  | host cls props methods grants frozen =>
    exact .bind (tracked_hostDraft l cls props methods grants frozen) fun h => tracked_created _
  | view target allow => exact .bind (tracked_value l target) fun v => tracked_created _
  | native name kind n => exact tracked_created _
  | slot target member e kind =>
    refine .bind (tracked_value l target) fun target => .bind (tracked_value l e) fun v => ?_
    split
    · exact .bind tracked_store fun s => .bind (tracked_setStore _) fun _ => .pure _
    · exact .pure _
  | dump e => exact .bind tracked_store fun s => .bind (tracked_value l e) fun v => .pure _
  | describe e => exact .bind (tracked_value l e) fun v => .bind tracked_store fun s => .pure _
  | equal a b =>
    exact .bind tracked_store fun s =>
      .bind (tracked_value l a) fun x => .bind (tracked_value l b) fun y => .pure _
  | exception id name text fields =>
    exact .bind (tracked_pairs l fields) fun fields =>
      .bind (tracked_newException name text fields) fun ex =>
      .bind (tracked_modifySession _) fun _ => .pure _
  | isTamed e => exact .bind tracked_store fun s => .bind (tracked_value l e) fun v => .pure _
  | message e => exact .bind tracked_store fun s => .bind (tracked_value l e) fun v => .pure _

theorem SubjectExpr.tracked_eval (l : Locals) (subject : SubjectExpr) :
    (subject.eval l).Tracked := by
  cases subject with
  | ofClass cls => exact .pure _
  | ofValue e =>
    refine .bind (tracked_value l e) fun v => ?_
    split
    · exact .pure _
    · exact .throw _

theorem tracked_fill (call : Registry → Except GrantRefusal Unit × Registry) :
    (fill call).Tracked := by
  refine .bind tracked_registry fun r => .bind (tracked_setRegistry _) fun _ => ?_
  split
  · exact .pure _
  · exact .throw _

theorem RegistryOp.tracked_perform (l : Locals) (op : RegistryOp) : (op.perform l).Tracked := by
  cases op with
  | declare cls parent => exact tracked_fill _
  | grant subject member caps =>
    exact .bind (subject.tracked_eval l) fun subject => .bind (tracked_capabilitySet caps)
      fun caps => tracked_fill _
  | grantAll subject members caps =>
    exact .bind (subject.tracked_eval l) fun subject => .bind (tracked_capabilitySet caps)
      fun caps => tracked_fill _
  | grants => exact .bind tracked_registry fun r => .pure _
  | parents => exact .bind tracked_registry fun r => .pure _
  | chain cls => exact .bind tracked_registry fun r => .pure _
  | classAllows cls member c => exact .bind tracked_registry fun r => .pure _
  | capabilities e member =>
    exact .bind tracked_registry fun r => .bind tracked_store fun s =>
      .bind (tracked_value l e) fun v => .pure _
  | check e member c =>
    exact .bind tracked_registry fun r => .bind tracked_store fun s =>
      .bind (tracked_value l e) fun v => .pure _

theorem tracked_handlerIn (l : Locals) (list : String) (f : Expr) :
    (handlerIn l list f).Tracked :=
  .bind (tracked_function l f) fun id => .bind (tracked_guid id) fun _ =>
    .bind tracked_session fun _ => .pure _

theorem tracked_keepList (list : String) (result : Bool) (h : HandlerList) :
    (keepList list result h).Tracked := .bind (tracked_modifySession _) fun _ => .pure _

theorem GuardianOp.tracked_perform (l : Locals) (op : GuardianOp) : (op.perform l).Tracked := by
  cases op with
  | freeze f =>
    exact .bind (tracked_function l f) fun id => .bind tracked_store fun s =>
      .bind (tracked_setStore _) fun _ => tracked_ofValue _
  | freezeObject e =>
    refine .bind (tracked_value l e) fun v => ?_
    split
    · exact .bind tracked_store fun s => .bind (tracked_setStore _) fun _ => tracked_ofValue _
    · exact tracked_ofValue _
  | tag f name =>
    exact .bind (tracked_function l f) fun id => .bind (tracked_change _) fun _ => .pure _
  | mark f name =>
    exact .bind (tracked_function l f) fun id => .bind (tracked_change _) fun _ =>
      tracked_ofValue _
  | bind f receiver guid =>
    refine .bind (tracked_function l f) fun id => .bind (tracked_value l receiver) fun v => ?_
    split
    · exact .bind (tracked_function l _) fun id => .bind (tracked_guid id) fun _ =>
        .bind (.pure _) fun _ => tracked_created _
    · exact .bind (.pure _) fun _ => tracked_created _
  | addHandler list f =>
    exact .bind (tracked_handlerIn l list f) fun found => tracked_keepList _ _ _
  | removeHandler list f =>
    exact .bind (tracked_handlerIn l list f) fun found => tracked_keepList _ _ _
  | hasHandler list f =>
    exact .bind (tracked_handlerIn l list f) fun found => tracked_keepList _ _ _

theorem tracked_mediated (f : Registry → Store Code → Except Fault α) : (mediated f).Tracked :=
  .lift .refl

theorem AccessOp.tracked_perform (l : Locals) (op : AccessOp) : (op.perform l).Tracked := by
  cases op with
  | read e member =>
    exact .bind (tracked_value l e) fun v => .bind (tracked_mediated _) tracked_ofValue
  | write e member x =>
    exact .bind (tracked_value l e) fun v => .bind (tracked_value l x) fun x =>
      .bind tracked_registry fun r => .bind (tracked_change _) fun _ => .pure _
  | remove e member =>
    exact .bind (tracked_value l e) fun v => .bind tracked_registry fun r =>
      .bind (tracked_change _) fun _ => .pure _
  | keys e => exact .bind (tracked_value l e) fun v => .bind (tracked_mediated _) fun _ => .pure _
  | has e member =>
    exact .bind (tracked_value l e) fun v => .bind (tracked_mediated _) fun _ => .pure _

theorem CallOp.tracked_perform {run : Runner Code Session} (tracked : run.Tracked) (l : Locals)
    (op : CallOp) : (op.perform run l).Tracked := by
  cases op with
  | call f args =>
    exact .bind (tracked_value l f) fun f => .bind (tracked_values l args) fun args =>
      .bind (.lift (tracked.respects.callFunction f args)) tracked_ofValue
  | method e member args =>
    exact .bind (tracked_value l e) fun v => .bind (tracked_values l args) fun args =>
      .bind (.lift (tracked.respects.callMethod v member args)) tracked_ofValue
  | construct f args =>
    exact .bind (tracked_value l f) fun f => .bind (tracked_values l args) fun args =>
      .bind (.lift (tracked.respects.construct f args)) tracked_ofValue
  | invoke f args receiver =>
    refine .bind (tracked_function l f) fun id => .bind (tracked_values l args) fun args => ?_
    split
    · exact .bind (tracked_value l _) fun v => .bind (.pure _) fun receiver =>
        .bind (.lift (tracked.respects.invoke id receiver args)) tracked_ofValue
    · exact .bind (.pure _) fun receiver =>
        .bind (.lift (tracked.respects.invoke id receiver args)) tracked_ofValue
  | arguments args =>
    cases args with
    | some es => exact .bind (tracked_values l es) fun args => tracked_created _
    | none => exact .bind (.pure l.args) fun args => tracked_created _
  | fire list args =>
    exact .bind (tracked_values l args) fun args => .bind tracked_session fun s =>
      .bind (.lift (tracked.respects.fireAll _ _ _)) fun _ => .pure _

/-- A change of the bindings by a deed. -/
theorem tracked_rebind {f : Bindings → Except Fault Unit × Bindings} {d : Deed}
    (h : ∀ fr : ScriptFrame, fr.perform d = fr.withBindings (f fr.bindings).2) :
    (rebind f).Tracked := by
  refine .lift fun fr => ?_
  have done := Frame.Reaches.perform fr d
  rwa [h fr] at done

theorem ContextOp.tracked_perform (l : Locals) (op : ContextOp) : (op.perform l).Tracked := by
  cases op with
  | initOuter name => exact tracked_rebind (d := .declare name) fun fr => rfl
  | readOuter name => exact .bind (.lift .refl) tracked_ofValue
  | writeOuter name e =>
    exact .bind (tracked_value l e) fun v => tracked_rebind (d := .assign name v) fun fr => rfl
  | outerState name => exact .bind tracked_get fun fr => .pure _
  | hostNames => exact .bind tracked_get fun fr => .pure _
  | snapshot id =>
    exact .bind tracked_get fun fr => .bind (tracked_modifySession _) fun _ => .pure _
  | look id => exact .bind tracked_get fun fr => .pure _
  | tame f =>
    exact .bind (tracked_fault l f) fun f => .bind (.lift fun fr => fr.reaches_tame f) fun v =>
      .bind tracked_store fun s => .pure _
  | setLine line => exact .bind (fun fr => .perform fr (.reach line)) fun _ => .pure _
  | place => exact .bind tracked_get fun fr => .pure _
  | policy => exact .bind tracked_get fun fr => .pure _
  | imports => exact tracked_ofTable _
  | importsObject => exact tracked_created _

/-- Whatever a step builds on the side, it acts on the sandbox by operations. -/
theorem SandboxStep.exists_run (step : SandboxStep) (b : Bench) :
    ∃ ops, (step.run b).2.sandbox = b.sandbox.run ops := by
  cases step with
  | apply op => exact ⟨[op], rfl⟩
  | markup step =>
    rw [SandboxStep.run]
    dsimp only
    split
    · rename_i op _
      exact ⟨[.markup op], rfl⟩
    · exact ⟨[], rfl⟩
  | fragment name steps => exact ⟨[], rfl⟩

theorem exists_run_runSandbox (b : Bench) (steps : List SandboxStep) :
    ∃ ops, (runSandbox b steps).2.sandbox = b.sandbox.run ops := by
  induction steps generalizing b with
  | nil => exact ⟨[], rfl⟩
  | cons step rest ih =>
    obtain ⟨ops, hops⟩ := step.exists_run b
    obtain ⟨more, hmore⟩ := ih (step.run b).2
    refine ⟨ops ++ more, ?_⟩
    rw [Emission.Sandbox.run_append, ← hops, ← hmore]
    rfl

theorem exists_run_runSandboxStrict (b : Bench) (steps : List SandboxStep) :
    ∃ ops, (runSandboxStrict b steps).2.sandbox = b.sandbox.run ops := by
  induction steps generalizing b with
  | nil => exact ⟨[], rfl⟩
  | cons step rest ih =>
    obtain ⟨ops, hops⟩ := step.exists_run b
    rw [runSandboxStrict]
    split
    · rename_i hstep
      rw [hstep] at hops
      exact ⟨ops, hops⟩
    · rename_i b' _ hstep
      rw [hstep] at hops
      obtain ⟨more, hmore⟩ := ih b'
      refine ⟨ops ++ more, ?_⟩
      rw [Emission.Sandbox.run_append, ← hops, ← hmore]

theorem reaches_emit {code σ : Type} (fr : Frame code σ) (ops : List Emission.SandboxOp) :
    fr.Reaches
      { fr with context := { fr.context with sandbox := fr.context.sandbox.run ops } } := by
  induction ops generalizing fr with
  | nil => exact .refl fr
  | cons op rest ih => exact (Frame.Reaches.perform fr (.emit op)).trans (ih _)

theorem tracked_performEmit (strict : Bool) (steps : List SandboxStep) :
    (performEmit strict steps).Tracked := by
  refine .lift fun fr => ?_
  have kept {b : Bench} (h : ∃ ops, b.sandbox = fr.context.sandbox.run ops) :
      fr.Reaches
        { context := { fr.context with sandbox := b.sandbox }
          world :=
            { fr.world with state := { fr.world.state with fragments := b.fragments } } } := by
    obtain ⟨ops, hops⟩ := h
    rw [hops]
    exact (reaches_emit fr ops).trans (.of_scopes_eq rfl)
  cases strict with
  | true =>
    have h := exists_run_runSandboxStrict ⟨fr.context.sandbox, fr.world.state.fragments⟩ steps
    rcases hrun : runSandboxStrict ⟨fr.context.sandbox, fr.world.state.fragments⟩ steps with
      ⟨v | reports, b⟩
    · rw [hrun] at h
      simpa only [if_true, hrun] using kept h
    · rw [hrun] at h
      simpa only [if_true, hrun] using kept h
  | false => exact kept (exists_run_runSandbox ⟨fr.context.sandbox, fr.world.state.fragments⟩ steps)

/-- Every run of a body has a history. -/
def Exec.Tracked (exec : Exec) : Prop :=
  ∀ body l (fr : ScriptFrame), fr.Reaches (exec body l fr).2

theorem reaches_logEntry (e : Entry) (fr : ScriptFrame) : fr.Reaches (logEntry e fr) :=
  .of_scopes_eq rfl

theorem reaches_record (tag : Tag) (result : Except Fault Outcome) (fr : ScriptFrame) :
    fr.Reaches (record tag result fr).2 := by
  unfold record
  split
  · dsimp only
    split
    · exact .of_scopes_eq rfl
    · exact reaches_logEntry _ fr
  · exact reaches_logEntry _ fr

theorem tracked_runNative (n : Native) (receiver : Option Value) (args : List Value) :
    (runNative n receiver args).Tracked := by
  cases n with
  | this => exact .pure _
  | first => exact .pure _
  | count => exact .pure _
  | arguments => exact tracked_create (Arguments.toObject args)
  | rest => exact tracked_create (Arguments.toObject (Arguments.restAfter args 1))
  | set =>
    rw [runNative.eq_def]
    dsimp only
    split
    · exact .bind tracked_store fun s => .bind (tracked_setStore _) fun _ => .pure _
    · exact .pure _
  | fail =>
    exact .bind tracked_store fun s => .bind (tracked_newException _ _ _) fun ex => .throw _

section Inner

variable {inner : Exec} (tracked : inner.Tracked)

include tracked

theorem tracked_runCode : (runCode inner).Tracked := by
  intro c receiver args fr
  cases c with
  | native n => exact tracked_runNative n receiver args fr
  | script name body => exact (reaches_logEntry _ fr).trans (tracked body _ _)

theorem tracked_moduleBody (body : List Statement) : (moduleBody inner body).Tracked :=
  fun table fr => tracked body { imports := table } fr

theorem tracked_performLoad (l : Locals) (moduleId : String) (imports : List ImportExpr) :
    (performLoad inner l moduleId imports).Tracked :=
  .bind tracked_session fun _ =>
    .bind (.lift fun fr discreet =>
      ⟨[], Loader.history_loadWithin discreet (tracked_moduleBody tracked _) moduleId _ fr⟩)
      fun _ => .bind tracked_store fun _ => .pure _

theorem Operation.tracked_perform (strict : Bool) (l : Locals) (op : Operation) :
    (op.perform inner strict l).Tracked := by
  cases op with
  | value op => exact op.tracked_perform l
  | registry op => exact op.tracked_perform l
  | guardian op => exact op.tracked_perform l
  | access op => exact op.tracked_perform l
  | call op => exact op.tracked_perform (tracked_runCode tracked) l
  | context op => exact op.tracked_perform l
  | load moduleId imports => exact tracked_performLoad tracked l moduleId imports
  | emit steps => exact tracked_performEmit strict steps

end Inner

mutual

theorem reaches_execStatement {inner : Exec} (tracked : inner.Tracked) (statement : Statement)
    (l : Locals) (fr : ScriptFrame) :
    fr.Reaches (execStatement inner statement l fr).2 := by
  cases statement with
  | perform tag op =>
    exact (op.tracked_perform tracked tag.leaves l fr).trans (reaches_record tag _ _)
  | define tag name kind origin body =>
    exact (tracked_created (newScripted name kind origin body) fr).trans (reaches_record tag _ _)
  | attempt tag body =>
    have caught : fr.Reaches (catchGuest (fun fr =>
        ((execBody inner body l fr).1.value, (execBody inner body l fr).2)) fr).2 :=
      reaches_catchGuest (reaches_execBody tracked body l fr)
    exact caught.trans (reaches_record tag _ _)
  | within tag moduleId body =>
    rw [execStatement]
    split
    · exact reaches_record tag _ fr
    · rename_i fresh made
      exact (Frame.Reaches.visit made (reaches_execBody tracked body {} fresh)).trans
        (reaches_record tag _ _)
  | finish e => exact .refl fr
  | throw e => exact .refl fr
  | raise f =>
    have h := tracked_fault l f fr
    rw [execStatement]
    split
    all_goals
      rename_i hfault
      rwa [hfault] at h

theorem reaches_execBody {inner : Exec} (tracked : inner.Tracked) (body : List Statement)
    (l : Locals) (fr : ScriptFrame) :
    fr.Reaches (execBody inner body l fr).2 := by
  cases body with
  | nil => exact .refl fr
  | cons statement rest =>
    have first := reaches_execStatement tracked statement l fr
    rw [execBody]
    split
    · rename_i left hstep
      rw [hstep] at first
      exact first.trans (reaches_execBody tracked rest l left)
    · exact first

end

/-- Scripts have a history, however deep their calls and loads are nested. -/
theorem tracked_execAt (depth : Nat) : (execAt depth).Tracked := by
  induction depth with
  | zero => exact fun body l fr => .of_scopes_eq rfl
  | succ depth ih => exact fun body l fr => reaches_execBody ih body l fr

/-- The handlers of script programs write to the log alone. -/
theorem Handling.discreet_report (h : Handling) {l : Loader Code Session}
    (hl : l.report = h.report) : l.Discreet := by
  intro exception moduleId line w
  rw [hl]
  exact .of_eq rfl

end Script

end Confinement
