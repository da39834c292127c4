import Confinement.Proofs.Script.Operation
import Confinement.Proofs.Store.Recursion

/-!
# Scripts take steps

Whatever a script does, it changes the store by steps alone, however deep its calls and loads are
nested. So the store of every program has come about by steps from the empty one, and all chains in
it end.
-/
namespace Confinement.Script

open Act Outcome

/-- The locals of function code that is run with this receiver and these arguments. -/
theorem holds_locals {s : Store Code} {receiver : Option Value} {args : List Value}
    (held : ∀ v ∈ receiver.toList ++ args, s.Holds v) :
    ∀ v ∈ ({ args, receiver } : Locals).values, s.Holds v := by
  obtain ⟨hreceiver, hargs⟩ := List.forall_mem_append.mp held
  refine List.forall_mem_append.mpr ⟨List.forall_mem_append.mpr ⟨hargs, hreceiver⟩, ?_⟩
  exact List.forall_mem_nil _

theorem safe_argumentsObject {l : Locals} {args : List Value}
    (h : ∀ s : Store Code, (∀ v ∈ l.values ++ [], s.Holds v) → ∀ v ∈ args, s.Holds v) :
    (create (Arguments.toObject args)).Safe l [] fun v => [v] :=
  safe_create fun s held => Store.toObject_yields (h s held)

theorem safe_runNative (n : Native) (receiver : Option Value) (args : List Value) :
    (runNative n receiver args).Safe { args, receiver } [] fun v => [v] := by
  have hargs (s : Store Code) (held : ∀ v ∈ ({ args, receiver } : Locals).values ++ [], s.Holds v)
      (v : Value) (hv : v ∈ args) : s.Holds v := held v (by simp [Locals.values, hv])
  cases n with
  | this =>
    intro fr sound held
    refine .refl sound (List.forall_mem_singleton.mpr ?_)
    cases receiver with
    | none => trivial
    | some v => exact held v (by simp [Locals.values])
  | first =>
    intro fr sound held
    exact .refl sound (List.forall_mem_singleton.mpr (Store.holds_get (hargs _ held) 0))
  | count =>
    intro fr sound held
    exact .refl sound (List.forall_mem_singleton.mpr trivial)
  | arguments => exact safe_argumentsObject hargs
  | rest =>
    refine safe_argumentsObject fun s held => Store.holds_normalize fun v hv => ?_
    exact hargs s held v (List.mem_of_mem_drop hv)
  | set =>
    rw [runNative.eq_def]
    dsimp only
    split
    · rename_i id
      intro fr sound held
      have given := Store.holds_get (hargs _ held) 1
      exact .changed sound (.single (.assign id _ _ given)) (List.forall_mem_singleton.mpr trivial)
    · intro fr sound held
      exact .refl sound (List.forall_mem_singleton.mpr trivial)
  | fail =>
    refine .bind safe_store fun _ => .bind (safe_newException _ _ fun s held v hv => ?_) fun ex =>
      .throw fun v hv => List.mem_append_right _ hv
    simp only [List.map_cons, List.map_nil, List.mem_cons, List.not_mem_nil, or_false] at hv
    rcases hv with rfl | rfl | rfl
    · trivial
    · exact Store.holds_get (hargs s held) 1
    · exact Store.holds_get (hargs s held) 2

/-- What comes of running a body in the frame. -/
def Follows (fr : ScriptFrame) (out : Flow × ScriptFrame) : Prop :=
  Sequel fr Option.toList (out.1.result, out.2)

theorem Follows.value {fr left : ScriptFrame} {flow : Flow} (h : Follows fr (flow, left)) :
    Sequel fr (fun v => [v]) (flow.value, left) := by
  cases flow with
  | next => exact ⟨h.steps, h.sound, List.forall_mem_singleton.mpr trivial⟩
  | returned v => exact h.recast fun _ hv => hv
  | left fault => exact h.recast fun _ hv => hv

/-- Plain bodies are run in sound frames. -/
def Exec.Sound (exec : Exec) : Prop :=
  ∀ body l (fr : ScriptFrame), Plain body → fr.Sound → (∀ v ∈ l.values, fr.store.Holds v) →
    Follows fr (exec body l fr)

theorem sound_logEntry {fr : ScriptFrame} (sound : fr.Sound) (e : Entry) : (logEntry e fr).Sound :=
  sound.next .refl (fun _ hv => .inl hv) rfl rfl

theorem follows_record (tag : Tag) {result : Except Fault Outcome} {fr left : ScriptFrame}
    (h : Sequel fr Outcome.values (result, left)) : Follows fr (record tag result left) := by
  cases result with
  | error fault =>
    have logged (e : Entry) : (logEntry e left).Sound := sound_logEntry h.sound e
    unfold record
    dsimp only
    split
    · exact ⟨h.steps, logged _, h.held⟩
    · exact ⟨h.steps, logged _, List.forall_mem_nil _⟩
  | ok outcome =>
    have logged := sound_logEntry h.sound (.done tag.name outcome.answer)
    unfold record
    dsimp only
    split
    · rename_i name v hyield
      refine ⟨h.steps, logged.next .refl (fun w hw => ?_) rfl rfl, List.forall_mem_nil _⟩
      rcases hw with hrecord | hscope | hvar | hother
      · exact .inl (.record hrecord)
      · exact .inl (.scope hscope)
      · rcases Table.mem_values_insert hvar with rfl | hold
        · exact .inr (h.held w (by simp [handed, Outcome.values, hyield]))
        · exact .inl (.var hold)
      · exact .inl (.inr (.inr (.inr hother)))
    · exact ⟨h.steps, logged, List.forall_mem_nil _⟩

section Inner

variable {inner : Exec} (runs : inner.Sound)

include runs

theorem sound_runCode : (runCode inner).Sound := by
  intro c receiver args fr plain sound held
  have locals := holds_locals held
  cases c with
  | native n => exact safe_runNative n receiver args fr sound (by simpa using locals)
  | script name body =>
    have ran := runs body { args, receiver } _ plain
      (sound_logEntry sound (.enter name (receiver.map (shownIn fr.store))
        (args.map (shownIn fr.store)) fr.context.moduleId)) locals
    exact ⟨ran.steps, ran.value.sound, ran.value.held⟩

theorem safe_loadWithin {l : Locals} {given : List Value} (moduleId : String)
    {body : List Statement} (plain : Plain body) (imports : List Import)
    (h : ∀ i ∈ imports, i.value ∈ l.values ++ given) :
    (Act.lift fun fr => fr.context.loader.loadWithin moduleId (moduleBody inner body) imports
      fr).Safe l given fun loaded => loaded.outcome.toList := by
  intro fr sound held
  show Sequel fr _ (fr.context.loader.loadWithin moduleId (moduleBody inner body) imports fr)
  refine sound.loadWithin (fun i hi => held i.value (h i hi)) fun table fresh started himports => ?_
  exact runs body { imports := table } fresh plain started (by simpa [Locals.values] using himports)

theorem safe_performLoad {l : Locals} (moduleId : String) {imports : List ImportExpr}
    (plain : ∀ e ∈ imports.map ImportExpr.value, e.Plain) :
    (performLoad inner l moduleId imports).Safe l [] Outcome.values := by
  intro fr sound held
  have hbody : Plain ((fr.world.state.modules.find? moduleId).getD []) := by
    cases hfound : fr.world.state.modules.find? moduleId with
    | none => exact List.forall_mem_nil _
    | some body => exact sound.modules body (Table.mem_values_of_find? hfound)
  let linked : List Import := imports.map fun i =>
    { name := i.name, value := eval l fr.world.state i.value, allow := i.allow }
  have hlinked : ∀ v ∈ l.values ++ linked.map Import.value, fr.store.Holds v := by
    obtain ⟨locals, -⟩ := List.forall_mem_append.mp held
    refine List.forall_mem_append.mpr ⟨locals, fun v hv => ?_⟩
    obtain ⟨i, hi, rfl⟩ := List.mem_map.mp hv
    obtain ⟨e, he, rfl⟩ := List.mem_map.mp hi
    exact holds_eval sound locals (plain e.value (List.mem_map.mpr ⟨e, he, rfl⟩))
  have hload {i : Import} (hi : i ∈ linked) : i.value ∈ l.values ++ linked.map Import.value :=
    List.mem_append_right _ (List.mem_map.mpr ⟨i, hi, rfl⟩)
  have hsession : session fr = (.ok fr.world.state, fr) := rfl
  rw [performLoad, bind_of_ok hsession]
  refine Safe.bind (safe_loadWithin runs moduleId hbody linked fun i hi => hload hi)
    (fun loaded => .bind safe_store fun s => .pure fun v hv => ?_) fr sound hlinked
  exact List.mem_append_right _ (List.mem_append_left _ (List.mem_append_right _ hv))

theorem Operation.safe_perform (strict : Bool) {l : Locals} {op : Operation}
    (plain : ∀ e ∈ op.exprs, e.Plain) :
    (op.perform inner strict l).Safe l [] Outcome.values := by
  cases op with
  | value op => exact ValueOp.safe_perform plain
  | registry op => exact RegistryOp.safe_perform plain
  | guardian op => exact GuardianOp.safe_perform plain
  | access op => exact AccessOp.safe_perform plain
  | call op => exact CallOp.safe_perform (sound_runCode runs) plain
  | context op => exact ContextOp.safe_perform plain
  | load moduleId imports => exact safe_performLoad runs moduleId plain
  | emit steps => exact safe_performEmit strict steps

end Inner

theorem newScripted_yields (s : Store Code) (name : Option String) (kind : FunctionKind)
    (origin : FunctionOrigin) {body : List Statement} (plain : Plain body) :
    s.Yields Code.Plain [(newScripted name kind origin body s).1]
      (newScripted name kind origin body s).2 := by
  cases origin with
  | guest | host =>
    refine .single (.function _ _ _ _ _ _ rfl fun c hc => ?_) (s.holds_newFunction _ _ _ _ _ _)
    cases hc
    exact plain

mutual

theorem follows_execStatement {inner : Exec} (runs : inner.Sound) (statement : Statement)
    (plain : ∀ e ∈ statement.exprs, e.Plain) (l : Locals) (fr : ScriptFrame) (sound : fr.Sound)
    (held : ∀ v ∈ l.values, fr.store.Holds v) :
    Follows fr (execStatement inner statement l fr) := by
  have locals : ∀ v ∈ l.values ++ [], fr.store.Holds v := by simpa using held
  cases statement with
  | perform tag op =>
    rw [Statement.exprs] at plain
    exact follows_record tag (Operation.safe_perform runs tag.leaves plain fr sound locals)
  | define tag name kind origin body =>
    rw [Statement.exprs] at plain
    have made : (created (newScripted name kind origin body)).Safe l [] Outcome.values :=
      safe_created fun s _ => newScripted_yields s name kind origin plain
    exact follows_record tag (made fr sound locals)
  | attempt tag body =>
    rw [Statement.exprs] at plain
    have caught : Sequel fr CatchOutcome.values (catchGuest (fun fr =>
        ((execBody inner body l fr).1.value, (execBody inner body l fr).2)) fr) :=
      .catchGuest (follows_execBody runs body plain l fr sound held).value
    refine follows_record tag (caught.map fun outcome => ?_)
    cases outcome <;> rfl
  | within tag moduleId body =>
    rw [Statement.exprs] at plain
    rw [execStatement]
    split
    · rename_i fault hnew
      exact follows_record tag (.refuse sound (Loader.values_of_newContext_eq_error hnew))
    · rename_i fresh hnew
      obtain ⟨-, hfresh⟩ := Loader.newContext_eq_ok_iff.mp hnew
      have started : fresh.Sound := hfresh ▸ sound.fresh moduleId
      have ran := follows_execBody runs body plain {} fresh started (List.forall_mem_nil _)
      have hstore : fresh.store = fr.store := by rw [← hfresh]; rfl
      have steps := hstore ▸ ran.steps
      have left : Sequel fr Option.toList ((execBody inner body {} fresh).1.result,
          { fr with world := (execBody inner body {} fresh).2.world }) :=
        ⟨steps, sound.rejoin ran.sound steps, ran.held⟩
      exact follows_record tag (left.map fun _ => rfl)
  | finish e | throw e =>
    rw [Statement.exprs] at plain
    exact .refl sound (List.forall_mem_singleton.mpr
      (holds_eval sound held (plain e List.mem_cons_self)))
  | raise f =>
    rw [Statement.exprs] at plain
    have raised := safe_fault plain fr sound locals
    rw [execStatement]
    split
    all_goals
      rename_i hfault
      rw [hfault] at raised
      exact raised.recast fun _ hv => hv

theorem follows_execBody {inner : Exec} (runs : inner.Sound) (body : List Statement)
    (plain : Plain body) (l : Locals) (fr : ScriptFrame) (sound : fr.Sound)
    (held : ∀ v ∈ l.values, fr.store.Holds v) :
    Follows fr (execBody inner body l fr) := by
  cases body with
  | nil => exact .refl sound (List.forall_mem_nil _)
  | cons statement rest =>
    rw [Plain, bodyExprs] at plain
    obtain ⟨hfirst, hrest⟩ := List.forall_mem_append.mp plain
    have first := follows_execStatement runs statement hfirst l fr sound held
    rw [execBody]
    split
    · rename_i left hstep
      rw [hstep] at first
      exact first.trans (follows_execBody runs rest hrest l left first.sound
        fun v hv => first.steps.lasts.holds (held v hv))
    · exact first

end

/-- Scripts take steps, however deep their calls and loads are nested. -/
theorem sound_execAt (depth : Nat) : (execAt depth).Sound := by
  induction depth with
  | zero =>
    intro body l fr plain sound held
    exact ⟨.refl, sound.next .refl (fun _ hv => .inl hv) rfl rfl, List.forall_mem_nil _⟩
  | succ depth ih =>
    intro body l fr plain sound held
    exact follows_execBody ih body plain l fr sound held

end Confinement.Script
