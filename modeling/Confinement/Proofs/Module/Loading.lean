import Confinement.Proofs.Script.Conduct

/-!
# Loading

A loader that was made in one of the two ways there are can always make a context, so a load fails
only where linking does. Otherwise the body runs once, from a fresh frame, and three things are
settled by its end: the value or the exception, who is told of the latter, and whether the module's
output is released.
-/
namespace Confinement

open Emission

variable {code σ : Type}

namespace Loader

/-- A loader with nothing but a registry and a handler, or one that has been checked. -/
def Ready (l : Loader code σ) : Prop :=
  (∃ registry report, l = { registry, report }) ∨ ∃ draft : Loader code σ, draft.build = .ok l

theorem Ready.isCssIdentifier {l : Loader code σ} (ready : l.Ready) :
    Text.isCssIdentifier l.stem = true := by
  rcases ready with ⟨registry, report, rfl⟩ | ⟨draft, hbuild⟩
  · change Text.isCssIdentifier defaultStem = true
    decide +kernel
  · unfold build at hbuild
    split at hbuild
    · rename_i hstem
      cases hbuild
      exact hstem
    · cases hbuild

theorem Ready.newContext {l : Loader code σ} (ready : l.Ready) (moduleId : String)
    (w : World code σ) : l.newContext moduleId w = .ok (l.fresh moduleId w) :=
  newContext_eq_ok_iff.mpr ⟨ready.isCssIdentifier, rfl⟩

/-- The end of a load whose body ran from `fresh` and left `left` with `result`. A body is any
function between frames, and could replace its sandbox or its scope. The last two parts are about
bodies that act on their context by its operations only, which is what a `History` says; every body
that is a script is one. -/
structure Ended (l : Loader code σ) (moduleId : String) (fresh left : Frame code σ)
    (result : Except Fault (Option Value)) (loaded : Loaded) (w : World code σ) : Prop where
  /-- The handler is not told of a body that completes. -/
  completed : ∀ outcome, result = .ok outcome →
    w = left.world ∧ loaded.outcome = outcome ∧ loaded.uncaught = none ∧
    ∀ s : Store code, loaded.result s = .ok outcome
  /-- The handler is told once of a body that fails: the tamed exception, the module and the line it
  had come to. -/
  failed : ∀ fault, result = .error fault → ∃ exception vault,
    Taming.tame l.policy left.world.vault fault = (exception, vault) ∧
    w = l.report exception moduleId left.context.line { left.world with vault } ∧
    loaded.outcome = none ∧ loaded.uncaught = some ⟨exception, left.context.line⟩ ∧
    ∀ s : Store code, loaded.result s =
      .error (.uncaughtException moduleId left.context.line (Taming.messageOf s exception))
  /-- Of a body that acts by deeds: what is the module's own is as its deeds have made it. -/
  own : ∀ deeds, History fresh deeds left →
    left.context.sandbox = fresh.context.sandbox.run (Deed.emissions deeds) ∧
    left.context.line = Deed.lastLine? deeds ∧
    left.bindings = deeds.foldl Deed.rebind { host := l.hostBindings }
  /-- Of a body that acts by deeds: the output is released unless the body ended with a violation,
  one of the operations failed or aborted the sandbox, or markup is unfinished. -/
  released : ∀ deeds, History fresh deeds left →
    (loaded.output.isSome = true ↔
      (∀ v, result ≠ .error (.structuralViolation v)) ∧
      (∀ before op after, Deed.emissions deeds = before ++ op :: after →
        ¬ (fresh.context.sandbox.run before).Breaks op) ∧
      left.context.sandbox.markup.IsComplete)

theorem fresh_bindings (l : Loader code σ) (moduleId : String) (w : World code σ) :
    (l.fresh moduleId w).bindings = { host := l.hostBindings } := by
  simp [Frame.bindings, fresh]

theorem own_of_history {l : Loader code σ} {moduleId : String} {w : World code σ}
    {deeds : List Deed} {left : Frame code σ} (h : History (l.fresh moduleId w) deeds left) :
    left.context.sandbox =
      (l.fresh moduleId w).context.sandbox.run (Deed.emissions deeds) ∧
    left.context.line = Deed.lastLine? deeds ∧
    left.bindings = deeds.foldl Deed.rebind { host := l.hostBindings } := by
  have follows := h.follows (placed_fresh l moduleId w)
  refine ⟨follows.sandbox, ?_, ?_⟩
  · rw [follows.line]
    exact Option.or_none
  · rw [follows.bindings_eq, fresh_bindings]

/-- A violation that ends the body aborts the sandbox, whatever its state. -/
theorem finish_sandboxAfter_violation (fr : Frame code σ) (v : Violation) :
    (sandboxAfter fr (.error (.structuralViolation v))).finish.toOption = none := by
  obtain ⟨reason, haborted⟩ := fr.context.sandbox.exists_aborted_abort v
  rw [sandboxAfter, Sandbox.finish_of_aborted haborted]
  rfl

theorem sandboxAfter_of_ne {result : Except Fault (Option Value)}
    (h : ∀ v, result ≠ .error (.structuralViolation v)) (fr : Frame code σ) :
    sandboxAfter fr result = fr.context.sandbox := by
  unfold sandboxAfter
  split
  · exact absurd rfl (h _)
  · rfl

theorem isSome_finish_sandboxAfter_iff {l : Loader code σ} {moduleId : String} {w : World code σ}
    {deeds : List Deed} {left : Frame code σ} (h : History (l.fresh moduleId w) deeds left)
    (result : Except Fault (Option Value)) :
    (sandboxAfter left result).finish.toOption.isSome = true ↔
      (∀ v, result ≠ .error (.structuralViolation v)) ∧
      (∀ before op after, Deed.emissions deeds = before ++ op :: after →
        ¬ ((l.fresh moduleId w).context.sandbox.run before).Breaks op) ∧
      left.context.sandbox.markup.IsComplete := by
  by_cases hviolation : ∃ v, result = .error (.structuralViolation v)
  · obtain ⟨v, rfl⟩ := hviolation
    rw [finish_sandboxAfter_violation]
    exact iff_of_false (fun hsome => nomatch hsome) fun hnever => hnever.1 v rfl
  · have hne : ∀ v, result ≠ .error (.structuralViolation v) := fun v hv => hviolation ⟨v, hv⟩
    rw [sandboxAfter_of_ne hne, (own_of_history h).1, and_iff_right hne]
    exact Sandbox.isSome_finish_run_iff _ _

/-- A linked body runs once, and the load ends as its run says. -/
theorem exists_ended (l : Loader code σ) {moduleId : String} (body : ModuleBody code σ)
    {imports : List Import} {w : World code σ} {table : Table Value} {s : Store code}
    (hlink : Import.table w.store imports = .ok (table, s))
    (hnew : l.newContext moduleId (w.withStore s) = .ok (l.fresh moduleId (w.withStore s))) :
    ∃ loaded w', l.load moduleId body imports w = (.ok loaded, w') ∧
      l.Ended moduleId (l.fresh moduleId (w.withStore s))
        (body table (l.fresh moduleId (w.withStore s))).2
        (body table (l.fresh moduleId (w.withStore s))).1 loaded w' := by
  rcases hbody : body table (l.fresh moduleId (w.withStore s)) with ⟨fault | outcome, left⟩
  · refine ⟨_, _, load_of_failed hlink hnew hbody, ?_, ?_, fun deeds h => own_of_history h,
      fun deeds h => isSome_finish_sandboxAfter_iff h _⟩
    · intro outcome hok
      cases hok
    · intro fault' hfault
      cases hfault
      exact ⟨_, _, rfl, rfl, rfl, rfl, fun s => rfl⟩
  · refine ⟨_, _, load_of_completed hlink hnew hbody, ?_, ?_, fun deeds h => own_of_history h,
      fun deeds h => isSome_finish_sandboxAfter_iff h (.ok outcome)⟩
    · intro outcome' hok
      cases hok
      exact ⟨rfl, rfl, rfl, fun s => rfl⟩
    · intro fault hfault
      cases hfault

/-- What a load promises. It fails exactly where linking does, and then the world is untouched,
whatever the body and the handler would do. Otherwise the body runs once from a fresh frame and the
load ends as `Ended` says. A load that the body performs on its way, of any module and by any loader
with a discreet handler, leaves the context and the bindings of the module as they are and adds
nothing to its deeds. -/
theorem load_keeps_contract (l : Loader code σ) (ready : l.Ready) (moduleId : String)
    (body : ModuleBody code σ) (imports : List Import) (w : World code σ) :
    (∀ fault, Import.table w.store imports = .error fault →
      l.load moduleId body imports w = (.error fault, w)) ∧
    ∀ table s, Import.table w.store imports = .ok (table, s) →
      ∃ fresh loaded w', l.newContext moduleId (w.withStore s) = .ok fresh ∧
        l.load moduleId body imports w = (.ok loaded, w') ∧
        l.Ended moduleId fresh (body table fresh).2 (body table fresh).1 loaded w' ∧
        ∀ deeds fr, History fresh deeds fr →
          ∀ (other : Loader code σ) (otherId : String) (nested : ModuleBody code σ)
            (others : List Import), other.Discreet → nested.Tracked →
            (other.loadWithin otherId nested others fr).2.context = fr.context ∧
            (other.loadWithin otherId nested others fr).2.bindings = fr.bindings ∧
            History fresh deeds (other.loadWithin otherId nested others fr).2 := by
  refine ⟨fun fault hlink => load_of_table_error hlink l moduleId body, fun table s hlink => ?_⟩
  have hnew := ready.newContext moduleId (w.withStore s)
  obtain ⟨loaded, w', hload, ended⟩ := exists_ended l body hlink hnew
  refine ⟨_, loaded, w', hnew, hload, ended, ?_⟩
  intro deeds fr h other otherId nested others discreet tracked
  have placed : fr.Placed := (h.follows (placed_fresh l moduleId _)).placed
  have step := history_loadWithin discreet tracked otherId others fr
  have after := h.trans step
  rw [List.append_nil] at after
  exact ⟨rfl, (step.follows placed).bindings_eq, after⟩

/-- A loader with an empty registry that logs what ends a module. -/
def defaultLoader : Loader Script.Code Script.Session :=
  { registry := .empty, report := Script.Handling.log.report }

/-- A script that records a line, assigns a name that its caller assigns too, and throws. -/
def failing : ModuleBody Script.Code Script.Session :=
  Script.moduleBody (Script.execAt 1)
    [.perform ⟨"line", none, false⟩ (.context (.setLine 3)),
      .perform ⟨"assign", none, false⟩ (.context (.writeOuter "n" (.literal (.boolean true)))),
      .throw (.literal (.string "message"))]

/-- The deeds of the outer body: a refused text inside of a start tag, then a line and a name. -/
def completingDeeds : List Deed :=
  [.emit (.markup (.beginTag "p")), .emit (.markup (.addText "x")), .reach 8,
    .assign "n" (.boolean false)]

/-- A body that ignores the refusal, loads a module that fails, and completes. -/
def completing : ModuleBody Script.Code Script.Session := fun _ fr =>
  (.ok none,
    (defaultLoader.loadWithin "inner" failing [] (completingDeeds.foldl Frame.perform fr)).2)

/-- The outer module completes, but its output is not released, and its binding is the one that it
assigned itself. Loaded alone, the inner one ends with the exception at its own line. -/
theorem load_keeps_contract_of_nested_load :
    defaultLoader.Ready ∧ defaultLoader.Discreet ∧ failing.Tracked ∧
    (∃ loaded w', defaultLoader.load "outer" completing [] { state := {} } = (.ok loaded, w') ∧
      loaded.uncaught.isNone = true ∧ loaded.output.isSome = false ∧
      ((w'.scopes[0]?).getD ({} : Bindings)).declared.entries = [("n", .boolean false)]) ∧
    ∃ loaded w', defaultLoader.load "inner" failing [] { state := {} } = (.ok loaded, w') ∧
      loaded.uncaught = some ⟨.string "message", some 3⟩ := by
  have ready : defaultLoader.Ready := .inl ⟨.empty, Script.Handling.log.report, rfl⟩
  have discreet : defaultLoader.Discreet := Script.Handling.log.discreet_report rfl
  have tracked : failing.Tracked := Script.tracked_moduleBody (Script.tracked_execAt 1) _
  refine ⟨ready, discreet, tracked, ?_, ?_⟩
  · obtain ⟨fresh, loaded, w', hnew, hload, ended, nested⟩ :=
      (load_keeps_contract defaultLoader ready "outer" completing [] { state := {} }).2
        .empty {} rfl
    obtain ⟨-, rfl⟩ := newContext_eq_ok_iff.mp hnew
    have own := ((((History.nil (defaultLoader.fresh "outer" { state := {} })).deed
      (.emit (.markup (.beginTag "p")))).deed (.emit (.markup (.addText "x")))).deed
      (.reach 8)).deed (.assign "n" (.boolean false))
    have history := (nested _ _ own defaultLoader "inner" failing [] discreet tracked).2.2
    obtain ⟨hworld, -, huncaught, -⟩ := ended.completed none rfl
    refine ⟨loaded, w', hload, ?_, ?_, ?_⟩
    · rw [huncaught]
      rfl
    · refine Bool.eq_false_iff.mpr fun hsome => ?_
      have unbroken := ((ended.released completingDeeds history).mp hsome).2.1
      refine unbroken [.markup (.beginTag "p")] (.markup (.addText "x")) [] rfl (.inr ?_)
      decide +kernel
    · rw [hworld]
      exact congrArg (fun b => b.declared.entries) (ended.own completingDeeds history).2.2
  · obtain ⟨fresh, loaded, w', hnew, hload, ended, -⟩ :=
      (load_keeps_contract defaultLoader ready "inner" failing [] { state := {} }).2 .empty {} rfl
    obtain ⟨-, rfl⟩ := newContext_eq_ok_iff.mp hnew
    obtain ⟨exception, vault, htame, -, -, huncaught, -⟩ :=
      ended.failed (.thrown (.string "message")) rfl
    cases htame
    exact ⟨loaded, w', hload, huncaught⟩

end Loader

end Confinement
