import Confinement.Module.Loader
import Confinement.Proofs.Emission.Sandbox

/-!
# What a module does

A running module has a sandbox, a line and outer bindings of its own, and acts on them by deeds. All
else that happens meanwhile leaves them alone: steps that change no scope that exists, and work in a
context that was made for it. A history lists the deeds in order. Other modules may be loaded in its
course, to any depth, and still the deeds alone say what becomes of the module's own things.
-/
namespace Confinement

open Emission

variable {code σ : Type}

/-- What a running module does to something of its own. -/
inductive Deed where
  | emit (op : SandboxOp)
  | reach (line : Nat)
  | declare (name : String)
  | assign (name : String) (v : Value)

namespace Deed

def emission? : Deed → Option SandboxOp
  | .emit op => some op
  | .reach _ | .declare _ | .assign _ _ => none

def line? : Deed → Option Nat
  | .reach line => some line
  | .emit _ | .declare _ | .assign _ _ => none

/-- The outer bindings after the deed, be it done or refused. -/
def rebind (b : Bindings) : Deed → Bindings
  | .declare name => (b.init name).2
  | .assign name v => (b.write name v).2
  | .emit _ | .reach _ => b

/-- The operations on the sandbox, in order. -/
def emissions (deeds : List Deed) : List SandboxOp := deeds.filterMap emission?

def lastLine? (deeds : List Deed) : Option Nat := (deeds.filterMap line?).getLast?

theorem emissions_concat (deeds : List Deed) (d : Deed) :
    emissions (deeds ++ [d]) = emissions deeds ++ d.emission?.toList := by
  rw [emissions, List.filterMap_append]
  cases h : d.emission? <;> simp [h, emissions]

theorem lastLine?_concat (deeds : List Deed) (d : Deed) :
    lastLine? (deeds ++ [d]) = d.line?.or (lastLine? deeds) := by
  rw [lastLine?, List.filterMap_append]
  cases h : d.line? <;> simp [h, lastLine?]

end Deed

/-- No scope of the first world is changed or missing in the second. -/
def World.Retains (w w' : World code σ) : Prop :=
  ∀ (i : Nat) (b : Bindings), w.scopes[i]? = some b → w'.scopes[i]? = some b

theorem World.Retains.of_eq {w w' : World code σ} (h : w'.scopes = w.scopes) : w.Retains w' :=
  fun i b hi => by rwa [h]

/-- The handler of a loader leaves the scopes of all modules alone. -/
def Loader.Discreet (l : Loader code σ) : Prop :=
  ∀ exception moduleId line (w : World code σ), w.Retains (l.report exception moduleId line w)

/-- The frame in which a module starts. -/
def Loader.fresh (l : Loader code σ) (moduleId : String) (w : World code σ) : Frame code σ where
  context :=
    { moduleId, loader := l, scope := w.scopes.size
      sandbox := .new ⟨l.stem, w.guids (w.tokens + 1)⟩ }
  world := { w with scopes := w.scopes.push { host := l.hostBindings }, tokens := w.tokens + 1 }

theorem Loader.newContext_eq_ok_iff {l : Loader code σ} {moduleId : String} {w : World code σ}
    {fr : Frame code σ} :
    l.newContext moduleId w = .ok fr ↔ Text.isCssIdentifier l.stem = true ∧
      l.fresh moduleId w = fr := by
  rw [newContext, Token.make?]
  cases Text.isCssIdentifier l.stem <;> simp [fresh]

namespace Frame

/-- The scope of the running module exists. -/
def Placed (fr : Frame code σ) : Prop := fr.context.scope < fr.world.scopes.size

def perform (fr : Frame code σ) : Deed → Frame code σ
  | .emit op =>
    { fr with context := { fr.context with sandbox := (fr.context.sandbox.apply op).2 } }
  | .reach line => { fr with context := { fr.context with line := some line } }
  | .declare name => fr.withBindings (Deed.rebind fr.bindings (.declare name))
  | .assign name v => fr.withBindings (Deed.rebind fr.bindings (.assign name v))

/-- From the first frame to the second nothing of the running module's own has changed, nor any
other scope. The store, the registry and the state of running code may have. -/
structure Aside (fr fr' : Frame code σ) : Prop where
  scope : fr'.context.scope = fr.context.scope
  sandbox : fr'.context.sandbox = fr.context.sandbox
  line : fr'.context.line = fr.context.line
  report : fr'.context.loader.report = fr.context.loader.report
  retains : fr.world.Retains fr'.world

/-- A new world in which every scope is as it was. -/
theorem Aside.of_retains {fr : Frame code σ} {w : World code σ} (h : fr.world.Retains w) :
    fr.Aside { fr with world := w } := ⟨rfl, rfl, rfl, rfl, h⟩

theorem Aside.withStore (fr : Frame code σ) (s : Store code) : fr.Aside (fr.withStore s) :=
  .of_retains (.of_eq rfl)

end Frame

/-- `History fr deeds fr'`: code that started in `fr` has come to `fr'`, and on the way did `deeds`
to what is its own. -/
inductive History : Frame code σ → List Deed → Frame code σ → Prop
  | nil (fr : Frame code σ) : History fr [] fr
  | deed {fr fr' : Frame code σ} {deeds : List Deed} (before : History fr deeds fr') (d : Deed) :
      History fr (deeds ++ [d]) (fr'.perform d)
  | aside {fr fr' fr'' : Frame code σ} {deeds : List Deed} (before : History fr deeds fr')
      (step : fr'.Aside fr'') : History fr deeds fr''
  /-- Work in a context of its own, after which the code goes on in its former one. -/
  | visit {fr fr' : Frame code σ} {deeds : List Deed} {l : Loader code σ} {moduleId : String}
      {fresh left : Frame code σ} {own : List Deed} (before : History fr deeds fr')
      (made : l.newContext moduleId fr'.world = .ok fresh) (work : History fresh own left) :
      History fr deeds { fr' with world := left.world }

/-- What the deeds of a module have made of what is its own, all other scopes being as before. -/
structure Follows (fr : Frame code σ) (deeds : List Deed) (fr' : Frame code σ) : Prop where
  scope : fr'.context.scope = fr.context.scope
  sandbox : fr'.context.sandbox = fr.context.sandbox.run (Deed.emissions deeds)
  line : fr'.context.line = (Deed.lastLine? deeds).or fr.context.line
  bindings : fr'.world.scopes[fr.context.scope]? = some (deeds.foldl Deed.rebind fr.bindings)
  others : ∀ (i : Nat) (b : Bindings), i ≠ fr.context.scope → fr.world.scopes[i]? = some b →
    fr'.world.scopes[i]? = some b

namespace Follows

theorem refl {fr : Frame code σ} (placed : fr.Placed) : Follows fr [] fr := by
  refine ⟨rfl, rfl, rfl, ?_, fun i b _ h => h⟩
  rw [List.foldl_nil, Frame.bindings, Array.getElem?_eq_getElem placed, Option.getD_some]

theorem placed {fr fr' : Frame code σ} {deeds : List Deed} (h : Follows fr deeds fr') :
    fr'.Placed := by
  rw [Frame.Placed, h.scope]
  exact (Array.getElem?_eq_some_iff.mp h.bindings).1

theorem bindings_eq {fr fr' : Frame code σ} {deeds : List Deed} (h : Follows fr deeds fr') :
    fr'.bindings = deeds.foldl Deed.rebind fr.bindings := by
  rw [Frame.bindings, h.scope, h.bindings, Option.getD_some]

theorem aside {fr fr' fr'' : Frame code σ} {deeds : List Deed} (h : Follows fr deeds fr')
    (step : fr'.Aside fr'') : Follows fr deeds fr'' where
  scope := step.scope.trans h.scope
  sandbox := step.sandbox.trans h.sandbox
  line := step.line.trans h.line
  bindings := step.retains _ _ h.bindings
  others i b hi hb := step.retains _ _ (h.others i b hi hb)

/-- A change of the outer bindings by `d`, which does nothing else. -/
theorem rebind {fr fr' : Frame code σ} {deeds : List Deed} (h : Follows fr deeds fr') {d : Deed}
    (hemission : d.emission? = none) (hline : d.line? = none) :
    Follows fr (deeds ++ [d]) (fr'.withBindings (Deed.rebind fr'.bindings d)) where
  scope := h.scope
  sandbox := by
    rw [Deed.emissions_concat, hemission, Option.toList_none, List.append_nil]
    exact h.sandbox
  line := by
    rw [Deed.lastLine?_concat, hline, Option.none_or]
    exact h.line
  bindings := by
    have hsize : fr.context.scope < fr'.world.scopes.size := h.scope ▸ h.placed
    rw [List.foldl_append, ← h.bindings_eq, Frame.withBindings, h.scope]
    simp [hsize]
  others i b hi hb := by
    rw [Frame.withBindings, h.scope]
    simp [Array.getElem?_setIfInBounds_ne (Ne.symm hi), h.others i b hi hb]

theorem deed {fr fr' : Frame code σ} {deeds : List Deed} (h : Follows fr deeds fr') (d : Deed) :
    Follows fr (deeds ++ [d]) (fr'.perform d) := by
  have hbindings : fr'.world.scopes[fr.context.scope]? =
      some (deeds.foldl Deed.rebind fr.bindings) := h.bindings
  cases d with
  | emit op =>
    refine ⟨h.scope, ?_, ?_, by rwa [List.foldl_append], h.others⟩
    · rw [Deed.emissions_concat, Sandbox.run_append, ← h.sandbox]
      rfl
    · rw [Deed.lastLine?_concat]
      exact h.line
  | reach line =>
    refine ⟨h.scope, ?_, ?_, by rwa [List.foldl_append], h.others⟩
    · rw [Deed.emissions_concat, Sandbox.run_append, ← h.sandbox]
      rfl
    · rw [Deed.lastLine?_concat]
      rfl
  | declare name => exact h.rebind rfl rfl
  | assign name v => exact h.rebind rfl rfl

end Follows

namespace Loader

theorem placed_fresh (l : Loader code σ) (moduleId : String) (w : World code σ) :
    (l.fresh moduleId w).Placed := by
  simp [Frame.Placed, fresh]

/-- A module that acts on its own scope alone leaves those that were there before it. -/
theorem retains_of_follows {l : Loader code σ} {moduleId : String} {w : World code σ}
    {own : List Deed} {left : Frame code σ} (h : Follows (l.fresh moduleId w) own left) :
    w.Retains left.world := by
  intro i b hi
  have hlt : i < w.scopes.size := (Array.getElem?_eq_some_iff.mp hi).1
  refine h.others i b (Nat.ne_of_lt hlt) ?_
  rwa [fresh, Array.getElem?_push_lt hlt, ← Array.getElem?_eq_getElem hlt]

end Loader

namespace History

theorem trans {fr₁ fr₂ fr₃ : Frame code σ} {deeds more : List Deed} (h : History fr₁ deeds fr₂)
    (h' : History fr₂ more fr₃) : History fr₁ (deeds ++ more) fr₃ := by
  induction h' with
  | nil fr => rwa [List.append_nil]
  | deed before d ih =>
    rw [← List.append_assoc]
    exact (ih h).deed d
  | aside before step ih => exact (ih h).aside step
  | visit before made work ih _ => exact (ih h).visit made work

theorem report_eq {fr fr' : Frame code σ} {deeds : List Deed} (h : History fr deeds fr') :
    fr'.context.loader.report = fr.context.loader.report := by
  induction h with
  | nil fr => rfl
  | deed before d ih => cases d <;> exact ih
  | aside before step ih => exact step.report.trans ih
  | visit before made work ih _ => exact ih

/-- The deeds of a module say what has become of its own, whatever else went on. -/
theorem follows {fr fr' : Frame code σ} {deeds : List Deed} (h : History fr deeds fr')
    (placed : fr.Placed) : Follows fr deeds fr' := by
  induction h with
  | nil fr => exact .refl placed
  | deed before d ih => exact (ih placed).deed d
  | aside before step ih => exact (ih placed).aside step
  | visit before made work ih ihWork =>
    -- the visited context got a scope behind all that exist
    obtain ⟨-, rfl⟩ := Loader.newContext_eq_ok_iff.mp made
    have retained := Loader.retains_of_follows (ihWork (Loader.placed_fresh _ _ _))
    exact (ih placed).aside (.of_retains retained)

end History

/-- There is a history from the first frame to the second, as long as no handler meddles with the
scopes of modules. -/
def Frame.Reaches (fr fr' : Frame code σ) : Prop :=
  fr.context.loader.Discreet → ∃ deeds, History fr deeds fr'

namespace Frame.Reaches

theorem refl (fr : Frame code σ) : fr.Reaches fr := fun _ => ⟨[], .nil fr⟩

theorem trans {fr₁ fr₂ fr₃ : Frame code σ} (h : fr₁.Reaches fr₂) (h' : fr₂.Reaches fr₃) :
    fr₁.Reaches fr₃ := by
  intro discreet
  obtain ⟨deeds, first⟩ := h discreet
  have still : fr₂.context.loader.Discreet := by rwa [Loader.Discreet, first.report_eq]
  obtain ⟨more, second⟩ := h' still
  exact ⟨deeds ++ more, first.trans second⟩

theorem of_aside {fr fr' : Frame code σ} (h : fr.Aside fr') : fr.Reaches fr' :=
  fun _ => ⟨[], (History.nil fr).aside h⟩

theorem perform (fr : Frame code σ) (d : Deed) : fr.Reaches (fr.perform d) :=
  fun _ => ⟨[d], (History.nil fr).deed d⟩

/-- A new world in which every scope is as it was. -/
theorem of_scopes_eq {fr : Frame code σ} {w : World code σ} (h : w.scopes = fr.world.scopes) :
    fr.Reaches { fr with world := w } := .of_aside (.of_retains (.of_eq h))

/-- Work in a fresh context, after which the code goes on in its former one. -/
theorem visit {fr fresh left : Frame code σ} {moduleId : String}
    (made : fr.context.loader.newContext moduleId fr.world = .ok fresh)
    (work : fresh.Reaches left) : fr.Reaches { fr with world := left.world } := by
  intro discreet
  obtain ⟨-, rfl⟩ := Loader.newContext_eq_ok_iff.mp made
  obtain ⟨own, work⟩ := work discreet
  exact ⟨[], (History.nil fr).visit made work⟩

end Frame.Reaches

/-- Every run of the body has a history. -/
def ModuleBody.Tracked (body : ModuleBody code σ) : Prop :=
  ∀ table (fr : Frame code σ), fr.Reaches (body table fr).2

/-- Every run of function code has a history. -/
def Runner.Tracked (run : Runner code σ) : Prop :=
  ∀ c receiver args (fr : Frame code σ), fr.Reaches (run c receiver args fr).2

namespace Loader

theorem load_of_table_error {w : World code σ} {imports : List Import} {fault : Fault}
    (hlink : Import.table w.store imports = .error fault) (l : Loader code σ) (moduleId : String)
    (body : ModuleBody code σ) : l.load moduleId body imports w = (.error fault, w) := by
  rw [load, hlink]

section Linked

variable {l : Loader code σ} {moduleId : String} {body : ModuleBody code σ}
  {imports : List Import} {w : World code σ} {table : Table Value} {s : Store code}
  {fresh left : Frame code σ}

theorem load_of_completed (hlink : Import.table w.store imports = .ok (table, s))
    (hnew : l.newContext moduleId (w.withStore s) = .ok fresh) {outcome : Option Value}
    (hbody : body table fresh = (.ok outcome, left)) :
    l.load moduleId body imports w =
      (.ok ⟨moduleId, outcome, left.context.sandbox.finish.toOption, none⟩, left.world) := by
  simp only [load, hlink, hnew, hbody, sandboxAfter]

theorem load_of_failed (hlink : Import.table w.store imports = .ok (table, s))
    (hnew : l.newContext moduleId (w.withStore s) = .ok fresh) {fault : Fault}
    (hbody : body table fresh = (.error fault, left)) :
    l.load moduleId body imports w =
      (.ok ⟨moduleId, none, (sandboxAfter left (.error fault)).finish.toOption,
        some (l.conclude moduleId fault left).1⟩, (l.conclude moduleId fault left).2) := by
  simp only [load, hlink, hnew, hbody]

end Linked

theorem retains_conclude {l : Loader code σ} (discreet : l.Discreet) (moduleId : String)
    (fault : Fault) (fr : Frame code σ) :
    fr.world.Retains (l.conclude moduleId fault fr).2 := by
  intro i b hi
  exact discreet _ moduleId fr.context.line _ i b hi

/-- A load adds no deed to the history of the module that performs it. -/
theorem history_loadWithin {l : Loader code σ} (discreet : l.Discreet) {body : ModuleBody code σ}
    (tracked : body.Tracked) (moduleId : String) (imports : List Import) (fr : Frame code σ) :
    History fr [] (l.loadWithin moduleId body imports fr).2 := by
  rw [loadWithin]
  cases hlink : Import.table fr.world.store imports with
  | error fault =>
    rw [load_of_table_error hlink]
    exact .nil fr
  | ok linked =>
    obtain ⟨table, s⟩ := linked
    cases hnew : l.newContext moduleId (fr.world.withStore s) with
    | error fault =>
      simp only [load, hlink, hnew]
      exact .nil fr
    | ok fresh =>
      have hloader : fresh.context.loader = l := by
        rw [← (newContext_eq_ok_iff.mp hnew).2]
        rfl
      obtain ⟨own, work⟩ := tracked table fresh (by rwa [hloader])
      have visited : History fr [] { fr with world := (body table fresh).2.world } :=
        ((History.nil fr).aside (.withStore fr s)).visit hnew work
      rcases hbody : body table fresh with ⟨fault | outcome, left⟩
      · rw [hbody] at visited
        rw [load_of_failed hlink hnew hbody]
        exact visited.aside (.of_retains (retains_conclude discreet moduleId fault left))
      · rw [hbody] at visited
        rw [load_of_completed hlink hnew hbody]
        exact visited

end Loader

end Confinement
