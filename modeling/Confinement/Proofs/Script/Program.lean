import Confinement.Proofs.Script.Succession

/-!
# The stores of programs

A program begins with an empty store. It is set up, its loader is built, which makes nothing, and it
runs. Each stage takes steps alone, so the store of every program has come about by steps, and all
chains of views and wrappers in it end.
-/
namespace Confinement

namespace Config

theorem isReference_of_bindingValue? {item : Toml.Item} {v : Value}
    (h : bindingValue? item = some v) : v.isReference = false := by
  cases item <;> cases h <;> rfl

theorem isReference_of_bindAll {t t' : Table Value} {bindings : Toml.Entries}
    (h : bindAll t bindings = .ok t') (ht : ∀ v ∈ t.values, v.isReference = false) :
    ∀ v ∈ t'.values, v.isReference = false := by
  induction bindings generalizing t with
  | nil =>
    cases h
    exact ht
  | cons binding rest ih =>
    obtain ⟨name, item⟩ := binding
    rw [bindAll] at h
    cases hvalue : bindingValue? item with
    | none =>
      rw [hvalue] at h
      cases h
    | some x =>
      rw [hvalue] at h
      refine ih h fun v hv => ?_
      rcases Table.mem_values_insert hv with rfl | hold
      · exact isReference_of_bindingValue? hvalue
      · exact ht v hold

theorem of_loader_eq_ok {code σ : Type} {c : Config} {l : Loader code σ}
    {report : Value → String → Option Nat → World code σ → World code σ}
    (h : c.loader report = .ok l) :
    l.report = report ∧ ∀ v ∈ l.hostBindings.values, v.isReference = false := by
  unfold loader at h
  cases hregistry : c.registry with
  | error fault =>
    rw [hregistry] at h
    cases h
  | ok registry =>
    cases hbindings : c.bindings with
    | error fault =>
      rw [hregistry, hbindings] at h
      cases h
    | ok t =>
      rw [hregistry, hbindings] at h
      cases h
      exact ⟨rfl, isReference_of_bindAll hbindings (List.forall_mem_nil _)⟩

end Config

namespace Script

theorem mem_values_bound {s : Session} {bindings : List (String × Expr)} {t : Table Value}
    {v : Value} (hv : v ∈ (bindings.foldl (fun t b => t.insert b.1 (eval {} s b.2)) t).values) :
    v ∈ t.values ∨ ∃ b ∈ bindings, v = eval {} s b.2 := by
  induction bindings generalizing t with
  | nil => exact .inl hv
  | cons b rest ih =>
    rcases ih hv with hfirst | ⟨b', hb', rfl⟩
    · rcases Table.mem_values_insert hfirst with rfl | hold
      · exact .inr ⟨b, List.mem_cons_self, rfl⟩
      · exact .inl hold
    · exact .inr ⟨b', List.mem_cons_of_mem b hb', rfl⟩

/-- What a plan adds to the loader that it starts from. -/
def LoaderPlan.completed (p : LoaderPlan) (s : Session) (base : Loader Code Session) :
    Loader Code Session :=
  { base with
    policy := (p.taming.map Taming.Policy.ofFields).getD base.policy
    hostBindings := p.bindings.foldl (fun t b => t.insert b.1 (eval {} s b.2)) base.hostBindings
    stem := p.stem.getD base.stem }

theorem LoaderPlan.exists_base_of_build {p : LoaderPlan} {registry : Registry} {s : Session}
    {l : Loader Code Session} (h : p.build registry s = .ok l) :
    ∃ base : Loader Code Session, l = p.completed s base ∧ base.report = p.handling.report ∧
      ∀ v ∈ base.hostBindings.values, v.isReference = false := by
  have checked {base : Loader Code Session} (hl : (p.completed s base).build = .ok l) :
      l = p.completed s base := by
    unfold Loader.build at hl
    split at hl
    · cases hl
      rfl
    · cases hl
  unfold build at h
  cases hconfig : p.config with
  | none =>
    rw [hconfig] at h
    exact ⟨_, checked h, rfl, List.forall_mem_nil _⟩
  | some text =>
    rw [hconfig] at h
    have hread : (Config.parse text >>= fun c => c.loader p.handling.report >>= fun base =>
        (p.completed s base).build) = .ok l := h
    cases hparse : Config.parse text with
    | error fault =>
      rw [hparse] at hread
      cases hread
    | ok c =>
      rw [hparse] at hread
      have hmade : (c.loader p.handling.report >>= fun base =>
          (p.completed s base).build) = .ok l := hread
      cases hloader : (c.loader p.handling.report : Except Fault (Loader Code Session)) with
      | error fault =>
        rw [hloader] at hmade
        cases hmade
      | ok base =>
        rw [hloader] at hmade
        exact ⟨base, checked hmade, Config.of_loader_eq_ok hloader⟩

/-- Whatever a plan hands to modules is there. -/
theorem sound_buildLoader {fr : ScriptFrame} (sound : fr.Sound) {plan : Option LoaderPlan}
    (plain : ∀ p ∈ plan, ∀ b ∈ p.bindings, b.2.Plain) {loader : Loader Code Session}
    (h : buildLoader plan fr.registry fr.world.state = .ok loader) :
    ({ fr with context := { fr.context with loader } } : ScriptFrame).Sound := by
  suffices hloader : (∃ h : Handling, loader.report = h.report) ∧
      ∀ v ∈ loader.hostBindings.values, fr.store.Holds v by
    refine ⟨sound.store, fun v hv => ?_, sound.modules, hloader.1⟩
    rcases hv with hrecord | hscope | hvar | hexception | hbinding
    · exact sound.held v (.record hrecord)
    · exact sound.held v (.scope hscope)
    · exact sound.held v (.var hvar)
    · exact sound.held v (.exception hexception)
    · exact hloader.2 v hbinding
  cases plan with
  | none =>
    cases h
    exact ⟨⟨.log, rfl⟩, List.forall_mem_nil _⟩
  | some p =>
    obtain ⟨base, rfl, hreport, hbase⟩ := LoaderPlan.exists_base_of_build h
    refine ⟨⟨p.handling, hreport⟩, fun v hv => ?_⟩
    rcases mem_values_bound hv with hold | ⟨b, hb, rfl⟩
    · exact Store.holds_of_not_isReference (hbase v hold)
    · exact Act.holds_eval sound (List.forall_mem_nil _) (plain p rfl b hb)

namespace Program

/-- The expressions of a program, wherever they stand. -/
def exprs (p : Program) : List Expr :=
  bodyExprs p.setup ++ p.plan.elim [] (·.bindings.map Prod.snd) ++
    p.modules.flatMap (bodyExprs ·.2) ++ bodyExprs p.run

/-- The literals of the program name nothing. -/
def Plain (p : Program) : Prop := ∀ e ∈ p.exprs, e.Plain

instance (p : Program) : Decidable p.Plain :=
  inferInstanceAs (Decidable (∀ e ∈ p.exprs, e.Plain))

variable {p : Program}

theorem sound_start (plain : p.Plain) : p.start.Sound where
  store := Store.sound_empty Code.Plain
  held v hv := by
    rcases hv with hrecord | ⟨b, hb, -⟩ | hvar | ⟨ex, hex, -⟩ | hbinding
    · simp [start] at hrecord
    · simp [start] at hb
    · cases hvar
    · cases hex
    · cases hbinding
  modules body hbody := by
    obtain ⟨m, hm, rfl⟩ := List.mem_map.mp (Table.mem_of_mem_values_ofList hbody)
    intro e he
    refine plain e ?_
    simp only [exprs, List.mem_append, List.mem_flatMap]
    exact .inl (.inr ⟨m, hm, he⟩)
  report := ⟨.log, rfl⟩

theorem steps_runBody {body : List Statement} (plain : Script.Plain body) {fr : ScriptFrame}
    (sound : fr.Sound) :
    fr.store.Steps Code.Plain (runBody body fr).2.store ∧ (runBody body fr).2.Sound := by
  have ran := sound_execAt maxDepth body {} fr plain sound (List.forall_mem_nil _)
  unfold runBody
  split
  all_goals
    rename_i hexec
    rw [hexec] at ran
    exact ⟨ran.steps, ran.sound⟩

/-- The frame in which a program ends. -/
def last (p : Program) : ScriptFrame :=
  match runBody p.setup p.start with
  | (some _, fr) => fr
  | (none, fr) =>
    match buildLoader p.plan fr.registry fr.world.state with
    | .error _ => fr
    | .ok loader => (runBody p.run { fr with context := { fr.context with loader } }).2

theorem exists_execute_eq (p : Program) : ∃ fault, p.execute = conclude p.last fault := by
  rcases hsetup : runBody p.setup p.start with ⟨_ | fault, fr⟩
  · cases hbuild : buildLoader p.plan fr.registry fr.world.state with
    | error fault => exact ⟨some fault, by simp only [execute, last, hsetup, hbuild]⟩
    | ok loader =>
      exact ⟨(runBody p.run { fr with context := { fr.context with loader } }).1,
        by simp only [execute, last, hsetup, hbuild]⟩
  · exact ⟨some fault, by simp only [execute, last, hsetup]⟩

/-- Setting up and running take steps, and nothing happens in between. -/
theorem steps_last (plain : p.Plain) : p.start.store.Steps Code.Plain p.last.store := by
  have hsetup : Script.Plain p.setup := fun e he => plain e (by simp [exprs, he])
  have hrun : Script.Plain p.run := fun e he => plain e (by simp [exprs, he])
  have hplan (q : LoaderPlan) (hq : p.plan = some q) (b : String × Expr) (hb : b ∈ q.bindings) :
      b.2.Plain := by
    have hmem : b.2 ∈ q.bindings.map Prod.snd := List.mem_map.mpr ⟨b, hb, rfl⟩
    refine plain b.2 ?_
    simp only [exprs, hq, Option.elim_some, List.mem_append]
    exact .inl (.inl (.inr hmem))
  obtain ⟨filled, sound⟩ := steps_runBody hsetup (sound_start plain)
  unfold last
  split
  · rename_i hstage
    rwa [hstage] at filled
  · rename_i fr hstage
    rw [hstage] at filled sound
    split
    · exact filled
    · rename_i loader hbuild
      exact filled.trans (steps_runBody hrun (sound_buildLoader sound hplan hbuild)).1

theorem reached_last (plain : p.Plain) : p.last.store.Reached := (steps_last plain).unrestricted

end Program

end Script

/-- However a store comes about, what a view stands in front of and what a wrapper runs is older
than the view or wrapper, so all chains of them end, and following one is a recursion that ends.
Neither ever changes. The stores that programs leave come about in this way. -/
theorem chains_are_well_founded :
    (∀ (code : Type) (s : Store code), s.Reached → s.ChainsEnd) ∧
    (∀ (code : Type) (s t : Store code), s.Steps (fun _ => True) t →
      (∀ id target allow, s.origin? id = some (.view target allow) →
        t.origin? id = some (.view target allow)) ∧
      ∀ id target receiver, s.bound? id = some (target, receiver) →
        t.bound? id = some (target, receiver)) ∧
    ∀ p : Script.Program, p.Plain →
      p.last.store.Reached ∧ ∃ fault, p.execute = Script.Program.conclude p.last fault := by
  refine ⟨fun code s reached => ?_, fun code s t steps => ⟨?_, ?_⟩, fun p plain => ⟨?_, ?_⟩⟩
  · exact (reached.sound (Store.sound_empty _)).chainsEnd
  · intro id target allow horigin
    exact steps.lasts.origin? horigin
  · intro id target receiver hbound
    exact steps.lasts.bound?_eq hbound
  · exact p.reached_last plain
  · exact p.exists_execute_eq

namespace Store

/-- An object, a view on it and a view on the view; and a function, bound to the object. -/
def chained : Store Unit :=
  let s := (({} : Store Unit).newPlain [("slot", .null)]).2
  let s := (s.newView (.object 0) ["slot"]).2
  let s := (s.newView (.object 1) []).2
  let s := (s.newHostFunction "f" .method (.native ())).2
  Guardian.step .empty s (.bind 3 (.object 0) none)

/-- Later on the second view is a member of the object that it leads to, and the wrapper is bound
again. -/
def extended : Store Unit :=
  let s := chained.update 0 (·.setValue "slot" (.object 2))
  Guardian.step .empty s (.bind 4 (.object 2) none)

theorem reached_chained : chained.Reached := by
  refine .tail (.tail (.tail (.tail (.tail .refl (.plain [("slot", .null)] ?_))
    (.view (.object 0) ["slot"] ?_)) (.view (.object 1) [] ?_))
    (.function (some "f") .method .host (.native ()) true none rfl fun _ _ => trivial))
    (.guarded .empty (.bind 3 (.object 0) none) ?_)
  · exact List.forall_mem_singleton.mpr trivial
  · exact ⟨_, rfl⟩
  · exact ⟨_, rfl⟩
  · exact List.forall_mem_singleton.mpr ⟨_, rfl⟩

theorem steps_extended : chained.Steps (fun _ => True) extended := by
  refine .tail (.tail .refl (.assign 0 "slot" (.object 2) ?_))
    (.guarded .empty (.bind 4 (.object 2) none) ?_)
  · exact ⟨_, rfl⟩
  · exact List.forall_mem_singleton.mpr ⟨_, rfl⟩

end Store

/-- The same in a script, which ends with a call of the outer wrapper. -/
def Script.chainProgram : Program where
  run := [
    .perform ⟨"object", some "object", true⟩ (.value (.plain [("slot", .literal .null)])),
    .perform ⟨"inner", some "inner", true⟩ (.value (.view (.var "object") ["slot"])),
    .perform ⟨"outer", some "outer", true⟩ (.value (.view (.var "inner") [])),
    .perform ⟨"cycle", none, true⟩ (.value (.slot (.var "object") "slot" (.var "outer") .plain)),
    .define ⟨"f", some "f", true⟩ (some "f") .simple .host [.finish .this],
    .perform ⟨"bound", some "bound", true⟩ (.guardian (.bind (.var "f") (.var "object") none)),
    .perform ⟨"rebound", some "rebound", true⟩
      (.guardian (.bind (.var "bound") (.var "outer") none)),
    .perform ⟨"call", none, true⟩ (.call (.call (.var "rebound") [.literal (.boolean true)]))]

/-- A view that leads to an object that holds it, and a wrapper that was bound again. -/
theorem chains_are_well_founded_of_extended :
    Store.chained.Reached ∧ Store.chained.Steps (fun _ => True) Store.extended ∧
    Script.chainProgram.Plain ∧
    Store.chained.origin? 2 = some (.view (.object 1) []) ∧
    Store.extended.origin? 2 = some (.view (.object 1) []) ∧
    Store.chained.bound? 4 = some (3, .object 0) ∧ Store.extended.bound? 4 = some (3, .object 0) ∧
    Store.extended.bound? 5 = some (4, .object 2) ∧ Store.extended.ChainsEnd ∧
    Store.extended.resolve (.object 2) = .object 0 ∧ Store.extended.unbound 5 = 3 ∧
    Script.chainProgram.last.store.Reached ∧ Script.chainProgram.last.store.ChainsEnd ∧
    (Script.chainProgram.last.store.resolve (.object 2)).id? = some 0 ∧
    Script.chainProgram.last.store.unbound 5 = 3 := by
  obtain ⟨ends, keeps, programs⟩ := chains_are_well_founded
  have plain : Script.chainProgram.Plain := by decide
  have hfront : Store.chained.origin? 2 = some (.view (.object 1) []) := rfl
  have hbound : Store.chained.bound? 4 = some (3, .object 0) := rfl
  obtain ⟨fronts, wrappers⟩ := keeps Unit Store.chained Store.extended Store.steps_extended
  have left := (programs Script.chainProgram plain).1
  exact ⟨Store.reached_chained, Store.steps_extended, plain, hfront, fronts 2 _ _ hfront, hbound,
    wrappers 4 _ _ hbound, rfl,
    ends Unit Store.extended (Store.reached_chained.trans Store.steps_extended), rfl, rfl, left,
    ends Script.Code _ left, by decide +kernel, by decide +kernel⟩

end Confinement
