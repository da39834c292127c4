import Confinement.Proofs.Access.Effect
import Confinement.Proofs.Invocation.Call
import Confinement.Proofs.Invocation.Construction

/-!
# Checks before effects

A call either is refused or runs one body once. To tell the two apart the code is left open: a call
that is refused ends in the same fault and the frame it was made in, whatever the code, and a call
that runs a body depends on the code in one place, where that body is started. What the body ends
with is contained, and its value may be replaced by another; nothing else is done to it.
-/
namespace Confinement

variable {code σ : Type}

namespace Store

/-- Every bound wrapper runs a function that was there before it. -/
def WrapsOlder (s : Store code) : Prop :=
  ∀ id f target r, s.function? id = some f → f.body.bound? = some (target, r) →
    target < id ∧ ∃ g, s.function? target = some g

variable {s : Store code} {n : Nat} {id inner : EntityId} {own : Option Value}

theorem WrapsOlder.exists_wraps (older : s.WrapsOlder) {f : FunctionRecord code}
    (hf : s.function? id = some f) (receiver : Option Value) :
    ∃ n inner own, s.Wraps n id receiver inner own := by
  induction id using Nat.strong_induction_on generalizing f receiver with
  | _ id ih =>
    cases hbody : f.body.bound? with
    | none => exact ⟨0, id, receiver, .bare hf hbody⟩
    | some wrapped =>
      obtain ⟨target, r⟩ := wrapped
      obtain ⟨hlt, g, hg⟩ := older id f target r hf hbody
      obtain ⟨n, inner, own, below⟩ := ih target hlt hg (some r)
      exact ⟨n + 1, inner, own, .bound hf hbody below⟩

theorem Wraps.exists_bare {receiver : Option Value} (h : s.Wraps n id receiver inner own) :
    ∃ g, s.function? inner = some g ∧ g.body.bound? = none := by
  induction h with
  | bare hf hbody => exact ⟨_, hf, hbody⟩
  | bound _ _ _ ih => exact ih

end Store

namespace Invocation

/-- What a call ends with, for any code. -/
abbrev OpenCall (code σ : Type) := Runner code σ → Except Fault Value × Frame code σ

/-- Hands out a value in place of the one that was returned. -/
def handOut (given : Frame code σ → Value → Value) (ended : Except Fault Value × Frame code σ) :
    Except Fault Value × Frame code σ :=
  (ended.1.map (given ended.2), ended.2)

/-- The call ends in this fault and has changed nothing, whatever the code. -/
def Refuses (call : OpenCall code σ) (fr : Frame code σ) (fault : Fault) : Prop :=
  ∀ run, call run = (.error fault, fr)

/-- The call starts this body once, in the frame `start`, and lets out what that ends with. -/
def RunsOnce (call : OpenCall code σ) (body : FunctionBody code) (receiver : Option Value)
    (args : List Value) (start : Frame code σ) : Prop :=
  ∃ origin given, ∀ run, call run =
    handOut given (contain origin (runOwn run body receiver args start).1
      (runOwn run body receiver args start).2)

/-- The arguments in order, with `undefined` for each that is `missing`. -/
def Passes (args passed : List Value) : Prop :=
  List.Forall₂ (fun x y => x = .missing ∧ y = .undefined ∨ x ≠ .missing ∧ y = x) args passed

/-- The call runs the function `id` once in the frame `start`. If that is a wrapper, it is the body
of the function at the bottom that runs, with the receiver that the innermost wrapper has. -/
def Runs (call : OpenCall code σ) (id : EntityId) (receiver : Option Value) (args : List Value)
    (start : Frame code σ) : Prop :=
  ∃ n inner own f passed, start.store.Wraps n id receiver inner own ∧
    start.store.function? inner = some f ∧ Passes args passed ∧
    RunsOnce call f.body own passed start

def RunsBody (call : OpenCall code σ) : Prop :=
  ∃ id receiver args start, Runs call id receiver args start

variable {call : OpenCall code σ} {fr start : Frame code σ} {fault : Fault} {id inner : EntityId}
  {receiver own : Option Value} {args : List Value} {n : Nat}

theorem passes_normalize (args : List Value) : Passes args (Arguments.normalize args) := by
  refine List.forall₂_map_right_iff.mpr (List.forall₂_same.mpr fun x _ => ?_)
  cases x with
  | missing => exact .inl ⟨rfl, rfl⟩
  | _ => exact .inr ⟨nofun, rfl⟩

theorem handOut_handOut (given given' : Frame code σ → Value → Value)
    (ended : Except Fault Value × Frame code σ) :
    handOut given' (handOut given ended) =
      handOut (fun left v => given' left (given left v)) ended := by
  obtain ⟨fault | v, left⟩ := ended <;> rfl

theorem handOut_self (ended : Except Fault Value × Frame code σ) :
    handOut (fun _ v => v) ended = ended := by
  obtain ⟨fault | v, left⟩ := ended <;> rfl

theorem contain_ok (origin : FunctionOrigin) (v : Value) (left : Frame code σ) :
    contain origin (.ok v) left = (.ok v, left) := by
  cases origin <;> rfl

/-- A body that is run may end well, so the call is not refused. -/
theorem RunsBody.not_refuses (runs : RunsBody call) : ¬ Refuses call fr fault := by
  intro refuses
  obtain ⟨id, receiver, args, start, n, inner, own, f, passed, wraps, hf, -, origin, given, once⟩ :=
    runs
  obtain ⟨g, hg, hbody⟩ := wraps.exists_bare
  obtain rfl : f = g := Option.some.inj (hf.symm.trans hg)
  -- code that does nothing and returns: with it the call does not fail
  let quiet : Runner code σ := fun _ _ _ left => (.ok .undefined, left)
  have ends : ∃ v, runOwn quiet f.body own passed start = (.ok v, start) := by
    cases hcode : f.body with
    | bound target r =>
      rw [hcode] at hbody
      cases hbody
    | standIn text => exact ⟨.string text, rfl⟩
    | native c => exact ⟨.undefined, rfl⟩
    | closure c => exact ⟨.undefined, rfl⟩
  obtain ⟨v, hv⟩ := ends
  have hcall := (refuses quiet).symm.trans (once quiet)
  rw [hv, contain_ok] at hcall
  cases hcall

/-- If a call runs a body or is refused, it runs one exactly in the first case. -/
theorem runsBody_iff {P : Prop} (fr : Frame code σ) (runs : P → RunsBody call)
    (refuses : ¬ P → ∃ fault, Refuses call fr fault) : RunsBody call ↔ P := by
  refine ⟨fun h => ?_, runs⟩
  by_contra hP
  obtain ⟨fault, hfault⟩ := refuses hP
  exact h.not_refuses hfault

theorem RunsOnce.handOut {body : FunctionBody code} (h : RunsOnce call body receiver args start)
    (given : Frame code σ → Value → Value) :
    RunsOnce (fun run => handOut given (call run)) body receiver args start := by
  obtain ⟨origin, given', once⟩ := h
  refine ⟨origin, fun left v => given left (given' left v), fun run => ?_⟩
  simp only [once run, handOut_handOut]

theorem Runs.handOut (h : Runs call id receiver args start)
    (given : Frame code σ → Value → Value) :
    Runs (fun run => handOut given (call run)) id receiver args start := by
  obtain ⟨n, inner, own, f, passed, wraps, hf, hpassed, once⟩ := h
  exact ⟨n, inner, own, f, passed, wraps, hf, hpassed, once.handOut given⟩

theorem Refuses.handOut (h : Refuses call fr fault) (given : Frame code σ → Value → Value) :
    Refuses (fun run => handOut given (call run)) fr fault := by
  intro run
  simp only [h run]
  rfl

theorem runsOnce_runFunction (start : Frame code σ) {f : FunctionRecord code}
    (wraps : start.store.Wraps n id receiver inner own)
    (hf : start.store.function? inner = some f) (args : List Value) :
    RunsOnce (fun run => runFunction run id receiver args start) f.body own args start := by
  refine ⟨guardOrigin start.store start.store.size id, fun _ v => v, fun run => ?_⟩
  simp only [runFunction, runWithin_eq, bareWithin_of_wraps wraps hf wraps.count_lt_size,
    handOut_self]

theorem runs_invoke (older : fr.store.WrapsOlder) (admits : Admits fr.store id receiver)
    (args : List Value) :
    Runs (fun run => invoke run id receiver args fr) id receiver args fr := by
  have ⟨f, hf, _⟩ := admits
  obtain ⟨n, inner, own, wraps⟩ := older.exists_wraps hf receiver
  obtain ⟨g, hg, -⟩ := wraps.exists_bare
  simp only [invoke_of_admits admits]
  exact ⟨n, inner, own, g, _, wraps, hg, passes_normalize args, runsOnce_runFunction fr wraps hg _⟩

theorem exists_refuses_invoke (denied : ¬ Admits fr.store id receiver) (args : List Value) :
    ∃ name, Refuses (fun run => invoke run id receiver args fr) fr (.notCallable name) := by
  cases hf : fr.store.function? id with
  | none => exact ⟨"function", fun run => by simp only [invoke, hf]⟩
  | some f =>
    have hkind : mayCall f.kind receiver = false :=
      Bool.eq_false_iff.mpr fun hcall => denied ⟨f, hf, hcall⟩
    exact ⟨f.debugName, fun run => by simp [invoke, hf, hkind]⟩

/-- Without a receiver, only a simple function may be called. -/
theorem admits_none_iff {s : Store code} :
    Admits s id none ↔ ∃ f, s.function? id = some f ∧ f.kind = .simple := by
  refine exists_congr fun f => and_congr_right fun _ => ?_
  cases f.kind <;> simp [mayCall]

/-- With a receiver, all but constructors may be called. -/
theorem admits_some_iff {s : Store code} {v : Value} :
    Admits s id (some v) ↔ ∃ f, s.function? id = some f ∧ ∀ cls, f.kind ≠ .constructor cls := by
  refine exists_congr fun f => and_congr_right fun _ => ?_
  cases f.kind <;> simp [mayCall]

/-- The value is a function that may be called without a receiver. -/
def IsSimple (s : Store code) (callee : Value) (id : EntityId) : Prop :=
  callee = .function id ∧ ∃ f, s.function? id = some f ∧ f.kind = .simple

theorem runs_callFunction {callee : Value} (older : fr.store.WrapsOlder)
    (simple : IsSimple fr.store callee id) (args : List Value) :
    Runs (fun run => callFunction run callee args fr) id none args fr := by
  obtain ⟨rfl, hkind⟩ := simple
  exact runs_invoke older (admits_none_iff.mpr hkind) args

theorem exists_refuses_callFunction {callee : Value}
    (h : ¬ ∃ id, IsSimple fr.store callee id) (args : List Value) :
    ∃ name, Refuses (fun run => callFunction run callee args fr) fr (.notCallable name) := by
  cases callee with
  | function id =>
    have denied : ¬ Admits fr.store id none := fun admits =>
      h ⟨id, rfl, admits_none_iff.mp admits⟩
    exact exists_refuses_invoke denied args
  | _ => exact ⟨_, fun _ => rfl⟩

theorem runsBody_callFunction_iff {callee : Value} (older : fr.store.WrapsOlder)
    (args : List Value) : RunsBody (fun run => callFunction run callee args fr) ↔
      ∃ id, IsSimple fr.store callee id := by
  refine runsBody_iff fr ?_ fun fails => ?_
  · rintro ⟨id, simple⟩
    exact ⟨_, _, _, _, runs_callFunction older simple args⟩
  · obtain ⟨name, refuses⟩ := exists_refuses_callFunction fails args
    exact ⟨_, refuses⟩

/-- There is nothing that could have a member. -/
def IsNothing (v : Value) : Prop := v = .undefined ∨ v = .null ∨ v = .missing

/-- The member of the value that the subject resolves to is this function, and no constructor. -/
def HoldsMethod (s : Store code) (v : Value) (m : String) (id : EntityId) : Prop :=
  Access.lookup? s v m = some (.function id) ∧
    ∃ f, s.function? id = some f ∧ ∀ cls, f.kind ≠ .constructor cls

theorem not_isNothing_iff {v : Value} :
    ¬ IsNothing v ↔ v ≠ .undefined ∧ v ≠ .null ∧ v ≠ .missing := by
  simp only [IsNothing, not_or, ne_eq]

section Method

variable {r : Registry} {s : Store code} {v : Value} {m : String}

theorem methodOf_eq_ok_iff : methodOf r s v m = .ok id ↔
    ¬ IsNothing v ∧ r.check s v m .call = true ∧ Access.lookup? s v m = some (.function id) := by
  rw [methodOf, Access.granted_eq_ok_iff, not_isNothing_iff]
  refine and_congr_right fun _ => and_congr_right fun _ => ?_
  split
  · rename_i hlookup
    simp [hlookup]
  · rename_i hother
    simpa using hother id

theorem methodOf_of_isNothing (h : IsNothing v) :
    methodOf r s v m = .error (.notAnObject m v.typeName) := by
  rcases h with rfl | rfl | rfl <;> rfl

theorem methodOf_of_not_check (h : ¬ IsNothing v) (denied : r.check s v m .call = false) :
    methodOf r s v m = .error (.capabilityDenied .call m) :=
  Access.granted_of_not_check _ (not_isNothing_iff.mp h) denied

theorem methodOf_of_not_function (h : ¬ IsNothing v) (granted : r.check s v m .call = true)
    (lacks : ∀ id, Access.lookup? s v m ≠ some (.function id)) :
    methodOf r s v m = .error (.notCallable m) := by
  rw [methodOf, Access.granted_of_check _ (not_isNothing_iff.mp h) granted]
  split
  · rename_i id hlookup
    exact absurd hlookup (lacks id)
  · rfl

theorem callMethod_of_methodOf (found : methodOf fr.registry fr.store v m = .ok id)
    (run : Runner code σ) (args : List Value) : callMethod run v m args fr =
      handOut (fun left => Access.rewrap left.store v)
        (invoke run id (some (fr.store.resolve v)) args fr) := by
  simp only [callMethod, found]
  rcases invoke run id (some (fr.store.resolve v)) args fr with ⟨fault | y, left⟩ <;> rfl

theorem refuses_callMethod (h : methodOf fr.registry fr.store v m = .error fault)
    (args : List Value) : Refuses (fun run => callMethod run v m args fr) fr fault := by
  intro run
  simp only [callMethod, h]

theorem runs_callMethod (older : fr.store.WrapsOlder) (h : ¬ IsNothing v)
    (granted : fr.registry.check fr.store v m .call = true) (holds : HoldsMethod fr.store v m id)
    (args : List Value) : Runs (fun run => callMethod run v m args fr) id
      (some (fr.store.resolve v)) args fr := by
  have found : methodOf fr.registry fr.store v m = .ok id :=
    methodOf_eq_ok_iff.mpr ⟨h, granted, holds.1⟩
  simp only [callMethod_of_methodOf found]
  exact (runs_invoke older (admits_some_iff.mpr holds.2) args).handOut _

/-- Whatever is no method is not callable, be it no function at all or a constructor. -/
theorem exists_refuses_callMethod (h : ¬ IsNothing v)
    (granted : fr.registry.check fr.store v m .call = true)
    (lacks : ¬ ∃ id, HoldsMethod fr.store v m id) (args : List Value) :
    ∃ name, Refuses (fun run => callMethod run v m args fr) fr (.notCallable name) := by
  by_cases hfunction : ∃ id, Access.lookup? fr.store v m = some (.function id)
  · obtain ⟨id, hlookup⟩ := hfunction
    have found : methodOf fr.registry fr.store v m = .ok id :=
      methodOf_eq_ok_iff.mpr ⟨h, granted, hlookup⟩
    have denied : ¬ Admits fr.store id (some (fr.store.resolve v)) := fun admits =>
      lacks ⟨id, hlookup, admits_some_iff.mp admits⟩
    obtain ⟨name, refuses⟩ := exists_refuses_invoke denied args
    simp only [callMethod_of_methodOf found]
    exact ⟨name, refuses.handOut _⟩
  · have found := methodOf_of_not_function h granted (not_exists.mp hfunction)
    exact ⟨m, refuses_callMethod found args⟩

theorem runsBody_callMethod_iff (older : fr.store.WrapsOlder) (args : List Value) :
    RunsBody (fun run => callMethod run v m args fr) ↔ ¬ IsNothing v ∧
      fr.registry.check fr.store v m .call = true ∧ ∃ id, HoldsMethod fr.store v m id := by
  refine runsBody_iff fr ?_ fun fails => ?_
  · rintro ⟨something, granted, id, holds⟩
    exact ⟨_, _, _, _, runs_callMethod older something granted holds args⟩
  · by_cases nothing : IsNothing v
    · exact ⟨_, refuses_callMethod (methodOf_of_isNothing nothing) args⟩
    cases granted : fr.registry.check fr.store v m .call with
    | false => exact ⟨_, refuses_callMethod (methodOf_of_not_check nothing granted) args⟩
    | true =>
      have lacks : ¬ ∃ id, HoldsMethod fr.store v m id := fun holds =>
        fails ⟨nothing, granted, holds⟩
      obtain ⟨name, refuses⟩ := exists_refuses_callMethod nothing granted lacks args
      exact ⟨_, refuses⟩

end Method

/-- The value is a function that makes instances, of a host class or plain. -/
def IsConstructor (s : Store code) (ctor : Value) (id : EntityId) (cls : Option String) : Prop :=
  ctor = .function id ∧ ∃ f, s.function? id = some f ∧ f.kind = .constructor cls

section Construct

variable {ctor : Value} {cls : Option String}

theorem construct_of_constructorOf
    (found : constructorOf fr.registry fr.store ctor = .ok (id, cls)) (run : Runner code σ)
    (args : List Value) : construct run ctor args fr =
      handOut (fun _ v => if v.isReference then v else (newInstance fr.store cls).1)
        (runFunction run (fr.store.unbound id) (some (newInstance fr.store cls).1)
          (Arguments.normalize args) (fr.withStore (newInstance fr.store cls).2)) := by
  simp only [construct, found]
  rcases runFunction run (fr.store.unbound id) (some (newInstance fr.store cls).1)
    (Arguments.normalize args) (fr.withStore (newInstance fr.store cls).2) with
    ⟨fault | y, left⟩ <;> rfl

theorem function?_newInstance {s : Store code} {f : FunctionRecord code}
    (hf : s.function? id = some f) (cls : Option String) :
    (newInstance s cls).2.function? id = some f := by
  unfold Store.function? at hf ⊢
  cases he : s.entity? id with
  | none => simp [he] at hf
  | some e =>
    rw [he] at hf
    rw [(adds_newInstance s cls).kept id e he]
    exact hf

/-- The body that a construction runs gets the new instance, whatever the wrappers around it say. -/
theorem runsOnce_construct (is : IsConstructor fr.store ctor id cls)
    (permitted : mayConstruct fr.registry fr.store ctor cls = true) {g : FunctionRecord code}
    (wraps : fr.store.Wraps n id receiver inner own) (hg : fr.store.function? inner = some g)
    (hbody : g.body.bound? = none) (args : List Value) :
    RunsOnce (fun run => construct run ctor args fr) g.body (some (newInstance fr.store cls).1)
      (Arguments.normalize args) (fr.withStore (newInstance fr.store cls).2) := by
  obtain ⟨hctor, f, hf, hkind⟩ := is
  have found := constructorOf_eq_ok_iff.mpr ⟨hctor, f, hf, hkind, permitted⟩
  have hmade : (newInstance fr.store cls).2.function? inner = some g :=
    function?_newInstance hg cls
  have bottom : (newInstance fr.store cls).2.Wraps 0 inner (some (newInstance fr.store cls).1)
      inner (some (newInstance fr.store cls).1) := .bare hmade hbody
  simp only [construct_of_constructorOf found, wraps.unbound_eq]
  exact (runsOnce_runFunction (fr.withStore (newInstance fr.store cls).2) bottom hmade _).handOut _

theorem runs_construct (older : fr.store.WrapsOlder) (is : IsConstructor fr.store ctor id cls)
    (permitted : mayConstruct fr.registry fr.store ctor cls = true) (args : List Value) :
    Runs (fun run => construct run ctor args fr) (fr.store.unbound id)
      (some (newInstance fr.store cls).1) args (fr.withStore (newInstance fr.store cls).2) := by
  have ⟨_, f, hf, _⟩ := is
  obtain ⟨n, inner, own, wraps⟩ := older.exists_wraps hf none
  obtain ⟨g, hg, hbody⟩ := wraps.exists_bare
  have hmade : (newInstance fr.store cls).2.function? inner = some g :=
    function?_newInstance hg cls
  rw [wraps.unbound_eq]
  exact ⟨0, inner, _, g, _, .bare hmade hbody, hmade, passes_normalize args,
    runsOnce_construct is permitted wraps hg hbody args⟩

theorem exists_refuses_construct (h : ¬ ∃ id cls, IsConstructor fr.store ctor id cls)
    (args : List Value) :
    ∃ name, Refuses (fun run => construct run ctor args fr) fr (.notConstructor name) := by
  cases ctor with
  | function id =>
    cases hf : fr.store.function? id with
    | none => exact ⟨"function", fun run => by simp [construct, constructorOf, hf]⟩
    | some f =>
      cases hkind : f.kind with
      | constructor cls => exact absurd ⟨id, cls, rfl, f, hf, hkind⟩ h
      | simple => exact ⟨f.debugName, fun run => by simp [construct, constructorOf, hf, hkind]⟩
      | method => exact ⟨f.debugName, fun run => by simp [construct, constructorOf, hf, hkind]⟩
  | _ => exact ⟨_, fun _ => rfl⟩

theorem refuses_construct (is : IsConstructor fr.store ctor id cls)
    (denied : mayConstruct fr.registry fr.store ctor cls = false) (args : List Value) :
    Refuses (fun run => construct run ctor args fr) fr
      (.capabilityDenied .construct constructorMember) := by
  obtain ⟨rfl, f, hf, hkind⟩ := is
  exact fun run => construct_of_denied hf hkind denied run args

theorem runsBody_construct_iff (older : fr.store.WrapsOlder) (args : List Value) :
    RunsBody (fun run => construct run ctor args fr) ↔ ∃ id cls,
      IsConstructor fr.store ctor id cls ∧ mayConstruct fr.registry fr.store ctor cls = true := by
  refine runsBody_iff fr ?_ fun fails => ?_
  · rintro ⟨id, cls, is, permitted⟩
    exact ⟨_, _, _, _, runs_construct older is permitted args⟩
  · by_cases hctor : ∃ id cls, IsConstructor fr.store ctor id cls
    · obtain ⟨id, cls, is⟩ := hctor
      have denied : mayConstruct fr.registry fr.store ctor cls = false :=
        Bool.eq_false_iff.mpr fun permitted => fails ⟨id, cls, is, permitted⟩
      exact ⟨_, refuses_construct is denied args⟩
    · obtain ⟨name, refuses⟩ := exists_refuses_construct hctor args
      exact ⟨_, refuses⟩

end Construct

/-- Checks come before effects, in three kinds of calls. A method call runs a body exactly if the
subject is something, the call is granted on it as given, and the member of what it resolves to is a
function and no constructor; that function runs once, with what the subject resolves to as receiver.
A call without receiver runs a body exactly if the value is a simple function, and a construction
exactly if it is a constructor whose use is permitted. All other calls are refused, by the first
check that fails, and then nothing is changed or made. -/
theorem checks_precede_effects {fr : Frame code σ} (older : fr.store.WrapsOlder)
    (args : List Value) :
    (∀ v m, (RunsBody (fun run => callMethod run v m args fr) ↔
        ¬ IsNothing v ∧ fr.registry.check fr.store v m .call = true ∧
          ∃ id, HoldsMethod fr.store v m id) ∧
      (∀ id, ¬ IsNothing v → fr.registry.check fr.store v m .call = true →
        HoldsMethod fr.store v m id →
        Runs (fun run => callMethod run v m args fr) id (some (fr.store.resolve v)) args fr) ∧
      (IsNothing v →
        Refuses (fun run => callMethod run v m args fr) fr (.notAnObject m v.typeName)) ∧
      (¬ IsNothing v → fr.registry.check fr.store v m .call = false →
        Refuses (fun run => callMethod run v m args fr) fr (.capabilityDenied .call m)) ∧
      (¬ IsNothing v → fr.registry.check fr.store v m .call = true →
        (¬ ∃ id, HoldsMethod fr.store v m id) →
        ∃ name, Refuses (fun run => callMethod run v m args fr) fr (.notCallable name))) ∧
    (∀ callee, (RunsBody (fun run => callFunction run callee args fr) ↔
        ∃ id, IsSimple fr.store callee id) ∧
      (∀ id, IsSimple fr.store callee id →
        Runs (fun run => callFunction run callee args fr) id none args fr) ∧
      ((¬ ∃ id, IsSimple fr.store callee id) →
        ∃ name, Refuses (fun run => callFunction run callee args fr) fr (.notCallable name))) ∧
    ∀ ctor, (RunsBody (fun run => construct run ctor args fr) ↔
        ∃ id cls, IsConstructor fr.store ctor id cls ∧
          mayConstruct fr.registry fr.store ctor cls = true) ∧
      (∀ id cls, IsConstructor fr.store ctor id cls →
        mayConstruct fr.registry fr.store ctor cls = true →
        Runs (fun run => construct run ctor args fr) (fr.store.unbound id)
          (some (newInstance fr.store cls).1) args
          (fr.withStore (newInstance fr.store cls).2)) ∧
      ((¬ ∃ id cls, IsConstructor fr.store ctor id cls) →
        ∃ name, Refuses (fun run => construct run ctor args fr) fr (.notConstructor name)) ∧
      (∀ id cls, IsConstructor fr.store ctor id cls →
        mayConstruct fr.registry fr.store ctor cls = false →
        Refuses (fun run => construct run ctor args fr) fr
          (.capabilityDenied .construct constructorMember)) := by
  refine ⟨fun v m => ⟨runsBody_callMethod_iff older args, ?_, ?_, ?_, ?_⟩,
    fun callee => ⟨runsBody_callFunction_iff older args, ?_, ?_⟩,
    fun ctor => ⟨runsBody_construct_iff older args, ?_, ?_, ?_⟩⟩
  · exact fun id something granted holds => runs_callMethod older something granted holds args
  · exact fun nothing => refuses_callMethod (methodOf_of_isNothing nothing) args
  · exact fun something denied => refuses_callMethod (methodOf_of_not_check something denied) args
  · exact fun something granted lacks => exists_refuses_callMethod something granted lacks args
  · exact fun id simple => runs_callFunction older simple args
  · exact fun fails => exists_refuses_callFunction fails args
  · exact fun id cls is permitted => runs_construct older is permitted args
  · exact fun fails => exists_refuses_construct fails args
  · exact fun id cls is denied => refuses_construct is denied args

/-- A method of the host, an object that holds it, a view on the object, the method bound to the
object, a constructor of a host class, and a guest's constructor of plain objects. -/
def callables : Store Unit :=
  ⟨#[⟨.function ⟨some "method", .method, .host, 0, .native ()⟩, .empty, true⟩,
    ⟨.object .guest false,
      .ofList [("method", .plain (.function 0)), ("wrapper", .plain (.function 3))], false⟩,
    ⟨.object (.view (.object 1) ["method", "wrapper"]) false, .empty, true⟩,
    ⟨.function ⟨some "bound method", .simple, .host, 3, .bound 0 (.object 1)⟩, .empty, true⟩,
    ⟨.function ⟨some "Host", .constructor (some "Host"), .host, 4, .native ()⟩, .empty, true⟩,
    ⟨.function ⟨some "Plain", .constructor none, .guest, 5, .closure ()⟩, .empty, false⟩]⟩

theorem callables_wrapsOlder : callables.WrapsOlder := by
  intro id f target r hf hbody
  match id with
  | 3 =>
    cases hf
    cases hbody
    exact ⟨by decide, _, rfl⟩
  | 0 | 4 | 5 =>
    cases hf
    cases hbody
  | 1 | 2 => cases hf
  | _ + 6 => cases hf

/-- Through the view the method runs with the object as its receiver. Without a receiver it does not
run, and bound it does. The guest's constructor runs, and the host's is denied. -/
theorem checks_precede_effects_of_callables :
    Runs (fun run => callMethod run (.object 2) "method" [.missing, .null] (.ofStore callables))
      0 (some (.object 1)) [.missing, .null] (.ofStore callables) ∧
    Refuses (fun run => callMethod run (.object 2) "absent" [] (.ofStore callables))
      (.ofStore callables) (.capabilityDenied .call "absent") ∧
    ¬ RunsBody (fun run => callFunction run (.function 0) [] (.ofStore callables)) ∧
    RunsBody (fun run => callFunction run (.function 3) [] (.ofStore callables)) ∧
    Refuses (fun run => construct run (.function 4) [] (.ofStore callables)) (.ofStore callables)
      (.capabilityDenied .construct "constructor") ∧
    RunsBody (fun run => construct run (.function 5) [] (.ofStore callables)) := by
  have something : ¬ IsNothing (.object 2) := by simp [IsNothing]
  have older : (Frame.ofStore callables).store.WrapsOlder := callables_wrapsOlder
  obtain ⟨called, -, -⟩ := checks_precede_effects older [.missing, .null]
  obtain ⟨methods, functions, constructions⟩ := checks_precede_effects older []
  refine ⟨?_, ?_, ?_, ?_, ?_, ?_⟩
  · exact (called (.object 2) "method").2.1 0 something rfl ⟨rfl, _, rfl, nofun⟩
  · exact (methods (.object 2) "absent").2.2.2.1 something rfl
  · rw [(functions (.function 0)).1]
    rintro ⟨id, hid, f, hf, hkind⟩
    cases hid
    cases hf
    cases hkind
  · exact (functions (.function 3)).1.mpr ⟨3, rfl, _, rfl, rfl⟩
  · exact (constructions (.function 4)).2.2.2 4 (some "Host") ⟨rfl, _, rfl, rfl⟩ rfl
  · exact (constructions (.function 5)).1.mpr ⟨5, none, ⟨rfl, _, rfl, rfl⟩, rfl⟩

end Invocation

end Confinement
