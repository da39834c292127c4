import Confinement.Proofs.Invocation.Wrapper

/-!
# Calls and their faults

There are five ways to have functions run. `Enters` says to which function a call comes once all
checks have passed, and `Ends` how the body of that function ends, under any number of wrappers. A
fault of the body is the fault of the call, unless it is a raw host exception in a host function.
Conversely a raw host exception comes out of a call only if the body of a guest function raised it.
-/
namespace Confinement

namespace Invocation

variable {code σ : Type}

/-- The ways to have functions run. -/
inductive Call where
  | function (callee : Value) (args : List Value)
  | method (subject : Value) (member : String) (args : List Value)
  | construct (ctor : Value) (args : List Value)
  | invoke (id : EntityId) (receiver : Option Value) (args : List Value)
  | fire (l : HandlerList) (args : List Value)

/-- The function may be called like this. -/
def Admits (s : Store code) (id : EntityId) (receiver : Option Value) : Prop :=
  ∃ f, s.function? id = some f ∧ mayCall f.kind receiver = true

namespace Call

def make (run : Runner code σ) : Call → Run code σ Value
  | .function callee args => callFunction run callee args
  | .method subject member args => callMethod run subject member args
  | .construct ctor args => Invocation.construct run ctor args
  | .invoke id receiver args => Invocation.invoke run id receiver args
  | .fire l args => fun fr =>
    ((l.fire run args fr).1.map fun _ => .undefined, (l.fire run args fr).2)

/-- Made in `fr`, the call passes all checks and comes to run the function `id`, with this receiver
and these arguments, in the frame `start`. A list of handlers comes to each of them whose
predecessors have not failed. -/
inductive Enters (run : Runner code σ) (fr : Frame code σ) :
    Call → EntityId → Option Value → List Value → Frame code σ → Prop
  | function {id : EntityId} {args : List Value} (admits : Admits fr.store id none) :
      Enters run fr (.function (.function id) args) id none (Arguments.normalize args) fr
  | method {v : Value} {m : String} {args : List Value} {id : EntityId}
      (found : methodOf fr.registry fr.store v m = .ok id)
      (admits : Admits fr.store id (some (fr.store.resolve v))) :
      Enters run fr (.method v m args) id (some (fr.store.resolve v)) (Arguments.normalize args) fr
  | construct {ctor : Value} {args : List Value} {id : EntityId} {cls : Option String}
      (found : constructorOf fr.registry fr.store ctor = .ok (id, cls)) :
      Enters run fr (.construct ctor args) (fr.store.unbound id)
        (some (newInstance fr.store cls).1) (Arguments.normalize args)
        (fr.withStore (newInstance fr.store cls).2)
  | invoke {id : EntityId} {receiver : Option Value} {args : List Value}
      (admits : Admits fr.store id receiver) :
      Enters run fr (.invoke id receiver args) id receiver (Arguments.normalize args) fr
  | fire {l : HandlerList} {args : List Value} {before after : List Handler} {h : Handler}
      {start : Frame code σ} (split : l.handlers = before ++ h :: after)
      (passed : HandlerList.fireAll run (Arguments.get args 0) (Arguments.restAfter args 1) before
        fr = (.ok (), start))
      (admits : Admits start.store h.function (some (Arguments.get args 0))) :
      Enters run fr (.fire l args) h.function (some (Arguments.get args 0))
        (Arguments.normalize (Arguments.restAfter args 1)) start

end Call

variable {run : Runner code σ} {fr start left : Frame code σ} {c : Call} {id : EntityId}
  {receiver : Option Value} {args : List Value} {fault : Fault} {ex : HostException}

theorem invoke_of_admits (admits : Admits fr.store id receiver) :
    invoke run id receiver args fr = runFunction run id receiver (Arguments.normalize args) fr := by
  obtain ⟨f, hf, hcall⟩ := admits
  simp only [invoke, hf, hcall, if_true]

/-- What is refused is not refused by a raw host exception. -/
theorem admits_of_invoke (h : (invoke run id receiver args fr).1 = .error (.host ex)) :
    Admits fr.store id receiver := by
  unfold invoke at h
  cases hf : fr.store.function? id with
  | none =>
    rw [hf] at h
    cases h
  | some f =>
    rw [hf] at h
    dsimp only at h
    split at h
    · rename_i hcall
      exact ⟨f, hf, hcall⟩
    · cases h

theorem fireAll_append (receiver : Value) (args : List Value) (before after : List Handler)
    (passed : HandlerList.fireAll run receiver args before fr = (.ok (), start)) :
    HandlerList.fireAll run receiver args (before ++ after) fr =
      HandlerList.fireAll run receiver args after start := by
  induction before generalizing fr with
  | nil =>
    cases passed
    rfl
  | cons first rest ih =>
    rw [HandlerList.fireAll] at passed
    rw [List.cons_append, HandlerList.fireAll]
    rcases hinvoke : invoke run first.function (some receiver) args fr with ⟨fault | y, next⟩
    · rw [hinvoke] at passed
      cases passed
    · rw [hinvoke] at passed
      exact ih passed

/-- A list of handlers fails with the fault of the first that fails. -/
theorem exists_of_fireAll_error {receiver : Value} {handlers : List Handler}
    (h : HandlerList.fireAll run receiver args handlers fr = (.error fault, left)) :
    ∃ before first after start, handlers = before ++ first :: after ∧
      HandlerList.fireAll run receiver args before fr = (.ok (), start) ∧
      invoke run first.function (some receiver) args start = (.error fault, left) := by
  induction handlers generalizing fr with
  | nil => cases h
  | cons first rest ih =>
    rw [HandlerList.fireAll] at h
    rcases hinvoke : invoke run first.function (some receiver) args fr with ⟨fault' | y, next⟩
    · rw [hinvoke] at h
      cases h
      exact ⟨[], first, rest, fr, rfl, rfl, hinvoke⟩
    · rw [hinvoke] at h
      obtain ⟨before, failing, after, start, rfl, hpassed, hfailed⟩ := ih h
      refine ⟨first :: before, failing, after, start, rfl, ?_, hfailed⟩
      rw [HandlerList.fireAll, hinvoke]
      exact hpassed

namespace Call

/-- A fault of the function that is run is the fault of the call. -/
theorem Enters.make_eq (h : c.Enters run fr id receiver args start)
    (failed : runFunction run id receiver args start = (.error fault, left)) :
    c.make run fr = (.error fault, left) := by
  cases h with
  | function admits => rw [make, callFunction, invoke_of_admits admits, failed]
  | method found admits =>
    simp only [make, callMethod, found, invoke_of_admits admits, failed]
  | construct found => simp only [make, Invocation.construct, found, failed]
  | invoke admits => rw [make, invoke_of_admits admits, failed]
  | @fire l args before after h start split passed admits =>
    have hfire : l.fire run args fr = (.error fault, left) := by
      rw [HandlerList.fire, split, fireAll_append _ _ before _ passed, HandlerList.fireAll,
        invoke_of_admits admits, failed]
    simp only [make, hfire]
    rfl

/-- A raw host exception comes out of a call only if it came out of a function that was run. -/
theorem exists_enters (h : (c.make run fr).1 = .error (.host ex)) :
    ∃ id receiver args start, c.Enters run fr id receiver args start ∧
      (runFunction run id receiver args start).1 = .error (.host ex) := by
  cases c with
  | function callee args =>
    cases callee with
    | function id =>
      have admits := admits_of_invoke h
      rw [make, callFunction, invoke_of_admits admits] at h
      exact ⟨_, _, _, _, .function admits, h⟩
    | _ => cases h
  | method v m args =>
    rw [make, callMethod] at h
    cases found : methodOf fr.registry fr.store v m with
    | error fault =>
      rw [found] at h
      obtain rfl : fault = .host ex := Except.error.inj h
      rcases methodOf_eq_error found with h | h | h <;> cases h
    | ok id =>
      rw [found] at h
      have hraised : (Invocation.invoke run id (some (fr.store.resolve v)) args fr).1 =
          .error (.host ex) := by
        rcases hinvoke : Invocation.invoke run id (some (fr.store.resolve v)) args fr with
          ⟨fault | y, next⟩
        · simpa [hinvoke] using h
        · simp [hinvoke] at h
      have admits := admits_of_invoke hraised
      rw [invoke_of_admits admits] at hraised
      exact ⟨_, _, _, _, .method found admits, hraised⟩
  | construct ctor args =>
    rw [make, Invocation.construct] at h
    cases found : constructorOf fr.registry fr.store ctor with
    | error fault =>
      rw [found] at h
      obtain rfl : fault = .host ex := Except.error.inj h
      rcases constructorOf_eq_error found with ⟨name, h⟩ | h <;> cases h
    | ok made =>
      obtain ⟨id, cls⟩ := made
      refine ⟨_, _, _, _, .construct found, ?_⟩
      rw [found] at h
      rcases hrun : runFunction run (fr.store.unbound id) (some (newInstance fr.store cls).1)
        (Arguments.normalize args) (fr.withStore (newInstance fr.store cls).2) with
        ⟨fault | y, next⟩
      · simpa [hrun] using h
      · simp [hrun] at h
  | invoke id receiver args =>
    have admits := admits_of_invoke h
    rw [make, invoke_of_admits admits] at h
    exact ⟨_, _, _, _, .invoke admits, h⟩
  | fire l args =>
    rcases hfire : l.fire run args fr with ⟨fault | y, next⟩
    · simp only [make, hfire] at h
      obtain rfl : fault = .host ex := Except.error.inj h
      obtain ⟨before, first, after, start, split, passed, hraised⟩ := exists_of_fireAll_error hfire
      have hraised := congrArg Prod.fst hraised
      have admits := admits_of_invoke hraised
      rw [invoke_of_admits admits] at hraised
      exact ⟨_, _, _, _, .fire split passed admits, hraised⟩
    · simp only [make, hfire] at h
      cases h

/-- Under its wrappers, the function that the call comes to run is `f`, and the body of `f` ends
with this result in the frame `left`. -/
def Ends (run : Runner code σ) (fr : Frame code σ) (c : Call) (f : FunctionRecord code)
    (result : Except Fault Value) (left : Frame code σ) : Prop :=
  ∃ id receiver args start n inner own, c.Enters run fr id receiver args start ∧
    start.store.Wraps n id receiver inner own ∧ start.store.function? inner = some f ∧
    runOwn run f.body own args start = (result, left)

/-- A raw host exception that comes out of a call was raised in the body of a guest function. -/
theorem exists_ends_of_raised (h : (c.make run fr).1 = .error (.host ex)) :
    ∃ f left, f.origin = .guest ∧ c.Ends run fr f (.error (.host ex)) left := by
  obtain ⟨id, receiver, args, start, enters, hrun⟩ := exists_enters h
  obtain ⟨n, inner, own, f, hwraps, hf, hguest, hown⟩ := exists_wraps_of_runWithin hrun
  exact ⟨f, _, hguest, id, receiver, args, start, n, inner, own, enters, hwraps, hf,
    Prod.ext hown rfl⟩

/-- What a call makes of a fault in the body of a host function. -/
theorem Ends.make_eq {f : FunctionRecord code} (h : c.Ends run fr f (.error fault) left)
    (hhost : f.origin = .host) {fault' : Fault} {left' : Frame code σ}
    (contained : contain .host (.error fault) left = (.error fault', left')) :
    c.make run fr = (.error fault', left') := by
  obtain ⟨id, receiver, args, start, n, inner, own, enters, hwraps, hf, hown⟩ := h
  refine enters.make_eq ?_
  rw [runFunction_of_wraps hwraps hf hhost, hown]
  exact contained

end Call

section Respects

variable {R : Frame code σ → Frame code σ → Prop} (h : run.Respects R)

include h

theorem Call.Enters.respects (enters : c.Enters run fr id receiver args start) : R fr start := by
  cases enters with
  | construct found => exact h.create fr _
  | @fire l args before after first start split passed admits =>
    have fired := h.fireAll (Arguments.get args 0) (Arguments.restAfter args 1) before fr
    rwa [passed] at fired
  | _ => exact h.refl fr

theorem Call.respects_make (c : Call) (fr : Frame code σ) : R fr (c.make run fr).2 := by
  cases c with
  | function callee args => exact h.callFunction callee args fr
  | method v m args => exact h.callMethod v m args fr
  | construct ctor args => exact h.construct ctor args fr
  | invoke id receiver args => exact h.invoke id receiver args fr
  | fire l args => exact h.fireAll _ _ l.handlers fr

end Respects

end Invocation

end Confinement
