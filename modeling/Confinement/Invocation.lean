import Confinement.Access
import Confinement.Module.Context

/-!
# Mediated calls

Calls, method calls and construction. All checks are made before any code runs, and what runs gets
its arguments normalised. A raw host exception that leaves a host function is tamed on the way.

The arguments object shows a list of arguments to guest code: indices are readable and enumerable,
`length` is readable and hidden, and nothing can be changed.
-/
namespace Confinement.Arguments

/-- An absent member never travels as an argument. -/
def normalize (args : List Value) : List Value := args.map Value.ofArgument

/-- Argument number `i`, or `undefined` if there are fewer. -/
def get (args : List Value) (i : Nat) : Value := (args[i]?).getD .undefined

/-- The arguments after the first `n`, as handlers pass them on. -/
def restAfter (args : List Value) (n : Nat) : List Value := normalize (args.drop n)

def indexed (h : HostObject) : Nat → List Value → HostObject
  | _, [] => h
  | i, v :: rest =>
    indexed ((h.slot (toString i) (.pinned v)).grant (toString i)
      (.ofList [.read, .enumerate])) (i + 1) rest

/-- The frozen object that shows `args`. -/
def toObject (args : List Value) (s : Store code) : Value × Store code :=
  let h := indexed { cls := "Arguments" } 0 args
  let h := (h.slot "length" (.hidden (.int args.length))).grant "length" (.ofList [.read])
  { h with frozen := true }.build s

end Confinement.Arguments

namespace Confinement.Invocation

variable {code σ : Type}

/-- What a host function may let out: never a raw host exception. -/
def contain (origin : FunctionOrigin) (result : Except Fault Value) (fr : Frame code σ) :
    Except Fault Value × Frame code σ :=
  match origin, result with
  | .host, .error (.host ex) =>
    let (v, fr) := fr.tame (.host ex)
    (.error (.thrown v), fr)
  | _, result => (result, fr)

/-- Runs the code of a function, through at most `fuel` bound wrappers. -/
def runWithin (run : Runner code σ) :
    Nat → EntityId → Option Value → List Value → Run code σ Value
  | 0, _, _, _, fr => (.error (.notCallable "function"), fr)
  | fuel + 1, id, receiver, args, fr =>
    match fr.store.function? id with
    | none => (.error (.notCallable "function"), fr)
    | some f =>
      let (result, fr) := match f.body with
        | .native c | .closure c => run c receiver args fr
        | .standIn text => (.ok (.string text), fr)
        | .bound target bound => runWithin run fuel target (some bound) args fr
      contain f.origin result fr

/-- Runs the code of a function. Bound wrappers are younger than what they wrap, so the size of
the store bounds how many there are. -/
def runFunction (run : Runner code σ) (id : EntityId) (receiver : Option Value)
    (args : List Value) : Run code σ Value := fun fr =>
  runWithin run fr.store.size id receiver args fr

/-- Whether a function of this kind may be called with or without a receiver. -/
def mayCall : FunctionKind → Option Value → Bool
  | .simple, _ => true
  | .method, receiver => receiver.isSome
  | .constructor _, _ => false

/-- Calls a function with an explicit receiver or none, as its kind permits. -/
def invoke (run : Runner code σ) (id : EntityId) (receiver : Option Value) (args : List Value) :
    Run code σ Value := fun fr =>
  match fr.store.function? id with
  | none => (.error (.notCallable "function"), fr)
  | some f =>
    if mayCall f.kind receiver then runFunction run id receiver (Arguments.normalize args) fr
    else (.error (.notCallable f.debugName), fr)

/-- Calls a value without a receiver. -/
def callFunction (run : Runner code σ) (callee : Value) (args : List Value) :
    Run code σ Value := fun fr =>
  match callee with
  | .function id => invoke run id none args fr
  | v => (.error (.notCallable v.typeName), fr)

/-- The function that a method call on `subject` runs, if every check passes. -/
def methodOf (r : Registry) (s : Store code) (subject : Value) (member : String) :
    Except Fault EntityId := do
  Access.requireObject subject member
  Access.require r s subject member .call
  match Access.lookup? s subject member with
  | some (.function id) => .ok id
  | _ => .error (.notCallable member)

/-- Calls a member with the value that the subject resolves to as receiver. -/
def callMethod (run : Runner code σ) (subject : Value) (member : String) (args : List Value) :
    Run code σ Value := fun fr =>
  match methodOf fr.registry fr.store subject member with
  | .error fault => (.error fault, fr)
  | .ok id =>
    match invoke run id (some (fr.store.resolve subject)) args fr with
    | (.error fault, fr) => (.error fault, fr)
    | (.ok v, fr) => (.ok (Access.rewrap fr.store subject v), fr)

/-- The member on which a host class grants construction. -/
def constructorMember : String := "constructor"

/-- Whether instances of the class may be made through this constructor. -/
def mayConstruct (r : Registry) (s : Store code) (ctor : Value) : Option String → Bool
  | none => true
  | some cls => r.classAllows cls constructorMember .construct ||
      r.check s ctor constructorMember .construct

/-- The function and class behind a constructor, if construction is permitted. -/
def constructorOf (r : Registry) (s : Store code) (ctor : Value) :
    Except Fault (EntityId × Option String) :=
  match ctor with
  | .function id =>
    match s.function? id with
    | none => .error (.notConstructor "function")
    | some f =>
      match f.kind with
      | .constructor cls =>
        if mayConstruct r s ctor cls then .ok (id, cls)
        else .error (.capabilityDenied .construct constructorMember)
      | _ => .error (.notConstructor f.debugName)
  | v => .error (.notConstructor v.typeName)

/-- A new instance of a host class, or a plain object. -/
def newInstance (s : Store code) : Option String → Value × Store code
  | some cls => { cls : HostObject }.build s
  | none => s.newPlain []

/-- Makes an instance and runs the constructor on it. Bound receivers play no part. The result is
the instance, unless the code returned an object or function. -/
def construct (run : Runner code σ) (ctor : Value) (args : List Value) :
    Run code σ Value := fun fr =>
  match constructorOf fr.registry fr.store ctor with
  | .error fault => (.error fault, fr)
  | .ok (id, cls) =>
    let target := fr.store.unbound id
    let (made, s) := newInstance fr.store cls
    match runFunction run target (some made) (Arguments.normalize args) (fr.withStore s) with
    | (.error fault, fr) => (.error fault, fr)
    | (.ok v, fr) => (.ok (if v.isReference then v else made), fr)

end Confinement.Invocation
