import Confinement.Invocation

/-!
# Function guardian

Freezing, naming and binding of functions, and the list of handlers that tells functions apart by
guid: a wrapper bound with a handler's guid counts as that handler.
-/
namespace Confinement

namespace Store

variable {code : Type}

/-- Freezes an object or function. -/
def freeze (s : Store code) (id : EntityId) : Store code :=
  s.update id fun e => { e with frozen := true }

def isFrozen (s : Store code) (id : EntityId) : Bool :=
  ((s.entity? id).map Entity.frozen).getD false

def rename (s : Store code) (id : EntityId) (name : String) : Store code :=
  s.update id fun e => match e.nature with
    | .function f => { e with nature := .function { f with name := some name } }
    | .object .. => e

/-- Sets the name of a function. A frozen function accepts only the name it has. -/
def tagName (s : Store code) (id : EntityId) (name : String) : Except Fault Unit × Store code :=
  match s.function? id with
  | none => (.ok (), s)
  | some f =>
    if s.isFrozen id then
      if f.name = some name then (.ok (), s)
      else (.error (.immutableField s!"name of frozen function {f.debugName}"), s)
    else (.ok (), s.rename id name)

/-- Names a function, then freezes it: what happens where a guest function is defined. -/
def markFrozen (s : Store code) (id : EntityId) (name : String) : Except Fault Unit × Store code :=
  match s.tagName id name with
  | (.error fault, s) => (.error fault, s)
  | (.ok (), s) => (.ok (), s.freeze id)

/-- A new frozen wrapper that always runs the function with this receiver. -/
def bind (s : Store code) (id : EntityId) (receiver : Value) (guid : Option EntityId) :
    Value × Store code :=
  match s.function? id with
  | some f => s.newBound id f receiver guid
  | none => (.undefined, s)

end Store

/-- A registered function and the guid it is known by. -/
structure Handler where
  function : EntityId
  guid : EntityId
  deriving DecidableEq, Repr

structure HandlerList where
  handlers : List Handler := []

namespace HandlerList

def empty : HandlerList := {}

def contains (l : HandlerList) (h : Handler) : Bool := l.handlers.any (·.guid == h.guid)

/-- Adds a handler at the end, unless its guid is present. -/
def add (l : HandlerList) (h : Handler) : Bool × HandlerList :=
  if l.contains h then (false, l) else (true, ⟨l.handlers ++ [h]⟩)

/-- Removes the handler with this guid, whichever wrapper is given, and tells if any was there. -/
def remove (l : HandlerList) (h : Handler) : Bool × HandlerList :=
  let kept := l.handlers.filter (·.guid != h.guid)
  (kept.length != l.handlers.length, ⟨kept⟩)

def size (l : HandlerList) : Nat := l.handlers.length

/-- Invokes handlers in order, up to the first that fails. -/
def fireAll (run : Runner code σ) (receiver : Value) (args : List Value) :
    List Handler → Run code σ Unit
  | [], fr => (.ok (), fr)
  | h :: rest, fr =>
    match Invocation.invoke run h.function (some receiver) args fr with
    | (.error fault, fr) => (.error fault, fr)
    | (.ok _, fr) => fireAll run receiver args rest fr

/-- Tells every handler: the first argument is the receiver, the others are passed on. -/
def fire (l : HandlerList) (run : Runner code σ) (args : List Value) : Run code σ Unit :=
  fireAll run (Arguments.get args 0) (Arguments.restAfter args 1) l.handlers

end HandlerList

end Confinement
