import Confinement.Fault

/-!
# Outer bindings

The module-level names of one module instance. The host's bindings are fixed when the instance is
made and can only be read. Guest bindings come into being through a declaration or an assignment and
are listed in that order. A snapshot is a live, read-only view of the guest bindings of one
instance: it refers to the scope that holds them and copies nothing.
-/
namespace Confinement

inductive BindingState where
  | undeclared
  | declared
  | hostOwned
  deriving DecidableEq, Repr

structure Bindings where
  host : Table Value := Table.empty
  declared : Table Value := Table.empty

namespace Bindings

def state (b : Bindings) (name : String) : BindingState :=
  if b.host.contains name then .hostOwned
  else if b.declared.contains name then .declared
  else .undeclared

/-- Never fails, unlike reading. -/
def isDeclared (b : Bindings) (name : String) : Bool := b.state name != .undeclared

/-- Declares a guest binding that holds `undefined`; declaring twice is harmless. -/
def init (b : Bindings) (name : String) : Except Fault Unit × Bindings :=
  match b.state name with
  | .hostOwned => (.error (.immutableBinding name), b)
  | .declared => (.ok (), b)
  | .undeclared => (.ok (), { b with declared := b.declared.insert name .undefined })

def read (b : Bindings) (name : String) : Except Fault Value :=
  match (b.host.find? name).or (b.declared.find? name) with
  | some v => .ok v
  | none => .error (.unboundName name)

/-- Assigns a name and declares it if needed. -/
def write (b : Bindings) (name : String) (v : Value) : Except Fault Unit × Bindings :=
  if b.host.contains name then (.error (.immutableBinding name), b)
  else (.ok (), { b with declared := b.declared.insert name v })

end Bindings

/-- A view of the guest bindings of one scope. -/
structure Snapshot where
  /-- Which of the world's scopes is watched. -/
  scope : Nat

namespace Snapshot

/-- The guest bindings of the watched scope, as they are now. -/
def bindings (w : Snapshot) (scopes : Array Bindings) : Table Value :=
  ((scopes[w.scope]?).getD {}).declared

def get? (w : Snapshot) (scopes : Array Bindings) (name : String) : Option Value :=
  (w.bindings scopes).find? name

def contains (w : Snapshot) (scopes : Array Bindings) (name : String) : Bool :=
  (w.bindings scopes).contains name

/-- The guest names in the order in which they were declared. -/
def names (w : Snapshot) (scopes : Array Bindings) : List String := (w.bindings scopes).keys

def size (w : Snapshot) (scopes : Array Bindings) : Nat := (w.bindings scopes).size

def isEmpty (w : Snapshot) (scopes : Array Bindings) : Bool := (w.bindings scopes).isEmpty

end Snapshot

end Confinement
