import Confinement.Guardian
import Confinement.Script.Report
import Confinement.Script.Statement

/-!
# Script sessions

The state that scripts keep beside the world: variables, the log, and whatever they hold by name. A
step of a script runs in a frame, may fail, and hands on the frame either way.
-/
namespace Confinement.Script

structure Session where
  vars : Table Value := .empty
  log : Array Entry := #[]
  /-- Handler lists by name; one that is not there is empty. -/
  lists : Table HandlerList := .empty
  exceptions : Table HostException := .empty
  fragments : Table Emission.Markup := .empty
  /-- Snapshots of outer bindings by name. -/
  snapshots : Table Snapshot := .empty
  modules : Table (List Statement) := .empty
  /-- Set when calls nested deeper than the scripts may. -/
  exhausted : Bool := false

abbrev ScriptFrame := Frame Code Session

/-- A step of a script. -/
abbrev Act (α : Type) := ExceptT Fault (StateM ScriptFrame) α

/-- What the running body can refer to. -/
structure Locals where
  args : List Value := []
  receiver : Option Value := none
  imports : Table Value := .empty

def eval (l : Locals) (s : Session) : Expr → Value
  | .literal v => v
  | .var name => (s.vars.find? name).getD .undefined
  | .arg i => Arguments.get l.args i
  | .this => l.receiver.getD .undefined
  | .imported name => Import.get l.imports name

namespace Act

def lift (run : Run Code Session α) : Act α := ExceptT.mk run

def session : Act Session := return (← get).world.state

def modifySession (f : Session → Session) : Act Unit :=
  modify fun fr => { fr with world := { fr.world with state := f fr.world.state } }

def store : Act (Store Code) := return (← get).store

def setStore (s : Store Code) : Act Unit := modify (·.withStore s)

/-- Runs a step that creates something in the store. -/
def create (f : Store Code → α × Store Code) : Act α := do
  let (a, s) := f (← store)
  setStore s
  return a

/-- Runs a step that changes the store and may be refused. -/
def change (f : Store Code → Except Fault α × Store Code) : Act α :=
  lift fun fr =>
    let (result, s) := f fr.store
    (result, fr.withStore s)

def registry : Act Registry := return (← get).registry

def setRegistry (r : Registry) : Act Unit :=
  modify fun fr =>
    { fr with context := { fr.context with loader := { fr.context.loader with registry := r } } }

/-- The value of an expression. -/
def value (l : Locals) (e : Expr) : Act Value := return eval l (← session) e

def values (l : Locals) (es : List Expr) : Act (List Value) := return es.map (eval l (← session))

def pairs (l : Locals) (es : List (String × Expr)) : Act (List (String × Value)) := do
  let s ← session
  return es.map fun e => (e.1, eval l s e.2)

/-- The function that an expression names. -/
def function (l : Locals) (e : Expr) : Act EntityId := do
  match ← value l e with
  | .function id => return id
  | v => throw (.notCallable v.typeName)

/-- The guid of a function. -/
def guid (id : EntityId) : Act EntityId := do
  match (← store).function? id with
  | some f => return f.guid
  | none => return id

/-- A host exception with these fields. -/
def newException (name message : String) (fields : List (String × Value)) : Act HostException := do
  let fr ← get
  let (ex, vault) := fr.world.vault.newException name message fields
  set { fr with world := { fr.world with vault } }
  return ex

/-- The set with these names. -/
def capabilitySet (names : List String) : Act CapabilitySet :=
  match CapabilitySet.ofNames names with
  | .ok caps => return caps
  | .error name => throw (.configuration (.unknownCapability name))

/-- The fault that an expression describes. -/
def fault (l : Locals) : FaultExpr → Act Fault
  | .ready f => return f
  | .thrown e => return .thrown (← value l e)
  | .exception name => do
    match (← session).exceptions.find? name with
    | some ex => return .host ex
    | none => throw (.unboundName name)

end Act

/-- What a statement answers, and the value it yields. -/
structure Outcome where
  answer : Answer
  yield : Option Value := none

namespace Outcome

def nothing : Outcome := { answer := .nothing }

def ofValue (v : Value) : Act Outcome :=
  return { answer := .value (shownIn (← Act.store) v), yield := some v }

def ofFlag (b : Bool) : Outcome := { answer := .flag b, yield := some (.boolean b) }

def ofText (t : String) : Outcome := { answer := .text t }

/-- The outcome of a step that creates a value. -/
def created (f : Store Code → Value × Store Code) : Act Outcome := do
  ofValue (← Act.create f)

def ofTable (t : Table Value) : Act Outcome := do
  let s ← Act.store
  return { answer := .table (t.entries.map fun e => (e.1, shownIn s e.2)) }

end Outcome

/-- Adds an entry to the log. -/
def logEntry (e : Entry) (fr : ScriptFrame) : ScriptFrame :=
  { fr with world := { fr.world with state :=
    { fr.world.state with log := fr.world.state.log.push e } } }

end Confinement.Script
