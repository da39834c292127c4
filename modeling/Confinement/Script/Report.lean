import Confinement.Module.Loader
import Confinement.Registry
import Confinement.Script.Emit
import Confinement.Text

/-!
# Script reports

What a script leaves behind: a log of entries, each with the text that values had when it was
written.
-/
namespace Confinement.Script

/-- A value and its diagnostic text at the time. -/
structure Shown where
  value : Value
  text : String

def shownIn (s : Store code) (v : Value) : Shown := ⟨v, s.inspect v⟩

/-- A fault, its wording at the time, and the value if it was thrown. -/
structure FaultReport where
  fault : Fault
  message : String
  thrown : Option Shown

def faultIn (s : Store code) (f : Fault) : FaultReport :=
  ⟨f, f.message s, match f with
    | .thrown v => some (shownIn s v)
    | _ => none⟩

structure ShownSlot where
  name : String
  value : Shown
  enumerable : Bool
  fixed : Bool

inductive OriginReport where
  | guest
  | host (grants : List (String × CapabilitySet))
  | view (target : Shown) (allow : List String)

inductive BodyReport where
  | native
  | closure
  | bound (target receiver : Shown)

structure ObjectReport where
  cls : Option String
  origin : OriginReport

structure FunctionReport where
  name : Option String
  kind : FunctionKind
  origin : FunctionOrigin
  body : BodyReport

/-- What an object or function holds. -/
structure EntityReport where
  nature : ObjectReport ⊕ FunctionReport
  frozen : Bool
  slots : List ShownSlot

/-- Everything that can be seen of a value. -/
structure Dump where
  value : Shown
  tamed : Bool
  entity : Option EntityReport

def objectReport (s : Store code) : ObjectOrigin → ObjectReport
  | .guest => ⟨none, .guest⟩
  | .host cls grants => ⟨some cls, .host (grants.entries.mergeSort fun a b => a.1 ≤ b.1)⟩
  | .view target allow => ⟨none, .view (shownIn s target) allow⟩

def functionReport (s : Store code) (f : FunctionRecord code) : FunctionReport :=
  ⟨f.name, f.kind, f.origin, match f.body with
    | .native _ => .native
    | .closure _ | .standIn _ => .closure
    | .bound target receiver => .bound (shownIn s (.function target)) (shownIn s receiver)⟩

def entityReport (s : Store code) (e : Entity code) : EntityReport where
  nature := match e.nature with
    | .object origin _ => .inl (objectReport s origin)
    | .function f => .inr (functionReport s f)
  frozen := e.frozen
  slots := e.properties.entries.map fun p =>
    ⟨p.1, shownIn s p.2.value, p.2.enumerable, p.2.fixed⟩

def dumpIn (s : Store code) (v : Value) : Dump :=
  ⟨shownIn s v, Taming.isTamed s v, (s.entityOf? v).map (entityReport s)⟩

structure UncaughtReport where
  exception : Dump
  line : Option Nat
  message : String

structure LoadReport where
  moduleId : String
  outcome : Option Shown
  output : Option Emission.Output
  uncaught : Option UncaughtReport
  result : Except FaultReport (Option Shown)

def loadIn (s : Store code) (l : Loaded) : LoadReport where
  moduleId := l.moduleId
  outcome := l.outcome.map (shownIn s)
  output := l.output
  uncaught := l.uncaught.map fun u =>
    ⟨dumpIn s u.exception, u.line, Taming.messageOf s u.exception⟩
  result := match l.result s with
    | .ok v => .ok (v.map (shownIn s))
    | .error f => .error (faultIn s f)

/-- What a snapshot answers about its size, and about each name that it lists. -/
structure SnapshotReport where
  size : Nat
  empty : Bool
  /-- Every name with its value and with whether the snapshot contains it. -/
  entries : List (String × Shown × Bool)

def snapshotIn (s : Store code) (scopes : Array Bindings) (w : Snapshot) : SnapshotReport where
  size := w.size scopes
  empty := w.isEmpty scopes
  entries := (w.names scopes).map fun name =>
    (name, shownIn s ((w.get? scopes name).getD .undefined), w.contains scopes name)

/-- What a statement answers. -/
inductive Answer where
  | nothing
  | value (v : Shown)
  | text (s : String)
  | texts (l : List String)
  | number (n : Nat)
  | flag (b : Bool)
  | dump (d : Dump)
  | completed (v : Shown)
  | caught (d : Dump)
  | grants (l : List Grant)
  | pairs (l : List (String × String))
  /-- A result about a handler list, and its size. -/
  | handlers (result : Bool) (size : Nat)
  | exceptionMade (name message : String) (fields : Nat)
  | loaded (r : LoadReport)
  /-- How a block in a context ended. -/
  | ended (v : Option Shown)
  /-- The state of an outer name, and whether it is declared. -/
  | bindingState (s : BindingState) (isDeclared : Bool)
  | table (entries : List (String × Shown))
  /-- What a snapshot shows, if there is one of that name. -/
  | snapshot (r : Option SnapshotReport)
  | emitted (reports : List SandboxReport)
  | place (moduleId : String) (line : Option Nat)

inductive Entry where
  | done (name : String) (answer : Answer)
  | failed (name : String) (fault : FaultReport)
  /-- A scripted function starts. -/
  | enter (name : String) (receiver : Option Shown) (args : List Shown) (moduleId : String)
  /-- An exception that ended a module was recorded. -/
  | uncaught (exception : Shown) (moduleId : String) (line : Option Nat) (message : String)
  /-- An exception that ended a module was logged as a line. -/
  | logged (text : String)

end Confinement.Script
