import Confinement.Fault
import Confinement.Script.Emit

/-!
# Script statements

A script is a list of statements that create values, use the boundary and inspect what came of it.
The bodies of functions and modules are scripts too.
-/
namespace Confinement.Script

inductive Expr where
  | literal (v : Value)
  /-- A variable; unset ones are `undefined`. -/
  | var (name : String)
  /-- An argument of the running function. -/
  | arg (i : Nat)
  /-- The receiver of the running function. -/
  | this
  | imported (name : String)

/-- Host code that comes with the scripts. -/
inductive Native where
  | this
  | first
  | count
  | arguments
  | rest
  | set
  | fail

inductive SlotKind where
  | plain
  | fixed
  | hidden

def SlotKind.make : SlotKind → Value → Slot
  | .plain => .plain
  | .fixed => .pinned
  | .hidden => .hidden

inductive FaultExpr where
  | ready (f : Fault)
  | thrown (e : Expr)
  /-- The host exception made under this name. -/
  | exception (name : String)

inductive SubjectExpr where
  | ofClass (cls : String)
  | ofValue (e : Expr)

/-- Creating and inspecting values. -/
inductive ValueOp where
  | set (e : Expr)
  | plain (props : List (String × Expr))
  | host (cls : String) (props : List (String × Expr × SlotKind)) (methods : List (String × Native))
      (grants : List (String × List String)) (frozen : Bool)
  | view (target : Expr) (allow : List String)
  | native (name : Option String) (kind : FunctionKind) (code : Native)
  | slot (target : Expr) (member : String) (e : Expr) (kind : SlotKind)
  | dump (e : Expr)
  | describe (e : Expr)
  | equal (a b : Expr)
  | exception (id name message : String) (fields : List (String × Expr))
  | isTamed (e : Expr)
  | message (e : Expr)

/-- Filling and asking the registry. -/
inductive RegistryOp where
  | declare (cls parent : String)
  | grant (subject : SubjectExpr) (member : String) (caps : List String)
  | grantAll (subject : SubjectExpr) (members caps : List String)
  | grants
  | parents
  | chain (cls : String)
  | classAllows (cls member : String) (c : Capability)
  | capabilities (e : Expr) (member : String)
  | check (e : Expr) (member : String) (c : Capability)

/-- Guarding functions and keeping handlers. -/
inductive GuardianOp where
  | freeze (f : Expr)
  | freezeObject (e : Expr)
  | tag (f : Expr) (name : String)
  | mark (f : Expr) (name : String)
  | bind (f receiver : Expr) (guid : Option Expr)
  | addHandler (list : String) (f : Expr)
  | removeHandler (list : String) (f : Expr)
  | hasHandler (list : String) (f : Expr)

/-- Mediated access to members. -/
inductive AccessOp where
  | read (e : Expr) (member : String)
  | write (e : Expr) (member : String) (v : Expr)
  | remove (e : Expr) (member : String)
  | keys (e : Expr)
  | has (e : Expr) (member : String)

/-- Mediated calls. -/
inductive CallOp where
  | call (f : Expr) (args : List Expr)
  | method (e : Expr) (member : String) (args : List Expr)
  | construct (f : Expr) (args : List Expr)
  | invoke (f : Expr) (args : List Expr) (receiver : Option Expr)
  | arguments (args : Option (List Expr))
  | fire (list : String) (args : List Expr)

/-- Outer bindings and the rest of the running context. -/
inductive ContextOp where
  | initOuter (name : String)
  | readOuter (name : String)
  | writeOuter (name : String) (e : Expr)
  | outerState (name : String)
  | hostNames
  | snapshot (id : String)
  | look (id : String)
  | tame (f : FaultExpr)
  | setLine (line : Nat)
  | place
  | policy
  | imports
  | importsObject

structure ImportExpr where
  name : String
  value : Expr
  allow : Option (List String)

inductive Operation where
  | value (op : ValueOp)
  | registry (op : RegistryOp)
  | guardian (op : GuardianOp)
  | access (op : AccessOp)
  | call (op : CallOp)
  | context (op : ContextOp)
  | load (moduleId : String) (imports : List ImportExpr)
  | emit (steps : List SandboxStep)

/-- What is said of every statement that is logged: how it is called, the variable it sets, and
whether its fault leaves the enclosing body. -/
structure Tag where
  name : String
  into : Option String
  leaves : Bool

inductive Statement where
  | perform (tag : Tag) (op : Operation)
  /-- Defines a function whose code is a script. -/
  | define (tag : Tag) (name : Option String) (kind : FunctionKind) (origin : FunctionOrigin)
      (body : List Statement)
  /-- Runs a block whose faults are caught. -/
  | attempt (tag : Tag) (body : List Statement)
  /-- Runs a block in a fresh context. -/
  | within (tag : Tag) (moduleId : String) (body : List Statement)
  | finish (e : Expr)
  | throw (e : Expr)
  | raise (f : FaultExpr)

/-- Code of a function: host code, or a script and the name it was defined under. -/
inductive Code where
  | native (n : Native)
  | script (name : String) (body : List Statement)

end Confinement.Script
