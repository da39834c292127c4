import Confinement.Config
import Confinement.Script.Run

/-!
# Script programs

A program fills the registry, has its loader built, and then runs. It stops at the first fault that
leaves one of its bodies, and at a loader that cannot be built.
-/
namespace Confinement.Script

/-- What becomes of an exception that ends a module. -/
inductive Handling where
  /-- It is recorded as a value. -/
  | record
  /-- It is logged as a line. -/
  | log

def Handling.entry (h : Handling) (s : Store Code) (exception : Value) (moduleId : String)
    (line : Option Nat) : Entry :=
  match h with
  | .record =>
    .uncaught (shownIn s exception) moduleId line (Taming.messageOf s exception)
  | .log => .logged (Loader.reportLine s exception moduleId line)

def Handling.report (h : Handling) (exception : Value) (moduleId : String) (line : Option Nat)
    (w : World Code Session) : World Code Session :=
  { w with state :=
    { w.state with log := w.state.log.push (h.entry w.store exception moduleId line) } }

/-- How the loader differs from a plain one. -/
structure LoaderPlan where
  /-- A configuration to start from, in place of the registry that was filled. -/
  config : Option String := none
  /-- The exception fields that survive taming. -/
  taming : Option (List String) := none
  bindings : List (String × Expr) := []
  stem : Option String := none
  handling : Handling := .record

structure Program where
  setup : List Statement := []
  /-- Absent for a loader with nothing but the registry. -/
  plan : Option LoaderPlan := some {}
  modules : List (String × List Statement) := []
  run : List Statement := []

/-- What a program leaves behind. -/
structure Conclusion where
  log : Array Entry
  /-- The fault that stopped the program. -/
  failed : Option FaultReport
  /-- Whether some call or load was given up because too many were nested. -/
  exhausted : Bool

/-- How deep calls and loads may nest. -/
def maxDepth : Nat := 100000

/-- The loader of a plan, checked. -/
def LoaderPlan.build (p : LoaderPlan) (registry : Registry) (s : Session) :
    Except Fault (Loader Code Session) := do
  let report := p.handling.report
  let base ← match p.config with
    | some text => do (← Config.parse text).loader report
    | none => .ok { registry, report }
  Loader.build { base with
    policy := (p.taming.map Taming.Policy.ofFields).getD base.policy
    hostBindings := p.bindings.foldl (fun t b => t.insert b.1 (eval {} s b.2)) base.hostBindings
    stem := p.stem.getD base.stem }

def buildLoader (plan : Option LoaderPlan) (registry : Registry) (s : Session) :
    Except Fault (Loader Code Session) :=
  match plan with
  | some p => p.build registry s
  | none => .ok { registry, report := Handling.log.report }

namespace Program

/-- The frame outside of every module, with an empty registry. -/
def start (p : Program) : ScriptFrame where
  context :=
    { moduleId := ""
      loader := { registry := .empty, report := Handling.log.report }
      scope := 0
      sandbox := .new ⟨Emission.defaultStem, .ofIndex 0⟩ }
  world := { state := { modules := Table.ofList p.modules } }

def conclude (fr : ScriptFrame) (fault : Option Fault) : Conclusion :=
  ⟨fr.world.state.log, fault.map (faultIn fr.store), fr.world.state.exhausted⟩

/-- Runs a body outside of every module; gives the fault that left it, if one did. -/
def runBody (body : List Statement) (fr : ScriptFrame) : Option Fault × ScriptFrame :=
  match execAt maxDepth body {} fr with
  | (.left fault, fr) => (some fault, fr)
  | (_, fr) => (none, fr)

/-- Sets up the registry, builds the loader, and runs the program. -/
def execute (p : Program) : Conclusion :=
  match runBody p.setup p.start with
  | (some fault, fr) => conclude fr (some fault)
  | (none, fr) =>
    match buildLoader p.plan fr.registry fr.world.state with
    | .error fault => conclude fr (some fault)
    | .ok loader =>
      let (fault, fr) := runBody p.run { fr with context := { fr.context with loader } }
      conclude fr fault

end Program

end Confinement.Script
