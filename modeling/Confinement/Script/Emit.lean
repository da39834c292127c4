import Confinement.Emission.Sandbox
import Confinement.Table

/-!
# Scripted emission

Steps of a script that build markup or use a sandbox, and what each step answers. Finished fragments
are kept by name and can be spliced in later.
-/
namespace Confinement.Script

open Emission

/-- A step on a markup builder. -/
inductive MarkupStep where
  | apply (op : MarkupOp)
  /-- Splices in the fragment of this name; an unknown one is empty. -/
  | splice (fragment : String)
  /-- Asks for the scoped form of an id. -/
  | scopedId (loc : String)
  | token

/-- A step on a sandbox. -/
inductive SandboxStep where
  | markup (step : MarkupStep)
  | apply (op : SandboxOp)
  /-- Builds a fragment and keeps it if it can be finished. -/
  | fragment (name : String) (steps : List MarkupStep)

/-- What a markup step answered, and the builder after it. -/
structure MarkupReport where
  result : Except Violation (Option String)
  poisoned : Bool
  opened : List String

structure FragmentReport where
  steps : List MarkupReport
  finish : Except Violation Markup

inductive SandboxAnswer where
  | done
  | text (s : String)
  | fragment (r : FragmentReport)

structure SandboxReport where
  result : Except Violation SandboxAnswer
  aborted : Bool

/-- The operation or text that a markup step stands for. -/
def MarkupStep.resolve (step : MarkupStep) (token : Token) (fragments : Table Markup) :
    MarkupOp ⊕ String :=
  match step with
  | .apply op => .inl op
  | .splice name => .inl (.rawInner ((fragments.find? name).getD .empty))
  | .scopedId loc => .inr (token.scopedId loc)
  | .token => .inr token.text

def MarkupStep.run (step : MarkupStep) (fragments : Table Markup) (b : MarkupBuilder) :
    MarkupReport × MarkupBuilder :=
  let (result, b) := match step.resolve b.token fragments with
    | .inl op =>
      let (r, b) := b.apply op
      (r.map fun _ => none, b)
    | .inr text => (.ok (some text), b)
  (⟨result, b.poisoned, b.openElements⟩, b)

def runMarkup (fragments : Table Markup) (b : MarkupBuilder) :
    List MarkupStep → List MarkupReport × MarkupBuilder
  | [] => ([], b)
  | step :: rest =>
    let (report, b) := step.run fragments b
    let (reports, b) := runMarkup fragments b rest
    (report :: reports, b)

/-- Runs the steps on a builder and finishes it. -/
def buildFragment (fragments : Table Markup) (b : MarkupBuilder) (steps : List MarkupStep) :
    FragmentReport :=
  let (reports, b) := runMarkup fragments b steps
  ⟨reports, b.finish⟩

/-- A sandbox and the fragments that were kept. -/
structure Bench where
  sandbox : Sandbox
  fragments : Table Markup

def Bench.applyOp (b : Bench) (op : SandboxOp) : Except Violation SandboxAnswer × Bench :=
  let (r, sandbox) := b.sandbox.apply op
  (r.map fun _ => .done, { b with sandbox })

def SandboxStep.run (step : SandboxStep) (b : Bench) : SandboxReport × Bench :=
  let (result, b) := match step with
    | .apply op => b.applyOp op
    | .markup step =>
      match step.resolve b.sandbox.token b.fragments with
      | .inl op => b.applyOp (.markup op)
      | .inr text => (.ok (.text text), b)
    | .fragment name steps =>
      let report := buildFragment b.fragments b.sandbox.fragment steps
      let fragments := match report.finish with
        | .ok built => b.fragments.insert name built
        | .error _ => b.fragments
      (.ok (.fragment report), { b with fragments })
  (⟨result, b.sandbox.isAborted⟩, b)

def runSandbox (b : Bench) : List SandboxStep → List SandboxReport × Bench
  | [] => ([], b)
  | step :: rest =>
    let (report, b) := step.run b
    let (reports, b) := runSandbox b rest
    (report :: reports, b)

/-- Runs the steps up to the first that fails. -/
def runSandboxStrict (b : Bench) : List SandboxStep → Except Violation (List SandboxReport) × Bench
  | [] => (.ok [], b)
  | step :: rest =>
    match step.run b with
    | (⟨.error v, _⟩, b) => (.error v, b)
    | (report, b) =>
      let (reports, b) := runSandboxStrict b rest
      (reports.map (report :: ·), b)

/-- What a style call answered, and the scoper after it. -/
structure StyleReport where
  result : Except Violation Unit
  poisoned : Bool
  stylesheet : String

def runStyle (s : StyleScoper) : List (List String) → List StyleReport × StyleScoper
  | [] => ([], s)
  | parts :: rest =>
    let (result, s) := s.emit parts
    let (reports, final) := runStyle s rest
    (⟨result, s.poisoned, s.stylesheet⟩ :: reports, final)

end Confinement.Script
