import Confinement.Module.Context

/-!
# Loading modules

Loading links a module against its imports and runs its body once in a fresh context. A fault that
leaves the body is tamed and reported; what the module emitted is released unless its sandbox was
aborted or its markup is incomplete.

The imports are the only names a module is linked against. An import with an allow-list arrives as a
view that shows the listed members only.
-/
namespace Confinement

structure Import where
  name : String
  value : Value
  /-- When present, the module sees only these members. -/
  allow : Option (List String) := none

namespace Import

/-- Why this import is refused after the names in `taken`. -/
def refusal? (taken : Table Value) (i : Import) : Option ImportRefusal :=
  if Text.isReserved i.name then some .reservedName
  else if taken.contains i.name then some .repeated
  else match i.allow with
    | none => none
    | some allow =>
      if !i.value.isReference then some .notRestrictable
      else if allow.any Text.isReserved then some .reservedMember
      else none

/-- The value the module gets. -/
def provide (i : Import) (s : Store code) : Value × Store code :=
  match i.allow with
  | none => (i.value, s)
  | some allow => s.newView i.value allow

/-- Links the imports one after the other, or refuses the first bad one. -/
def link (s : Store code) (taken : Table Value) :
    List Import → Except Fault (Table Value × Store code)
  | [] => .ok (taken, s)
  | i :: rest =>
    match i.refusal? taken with
    | some r => .error (.invalidImport i.name r)
    | none =>
      let (v, s) := i.provide s
      link s (taken.insert i.name v) rest

/-- The import table for a list of imports. -/
def table (s : Store code) (imports : List Import) : Except Fault (Table Value × Store code) :=
  link s Table.empty imports

/-- The imported value, or `undefined`. -/
def get (t : Table Value) (name : String) : Value := (t.find? name).getD .undefined

/-- The table as a frozen object: every import readable and enumerable, nothing else. -/
def toObject (t : Table Value) (s : Store code) : Value × Store code :=
  let h := t.entries.foldl
    (fun h e => (h.slot e.1 (.pinned e.2)).grant e.1 (.ofList [.read, .enumerate]))
    ({ cls := "Imports" } : HostObject)
  { h with frozen := true }.build s

end Import

variable {code σ : Type}

/-- The body of a module: given its import table it ends with a value or with none. -/
abbrev ModuleBody (code σ : Type) := Table Value → Run code σ (Option Value)

/-- An exception that ended a module. -/
structure Uncaught where
  exception : Value
  line : Option Nat

structure Loaded where
  moduleId : String
  outcome : Option Value
  /-- Absent when emission was aborted or left incomplete. -/
  output : Option Emission.Output
  uncaught : Option Uncaught

/-- The module's value, or the fault that ended it. -/
def Loaded.result (l : Loaded) (s : Store code) : Except Fault (Option Value) :=
  match l.uncaught with
  | some u =>
    .error (.uncaughtException l.moduleId u.line (Taming.messageOf s u.exception))
  | none => .ok l.outcome

namespace Loader

/-- Refuses a loader whose tokens would not be identifiers. -/
def build (l : Loader code σ) : Except Fault (Loader code σ) :=
  if Text.isCssIdentifier l.stem then .ok l
  else .error (.configuration (.badTokenStem l.stem))

/-- The line that the default handler logs. -/
def reportLine (s : Store code) (exception : Value) (moduleId : String) (line : Option Nat) :
    String :=
  let place := match line with
    | some n => toString n
    | none => "?"
  s!"{moduleId}:{place}: {Taming.messageOf s exception}"

/-- A fresh context, with bindings and a sandbox of its own. -/
def newContext (l : Loader code σ) (moduleId : String) (w : World code σ) :
    Except Fault (Frame code σ) :=
  match Emission.Token.make? l.stem (w.guids (w.tokens + 1)) with
  | none => .error (.configuration (.badTokenStem l.stem))
  | some token =>
    .ok {
      context :=
        { moduleId, loader := l, scope := w.scopes.size, sandbox := Emission.Sandbox.new token }
      world :=
        { w with scopes := w.scopes.push { host := l.hostBindings }, tokens := w.tokens + 1 } }

/-- Tames and reports the fault that ended a module. -/
def conclude (l : Loader code σ) (moduleId : String) (fault : Fault) (fr : Frame code σ) :
    Uncaught × World code σ :=
  let (exception, vault) := Taming.tame l.policy fr.world.vault fault
  let world := l.report exception moduleId fr.context.line { fr.world with vault }
  (⟨exception, fr.context.line⟩, world)

/-- The sandbox as the end of the body leaves it. -/
def sandboxAfter (fr : Frame code σ) : Except Fault (Option Value) → Emission.Sandbox
  | .error (.structuralViolation v) => fr.context.sandbox.abort v
  | _ => fr.context.sandbox

/-- Links a module and runs it once. Fails only if linking does, and then nothing has run. -/
def load (l : Loader code σ) (moduleId : String) (body : ModuleBody code σ)
    (imports : List Import) (w : World code σ) : Except Fault Loaded × World code σ :=
  match Import.table w.store imports with
  | .error fault => (.error fault, w)
  | .ok (table, s) =>
    match l.newContext moduleId (w.withStore s) with
    | .error fault => (.error fault, w)
    | .ok fr =>
      let (result, fr) := body table fr
      let output := (sandboxAfter fr result).finish.toOption
      match result with
      | .ok outcome => (.ok ⟨moduleId, outcome, output, none⟩, fr.world)
      | .error fault =>
        let (uncaught, world) := l.conclude moduleId fault fr
        (.ok ⟨moduleId, none, output, some uncaught⟩, world)

/-- A load that running code performs. The code goes on in its own context. -/
def loadWithin (l : Loader code σ) (moduleId : String) (body : ModuleBody code σ)
    (imports : List Import) : Run code σ Loaded := fun fr =>
  let (result, world) := l.load moduleId body imports fr.world
  (result, { fr with world })

end Loader

end Confinement
