import Confinement.Bindings
import Confinement.Emission.Sandbox
import Confinement.Registry
import Confinement.Taming

/-!
# Module contexts

A context belongs to one module instance: its name, the line it is at, its sandbox and its outer
bindings. The world is what all instances share. A frame pairs the two: code runs in a frame and
hands back the frame it leaves.

`code` is the type of function code, `σ` whatever state that code keeps of its own.
-/
namespace Confinement

structure World (code σ : Type) where
  vault : Taming.Vault code := {}
  /-- Outer bindings of every instance. -/
  scopes : Array Bindings := #[]
  /-- How many scoping tokens have been made. -/
  tokens : Nat := 0
  /-- The guids that tokens get, by the number of the token. -/
  guids : Nat → Emission.Guid := .ofIndex
  state : σ

namespace World

variable {code σ : Type}

def store (w : World code σ) : Store code := w.vault.store

def withStore (w : World code σ) (s : Store code) : World code σ :=
  { w with vault := { w.vault with store := s } }

/-- Runs a step that creates something in the store. -/
def create (w : World code σ) (f : Store code → α × Store code) : α × World code σ :=
  let (a, s) := f w.store
  (a, w.withStore s)

end World

/-- Everything the instances of one loader share. -/
structure Loader (code σ : Type) where
  registry : Registry
  policy : Taming.Policy := .none
  hostBindings : Table Value := Table.empty
  /-- The first part of every scoping token. -/
  stem : String := Emission.defaultStem
  /-- Told of every exception that ends a module: the tamed exception, the module, the line. -/
  report : Value → String → Option Nat → World code σ → World code σ

structure Context (code σ : Type) where
  moduleId : String
  /-- The source line last recorded. -/
  line : Option Nat := none
  loader : Loader code σ
  /-- Which of the world's scopes holds the outer bindings. -/
  scope : Nat
  sandbox : Emission.Sandbox

structure Frame (code σ : Type) where
  context : Context code σ
  world : World code σ

/-- Code that may fail; the frame it leaves counts either way. -/
abbrev Run (code σ : Type) (α : Type) := Frame code σ → Except Fault α × Frame code σ

/-- Runs a piece of function code with a receiver, if there is one, and arguments. -/
abbrev Runner (code σ : Type) := code → Option Value → List Value → Run code σ Value

namespace Frame

variable {code σ : Type}

def registry (fr : Frame code σ) : Registry := fr.context.loader.registry

def store (fr : Frame code σ) : Store code := fr.world.store

def withStore (fr : Frame code σ) (s : Store code) : Frame code σ :=
  { fr with world := fr.world.withStore s }

/-- The outer bindings of the running instance. -/
def bindings (fr : Frame code σ) : Bindings := (fr.world.scopes[fr.context.scope]?).getD {}

def withBindings (fr : Frame code σ) (b : Bindings) : Frame code σ :=
  { fr with world := { fr.world with scopes := fr.world.scopes.setIfInBounds fr.context.scope b } }

/-- A snapshot of the outer bindings of the running instance. -/
def snapshot (fr : Frame code σ) : Snapshot := ⟨fr.context.scope⟩

/-- Tames a fault under the policy in force. -/
def tame (fr : Frame code σ) (fault : Fault) : Value × Frame code σ :=
  let (v, vault) := Taming.tame fr.context.loader.policy fr.world.vault fault
  (v, { fr with world := { fr.world with vault } })

end Frame

/-- How a guarded block ended. -/
inductive CatchOutcome where
  | completed (v : Value)
  /-- The block raised; this is the tamed exception. -/
  | caught (exception : Value)

/-- Runs a block whose faults guest code handles. Faults it may not observe pass through. -/
def catchGuest (body : Run code σ Value) : Run code σ CatchOutcome := fun fr =>
  match body fr with
  | (.ok v, fr) => (.ok (.completed v), fr)
  | (.error fault, fr) =>
    if fault.isCatchable then
      let (v, fr) := fr.tame fault
      (.ok (.caught v), fr)
    else (.error fault, fr)

end Confinement
