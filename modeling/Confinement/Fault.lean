import Confinement.Emission.Basic
import Confinement.Capability
import Confinement.Store

/-!
# Faults

Everything that can go wrong at the boundary, as causes. What a fault is called, how it is worded
and whether guest code may catch it are functions of the cause.
-/
namespace Confinement

/-- Why an import list is refused. -/
inductive ImportRefusal where
  | reservedName
  | repeated
  | notRestrictable
  | reservedMember
  | stated (reason : String)
  deriving DecidableEq, Repr

def ImportRefusal.text : ImportRefusal → String
  | .reservedName => "name is reserved"
  | .repeated => "imported more than once"
  | .notRestrictable => "only objects and functions can be restricted"
  | .reservedMember => "allow-list names a reserved member"
  | .stated reason => reason

/-- Why a file could not be read. -/
inductive ReadFailure where
  | notFound
  | isDirectory
  | notDirectory
  | nameTooLong
  | nulInPath
  | notPermitted
  | notText
  | stated (reason : String)
  deriving DecidableEq, Repr

def ReadFailure.text : ReadFailure → String
  | .notFound => "No such file or directory (os error 2)"
  | .isDirectory => "Is a directory (os error 21)"
  | .notDirectory => "Not a directory (os error 20)"
  | .nameTooLong => "File name too long (os error 36)"
  | .nulInPath => "file name contained an unexpected NUL byte"
  | .notPermitted => "Permission denied (os error 13)"
  | .notText => "stream did not contain valid UTF-8"
  | .stated reason => reason

/-- What is wrong with a configuration. -/
inductive ConfigFault where
  | badTokenStem (stem : String)
  | unknownCapability (name : String)
  | unsupportedBinding (name kind : String)
  | unreadable (path : String) (why : ReadFailure)
  /-- The text is not a document of the expected shape. -/
  | malformed
  | stated (reason : String)
  deriving DecidableEq, Repr

def ConfigFault.text : ConfigFault → String
  | .badTokenStem stem => s!"token prefix '{stem}' is not a CSS identifier"
  | .unknownCapability name => s!"unknown capability '{name}'"
  | .unsupportedBinding name kind => s!"host binding '{name}' has unsupported type {kind}"
  | .unreadable path why => s!"cannot read {path}: {why.text}"
  | .malformed => "malformed document"
  | .stated reason => reason

/-- An exception raised by host code, with whatever fields the host attached. `id` tells
exceptions apart. -/
structure HostException where
  id : Nat
  name : String
  message : String
  fields : Table Value := Table.empty

inductive Fault where
  | capabilityDenied (capability : Capability) (member : String)
  | unboundName (name : String)
  | immutableBinding (name : String)
  | immutableField (name : String)
  | structuralViolation (violation : Emission.Violation)
  | uncaughtException (moduleId : String) (line : Option Nat) (message : String)
  | notCallable (name : String)
  | notConstructor (name : String)
  | notAnObject (member kind : String)
  | invalidGrant (refusal : GrantRefusal)
  | invalidImport (name : String) (refusal : ImportRefusal)
  | configuration (fault : ConfigFault)
  /-- A value thrown by guest code, or an exception that was tamed. -/
  | thrown (value : Value)
  /-- A raw exception of host code. -/
  | host (exception : HostException)

namespace Fault

/-- Name of the kind of fault, as guest code sees it. -/
def kind : Fault → String
  | .capabilityDenied .. => "CapabilityDenied"
  | .unboundName _ => "UnboundName"
  | .immutableBinding _ => "ImmutableBinding"
  | .immutableField _ => "ImmutableField"
  | .structuralViolation _ => "StructuralViolation"
  | .uncaughtException .. => "UncaughtGuestException"
  | .notCallable _ | .notConstructor _ | .notAnObject .. => "TypeError"
  | .invalidGrant _ => "InvalidGrant"
  | .invalidImport .. => "InvalidImport"
  | .configuration _ => "ConfigError"
  | .thrown _ => "Thrown"
  | .host _ => "HostException"

/-- Whether a guest catch site may observe the fault. A broken structure, a module that already
ended and a bad configuration are not for guest code to handle. -/
def isCatchable : Fault → Bool
  | .structuralViolation _ | .uncaughtException .. | .configuration _ => false
  | _ => true

/-- Wording of a fault; `number` says how identities are numbered. -/
def messageBy (number : EntityId → Nat) (s : Store code) : Fault → String
  | .capabilityDenied c member => s!"capability '{c.name}' denied for member '{member}'"
  | .unboundName name => s!"'{name}' is not defined"
  | .immutableBinding name => s!"'{name}' is a host-owned binding and cannot be assigned"
  | .immutableField name => s!"'{name}' is immutable"
  | .structuralViolation v => s!"structural violation: {v.text}"
  | .uncaughtException moduleId line message =>
    let place := match line with
      | some n => s!" at line {n}"
      | none => ""
    s!"uncaught exception in module '{moduleId}'{place}: {message}"
  | .notCallable name => s!"'{name}' is not callable"
  | .notConstructor name => s!"'{name}' is not a constructor"
  | .notAnObject member kind => s!"cannot access member '{member}' of {kind}"
  | .invalidGrant refusal => s!"invalid grant: {refusal.textBy number}"
  | .invalidImport name refusal => s!"invalid import '{name}': {refusal.text}"
  | .configuration fault => s!"configuration error: {fault.text}"
  | .thrown v => s!"thrown {s.inspect v}"
  | .host ex => s!"host exception {ex.name}: {ex.message}"

def message (s : Store code) (f : Fault) : String := f.messageBy id s

end Fault

end Confinement
