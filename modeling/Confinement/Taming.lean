import Confinement.Fault
import Confinement.Text

/-!
# Taming exceptions

Nothing that was raised outside guest code reaches a guest catch site as it is. A fault becomes a
frozen record of its name and message; a host exception keeps, beyond those, only the fields that
the policy allows, and is tamed once; a thrown function becomes a powerless stand-in.
-/
namespace Confinement.Taming

/-- Fields that tell where host code was running. -/
def locationFields : List String :=
  ["stack", "stacktrace", "fileName", "lineNumber", "columnNumber", "sourceURL", "line"]

def isLocationField (field : String) : Bool := locationFields.contains field

/-- Which fields of a host exception survive, beyond `name` and `message`. -/
structure Policy where
  allowed : List String := []

namespace Policy

def none : Policy := {}

/-- Locations and reserved names are never allowed; `name` and `message` always survive. -/
def isCandidate (field : String) : Bool :=
  !(isLocationField field || Text.isReserved field || field == "name" || field == "message")

def ofFields (fields : List String) : Policy := ⟨(fields.filter isCandidate).eraseDups⟩

def allows (p : Policy) (field : String) : Bool := p.allowed.contains field

end Policy

/-- What taming reads and changes: the store, and the record made for each host exception. -/
structure Vault (code : Type) where
  store : Store code := {}
  /-- For each host exception, by number, its record once it was tamed. -/
  records : Array (Option Value) := #[]

namespace Vault

/-- A new host exception. -/
def newException (v : Vault code) (name message : String) (fields : List (String × Value)) :
    HostException × Vault code :=
  (⟨v.records.size, name, message, Table.ofList fields⟩, { v with records := v.records.push none })

def record? (v : Vault code) (ex : HostException) : Option Value := (v.records[ex.id]?).join

end Vault

/-- Whether a value is a product of taming. -/
def isTamed (s : Store code) (v : Value) : Bool :=
  match s.entityOf? v with
  | some { nature := .object _ tamed, .. } => tamed
  | some { nature := .function f, .. } => f.isPowerless
  | none => false

/-- A thrown function is replaced by a stand-in; any other thrown value passes. -/
def tameThrown (s : Store code) (v : Value) : Value × Store code :=
  match v with
  | .function id =>
    match s.function? id with
    | some f => if f.isPowerless then (v, s) else s.newStandIn f.debugName
    | none => (v, s)
  | _ => (v, s)

/-- The fields of an exception that the policy allows, each tamed, in order. -/
def tameFields (p : Policy) (s : Store code) :
    List (String × Value) → List (String × Value) × Store code
  | [] => ([], s)
  | (field, v) :: rest =>
    if p.allows field then
      let (tamed, s) := tameThrown s v
      let (others, s) := tameFields p s rest
      ((field, tamed) :: others, s)
    else tameFields p s rest

/-- The record of a host exception: made on first need, the same one ever after. -/
def tameHost (p : Policy) (v : Vault code) (ex : HostException) : Value × Vault code :=
  match v.record? ex with
  | some record => (record, v)
  | none =>
    let (fields, store) := tameFields p v.store ex.fields.entries
    let (record, store) := store.newTamedRecord
      (("name", .string ex.name) :: ("message", .string ex.message) :: fields)
    (record, ⟨store, v.records.setIfInBounds ex.id (some record)⟩)

/-- What a denial says beyond its name and message. -/
def details : Fault → List (String × Value)
  | .capabilityDenied c member => [("capability", .string c.name), ("member", .string member)]
  | _ => []

/-- The form of a fault that guest code may see. -/
def tame (p : Policy) (v : Vault code) (fault : Fault) : Value × Vault code :=
  match fault with
  | .thrown value =>
    let (tamed, store) := tameThrown v.store value
    (tamed, { v with store })
  | .host ex => tameHost p v ex
  | fault =>
    let (record, store) := v.store.newTamedRecord
      (("name", .string fault.kind) :: ("message", .string (fault.message v.store)) ::
        details fault)
    (record, { v with store })

/-- Readable message of a tamed exception, for reports. -/
def messageOf (s : Store code) (v : Value) : String :=
  match v with
  | .object id =>
    match (s.entity? id).bind (·.ownValue? "message") with
    | some m => s.display m
    | none => s.entityText id
  | v => s.display v

end Confinement.Taming
