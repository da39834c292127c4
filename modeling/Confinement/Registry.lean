import Confinement.Capability
import Confinement.Store
import Confinement.Text

/-!
# Grant registry

The registry holds the explicit grants and the class hierarchy. A grant, once attached, never
changes: repeating it does nothing, contradicting it is refused. The most specific applicable grant
decides: one on the very object, then one attached to a host object at birth, then that of the
nearest class. Guest objects own their enumerable members without any grant.

A call that fills the registry gives its answer beside the registry that it leaves.
-/
namespace Confinement

structure Registry where
  /-- Explicit grants, in order of attachment. -/
  grants : List Grant := []
  /-- The parent of every class that was declared with one. -/
  parents : Table String := Table.empty

namespace Registry

def empty : Registry := {}

/-- The set granted on a member of a subject. -/
def granted? (r : Registry) (subject : Subject) (member : String) : Option CapabilitySet :=
  (r.grants.find? fun g => g.subject = subject ∧ g.member = member).map Grant.capabilities

/-- Parents of `cls` upwards, up to `fuel` of them, as long as none is repeated. -/
def ancestorsWithin (parents : Table String) : Nat → List String → String → List String
  | 0, _, _ => []
  | fuel + 1, seen, cls =>
    match parents.find? cls with
    | none => []
    | some parent =>
      if parent ∈ seen then [] else parent :: ancestorsWithin parents fuel (parent :: seen) parent

/-- A class followed by its ancestors, nearest first. The declared classes bound its length. -/
def classChain (r : Registry) (cls : String) : List String :=
  cls :: ancestorsWithin r.parents r.parents.size [cls] cls

/-- Declares `cls` as a subclass of `parent`. A class has one parent and is not its own ancestor. -/
def declare (r : Registry) (cls parent : String) : Except GrantRefusal Unit × Registry :=
  if cls ∈ r.classChain parent then (.error (.circular cls parent), r)
  else match r.parents.find? cls with
    | some existing =>
      if existing = parent then (.ok (), r) else (.error (.alreadyExtends cls existing), r)
    | none => (.ok (), { r with parents := r.parents.insert cls parent })

/-- A member that can be both replaced and called would let a guest swap the code behind it. -/
def validate (member : String) (caps : CapabilitySet) : Except GrantRefusal Unit :=
  if Text.isReserved member then .error (.reservedMember member)
  else if caps.contains .write && caps.contains .call then .error (.callableAndWritable member)
  else .ok ()

def grant (r : Registry) (subject : Subject) (member : String) (caps : CapabilitySet) :
    Except GrantRefusal Unit × Registry :=
  match validate member caps with
  | .error e => (.error e, r)
  | .ok () =>
    match r.granted? subject member with
    | some existing =>
      if existing = caps then (.ok (), r)
      else (.error (.alreadyGranted subject existing member), r)
    | none => (.ok (), { r with grants := r.grants ++ [⟨subject, member, caps⟩] })

/-- Grants the same set on several members, up to the first that is refused. -/
def grantAll (r : Registry) (subject : Subject) (caps : CapabilitySet) :
    List String → Except GrantRefusal Unit × Registry
  | [] => (.ok (), r)
  | member :: rest =>
    match r.grant subject member caps with
    | (.error e, r) => (.error e, r)
    | (.ok (), r) => r.grantAll subject caps rest

/-- The grant of the nearest class that grants the member. -/
def classGrant? (r : Registry) (cls member : String) : Option CapabilitySet :=
  (r.classChain cls).findSome? fun c => r.granted? (.ofClass c) member

def classAllows (r : Registry) (cls member : String) (c : Capability) : Bool :=
  ((r.classGrant? cls member).map (·.contains c)).getD false

/-- What a guest may do to its own member: everything, unless the slot is hidden. -/
def ownCapabilities (slot : Option Slot) : CapabilitySet :=
  match slot with
  | some s => if s.enumerable then .full else .empty
  | none => .full

/-- What applies to a host object without an explicit grant of its own. -/
def hostCapabilities (r : Registry) (cls : String) (attached : Table CapabilitySet)
    (member : String) : CapabilitySet :=
  ((attached.find? member).or (r.classGrant? cls member)).getD .empty

/-- The capabilities on a member that is not reserved, through at most `fuel` views. -/
def capabilitiesWithin (r : Registry) (s : Store code) (member : String) :
    Nat → Value → CapabilitySet
  | 0, _ => .empty
  | fuel + 1, v =>
    match v.id?, s.entityOf? v with
    | some id, some e =>
      match r.granted? (.ofInstance id) member with
      | some caps => caps
      | none =>
        match e.nature with
        | .object (.view target allow) _ =>
          if member ∈ allow then r.capabilitiesWithin s member fuel target else .empty
        | .object (.host cls attached) _ => r.hostCapabilities cls attached member
        | .object .guest _ => ownCapabilities (e.properties.find? member)
        | .function f =>
          match f.origin with
          | .guest => ownCapabilities (e.properties.find? member)
          | .host => .empty
    | _, _ => .empty

/-- The capabilities that the most specific applicable grant gives on a member of a value. -/
def capabilities (r : Registry) (s : Store code) (v : Value) (member : String) : CapabilitySet :=
  if Text.isReserved member then .empty else r.capabilitiesWithin s member (s.size + 1) v

def check (r : Registry) (s : Store code) (v : Value) (member : String) (c : Capability) : Bool :=
  (r.capabilities s v member).contains c

/-- The order of a listing: by text of the subject, then by member. -/
def listedBefore (a b : Grant) : Bool :=
  a.subject.text < b.subject.text || (a.subject.text == b.subject.text && a.member ≤ b.member)

/-- Every explicit grant, in the order of a listing. -/
def listing (r : Registry) : List Grant := r.grants.mergeSort listedBefore

/-- Class and parent pairs, sorted by class. -/
def parentListing (r : Registry) : List (String × String) :=
  r.parents.entries.mergeSort fun a b => a.1 ≤ b.1

end Registry

end Confinement
