import Confinement.Fault
import Confinement.Registry

/-!
# Mediated property access

Reading, writing, removing, listing and testing members on behalf of guest code. The registry is
asked first, on the subject as given; immutability is enforced afterwards and whatever the grants
say. The operation then acts on the value that the subject resolves to.

Only writing and removing change the store; they give their answer beside the store that they leave.
-/
namespace Confinement.Access

variable {code : Type}

/-- Looking for a member of nothing at all is a type error; other primitives are merely denied. -/
def requireObject (subject : Value) (member : String) : Except Fault Unit :=
  match subject with
  | .undefined | .null | .missing => .error (.notAnObject member subject.typeName)
  | _ => .ok ()

def require (r : Registry) (s : Store code) (subject : Value) (member : String) (c : Capability) :
    Except Fault Unit :=
  if r.check s subject member c then .ok () else .error (.capabilityDenied c member)

/-- Own member of the value that the subject resolves to, without any check. -/
def lookup? (s : Store code) (subject : Value) (member : String) : Option Value :=
  (s.entityOf? (s.resolve subject)).bind (·.ownValue? member)

/-- Hands back the view in place of the value it finally stands for, so that a view never yields
the unrestricted value behind it. -/
def rewrap (s : Store code) (subject value : Value) : Value :=
  match s.view? subject with
  | none => value
  | some _ => if value.sameIdentity (s.resolve subject) then subject else value

/-- A granted read of an absent member yields `missing`. -/
def read (r : Registry) (s : Store code) (subject : Value) (member : String) :
    Except Fault Value := do
  requireObject subject member
  require r s subject member .read
  .ok (rewrap s subject ((lookup? s subject member).getD .missing))

/-- The checks before a member is changed. -/
def permit (r : Registry) (s : Store code) (subject : Value) (member : String) (c : Capability) :
    Except Fault Unit := do
  requireObject subject member
  require r s subject member c

def write (r : Registry) (s : Store code) (subject : Value) (member : String) (v : Value) :
    Except Fault Unit × Store code :=
  match permit r s subject member .write with
  | .error fault => (.error fault, s)
  | .ok () =>
    let target := s.resolve subject
    match target.id?, s.entityOf? target with
    | some id, some e =>
      if e.isImmutable member then (.error (.immutableField member), s)
      else (.ok (), s.update id (·.setValue member v))
    | _, _ => (.error (.capabilityDenied .write member), s)

/-- Whether anything was removed, and the store that is left. Removing an absent member succeeds. -/
def remove (r : Registry) (s : Store code) (subject : Value) (member : String) :
    Except Fault Bool × Store code :=
  match permit r s subject member .delete with
  | .error fault => (.error fault, s)
  | .ok () =>
    let target := s.resolve subject
    match target.id?, s.entityOf? target with
    | some id, some e =>
      match e.properties.find? member with
      | none => (.ok false, s)
      | some _ =>
        if e.isImmutable member then (.error (.immutableField member), s)
        else (.ok true, s.update id (·.eraseProperty member))
    | _, _ => (.error (.capabilityDenied .delete member), s)

/-- Own enumerable members that the guest may enumerate, in order. -/
def keys (r : Registry) (s : Store code) (subject : Value) : Except Fault (List String) := do
  requireObject subject ""
  let candidates := match s.entityOf? (s.resolve subject) with
    | some e => e.enumerableKeys
    | none => []
  .ok (candidates.filter fun k => !Text.isReserved k && r.check s subject k .enumerate)

/-- Whether the member exists and is readable or callable. -/
def has (r : Registry) (s : Store code) (subject : Value) (member : String) :
    Except Fault Bool := do
  requireObject subject member
  let granted := r.check s subject member .read || r.check s subject member .call
  .ok (granted && (lookup? s subject member).isSome)

end Confinement.Access
