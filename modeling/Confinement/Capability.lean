import Confinement.Value

/-!
# Capabilities and grants

A capability is one kind of access to a member of an object or function. A set of capabilities is
what a grant carries. Sets are listed, and written, in the fixed order of `Capability.all`.

A grant gives a set of capabilities on one member of a subject: of every instance of a class and
its subclasses, or of one particular object or function.
-/
namespace Confinement

/-- One kind of access a guest may be granted on a member. -/
inductive Capability where
  | read
  | write
  | delete
  | enumerate
  | call
  | construct
  deriving DecidableEq, Repr

namespace Capability

def all : List Capability := [.read, .write, .delete, .enumerate, .call, .construct]

theorem mem_all (c : Capability) : c ∈ all := by cases c <;> decide

def name : Capability → String
  | .read => "read"
  | .write => "write"
  | .delete => "delete"
  | .enumerate => "enumerate"
  | .call => "call"
  | .construct => "construct"

/-- The capability of that name, if there is one. -/
def ofName? (text : String) : Option Capability := all.find? (·.name == text)

end Capability

/-- A set of capabilities, one flag for each. -/
structure CapabilitySet where
  read : Bool
  write : Bool
  delete : Bool
  enumerate : Bool
  call : Bool
  construct : Bool
  deriving DecidableEq, Repr

namespace CapabilitySet

def empty : CapabilitySet := ⟨false, false, false, false, false, false⟩

def full : CapabilitySet := ⟨true, true, true, true, true, true⟩

def contains (s : CapabilitySet) : Capability → Bool
  | .read => s.read
  | .write => s.write
  | .delete => s.delete
  | .enumerate => s.enumerate
  | .call => s.call
  | .construct => s.construct

/-- Two sets with the same members are the same set. -/
theorem ext_contains {s t : CapabilitySet} (h : ∀ c, s.contains c = t.contains c) : s = t := by
  cases s; cases t
  simp only [CapabilitySet.mk.injEq]
  exact ⟨h .read, h .write, h .delete, h .enumerate, h .call, h .construct⟩

/-- The set with exactly the members that satisfy `p`. -/
def ofPredicate (p : Capability → Bool) : CapabilitySet :=
  ⟨p .read, p .write, p .delete, p .enumerate, p .call, p .construct⟩

@[simp] theorem contains_ofPredicate (p : Capability → Bool) (c : Capability) :
    (ofPredicate p).contains c = p c := by cases c <;> rfl

@[simp] theorem contains_empty (c : Capability) : empty.contains c = false := by cases c <;> rfl

@[simp] theorem contains_full (c : Capability) : full.contains c = true := by cases c <;> rfl

def union (s t : CapabilitySet) : CapabilitySet :=
  ofPredicate fun c => s.contains c || t.contains c

def insert (s : CapabilitySet) (c : Capability) : CapabilitySet :=
  ofPredicate fun d => s.contains d || d == c

def erase (s : CapabilitySet) (c : Capability) : CapabilitySet :=
  ofPredicate fun d => s.contains d && d != c

def toList (s : CapabilitySet) : List Capability := Capability.all.filter s.contains

def ofList (cs : List Capability) : CapabilitySet := cs.foldl insert empty

def isEmpty (s : CapabilitySet) : Bool := s == empty

@[simp] theorem mem_toList {s : CapabilitySet} {c : Capability} :
    c ∈ s.toList ↔ s.contains c = true := by
  simp [toList, Capability.mem_all]

/-- The set named by a list of names, or the first name that is no capability. -/
def ofNames (names : List String) : Except String CapabilitySet :=
  names.foldlM (fun s n => match Capability.ofName? n with
    | some c => .ok (s.insert c)
    | none => .error n) empty

/-- Written form: the names in order, between braces. -/
def text (s : CapabilitySet) : String :=
  "\x7b" ++ ", ".intercalate (s.toList.map Capability.name) ++ "\x7d"

end CapabilitySet

inductive Subject where
  | ofClass (cls : String)
  | ofInstance (id : EntityId)
  deriving DecidableEq, Repr

namespace Subject

/-- The subject that an object or function is. -/
def ofValue? (v : Value) : Option Subject := v.id?.map .ofInstance

/-- Text of a subject; `number` says how identities are numbered. -/
def textBy (number : EntityId → Nat) : Subject → String
  | .ofClass cls => s!"class {cls}"
  | .ofInstance id => s!"instance #{number id}"

def text : Subject → String := textBy id

end Subject

structure Grant where
  subject : Subject
  member : String
  capabilities : CapabilitySet
  deriving DecidableEq, Repr

/-- Why the registry refuses a grant or a class declaration. -/
inductive GrantRefusal where
  | reservedMember (member : String)
  | callableAndWritable (member : String)
  | alreadyGranted (subject : Subject) (existing : CapabilitySet) (member : String)
  | circular (cls parent : String)
  | alreadyExtends (cls parent : String)
  /-- A reason given in words. -/
  | stated (reason : String)
  deriving DecidableEq, Repr

namespace GrantRefusal

def textBy (number : EntityId → Nat) : GrantRefusal → String
  | .reservedMember member => s!"'{member}' is reserved for the membrane"
  | .callableAndWritable member => s!"'{member}' cannot be both callable and writable"
  | .alreadyGranted subject existing member =>
    s!"{subject.textBy number} already grants {existing.text} on '{member}'"
  | .circular cls parent => s!"class '{cls}' cannot extend '{parent}': circular hierarchy"
  | .alreadyExtends cls parent => s!"class '{cls}' already extends '{parent}'"
  | .stated reason => reason

def text : GrantRefusal → String := textBy id

end GrantRefusal

end Confinement
