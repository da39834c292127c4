import Confinement.Capability
import Confinement.Table

/-!
# The store

Every object and function ever created has an entry, and its identity is the place of that entry.
Entries are never removed, so identities are never reused, and whatever an entry refers to when it
is made stands before it. Objects and functions share one shape: own properties in order, a frozen
flag, and the part that tells them apart.

The type of function code is a parameter: the store only keeps it.
-/
namespace Confinement

/-- One own property. A fixed slot is neither overwritten nor removed, whatever the grants. -/
structure Slot where
  value : Value
  enumerable : Bool := true
  fixed : Bool := false

namespace Slot

def plain (v : Value) : Slot := { value := v }

def hidden (v : Value) : Slot := { value := v, enumerable := false }

def pinned (v : Value) : Slot := { value := v, fixed := true }

end Slot

inductive ObjectOrigin where
  /-- Made by guest code. -/
  | guest
  /-- Made by the host as an instance of a class, with the grants attached to it at birth. -/
  | host (cls : String) (grants : Table CapabilitySet)
  /-- Stands in front of another value and shows only the members in `allow`. -/
  | view (target : Value) (allow : List String)

inductive FunctionKind where
  /-- Callable without a receiver. -/
  | simple
  /-- Runs only with a receiver. -/
  | method
  /-- Runs only through construction; makes instances of a host class, or plain objects. -/
  | constructor (cls : Option String)
  deriving DecidableEq

inductive FunctionOrigin where
  | guest
  | host
  deriving DecidableEq

inductive FunctionBody (code : Type) where
  /-- Compiled-in host code. -/
  | native (c : code)
  /-- Code that carries state of its own. -/
  | closure (c : code)
  /-- Returns a fixed text: what stands in for a function that was thrown. -/
  | standIn (text : String)
  /-- Runs another function, always with this receiver. -/
  | bound (target : EntityId) (receiver : Value)

/-- A function. Wrappers that share a `guid` are interchangeable. -/
structure FunctionRecord (code : Type) where
  name : Option String
  kind : FunctionKind
  origin : FunctionOrigin
  guid : EntityId
  body : FunctionBody code

namespace FunctionRecord

/-- Name used in diagnostics. -/
def debugName (f : FunctionRecord code) : String := f.name.getD "anonymous"

/-- A stand-in holds no code and reaches nothing. -/
def isPowerless (f : FunctionRecord code) : Bool :=
  match f.body with
  | .standIn _ => true
  | _ => false

end FunctionRecord

inductive Nature (code : Type) where
  | object (origin : ObjectOrigin) (tamed : Bool)
  | function (record : FunctionRecord code)

structure Entity (code : Type) where
  nature : Nature code
  properties : Table Slot := Table.empty
  frozen : Bool := false

namespace Entity

/-- Whether the member may not be changed: the entity is frozen or the slot is fixed. -/
def isImmutable (e : Entity code) (member : String) : Bool :=
  e.frozen || ((e.properties.find? member).map Slot.fixed).getD false

/-- Defines or replaces a property, without any check. -/
def define (e : Entity code) (name : String) (slot : Slot) : Entity code :=
  { e with properties := e.properties.insert name slot }

/-- Sets the value of a property and keeps its flags; a new property is enumerable. -/
def setValue (e : Entity code) (name : String) (v : Value) : Entity code :=
  match e.properties.find? name with
  | some slot => e.define name { slot with value := v }
  | none => e.define name (.plain v)

def eraseProperty (e : Entity code) (name : String) : Entity code :=
  { e with properties := e.properties.erase name }

def ownValue? (e : Entity code) (name : String) : Option Value :=
  (e.properties.find? name).map Slot.value

/-- Names of the enumerable properties, in order. -/
def enumerableKeys (e : Entity code) : List String :=
  (e.properties.entries.filter (·.2.enumerable)).map Prod.fst

end Entity

/-- All objects and functions, in order of creation. -/
structure Store (code : Type) where
  entities : Array (Entity code) := #[]

namespace Store

variable {code : Type}

def size (s : Store code) : Nat := s.entities.size

def entity? (s : Store code) (id : EntityId) : Option (Entity code) := s.entities[id]?

/-- Adds an entity; its identity is the size of the store before. -/
def alloc (s : Store code) (e : Entity code) : EntityId × Store code :=
  (s.size, ⟨s.entities.push e⟩)

def update (s : Store code) (id : EntityId) (f : Entity code → Entity code) : Store code :=
  ⟨s.entities.modify id f⟩

@[simp] theorem entity?_alloc_self (s : Store code) (e : Entity code) :
    (s.alloc e).2.entity? (s.alloc e).1 = some e := by
  simp [alloc, entity?, size]

theorem entity?_alloc_of_lt (s : Store code) (e : Entity code) {id : EntityId} (h : id < s.size) :
    (s.alloc e).2.entity? id = s.entity? id := by
  have h' : id < s.entities.size := h
  simp [alloc, entity?, Array.getElem?_push, Nat.ne_of_lt h']

/-- Reading after an update. -/
theorem entity?_update (s : Store code) (id j : EntityId) (f : Entity code → Entity code) :
    (s.update id f).entity? j = if id = j then (s.entity? j).map f else s.entity? j := by
  simp [update, entity?, Array.getElem?_modify]

@[simp] theorem size_alloc (s : Store code) (e : Entity code) :
    (s.alloc e).2.size = s.size + 1 := by
  simp [alloc, size]

/-- The origin of an object. -/
def origin? (s : Store code) (id : EntityId) : Option ObjectOrigin :=
  match s.entity? id with
  | some { nature := .object origin _, .. } => some origin
  | _ => none

def function? (s : Store code) (id : EntityId) : Option (FunctionRecord code) :=
  match s.entity? id with
  | some { nature := .function record, .. } => some record
  | _ => none

/-- The entity a value names. -/
def entityOf? (s : Store code) (v : Value) : Option (Entity code) := v.id?.bind s.entity?

def newObject (s : Store code) (origin : ObjectOrigin) (entries : List (String × Slot))
    (frozen tamed : Bool) : Value × Store code :=
  let (id, s) := s.alloc ⟨.object origin tamed, Table.ofList entries, frozen⟩
  (.object id, s)

/-- A guest object with these properties; a later pair replaces an earlier one of its name. -/
def newPlain (s : Store code) (entries : List (String × Value)) : Value × Store code :=
  s.newObject .guest (entries.map fun e => (e.1, .plain e.2)) false false

/-- A frozen view on `target` that shows the members in `allow`. -/
def newView (s : Store code) (target : Value) (allow : List String) : Value × Store code :=
  s.newObject (.view target allow.eraseDups) [] true false

/-- A frozen guest record marked as tamed. -/
def newTamedRecord (s : Store code) (entries : List (String × Value)) : Value × Store code :=
  s.newObject .guest (entries.map fun e => (e.1, .plain e.2)) true true

/-- A function with the guid that is given. Without one it gets a new guid, for which its own
identity stands in: no other entity has it. -/
def newFunction (s : Store code) (name : Option String) (kind : FunctionKind)
    (origin : FunctionOrigin) (body : FunctionBody code) (frozen : Bool)
    (guid : Option EntityId) : Value × Store code :=
  let record := { name, kind, origin, guid := guid.getD s.size, body }
  let (id, s) := s.alloc ⟨.function record, Table.empty, frozen⟩
  (.function id, s)

/-- Guest functions are not frozen until their definition is complete. -/
def newGuestFunction (s : Store code) (name : Option String) (kind : FunctionKind) (c : code) :
    Value × Store code :=
  s.newFunction name kind .guest (.closure c) false none

/-- Host functions are frozen at birth. -/
def newHostFunction (s : Store code) (name : String) (kind : FunctionKind)
    (body : FunctionBody code) : Value × Store code :=
  s.newFunction (some name) kind .host body true none

/-- A frozen stand-in for the function named `replaced`. -/
def newStandIn (s : Store code) (replaced : String) : Value × Store code :=
  s.newHostFunction replaced .simple (.standIn s!"In lieu of thrown function: {replaced}")

/-- A frozen wrapper that always runs `target` with `receiver`. A bound method is callable without
a receiver; other kinds stay as they are. -/
def newBound (s : Store code) (target : EntityId) (f : FunctionRecord code) (receiver : Value)
    (guid : Option EntityId) : Value × Store code :=
  let kind := match f.kind with
    | .method => .simple
    | k => k
  s.newFunction (f.name.map ("bound " ++ ·)) kind f.origin (.bound target receiver) true guid

/-- What a view stands in front of, and the members it shows. -/
def view? (s : Store code) : Value → Option (Value × List String)
  | .object id =>
    match s.origin? id with
    | some (.view target allow) => some (target, allow)
    | _ => none
  | _ => none

/-- Follows the targets of views, at most `fuel` of them. -/
def resolveWithin (s : Store code) : Nat → Value → Value
  | 0, v => v
  | fuel + 1, v =>
    match s.view? v with
    | some (target, _) => s.resolveWithin fuel target
    | none => v

/-- The value that a view finally stands for; any other value stands for itself. A chain of views
is shorter than the store, because every target is older than its view. -/
def resolve (s : Store code) (v : Value) : Value := s.resolveWithin s.size v

/-- Follows bound wrappers to the function they run, at most `fuel` of them. -/
def unboundWithin (s : Store code) : Nat → EntityId → EntityId
  | 0, id => id
  | fuel + 1, id =>
    match s.function? id with
    | some { body := .bound target _, .. } => s.unboundWithin fuel target
    | _ => id

/-- The function under all bound wrappers. -/
def unbound (s : Store code) (id : EntityId) : EntityId := s.unboundWithin s.size id

def objectText : ObjectOrigin → String
  | .guest => "[object Object]"
  | .host cls _ => s!"[object {cls}]"
  | .view target _ => s!"[view of {target.typeName}]"

def functionText (f : FunctionRecord code) : String :=
  s!"function {f.debugName}() \x7b [membrane] \x7d"

/-- Text of an object or function. -/
def entityText (s : Store code) (id : EntityId) : String :=
  match s.entity? id with
  | some { nature := .object origin _, .. } => objectText origin
  | some { nature := .function record, .. } => functionText record
  | none => "[object]"

/-- Diagnostic text: strings in quotes, Booleans marked. -/
def inspect (s : Store code) : Value → String
  | .undefined => "undefined"
  | .null => "null"
  | .missing => "missing"
  | .boolean b => s!"bool({b})"
  | .number n => n.text
  | .string t => "\"" ++ t ++ "\""
  | .object id | .function id => s.entityText id

/-- The text that conversion of the value to a string gives. -/
def display (s : Store code) : Value → String
  | .string t => t
  | .boolean b => toString b
  | v => s.inspect v

/-- Guest equality: objects by identity, functions by guid, numbers by value. -/
def equal (s : Store code) : Value → Value → Bool
  | .undefined, .undefined | .null, .null | .missing, .missing => true
  | .boolean a, .boolean b => a == b
  | .string a, .string b => a == b
  | .number a, .number b => a.same b
  | .object a, .object b => a == b
  | .function a, .function b =>
    match s.function? a, s.function? b with
    | some f, some g => f.guid == g.guid
    | _, _ => a == b
  | _, _ => false

end Store

/-- A host object under construction: properties and attached grants are declared together. -/
structure HostObject where
  cls : String
  slots : List (String × Slot) := []
  grants : Table CapabilitySet := Table.empty
  frozen : Bool := false

namespace HostObject

/-- Adds a slot; of two with one name the later replaces the earlier in its place. -/
def slot (h : HostObject) (name : String) (s : Slot) : HostObject :=
  { h with slots := h.slots ++ [(name, s)] }

/-- Attaches a grant; the last one for a member counts. -/
def grant (h : HostObject) (member : String) (caps : CapabilitySet) : HostObject :=
  { h with grants := h.grants.insert member caps }

def build (h : HostObject) (s : Store code) : Value × Store code :=
  s.newObject (.host h.cls h.grants) h.slots h.frozen false

end HostObject

end Confinement
