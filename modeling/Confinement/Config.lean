import Confinement.Module.Loader
import Confinement.Toml.Document

/-!
# Configuration

A configuration describes classes, grants, the exception fields that survive taming, host bindings
and the first part of scoping tokens. It is written as a TOML document; what the document leaves out
has a default, and what it says beyond that is ignored.
-/
namespace Confinement

structure ClassEntry where
  name : String
  parent : Option String

structure GrantEntry where
  cls : String
  member : String
  capabilities : List Capability

structure Config where
  stem : String := Emission.defaultStem
  allowedFields : List String := []
  classes : List ClassEntry := []
  grants : List GrantEntry := []
  /-- Host bindings in the order of the document, with dates told from tables. -/
  hostBindings : List (String × Toml.Item) := []

namespace Config

open Toml (Item Entries)

/-- An item seen as a record: fields by name or, for an array, by place. -/
inductive Record where
  | named (entries : Entries)
  | placed (items : List Item)

def record? : Item → Option Record
  | .array items => some (.placed items)
  | .tables elements => some (.placed (elements.map (.table .header)))
  | item => item.entries?.map .named

/-- The field with this name or this place. -/
def Record.field? (r : Record) (name : String) (place : Nat) : Option Item :=
  match r with
  | .named entries => entries.find? name
  | .placed items => items[place]?

def text? : Item → Option String
  | .string s => some s
  | _ => none

def list? (f : Item → Option α) : Item → Option (List α)
  | .array items => items.mapM f
  | .tables elements => elements.mapM fun es => f (.table .header es)
  | _ => none

def isEmptyItem : Item → Bool
  | .array items => items.isEmpty
  | .table _ entries => entries.isEmpty
  | .tables elements => elements.isEmpty
  | _ => false

/-- A capability by name, or as a table whose only key is the name and whose value is empty. -/
def capability? : Item → Option Capability
  | .string s => Capability.ofName? s
  | .table _ [(key, v)] => if isEmptyItem v then Capability.ofName? key else none
  | _ => none

/-- A field that may be left out. -/
def optional (f : Item → Option α) (default : α) : Option Item → Option α
  | none => some default
  | some item => f item

def stem? (item : Item) : Option String := do
  let r ← record? item
  optional text? Emission.defaultStem (r.field? "token_prefix" 0)

def allowedFields? (item : Item) : Option (List String) := do
  let r ← record? item
  optional (list? text?) [] (r.field? "allowed_fields" 0)

/-- A class; by place, its parent has to be given. -/
def class? (item : Item) : Option ClassEntry := do
  let r ← record? item
  let name ← (r.field? "name" 0).bind text?
  match r, r.field? "parent" 1 with
  | _, some p => do
    let parent ← text? p
    some ⟨name, some parent⟩
  | .named _, none => some ⟨name, none⟩
  | .placed _, none => none

def grant? (item : Item) : Option GrantEntry := do
  let r ← record? item
  let cls ← (r.field? "class" 0).bind text?
  let member ← (r.field? "member" 1).bind text?
  let capabilities ← (r.field? "capabilities" 2).bind (list? capability?)
  some { cls, member, capabilities }

def ofEntries? (es : Entries) : Option Config := do
  let stem ← optional stem? Emission.defaultStem (es.find? "membrane")
  let allowedFields ← optional allowedFields? [] (es.find? "taming")
  let classes ← optional (list? class?) [] (es.find? "classes")
  let grants ← optional (list? grant?) [] (es.find? "grants")
  let hostBindings ← optional Item.entries? [] (es.find? "host_bindings")
  let hostBindings ← Toml.resolveEntries hostBindings
  some { stem, allowedFields, classes, grants, hostBindings }

/-- The configuration that a document describes. -/
def parse (text : String) : Except Fault Config :=
  match (Toml.parse text).bind ofEntries? with
  | some c => .ok c
  | none => .error (.configuration .malformed)

/-- The configuration in the content of a file, or the reason why there is none. -/
def ofFile (path : String) (content : Except ReadFailure String) : Except Fault Config :=
  match content with
  | .ok text => parse text
  | .error why => .error (.configuration (.unreadable path why))

def declareAll (r : Registry) : List ClassEntry → Except GrantRefusal Registry
  | [] => .ok r
  | c :: rest =>
    match c.parent with
    | none => declareAll r rest
    | some parent =>
      match r.declare c.name parent with
      | (.ok (), r) => declareAll r rest
      | (.error e, _) => .error e

def grantAll (r : Registry) : List GrantEntry → Except GrantRefusal Registry
  | [] => .ok r
  | g :: rest =>
    match r.grant (.ofClass g.cls) g.member (.ofList g.capabilities) with
    | (.ok (), r) => grantAll r rest
    | (.error e, _) => .error e

/-- The registry: classes in order, then grants in order, up to the first refusal. -/
def registry (c : Config) : Except Fault Registry :=
  match (declareAll .empty c.classes).bind (grantAll · c.grants) with
  | .ok r => .ok r
  | .error e => .error (.invalidGrant e)

def policy (c : Config) : Taming.Policy := .ofFields c.allowedFields

/-- A host binding holds a string, a number or a truth value. -/
def bindingValue? : Item → Option Value
  | .string s => some (.string s)
  | .integer n => some (.int n)
  | .float x => some (.number (.float x))
  | .boolean b => some (.boolean b)
  | _ => none

def bindAll (t : Table Value) : Entries → Except Fault (Table Value)
  | [] => .ok t
  | (name, item) :: rest =>
    match bindingValue? item with
    | some v => bindAll (t.insert name v) rest
    | none => .error (.configuration (.unsupportedBinding name item.typeName))

def bindings (c : Config) : Except Fault (Table Value) := bindAll .empty c.hostBindings

/-- A loader with everything the configuration describes, not yet checked. -/
def loader (c : Config) (report : Value → String → Option Nat → World code σ → World code σ) :
    Except Fault (Loader code σ) := do
  let registry ← c.registry
  let hostBindings ← c.bindings
  .ok { registry, policy := c.policy, hostBindings, stem := c.stem, report }

end Config

end Confinement
