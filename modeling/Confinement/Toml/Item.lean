/-!
# TOML items

The tree that a TOML document describes. A table remembers how it came into being, because that
decides whether later lines may add to it.
-/
namespace Confinement.Toml

/-- How a table came into being. -/
inductive TableKind where
  /-- Named by a header, or the document itself. -/
  | header
  /-- Only passed through by the header of another table. -/
  | implied
  /-- Made by a dotted key. -/
  | dotted
  /-- Written between braces; complete as it stands. -/
  | inline
  deriving DecidableEq, Repr

inductive Item where
  | string (s : String)
  | integer (n : Int)
  | float (x : Float)
  | boolean (b : Bool)
  /-- A date, a time or both, in canonical form. -/
  | datetime (text : String)
  | array (items : List Item)
  | table (kind : TableKind) (entries : List (String × Item))
  /-- Tables under a doubled header, in order. -/
  | tables (elements : List (List (String × Item)))

abbrev Entries := List (String × Item)

namespace Item

/-- Name of the item's type. -/
def typeName : Item → String
  | .string _ => "string"
  | .integer _ => "integer"
  | .float _ => "float"
  | .boolean _ => "boolean"
  | .datetime _ => "datetime"
  | .array _ | .tables _ => "array"
  | .table .. => "table"

/-- The name under which a date, seen as a table, holds its text. -/
def datetimeKey : String := "$__toml_private_datetime"

/-- The entries of an item that is a table or can be seen as one. -/
def entries? : Item → Option (List (String × Item))
  | .table _ entries => some entries
  | .datetime text => some [(datetimeKey, .string text)]
  | _ => none

end Item

namespace Entries

def find? (es : Entries) (key : String) : Option Item :=
  (List.find? (·.1 == key) es).map Prod.snd

def replace (es : Entries) (key : String) (item : Item) : Entries :=
  es.map fun e => if e.1 == key then (key, item) else e

def erase (es : Entries) (key : String) : Entries := es.filter (·.1 != key)

/-- Adds an entry at the end, if the key is free. -/
def add? (es : Entries) (key : String) (item : Item) : Option Entries :=
  match es.find? key with
  | some _ => none
  | none => some (es ++ [(key, item)])

/-- Assigns a key below the tables named by `path`. Tables that the path needs are made; it may
pass only through tables that a path may extend, and must end in one that dotted keys made. -/
def assign (key : String) (item : Item) : List String → Entries → Option Entries
  | [], es => es.add? key item
  | p :: rest, es =>
    match es.find? p with
    | none => do
      let sub ← assign key item rest []
      some (es ++ [(p, .table .dotted sub)])
    | some (.table kind sub) =>
      if kind = .dotted ∨ (kind = .implied ∧ rest ≠ []) then do
        let sub ← assign key item rest sub
        some (es.replace p (.table kind sub))
      else none
    | some (.tables elements) =>
      match elements.getLast?, rest with
      | some last, _ :: _ => do
        let sub ← assign key item rest last
        some (es.replace p (.tables (elements.dropLast ++ [sub])))
      | _, _ => none
    | some _ => none

/-- Changes the table that a header's path leads to. Tables on the way are made if absent; in an
array of tables the path enters the last one. -/
def within (f : Entries → Option (Entries × α)) : List String → Entries → Option (Entries × α)
  | [], es => f es
  | p :: rest, es =>
    match es.find? p with
    | none => do
      let (sub, a) ← within f rest []
      some (es ++ [(p, .table .implied sub)], a)
    | some (.table kind sub) =>
      if kind = .inline then none
      else do
        let (sub, a) ← within f rest sub
        some (es.replace p (.table kind sub), a)
    | some (.tables elements) =>
      match elements.getLast? with
      | none => none
      | some last => do
        let (sub, a) ← within f rest last
        some (es.replace p (.tables (elements.dropLast ++ [sub])), a)
    | some _ => none

end Entries

end Confinement.Toml
