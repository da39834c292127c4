import Confinement.Toml.Scalar

/-!
# TOML documents

Reads a whole document: lines of keys and values under headers. Only the tree counts; a text that is
no document gives nothing, without a reason. The reader stands in for a library of its own: what is
stated about configurations is stated about the trees that it yields.

Seen as a table, a date has a single key of its own. Where an item may be anything, that key
decides: a table that begins with it is a date, whatever else it holds, and has to give the date as
text. -/
namespace Confinement.Toml

/-- How deep values and dotted keys may nest. -/
def nestingLimit : Nat := 80

def isBareKeyChar (c : Char) : Bool := c.isAlphanum || c == '-' || c == '_'

def simpleKey : Reader String
  | '\x22' :: rest => basicFrom [] (rest.length + 1) rest
  | '\x27' :: rest => literalFrom [] rest
  | s =>
    match s.takeWhile isBareKeyChar with
    | [] => none
    | run => some (String.ofList run, s.dropWhile isBareKeyChar)

/-- Keys with points between them and blanks around each. -/
def dottedKeyWithin : Nat → Reader (List String)
  | 0, _ => none
  | fuel + 1, s => do
    let (k, rest) ← simpleKey (skipBlanks s)
    match skipBlanks rest with
    | '.' :: rest => do
      let (ks, rest) ← dottedKeyWithin fuel rest
      some (k :: ks, rest)
    | rest => some ([k], rest)

/-- The tables on the way and the last key. -/
def dottedKey (s : List Char) : Option ((List String × String) × List Char) := do
  let (ks, rest) ← dottedKeyWithin s.length s
  if ks.length ≥ nestingLimit then none
  let last ← ks.getLast?
  some ((ks.dropLast, last), rest)

/-- An inline table under construction: keys are assigned as in the document, but tables written
between braces cannot be extended. -/
def inlineTable (pairs : List ((List String × String) × Item)) : Option Item := do
  let es ← pairs.foldlM (fun es p => Entries.assign p.1.2 p.2 p.1.1 es) []
  some (.table .inline es)

mutual

/-- A value, nested in `depth` others. -/
def valueWithin : Nat → Nat → Reader Item
  | 0, _, _ => none
  | fuel + 1, depth, '[' :: rest =>
    if depth + 1 ≥ nestingLimit then none
    else arrayItems fuel (depth + 1) [] rest
  | fuel + 1, depth, '\x7b' :: rest =>
    if depth + 1 ≥ nestingLimit then none
    else
      match skipBlanks rest with
      | '\x7d' :: after => some (.table .inline [], after)
      | rest => inlinePairs fuel (depth + 1) [] rest
  | _, _, s =>
    match s with
    | '\x22' :: _ | '\x27' :: _ => (string s).map fun p => (.string p.1, p.2)
    | s => scalar s

/-- The items of an array after its bracket; `out` holds those read, last first. -/
def arrayItems : Nat → Nat → List Item → Reader Item
  | 0, _, _, _ => none
  | fuel + 1, depth, out, s =>
    match skipLines s.length s with
    | ']' :: rest => some (.array out.reverse, rest)
    | s => do
      let (v, rest) ← valueWithin fuel depth s
      match skipLines rest.length rest with
      | ',' :: rest => arrayItems fuel depth (v :: out) rest
      | ']' :: rest => some (.array (v :: out).reverse, rest)
      | _ => none

/-- The pairs of an inline table after its brace; no comma stands at the end. -/
def inlinePairs : Nat → Nat → List ((List String × String) × Item) → Reader Item
  | 0, _, _, _ => none
  | fuel + 1, depth, out, s => do
    let (key, rest) ← dottedKey s
    let rest ← expect '=' rest
    let (v, rest) ← valueWithin fuel depth (skipBlanks rest)
    match skipBlanks rest with
    | ',' :: rest => inlinePairs fuel depth ((key, v) :: out) rest
    | '\x7d' :: rest => (inlineTable ((key, v) :: out).reverse).map (·, rest)
    | _ => none

end

/-- A value. Every nested value takes at least one character, and every item one more step. -/
def value (s : List Char) : Option (Item × List Char) := valueWithin (2 * s.length + 2) 0 s

/-- A document that is read up to some line: what is complete, and the table that lines go to. -/
structure Draft where
  root : Entries := []
  /-- Path of the table that lines go to; empty for the document itself. -/
  path : List String := []
  /-- Whether that table is an element of an array of tables. -/
  isElement : Bool := false
  current : Entries := []

namespace Draft

/-- Puts the table that lines went to in its place. -/
def close (d : Draft) : Option Entries :=
  match d.path.getLast? with
  | none => some d.current
  | some key =>
    (Entries.within (fun es =>
      if d.isElement then
        match es.find? key with
        | some (.tables elements) =>
          some (es.replace key (.tables (elements ++ [d.current])), ())
        | _ => none
      else (es.add? key (.table .header d.current)).map (·, ())) d.path.dropLast d.root).map Prod.fst

/-- Starts the table of a header. It may exist only because other headers passed through it. -/
def openTable (d : Draft) (path : List String) : Option Draft := do
  let root ← d.close
  let key ← path.getLast?
  let (root, current) ← Entries.within (fun es =>
    match es.find? key with
    | none => some (es, [])
    | some (.table .implied sub) => some (es.erase key, sub)
    | some _ => none) path.dropLast root
  some { root, path, current }

/-- Starts a new element of an array of tables. -/
def openElement (d : Draft) (path : List String) : Option Draft := do
  let root ← d.close
  let key ← path.getLast?
  let (root, _) ← Entries.within (fun es =>
    match es.find? key with
    | none => some (es ++ [(key, .tables [])], ())
    | some (.tables _) => some (es, ())
    | some _ => none) path.dropLast root
  some { root, path, isElement := true, current := [] }

/-- Reads one line, which is not blank, and gives the rest. -/
def line (d : Draft) (s : List Char) : Option (Draft × List Char) :=
  match s with
  | '[' :: '[' :: rest => do
    let ((path, key), rest) ← dottedKey rest
    let rest ← expect ']' (← expect ']' rest)
    let rest ← lineEnd? rest
    some (← d.openElement (path ++ [key]), rest)
  | '[' :: rest => do
    let ((path, key), rest) ← dottedKey rest
    let rest ← lineEnd? (← expect ']' rest)
    some (← d.openTable (path ++ [key]), rest)
  | s => do
    let ((path, key), rest) ← dottedKey s
    let rest ← expect '=' rest
    let (v, rest) ← value (skipBlanks rest)
    let rest ← lineEnd? rest
    let current ← Entries.assign key v path d.current
    some ({ d with current }, rest)

/-- Reads the lines one after the other. -/
def lines : Nat → Draft → List Char → Option Draft
  | 0, _, _ => none
  | fuel + 1, d, s =>
    match skipBlanks s with
    | [] => some d
    | c :: rest =>
      if c == '#' || c == '\n' || c == '\r' then do
        let rest ← lineEnd? (c :: rest)
        lines fuel d rest
      else do
        let (d, rest) ← d.line (c :: rest)
        lines fuel d rest

end Draft

/-- The entries of a document. A byte order mark in front is passed over. -/
def parse (text : String) : Option Entries := do
  let s := match text.toList with
    | '\ufeff' :: rest => rest
    | s => s
  let d ← Draft.lines (s.length + 1) {} s
  d.close

/-- The canonical form of a text that is a date, a time or both, and nothing else. -/
def canonicalDate? (text : String) : Option String :=
  match datetimeText text.toList with
  | some (canonical, []) => some canonical
  | _ => none

/-- The date that a text gives. -/
def dateOf? : Item → Option Item
  | .string text => (canonicalDate? text).map .datetime
  | _ => none

mutual

/-- The item with every table that begins as a date replaced by the date, or nothing if one of them
gives no date. -/
def Item.resolve? : Item → Option Item
  | .array items => (resolveItems items).map .array
  | .table kind entries => resolveTable kind entries
  | .tables elements => (resolveTables elements).map .array
  | item => some item

def resolveItems : List Item → Option (List Item)
  | [] => some []
  | item :: rest => do return (← item.resolve?) :: (← resolveItems rest)

/-- What follows the first key of a date is not looked at. -/
def resolveTable (kind : TableKind) : List (String × Item) → Option Item
  | [] => some (.table kind [])
  | (key, item) :: rest =>
    if key = Item.datetimeKey then dateOf? item
    else do return .table kind ((key, ← item.resolve?) :: (← resolveEntries rest))

def resolveEntries : List (String × Item) → Option (List (String × Item))
  | [] => some []
  | (key, item) :: rest => do return (key, ← item.resolve?) :: (← resolveEntries rest)

def resolveTables : List (List (String × Item)) → Option (List Item)
  | [] => some []
  | entries :: rest => do return (← resolveTable .header entries) :: (← resolveTables rest)

end

end Confinement.Toml
