import Confinement.Emission.Basic
import Confinement.Stylesheet

/-!
# Scoped style

A selector is confined to a module when it opens with the module's scoping class or with one of its
scoped ids, does not leave that element through a sibling combinator, and mentions the scoping token
nowhere else.

Style arrives as literal parts with a hole between each pair; the holes are filled with the scoping
token. Rules are let through only if every selector is confined to the module. As with markup, the
first violation poisons the scoper and it forgets what it held.
-/
namespace Confinement.Emission

/-- How often `needle` occurs from the left without overlap, after `skipping` more characters. -/
def occurrencesAfter (needle : List Char) : Nat → List Char → Nat
  | _, [] => 0
  | skipping + 1, _ :: rest => occurrencesAfter needle skipping rest
  | 0, c :: rest =>
    if needle.isPrefixOf (c :: rest) then 1 + occurrencesAfter needle (needle.length - 1) rest
    else occurrencesAfter needle 0 rest

def occurrences (needle s : List Char) : Nat := occurrencesAfter needle 0 s

/-- What stands before and after the first occurrence of `needle`. -/
def splitFirst (needle : List Char) : List Char → Option (List Char × List Char)
  | [] => if needle.isEmpty then some ([], []) else none
  | c :: rest =>
    if needle.isPrefixOf (c :: rest) then some ([], (c :: rest).drop needle.length)
    else (splitFirst needle rest).map fun p => (c :: p.1, p.2)

/-- The rest of `s` after the part of a selector that describes one element. Quoted strings,
parentheses and brackets are passed over whole; `depth` counts the open ones. -/
def skipCompound (depth : Nat) (quote : Option Char) : List Char → List Char
  | [] => []
  | c :: rest =>
    match quote with
    | some q => skipCompound depth (if c == q then none else some q) rest
    | none =>
      if c == '\x22' || c == '\x27' then skipCompound depth (some c) rest
      else if c == '(' || c == '[' then skipCompound (depth + 1) none rest
      else if c == ')' || c == ']' then skipCompound (depth - 1) none rest
      else if depth == 0 && (Text.isBlank c || c == '>' || c == '~' || c == '+') then c :: rest
      else skipCompound depth none rest

/-- Refuses a continuation that reaches siblings of the opening element. -/
def checkCombinator (selector : String) (rest : List Char) : Except Violation Unit :=
  match Text.trimStart rest with
  | '~' :: _ | '+' :: _ => .error (.reachesSiblings selector)
  | _ => .ok ()

/-- What follows the scoping class: nothing, or a descendant or child combinator. -/
def checkAfterClass (selector : String) (rest : List Char) : Except Violation Unit :=
  match rest with
  | [] => .ok ()
  | c :: _ =>
    if Text.isBlank c || c == '>' then checkCombinator selector rest
    else .error (.classNotFollowed selector)

/-- A scoped id: a local name, a hyphen and the token, not continued by identifier characters. -/
def checkId (selector : String) (token id : List Char) : Except Violation Unit :=
  match splitFirst token id with
  | none => .error (.idNotScoped selector)
  | some (before, after) =>
    match before.reverse with
    | '-' :: loc =>
      if loc.isEmpty || !loc.all Text.isIdentChar then .error (.idNotScoped selector)
      else if (after.head?.map Text.isIdentChar).getD false then
        .error (.idExtended selector (String.ofList loc.reverse))
      else checkCombinator selector (skipCompound 0 none after)
    | _ => .error (.idNotScoped selector)

/-- Whether a selector is confined to the module of `token`. -/
def checkConfined (selector : String) (token : Token) : Except Violation Unit :=
  let trimmed := Text.trim selector.toList
  let name := String.ofList trimmed
  let tokenText := token.text.toList
  let count := occurrences tokenText trimmed
  if count != 1 then .error (.tokenCount name count)
  else match trimmed with
    | '.' :: rest =>
      if tokenText.isPrefixOf rest then checkAfterClass name (rest.drop tokenText.length)
      else .error (.openingNotScoped name)
    | '#' :: id => checkId name tokenText id
    | _ => .error (.openingNotScoped name)

structure StyleScoper where
  token : Token
  /-- The rules let through so far. -/
  rules : List Stylesheet.Rule := []
  poisoned : Bool := false

namespace StyleScoper

def new (token : Token) : StyleScoper := { token }

def fail (s : StyleScoper) (v : Violation) : Except Violation Unit × StyleScoper :=
  (.error v, { s with poisoned := true, rules := [] })

/-- Joins the parts with the token, reads the rules and lets them through if all are confined. -/
def emit (s : StyleScoper) (parts : List String) : Except Violation Unit × StyleScoper :=
  if s.poisoned then (.error .scoperAborted, s)
  else match Stylesheet.parse (s.token.text.intercalate parts) with
    | none => s.fail .unparseable
    | some rules =>
      match rules.forM fun r => r.selectors.forM fun x => checkConfined x s.token with
      | .error v => s.fail v
      | .ok () => (.ok (), { s with rules := s.rules ++ rules })

/-- The rules let through, a line each. -/
def stylesheet (s : StyleScoper) : String := "\n".intercalate (s.rules.map Stylesheet.Rule.text)

def finish (s : StyleScoper) : Except Violation String :=
  if s.poisoned then .error .scoperAborted else .ok s.stylesheet

end StyleScoper

end Confinement.Emission
