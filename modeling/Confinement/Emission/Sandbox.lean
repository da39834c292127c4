import Confinement.Emission.Markup
import Confinement.Emission.Style

/-!
# Emission sandbox

The only way in which a module instance produces document content: a markup builder and a style
scoper under one token. A violation in either aborts the sandbox, and an aborted sandbox releases
nothing.
-/
namespace Confinement.Emission

structure Sandbox where
  token : Token
  markup : MarkupBuilder
  style : StyleScoper
  /-- Why the sandbox was aborted, if it was. -/
  aborted : Option Violation := none

/-- What a module instance emitted. -/
structure Output where
  token : Token
  markup : Markup
  stylesheet : String

/-- The markup in a container that carries the token as its class. -/
def Output.wrapped (o : Output) : String :=
  "<div class=\"" ++ o.token.text ++ "\">" ++ o.markup.text ++ "</div>"

/-- One operation on a sandbox. -/
inductive SandboxOp where
  | markup (op : MarkupOp)
  /-- An `id` attribute whose value is scoped to the module. -/
  | scopedId (loc : String)
  | style (parts : List String)
  | abort (reason : String)

namespace Sandbox

def new (token : Token) : Sandbox :=
  { token, markup := MarkupBuilder.new token, style := StyleScoper.new token }

def isAborted (s : Sandbox) : Bool := s.aborted.isSome

/-- Marks the sandbox as unusable; the first reason stays. -/
def abort (s : Sandbox) (reason : Violation) : Sandbox :=
  { s with aborted := s.aborted.or (some reason) }

/-- Aborts the sandbox if the result of an operation on one of its parts is a violation. -/
def guard (s : Sandbox) (result : Except Violation Unit) : Except Violation Unit × Sandbox :=
  match result with
  | .ok () => (.ok (), s)
  | .error v => (.error v, s.abort v)

def markupOp (s : Sandbox) (op : MarkupOp) : Except Violation Unit × Sandbox :=
  match s.aborted with
  | some reason => (.error (.sandboxAborted reason), s)
  | none =>
    let (result, markup) := s.markup.apply op
    { s with markup }.guard result

def emitStyle (s : Sandbox) (parts : List String) : Except Violation Unit × Sandbox :=
  match s.aborted with
  | some reason => (.error (.sandboxAborted reason), s)
  | none =>
    let (result, style) := s.style.emit parts
    { s with style }.guard result

def scopedIdAttribute (s : Sandbox) (loc : String) : Except Violation Unit × Sandbox :=
  s.markupOp (.addAttribute "id" (s.token.scopedId loc))

def apply (s : Sandbox) : SandboxOp → Except Violation Unit × Sandbox
  | .markup op => s.markupOp op
  | .scopedId loc => s.scopedIdAttribute loc
  | .style parts => s.emitStyle parts
  | .abort reason => (.ok (), s.abort (.stated reason))

/-- The sandbox after a sequence of operations, whatever each of them answered. -/
def run (s : Sandbox) (ops : List SandboxOp) : Sandbox := ops.foldl (fun s op => (s.apply op).2) s

/-- A builder for a fragment to be spliced in. -/
def fragment (s : Sandbox) : MarkupBuilder := MarkupBuilder.new s.token

def finish (s : Sandbox) : Except Violation Output :=
  match s.aborted with
  | some reason => .error (.sandboxAborted reason)
  | none => do
    let markup ← s.markup.finish
    let stylesheet ← s.style.finish
    .ok { token := s.token, markup, stylesheet }

end Sandbox

end Confinement.Emission
