import Confinement.Emission.Basic

/-!
# Markup builder

A builder takes markup piece by piece and releases it only if every element was closed. The first
operation that is out of order poisons it: from then on every operation fails and nothing that was
built is released.
-/
namespace Confinement.Emission

/-- Markup that a finished builder has released. -/
structure Markup where
  text : String
  deriving DecidableEq, Repr

namespace Markup

def empty : Markup := ⟨""⟩

def isEmpty (m : Markup) : Bool := m.text.isEmpty

end Markup

structure MarkupBuilder where
  token : Token
  out : String := ""
  /-- Open elements, innermost first. -/
  opened : List String := []
  /-- The element whose start tag is not finished. -/
  pending : Option String := none
  poisoned : Bool := false

/-- One operation on a builder. -/
inductive MarkupOp where
  | beginTag (name : String)
  | addAttribute (name value : String)
  | finishOpenTag (selfClosing : Bool)
  | addText (content : String)
  | rawInner (markup : Markup)
  | endTag (name : String)

namespace MarkupBuilder

/-- The builder of a new fragment under `token`. -/
def new (token : Token) : MarkupBuilder := { token }

/-- Open elements, outermost first. -/
def openElements (b : MarkupBuilder) : List String := b.opened.reverse

/-- A violation forgets what was built. -/
def fail (b : MarkupBuilder) (v : Violation) : Except Violation Unit × MarkupBuilder :=
  (.error v, { b with poisoned := true, out := "" })

/-- Runs `next` unless the builder is poisoned. -/
def whenUsable (b : MarkupBuilder) (next : Except Violation Unit × MarkupBuilder) :
    Except Violation Unit × MarkupBuilder :=
  if b.poisoned then (.error .builderAborted, b) else next

/-- Runs `next` unless the builder is poisoned or a start tag is unfinished. -/
def whenSettled (b : MarkupBuilder) (action : MarkupAction)
    (next : Except Violation Unit × MarkupBuilder) : Except Violation Unit × MarkupBuilder :=
  b.whenUsable <| match b.pending with
    | some tag => b.fail (.startTagOpen action tag)
    | none => next

def append (b : MarkupBuilder) (piece : String) : MarkupBuilder := { b with out := b.out ++ piece }

def beginTag (b : MarkupBuilder) (name : String) : Except Violation Unit × MarkupBuilder :=
  b.whenSettled .beginTag <|
    if Text.isMarkupName name then (.ok (), { b.append ("<" ++ name) with pending := some name })
    else b.fail (.badName name)

def addAttribute (b : MarkupBuilder) (name value : String) :
    Except Violation Unit × MarkupBuilder :=
  b.whenUsable <| match b.pending with
    | none => b.fail (.attributeOutsideTag name)
    | some _ =>
      if Text.isMarkupName name then
        (.ok (), b.append (" " ++ name ++ "=\"" ++ Text.escapeAttribute value ++ "\""))
      else b.fail (.badName name)

def finishOpenTag (b : MarkupBuilder) (selfClosing : Bool) :
    Except Violation Unit × MarkupBuilder :=
  b.whenUsable <| match b.pending with
    | none => b.fail .noStartTag
    | some tag =>
      if selfClosing then (.ok (), { b.append "/>" with pending := none })
      else (.ok (), { b.append ">" with pending := none, opened := tag :: b.opened })

def addText (b : MarkupBuilder) (content : String) : Except Violation Unit × MarkupBuilder :=
  b.whenSettled .text (.ok (), b.append (Text.escapeText content))

/-- Splices in what another builder released. -/
def rawInner (b : MarkupBuilder) (markup : Markup) : Except Violation Unit × MarkupBuilder :=
  b.whenSettled .rawInner (.ok (), b.append markup.text)

def endTag (b : MarkupBuilder) (name : String) : Except Violation Unit × MarkupBuilder :=
  b.whenSettled .endTag <| match b.opened with
    | [] => b.fail (.strayEnd name)
    | top :: rest =>
      if top = name then (.ok (), { b.append ("</" ++ name ++ ">") with opened := rest })
      else b.fail (.mismatchedEnd name top)

def apply (b : MarkupBuilder) : MarkupOp → Except Violation Unit × MarkupBuilder
  | .beginTag name => b.beginTag name
  | .addAttribute name value => b.addAttribute name value
  | .finishOpenTag selfClosing => b.finishOpenTag selfClosing
  | .addText content => b.addText content
  | .rawInner markup => b.rawInner markup
  | .endTag name => b.endTag name

/-- The builder after a sequence of operations, whatever each of them answered. -/
def run (b : MarkupBuilder) (ops : List MarkupOp) : MarkupBuilder :=
  ops.foldl (fun b op => (b.apply op).2) b

/-- Releases the markup if every element was closed. -/
def finish (b : MarkupBuilder) : Except Violation Markup :=
  if b.poisoned then .error .builderAborted
  else match b.pending, b.opened with
    | some tag, _ => .error (.startTagOpen .finish tag)
    | none, top :: _ => .error (.unclosed top)
    | none, [] => .ok ⟨b.out⟩

end MarkupBuilder

end Confinement.Emission
