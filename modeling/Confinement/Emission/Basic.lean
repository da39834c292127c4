import Confinement.Text

/-!
# Scoping tokens and structural violations

A token names one module instance in the document: an identifier chosen by the host, a hyphen, and
the thirty-two hexadecimal digits of a number that no other token has. Where such numbers come from
is left open: a world brings its own supply.

A violation is a way in which emitted content can break its structure. One function words them all.
-/
namespace Confinement.Emission

/-- A number of 128 bits that is used once. -/
structure Guid where
  number : BitVec 128
  deriving DecidableEq, Repr

namespace Guid

/-- Where `ofIndex` starts to count; the leading digits keep guids apart from written text. -/
def origin : Nat := 0x6d1c0b5ea94f4e2d83f7a25000000000

/-- A supply of guids that counts. It stands in for a generator of random numbers, and no statement
depends on it. -/
def ofIndex (n : Nat) : Guid := ⟨BitVec.ofNat 128 (origin + n)⟩

/-- The hexadecimal digit of a number below sixteen. -/
def hexDigit (n : Nat) : Char := (Nat.toDigits 16 (n % 16)).headD '0'

/-- The last `width` hexadecimal digits of `n`, most significant first. -/
def hexDigits : Nat → Nat → List Char
  | 0, _ => []
  | width + 1, n => hexDigits width (n / 16) ++ [hexDigit n]

def digits (g : Guid) : List Char := hexDigits 32 g.number.toNat

end Guid

/-- The identifier a token starts with when the host chooses none. -/
def defaultStem : String := "guest"

structure Token where
  stem : String
  guid : Guid
  deriving DecidableEq, Repr

namespace Token

/-- A token with the given first part, provided that is an identifier. -/
def make? (stem : String) (guid : Guid) : Option Token :=
  if Text.isCssIdentifier stem then some ⟨stem, guid⟩ else none

def text (t : Token) : String := t.stem ++ "-" ++ String.ofList t.guid.digits

/-- The document-wide form of an id that is local to the module. -/
def scopedId (t : Token) (loc : String) : String := loc ++ "-" ++ t.text

end Token

/-- The operations that are refused while a start tag is unfinished. -/
inductive MarkupAction where
  | beginTag
  | text
  | rawInner
  | endTag
  | finish
  deriving DecidableEq, Repr

def MarkupAction.name : MarkupAction → String
  | .beginTag => "begin_tag"
  | .text => "text"
  | .rawInner => "raw_inner"
  | .endTag => "end_tag"
  | .finish => "finish"

inductive Violation where
  /-- An operation on a markup builder after a violation. -/
  | builderAborted
  | startTagOpen (action : MarkupAction) (tag : String)
  | badName (name : String)
  | attributeOutsideTag (name : String)
  | noStartTag
  | mismatchedEnd (name top : String)
  | strayEnd (name : String)
  | unclosed (tag : String)
  /-- An operation on a style scoper after a violation. -/
  | scoperAborted
  /-- A style sheet that the reader refuses. The reader gives no reason, so the words of the text
  behind the colon stand in for a parser's. -/
  | unparseable
  | tokenCount (selector : String) (count : Nat)
  | classNotFollowed (selector : String)
  | idNotScoped (selector : String)
  | idExtended (selector loc : String)
  | openingNotScoped (selector : String)
  | reachesSiblings (selector : String)
  /-- An operation on a sandbox after it was aborted for a reason. -/
  | sandboxAborted (reason : Violation)
  /-- A reason given in words. -/
  | stated (reason : String)
  deriving DecidableEq, Repr

namespace Violation

def text : Violation → String
  | .builderAborted => "markup builder already aborted"
  | .startTagOpen action tag => s!"{action.name} while the start tag of <{tag}> is still open"
  | .badName name => s!"'{name}' is not a valid markup name"
  | .attributeOutsideTag name => s!"attribute '{name}' outside a start tag"
  | .noStartTag => "no start tag to finish"
  | .mismatchedEnd name top => s!"</{name}> does not close the open <{top}>"
  | .strayEnd name => s!"</{name}> with no open element"
  | .unclosed tag => s!"<{tag}> is never closed"
  | .scoperAborted => "style scoper already aborted"
  | .unparseable => "unparseable stylesheet: not a list of flat rules"
  | .tokenCount selector count => s!"selector '{selector}' mentions the scoping token {count} times"
  | .classNotFollowed selector =>
    s!"selector '{selector}' must follow the scoping class with a combinator"
  | .idNotScoped selector => s!"selector '{selector}' must open with a scoped id"
  | .idExtended selector loc => s!"selector '{selector}' extends the scoped id '{loc}'"
  | .openingNotScoped selector =>
    s!"selector '{selector}' must open with the scoping class or a scoped id"
  | .reachesSiblings selector => s!"selector '{selector}' reaches siblings outside the module"
  | .sandboxAborted reason => s!"emission already aborted: {reason.text}"
  | .stated reason => reason

end Violation

end Confinement.Emission
