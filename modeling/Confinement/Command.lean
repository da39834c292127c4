import Confinement.Config
import Confinement.Directory

/-!
# Command line

Two commands: `check` shows what a configuration grants, `scope-css` scopes a style template in
which each hole is marked. Reading arguments, answering and wording failures are pure; files are
read between the first and the second.
-/
namespace Confinement.Command

/-- What the arguments ask for. -/
inductive Request where
  | check (path : String)
  | scopeCss (path stem : String)
  /-- A help text, for no command or for one. -/
  | help (topic : Option String)
  deriving DecidableEq, Repr

/-- Positional argument and option of one command, as far as they have been read. -/
structure Given where
  path : Option String := none
  stem : Option String := none
  deriving Inhabited

/-- Takes a positional argument; there is room for one. -/
def Given.position (g : Given) (arg : String) : Option Given :=
  match g.path with
  | none => some { g with path := some arg }
  | some _ => none

/-- Takes the value of the option, which may be given once. -/
def Given.option (g : Given) (v : String) : Option Given :=
  match g.stem with
  | none => some { g with stem := some v }
  | some _ => none

/-- How reading the arguments of a command ends. -/
inductive Reading where
  | given (g : Given)
  | helpAsked
  | refused

def readPositions (g : Given) : List String → Reading
  | [] => .given g
  | arg :: rest =>
    match g.position arg with
    | some g => readPositions g rest
    | none => .refused

/-- Whether an argument looks like an option: a hyphen and something after it. -/
def isOptionLike (arg : String) : Bool :=
  match arg.toList with
  | '-' :: _ :: _ => true
  | _ => false

/-- Reads the arguments of a command; `takesStem` says whether it has the option `--prefix`. -/
def readArguments (takesStem : Bool) (g : Given) : List String → Reading
  | [] => .given g
  | arg :: rest =>
    match arg.toList with
    | ['-', '-'] => readPositions g rest
    | '-' :: '-' :: name =>
      if name == "help".toList then .helpAsked
      else if takesStem && name == "prefix".toList then
        match rest with
        | v :: rest =>
          if isOptionLike v then .refused
          else match g.option v with
            | some g => readArguments takesStem g rest
            | none => .refused
        | [] => .refused
      else if takesStem && "prefix=".toList.isPrefixOf name then
        match g.option (String.ofList (name.drop 7)) with
        | some g => readArguments takesStem g rest
        | none => .refused
      else .refused
    | '-' :: 'h' :: _ => .helpAsked
    | '-' :: 'p' :: attached =>
      if !takesStem then .refused
      else match attached, rest with
        | [], v :: rest =>
          if isOptionLike v then .refused
          else match g.option v with
            | some g => readArguments takesStem g rest
            | none => .refused
        | [], [] => .refused
        | '=' :: v, rest =>
          match g.option (String.ofList v) with
          | some g => readArguments takesStem g rest
          | none => .refused
        | v, rest =>
          match g.option (String.ofList v) with
          | some g => readArguments takesStem g rest
          | none => .refused
    | '-' :: _ :: _ => .refused
    | _ =>
      match g.position arg with
      | some g => readArguments takesStem g rest
      | none => .refused

/-- The request that the arguments make, or nothing if they are no proper use. -/
def parse? : List String → Option Request
  | "check" :: rest =>
    match readArguments false {} rest with
    | .given { path := some path, .. } => some (.check path)
    | .helpAsked => some (.help (some "check"))
    | _ => none
  | "scope-css" :: rest =>
    match readArguments true {} rest with
    | .given { path := some path, stem } => some (.scopeCss path (stem.getD Emission.defaultStem))
    | .helpAsked => some (.help (some "scope-css"))
    | _ => none
  | ["help"] => some (.help none)
  | ["help", topic] =>
    if topic == "check" || topic == "scope-css" || topic == "help" then some (.help (some topic))
    else none
  | arg :: _ =>
    match arg.toList with
    | '-' :: 'h' :: _ => some (.help none)
    | cs => if cs == "--help".toList then some (.help none) else none
  | [] => none

/-- The values of a configuration refer to nothing. -/
def noStore : Store Unit := {}

/-- Why a request fails. -/
inductive Failure where
  | unreadable (path : String) (why : ReadFailure)
  | fault (f : Fault)

def Failure.text : Failure → String
  | .unreadable path why => s!"Error reading file '{path}': {why.text}\n"
  | .fault f => s!"Error: {f.message noStore}\n"

/-- The text with blanks after it up to a width, counted in characters. -/
def padRight (s : String) (width : Nat) : String :=
  s ++ String.ofList (List.replicate (width - s.length) ' ')

def grantLine (g : Grant) : String :=
  "  " ++ padRight g.subject.text 24 ++ " " ++ padRight g.member 20 ++ " " ++ g.capabilities.text

/-- What is needed of a configuration before it is shown. -/
structure Checked where
  config : Config
  registry : Registry
  bindings : Table Value

/-- Checks a configuration as far as a loader would. -/
def validate (c : Config) : Except Fault Checked := do
  let registry ← c.registry
  let bindings ← c.bindings
  if Text.isCssIdentifier c.stem then .ok { config := c, registry, bindings }
  else .error (.configuration (.badTokenStem c.stem))

/-- The lines that show a configuration. -/
def Checked.lines (c : Checked) : List String :=
  [s!"token prefix: {c.config.stem}", "", "classes:"] ++
  c.config.classes.map (fun e => "  " ++ " -> ".intercalate (c.registry.classChain e.name)) ++
  ["", "grants:"] ++
  c.registry.listing.map grantLine ++
  ["", "tamed exception fields: " ++
    ", ".intercalate ("name" :: "message" :: c.config.policy.allowed), "", "host bindings:"] ++
  c.bindings.entries.map fun e => s!"  {e.1} = {noStore.inspect e.2}"

def unlines (ls : List String) : String := String.join (ls.map (· ++ "\n"))

/-- What marks a hole in a style template. -/
def hole : List Char := "$\x7btoken\x7d".toList

/-- The parts of a template between its holes, after `skipping` more characters. -/
def partsAfter : Nat → List Char → List Char → List (List Char)
  | _, part, [] => [part.reverse]
  | skipping + 1, part, _ :: rest => partsAfter skipping part rest
  | 0, part, c :: rest =>
    if hole.isPrefixOf (c :: rest) then part.reverse :: partsAfter (hole.length - 1) [] rest
    else partsAfter 0 (c :: part) rest

def parts (template : String) : List String :=
  (partsAfter 0 [] template.toList).map String.ofList

/-- The scoped form of a template under a token. -/
def scope (template : String) (token : Emission.Token) : Except Fault String :=
  match (Emission.StyleScoper.new token).emit (parts template) with
  | (.error v, _) => .error (.structuralViolation v)
  | (.ok (), scoper) => .ok scoper.stylesheet

def mainHelp : List String :=
  ["Object-capability membrane tooling", "", "Usage: membrane <COMMAND>", "", "Commands:",
    "  check      Validate a configuration file and print what it grants",
    "  scope-css  Scope a stylesheet template; `$\x7btoken\x7d` marks each hole",
    "  help       Print this message or the help of the given subcommand(s)", "", "Options:",
    "  -h, --help  Print help"]

def checkHelp : List String :=
  ["Validate a configuration file and print what it grants", "", "Usage: membrane check <CONFIG>",
    "", "Arguments:", "  <CONFIG>  Path to the TOML configuration", "", "Options:",
    "  -h, --help  Print help"]

def scopeCssHelp : List String :=
  ["Scope a stylesheet template; `$\x7btoken\x7d` marks each hole", "",
    "Usage: membrane scope-css [OPTIONS] <FILE>", "", "Arguments:",
    "  <FILE>  Path to the style template", "", "Options:",
    "  -p, --prefix <PREFIX>  Scoping token prefix [default: guest]",
    "  -h, --help             Print help"]

def helpHelp : List String :=
  ["Print this message or the help of the given subcommand(s)", "",
    "Usage: membrane help [COMMAND]...", "", "Arguments:",
    "  [COMMAND]...  Print help for the subcommand(s)"]

def helpText (topic : Option String) : String :=
  unlines <| match topic with
    | some "check" => checkHelp
    | some "scope-css" => scopeCssHelp
    | some "help" => helpHelp
    | _ => mainHelp

/-- The file that a request reads. -/
def Request.path? : Request → Option String
  | .check path | .scopeCss path _ => some path
  | .help _ => none

/-- What a request prints, given the content of its file and a guid that was never used. -/
def respond (request : Request) (content : Except ReadFailure String) (guid : Emission.Guid) :
    Except Failure String :=
  match request with
  | .help topic => .ok (helpText topic)
  | .check path =>
    match (Config.ofFile path content).bind validate with
    | .ok checked => .ok (unlines checked.lines)
    | .error f => .error (.fault f)
  | .scopeCss path stem =>
    match content with
    | .error why => .error (.unreadable path why)
    | .ok template =>
      match Emission.Token.make? stem guid with
      | none => .error (.fault (.configuration (.badTokenStem stem)))
      | some token =>
        match scope template token with
        | .ok css => .ok (css ++ "\n")
        | .error f => .error (.fault f)

/-- What the arguments give in a directory, or nothing if they are no proper use. -/
def runIn (d : Directory) (args : List String) (guid : Emission.Guid) :
    Option (Except Failure String) := do
  let request ← parse? args
  let content := match request.path? with
    | some path => d.read path
    | none => .error .notFound
  return respond request content guid

end Confinement.Command
