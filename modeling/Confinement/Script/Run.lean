import Confinement.Script.Session

/-!
# Running scripts

Statements run one after the other. Each that is executed leaves an entry in the log, after whatever
ran inside it; a fault ends the enclosing body only if the statement says so. Scripts call functions
and load modules whose bodies are scripts again: a depth bounds that recursion, everything else
recurs on the script itself.
-/
namespace Confinement.Script

/-- How a body goes on after a statement. -/
inductive Flow where
  | next
  | returned (v : Value)
  | left (f : Fault)

/-- Runs a body in a frame. -/
abbrev Exec := List Statement → Locals → ScriptFrame → Flow × ScriptFrame

/-- The result of a body that ends with a value or with none. -/
def Flow.result : Flow → Except Fault (Option Value)
  | .next => .ok none
  | .returned v => .ok (some v)
  | .left f => .error f

/-- The result of a body that ends with a value in any case. -/
def Flow.value (flow : Flow) : Except Fault Value := flow.result.map (·.getD .undefined)

/-- Host code that comes with the scripts. -/
def runNative (n : Native) (receiver : Option Value) (args : List Value) : Act Value := do
  match n with
  | .this => return receiver.getD .undefined
  | .first => return Arguments.get args 0
  | .count => return .int args.length
  | .arguments => Act.create (Arguments.toObject args)
  | .rest => Act.create (Arguments.toObject (Arguments.restAfter args 1))
  | .set =>
    match receiver with
    | some (.object id) =>
      let s ← Act.store
      Act.setStore (s.update id
        (·.setValue (s.display (Arguments.get args 0)) (Arguments.get args 1)))
    | _ => pure ()
    return .undefined
  | .fail =>
    let message := (← Act.store).display (Arguments.get args 0)
    throw (.host (← Act.newException "NativeError" message
      [("stack", .string "at native"), ("code", Arguments.get args 1),
        ("detail", Arguments.get args 2)]))

/-- Runs function code; `inner` runs the bodies of scripted functions. -/
def runCode (inner : Exec) : Runner Code Session
  | .native n, receiver, args => runNative n receiver args
  | .script name body, receiver, args => fun fr =>
    let shown := shownIn fr.store
    let fr := logEntry
      (.enter name (receiver.map shown) (args.map shown) fr.context.moduleId) fr
    let (flow, fr) := inner body { args, receiver } fr
    (flow.value, fr)

def hostDraft (l : Locals) (cls : String) (props : List (String × Expr × SlotKind))
    (methods : List (String × Native)) (grants : List (String × List String)) (frozen : Bool) :
    Act HostObject := do
  let mut h : HostObject := { cls, frozen }
  for (name, e, kind) in props do
    h := h.slot name (kind.make (← Act.value l e))
  for (name, n) in methods do
    let f ← Act.create fun s => s.newHostFunction name .method (.native (.native n))
    h := h.slot name (.plain f)
  for (member, names) in grants do
    h := h.grant member (← Act.capabilitySet names)
  return h

/-- A constructor is named for its class. -/
def nativeName (name : Option String) : FunctionKind → String
  | .constructor (some cls) => cls
  | _ => name.getD "anonymous"

def ValueOp.perform (l : Locals) : ValueOp → Act Outcome
  | .set e => do Outcome.ofValue (← Act.value l e)
  | .plain props => do
    let entries ← Act.pairs l props
    Outcome.created fun s => s.newPlain entries
  | .host cls props methods grants frozen => do
    let h ← hostDraft l cls props methods grants frozen
    Outcome.created h.build
  | .view target allow => do
    let target ← Act.value l target
    Outcome.created fun s => s.newView target allow
  | .native name kind n =>
    Outcome.created fun s => s.newHostFunction (nativeName name kind) kind (.native (.native n))
  | .slot target member e kind => do
    let target ← Act.value l target
    let slot := kind.make (← Act.value l e)
    match target.id? with
    | some id => Act.setStore ((← Act.store).update id (·.define member slot))
    | none => pure ()
    return .nothing
  | .dump e => do return { answer := .dump (dumpIn (← Act.store) (← Act.value l e)) }
  | .describe e => do
    let v ← Act.value l e
    let s ← Act.store
    return { answer := .texts [v.typeName, s.inspect v, s.display v] }
  | .equal a b => do
    return .ofFlag ((← Act.store).equal (← Act.value l a) (← Act.value l b))
  | .exception id name text fields => do
    let ex ← Act.newException name text (← Act.pairs l fields)
    Act.modifySession fun s => { s with exceptions := s.exceptions.insert id ex }
    return { answer := .exceptionMade name text ex.fields.size }
  | .isTamed e => do return .ofFlag (Taming.isTamed (← Act.store) (← Act.value l e))
  | .message e => do
    let text := Taming.messageOf (← Act.store) (← Act.value l e)
    return { answer := .text text, yield := some (.string text) }

def SubjectExpr.eval (l : Locals) : SubjectExpr → Act Subject
  | .ofClass cls => return .ofClass cls
  | .ofValue e => do
    let v ← Act.value l e
    match Subject.ofValue? v with
    | some subject => return subject
    | none => throw (.notAnObject "" v.typeName)

/-- Makes a call that fills the registry; a refusal is a fault. -/
def fill (call : Registry → Except GrantRefusal Unit × Registry) : Act Outcome := do
  let (result, r) := call (← Act.registry)
  Act.setRegistry r
  match result with
  | .ok () => return .nothing
  | .error e => throw (.invalidGrant e)

def RegistryOp.perform (l : Locals) : RegistryOp → Act Outcome
  | .declare cls parent => fill (·.declare cls parent)
  | .grant subject member caps => do
    let subject ← subject.eval l
    let caps ← Act.capabilitySet caps
    fill (·.grant subject member caps)
  | .grantAll subject members caps => do
    let subject ← subject.eval l
    let caps ← Act.capabilitySet caps
    fill (·.grantAll subject caps members)
  | .grants => do return { answer := .grants (← Act.registry).listing }
  | .parents => do return { answer := .pairs (← Act.registry).parentListing }
  | .chain cls => do return { answer := .texts ((← Act.registry).classChain cls) }
  | .classAllows cls member c => do
    return { answer := .flag ((← Act.registry).classAllows cls member c) }
  | .capabilities e member => do
    return .ofText ((← Act.registry).capabilities (← Act.store) (← Act.value l e) member).text
  | .check e member c => do
    return .ofFlag ((← Act.registry).check (← Act.store) (← Act.value l e) member c)

/-- The handler that a function is, and the list it may be in. -/
def handlerIn (l : Locals) (list : String) (f : Expr) : Act (Handler × HandlerList) := do
  let id ← Act.function l f
  let handler : Handler := ⟨id, ← Act.guid id⟩
  return (handler, ((← Act.session).lists.find? list).getD .empty)

def keepList (list : String) (result : Bool) (h : HandlerList) : Act Outcome := do
  Act.modifySession fun s => { s with lists := s.lists.insert list h }
  return { answer := .handlers result h.size }

def GuardianOp.perform (l : Locals) : GuardianOp → Act Outcome
  | .freeze f => do
    let id ← Act.function l f
    Act.setStore ((← Act.store).freeze id)
    Outcome.ofValue (.function id)
  | .freezeObject e => do
    let v ← Act.value l e
    match v with
    | .object id => Act.setStore ((← Act.store).freeze id)
    | _ => pure ()
    Outcome.ofValue v
  | .tag f name => do
    let id ← Act.function l f
    Act.change fun s => s.tagName id name
    return .nothing
  | .mark f name => do
    let id ← Act.function l f
    Act.change fun s => s.markFrozen id name
    Outcome.ofValue (.function id)
  | .bind f receiver guid => do
    let id ← Act.function l f
    let receiver ← Act.value l receiver
    let guid ← match guid with
      | some g => do pure (some (← Act.guid (← Act.function l g)))
      | none => pure none
    Outcome.created fun s => s.bind id receiver guid
  | .addHandler list f => do
    let (handler, h) ← handlerIn l list f
    let (result, h) := h.add handler
    keepList list result h
  | .removeHandler list f => do
    let (handler, h) ← handlerIn l list f
    let (result, h) := h.remove handler
    keepList list result h
  | .hasHandler list f => do
    let (handler, h) ← handlerIn l list f
    keepList list (h.contains handler) h

/-- A mediated operation that changes nothing, as a step. -/
def mediated (f : Registry → Store Code → Except Fault α) : Act α :=
  Act.lift fun fr => (f fr.registry fr.store, fr)

def AccessOp.perform (l : Locals) : AccessOp → Act Outcome
  | .read e member => do
    let v ← Act.value l e
    Outcome.ofValue (← mediated fun r s => Access.read r s v member)
  | .write e member x => do
    let v ← Act.value l e
    let x ← Act.value l x
    let r ← Act.registry
    Act.change fun s => Access.write r s v member x
    return .nothing
  | .remove e member => do
    let v ← Act.value l e
    let r ← Act.registry
    return .ofFlag (← Act.change fun s => Access.remove r s v member)
  | .keys e => do
    let v ← Act.value l e
    return { answer := .texts (← mediated fun r s => Access.keys r s v) }
  | .has e member => do
    let v ← Act.value l e
    return .ofFlag (← mediated fun r s => Access.has r s v member)

def CallOp.perform (run : Runner Code Session) (l : Locals) : CallOp → Act Outcome
  | .call f args => do
    let f ← Act.value l f
    let args ← Act.values l args
    Outcome.ofValue (← Act.lift (Invocation.callFunction run f args))
  | .method e member args => do
    let v ← Act.value l e
    let args ← Act.values l args
    Outcome.ofValue (← Act.lift (Invocation.callMethod run v member args))
  | .construct f args => do
    let f ← Act.value l f
    let args ← Act.values l args
    Outcome.ofValue (← Act.lift (Invocation.construct run f args))
  | .invoke f args receiver => do
    let id ← Act.function l f
    let args ← Act.values l args
    let receiver ← match receiver with
      | some e => do pure (some (← Act.value l e))
      | none => pure none
    Outcome.ofValue (← Act.lift (Invocation.invoke run id receiver args))
  | .arguments args => do
    let args ← match args with
      | some es => Act.values l es
      | none => pure l.args
    Outcome.created (Arguments.toObject args)
  | .fire list args => do
    let args ← Act.values l args
    let h := ((← Act.session).lists.find? list).getD .empty
    Act.lift (h.fire run args)
    return .nothing

/-- Changes the outer bindings of the running instance. -/
def rebind (f : Bindings → Except Fault Unit × Bindings) : Act Outcome :=
  Act.lift fun fr =>
    let (result, b) := f fr.bindings
    (result.map fun _ => .nothing, fr.withBindings b)

def ContextOp.perform (l : Locals) : ContextOp → Act Outcome
  | .initOuter name => rebind (·.init name)
  | .readOuter name => do
    Outcome.ofValue (← Act.lift fun fr => (fr.bindings.read name, fr))
  | .writeOuter name e => do
    let v ← Act.value l e
    rebind (·.write name v)
  | .outerState name => do
    let b := (← get).bindings
    return { answer := .bindingState (b.state name) (b.isDeclared name) }
  | .hostNames => do return { answer := .texts (← get).bindings.host.keys }
  | .snapshot id => do
    let w := (← get).snapshot
    Act.modifySession fun s => { s with snapshots := s.snapshots.insert id w }
    return .nothing
  | .look id => do
    let fr ← get
    let w := fr.world.state.snapshots.find? id
    return { answer := .snapshot (w.map (snapshotIn fr.store fr.world.scopes)) }
  | .tame f => do
    let f ← Act.fault l f
    let v ← Act.lift fun fr => let (v, fr) := fr.tame f; (.ok v, fr)
    return { answer := .dump (dumpIn (← Act.store) v), yield := some v }
  | .setLine line => do
    modify fun fr => { fr with context := { fr.context with line := some line } }
    return { answer := .number line }
  | .place => do
    let c := (← get).context
    return { answer := .place c.moduleId c.line }
  | .policy => do return { answer := .texts (← get).context.loader.policy.allowed }
  | .imports => Outcome.ofTable l.imports
  | .importsObject => Outcome.created (Import.toObject l.imports)

/-- A script as the body of a module. -/
def moduleBody (inner : Exec) (body : List Statement) : ModuleBody Code Session := fun table fr =>
  let (flow, fr) := inner body { imports := table } fr
  (flow.result, fr)

/-- Loads a module whose body is a script. -/
def performLoad (inner : Exec) (l : Locals) (moduleId : String) (imports : List ImportExpr) :
    Act Outcome := do
  let s ← Act.session
  let body := (s.modules.find? moduleId).getD []
  let imports := imports.map fun i =>
    { name := i.name, value := eval l s i.value, allow := i.allow }
  let loaded ← Act.lift fun fr =>
    fr.context.loader.loadWithin moduleId (moduleBody inner body) imports fr
  return { answer := .loaded (loadIn (← Act.store) loaded), yield := loaded.outcome }

/-- Runs steps on the sandbox of the context; `strict` ends at the first that fails. -/
def performEmit (strict : Bool) (steps : List SandboxStep) : Act Outcome :=
  Act.lift fun fr =>
    let bench : Bench := ⟨fr.context.sandbox, fr.world.state.fragments⟩
    let keep (b : Bench) : ScriptFrame :=
      { context := { fr.context with sandbox := b.sandbox }
        world := { fr.world with state := { fr.world.state with fragments := b.fragments } } }
    if strict then
      match runSandboxStrict bench steps with
      | (.ok reports, b) => (.ok { answer := .emitted reports }, keep b)
      | (.error v, b) => (.error (.structuralViolation v), keep b)
    else
      let (reports, b) := runSandbox bench steps
      (.ok { answer := .emitted reports }, keep b)

def Operation.perform (inner : Exec) (strict : Bool) (l : Locals) : Operation → Act Outcome
  | .value op => op.perform l
  | .registry op => op.perform l
  | .guardian op => op.perform l
  | .access op => op.perform l
  | .call op => op.perform (runCode inner) l
  | .context op => op.perform l
  | .load moduleId imports => performLoad inner l moduleId imports
  | .emit steps => performEmit strict steps

/-- Writes the entry of a statement, sets its variable, and says how the body goes on. -/
def record (tag : Tag) (result : Except Fault Outcome) (fr : ScriptFrame) : Flow × ScriptFrame :=
  match result with
  | .ok outcome =>
    let fr := logEntry (.done tag.name outcome.answer) fr
    match tag.into, outcome.yield with
    | some name, some v =>
      let s := fr.world.state
      (.next, { fr with world :=
        { fr.world with state := { s with vars := s.vars.insert name v } } })
    | _, _ => (.next, fr)
  | .error fault =>
    let fr := logEntry (.failed tag.name (faultIn fr.store fault)) fr
    (if tag.leaves then .left fault else .next, fr)

/-- A function whose code is a script. -/
def newScripted (name : Option String) (kind : FunctionKind) (origin : FunctionOrigin)
    (body : List Statement) (s : Store Code) : Value × Store Code :=
  let code := Code.script (name.getD "anonymous") body
  match origin with
  | .guest => s.newGuestFunction name kind code
  | .host => s.newHostFunction (name.getD "anonymous") kind (.closure code)

/-- The answer to a guarded block. -/
def caughtOutcome (outcome : CatchOutcome) (s : Store Code) : Outcome :=
  match outcome with
  | .completed v => { answer := .completed (shownIn s v), yield := some v }
  | .caught v => { answer := .caught (dumpIn s v), yield := some v }

mutual

/-- Runs one statement; `inner` runs the bodies that it calls or loads. -/
def execStatement (inner : Exec) : Statement → Locals → ScriptFrame → Flow × ScriptFrame
  | .perform tag op, l, fr =>
    let (result, fr) := op.perform inner tag.leaves l fr
    record tag result fr
  | .define tag name kind origin body, _, fr =>
    let (result, fr) := Outcome.created (newScripted name kind origin body) fr
    record tag result fr
  | .attempt tag body, l, fr =>
    let (result, fr) := catchGuest (fun fr =>
      let (flow, fr) := execBody inner body l fr
      (flow.value, fr)) fr
    record tag (result.map (caughtOutcome · fr.store)) fr
  | .within tag moduleId body, _, fr =>
    match fr.context.loader.newContext moduleId fr.world with
    | .error fault => record tag (.error fault) fr
    | .ok fresh =>
      let (flow, after) := execBody inner body {} fresh
      let result := flow.result.map fun v =>
        { answer := .ended (v.map (shownIn after.store)), yield := v }
      record tag result { fr with world := after.world }
  | .finish e, l, fr => (.returned (eval l fr.world.state e), fr)
  | .throw e, l, fr => (.left (.thrown (eval l fr.world.state e)), fr)
  | .raise f, l, fr =>
    match Act.fault l f fr with
    | (.ok fault, fr) | (.error fault, fr) => (.left fault, fr)

/-- Runs statements until one ends the body. -/
def execBody (inner : Exec) : List Statement → Locals → ScriptFrame → Flow × ScriptFrame
  | [], _, fr => (.next, fr)
  | s :: rest, l, fr =>
    match execStatement inner s l fr with
    | (.next, fr) => execBody inner rest l fr
    | ended => ended

end

/-- Runs bodies with at most `depth` calls and loads nested in each other. -/
def execAt : Nat → Exec
  | 0 => fun _ _ fr =>
    (.next, { fr with world :=
      { fr.world with state := { fr.world.state with exhausted := true } } })
  | depth + 1 => execBody (execAt depth)

end Confinement.Script
