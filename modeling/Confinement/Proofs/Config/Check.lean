import Confinement.Command
import Confinement.Proofs.Config.Order

/-!
# Checking and loading

A configuration is judged in two places: the command that shows it checks it first, and a loader is
built from it. Both go through the classes and grants, then the host bindings, then the first part
of tokens, and stop at the first fault. So both accept the same configurations, and where one of
them fails the other fails likewise, even if there are several faults to choose from.
-/
namespace Confinement

namespace Registry

variable {r : Registry} {call : Call} {calls later : List Call} {refusal : GrantRefusal}

/-- One of the calls is refused, and all calls before it are accepted. -/
def Refuses (r : Registry) (calls : List Call) (refusal : GrantRefusal) : Prop :=
  ∃ before call after, calls = before ++ call :: after ∧ r.Accepts before ∧
    (before.foldl apply r).answer call = .error refusal

theorem refuses_nil : ¬ r.Refuses [] refusal := by
  rintro ⟨before, call, after, hsplit, -⟩
  simp at hsplit

theorem refuses_cons : r.Refuses (call :: calls) refusal ↔
    r.answer call = .error refusal ∨
      r.answer call = .ok () ∧ (r.apply call).Refuses calls refusal := by
  constructor
  · rintro ⟨before, refused, after, hsplit, haccepts, hrefused⟩
    cases before with
    | nil =>
      cases hsplit
      exact .inl hrefused
    | cons first before =>
      cases hsplit
      exact .inr ⟨haccepts.1, before, refused, after, rfl, haccepts.2, hrefused⟩
  · rintro (hrefused | ⟨haccepted, before, refused, after, rfl, haccepts, hrefused⟩)
    · exact ⟨[], call, calls, rfl, trivial, hrefused⟩
    · exact ⟨call :: before, refused, after, rfl, ⟨haccepted, haccepts⟩, hrefused⟩

theorem refuses_append : r.Refuses (calls ++ later) refusal ↔
    r.Refuses calls refusal ∨ r.Accepts calls ∧ (calls.foldl apply r).Refuses later refusal := by
  induction calls generalizing r with
  | nil => simp [refuses_nil, Accepts]
  | cons call calls ih =>
    simp only [List.cons_append, refuses_cons, ih, Accepts, List.foldl_cons]
    tauto

end Registry

namespace Config

open Registry

variable {code σ : Type} {config : Config} {fault : Fault}

theorem declareAll_eq_error_iff {r : Registry} {classes : List ClassEntry}
    {refusal : GrantRefusal} : declareAll r classes = .error refusal ↔
      r.Refuses (classes.filterMap ClassEntry.call?) refusal := by
  induction classes generalizing r with
  | nil => simp [declareAll, refuses_nil]
  | cons entry rest ih =>
    obtain ⟨name, - | parent⟩ := entry
    · exact ih
    · have hcall : ClassEntry.call? ⟨name, some parent⟩ = some (.declare name parent) := rfl
      rw [declareAll, List.filterMap_cons_some hcall, refuses_cons]
      rcases hdeclare : r.declare name parent with ⟨refusal' | _, r₁⟩
      · simp [hdeclare, answer, perform]
      · simp [hdeclare, answer, apply, perform, ih]

theorem grantAll_eq_error_iff {r : Registry} {grants : List GrantEntry} {refusal : GrantRefusal} :
    grantAll r grants = .error refusal ↔ r.Refuses (grants.map GrantEntry.call) refusal := by
  induction grants generalizing r with
  | nil => simp [grantAll, refuses_nil]
  | cons g rest ih =>
    rw [grantAll, List.map_cons, refuses_cons, GrantEntry.call]
    rcases hgrant : r.grant (.ofClass g.cls) g.member (.ofList g.capabilities)
      with ⟨refusal' | _, r₁⟩
    · simp [hgrant, answer, perform]
    · simp [hgrant, answer, apply, perform, ih]

theorem registry_eq_error_iff : config.registry = .error fault ↔
    ∃ refusal, empty.Refuses config.calls refusal ∧ fault = .invalidGrant refusal := by
  simp only [calls, refuses_append, ← declareAll_eq_error_iff]
  rw [registry]
  cases hdeclare : declareAll .empty config.classes with
  | error refusal =>
    have hrefused : ¬ empty.Accepts (config.classes.filterMap ClassEntry.call?) := by
      intro haccepts
      have hok := declareAll_eq_ok_iff.mpr ⟨haccepts, rfl⟩
      rw [hdeclare] at hok
      cases hok
    simp [Except.bind, hrefused, eq_comm]
  | ok r =>
    obtain ⟨haccepts, rfl⟩ := declareAll_eq_ok_iff.mp hdeclare
    simp only [haccepts, true_and, ← grantAll_eq_error_iff]
    cases hgrant : grantAll _ config.grants <;> simp [Except.bind, hgrant, eq_comm]

/-- Every host binding holds a value of a supported type. -/
def Supported (bindings : Toml.Entries) : Prop :=
  ∀ b ∈ bindings, ∃ v, bindingValue? b.2 = some v

theorem exists_bindAll_iff {t : Table Value} {bindings : Toml.Entries} :
    (∃ t', bindAll t bindings = .ok t') ↔ Supported bindings := by
  induction bindings generalizing t with
  | nil => simp [bindAll, Supported]
  | cons b rest ih =>
    obtain ⟨name, item⟩ := b
    rw [bindAll]
    cases hvalue : bindingValue? item with
    | none => simp [Supported, hvalue]
    | some v =>
      rw [ih]
      simp [Supported, hvalue]

/-- An item of another type, with only supported ones before it. -/
def FirstUnsupported (bindings : Toml.Entries) (name : String) (item : Toml.Item) : Prop :=
  ∃ before after, bindings = before ++ (name, item) :: after ∧ Supported before ∧
    bindingValue? item = none

theorem firstUnsupported_cons_iff {b : String × Toml.Item} {rest : Toml.Entries} {name : String}
    {item : Toml.Item} : FirstUnsupported (b :: rest) name item ↔
      (b = (name, item) ∧ bindingValue? item = none) ∨
        (∃ v, bindingValue? b.2 = some v) ∧ FirstUnsupported rest name item := by
  constructor
  · rintro ⟨before, after, hsplit, supported, hnone⟩
    cases before with
    | nil =>
      cases hsplit
      exact .inl ⟨rfl, hnone⟩
    | cons first before =>
      cases hsplit
      obtain ⟨hfirst, hbefore⟩ := List.forall_mem_cons.mp supported
      exact .inr ⟨hfirst, before, after, rfl, hbefore, hnone⟩
  · rintro (⟨rfl, hnone⟩ | ⟨hfirst, before, after, rfl, supported, hnone⟩)
    · exact ⟨[], rest, rfl, by simp [Supported], hnone⟩
    · exact ⟨b :: before, after, rfl, List.forall_mem_cons.mpr ⟨hfirst, supported⟩, hnone⟩

theorem bindAll_eq_error_iff {t : Table Value} {bindings : Toml.Entries} :
    bindAll t bindings = .error fault ↔ ∃ name item, FirstUnsupported bindings name item ∧
      fault = .configuration (.unsupportedBinding name item.typeName) := by
  induction bindings generalizing t with
  | nil => simp [bindAll, FirstUnsupported]
  | cons b rest ih =>
    obtain ⟨name, item⟩ := b
    simp only [bindAll, firstUnsupported_cons_iff]
    cases hvalue : bindingValue? item with
    | none =>
      constructor
      · intro h
        exact ⟨name, item, .inl ⟨rfl, hvalue⟩, (Except.error.inj h).symm⟩
      · rintro ⟨name', item', ⟨hb, -⟩ | ⟨⟨v, hv⟩, -⟩, rfl⟩
        · cases hb
          rfl
        · cases hv
    | some v =>
      have hother {name' : String} {item' : Toml.Item} :
          ¬ ((name, item) = (name', item') ∧ bindingValue? item' = none) := by
        rintro ⟨hb, hnone⟩
        cases hb
        rw [hvalue] at hnone
        cases hnone
      simp only [hother, false_or, Option.some.injEq, exists_eq', true_and]
      exact ih

/-- The host can make tokens with the first part that the configuration gives. -/
def MakesTokens (config : Config) : Prop :=
  ∀ guid, ∃ token, Emission.Token.make? config.stem guid = some token

theorem makesTokens_iff : config.MakesTokens ↔ Text.isCssIdentifier config.stem = true := by
  constructor
  · intro makes
    obtain ⟨token, made⟩ := makes (.ofIndex 0)
    by_contra hstem
    rw [Emission.Token.make?, if_neg hstem] at made
    cases made
  · exact fun hstem guid => ⟨_, if_pos hstem⟩

/-- There is nothing wrong with the configuration. -/
structure Sound (config : Config) : Prop where
  consistent : config.Consistent
  supported : Supported config.hostBindings
  tokens : config.MakesTokens

/-- What is wrong first: the first refused call for a class or a grant; if there is none, the first
unsupported binding; and if there is none of those either, the first part of tokens. -/
inductive FirstFault (config : Config) : Fault → Prop
  | grant {refusal : GrantRefusal} (refused : empty.Refuses config.calls refusal) :
      FirstFault config (.invalidGrant refusal)
  | binding {name : String} {item : Toml.Item} (consistent : config.Consistent)
      (unsupported : FirstUnsupported config.hostBindings name item) :
      FirstFault config (.configuration (.unsupportedBinding name item.typeName))
  | stem (consistent : config.Consistent) (supported : Supported config.hostBindings)
      (refused : ¬ config.MakesTokens) :
      FirstFault config (.configuration (.badTokenStem config.stem))

/-- The three checks in their order, and what the first two have made. -/
def checks (config : Config) : Except Fault (Registry × Table Value) :=
  match config.registry, config.bindings with
  | .error fault, _ => .error fault
  | .ok _, .error fault => .error fault
  | .ok r, .ok t =>
    if Text.isCssIdentifier config.stem then .ok (r, t)
    else .error (.configuration (.badTokenStem config.stem))

theorem validate_eq (config : Config) :
    Command.validate config = config.checks.map fun made => ⟨config, made.1, made.2⟩ := by
  rw [Command.validate, checks]
  cases config.registry with
  | error fault => rfl
  | ok r =>
    cases config.bindings with
    | error fault => rfl
    | ok t =>
      cases Text.isCssIdentifier config.stem <;> simp [Bind.bind, Except.bind, Except.map]

/-- A loader of this configuration that is ready for use. -/
def builtLoader (config : Config)
    (report : Value → String → Option Nat → World code σ → World code σ) :
    Except Fault (Loader code σ) :=
  (config.loader report).bind Loader.build

theorem builtLoader_eq (config : Config)
    (report : Value → String → Option Nat → World code σ → World code σ) :
    config.builtLoader report = config.checks.map fun made =>
      ⟨made.1, config.policy, made.2, config.stem, report⟩ := by
  rw [builtLoader, loader, checks]
  cases config.registry with
  | error fault => rfl
  | ok r =>
    cases config.bindings with
    | error fault => rfl
    | ok t =>
      cases hstem : Text.isCssIdentifier config.stem <;>
        simp [Bind.bind, Except.bind, Except.map, Loader.build, hstem]

theorem exists_checks_iff : (∃ made, config.checks = .ok made) ↔ config.Sound := by
  have sound_iff : config.Sound ↔ (∃ r, config.registry = .ok r) ∧
      (∃ t, config.bindings = .ok t) ∧ Text.isCssIdentifier config.stem = true := by
    rw [exists_registry_iff, bindings, exists_bindAll_iff, ← makesTokens_iff]
    exact ⟨fun h => ⟨h.consistent, h.supported, h.tokens⟩, fun h => ⟨h.1, h.2.1, h.2.2⟩⟩
  rw [sound_iff, checks]
  cases config.registry with
  | error fault => simp
  | ok r =>
    cases config.bindings with
    | error fault => simp
    | ok t => cases hstem : Text.isCssIdentifier config.stem <;> simp

theorem firstFault_of_checks (h : config.checks = .error fault) : config.FirstFault fault := by
  rw [checks] at h
  cases hregistry : config.registry with
  | error fault' =>
    rw [hregistry] at h
    cases h
    obtain ⟨refusal, refused, rfl⟩ := registry_eq_error_iff.mp hregistry
    exact .grant refused
  | ok r =>
    have consistent := (exists_registry_iff config).mp ⟨r, hregistry⟩
    cases hbindings : config.bindings with
    | error fault' =>
      rw [hregistry, hbindings] at h
      cases h
      obtain ⟨name, item, unsupported, rfl⟩ := bindAll_eq_error_iff.mp hbindings
      exact .binding consistent unsupported
    | ok t =>
      have supported : Supported config.hostBindings := exists_bindAll_iff.mp ⟨t, hbindings⟩
      rw [hregistry, hbindings] at h
      dsimp only at h
      split at h
      · cases h
      · rename_i hstem
        cases h
        exact .stem consistent supported (mt makesTokens_iff.mp hstem)

theorem checks_of_firstFault (h : config.FirstFault fault) : config.checks = .error fault := by
  cases h with
  | grant refused =>
    have hregistry := registry_eq_error_iff.mpr ⟨_, refused, rfl⟩
    simp only [checks, hregistry]
  | binding consistent unsupported =>
    obtain ⟨r, hregistry⟩ := (exists_registry_iff config).mpr consistent
    have hbindings : config.bindings = .error _ :=
      bindAll_eq_error_iff.mpr ⟨_, _, unsupported, rfl⟩
    simp only [checks, hregistry, hbindings]
  | stem consistent supported refused =>
    obtain ⟨r, hregistry⟩ := (exists_registry_iff config).mpr consistent
    obtain ⟨t, hbindings⟩ : ∃ t, config.bindings = .ok t := exists_bindAll_iff.mpr supported
    simp only [checks, hregistry, hbindings]
    exact if_neg (mt makesTokens_iff.mpr refused)

theorem checks_eq_error_iff : config.checks = .error fault ↔ config.FirstFault fault :=
  ⟨firstFault_of_checks, checks_of_firstFault⟩

theorem map_eq_error_iff {α β : Type} {outcome : Except Fault α} {f : α → β} :
    outcome.map f = .error fault ↔ outcome = .error fault := by
  cases outcome <;> simp [Except.map]

theorem exists_map_eq_ok_iff {α β : Type} {outcome : Except Fault α} {f : α → β} :
    (∃ b, outcome.map f = .ok b) ↔ ∃ a, outcome = .ok a := by
  cases outcome <;> simp [Except.map]

/-- The command shows a configuration that it has read exactly if it finds nothing wrong with it. -/
theorem respond_check {text : String} (parsed : parse text = .ok config) (path : String)
    (guid : Emission.Guid) : Command.respond (.check path) (.ok text) guid =
      match config.checks with
      | .ok made => .ok (Command.unlines (Command.Checked.lines ⟨config, made.1, made.2⟩))
      | .error fault => .error (.fault fault) := by
  have read : Config.ofFile path (.ok text) = .ok config := parsed
  simp only [Command.respond, read, Except.bind, validate_eq]
  cases config.checks <;> rfl

/-- A configuration passes the checks of the command exactly if a loader can be built from it, and
that is so exactly if there is nothing wrong with it. The loader has the registry, the bindings and
the first part of tokens that were checked. If the one fails, so does the other, with the same
fault, which is the first thing that is wrong. So the command shows what it has read exactly if a
loader can be built, and reports the fault of the loader otherwise. -/
theorem check_agrees_with_loader (config : Config)
    (report : Value → String → Option Nat → World code σ → World code σ) :
    ((∃ checked, Command.validate config = .ok checked) ↔
      ∃ l, config.builtLoader report = .ok l) ∧
    (∀ fault, Command.validate config = .error fault ↔ config.builtLoader report = .error fault) ∧
    (∀ checked l, Command.validate config = .ok checked → config.builtLoader report = .ok l →
      l.registry = checked.registry ∧ l.hostBindings = checked.bindings ∧
      l.stem = checked.config.stem ∧ l.policy = checked.config.policy) ∧
    ((∃ l, config.builtLoader report = .ok l) ↔ config.Sound) ∧
    (∀ fault, config.builtLoader report = .error fault ↔ config.FirstFault fault) ∧
    ∀ text path guid, parse text = .ok config →
      ((∃ shown, Command.respond (.check path) (.ok text) guid = .ok shown) ↔
        ∃ l, config.builtLoader report = .ok l) ∧
      ∀ fault, Command.respond (.check path) (.ok text) guid = .error (.fault fault) ↔
        config.builtLoader report = .error fault := by
  have accepts : (∃ checked, Command.validate config = .ok checked) ↔
      ∃ made, config.checks = .ok made := by
    rw [validate_eq]
    exact exists_map_eq_ok_iff
  have builds : (∃ l, config.builtLoader report = .ok l) ↔ ∃ made, config.checks = .ok made := by
    rw [builtLoader_eq]
    exact exists_map_eq_ok_iff
  have refuses (fault : Fault) : Command.validate config = .error fault ↔
      config.checks = .error fault := by
    rw [validate_eq]
    exact map_eq_error_iff
  have fails (fault : Fault) : config.builtLoader report = .error fault ↔
      config.checks = .error fault := by
    rw [builtLoader_eq]
    exact map_eq_error_iff
  refine ⟨accepts.trans builds.symm, fun fault => (refuses fault).trans (fails fault).symm,
    fun checked l hchecked hl => ?_, builds.trans exists_checks_iff,
    fun fault => (fails fault).trans checks_eq_error_iff, fun text path guid parsed => ?_⟩
  · rw [validate_eq] at hchecked
    rw [builtLoader_eq] at hl
    cases hmade : config.checks with
    | error fault =>
      rw [hmade] at hl
      cases hl
    | ok made =>
      rw [hmade] at hchecked hl
      cases hchecked
      cases hl
      exact ⟨rfl, rfl, rfl, rfl⟩
  · simp only [builds, fails, respond_check parsed]
    cases config.checks <;> simp

/-- Three faults in one configuration: a grant, a binding and the first part of tokens. -/
def faultyText : String :=
  "[\"membrane\"]\n\"token_prefix\" = \"1\"\n[\"host_bindings\"]\n\"A\" = []\n" ++
    "[[\"grants\"]]\n\"class\" = \"W\"\n\"member\" = \"x\"\n" ++
    "\"capabilities\" = [\"write\", \"call\"]\n"

def faulty : Config where
  stem := "1"
  grants := [⟨"W", "x", [.write, .call]⟩]
  hostBindings := [("A", .array [])]

def unreported : Value → String → Option Nat → World Unit Unit → World Unit Unit :=
  fun _ _ _ w => w

/-- Of three faults the command and the loader both name the first. -/
theorem check_agrees_with_loader_of_faulty :
    parse faultyText = .ok faulty ∧
    faulty.builtLoader unreported = .error (.invalidGrant (.callableAndWritable "x")) ∧
    Command.validate faulty = .error (.invalidGrant (.callableAndWritable "x")) ∧
    Command.respond (.check "c.toml") (.ok faultyText) (.ofIndex 0) =
      .error (.fault (.invalidGrant (.callableAndWritable "x"))) := by
  have parsed : parse faultyText = .ok faulty := by cbv
  have first : faulty.FirstFault (.invalidGrant (.callableAndWritable "x")) :=
    .grant ⟨[], _, [], rfl, trivial, by decide⟩
  obtain ⟨-, same, -, -, fails, shows⟩ := check_agrees_with_loader faulty unreported
  have failed := (fails _).mpr first
  exact ⟨parsed, failed, (same _).mpr failed,
    ((shows faultyText "c.toml" (.ofIndex 0) parsed).2 _).mpr failed⟩

end Config

end Confinement
