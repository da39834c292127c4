import Confinement.Proofs.Access.Authority
import Confinement.Proofs.Invocation.Growth

/-!
# Who may construct

Instances of a host class are made through constructors. The registry permits it by a grant on the
class, of which the nearest in the chain of classes counts, or by one on the constructor function.
There is a third way, which takes no grant at all: a guest function owns its members, the one called
`constructor` included, and this ownership passes for the permission to make instances of whatever
class the function names. Where none of the three applies, construction ends before anything is made
or run.
-/
namespace Confinement

variable {code σ : Type}

namespace Registry

/-- Of the classes in the chain of `cls`, the nearest that grants anything on the member grants
this set. -/
def NearestGrant (r : Registry) (cls m : String) (caps : CapabilitySet) : Prop :=
  ∃ nearer c further, r.classChain cls = nearer ++ c :: further ∧
    r.granted? (.ofClass c) m = some caps ∧ ∀ b ∈ nearer, r.granted? (.ofClass b) m = none

theorem classGrant?_eq_some_iff {r : Registry} {cls m : String} {caps : CapabilitySet} :
    r.classGrant? cls m = some caps ↔ r.NearestGrant cls m caps := List.findSome?_eq_some_iff

theorem classAllows_iff {r : Registry} {cls m : String} {c : Capability} :
    r.classAllows cls m c = true ↔ ∃ caps, r.NearestGrant cls m caps ∧ caps.contains c = true := by
  simp only [← classGrant?_eq_some_iff, classAllows]
  cases r.classGrant? cls m <;> simp

/-- What applies to a function: the grant of the registry on it, or else, if it is the guest's own,
what its slot says. -/
theorem capabilities_function (r : Registry) {s : Store code} {id : EntityId}
    {f : FunctionRecord code} (hf : s.function? id = some f) {m : String}
    (hm : Text.isReserved m = false) :
    r.capabilities s (.function id) m = (r.instanceGrant? (.function id) m).getD
      (if f.origin = .guest then ownCapabilities (s.slot? id m) else .empty) := by
  have hnature := Store.nature_of_function? hf
  rw [r.capabilities_of_not_isReserved s _ hm, capabilitiesWithin_succ]
  simp only [Value.id?, Option.elim_some, verdict, hnature, instanceGrant?, Subject.ofValue?,
    Option.map_some, Option.bind_some]
  cases r.granted? (.ofInstance id) m with
  | some caps => rfl
  | none =>
    dsimp only
    cases f.origin <;> rfl

theorem contains_ownCapabilities (s : Store code) (id : EntityId) (m : String) (c : Capability) :
    (ownCapabilities (s.slot? id m)).contains c = !s.isHidden id m := by
  rw [Store.isHidden]
  rcases s.slot? id m with - | ⟨value, - | -, fixed⟩ <;> simp [ownCapabilities]

end Registry

namespace Invocation

/-- The registry permits construction of the class through this constructor. -/
def GrantsConstruction (r : Registry) (ctor : Value) (cls : String) : Prop :=
  ∃ caps, caps.contains .construct = true ∧ (r.NearestGrant cls constructorMember caps ∨
    r.instanceGrant? ctor constructorMember = some caps)

/-- The constructor is a guest function, and its member `constructor` is its own: the registry has
no grant on it and the slot is not hidden. -/
def OwnsConstructor (r : Registry) (s : Store code) (ctor : Value) : Prop :=
  r.instanceGrant? ctor constructorMember = none ∧ ∃ id f, ctor = .function id ∧
    s.function? id = some f ∧ f.origin = .guest ∧ s.isHidden id constructorMember = false

/-- The value is a function that makes instances of the host class. -/
def ConstructorOf (s : Store code) (ctor : Value) (cls : String) : Prop :=
  ∃ id f, ctor = .function id ∧ s.function? id = some f ∧ f.kind = .constructor (some cls)

/-- Whether the constructor function itself permits construction. -/
theorem check_constructor_iff (r : Registry) {s : Store code} {id : EntityId}
    {f : FunctionRecord code} (hf : s.function? id = some f) :
    r.check s (.function id) constructorMember .construct = true ↔
      (∃ caps, caps.contains .construct = true ∧
        r.instanceGrant? (.function id) constructorMember = some caps) ∨
      OwnsConstructor r s (.function id) := by
  have hm : Text.isReserved constructorMember = false := by decide
  have howns (hnone : r.instanceGrant? (.function id) constructorMember = none) :
      OwnsConstructor r s (.function id) ↔
        f.origin = .guest ∧ s.isHidden id constructorMember = false := by
    constructor
    · rintro ⟨-, id', f', hid, hf', hguest, hshown⟩
      cases hid
      rw [hf] at hf'
      cases hf'
      exact ⟨hguest, hshown⟩
    · rintro ⟨hguest, hshown⟩
      exact ⟨hnone, id, f, rfl, hf, hguest, hshown⟩
  rw [Registry.check, r.capabilities_function hf hm]
  cases hgrant : r.instanceGrant? (.function id) constructorMember with
  | some caps => simp [OwnsConstructor, hgrant]
  | none =>
    simp only [howns hgrant, Option.getD_none, reduceCtorEq, and_false, exists_false, false_or]
    by_cases hguest : f.origin = .guest
    · rw [if_pos hguest, Registry.contains_ownCapabilities]
      simp [hguest]
    · rw [if_neg hguest]
      simp [hguest]

theorem mayConstruct_iff (r : Registry) {s : Store code} {id : EntityId}
    {f : FunctionRecord code} (hf : s.function? id = some f) (cls : String) :
    mayConstruct r s (.function id) (some cls) = true ↔
      GrantsConstruction r (.function id) cls ∨ OwnsConstructor r s (.function id) := by
  rw [mayConstruct, Bool.or_eq_true, Registry.classAllows_iff, check_constructor_iff r hf,
    ← or_assoc]
  refine or_congr_left ?_
  constructor
  · rintro (⟨caps, hnearest, hc⟩ | ⟨caps, hc, hgrant⟩)
    · exact ⟨caps, hc, .inl hnearest⟩
    · exact ⟨caps, hc, .inr hgrant⟩
  · rintro ⟨caps, hc, hnearest | hgrant⟩
    · exact .inl ⟨caps, hnearest, hc⟩
    · exact .inr ⟨caps, hc, hgrant⟩

/-- All that a permitted construction has passed. -/
theorem constructorOf_eq_ok_iff {r : Registry} {s : Store code} {ctor : Value} {id : EntityId}
    {cls : Option String} : constructorOf r s ctor = .ok (id, cls) ↔
      ctor = .function id ∧ ∃ f, s.function? id = some f ∧ f.kind = .constructor cls ∧
        mayConstruct r s ctor cls = true := by
  constructor
  · intro h
    cases ctor with
    | function id' =>
      unfold constructorOf at h
      cases hf : s.function? id' with
      | none => simp [hf] at h
      | some f =>
        cases hkind : f.kind with
        | constructor cls' =>
          cases hmay : mayConstruct r s (.function id') cls' with
          | false => simp [hf, hkind, hmay] at h
          | true =>
            simp only [hf, hkind, hmay, if_true, Except.ok.injEq, Prod.mk.injEq] at h
            obtain ⟨rfl, rfl⟩ := h
            exact ⟨rfl, f, hf, hkind, hmay⟩
        | simple => simp [hf, hkind] at h
        | method => simp [hf, hkind] at h
    | _ => simp [constructorOf] at h
  · rintro ⟨rfl, f, hf, hkind, hmay⟩
    simp only [constructorOf, hf, hkind, hmay, if_true]

/-- The instance of a permitted construction is the first thing made, and stays what it is. -/
theorem origin?_construct {run : Runner code σ} (grows : run.Grows) {fr : Frame code σ}
    {ctor : Value} {id : EntityId} {cls : Option String}
    (h : constructorOf fr.registry fr.store ctor = .ok (id, cls)) (args : List Value) :
    (construct run ctor args fr).2.store.origin? fr.store.size =
      some (cls.elim .guest fun cls => .host cls .empty) := by
  have hmade : (newInstance fr.store cls).2.origin? fr.store.size =
      some (cls.elim .guest fun cls => .host cls .empty) := by
    cases cls with
    | none => exact fr.store.origin?_newObject _ _ _ _
    | some cls => exact fr.store.origin?_newObject _ _ _ _
  have hrun := grows.respects.runFunction (fr.store.unbound id)
    (some (newInstance fr.store cls).1) (Arguments.normalize args)
    (fr.withStore (newInstance fr.store cls).2)
  have hleft : (construct run ctor args fr).2 = (runFunction run (fr.store.unbound id)
      (some (newInstance fr.store cls).1) (Arguments.normalize args)
      (fr.withStore (newInstance fr.store cls).2)).2 := by
    simp only [construct, h]
    split
    · rename_i heq
      rw [heq]
    · rename_i heq
      rw [heq]
  rw [hleft, hrun.origin?_eq _ (Store.lt_size_of_origin? hmade)]
  exact hmade

/-- A constructor that may not be used is refused before anything is made or run. -/
theorem construct_of_denied {fr : Frame code σ} {id : EntityId} {f : FunctionRecord code}
    {cls : Option String} (hf : fr.store.function? id = some f) (hkind : f.kind = .constructor cls)
    (hmay : mayConstruct fr.registry fr.store (.function id) cls = false) (run : Runner code σ)
    (args : List Value) : construct run (.function id) args fr =
      (.error (.capabilityDenied .construct constructorMember), fr) := by
  have hdenied : constructorOf fr.registry fr.store (.function id) =
      .error (.capabilityDenied .construct constructorMember) := by
    simp [constructorOf, hf, hkind, hmay]
  simp only [construct, hdenied]

/-- Construction makes an instance of a host class exactly if the value is a constructor of that
class and either the registry grants its use or it is a guest function that owns its member
`constructor`. Otherwise a constructor of the class is denied, whatever code there is, and nothing
has been made or run. -/
theorem class_constructed_iff_granted_or_owned {run : Runner code σ} (grows : run.Grows)
    (fr : Frame code σ) (ctor : Value) (args : List Value) (cls : String) :
    ((∃ attached, (construct run ctor args fr).2.store.origin? fr.store.size =
      some (.host cls attached)) ↔ ConstructorOf fr.store ctor cls ∧
        (GrantsConstruction fr.registry ctor cls ∨
          OwnsConstructor fr.registry fr.store ctor)) ∧
    (ConstructorOf fr.store ctor cls → ¬ GrantsConstruction fr.registry ctor cls →
      ¬ OwnsConstructor fr.registry fr.store ctor → ∀ other : Runner code σ,
        construct other ctor args fr =
          (.error (.capabilityDenied .construct constructorMember), fr)) := by
  refine ⟨⟨?_, ?_⟩, ?_⟩
  · rintro ⟨attached, hmade⟩
    cases hctor : constructorOf fr.registry fr.store ctor with
    | error fault =>
      -- nothing was made, so nothing stands behind the old store
      have hsame : (construct run ctor args fr).2 = fr := by simp only [construct, hctor]
      rw [hsame] at hmade
      exact absurd (Store.lt_size_of_origin? hmade) (lt_irrefl _)
    | ok found =>
      obtain ⟨id, made⟩ := found
      rw [origin?_construct grows hctor] at hmade
      obtain ⟨rfl, f, hf, hkind, hmay⟩ := constructorOf_eq_ok_iff.mp hctor
      cases made with
      | none => cases hmade
      | some made =>
        obtain rfl : made = cls := by
          simp only [Option.elim_some, Option.some.injEq, ObjectOrigin.host.injEq] at hmade
          exact hmade.1
        exact ⟨⟨id, f, rfl, hf, hkind⟩, (mayConstruct_iff _ hf made).mp hmay⟩
  · rintro ⟨⟨id, f, rfl, hf, hkind⟩, hpermitted⟩
    have hmay := (mayConstruct_iff _ hf cls).mpr hpermitted
    exact ⟨.empty, origin?_construct grows
      (constructorOf_eq_ok_iff.mpr ⟨rfl, f, hf, hkind, hmay⟩) args⟩
  · rintro ⟨id, f, rfl, hf, hkind⟩ hgrants howns other
    have hmay : mayConstruct fr.registry fr.store (.function id) (some cls) = false := by
      rw [← Bool.not_eq_true, mayConstruct_iff _ hf]
      exact fun h => h.elim hgrants howns
    exact construct_of_denied hf hkind hmay other args

/-- Two constructors of one host class: the host's, and one that a guest has defined. -/
def twoConstructors : Store Unit :=
  ⟨#[⟨.function ⟨some "Host", .constructor (some "Host"), .host, 0, .native ()⟩, .empty, true⟩,
    ⟨.function ⟨some "Guest", .constructor (some "Host"), .guest, 1, .closure ()⟩, .empty,
      false⟩]⟩

/-- Constructors that leave the instance as it is. -/
def returnUndefined : Runner Unit Unit := fun _ _ _ fr => (.ok .undefined, fr)

/-- No grant has been made, and the guest's constructor makes an instance of the host class. -/
theorem class_constructed_without_grant :
    (Frame.ofStore twoConstructors).registry.grants = [] ∧
    twoConstructors.origin? 2 = none ∧
    (construct returnUndefined (.function 1) [] (.ofStore twoConstructors)).1 = .ok (.object 2) ∧
    (construct returnUndefined (.function 1) [] (.ofStore twoConstructors)).2.store.origin? 2 =
      some (.host "Host" .empty) :=
  ⟨rfl, rfl, rfl, rfl⟩

/-- The instance comes from ownership of the constructor alone. The host's constructor is denied. -/
theorem class_constructed_iff_granted_or_owned_of_guest :
    returnUndefined.Grows ∧ OwnsConstructor .empty twoConstructors (.function 1) ∧
    (∃ attached, (construct returnUndefined (.function 1) []
      (.ofStore twoConstructors)).2.store.origin? 2 = some (.host "Host" attached)) ∧
    construct returnUndefined (.function 0) [] (.ofStore twoConstructors) =
      (.error (.capabilityDenied .construct "constructor"), .ofStore twoConstructors) := by
  have grows : returnUndefined.Grows := fun _ _ _ _ => .refl _
  have guests : ConstructorOf twoConstructors (.function 1) "Host" := ⟨1, _, rfl, rfl, rfl⟩
  have hosts : ConstructorOf twoConstructors (.function 0) "Host" := ⟨0, _, rfl, rfl, rfl⟩
  have owns : OwnsConstructor .empty twoConstructors (.function 1) :=
    ⟨rfl, 1, _, rfl, rfl, rfl, rfl⟩
  have ungranted : ¬ GrantsConstruction .empty (.function 0) "Host" := by
    rintro ⟨caps, -, ⟨_, _, _, -, hgranted, -⟩ | hgranted⟩
    · cases hgranted
    · cases hgranted
  have foreign : ¬ OwnsConstructor .empty twoConstructors (.function 0) := by
    rintro ⟨-, id, f, hid, hf, hguest, -⟩
    cases hid
    cases hf
    cases hguest
  exact ⟨grows, owns,
    (class_constructed_iff_granted_or_owned grows (.ofStore twoConstructors) (.function 1) []
      "Host").1.mpr ⟨guests, .inr owns⟩,
    (class_constructed_iff_granted_or_owned grows (.ofStore twoConstructors) (.function 0) []
      "Host").2 hosts ungranted foreign returnUndefined⟩

end Invocation

end Confinement
