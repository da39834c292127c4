import Confinement.Config
import Confinement.Proofs.Registry.Agreement

/-!
# The order of configuration entries

A configuration is turned into a registry entry by entry, classes before grants, up to the first
refusal. That is a list of calls, each of them accepted. So whether there is a registry, and what it
holds, depends on the entries and not on the order in which the document gives them.
-/
namespace Confinement

theorem CapabilitySet.contains_ofList {cs : List Capability} {c : Capability} :
    (ofList cs).contains c = true ↔ c ∈ cs := by
  have hfold (s : CapabilitySet) :
      (cs.foldl insert s).contains c = true ↔ s.contains c = true ∨ c ∈ cs := by
    induction cs generalizing s with
    | nil => simp
    | cons d cs ih => simp [ih, insert, or_assoc]
  rw [ofList, hfold, contains_empty]
  simp

theorem CapabilitySet.ofList_eq_iff {cs ds : List Capability} :
    ofList cs = ofList ds ↔ ∀ c, c ∈ cs ↔ c ∈ ds := by
  constructor
  · intro heq c
    rw [← contains_ofList, heq, contains_ofList]
  · intro hmem
    refine ext_contains fun c => Bool.eq_iff_iff.mpr ?_
    rw [contains_ofList, contains_ofList, hmem]

/-- The declaration that an entry stands for, if it names a parent. -/
def ClassEntry.call? (entry : ClassEntry) : Option Registry.Call :=
  entry.parent.map (.declare entry.name)

def GrantEntry.call (g : GrantEntry) : Registry.Call :=
  .grant (.ofClass g.cls) g.member (.ofList g.capabilities)

namespace Config

open Registry

/-- An entry says that the class extends the parent. -/
def Declares (config : Config) (cls parent : String) : Prop :=
  ⟨cls, some parent⟩ ∈ config.classes

/-- No class has two parents or is above itself, every grant is valid, and no member of a class is
given two sets. -/
structure Consistent (config : Config) : Prop where
  one_parent : ∀ cls p q, config.Declares cls p → config.Declares cls q → p = q
  acyclic : Acyclic config.Declares
  valid : ∀ g ∈ config.grants, Text.isReserved g.member = false ∧
    ¬ (.write ∈ g.capabilities ∧ .call ∈ g.capabilities)
  one_set : ∀ g ∈ config.grants, ∀ g' ∈ config.grants, g.cls = g'.cls → g.member = g'.member →
    ∀ c, c ∈ g.capabilities ↔ c ∈ g'.capabilities

/-- The calls that the entries stand for. -/
def calls (config : Config) : List Call :=
  config.classes.filterMap ClassEntry.call? ++ config.grants.map GrantEntry.call

theorem declareAll_eq_ok_iff {r r' : Registry} {classes : List ClassEntry} :
    declareAll r classes = .ok r' ↔ r.Accepts (classes.filterMap ClassEntry.call?) ∧
      r' = (classes.filterMap ClassEntry.call?).foldl apply r := by
  induction classes generalizing r with
  | nil => simp [declareAll, Accepts, eq_comm]
  | cons entry rest ih =>
    obtain ⟨name, - | parent⟩ := entry
    · exact ih
    · have hcall : ClassEntry.call? ⟨name, some parent⟩ = some (.declare name parent) := rfl
      rw [declareAll, List.filterMap_cons_some hcall, Accepts, List.foldl_cons]
      rcases hdeclare : r.declare name parent with ⟨refusal | _, r₁⟩
      · simp [hdeclare, answer, perform]
      · simp [hdeclare, answer, apply, perform, ih]

theorem grantAll_eq_ok_iff {r r' : Registry} {grants : List GrantEntry} :
    grantAll r grants = .ok r' ↔ r.Accepts (grants.map GrantEntry.call) ∧
      r' = (grants.map GrantEntry.call).foldl apply r := by
  induction grants generalizing r with
  | nil => simp [grantAll, Accepts, eq_comm]
  | cons g rest ih =>
    rw [grantAll, List.map_cons, Accepts, List.foldl_cons, GrantEntry.call]
    rcases hgrant : r.grant (.ofClass g.cls) g.member (.ofList g.capabilities)
      with ⟨refusal | _, r₁⟩
    · simp [hgrant, answer, perform]
    · simp [hgrant, answer, apply, perform, ih]

/-- There is a registry if all the calls are accepted, and then it is what they make. -/
theorem registry_eq_ok_iff {config : Config} {r : Registry} :
    config.registry = .ok r ↔ empty.Accepts config.calls ∧ r = ofCalls config.calls := by
  have hsteps : config.registry = .ok r ↔ ∃ r₁, declareAll .empty config.classes = .ok r₁ ∧
      grantAll r₁ config.grants = .ok r := by
    rw [registry]
    cases hdeclare : declareAll .empty config.classes with
    | error refusal => simp [Except.bind]
    | ok r₁ => cases hgrant : grantAll r₁ config.grants <;> simp [Except.bind, hgrant]
  simp only [hsteps, declareAll_eq_ok_iff, grantAll_eq_ok_iff, calls, accepts_append, ofCalls,
    List.foldl_append]
  constructor
  · rintro ⟨r₁, ⟨hfirst, rfl⟩, hthen, rfl⟩
    exact ⟨⟨hfirst, hthen⟩, rfl⟩
  · rintro ⟨⟨hfirst, hthen⟩, rfl⟩
    exact ⟨_, ⟨hfirst, rfl⟩, hthen, rfl⟩

theorem isBulk_of_mem_calls {config : Config} : ∀ call ∈ config.calls, call.isBulk = false := by
  intro call hmem
  rcases List.mem_append.mp hmem with hclass | hgrant
  · obtain ⟨⟨name, parent⟩, -, hcall⟩ := List.mem_filterMap.mp hclass
    obtain ⟨p, -, rfl⟩ := Option.map_eq_some_iff.mp hcall
    rfl
  · obtain ⟨g, -, rfl⟩ := List.mem_map.mp hgrant
    rfl

theorem declare_mem_calls_iff {config : Config} {cls parent : String} :
    .declare cls parent ∈ config.calls ↔ config.Declares cls parent := by
  simp only [calls, List.mem_append, List.mem_filterMap, List.mem_map, GrantEntry.call,
    reduceCtorEq, and_false, exists_false, or_false, Declares]
  constructor
  · rintro ⟨⟨name, - | p⟩, hmem, hcall⟩
    · cases hcall
    · cases hcall
      exact hmem
  · exact fun hmem => ⟨_, hmem, rfl⟩

theorem grant_mem_calls_iff {config : Config} {subject : Subject} {member : String}
    {caps : CapabilitySet} : .grant subject member caps ∈ config.calls ↔
      ∃ g ∈ config.grants, subject = .ofClass g.cls ∧ member = g.member ∧
        caps = .ofList g.capabilities := by
  have hclass : .grant subject member caps ∉ config.classes.filterMap ClassEntry.call? := by
    intro hmem
    obtain ⟨⟨name, - | p⟩, -, hcall⟩ := List.mem_filterMap.mp hmem
    · cases hcall
    · cases hcall
  simp [calls, hclass, GrantEntry.call, eq_comm]

theorem agree_calls_iff (config : Config) : Agree config.calls ↔ config.Consistent := by
  have hboth (cs : List Capability) : ((CapabilitySet.ofList cs).contains .write &&
      (CapabilitySet.ofList cs).contains .call) = false ↔ ¬ (.write ∈ cs ∧ .call ∈ cs) := by
    rw [← CapabilitySet.contains_ofList, ← CapabilitySet.contains_ofList, ← Bool.and_eq_true,
      Bool.not_eq_true]
  constructor
  · intro agree
    refine ⟨fun cls p q hp hq => ?_, ?_, fun g hg => ?_, fun g hg g' hg' hcls hmember => ?_⟩
    · exact agree.one_parent cls p q (declare_mem_calls_iff.mpr hp) (declare_mem_calls_iff.mpr hq)
    · exact agree.acyclic.mono fun cls parent => declare_mem_calls_iff.mpr
    · have hvalid := agree.valid _ _ _ (grant_mem_calls_iff.mpr ⟨g, hg, rfl, rfl, rfl⟩)
      rwa [hboth] at hvalid
    · refine CapabilitySet.ofList_eq_iff.mp (agree.one_set (.ofClass g.cls) g.member _ _ ?_ ?_)
      · exact grant_mem_calls_iff.mpr ⟨g, hg, rfl, rfl, rfl⟩
      · exact grant_mem_calls_iff.mpr ⟨g', hg', by rw [hcls], hmember, rfl⟩
  · intro consistent
    refine ⟨fun cls p q hp hq => ?_, ?_, fun subject member caps hmem => ?_,
      fun subject member a b ha hb => ?_⟩
    · exact consistent.one_parent cls p q (declare_mem_calls_iff.mp hp)
        (declare_mem_calls_iff.mp hq)
    · exact consistent.acyclic.mono fun cls parent => declare_mem_calls_iff.mp
    · obtain ⟨g, hg, rfl, rfl, rfl⟩ := grant_mem_calls_iff.mp hmem
      rw [hboth]
      exact consistent.valid g hg
    · obtain ⟨g, hg, rfl, rfl, rfl⟩ := grant_mem_calls_iff.mp ha
      obtain ⟨g', hg', hcls, hmember, rfl⟩ := grant_mem_calls_iff.mp hb
      exact CapabilitySet.ofList_eq_iff.mpr
        (consistent.one_set g hg g' hg' (Subject.ofClass.inj hcls) hmember)

theorem exists_registry_iff (config : Config) :
    (∃ r, config.registry = .ok r) ↔ config.Consistent := by
  rw [← agree_calls_iff, ← accepts_iff_agree isBulk_of_mem_calls]
  simp only [registry_eq_ok_iff, exists_and_left, exists_eq, and_true]

theorem calls_perm {config : Config} {classes : List ClassEntry} {grants : List GrantEntry}
    (hclasses : classes.Perm config.classes) (hgrants : grants.Perm config.grants) :
    { config with classes, grants }.calls.Perm config.calls :=
  (hclasses.filterMap _).append (hgrants.map _)

/-- There is a registry exactly if the entries are consistent, and it holds the parents and the
grants that they give and no others. If the classes and the grants are given in another order, there
is a registry all the same or none all the same, and it has the same parents and the same grants. -/
theorem entries_in_any_order (config : Config) {classes : List ClassEntry}
    {grants : List GrantEntry} (hclasses : classes.Perm config.classes)
    (hgrants : grants.Perm config.grants) :
    ((∃ r, config.registry = .ok r) ↔ config.Consistent) ∧
    (∀ r, config.registry = .ok r →
      (∀ cls parent, r.parents.find? cls = some parent ↔ config.Declares cls parent) ∧
      ∀ subject member caps, r.granted? subject member = some caps ↔
        ∃ g ∈ config.grants, subject = .ofClass g.cls ∧ member = g.member ∧
          ∀ c, caps.contains c = true ↔ c ∈ g.capabilities) ∧
    ((∃ r', { config with classes, grants }.registry = .ok r') ↔ ∃ r, config.registry = .ok r) ∧
    ∀ r r', config.registry = .ok r → { config with classes, grants }.registry = .ok r' →
      (∀ cls, r'.parents.find? cls = r.parents.find? cls) ∧
      (∀ subject member, r'.granted? subject member = r.granted? subject member) ∧
      r'.grants.Perm r.grants := by
  have hperm := calls_perm hclasses hgrants
  refine ⟨exists_registry_iff config,
    fun r h => ⟨fun cls parent => ?_, fun subject member caps => ?_⟩, ?_, fun r r' h h' => ?_⟩
  · obtain ⟨haccepts, rfl⟩ := registry_eq_ok_iff.mp h
    exact (parent_ofCalls_iff isBulk_of_mem_calls haccepts).trans declare_mem_calls_iff
  · obtain ⟨haccepts, rfl⟩ := registry_eq_ok_iff.mp h
    have hset (g : GrantEntry) : caps = .ofList g.capabilities ↔
        ∀ c, caps.contains c = true ↔ c ∈ g.capabilities := by
      simp only [← CapabilitySet.contains_ofList, ← Bool.eq_iff_iff]
      exact ⟨fun heq c => by rw [heq], CapabilitySet.ext_contains⟩
    simp only [granted?_ofCalls_iff isBulk_of_mem_calls haccepts, grant_mem_calls_iff, hset]
  · rw [exists_registry_iff, exists_registry_iff, ← agree_calls_iff, ← agree_calls_iff]
    exact ⟨.perm hperm.symm, .perm hperm⟩
  · obtain ⟨haccepts, rfl⟩ := registry_eq_ok_iff.mp h
    obtain ⟨haccepts', rfl⟩ := registry_eq_ok_iff.mp h'
    exact ofCalls_perm hperm isBulk_of_mem_calls haccepts haccepts'

/-- One declaration comes twice, a class once without a parent, and a set in two spellings. -/
def repeated : Config where
  classes := [⟨"Link", some "Button"⟩, ⟨"Link", none⟩, ⟨"Button", some "Control"⟩,
    ⟨"Link", some "Button"⟩]
  grants := [⟨"Button", "label", [.read, .write]⟩, ⟨"Link", "label", [.call]⟩,
    ⟨"Button", "label", [.write, .read, .write]⟩]

def reversed : Config :=
  { repeated with classes := repeated.classes.reverse, grants := repeated.grants.reverse }

/-- In reverse order the entries make the same registry. -/
theorem entries_in_any_order_of_reversal :
    repeated.Consistent ∧ (∃ r', reversed.registry = .ok r') ∧
    ∀ r', reversed.registry = .ok r' → r'.parents.find? "Link" = some "Button" ∧
      r'.granted? (.ofClass "Button") "label" = some (.ofList [.read, .write]) := by
  have hmade : ∃ r, repeated.registry = .ok r ∧ r.parents.find? "Link" = some "Button" ∧
      r.granted? (.ofClass "Button") "label" = some (.ofList [.read, .write]) :=
    ⟨_, rfl, by decide, by decide⟩
  obtain ⟨r, h, hlink, hlabel⟩ := hmade
  obtain ⟨consistent, -, exists_iff, same⟩ :=
    entries_in_any_order repeated repeated.classes.reverse_perm repeated.grants.reverse_perm
  refine ⟨consistent.mp ⟨r, h⟩, exists_iff.mpr ⟨r, h⟩, fun r' h' => ?_⟩
  obtain ⟨hparents, hgranted, -⟩ := same r r' h h'
  exact ⟨(hparents "Link").trans hlink, (hgranted _ _).trans hlabel⟩

end Config

end Confinement
