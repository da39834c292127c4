import Mathlib.Tactic
import Confinement.Registry

/-!
# Histories of a registry

A registry is filled by calls made one after the other. A call that is refused leaves it as it was,
and granting on several members stops at the first that is refused. So whatever an accepted grant
and an accepted declaration keep holds of every registry that calls can make.
-/
namespace Confinement.Registry

/-- A call that fills a registry. -/
inductive Call where
  | grant (subject : Subject) (member : String) (caps : CapabilitySet)
  | grantAll (subject : Subject) (members : List String) (caps : CapabilitySet)
  | declare (cls parent : String)

/-- What a call answers, and the registry that it leaves. -/
def perform (r : Registry) : Call → Except GrantRefusal Unit × Registry
  | .grant subject member caps => r.grant subject member caps
  | .grantAll subject members caps => r.grantAll subject caps members
  | .declare cls parent => r.declare cls parent

def answer (r : Registry) (call : Call) : Except GrantRefusal Unit := (r.perform call).1

/-- The registry after a call, be it accepted or refused. -/
def apply (r : Registry) (call : Call) : Registry := (r.perform call).2

theorem perform_of_answer {r : Registry} {call : Call} {result : Except GrantRefusal Unit}
    (h : r.answer call = result) : r.perform call = (result, r.apply call) :=
  Prod.ext h rfl

/-- The registry that calls make out of the empty one. -/
def ofCalls (calls : List Call) : Registry := calls.foldl apply empty

/-- All that an accepted grant has passed, and all that it does. -/
theorem grant_cases {r r' : Registry} {subject : Subject} {member : String} {caps : CapabilitySet}
    (h : r.grant subject member caps = (.ok (), r')) :
    Text.isReserved member = false ∧ (caps.contains .write && caps.contains .call) = false ∧
      ((r.granted? subject member = some caps ∧ r' = r) ∨
        (r.granted? subject member = none ∧
          r' = { r with grants := r.grants ++ [⟨subject, member, caps⟩] })) := by
  unfold grant validate at h
  cases hreserved : Text.isReserved member with
  | true => simp [hreserved] at h
  | false =>
    cases hboth : caps.contains .write && caps.contains .call with
    | true => simp [hreserved, hboth] at h
    | false =>
      simp only [hreserved, hboth, Bool.false_eq_true, if_false] at h
      refine ⟨rfl, rfl, ?_⟩
      cases hgranted : r.granted? subject member with
      | none =>
        rw [hgranted] at h
        exact .inr ⟨rfl, (congrArg Prod.snd h).symm⟩
      | some existing =>
        simp only [hgranted] at h
        by_cases heq : existing = caps
        · rw [if_pos heq] at h
          exact .inl ⟨congrArg some heq, (congrArg Prod.snd h).symm⟩
        · rw [if_neg heq] at h
          cases h

/-- A refused grant leaves the registry as it was. -/
theorem grant_of_refused {r r' : Registry} {subject : Subject} {member : String}
    {caps : CapabilitySet} {refusal : GrantRefusal}
    (h : r.grant subject member caps = (.error refusal, r')) : r' = r := by
  unfold grant at h
  split at h
  · exact (congrArg Prod.snd h).symm
  · split at h
    · split at h
      · cases h
      · exact (congrArg Prod.snd h).symm
    · cases h

/-- A refused declaration leaves the registry as it was. -/
theorem declare_of_refused {r r' : Registry} {cls parent : String} {refusal : GrantRefusal}
    (h : r.declare cls parent = (.error refusal, r')) : r' = r := by
  unfold declare at h
  split at h
  · exact (congrArg Prod.snd h).symm
  · split at h
    · split at h
      · cases h
      · exact (congrArg Prod.snd h).symm
    · cases h

section Invariant

variable {P : Registry → Prop}
  (grant : ∀ {r r' subject member caps}, P r → r.grant subject member caps = (.ok (), r') → P r')
  (declare : ∀ {r r' cls parent}, P r → r.declare cls parent = (.ok (), r') → P r')

include grant in
theorem grant_invariant {r : Registry} (h : P r) (subject : Subject) (member : String)
    (caps : CapabilitySet) : P (r.grant subject member caps).2 := by
  rcases hgrant : r.grant subject member caps with ⟨refusal | _, r'⟩
  · rw [grant_of_refused hgrant]
    exact h
  · exact grant h hgrant

include grant in
theorem grantAll_invariant {r : Registry} (h : P r) (subject : Subject) (caps : CapabilitySet)
    (members : List String) : P (r.grantAll subject caps members).2 := by
  induction members generalizing r with
  | nil => exact h
  | cons member rest ih =>
    have hfirst := grant_invariant grant h subject member caps
    rw [grantAll]
    rcases hgrant : r.grant subject member caps with ⟨refusal | _, r'⟩
    · rwa [hgrant] at hfirst
    · rw [hgrant] at hfirst
      exact ih hfirst

include grant declare in
theorem apply_invariant {r : Registry} (h : P r) (call : Call) : P (r.apply call) := by
  cases call with
  | grant subject member caps => exact grant_invariant grant h subject member caps
  | grantAll subject members caps => exact grantAll_invariant grant h subject caps members
  | declare cls parent =>
    rw [apply, perform]
    rcases hdeclare : r.declare cls parent with ⟨refusal | _, r'⟩
    · rw [declare_of_refused hdeclare]
      exact h
    · exact declare h hdeclare

include grant declare in
theorem foldl_apply_invariant {r : Registry} (h : P r) (calls : List Call) :
    P (calls.foldl apply r) := by
  induction calls generalizing r with
  | nil => exact h
  | cons call calls ih => exact ih (apply_invariant grant declare h call)

include grant declare in
/-- What accepted grants and declarations keep holds after every history. -/
theorem ofCalls_invariant (init : P empty) (calls : List Call) : P (ofCalls calls) :=
  foldl_apply_invariant grant declare init calls

end Invariant

theorem grants_declare {r r' : Registry} {cls parent : String}
    (h : r.declare cls parent = (.ok (), r')) : r'.grants = r.grants := by
  unfold declare at h
  split at h
  · cases h
  · split at h
    · split at h <;> cases h
      rfl
    · cases h
      rfl

theorem mem_grants_of_granted? {r : Registry} {subject : Subject} {member : String}
    {caps : CapabilitySet} (h : r.granted? subject member = some caps) :
    ⟨subject, member, caps⟩ ∈ r.grants := by
  obtain ⟨g, hfind, hcaps⟩ := Option.map_eq_some_iff.mp h
  have hmatch : g.subject = subject ∧ g.member = member := by
    simpa using List.find?_some hfind
  obtain ⟨rfl, rfl⟩ := hmatch
  subst hcaps
  exact List.mem_of_find?_eq_some hfind

/-- No grant was ever attached to a reserved member, and none lets a member be both replaced and
called. -/
theorem valid_of_mem_grants (calls : List Call) : ∀ g ∈ (ofCalls calls).grants,
    Text.isReserved g.member = false ∧
      (g.capabilities.contains .write && g.capabilities.contains .call) = false := by
  refine ofCalls_invariant (P := fun r => ∀ g ∈ r.grants, Text.isReserved g.member = false ∧
    (g.capabilities.contains .write && g.capabilities.contains .call) = false) ?_ ?_ ?_ calls
  · intro r r' subject member caps h hgrant
    obtain ⟨hreserved, hboth, ⟨-, rfl⟩ | ⟨-, rfl⟩⟩ := grant_cases hgrant
    · exact h
    · intro g hg
      rcases List.mem_append.mp hg with hg | hg
      · exact h g hg
      · rw [List.mem_singleton.mp hg]
        exact ⟨hreserved, hboth⟩
  · intro r r' cls parent h hdeclare
    rw [grants_declare hdeclare]
    exact h
  · exact fun g hg => absurd hg List.not_mem_nil

end Confinement.Registry
