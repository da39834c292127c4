import Confinement.Proofs.Invocation.Construction

/-!
# Which grant decides

The question what is granted on a member goes from a view to what stands behind it, as long as the
registry has no grant on the view itself and the view shows the member. The first value on the way
with a grant of its own settles it. Where none has one, the value at the end answers by what it is:
a host object by what was attached to it, or else by the nearest class that says anything; what
guest code made by ownership; a host function and a primitive with nothing.
-/
namespace Confinement

variable {code : Type}

namespace Store

/-- An object that is named is there as an object, and a function as a function. -/
def Holds (s : Store code) : Value → Prop
  | .object id => ∃ origin, s.origin? id = some origin
  | .function id => ∃ f, s.function? id = some f
  | _ => True

/-- Every view stands in front of something that was there before it. -/
structure Founded (s : Store code) : Prop where
  grounded : s.Grounded
  held : ∀ id target allow, s.origin? id = some (.view target allow) → s.Holds target

/-- From `v` through the views in `links`, each with the members that it shows, to `final`, which is
no view. -/
inductive Leads (s : Store code) : Value → List (Value × List String) → Value → Prop
  | ends {v : Value} (h : s.view? v = none) : Leads s v [] v
  | through {v target final : Value} {allow : List String} {links : List (Value × List String)}
      (h : s.view? v = some (target, allow)) (next : Leads s target links final) :
      Leads s v ((v, allow) :: links) final

variable {s : Store code} {v final : Value} {links : List (Value × List String)}

theorem Holds.lt_size (held : s.Holds v) : ∀ id ∈ v.id?, id < s.size := by
  intro id hid
  cases v with
  | object id' =>
    obtain rfl : id' = id := Option.some.inj hid
    obtain ⟨origin, horigin⟩ := held
    exact lt_size_of_origin? horigin
  | function id' =>
    obtain rfl : id' = id := Option.some.inj hid
    obtain ⟨f, hf⟩ := held
    exact lt_size_of_function? hf
  | _ => cases hid

theorem Founded.holds_target (founded : s.Founded) {target : Value} {allow : List String}
    (h : s.view? v = some (target, allow)) : s.Holds target := by
  obtain ⟨id, -, horigin⟩ := view?_eq_some_iff.mp h
  exact founded.held id target allow horigin

theorem Grounded.exists_leads (grounded : s.Grounded) {n : Nat} (h : ∀ id ∈ v.id?, id < n) :
    ∃ links final, s.Leads v links final := by
  induction n generalizing v with
  | zero =>
    refine ⟨[], v, .ends ?_⟩
    cases v with
    | object id => exact absurd (h id rfl) (Nat.not_lt_zero id)
    | _ => rfl
  | succ n ih =>
    cases hview : s.view? v with
    | none => exact ⟨[], v, .ends hview⟩
    | some found =>
      have hfronts : s.Fronts v found.1 := ⟨found.2, hview⟩
      obtain ⟨id, rfl, -⟩ := hfronts.exists_id
      obtain ⟨links, final, next⟩ := ih (v := found.1) fun j hj =>
        (grounded.lt_of_fronts hfronts hj).trans_le (Nat.le_of_lt_add_one (h id rfl))
      exact ⟨_, final, .through hview next⟩

namespace Leads

/-- The values on the way are ever older, so there are no more of them than older values. -/
theorem length_le (h : s.Leads v links final) (grounded : s.Grounded) {n : Nat}
    (hn : ∀ id ∈ v.id?, id < n) : links.length ≤ n := by
  induction h generalizing n with
  | ends _ => exact Nat.zero_le n
  | @through v target final allow links hview next ih =>
    have hfronts : s.Fronts v target := ⟨allow, hview⟩
    obtain ⟨id, rfl, -⟩ := hfronts.exists_id
    have hlength : links.length ≤ id := ih fun j hj => grounded.lt_of_fronts hfronts hj
    rw [List.length_cons]
    exact Nat.succ_le_of_lt (Nat.lt_of_le_of_lt hlength (hn id rfl))

end Leads

end Store

namespace Registry

/-- The view passes the question on: the registry has no grant on it, and it shows the member. -/
def Passes (r : Registry) (m : String) (link : Value × List String) : Prop :=
  r.instanceGrant? link.1 m = none ∧ m ∈ link.2

/-- What a value that is no view answers by what it is. -/
inductive Inherent (r : Registry) (s : Store code) (m : String) : Value → CapabilitySet → Prop
  /-- What was attached to a host object when it was made. -/
  | attached {id : EntityId} {cls : String} {grants : Table CapabilitySet} {caps : CapabilitySet}
      (horigin : s.origin? id = some (.host cls grants)) (h : grants.find? m = some caps) :
      Inherent r s m (.object id) caps
  /-- What the nearest class of a host object grants. -/
  | inherited {id : EntityId} {cls : String} {grants : Table CapabilitySet} {caps : CapabilitySet}
      (horigin : s.origin? id = some (.host cls grants)) (hnone : grants.find? m = none)
      (h : r.NearestGrant cls m caps) : Inherent r s m (.object id) caps
  | ungranted {id : EntityId} {cls : String} {grants : Table CapabilitySet}
      (horigin : s.origin? id = some (.host cls grants)) (hnone : grants.find? m = none)
      (h : ∀ c ∈ r.classChain cls, r.granted? (.ofClass c) m = none) :
      Inherent r s m (.object id) .empty
  | ownObject {id : EntityId} (horigin : s.origin? id = some .guest) :
      Inherent r s m (.object id) (if s.isHidden id m then .empty else .full)
  | ownFunction {id : EntityId} {f : FunctionRecord code} (hf : s.function? id = some f)
      (hguest : f.origin = .guest) :
      Inherent r s m (.function id) (if s.isHidden id m then .empty else .full)
  | hostFunction {id : EntityId} {f : FunctionRecord code} (hf : s.function? id = some f)
      (hhost : f.origin = .host) : Inherent r s m (.function id) .empty
  | primitive {v : Value} (h : v.isReference = false) : Inherent r s m v .empty

/-- Who decides on the way through the views `links` to `final`, and what. -/
inductive Decision (r : Registry) (s : Store code) (m : String) (links : List (Value × List String))
    (final : Value) : CapabilitySet → Prop
  /-- A view with a grant of its own, whatever its list says. -/
  | byView {passed rest : List (Value × List String)} {w : Value} {allow : List String}
      {caps : CapabilitySet} (split : links = passed ++ (w, allow) :: rest)
      (passes : ∀ link ∈ passed, r.Passes m link) (h : r.instanceGrant? w m = some caps) :
      Decision r s m links final caps
  /-- A view that does not show the member. -/
  | stopped {passed rest : List (Value × List String)} {w : Value} {allow : List String}
      (split : links = passed ++ (w, allow) :: rest) (passes : ∀ link ∈ passed, r.Passes m link)
      (hnone : r.instanceGrant? w m = none) (h : m ∉ allow) : Decision r s m links final .empty
  /-- The value at the end, by a grant of its own. -/
  | byFinal {caps : CapabilitySet} (passes : ∀ link ∈ links, r.Passes m link)
      (h : r.instanceGrant? final m = some caps) : Decision r s m links final caps
  /-- The value at the end, by what it is. -/
  | inherent {caps : CapabilitySet} (passes : ∀ link ∈ links, r.Passes m link)
      (hnone : r.instanceGrant? final m = none) (h : r.Inherent s m final caps) :
      Decision r s m links final caps

variable {r : Registry} {s : Store code} {m : String} {v final : Value} {caps : CapabilitySet}
  {links : List (Value × List String)}

theorem ownCapabilities_slot? (s : Store code) (id : EntityId) (m : String) :
    ownCapabilities (s.slot? id m) = if s.isHidden id m then .empty else .full := by
  rw [Store.isHidden]
  rcases s.slot? id m with - | ⟨value, - | -, fixed⟩ <;> rfl

theorem capabilitiesWithin_of_instanceGrant? (held : s.Holds v)
    (h : r.instanceGrant? v m = some caps) (n : Nat) :
    r.capabilitiesWithin s m (n + 1) v = caps := by
  obtain ⟨subject, hsubject, hgranted⟩ := Option.bind_eq_some_iff.mp h
  obtain ⟨id, hid, rfl⟩ := Option.map_eq_some_iff.mp hsubject
  have hlt : id < s.entities.size := held.lt_size id hid
  have hentity : s.entity? id = some s.entities[id] := Array.getElem?_eq_getElem hlt
  rw [capabilitiesWithin_succ, hid, Option.elim_some, verdict, hentity, Option.map_some, hgranted]

section Ungranted

variable {id : EntityId} (n : Nat)

theorem capabilitiesWithin_host {cls : String} {grants : Table CapabilitySet}
    (horigin : s.origin? id = some (.host cls grants))
    (hnone : r.granted? (.ofInstance id) m = none) :
    r.capabilitiesWithin s m (n + 1) (.object id) = r.hostCapabilities cls grants m := by
  obtain ⟨tamed, hnature⟩ := Store.exists_nature_of_origin? horigin
  rw [capabilitiesWithin_succ, Value.id?, Option.elim_some, verdict, hnature, hnone]

theorem capabilitiesWithin_guest (horigin : s.origin? id = some .guest)
    (hnone : r.granted? (.ofInstance id) m = none) :
    r.capabilitiesWithin s m (n + 1) (.object id) =
      if s.isHidden id m then .empty else .full := by
  obtain ⟨tamed, hnature⟩ := Store.exists_nature_of_origin? horigin
  rw [capabilitiesWithin_succ, Value.id?, Option.elim_some, verdict, hnature, hnone]
  exact ownCapabilities_slot? s id m

theorem capabilitiesWithin_function {f : FunctionRecord code} (hf : s.function? id = some f)
    (hnone : r.granted? (.ofInstance id) m = none) :
    r.capabilitiesWithin s m (n + 1) (.function id) =
      if f.origin = .guest ∧ s.isHidden id m = false then .full else .empty := by
  rw [capabilitiesWithin_succ, Value.id?, Option.elim_some, verdict, Store.nature_of_function? hf,
    hnone]
  dsimp only
  cases f.origin with
  | host => simp
  | guest =>
    dsimp only
    rw [ownCapabilities_slot?]
    cases s.isHidden id m <;> simp

end Ungranted

/-- Without a grant of its own, the value at the end answers by what it is. -/
theorem capabilitiesWithin_of_inherent (h : r.Inherent s m v caps)
    (hnone : r.instanceGrant? v m = none) (n : Nat) :
    r.capabilitiesWithin s m (n + 1) v = caps := by
  cases h with
  | attached horigin hfound =>
    rw [capabilitiesWithin_host n horigin hnone, hostCapabilities, hfound, Option.some_or,
      Option.getD_some]
  | inherited horigin hfound hnearest =>
    rw [capabilitiesWithin_host n horigin hnone, hostCapabilities, hfound, Option.none_or,
      classGrant?_eq_some_iff.mpr hnearest, Option.getD_some]
  | ungranted horigin hfound hclasses =>
    have hclass : r.classGrant? _ m = none := List.findSome?_eq_none_iff.mpr hclasses
    rw [capabilitiesWithin_host n horigin hnone, hostCapabilities, hfound, Option.none_or, hclass,
      Option.getD_none]
  | ownObject horigin => exact capabilitiesWithin_guest n horigin hnone
  | @ownFunction id f hf hguest =>
    rw [capabilitiesWithin_function n hf hnone]
    cases s.isHidden id m <;> simp [hguest]
  | hostFunction hf hhost =>
    rw [capabilitiesWithin_function n hf hnone]
    simp [hhost]
  | primitive h =>
    rw [Value.isReference, Option.isSome_eq_false_iff, Option.isNone_iff_eq_none] at h
    rw [capabilitiesWithin_succ, h, Option.elim_none]

theorem exists_inherent (r : Registry) (m : String) (held : s.Holds v) (hview : s.view? v = none) :
    ∃ caps, r.Inherent s m v caps := by
  cases v with
  | object id =>
    obtain ⟨origin, horigin⟩ := held
    cases origin with
    | guest => exact ⟨_, .ownObject horigin⟩
    | host cls grants =>
      cases hfound : grants.find? m with
      | some caps => exact ⟨caps, .attached horigin hfound⟩
      | none =>
        cases hclass : r.classGrant? cls m with
        | some caps => exact ⟨caps, .inherited horigin hfound (classGrant?_eq_some_iff.mp hclass)⟩
        | none => exact ⟨_, .ungranted horigin hfound (List.findSome?_eq_none_iff.mp hclass)⟩
    | view target allow =>
      rw [Store.view?_eq_some_iff.mpr ⟨id, rfl, horigin⟩] at hview
      cases hview
  | function id =>
    obtain ⟨f, hf⟩ := held
    cases horigin : f.origin with
    | guest => exact ⟨_, .ownFunction hf horigin⟩
    | host => exact ⟨_, .hostFunction hf horigin⟩
  | _ => exact ⟨_, .primitive rfl⟩

theorem decision_nil_iff : r.Decision s m [] final caps ↔ r.instanceGrant? final m = some caps ∨
    (r.instanceGrant? final m = none ∧ r.Inherent s m final caps) := by
  constructor
  · intro h
    cases h with
    | byView split _ _ => simp at split
    | stopped split _ _ _ => simp at split
    | byFinal _ hgrant => exact .inl hgrant
    | inherent _ hnone h => exact .inr ⟨hnone, h⟩
  · rintro (hgrant | ⟨hnone, h⟩)
    · exact .byFinal (by simp) hgrant
    · exact .inherent (by simp) hnone h

/-- A view decides by its own grant, or stops the question, or passes it on. -/
theorem decision_cons_iff {allow : List String} : r.Decision s m ((v, allow) :: links) final caps ↔
    r.instanceGrant? v m = some caps ∨ (r.instanceGrant? v m = none ∧
      ((m ∉ allow ∧ caps = .empty) ∨ (m ∈ allow ∧ r.Decision s m links final caps))) := by
  constructor
  · intro h
    cases h with
    | @byView passed rest w allow' _ split passes hgrant =>
      cases passed with
      | nil =>
        cases split
        exact .inl hgrant
      | cons link passed =>
        cases split
        obtain ⟨⟨hnone, hmem⟩, later⟩ := List.forall_mem_cons.mp passes
        exact .inr ⟨hnone, .inr ⟨hmem, .byView rfl later hgrant⟩⟩
    | @stopped passed rest w allow' split passes hnone hnot =>
      cases passed with
      | nil =>
        cases split
        exact .inr ⟨hnone, .inl ⟨hnot, rfl⟩⟩
      | cons link passed =>
        cases split
        obtain ⟨⟨hnone', hmem⟩, later⟩ := List.forall_mem_cons.mp passes
        exact .inr ⟨hnone', .inr ⟨hmem, .stopped rfl later hnone hnot⟩⟩
    | byFinal passes hgrant =>
      obtain ⟨⟨hnone, hmem⟩, later⟩ := List.forall_mem_cons.mp passes
      exact .inr ⟨hnone, .inr ⟨hmem, .byFinal later hgrant⟩⟩
    | inherent passes hnone h =>
      obtain ⟨⟨hnone', hmem⟩, later⟩ := List.forall_mem_cons.mp passes
      exact .inr ⟨hnone', .inr ⟨hmem, .inherent later hnone h⟩⟩
  · rintro (hgrant | ⟨hnone, ⟨hnot, rfl⟩ | ⟨hmem, h⟩⟩)
    · exact .byView (List.nil_append _).symm (by simp) hgrant
    · exact .stopped (List.nil_append _).symm (by simp) hnone hnot
    · have first : r.Passes m (v, allow) := ⟨hnone, hmem⟩
      cases h with
      | @byView passed rest w allow' _ split passes hgrant =>
        rw [split, ← List.cons_append]
        exact .byView rfl (List.forall_mem_cons.mpr ⟨first, passes⟩) hgrant
      | @stopped passed rest w allow' split passes hnone' hnot =>
        rw [split, ← List.cons_append]
        exact .stopped rfl (List.forall_mem_cons.mpr ⟨first, passes⟩) hnone' hnot
      | byFinal passes hgrant => exact .byFinal (List.forall_mem_cons.mpr ⟨first, passes⟩) hgrant
      | inherent passes hnone' h =>
        exact .inherent (List.forall_mem_cons.mpr ⟨first, passes⟩) hnone' h

theorem capabilitiesWithin_final_iff (held : s.Holds v) (hview : s.view? v = none) (n : Nat) :
    r.capabilitiesWithin s m (n + 1) v = caps ↔ r.Decision s m [] v caps := by
  rw [decision_nil_iff]
  cases hgrant : r.instanceGrant? v m with
  | some found => simp [capabilitiesWithin_of_instanceGrant? held hgrant]
  | none =>
    simp only [reduceCtorEq, true_and, false_or]
    refine ⟨?_, fun h => capabilitiesWithin_of_inherent h hgrant n⟩
    rintro rfl
    obtain ⟨caps, h⟩ := exists_inherent r m held hview
    rwa [capabilitiesWithin_of_inherent h hgrant n]

/-- Walking through the views finds what the decision on the way is. -/
theorem capabilitiesWithin_iff_decision (way : s.Leads v links final) (founded : s.Founded)
    (held : s.Holds v) {n : Nat} (hn : links.length ≤ n) :
    r.capabilitiesWithin s m (n + 1) v = caps ↔ r.Decision s m links final caps := by
  induction way generalizing n with
  | ends hview => exact capabilitiesWithin_final_iff held hview n
  | @through v target final allow links hview next ih =>
    obtain ⟨n, rfl⟩ := Nat.exists_eq_add_one_of_ne_zero (Nat.ne_zero_of_lt hn)
    have deeper := ih (founded.holds_target hview) (Nat.le_of_succ_le_succ hn)
    rw [r.capabilitiesWithin_view hview, decision_cons_iff, ← deeper]
    cases hgrant : r.instanceGrant? v m with
    | some found => simp
    | none =>
      by_cases hmem : m ∈ allow
      · simp [hmem]
      · simp [hmem, eq_comm]

/-- On a reserved member and on a primitive nothing is granted. From any other value there is one
way through views, and the capabilities on a member are those of the decision on that way. -/
theorem most_specific_grant_decides (r : Registry) {s : Store code} (founded : s.Founded)
    {v : Value} (held : s.Holds v) (m : String) :
    (Text.isReserved m = true ∨ v.isReference = false → r.capabilities s v m = .empty) ∧
    (∃ links final, s.Leads v links final) ∧
    ∀ links final, s.Leads v links final → Text.isReserved m = false →
      ∀ caps, r.capabilities s v m = caps ↔ r.Decision s m links final caps := by
  refine ⟨?_, founded.grounded.exists_leads held.lt_size, fun links final way hm caps => ?_⟩
  · rintro (hm | hv)
    · exact r.capabilities_of_isReserved s v hm
    · rw [Value.isReference, Option.isSome_eq_false_iff, Option.isNone_iff_eq_none] at hv
      rw [capabilities, capabilitiesWithin_succ, hv, Option.elim_none, ite_self]
  · rw [r.capabilities_of_not_isReserved s v hm]
    exact capabilitiesWithin_iff_decision way founded held
      (way.length_le founded.grounded held.lt_size)

/-- A host object with an attached grant, a view on it, and a view on that view. -/
def viewedHost : Store Unit :=
  ⟨#[⟨.object (.host "Derived" (Table.empty.insert "attached" (.ofList [.read]))) false, .empty,
      false⟩,
    ⟨.object (.view (.object 0) ["attached", "classed", "unlisted"]) false, .empty, true⟩,
    ⟨.object (.view (.object 1) ["attached", "classed", "granted"]) false, .empty, true⟩]⟩

/-- The class and its parent grant different sets on one member, and the inner view has a grant. -/
def viewedCalls : List Call :=
  [.declare "Derived" "Base", .grant (.ofClass "Base") "classed" (.ofList [.read, .write]),
    .grant (.ofClass "Derived") "classed" .empty,
    .grant (.ofClass "Base") "attached" (.ofList [.call]),
    .grant (.ofInstance 1) "granted" (.ofList [.read])]

theorem viewedHost_founded : viewedHost.Founded := by
  refine ⟨fun id target allow h j hj => ?_, fun id target allow h => ?_⟩
  · match id with
    | 0 => cases h
    | 1 | 2 =>
      cases h
      cases hj
      decide
    | _ + 3 => cases h
  · match id with
    | 0 => cases h
    | 1 | 2 =>
      cases h
      exact ⟨_, rfl⟩
    | _ + 3 => cases h

/-- Through both views: an attached grant, the grant of the nearer class, a member that the outer
view does not list, and one that the inner view does not list but has a grant on. -/
theorem most_specific_grant_decides_through_views :
    viewedHost.Founded ∧ viewedHost.Holds (.object 2) ∧
    (ofCalls viewedCalls).capabilities viewedHost (.object 2) "attached" = .ofList [.read] ∧
    (ofCalls viewedCalls).capabilities viewedHost (.object 2) "classed" = .empty ∧
    (ofCalls viewedCalls).capabilities viewedHost (.object 2) "unlisted" = .empty ∧
    (ofCalls viewedCalls).capabilities viewedHost (.object 2) "granted" = .ofList [.read] ∧
    (ofCalls viewedCalls).capabilities viewedHost (.object 2) "granted__" = .empty := by
  have held : viewedHost.Holds (.object 2) := ⟨_, rfl⟩
  have way : viewedHost.Leads (.object 2) [(.object 2, ["attached", "classed", "granted"]),
      (.object 1, ["attached", "classed", "unlisted"])] (.object 0) :=
    .through rfl (.through rfl (.ends rfl))
  have decides (m : String) := (most_specific_grant_decides (ofCalls viewedCalls) viewedHost_founded
    held m).2.2 _ _ way
  have nearest : (ofCalls viewedCalls).NearestGrant "Derived" "classed" .empty :=
    ⟨[], "Derived", ["Base"], by decide, by decide, by simp⟩
  refine ⟨viewedHost_founded, held, ?_, ?_, ?_, ?_, ?_⟩
  · refine (decides "attached" (by decide) _).mpr
      (.inherent ?_ (by decide) (.attached rfl (by decide)))
    exact List.forall_mem_cons.mpr ⟨⟨by decide, by decide⟩,
      List.forall_mem_singleton.mpr ⟨by decide, by decide⟩⟩
  · refine (decides "classed" (by decide) _).mpr (.inherent ?_ (by decide)
      (.inherited rfl (by decide) nearest))
    exact List.forall_mem_cons.mpr ⟨⟨by decide, by decide⟩,
      List.forall_mem_singleton.mpr ⟨by decide, by decide⟩⟩
  · exact (decides "unlisted" (by decide) _).mpr
      (.stopped (List.nil_append _).symm (by simp) (by decide) (by decide))
  · refine (decides "granted" (by decide) _).mpr
      (.byView (List.singleton_append).symm ?_ (by decide))
    exact List.forall_mem_singleton.mpr ⟨by decide, by decide⟩
  · exact (most_specific_grant_decides (ofCalls viewedCalls) viewedHost_founded held "granted__").1
      (.inl (by decide))

end Registry

end Confinement
