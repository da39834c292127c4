import Confinement.Proofs.Store.Succession

/-!
# Walks that end

Resolving a value, looking up a member behind it and asking what is granted on it go from a view to
what it stands in front of; unwrapping goes from a wrapper to what it runs. Where both are older, no
walk goes on for ever. So these functions, which count their steps, are the recursions along views
and wrappers that nobody counts.
-/
namespace Confinement

variable {code : Type}

namespace Store

/-- What a wrapper runs, and with which receiver. -/
def bound? (s : Store code) (id : EntityId) : Option (EntityId × Value) :=
  (s.function? id).bind (·.body.bound?)

variable {s t : Store code} {v w : Value} {id : EntityId}

/-- How old a value is; primitives have always been there. -/
def age (v : Value) : Nat := v.id?.elim 0 (· + 1)

theorem Grounded.age_lt_of_fronts (grounded : s.Grounded) (h : s.Fronts v w) : age w < age v := by
  obtain ⟨i, rfl, -⟩ := h.exists_id
  have hage : age (.object i) = i + 1 := rfl
  rw [hage, age]
  cases hw : w.id? with
  | none => exact Nat.succ_pos i
  | some j => exact Nat.succ_lt_succ (grounded.lt_of_fronts h hw)

/-- From view to target to target there is no endless way. -/
theorem Grounded.wellFounded_fronts (grounded : s.Grounded) :
    WellFounded fun w v => s.Fronts v w :=
  Subrelation.wf (fun h => grounded.age_lt_of_fronts h) (measure age).wf

theorem Grounded.resolve_eq (grounded : s.Grounded) (v : Value) :
    s.resolve v = (s.view? v).elim v fun link => s.resolve link.1 := by
  cases hview : s.view? v with
  | none => exact resolve_of_view?_eq_none hview
  | some link => exact grounded.resolve_eq_of_fronts ⟨link.2, hview⟩

theorem Grounded.lookup?_eq (grounded : s.Grounded) (v : Value) (m : String) :
    Access.lookup? s v m =
      (s.view? v).elim ((s.entityOf? v).bind (·.ownValue? m)) fun link =>
        Access.lookup? s link.1 m := by
  rw [Access.lookup?, grounded.resolve_eq v]
  cases s.view? v with
  | none => rfl
  | some link => rfl

theorem bound?_eq_some_iff {b : EntityId × Value} :
    s.bound? id = some b ↔ ∃ f, s.function? id = some f ∧ f.body.bound? = some b :=
  Option.bind_eq_some_iff

/-- A wrapper goes on running the same function with the same receiver. -/
theorem Lasts.bound?_eq (h : s.Lasts t) {b : EntityId × Value} (hbound : s.bound? id = some b) :
    t.bound? id = some b := by
  obtain ⟨f, hf, hbody⟩ := bound?_eq_some_iff.mp hbound
  obtain ⟨g, hg, alike⟩ := h.keepsFunctions id f hf
  exact bound?_eq_some_iff.mpr ⟨g, hg, alike.body ▸ hbody⟩

/-- From wrapper to wrapped to wrapped there is no endless way. -/
theorem WrapsOlder.wellFounded_bound? (older : s.WrapsOlder) :
    WellFounded fun target id => ∃ receiver, s.bound? id = some (target, receiver) := by
  refine Subrelation.wf (r := (· < ·)) (fun {target id} h => ?_) Nat.lt_wfRel.wf
  obtain ⟨receiver, hbound⟩ := h
  obtain ⟨f, hf, hbody⟩ := bound?_eq_some_iff.mp hbound
  exact (older id f target receiver hf hbody).1

theorem unboundWithin_of_bound?_eq_none (h : s.bound? id = none) (n : Nat) :
    s.unboundWithin n id = id := by
  cases n with
  | zero => rfl
  | succ n =>
    rw [unboundWithin]
    split
    · rename_i hf
      simp [bound?, hf, FunctionBody.bound?] at h
    · rfl

theorem WrapsOlder.unbound_eq (older : s.WrapsOlder) (id : EntityId) :
    s.unbound id = (s.bound? id).elim id fun b => s.unbound b.1 := by
  cases hbound : s.bound? id with
  | none => exact unboundWithin_of_bound?_eq_none hbound s.size
  | some b =>
    obtain ⟨f, hf, hbody⟩ := bound?_eq_some_iff.mp hbound
    obtain ⟨-, g, hg⟩ := older id f b.1 b.2 hf hbody
    obtain ⟨n, inner, own, below⟩ := older.exists_wraps hg (some b.2)
    have whole : s.Wraps (n + 1) id none inner own := .bound hf hbody below
    rw [Option.elim_some, whole.unbound_eq, below.unbound_eq]

/-- The end of unwrapping is no wrapper. -/
theorem WrapsOlder.bound?_unbound (older : s.WrapsOlder) (id : EntityId) :
    s.bound? (s.unbound id) = none := by
  induction id using older.wellFounded_bound?.induction with
  | _ id ih =>
    rw [older.unbound_eq id]
    cases hbound : s.bound? id with
    | none => exact hbound
    | some b => exact ih b.1 ⟨b.2, hbound⟩

end Store

namespace Registry

variable {s : Store code} {v : Value} {m : String}

/-- No more steps are counted than there are to go. -/
theorem capabilitiesWithin_of_holds (r : Registry) (founded : s.Founded) (held : s.Holds v)
    {n : Nat} (hn : ∀ id ∈ v.id?, id < n) :
    r.capabilitiesWithin s m (n + 1) v = r.capabilitiesWithin s m (s.size + 1) v := by
  obtain ⟨links, final, way⟩ := founded.grounded.exists_leads held.lt_size
  have hsize := way.length_le founded.grounded held.lt_size
  have hlength := way.length_le founded.grounded hn
  exact (capabilitiesWithin_iff_decision way founded held hlength).mpr
    ((capabilitiesWithin_iff_decision way founded held hsize).mp rfl)

/-- What is granted on a member of a view: what its own grant says, or else what is granted on its
target, if it shows the member. Any other value answers by itself. -/
theorem capabilities_eq (r : Registry) (founded : s.Founded) (held : s.Holds v)
    (m : String) :
    r.capabilities s v m = if Text.isReserved m then .empty
      else (s.view? v).elim (r.capabilitiesWithin s m 1 v) fun link =>
        (r.instanceGrant? v m).getD (if m ∈ link.2 then r.capabilities s link.1 m else .empty) := by
  by_cases hreserved : Text.isReserved m = true
  · rw [capabilities, if_pos hreserved, if_pos hreserved]
  have hm : Text.isReserved m = false := eq_false_of_ne_true hreserved
  rw [if_neg hreserved, r.capabilities_of_not_isReserved s v hm]
  cases hview : s.view? v with
  | none =>
    have final : s.Leads v [] v := .ends hview
    exact (capabilitiesWithin_iff_decision final founded held (Nat.zero_le s.size)).mpr
      ((capabilitiesWithin_iff_decision final founded held le_rfl).mp rfl)
  | some link =>
    have hfronts : s.Fronts v link.1 := ⟨link.2, hview⟩
    obtain ⟨id, rfl, hid⟩ := hfronts.exists_id
    obtain ⟨n, hn⟩ := Nat.exists_eq_add_one_of_ne_zero (Nat.ne_zero_of_lt hid)
    have target : r.capabilitiesWithin s m s.size link.1 = r.capabilities s link.1 m := by
      rw [r.capabilities_of_not_isReserved s link.1 hm, hn]
      have held' := founded.holds_target hview
      refine (r.capabilitiesWithin_of_holds founded held' fun j hj => ?_).trans (by rw [hn])
      exact (founded.grounded.lt_of_fronts hfronts hj).trans_le (Nat.le_of_lt_add_one (hn ▸ hid))
    rw [r.capabilitiesWithin_view hview, target, Option.elim_some]

end Registry

namespace Store

/-- Every chain of views and every chain of wrappers ends, because it goes from younger to older;
and what follows a chain is defined by recursion along it. -/
structure ChainsEnd (s : Store code) : Prop where
  /-- What a view stands in front of was there before it. -/
  view_older : ∀ id target allow, s.origin? id = some (.view target allow) →
    s.Holds target ∧ ∀ j ∈ target.id?, j < id
  /-- What a wrapper runs was there before it. -/
  wrapper_older : ∀ id target receiver, s.bound? id = some (target, receiver) →
    s.Holds (.function target) ∧ target < id
  views_end : WellFounded fun w v => s.Fronts v w
  wrappers_end : WellFounded fun target id => ∃ receiver, s.bound? id = some (target, receiver)
  resolve_eq : ∀ v, s.resolve v = (s.view? v).elim v fun link => s.resolve link.1
  /-- What a value resolves to is no view. -/
  resolved : ∀ v, s.view? (s.resolve v) = none
  lookup?_eq : ∀ v m, Access.lookup? s v m =
    (s.view? v).elim ((s.entityOf? v).bind (·.ownValue? m)) fun link => Access.lookup? s link.1 m
  capabilities_eq : ∀ (r : Registry) v m, s.Holds v → r.capabilities s v m =
    if Text.isReserved m then .empty
    else (s.view? v).elim (r.capabilitiesWithin s m 1 v) fun link =>
      (r.instanceGrant? v m).getD (if m ∈ link.2 then r.capabilities s link.1 m else .empty)
  unbound_eq : ∀ id, s.unbound id = (s.bound? id).elim id fun b => s.unbound b.1
  /-- What is under all wrappers is none. -/
  unwrapped : ∀ id, s.bound? (s.unbound id) = none

theorem Sound.chainsEnd {allowed : code → Prop} {s : Store code} (sound : s.Sound allowed) :
    s.ChainsEnd := by
  have founded := sound.founded
  have older := sound.wrapsOlder
  exact {
    view_older := fun id target allow h =>
      ⟨founded.held id target allow h, founded.grounded id target allow h⟩
    wrapper_older := fun id target receiver h => by
      obtain ⟨f, hf, hbody⟩ := bound?_eq_some_iff.mp h
      obtain ⟨hlt, hheld⟩ := older id f target receiver hf hbody
      exact ⟨hheld, hlt⟩
    views_end := founded.grounded.wellFounded_fronts
    wrappers_end := older.wellFounded_bound?
    resolve_eq := founded.grounded.resolve_eq
    resolved := founded.grounded.view?_resolve
    lookup?_eq := founded.grounded.lookup?_eq
    capabilities_eq := fun r _ m held => r.capabilities_eq founded held m
    unbound_eq := older.unbound_eq
    unwrapped := older.bound?_unbound }

end Store

end Confinement
