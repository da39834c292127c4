import Confinement.Proofs.Guardian.Immutability
import Confinement.Proofs.Invocation.Binding

/-!
# What endures

Guests change members through mediated access, the function guardian freezes, names and binds, and
new things are made. All the while objects keep their origins, functions go on doing what they did,
and what is immutable stays as it is. `Endures` says that of two stores, and every step of this kind
leads from a store to one in which the first endures.
-/
namespace Confinement

variable {code : Type}

namespace Store

/-- A later store: what was immutable is unchanged, objects have the origins and functions the code
that they had. -/
structure Endures (s t : Store code) : Prop where
  immutable : s.Keeps t
  origins : ∀ id origin, s.origin? id = some origin → t.origin? id = some origin
  functions : s.KeepsFunctions t

variable {s t : Store code}

namespace Endures

theorem refl (s : Store code) : s.Endures s :=
  ⟨.refl s, fun _ _ h => h, fun _ f hf => ⟨f, hf, rfl, rfl, rfl⟩⟩

theorem trans {u : Store code} (h : s.Endures t) (h' : t.Endures u) : s.Endures u where
  immutable := h.immutable.trans h'.immutable
  origins id origin horigin := h'.origins id origin (h.origins id origin horigin)
  functions id f hf := by
    obtain ⟨g, hg, alike⟩ := h.functions id f hf
    obtain ⟨g', hg', alike'⟩ := h'.functions id g hg
    exact ⟨g', hg', alike'.kind.trans alike.kind, alike'.origin.trans alike.origin,
      alike'.body.trans alike.body⟩

theorem of_adds (h : s.Adds t) : s.Endures t where
  immutable id e he := ⟨e, h.kept id e he, .refl e⟩
  origins id origin horigin := by
    rw [h.toExtends.origin?_eq id (lt_size_of_origin? horigin), horigin]
  functions id f hf := by
    refine ⟨f, ?_, rfl, rfl, rfl⟩
    unfold function? at hf ⊢
    split at hf
    · rename_i he
      rw [h.kept id _ he]
      exact hf
    · cases hf

theorem alloc (s : Store code) (e : Entity code) : s.Endures (s.alloc e).2 where
  immutable := keeps_alloc s e
  origins id origin horigin := by
    rw [(Extends.alloc s e).origin?_eq id (lt_size_of_origin? horigin), horigin]
  functions := keepsFunctions_alloc s e

theorem of_sameNatures (kept : s.Keeps t) (natures : s.SameNatures t) : s.Endures t where
  immutable := kept
  origins id origin horigin := by rw [← natures.origin? id, horigin]
  functions := keepsFunctions_of_sameNatures natures

/-- What is frozen is still there, and the same. -/
theorem entity?_of_frozen (h : s.Endures t) {id : EntityId} {e : Entity code}
    (he : s.entity? id = some e) (hfrozen : e.frozen = true) : t.entity? id = some e := by
  obtain ⟨e', he', kept⟩ := h.immutable id e he
  rw [he', kept.frozen hfrozen]

/-- A value that names something goes on naming it. -/
theorem holds (h : s.Endures t) {v : Value} (held : s.Holds v) : t.Holds v := by
  cases v with
  | object id =>
    obtain ⟨origin, horigin⟩ := held
    exact ⟨origin, h.origins id origin horigin⟩
  | function id =>
    obtain ⟨f, hf⟩ := held
    obtain ⟨g, hg, -⟩ := h.functions id f hf
    exact ⟨g, hg⟩
  | _ => trivial

end Endures

theorem origin?_rename (s : Store code) (id j : EntityId) (name : String) :
    (s.rename id name).origin? j = s.origin? j := by
  unfold origin?
  rw [rename, entity?_update]
  by_cases hj : id = j
  · rw [if_pos hj]
    rcases s.entity? j with - | ⟨nature, p, frozen⟩
    · rfl
    · cases nature <;> rfl
  · rw [if_neg hj]

theorem function?_rename (s : Store code) (id j : EntityId) (name : String) :
    (s.rename id name).function? j =
      if id = j then (s.function? j).map fun f => { f with name := some name }
      else s.function? j := by
  unfold function?
  rw [rename, entity?_update]
  by_cases hj : id = j
  · rw [if_pos hj, if_pos hj]
    rcases s.entity? j with - | ⟨nature, p, frozen⟩
    · rfl
    · cases nature <;> rfl
  · rw [if_neg hj, if_neg hj]

theorem endures_rename {id : EntityId} (h : s.isFrozen id = false) (name : String) :
    s.Endures (s.rename id name) where
  immutable := keeps_rename h name
  origins j origin horigin := by rw [origin?_rename, horigin]
  functions j f hf := by
    rw [function?_rename, hf, Option.map_some]
    split
    · exact ⟨_, rfl, rfl, rfl, rfl⟩
    · exact ⟨f, rfl, rfl, rfl, rfl⟩

theorem endures_freeze (s : Store code) (id : EntityId) : s.Endures (s.freeze id) :=
  .of_sameNatures (s.keeps_freeze id) (s.sameNatures_update id fun _ => rfl)

theorem endures_tagName (s : Store code) (id : EntityId) (name : String) :
    s.Endures (s.tagName id name).2 := by
  rcases s.tagName_cases id name with h | ⟨hfrozen, h⟩
  · rw [h]
    exact .refl s
  · rw [h]
    exact endures_rename hfrozen name

theorem endures_markFrozen (s : Store code) (id : EntityId) (name : String) :
    s.Endures (s.markFrozen id name).2 := by
  have named := s.endures_tagName id name
  rcases s.markFrozen_cases id name with h | h
  · rwa [h]
  · rw [h]
    exact named.trans (endures_freeze _ id)

theorem endures_bind (s : Store code) (id : EntityId) (receiver : Value) (guid : Option EntityId) :
    s.Endures (s.bind id receiver guid).2 := by
  unfold bind
  split
  · exact .alloc s _
  · exact .refl s

end Store

theorem Guardian.endures_step (r : Registry) (s : Store code) (x : Step) :
    s.Endures (step r s x) := by
  cases x with
  | access op =>
    exact .of_sameNatures (Access.keeps_perform r s op) (Access.sameNatures_perform r s op)
  | freeze id => exact s.endures_freeze id
  | tag id name => exact s.endures_tagName id name
  | mark id name => exact s.endures_markFrozen id name
  | bind id receiver guid => exact s.endures_bind id receiver guid

namespace Guardian

/-- The store after steps that are taken under different registries. -/
def runEach (s : Store code) (steps : List (Registry × Step)) : Store code :=
  steps.foldl (fun s x => step x.1 s x.2) s

theorem endures_runEach (s : Store code) (steps : List (Registry × Step)) :
    s.Endures (runEach s steps) := by
  induction steps generalizing s with
  | nil => exact .refl s
  | cons x steps ih => exact (endures_step x.1 s x.2).trans (ih (step x.1 s x.2))

end Guardian

end Confinement
