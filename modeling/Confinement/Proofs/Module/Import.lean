import Confinement.Module.Loader
import Confinement.Proofs.Store.Chain

/-!
# Linking

Imports are linked one after the other. Names that are taken stay taken, and the store only grows.
So an import with an allow-list is in the end what it was made into: a view that was not there
before. -/
namespace Confinement

variable {code : Type}

theorem Store.view?_newView (s : Store code) (target : Value) (allow : List String) :
    (s.newView target allow).2.view? (s.newView target allow).1 =
      some (target, allow.eraseDups) :=
  view?_eq_some_iff.mpr ⟨s.size, rfl, s.origin?_newObject _ _ _ _⟩

namespace Import

variable {s built : Store code} {taken table : Table Value} {i : Import} {imports : List Import}

theorem extends_provide (i : Import) (s : Store code) : s.Extends (i.provide s).2 := by
  unfold provide
  cases i.allow with
  | none => exact .refl s
  | some allow => exact .alloc s _

theorem link_cons (h : link s taken (i :: imports) = .ok (table, built)) :
    taken.find? i.name = none ∧
      link (i.provide s).2 (taken.insert i.name (i.provide s).1) imports = .ok (table, built) := by
  rw [link] at h
  cases hrefusal : i.refusal? taken with
  | some refusal =>
    rw [hrefusal] at h
    cases h
  | none =>
    rw [hrefusal] at h
    refine ⟨?_, h⟩
    by_contra hname
    have htaken : taken.contains i.name = true := Option.isSome_iff_ne_none.mpr hname
    rw [refusal?, htaken, if_pos rfl] at hrefusal
    split at hrefusal <;> cases hrefusal

/-- Linking only adds: names that are taken stay, and so does everything in the store. -/
theorem link_keeps (h : link s taken imports = .ok (table, built)) :
    s.Extends built ∧ ∀ name v, taken.find? name = some v → table.find? name = some v := by
  induction imports generalizing s taken with
  | nil =>
    cases h
    exact ⟨.refl _, fun _ _ hv => hv⟩
  | cons i imports ih =>
    obtain ⟨hnew, hrest⟩ := link_cons h
    obtain ⟨hextends, hkeeps⟩ := ih hrest
    refine ⟨(i.extends_provide s).trans hextends, fun name v hv => hkeeps name v ?_⟩
    have hne : name ≠ i.name := by
      rintro rfl
      rw [hnew] at hv
      cases hv
    rw [Table.find?_insert, if_neg hne]
    exact hv

/-- An import with an allow-list is a new view that shows the listed members. -/
theorem view?_of_link (h : link s taken imports = .ok (table, built)) (hi : i ∈ imports)
    {A : List String} (hA : i.allow = some A) :
    s.entityOf? (get table i.name) = none ∧
      built.view? (get table i.name) = some (i.value, A.eraseDups) := by
  suffices h : ∃ id, s.size ≤ id ∧ get table i.name = .object id ∧
      built.view? (.object id) = some (i.value, A.eraseDups) by
    obtain ⟨id, hid, hget, hview⟩ := h
    rw [hget]
    exact ⟨Array.getElem?_eq_none hid, hview⟩
  induction imports generalizing s taken with
  | nil => cases hi
  | cons j imports ih =>
    obtain ⟨-, hrest⟩ := link_cons h
    rcases List.mem_cons.mp hi with rfl | hi
    · obtain ⟨hextends, hkeeps⟩ := link_keeps hrest
      have hprovide : i.provide s = s.newView i.value A := by simp only [provide, hA]
      rw [hprovide] at hextends hkeeps
      have hview := s.view?_newView i.value A
      refine ⟨s.size, le_rfl, ?_, ?_⟩
      · rw [get, hkeeps i.name (s.newView i.value A).1 (by simp), Option.getD_some]
        rfl
      · exact (hextends.view?_eq_of_fronts ⟨_, hview⟩).trans hview
    · obtain ⟨id, hid, hget⟩ := ih hrest hi
      exact ⟨id, (j.extends_provide s).size_le.trans hid, hget⟩

end Import

end Confinement
