import Mathlib.Data.String.Basic
import Mathlib.Data.Prod.Lex
import Confinement.Proofs.Access.Arguments
import Confinement.Proofs.Registry.Agreement

/-!
# Listing the grants

The grants are held by subject and member, in no particular order, and are listed by the text of the
subject, then by member. No two subjects have one text: those of classes and of instances begin
differently, a class is named in full, and an identity is written out in digits. So a subject and a
member have one place in the order, and a sorted list is known by what it holds. Whichever way one
goes through the subjects, and through the members of each, the same list comes of it.
-/
namespace Confinement

/-- Lookup finds what is put down, and nothing else. -/
theorem Table.find?_eq_some_iff {α : Type} {t : Table α} {k : String} {v : α} :
    t.find? k = some v ↔ (k, v) ∈ t.entries :=
  ⟨mem_of_find?, find?_of_mem⟩

/-- No two subjects have one text. -/
theorem Subject.text_injective : Function.Injective Subject.text := by
  intro a b h
  have ofClass (cls : String) : (Subject.ofClass cls).text = "class " ++ cls := by
    simp [text, textBy, toString]
  have ofInstance (id : EntityId) : (Subject.ofInstance id).text = "instance #" ++ toString id := by
    simp [text, textBy, toString]
  -- the texts of a class and of an instance differ in the first letter
  have apart (cls : String) (id : EntityId) : "class " ++ cls ≠ "instance #" ++ toString id := by
    intro heq
    have hhead := congrArg (fun t => t.toList.head?) heq
    simp at hhead
  cases a with
  | ofClass cls =>
    cases b with
    | ofClass cls' =>
      rw [ofClass, ofClass, String.append_right_inj] at h
      rw [h]
    | ofInstance id =>
      rw [ofClass, ofInstance] at h
      exact absurd h (apart cls id)
  | ofInstance id =>
    cases b with
    | ofClass cls =>
      rw [ofClass, ofInstance] at h
      exact absurd h.symm (apart cls id)
    | ofInstance id' =>
      rw [ofInstance, ofInstance, String.append_right_inj] at h
      rw [eq_of_toString_eq h]

/-- The place of a grant in a listing: the text of its subject, then its member. -/
def Grant.place (g : Grant) : Lex (String × String) := toLex (g.subject.text, g.member)

theorem Grant.eq_of_place_eq {a b : Grant} (h : a.place = b.place) :
    a.subject = b.subject ∧ a.member = b.member := by
  have hpair : (a.subject.text, a.member) = (b.subject.text, b.member) := toLex.injective h
  obtain ⟨htext, hmember⟩ := Prod.mk.inj hpair
  exact ⟨Subject.text_injective htext, hmember⟩

namespace Registry

theorem listedBefore_iff {a b : Grant} : listedBefore a b = true ↔ a.place ≤ b.place := by
  rw [Grant.place, Grant.place, Prod.Lex.toLex_le_toLex, listedBefore, Bool.or_eq_true,
    Bool.and_eq_true, decide_eq_true_iff, decide_eq_true_iff, beq_iff_eq]

theorem pairwise_mergeSort_place (l : List Grant) :
    (l.mergeSort listedBefore).Pairwise fun a b => a.place ≤ b.place := by
  have htrans (a b c : Grant) (hab : listedBefore a b = true) (hbc : listedBefore b c = true) :
      listedBefore a c = true := by
    rw [listedBefore_iff] at hab hbc ⊢
    exact hab.trans hbc
  have htotal (a b : Grant) : (listedBefore a b || listedBefore b a) = true := by
    rw [Bool.or_eq_true, listedBefore_iff, listedBefore_iff]
    exact le_total a.place b.place
  exact (List.pairwise_mergeSort htrans htotal l).imp listedBefore_iff.mp

/-- Every stored grant has a place of its own. -/
theorem eq_of_place_eq_of_mem {calls : List Call} {a b : Grant} (ha : a ∈ (ofCalls calls).grants)
    (hb : b ∈ (ofCalls calls).grants) (h : a.place = b.place) : a = b := by
  obtain ⟨hsubject, hmember⟩ := Grant.eq_of_place_eq h
  rw [mem_grants_iff] at ha hb
  rw [hsubject, hmember, hb] at ha
  cases a
  cases b
  cases hsubject
  cases hmember
  cases ha
  rfl

theorem perm_listing (r : Registry) : r.listing.Perm r.grants := r.grants.mergeSort_perm _

/-- Whatever has put them in order, the stored grants in order are the listing. -/
theorem eq_listing_of_perm {calls : List Call} {l : List Grant}
    (hperm : l.Perm (ofCalls calls).grants) (hsorted : l.Pairwise fun a b => a.place ≤ b.place) :
    l = (ofCalls calls).listing := by
  have hlisting := perm_listing (ofCalls calls)
  refine List.Perm.eq_of_pairwise (fun a b ha hb hab hba => ?_) hsorted
    (pairwise_mergeSort_place _) (hperm.trans hlisting.symm)
  exact eq_of_place_eq_of_mem (hperm.subset ha) (hlisting.subset hb) (hab.antisymm hba)

theorem pairwise_listing (calls : List Call) :
    (ofCalls calls).listing.Pairwise fun a b => a.place < b.place := by
  have hperm := perm_listing (ofCalls calls)
  have hnodup : (ofCalls calls).listing.Nodup := hperm.nodup_iff.mpr (nodup_grants calls)
  refine ((pairwise_mergeSort_place _).and hnodup).imp_of_mem fun ha hb h => ?_
  refine lt_of_le_of_ne h.1 fun hplace => h.2 ?_
  exact eq_of_place_eq_of_mem (hperm.subset ha) (hperm.subset hb) hplace

/-- A way through all grants of a registry: the subjects one after the other, in any order, and with
each of them what is granted on its members, in any order. -/
structure Tour (r : Registry) where
  stops : List (Subject × Table CapabilitySet)
  nodup : (stops.map Prod.fst).Nodup
  found : ∀ stop ∈ stops, ∀ member, stop.2.find? member = r.granted? stop.1 member
  complete : ∀ subject member, r.granted? subject member ≠ none → subject ∈ stops.map Prod.fst

namespace Tour

variable {r : Registry}

/-- The grants as they are come upon. -/
def collected (t : r.Tour) : List Grant :=
  t.stops.flatMap fun stop => stop.2.entries.map fun e => ⟨stop.1, e.1, e.2⟩

theorem mem_collected (t : r.Tour) (g : Grant) :
    g ∈ t.collected ↔ r.granted? g.subject g.member = some g.capabilities := by
  rw [collected, List.mem_flatMap]
  constructor
  · rintro ⟨stop, hstop, hg⟩
    obtain ⟨e, he, rfl⟩ := List.mem_map.mp hg
    rwa [← t.found stop hstop, Table.find?_eq_some_iff]
  · intro h
    obtain ⟨stop, hstop, hsubject⟩ := List.mem_map.mp (t.complete g.subject g.member (by simp [h]))
    rw [← hsubject, ← t.found stop hstop, Table.find?_eq_some_iff] at h
    exact ⟨stop, hstop, List.mem_map.mpr ⟨(g.member, g.capabilities), h, by rw [hsubject]⟩⟩

/-- Nothing is come upon twice. -/
theorem nodup_collected (t : r.Tour) : t.collected.Nodup := by
  refine List.nodup_flatMap.mpr ⟨fun stop _ => ?_, ?_⟩
  · refine stop.2.nodup.of_map Prod.fst |>.map fun e e' h => ?_
    obtain ⟨-, hmember, hcaps⟩ := Grant.mk.inj h
    exact Prod.ext hmember hcaps
  · refine (List.pairwise_map.mp t.nodup).imp fun hne => ?_
    refine List.disjoint_left.mpr fun g hg hg' => hne ?_
    obtain ⟨e, -, hfirst⟩ := List.mem_map.mp hg
    obtain ⟨e', -, hsecond⟩ := List.mem_map.mp hg'
    exact congrArg Grant.subject (hfirst.trans hsecond.symm)

theorem perm_collected {calls : List Call} (t : (ofCalls calls).Tour) :
    t.collected.Perm (ofCalls calls).grants := by
  refine (List.perm_ext_iff_of_nodup t.nodup_collected (nodup_grants calls)).mpr fun g => ?_
  rw [t.mem_collected, mem_grants_iff]

end Tour

/-- What is granted on the members of one subject. -/
def tableOf (calls : List Call) (subject : Subject) : Table CapabilitySet where
  entries := ((ofCalls calls).grants.filter (·.subject = subject)).map fun g =>
    (g.member, g.capabilities)
  nodup := by
    rw [List.map_map]
    refine (nodup_grants calls).filter _ |>.map_on fun a ha b hb hmember => ?_
    simp only [List.mem_filter, decide_eq_true_eq] at ha hb
    refine eq_of_place_eq_of_mem ha.1 hb.1 ?_
    have hmember : a.member = b.member := hmember
    rw [Grant.place, Grant.place, ha.2, hb.2, hmember]

theorem find?_tableOf (calls : List Call) (subject : Subject) (member : String) :
    (tableOf calls subject).find? member = (ofCalls calls).granted? subject member := by
  refine Option.ext fun caps => ?_
  rw [← mem_grants_iff calls ⟨subject, member, caps⟩, Table.find?_eq_some_iff]
  simp only [tableOf, List.mem_map, List.mem_filter, decide_eq_true_eq]
  constructor
  · rintro ⟨g, ⟨hg, rfl⟩, hpair⟩
    cases hpair
    exact hg
  · exact fun hg => ⟨_, ⟨hg, rfl⟩, rfl⟩

/-- The way through the subjects as they first came in. -/
def Tour.ofCalls (calls : List Call) : (ofCalls calls).Tour where
  stops := ((Registry.ofCalls calls).grants.map Grant.subject).dedup.map fun subject =>
    (subject, tableOf calls subject)
  nodup := by
    rw [List.map_map]
    exact (List.nodup_dedup _).map fun _ _ h => h
  found stop hstop member := by
    obtain ⟨subject, -, rfl⟩ := List.mem_map.mp hstop
    exact find?_tableOf calls subject member
  complete subject member h := by
    obtain ⟨caps, hcaps⟩ := Option.ne_none_iff_exists'.mp h
    have hmem := mem_grants_of_granted? hcaps
    rw [List.map_map]
    refine List.mem_map.mpr ⟨subject, List.mem_dedup.mpr ?_, rfl⟩
    exact List.mem_map.mpr ⟨_, hmem, rfl⟩

/-- Of every registry that calls can make, the listing holds each stored grant once and nothing
else, and it goes strictly upwards by text of the subject and then by member. Whichever way one goes
through the grants, sorting what one comes upon gives that list, and it is the only list of these
grants that is in order. -/
theorem listing_is_canonical (calls : List Call) :
    (∀ g, (ofCalls calls).listing.count g =
      if (ofCalls calls).granted? g.subject g.member = some g.capabilities then 1 else 0) ∧
    (ofCalls calls).listing.Pairwise (fun a b => a.place < b.place) ∧
    Nonempty (ofCalls calls).Tour ∧
    ∀ t : (ofCalls calls).Tour,
      t.collected.mergeSort listedBefore = (ofCalls calls).listing ∧
      ∀ l, l.Perm t.collected → l.Pairwise (fun a b => a.place ≤ b.place) →
        l = (ofCalls calls).listing := by
  refine ⟨fun g => ?_, pairwise_listing calls, ⟨.ofCalls calls⟩, fun t => ⟨?_, ?_⟩⟩
  · have hperm := perm_listing (ofCalls calls)
    simp only [← mem_grants_iff]
    rw [hperm.count_eq, (nodup_grants calls).count]
  · have hsorted := t.collected.mergeSort_perm listedBefore
    exact eq_listing_of_perm (hsorted.trans t.perm_collected) (pairwise_mergeSort_place _)
  · exact fun l hperm hsorted => eq_listing_of_perm (hperm.trans t.perm_collected) hsorted

/-- Grants as they come in: two instances, and a class with two members, one granted again. -/
def listedCalls : List Call :=
  [.grant (.ofInstance 2) "c" (.ofList [.call]),
    .grant (.ofClass "Host") "b" (.ofList [.read]),
    .grant (.ofInstance 10) "c" (.ofList [.call]),
    .grant (.ofClass "Host") "a" (.ofList [.read, .write]),
    .grant (.ofClass "Host") "b" (.ofList [.read])]

/-- Classes come before instances, members go by their names, and `10` stands before `2`. -/
def sortedGrants : List Grant :=
  [⟨.ofClass "Host", "a", .ofList [.read, .write]⟩, ⟨.ofClass "Host", "b", .ofList [.read]⟩,
    ⟨.ofInstance 10, "c", .ofList [.call]⟩, ⟨.ofInstance 2, "c", .ofList [.call]⟩]

/-- Grants on two instances and on two members of a class, in the order of a listing. -/
theorem listing_is_canonical_of_listedCalls :
    sortedGrants.Perm (Tour.ofCalls listedCalls).collected ∧
      sortedGrants.Pairwise (fun a b => a.place ≤ b.place) ∧
      sortedGrants = (ofCalls listedCalls).listing := by
  have hperm : sortedGrants.Perm (Tour.ofCalls listedCalls).collected := by decide
  have hsorted : sortedGrants.Pairwise fun a b => a.place ≤ b.place := by
    simp only [← listedBefore_iff]
    decide
  obtain ⟨-, -, -, htour⟩ := listing_is_canonical listedCalls
  exact ⟨hperm, hsorted, (htour (.ofCalls listedCalls)).2 sortedGrants hperm hsorted⟩

end Registry

end Confinement
