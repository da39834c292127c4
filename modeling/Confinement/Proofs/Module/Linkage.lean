import Confinement.Proofs.Access.Display
import Confinement.Proofs.Module.Import

/-!
# Import tables

A list of imports is linked exactly if no two of them have one name and none of them is at fault by
itself. The table then has the names in the order of the list. A plain import is the value that was
given, and one with an allow-list is a view made for it alone. The object that shows the table to a
module shows just that, under any registry, and no guest ever changes it.
-/
namespace Confinement.Import

open Access

variable {code : Type} {s built : Store code} {taken t : Table Value} {i : Import}
  {imports : List Import} {name : String}

/-- The import can be linked, unless its name is taken: the name is not reserved, and an allow-list
is attached to an object or a function and has no reserved name in it. -/
structure Admissible (i : Import) : Prop where
  free : Text.isReserved i.name = false
  restrictable : ∀ allow, i.allow = some allow →
    i.value.isReference = true ∧ ∀ m ∈ allow, Text.isReserved m = false

theorem refusal?_eq_none_iff :
    i.refusal? taken = none ↔ taken.find? i.name = none ∧ i.Admissible := by
  constructor
  · intro h
    have free : Text.isReserved i.name = false := by
      by_contra hreserved
      rw [Bool.not_eq_false] at hreserved
      simp [refusal?, hreserved] at h
    have new : taken.contains i.name = false := by
      by_contra htaken
      rw [Bool.not_eq_false] at htaken
      simp [refusal?, free, htaken] at h
    refine ⟨by simpa [Table.contains] using new, free, fun allow hallow => ?_⟩
    cases hvalue : i.value.isReference with
    | false => simp [refusal?, free, new, hallow, hvalue] at h
    | true =>
      refine ⟨rfl, fun m hm => ?_⟩
      by_contra hreserved
      rw [Bool.not_eq_false] at hreserved
      have listed : allow.any Text.isReserved = true := List.any_eq_true.mpr ⟨m, hm, hreserved⟩
      simp [refusal?, free, new, hallow, hvalue, listed] at h
  · rintro ⟨new, free, restrictable⟩
    have new : taken.contains i.name = false := by rw [Table.contains, new, Option.isSome_none]
    cases hallow : i.allow with
    | none => simp [refusal?, free, new, hallow]
    | some allow =>
      obtain ⟨hvalue, hfree⟩ := restrictable allow hallow
      have unlisted : allow.any Text.isReserved = false :=
        List.any_eq_false.mpr fun m hm => Bool.eq_false_iff.mp (hfree m hm)
      simp [refusal?, free, new, hallow, hvalue, unlisted]

theorem find?_insert_eq_none_iff {v : Value} {k : String} :
    (taken.insert k v).find? name = none ↔ name ≠ k ∧ taken.find? name = none := by
  rw [Table.find?_insert]
  by_cases h : name = k <;> simp [h]

theorem exists_link_iff (s : Store code) (taken : Table Value) (imports : List Import) :
    (∃ t built, link s taken imports = .ok (t, built)) ↔
      (imports.map Import.name).Nodup ∧
        ∀ i ∈ imports, taken.find? i.name = none ∧ i.Admissible := by
  induction imports generalizing s taken with
  | nil => simp [link]
  | cons i rest ih =>
    rw [List.map_cons, List.nodup_cons, List.forall_mem_cons, link]
    cases hrefusal : i.refusal? taken with
    | some refusal =>
      have refused : ¬ (taken.find? i.name = none ∧ i.Admissible) := by
        rw [← refusal?_eq_none_iff, hrefusal]
        exact Option.some_ne_none refusal
      refine iff_of_false ?_ fun h => refused h.2.1
      rintro ⟨t, built, h⟩
      cases h
    | none =>
      have admitted := refusal?_eq_none_iff.mp hrefusal
      have others : (∀ j ∈ rest, (taken.insert i.name (i.provide s).1).find? j.name = none ∧
          j.Admissible) ↔ i.name ∉ rest.map Import.name ∧
            ∀ j ∈ rest, taken.find? j.name = none ∧ j.Admissible := by
        simp only [find?_insert_eq_none_iff, List.mem_map, not_exists, not_and]
        exact ⟨fun h => ⟨fun j hj => (h j hj).1.1, fun j hj => ⟨(h j hj).1.2, (h j hj).2⟩⟩,
          fun h j hj => ⟨⟨h.1 j hj, (h.2 j hj).1⟩, (h.2 j hj).2⟩⟩
      refine (ih (i.provide s).2 (taken.insert i.name (i.provide s).1)).trans ?_
      rw [others]
      tauto

theorem keys_link (h : link s taken imports = .ok (t, built)) :
    t.keys = taken.keys ++ imports.map Import.name := by
  induction imports generalizing s taken with
  | nil =>
    cases h
    simp
  | cons i imports ih =>
    obtain ⟨hnew, hrest⟩ := link_cons h
    have hnotMem : i.name ∉ taken.keys := Table.notMem_of_find?_eq_none hnew
    rw [ih hrest, Table.keys_insert, if_neg hnotMem]
    simp

theorem endures_provide (i : Import) (s : Store code) : s.Endures (i.provide s).2 := by
  unfold provide
  cases i.allow with
  | none => exact .refl s
  | some allow => exact .alloc s _

theorem endures_link (h : link s taken imports = .ok (t, built)) : s.Endures built := by
  induction imports generalizing s taken with
  | nil =>
    cases h
    exact .refl built
  | cons i imports ih => exact (i.endures_provide s).trans (ih (link_cons h).2)

theorem find?_of_link_cons (h : link s taken (i :: imports) = .ok (t, built)) :
    t.find? i.name = some (i.provide s).1 := by
  refine (link_keeps (link_cons h).2).2 i.name (i.provide s).1 ?_
  rw [Table.find?_insert, if_pos rfl]

/-- Each import was provided at some time on the way. -/
theorem exists_provide_of_link (h : link s taken imports = .ok (t, built)) (hi : i ∈ imports) :
    ∃ now : Store code, s.size ≤ now.size ∧ get t i.name = (i.provide now).1 ∧
      (i.provide now).2.Endures built := by
  induction imports generalizing s taken with
  | nil => cases hi
  | cons j imports ih =>
    obtain ⟨-, hrest⟩ := link_cons h
    rcases List.mem_cons.mp hi with rfl | hi
    · exact ⟨s, le_rfl, by rw [get, find?_of_link_cons h, Option.getD_some], endures_link hrest⟩
    · obtain ⟨now, hsize, hget, hendures⟩ := ih hrest hi
      exact ⟨now, (j.extends_provide s).size_le.trans hsize, hget, hendures⟩

theorem get_of_plain (h : link s taken imports = .ok (t, built)) (hi : i ∈ imports)
    (hallow : i.allow = none) : get t i.name = i.value := by
  obtain ⟨now, -, hget, -⟩ := exists_provide_of_link h hi
  rw [hget, provide, hallow]

/-- An import with an allow-list is a frozen view of the value, which was not there before. -/
theorem exists_view_of_link (h : link s taken imports = .ok (t, built)) (hi : i ∈ imports)
    {allow : List String} (hallow : i.allow = some allow) :
    ∃ id, s.size ≤ id ∧ get t i.name = .object id ∧
      built.entity? id = some ⟨.object (.view i.value allow.eraseDups) false, .empty, true⟩ := by
  obtain ⟨now, hsize, hget, hendures⟩ := exists_provide_of_link h hi
  have hprovide : i.provide now = now.newView i.value allow := by simp only [provide, hallow]
  rw [hprovide] at hget hendures
  exact ⟨now.size, hsize, hget, hendures.entity?_of_frozen (now.entity?_alloc_self _) rfl⟩

/-- No view is made for two imports. -/
theorem pairwise_views_of_link (h : link s taken imports = .ok (t, built)) :
    imports.Pairwise fun i j => i.allow.isSome = true → j.allow.isSome = true →
      get t i.name ≠ get t j.name := by
  induction imports generalizing s taken with
  | nil => exact .nil
  | cons i imports ih =>
    obtain ⟨-, hrest⟩ := link_cons h
    refine .cons (fun j hj hi hallow => ?_) (ih hrest)
    obtain ⟨allow, hi⟩ := Option.isSome_iff_exists.mp hi
    obtain ⟨allow', hallow⟩ := Option.isSome_iff_exists.mp hallow
    have hprovide : i.provide s = s.newView i.value allow := by simp only [provide, hi]
    obtain ⟨id, hid, hget, -⟩ := exists_view_of_link hrest hj hallow
    rw [hprovide] at hid
    -- the view of `i` is the last thing made so far, and that of `j` is made after it
    have hlt : s.size < id := lt_of_lt_of_le (by simp [Store.newView, Store.newObject]) hid
    rw [hget, get, find?_of_link_cons h, hprovide, Option.getD_some]
    exact fun heq => hlt.ne (Value.object.inj heq)

theorem get_of_notMem (h : name ∉ t.keys) : get t name = .undefined := by
  have hnone : t.find? name = none := by
    rwa [Table.mem_keys_iff, Bool.not_eq_true, Option.isSome_eq_false_iff,
      Option.isNone_iff_eq_none] at h
  rw [get, hnone, Option.getD_none]

/-- An import is shown for reading and for enumeration. -/
def exhibit (e : String × Value) : Exhibit := ⟨e.1, .pinned e.2, .ofList [.read, .enumerate]⟩

def exhibits (t : Table Value) : List Exhibit := t.entries.map exhibit

theorem name_exhibits (t : Table Value) : (exhibits t).map Exhibit.name = t.keys := by
  simp [exhibits, exhibit, Table.keys, Function.comp_def]

theorem toObject_eq (t : Table Value) (s : Store code) :
    toObject t s = (HostObject.display "Imports" (exhibits t)).build s := by
  rw [toObject, HostObject.display, exhibits, List.foldl_map]
  rfl

theorem displays_toObject (t : Table Value) (s : Store code) :
    Displays (toObject t s).2 s.size (exhibits t) := by
  rw [toObject_eq]
  exact displays_build "Imports" (name_exhibits t ▸ t.nodup) s

/-- What a guest sees of the object, be it now or later. -/
theorem seen_of_displays {r : Registry} {id : EntityId} (shown : Displays s id (exhibits t))
    (ungranted : ∀ m, r.granted? (.ofInstance id) m = none)
    (free : ∀ name ∈ t.keys, Text.isReserved name = false) :
    keys r s (.object id) = .ok t.keys ∧
    (∀ name ∈ t.keys, read r s (.object id) name = .ok (get t name)) ∧
    ∀ name ∉ t.keys, ∀ y, read r s (.object id) name = .ok y → y = .missing := by
  have freeExhibit : ∀ x ∈ exhibits t, Text.isReserved x.name = false := fun x hx =>
    free x.name (name_exhibits t ▸ List.mem_map_of_mem hx)
  refine ⟨?_, fun name hname => ?_, fun name hname y hy => ?_⟩
  · have all : (exhibits t).filter (fun x => x.slot.enumerable && x.caps.contains .enumerate) =
        exhibits t := by
      refine List.filter_eq_self.mpr fun x hx => ?_
      obtain ⟨e, -, rfl⟩ := List.mem_map.mp hx
      rfl
    rw [shown.keys_eq ungranted freeExhibit, all, name_exhibits]
  · obtain ⟨e, he, rfl⟩ := List.mem_map.mp hname
    have hx : exhibit e ∈ exhibits t := List.mem_map_of_mem he
    have hget : get t e.1 = e.2 := by rw [get, Table.find?_of_mem he, Option.getD_some]
    rw [hget]
    exact shown.read_of_mem (x := exhibit e) ungranted hx (freeExhibit _ hx) rfl
  · exact shown.eq_missing_of_read (name_exhibits t ▸ hname) hy

/-- A list of imports is linked exactly if the names are different and each import is admissible.
The table then has the names in order; a plain import is its value, one with an allow-list is a
frozen view of it, made for it alone, and any other name is `undefined`. Let the table be shown as
an object, in any store, and let guests do what they like to it under any registries. The object
stays as it is; and under every registry that has no grant on it, it lists the names in order, reads
each of them as the table has it, and has no value for any other. -/
theorem import_tables_are_exact (s : Store code) (imports : List Import) :
    ((∃ t built, table s imports = .ok (t, built)) ↔
      (imports.map Import.name).Nodup ∧ ∀ i ∈ imports, i.Admissible) ∧
    ∀ t built, table s imports = .ok (t, built) →
      t.keys = imports.map Import.name ∧
      (∀ i ∈ imports, i.allow = none → get t i.name = i.value) ∧
      (∀ i ∈ imports, ∀ allow, i.allow = some allow → ∃ id, s.size ≤ id ∧
        get t i.name = .object id ∧
        built.entity? id = some ⟨.object (.view i.value allow.eraseDups) false, .empty, true⟩) ∧
      (imports.Pairwise fun i j => i.allow.isSome = true → j.allow.isSome = true →
        get t i.name ≠ get t j.name) ∧
      (∀ name ∉ t.keys, get t name = .undefined) ∧
      ∀ (now : Store code) (steps : List (Registry × Guardian.Step)), ∃ e,
        (toObject t now).1 = .object now.size ∧
        (toObject t now).2.entity? now.size = some e ∧
        (Guardian.runEach (toObject t now).2 steps).entity? now.size = some e ∧
        ∀ r : Registry, (∀ m, r.granted? (.ofInstance now.size) m = none) →
          keys r (Guardian.runEach (toObject t now).2 steps) (.object now.size) = .ok t.keys ∧
          (∀ name ∈ t.keys, read r (Guardian.runEach (toObject t now).2 steps)
            (.object now.size) name = .ok (get t name)) ∧
          ∀ name ∉ t.keys, ∀ y, read r (Guardian.runEach (toObject t now).2 steps)
            (.object now.size) name = .ok y → y = .missing := by
  have links : (∃ t built, table s imports = .ok (t, built)) ↔
      (imports.map Import.name).Nodup ∧ ∀ i ∈ imports, i.Admissible := by
    refine (exists_link_iff s .empty imports).trans (and_congr_right fun _ => ?_)
    exact forall₂_congr fun i _ => and_iff_right rfl
  refine ⟨links, fun t built h => ?_⟩
  have listed : t.keys = imports.map Import.name := keys_link h
  have free : ∀ name ∈ t.keys, Text.isReserved name = false := by
    intro name hname
    rw [listed] at hname
    obtain ⟨i, hi, rfl⟩ := List.mem_map.mp hname
    exact ((links.mp ⟨t, built, h⟩).2 i hi).free
  refine ⟨listed, fun i hi => get_of_plain h hi, fun i hi allow => exists_view_of_link h hi,
    pairwise_views_of_link h, fun name => get_of_notMem, fun now steps => ?_⟩
  have endures := Guardian.endures_runEach (toObject t now).2 steps
  have shown := displays_toObject t now
  obtain ⟨cls, members, grants, held, -⟩ := shown
  exact ⟨_, rfl, held, endures.entity?_of_frozen held rfl, fun r ungranted =>
    seen_of_displays ((displays_toObject t now).endures endures) ungranted free⟩

/-- A guest object with two members. -/
def importedStore : Store Unit :=
  ⟨#[⟨.object .guest false,
    .ofList [("listed", .plain (.string "1")), ("unlisted", .plain (.string "2"))], false⟩]⟩

/-- The object with one of its members listed, and a primitive. -/
def twoImports : List Import :=
  [⟨"object", .object 0, some ["listed"]⟩, ⟨"text", .string "a", none⟩]

def twoLinked : Table Value × Store Unit :=
  (.ofList [("object", .object 1), ("text", .string "a")],
    (importedStore.newView (.object 0) ["listed"]).2)

/-- Grants on the class of the import object: to change a name, and to read one that is absent. -/
def importGrants : Registry :=
  { grants := [⟨.ofClass "Imports", "text", .ofList [.write, .delete]⟩,
      ⟨.ofClass "Imports", "absent", .ofList [.read]⟩] }

/-- The store after attempts to change the import object. -/
def shownLater : Store Unit :=
  Guardian.runEach (toObject twoLinked.1 twoLinked.2).2
    [(importGrants, .access (.write (.object 2) "text" (.string "b"))),
      (importGrants, .access (.remove (.object 2) "object"))]

/-- An import with an allow-list arrives as a view, and the import object stays as it was linked. -/
theorem import_tables_are_exact_of_restricted_import :
    table importedStore twoImports = .ok twoLinked ∧
    (∀ m, importGrants.granted? (.ofInstance 2) m = none) ∧
    twoLinked.2.entity? 1 = some ⟨.object (.view (.object 0) ["listed"]) false, .empty, true⟩ ∧
    keys importGrants shownLater (.object 2) = .ok ["object", "text"] ∧
    read importGrants shownLater (.object 2) "object" = .ok (.object 1) ∧
    read importGrants shownLater (.object 2) "text" = .ok (.string "a") ∧
    ∀ y, read importGrants shownLater (.object 2) "absent" = .ok y → y = .missing := by
  have linked : table importedStore twoImports = .ok twoLinked := rfl
  have ungranted : ∀ m, importGrants.granted? (.ofInstance 2) m = none := by
    intro m
    simp [Registry.granted?, importGrants]
  obtain ⟨-, -, views, -, -, shown⟩ :=
    (import_tables_are_exact importedStore twoImports).2 _ _ linked
  obtain ⟨id, -, hid, view⟩ := views _ List.mem_cons_self _ rfl
  cases hid
  obtain ⟨-, -, -, -, seen⟩ := shown twoLinked.2
    [(importGrants, .access (.write (.object 2) "text" (.string "b"))),
      (importGrants, .access (.remove (.object 2) "object"))]
  obtain ⟨listed, reads, others⟩ := seen importGrants ungranted
  exact ⟨linked, ungranted, view, listed, reads "object" (by decide), reads "text" (by decide),
    others "absent" (by decide)⟩

end Confinement.Import
