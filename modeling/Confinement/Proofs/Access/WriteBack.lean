import Confinement.Proofs.Access.Effect
import Confinement.Proofs.Store.Chain
import Confinement.Proofs.Store.Restriction

/-!
# Writing back what was read

A write of the value that the slot holds already leaves the whole store as it is. What a read gives
is that value, with two exceptions: for an absent member it gives `missing`, and a view that finds
what it stands for gives itself. So reading and writing back changes nothing but in these two cases,
and there it sets that one member.
-/
namespace Confinement

/-- Writing to a name what it holds changes nothing. -/
theorem Table.insert_eq_self {α : Type} {t : Table α} {k : String} {v : α}
    (h : t.find? k = some v) : t.insert k v = t := by
  obtain ⟨front, back, split⟩ := exists_split_of_findEntry h
  exact Table.ext ((entries_insert_of_split split v).trans split.symm)

variable {code : Type}

theorem Entity.ownValue?_setValue (e : Entity code) (m : String) (x : Value) :
    (e.setValue m x).ownValue? m = some x := by
  unfold setValue
  split <;> simp [ownValue?, define, Slot.plain]

theorem Entity.setValue_eq_self {e : Entity code} {m : String} {x : Value}
    (h : e.ownValue? m = some x) : e.setValue m x = e := by
  obtain ⟨slot, hslot, rfl⟩ := Option.map_eq_some_iff.mp h
  have hinsert : e.properties.insert m slot = e.properties := Table.insert_eq_self hslot
  simp only [setValue, hslot, define, hinsert]

theorem Store.update_eq_self_iff {s : Store code} {id : EntityId} {e : Entity code}
    (he : s.entity? id = some e) (f : Entity code → Entity code) :
    s.update id f = s ↔ f e = e := by
  constructor
  · intro h
    have hupdated : (s.update id f).entity? id = some (f e) := by
      rw [entity?_update, if_pos rfl, he, Option.map_some]
    rw [h, he] at hupdated
    exact (Option.some.inj hupdated).symm
  · intro h
    refine ext_entity? fun j => ?_
    rw [entity?_update]
    split
    · rename_i hj
      rw [← hj, he, Option.map_some, h]
    · rfl

namespace Access

variable {r : Registry} {s t : Store code} {v x : Value} {m : String}

/-- A write changes nothing exactly if the value is there already. -/
theorem eq_of_write_iff (h : write r s v m x = (.ok (), t)) : t = s ↔ lookup? s v m = some x := by
  obtain ⟨id, e, admits, -, rfl⟩ := write_eq_ok_iff.mp h
  rw [Store.update_eq_self_iff admits.held, admits.lookup?_eq]
  constructor
  · intro hsame
    rw [← e.ownValue?_setValue m x, hsame]
  · exact Entity.setValue_eq_self

/-- The view finds under the member the very value that it stands for. -/
def FindsItself (s : Store code) (v : Value) (m : String) : Prop :=
  s.view? v ≠ none ∧ ∃ y, lookup? s v m = some y ∧ y.sameIdentity (s.resolve v) = true

theorem eq_missing_of_read (h : read r s v m = .ok x) (absent : lookup? s v m = none) :
    x = .missing := by
  obtain ⟨-, -, hx⟩ := granted_eq_ok_iff.mp h
  rw [absent, Option.getD_none, rewrap] at hx
  cases hview : s.view? v <;> simpa [hview, Value.sameIdentity, eq_comm] using hx

theorem eq_view_of_read (h : read r s v m = .ok x) (finds : FindsItself s v m) : x = v := by
  obtain ⟨hview, y, hy, hsame⟩ := finds
  obtain ⟨-, -, hx⟩ := granted_eq_ok_iff.mp h
  obtain ⟨behind, hview⟩ := Option.ne_none_iff_exists'.mp hview
  rw [hy, Option.getD_some, rewrap, hview] at hx
  simpa [hsame, eq_comm] using hx

theorem lookup?_of_read (h : read r s v m = .ok x) (present : lookup? s v m ≠ none)
    (finds : ¬ FindsItself s v m) : lookup? s v m = some x := by
  obtain ⟨y, hy⟩ := Option.ne_none_iff_exists'.mp present
  obtain ⟨-, -, hx⟩ := granted_eq_ok_iff.mp h
  rw [hy, Option.getD_some, rewrap] at hx
  rw [hy]
  cases hview : s.view? v with
  | none => simpa [hview] using hx
  | some behind =>
    have hother : y.sameIdentity (s.resolve v) = false := by
      refine Bool.eq_false_iff.mpr fun hsame => finds ⟨?_, y, hy, hsame⟩
      rw [hview]
      exact Option.some_ne_none behind
    simpa [hview, hother] using hx

/-- A view that finds what it stands for does not read what is stored. -/
theorem lookup?_ne_of_findsItself (grounded : s.Grounded) (finds : FindsItself s v m) :
    lookup? s v m ≠ some v := by
  obtain ⟨hview, y, hy, hsame⟩ := finds
  obtain ⟨rfl, -⟩ := Value.sameIdentity_iff.mp hsame
  rw [hy]
  intro hself
  rw [← Option.some.inj hself] at hview
  exact hview (grounded.view?_resolve v)

/-- Whenever a read and a write of the value read both succeed, the write sets that one member. It
leaves the whole store as it was if the member is there and the subject is no view that finds what
it stands for; in a grounded store, only then. An absent member is read as `missing`, and such a
view reads itself. -/
theorem writing_back_is_idle (hread : read r s v m = .ok x)
    (hwrite : write r s v m x = (.ok (), t)) :
    (lookup? s v m ≠ none → ¬ FindsItself s v m → t = s) ∧
    (∃ id, (s.resolve v).id? = some id ∧ s.Sets t id m x) ∧
    (lookup? s v m = none → x = .missing ∧ t ≠ s) ∧
    (FindsItself s v m → x = v ∧ (s.Grounded → t ≠ s)) := by
  have idle := eq_of_write_iff hwrite
  refine ⟨fun present finds => ?_, ?_, fun absent => ⟨?_, ?_⟩, fun finds => ⟨?_, ?_⟩⟩
  · exact idle.mpr (lookup?_of_read hread present finds)
  · obtain ⟨id, e, admits, -, rfl⟩ := write_eq_ok_iff.mp hwrite
    exact ⟨id, admits.resolves, Store.sets_update admits.held m x⟩
  · exact eq_missing_of_read hread absent
  · intro hsame
    rw [idle.mp hsame] at absent
    cases absent
  · exact eq_view_of_read hread finds
  · intro grounded hsame
    rw [eq_view_of_read hread finds] at idle
    exact lookup?_ne_of_findsItself grounded finds (idle.mp hsame)

/-- A guest object that holds itself as `owner`, and a view on it. -/
def selfHolder : Store Unit :=
  ⟨#[⟨.object .guest false,
      .ofList [("title", .plain (.string "a")), ("owner", .plain (.object 0))], false⟩,
    ⟨.object (.view (.object 0) ["title", "owner", "memo"]) false, .empty, true⟩]⟩

/-- The same with `missing` written to `memo`. -/
def selfHolderWithMemo : Store Unit :=
  ⟨#[⟨.object .guest false, .ofList [("title", .plain (.string "a")),
      ("owner", .plain (.object 0)), ("memo", .plain .missing)], false⟩,
    ⟨.object (.view (.object 0) ["title", "owner", "memo"]) false, .empty, true⟩]⟩

/-- The same with the view in place of the object as `owner`. -/
def viewHolder : Store Unit :=
  ⟨#[⟨.object .guest false,
      .ofList [("title", .plain (.string "a")), ("owner", .plain (.object 1))], false⟩,
    ⟨.object (.view (.object 0) ["title", "owner", "memo"]) false, .empty, true⟩]⟩

/-- Through the view: an absent member is read as `missing`, and writing that back creates it; a
member that holds the object is read as the view, and writing that back replaces it. -/
theorem writing_back_changes_store :
    read .empty selfHolder (.object 1) "memo" = .ok .missing ∧
    write .empty selfHolder (.object 1) "memo" .missing = (.ok (), selfHolderWithMemo) ∧
    keys .empty selfHolder (.object 1) = .ok ["title", "owner"] ∧
    keys .empty selfHolderWithMemo (.object 1) = .ok ["title", "owner", "memo"] ∧
    read .empty selfHolder (.object 1) "owner" = .ok (.object 1) ∧
    write .empty selfHolder (.object 1) "owner" (.object 1) = (.ok (), viewHolder) ∧
    lookup? selfHolder (.object 0) "owner" = some (.object 0) ∧
    lookup? viewHolder (.object 0) "owner" = some (.object 1) :=
  ⟨rfl, rfl, rfl, rfl, rfl, rfl, rfl, rfl⟩

theorem selfHolder_grounded : selfHolder.Grounded := by
  intro id target allow h j hj
  match id with
  | 0 => cases h
  | 1 =>
    cases h
    cases hj
    decide
  | _ + 2 => cases h

/-- Written back through the view, `title` changes nothing, `memo` is added at the end, and `owner`
becomes the view in its place. -/
theorem writing_back_is_idle_of_selfHolder :
    write .empty selfHolder (.object 1) "title" (.string "a") = (.ok (), selfHolder) ∧
    selfHolder.Sets selfHolderWithMemo 0 "memo" .missing ∧ selfHolderWithMemo ≠ selfHolder ∧
    FindsItself selfHolder (.object 1) "owner" ∧ selfHolder.Sets viewHolder 0 "owner" (.object 1) ∧
    viewHolder ≠ selfHolder := by
  have finds : FindsItself selfHolder (.object 1) "owner" := ⟨nofun, .object 0, rfl, rfl⟩
  have plain : ¬ FindsItself selfHolder (.object 1) "title" := by
    rintro ⟨-, y, hy, hsame⟩
    cases hy
    cases hsame
  have title : read .empty selfHolder (.object 1) "title" = .ok (.string "a") := rfl
  have memo := writing_back_is_idle (t := selfHolderWithMemo)
    (show read .empty selfHolder (.object 1) "memo" = .ok .missing from rfl) rfl
  have owner := writing_back_is_idle (t := viewHolder)
    (show read .empty selfHolder (.object 1) "owner" = .ok (.object 1) from rfl) rfl
  refine ⟨?_, ?_, (memo.2.2.1 rfl).2, finds, ?_, (owner.2.2.2 finds).2 selfHolder_grounded⟩
  · obtain ⟨t, hwrite⟩ : ∃ t, write .empty selfHolder (.object 1) "title" (.string "a") =
      (.ok (), t) := ⟨_, rfl⟩
    rw [hwrite, (writing_back_is_idle title hwrite).1 nofun plain]
  · obtain ⟨id, hid, sets⟩ := memo.2.1
    cases hid
    exact sets
  · obtain ⟨id, hid, sets⟩ := owner.2.1
    cases hid
    exact sets

end Access

end Confinement
