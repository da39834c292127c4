import Confinement.Proofs.Access.Noninterference
import Confinement.Script.Run

/-!
# What writing and removing do

A permission is asked for on the subject as given; the effect is on the value that it resolves to.
A write that is let through changes one slot of one entity: a member that is there keeps its place
and its flags, a new one goes to the end. A removal takes one entry out and leaves the others in
order. Every other outcome leaves the frame of the script as it was, the store included.
-/
namespace Confinement

section Entries

variable {α : Type} {k : String}

theorem insertEntry_of_notMem {l : List (String × α)} (h : k ∉ l.map Prod.fst) (v : α) :
    insertEntry k v l = l ++ [(k, v)] := by
  induction l with
  | nil => rfl
  | cons e rest ih =>
    obtain ⟨hhead, hrest⟩ := not_or.mp (List.mem_cons.not.mp h)
    rw [insertEntry, if_neg (Ne.symm hhead), ih hrest, List.cons_append]

theorem insertEntry_append_cons {front : List (String × α)} (h : k ∉ front.map Prod.fst)
    (v old : α) (back : List (String × α)) :
    insertEntry k v (front ++ (k, old) :: back) = front ++ (k, v) :: back := by
  induction front with
  | nil => simp [insertEntry]
  | cons e rest ih =>
    obtain ⟨hhead, hrest⟩ := not_or.mp (List.mem_cons.not.mp h)
    rw [List.cons_append, insertEntry, if_neg (Ne.symm hhead), ih hrest, List.cons_append]

theorem mem_of_mem_insertEntry {l : List (String × α)} {v : α} {e : String × α}
    (h : e ∈ insertEntry k v l) : e = (k, v) ∨ e ∈ l := by
  induction l with
  | nil => exact .inl (List.mem_singleton.mp h)
  | cons first rest ih =>
    rw [insertEntry] at h
    split at h
    · exact (List.mem_cons.mp h).imp_right (List.mem_cons_of_mem _)
    · rcases List.mem_cons.mp h with rfl | hrest
      · exact .inr List.mem_cons_self
      · exact (ih hrest).imp_right (List.mem_cons_of_mem _)

namespace Table

variable {t : Table α} {front back : List (String × α)} {old : α}

theorem notMem_of_split (h : t.entries = front ++ (k, old) :: back) :
    k ∉ front.map Prod.fst ∧ k ∉ back.map Prod.fst := by
  have nodup := t.nodup
  rw [h, List.map_append, List.map_cons, List.nodup_middle, List.nodup_cons] at nodup
  exact not_or.mp (List.mem_append.not.mp nodup.1)

theorem notMem_of_find?_eq_none (h : t.find? k = none) : k ∉ t.entries.map Prod.fst := by
  intro hk
  obtain ⟨⟨k', old⟩, hmem, rfl⟩ := List.mem_map.mp hk
  rw [find?_of_mem hmem] at h
  cases h

/-- Writing to a name that is there keeps its place. -/
theorem entries_insert_of_split (h : t.entries = front ++ (k, old) :: back) (v : α) :
    (t.insert k v).entries = front ++ (k, v) :: back := by
  have hinsert := insertEntry_append_cons (notMem_of_split h).1 v old back
  rwa [← h] at hinsert

/-- A new name goes to the end. -/
theorem entries_insert_of_find?_eq_none (h : t.find? k = none) (v : α) :
    (t.insert k v).entries = t.entries ++ [(k, v)] :=
  insertEntry_of_notMem (notMem_of_find?_eq_none h) v

/-- Erasing a name keeps the others, in order. -/
theorem entries_erase_of_split (h : t.entries = front ++ (k, old) :: back) :
    (t.erase k).entries = front ++ back := by
  obtain ⟨hfront, hback⟩ := notMem_of_split h
  have keeps {l : List (String × α)} (hl : k ∉ l.map Prod.fst) : l.filter (·.1 != k) = l := by
    refine List.filter_eq_self.mpr fun e he => bne_iff_ne.mpr fun hk => hl ?_
    exact hk ▸ List.mem_map_of_mem he
  simp [erase, h, keeps hfront, keeps hback]

theorem entries_foldl_insert (t : Table α) {pairs : List (String × α)}
    (h : (t.keys ++ pairs.map Prod.fst).Nodup) :
    (pairs.foldl (fun t e => t.insert e.1 e.2) t).entries = t.entries ++ pairs := by
  induction pairs generalizing t with
  | nil => simp
  | cons e rest ih =>
    have hmiddle : (t.keys ++ e.1 :: rest.map Prod.fst).Nodup := h
    have hnew : e.1 ∉ t.keys := by
      rw [List.nodup_middle, List.nodup_cons] at hmiddle
      exact fun he => hmiddle.1 (List.mem_append_left _ he)
    have hinsert : (t.insert e.1 e.2).entries = t.entries ++ [e] := insertEntry_of_notMem hnew e.2
    have hkeys : (t.insert e.1 e.2).keys = t.keys ++ [e.1] := by rw [keys_insert, if_neg hnew]
    rw [List.foldl_cons, ih _ (by rwa [hkeys, List.append_assoc]), hinsert, List.append_assoc,
      List.singleton_append]

/-- Pairs with different names are put down as they come. -/
theorem entries_ofList {pairs : List (String × α)} (h : (pairs.map Prod.fst).Nodup) :
    (ofList pairs).entries = pairs :=
  entries_foldl_insert empty h

/-- A table holds nothing but what was put into it. -/
theorem mem_of_mem_ofList {pairs : List (String × α)} {e : String × α}
    (h : e ∈ (ofList pairs).entries) : e ∈ pairs := by
  induction pairs using List.reverseRecOn with
  | nil => cases h
  | append_singleton pairs last ih =>
    have hconcat : ofList (pairs ++ [last]) = (ofList pairs).insert last.1 last.2 :=
      List.foldl_concat ..
    rw [hconcat] at h
    rcases mem_of_mem_insertEntry h with rfl | hold
    · exact List.mem_append_right _ (List.mem_singleton_self _)
    · exact List.mem_append_left _ (ih hold)

theorem mem_of_find? {v : α} (h : t.find? k = some v) : (k, v) ∈ t.entries := by
  obtain ⟨front, back, split⟩ := exists_split_of_findEntry h
  rw [split]
  exact List.mem_append_right _ List.mem_cons_self

end Table

end Entries

variable {code : Type}

namespace Entity

variable {e : Entity code} {m : String}

theorem isImmutable_eq_false_iff : e.isImmutable m = false ↔
    e.frozen = false ∧ ∀ slot, e.properties.find? m = some slot → slot.fixed = false := by
  unfold isImmutable
  cases e.properties.find? m <;> simp

theorem entries_setValue_of_split {front back : List (String × Slot)} {slot : Slot}
    (h : e.properties.entries = front ++ (m, slot) :: back) (x : Value) :
    (e.setValue m x).properties.entries = front ++ (m, { slot with value := x }) :: back := by
  have hslot : e.properties.find? m = some slot := Table.find?_of_mem (by simp [h])
  rw [setValue, hslot]
  exact Table.entries_insert_of_split h _

theorem entries_setValue_of_find?_eq_none (h : e.properties.find? m = none) (x : Value) :
    (e.setValue m x).properties.entries =
      e.properties.entries ++ [(m, { value := x, enumerable := true, fixed := false })] := by
  rw [setValue, h]
  exact Table.entries_insert_of_find?_eq_none h _

theorem frozen_setValue (x : Value) : (e.setValue m x).frozen = e.frozen := by
  unfold setValue
  split <;> rfl

end Entity

/-- `t` is `s`, except that the entity `id` has the entries `after` in place of `before`. -/
structure Store.Amends (s t : Store code) (id : EntityId) (before after : List (String × Slot)) :
    Prop where
  here : ∃ e e', s.entity? id = some e ∧ t.entity? id = some e' ∧
    e.properties.entries = before ∧ e'.properties.entries = after ∧
    e'.nature = e.nature ∧ e'.frozen = e.frozen
  others : ∀ j ≠ id, t.entity? j = s.entity? j

theorem Store.amends_update {s : Store code} {id : EntityId} {e : Entity code}
    {f : Entity code → Entity code} (he : s.entity? id = some e)
    (nature : (f e).nature = e.nature) (frozen : (f e).frozen = e.frozen) :
    s.Amends (s.update id f) id e.properties.entries (f e).properties.entries where
  here := ⟨e, f e, he, by simp [entity?_update, he], rfl, rfl, nature, frozen⟩
  others j hj := by rw [entity?_update, if_neg hj.symm]

/-- The member of the entity `id` has the value `x`: in the place and with the flags that it had, or
at the end as a plain member. -/
inductive Store.Sets (s t : Store code) (id : EntityId) (m : String) (x : Value) : Prop
  | inPlace {front back : List (String × Slot)} {slot : Slot}
      (h : s.Amends t id (front ++ (m, slot) :: back)
        (front ++ (m, { slot with value := x }) :: back))
  | atEnd {entries : List (String × Slot)} (absent : m ∉ entries.map Prod.fst)
      (h : s.Amends t id entries
        (entries ++ [(m, { value := x, enumerable := true, fixed := false })]))

/-- The entity `id` has lost the member and nothing else. -/
def Store.Drops (s t : Store code) (id : EntityId) (m : String) : Prop :=
  ∃ front slot back, s.Amends t id (front ++ (m, slot) :: back) (front ++ back)

theorem Store.sets_update {s : Store code} {id : EntityId} {e : Entity code}
    (he : s.entity? id = some e) (m : String) (x : Value) :
    s.Sets (s.update id (·.setValue m x)) id m x := by
  have amends := amends_update (f := (·.setValue m x)) he
    ((Access.changesOnly_setValue m x).nature e) (Entity.frozen_setValue x)
  cases hslot : e.properties.find? m with
  | none =>
    rw [Entity.entries_setValue_of_find?_eq_none hslot] at amends
    exact .atEnd (Table.notMem_of_find?_eq_none hslot) amends
  | some slot =>
    obtain ⟨front, back, split⟩ := exists_split_of_findEntry hslot
    rw [Entity.entries_setValue_of_split split, split] at amends
    exact .inPlace amends

theorem Store.drops_update {s : Store code} {id : EntityId} {e : Entity code}
    (he : s.entity? id = some e) {m : String} (hslot : e.properties.find? m ≠ none) :
    s.Drops (s.update id (·.eraseProperty m)) id m := by
  obtain ⟨slot, hslot⟩ := Option.ne_none_iff_exists'.mp hslot
  obtain ⟨front, back, split⟩ := exists_split_of_findEntry hslot
  have amends := amends_update (f := (·.eraseProperty m)) he rfl rfl
  rw [show (e.eraseProperty m).properties.entries = front ++ back from
    Table.entries_erase_of_split split, split] at amends
  exact ⟨front, slot, back, amends⟩

namespace Access

variable {r : Registry} {s : Store code} {v : Value} {m : String}

theorem requireObject_eq_ok_iff :
    requireObject v m = .ok () ↔ v ≠ .undefined ∧ v ≠ .null ∧ v ≠ .missing := by
  cases v <;> simp [requireObject]

/-- An act behind both checks succeeds exactly if both are passed and it succeeds. -/
theorem granted_eq_ok_iff {α : Type} {c : Capability} {act : Except Fault α} {x : α} :
    (do requireObject v m; require r s v m c; act) = .ok x ↔
      (v ≠ .undefined ∧ v ≠ .null ∧ v ≠ .missing) ∧ r.check s v m c = true ∧ act = .ok x := by
  rw [← requireObject_eq_ok_iff (m := m)]
  cases hobject : requireObject v m with
  | error f => simp [bind, Except.bind]
  | ok _ =>
    unfold require
    cases r.check s v m c <;> simp [bind, Except.bind]

/-- Where both checks are passed, the act is all there is. -/
theorem granted_of_check {α : Type} {c : Capability} (act : Except Fault α)
    (something : v ≠ .undefined ∧ v ≠ .null ∧ v ≠ .missing) (granted : r.check s v m c = true) :
    (do requireObject v m; require r s v m c; act) = act := by
  rw [requireObject_eq_ok_iff.mpr something, require, granted]
  rfl

/-- An act behind both checks is not reached if the second one fails. -/
theorem granted_of_not_check {α : Type} {c : Capability} (act : Except Fault α)
    (something : v ≠ .undefined ∧ v ≠ .null ∧ v ≠ .missing) (denied : r.check s v m c = false) :
    (do requireObject v m; require r s v m c; act) = .error (.capabilityDenied c m) := by
  rw [requireObject_eq_ok_iff.mpr something, require, denied]
  rfl

/-- The subject is something, the capability is granted on it as given, and it resolves to the
entity `e`. -/
structure Admits (r : Registry) (s : Store code) (v : Value) (m : String) (c : Capability)
    (id : EntityId) (e : Entity code) : Prop where
  something : v ≠ .undefined ∧ v ≠ .null ∧ v ≠ .missing
  granted : r.check s v m c = true
  resolves : (s.resolve v).id? = some id
  held : s.entity? id = some e

theorem Admits.lookup?_eq {c : Capability} {id : EntityId} {e : Entity code}
    (admits : Admits r s v m c id e) : lookup? s v m = e.ownValue? m := by
  simp only [lookup?, Store.entityOf?, admits.resolves, Option.bind_some, admits.held]

theorem writeTarget_eq_ok_iff {id : EntityId} : writeTarget r s v m = .ok id ↔
    ∃ e, Admits r s v m .write id e ∧ e.isImmutable m = false := by
  constructor
  · intro h
    obtain ⟨hcheck, hid, e, he, hopen⟩ := of_writeTarget_eq_ok h
    exact ⟨e, ⟨(granted_eq_ok_iff.mp h).1, hcheck, hid, he⟩, hopen⟩
  · rintro ⟨e, admits, hopen⟩
    refine granted_eq_ok_iff.mpr ⟨admits.something, admits.granted, ?_⟩
    simp [Store.entityOf?, admits.resolves, admits.held, hopen]

theorem removeTarget_eq_ok_iff {found : Option EntityId} : removeTarget r s v m = .ok found ↔
    ∃ id e, Admits r s v m .delete id e ∧
      ((found = none ∧ e.properties.find? m = none) ∨
        (found = some id ∧ e.properties.find? m ≠ none ∧ e.isImmutable m = false)) := by
  constructor
  · intro h
    obtain ⟨hcheck, id, e, hid, he, hcase⟩ := of_removeTarget_eq_ok h
    exact ⟨id, e, ⟨(granted_eq_ok_iff.mp h).1, hcheck, hid, he⟩, hcase⟩
  · rintro ⟨id, e, admits, hcase⟩
    refine granted_eq_ok_iff.mpr ⟨admits.something, admits.granted, ?_⟩
    rcases hcase with ⟨rfl, habsent⟩ | ⟨rfl, hpresent, hopen⟩
    · simp [Store.entityOf?, admits.resolves, admits.held, habsent]
    · simp [Store.entityOf?, admits.resolves, admits.held, hpresent, hopen]

theorem decided_eq_ok_iff {α β : Type} {answer : α → β} {change : α → Store code}
    {decision : Except Fault α} {b : β} {t : Store code} :
    decided s answer change decision = (.ok b, t) ↔
      ∃ a, decision = .ok a ∧ answer a = b ∧ change a = t := by
  cases decision <;> simp [decided]

theorem write_eq_ok_iff {x : Value} {t : Store code} : write r s v m x = (.ok (), t) ↔
    ∃ id e, Admits r s v m .write id e ∧ e.isImmutable m = false ∧
      t = s.update id (·.setValue m x) := by
  rw [write_eq, decided_eq_ok_iff]
  constructor
  · rintro ⟨id, htarget, -, rfl⟩
    obtain ⟨e, admits, hopen⟩ := writeTarget_eq_ok_iff.mp htarget
    exact ⟨id, e, admits, hopen, rfl⟩
  · rintro ⟨id, e, admits, hopen, rfl⟩
    exact ⟨id, writeTarget_eq_ok_iff.mpr ⟨e, admits, hopen⟩, rfl, rfl⟩

/-- A removal finds the member absent and does nothing, or finds it open to change and erases it. -/
theorem remove_eq_ok_iff {any : Bool} {t : Store code} : remove r s v m = (.ok any, t) ↔
    ∃ id e, Admits r s v m .delete id e ∧
      ((any = false ∧ t = s ∧ e.properties.find? m = none) ∨
        (any = true ∧ t = s.update id (·.eraseProperty m) ∧ e.properties.find? m ≠ none ∧
          e.isImmutable m = false)) := by
  rw [remove_eq, decided_eq_ok_iff]
  constructor
  · rintro ⟨found, htarget, rfl, rfl⟩
    obtain ⟨id, e, admits, ⟨rfl, habsent⟩ | ⟨rfl, hpresent, hopen⟩⟩ :=
      removeTarget_eq_ok_iff.mp htarget
    · exact ⟨id, e, admits, .inl ⟨rfl, rfl, habsent⟩⟩
    · exact ⟨id, e, admits, .inr ⟨rfl, rfl, hpresent, hopen⟩⟩
  · rintro ⟨id, e, admits, ⟨rfl, rfl, habsent⟩ | ⟨rfl, rfl, hpresent, hopen⟩⟩
    · exact ⟨none, removeTarget_eq_ok_iff.mpr ⟨id, e, admits, .inl ⟨rfl, habsent⟩⟩, rfl, rfl⟩
    · exact ⟨some id, removeTarget_eq_ok_iff.mpr ⟨id, e, admits, .inr ⟨rfl, hpresent, hopen⟩⟩,
        rfl, rfl⟩

end Access

namespace Script

theorem Act.value_bind {α : Type} (l : Locals) (e : Expr) (next : Value → Act α)
    (fr : ScriptFrame) : (Act.value l e >>= next) fr = next (eval l fr.world.state e) fr := rfl

theorem mediated_bind {α β : Type} (f : Registry → Store Code → Except Fault α) (next : α → Act β)
    (fr : ScriptFrame) : (mediated f >>= next) fr =
      match f fr.registry fr.store with
      | .ok a => next a fr
      | .error fault => (.error fault, fr) := by
  simp only [mediated, Act.lift, Bind.bind, ExceptT.bind, ExceptT.mk, StateT.bind, ExceptT.bindCont]
  cases f fr.registry fr.store with
  | ok a => rfl
  | error fault => rfl

theorem Act.change_bind {α β : Type} (f : Store Code → Except Fault α × Store Code)
    (next : α → Act β) (fr : ScriptFrame) : (Act.change f >>= next) fr =
      match f fr.store with
      | (.ok a, t) => next a (fr.withStore t)
      | (.error fault, t) => (.error fault, fr.withStore t) := by
  simp only [change, Act.lift, Bind.bind, ExceptT.bind, ExceptT.mk, StateT.bind, ExceptT.bindCont]
  rcases f fr.store with ⟨fault | a, t⟩
  · rfl
  · rfl

theorem Act.registry_bind {α : Type} (next : Registry → Act α) (fr : ScriptFrame) :
    (Act.registry >>= next) fr = next fr.registry fr := rfl

/-- What a statement asks for once its expressions have values. -/
def AccessOp.request (l : Locals) (s : Session) : AccessOp → Access.Operation
  | .read e m => .read (eval l s e) m
  | .write e m x => .write (eval l s e) m (eval l s x)
  | .remove e m => .remove (eval l s e) m
  | .keys e => .keys (eval l s e)
  | .has e m => .has (eval l s e) m

/-- A statement fails or succeeds with its request, and keeps the store that the request leaves. -/
theorem AccessOp.perform_cases (l : Locals) (op : AccessOp) (fr : ScriptFrame) :
    (∃ fault, Access.perform fr.registry fr.store (op.request l fr.world.state) =
        (.error fault, fr.store) ∧ op.perform l fr = (.error fault, fr)) ∨
      ∃ answer outcome t, Access.perform fr.registry fr.store (op.request l fr.world.state) =
        (.ok answer, t) ∧ op.perform l fr = (.ok outcome, fr.withStore t) := by
  cases op with
  | read e m =>
    rw [AccessOp.perform, Act.value_bind, mediated_bind]
    simp only [request, Access.perform]
    cases Access.read fr.registry fr.store (eval l fr.world.state e) m with
    | error fault => exact .inl ⟨fault, rfl, rfl⟩
    | ok v => exact .inr ⟨_, _, _, rfl, rfl⟩
  | write e m x =>
    rw [AccessOp.perform, Act.value_bind, Act.value_bind, Act.registry_bind, Act.change_bind]
    simp only [request, Access.perform]
    rcases hwrite : Access.write fr.registry fr.store (eval l fr.world.state e) m
      (eval l fr.world.state x) with ⟨fault | _, t⟩
    · obtain rfl : t = fr.store := Access.write_of_error hwrite
      exact .inl ⟨fault, rfl, rfl⟩
    · exact .inr ⟨_, _, t, rfl, rfl⟩
  | remove e m =>
    rw [AccessOp.perform, Act.value_bind, Act.registry_bind, Act.change_bind]
    simp only [request, Access.perform]
    rcases hremove : Access.remove fr.registry fr.store (eval l fr.world.state e) m with
      ⟨fault | any, t⟩
    · obtain rfl : t = fr.store := Access.remove_of_error hremove
      exact .inl ⟨fault, rfl, rfl⟩
    · exact .inr ⟨_, _, t, rfl, rfl⟩
  | keys e =>
    rw [AccessOp.perform, Act.value_bind, mediated_bind]
    simp only [request, Access.perform]
    cases Access.keys fr.registry fr.store (eval l fr.world.state e) with
    | error fault => exact .inl ⟨fault, rfl, rfl⟩
    | ok names => exact .inr ⟨_, _, _, rfl, rfl⟩
  | has e m =>
    rw [AccessOp.perform, Act.value_bind, mediated_bind]
    simp only [request, Access.perform]
    cases Access.has fr.registry fr.store (eval l fr.world.state e) m with
    | error fault => exact .inl ⟨fault, rfl, rfl⟩
    | ok present => exact .inr ⟨_, _, _, rfl, rfl⟩

theorem AccessOp.perform_snd (l : Locals) (op : AccessOp) (fr : ScriptFrame) :
    (op.perform l fr).2 = fr.withStore
      (Access.perform fr.registry fr.store (op.request l fr.world.state)).2 := by
  obtain ⟨fault, hrequest, h⟩ | ⟨answer, outcome, t, hrequest, h⟩ := op.perform_cases l fr
  · rw [h, hrequest]
    rfl
  · rw [h, hrequest]

theorem AccessOp.perform_snd_of_error {l : Locals} {op : AccessOp} {fr : ScriptFrame}
    {fault : Fault} (hfault : (op.perform l fr).1 = .error fault) : (op.perform l fr).2 = fr := by
  obtain ⟨fault', -, h⟩ | ⟨answer, outcome, t, -, h⟩ := op.perform_cases l fr
  · rw [h]
  · rw [h] at hfault
    cases hfault

end Script

namespace Access

/-- A write succeeds exactly if the subject is something, writing is granted on it as given, and it
resolves to an object or function that is neither frozen nor has the member fixed; then it sets that
member and nothing else. A removal that is granted succeeds exactly if the member is absent, without
effect, or there and open to change, and then it drops that member and nothing else. The other
operations, and all that fail, leave everything as it was. -/
theorem writes_and_removals_are_exact (r : Registry) (s : Store code) (v : Value) (m : String)
    (x : Value) :
    ((write r s v m x).1 = .ok () ↔
      ∃ id e, Admits r s v m .write id e ∧ e.frozen = false ∧
        ∀ slot, e.properties.find? m = some slot → slot.fixed = false) ∧
    (∀ t, write r s v m x = (.ok (), t) → ∃ id, (s.resolve v).id? = some id ∧ s.Sets t id m x) ∧
    (∀ t, remove r s v m = (.ok false, t) ↔
      t = s ∧ ∃ id e, Admits r s v m .delete id e ∧ e.properties.find? m = none) ∧
    ((remove r s v m).1 = .ok true ↔
      ∃ id e slot, Admits r s v m .delete id e ∧ e.frozen = false ∧
        e.properties.find? m = some slot ∧ slot.fixed = false) ∧
    (∀ t, remove r s v m = (.ok true, t) → ∃ id, (s.resolve v).id? = some id ∧ s.Drops t id m) ∧
    (∀ fault, (write r s v m x).1 = .error fault → (write r s v m x).2 = s) ∧
    (∀ fault, (remove r s v m).1 = .error fault → (remove r s v m).2 = s) ∧
    ∀ (l : Script.Locals) (fr : Script.ScriptFrame),
      (∀ e k, ((Script.AccessOp.read e k).perform l fr).2 = fr) ∧
      (∀ e, ((Script.AccessOp.keys e).perform l fr).2 = fr) ∧
      (∀ e k, ((Script.AccessOp.has e k).perform l fr).2 = fr) ∧
      ∀ op fault, (Script.AccessOp.perform l op fr).1 = .error fault →
        (op.perform l fr).2 = fr := by
  refine ⟨⟨?_, ?_⟩, ?_, fun t => ⟨?_, ?_⟩, ⟨?_, ?_⟩, ?_, fun fault h => ?_, fun fault h => ?_,
    fun l fr => ⟨?_, ?_, ?_, ?_⟩⟩
  · intro h
    obtain ⟨id, e, admits, hopen, -⟩ := write_eq_ok_iff.mp (Prod.ext h rfl)
    exact ⟨id, e, admits, Entity.isImmutable_eq_false_iff.mp hopen⟩
  · rintro ⟨id, e, admits, hopen⟩
    exact congrArg Prod.fst (write_eq_ok_iff.mpr
      ⟨id, e, admits, Entity.isImmutable_eq_false_iff.mpr hopen, rfl⟩)
  · intro t h
    obtain ⟨id, e, admits, -, rfl⟩ := write_eq_ok_iff.mp h
    exact ⟨id, admits.resolves, Store.sets_update admits.held m x⟩
  · intro h
    obtain ⟨id, e, admits, ⟨-, rfl, habsent⟩ | ⟨hany, -⟩⟩ := remove_eq_ok_iff.mp h
    · exact ⟨rfl, id, e, admits, habsent⟩
    · cases hany
  · rintro ⟨rfl, id, e, admits, habsent⟩
    exact remove_eq_ok_iff.mpr ⟨id, e, admits, .inl ⟨rfl, rfl, habsent⟩⟩
  · intro h
    obtain ⟨id, e, admits, ⟨hany, -⟩ | ⟨-, -, hpresent, hopen⟩⟩ :=
      remove_eq_ok_iff.mp (Prod.ext h rfl)
    · cases hany
    · obtain ⟨slot, hslot⟩ := Option.ne_none_iff_exists'.mp hpresent
      obtain ⟨hfrozen, hfixed⟩ := Entity.isImmutable_eq_false_iff.mp hopen
      exact ⟨id, e, slot, admits, hfrozen, hslot, hfixed slot hslot⟩
  · rintro ⟨id, e, slot, admits, hfrozen, hslot, hfixed⟩
    have hpresent : e.properties.find? m ≠ none := by simp [hslot]
    have hopen : e.isImmutable m = false := by
      refine Entity.isImmutable_eq_false_iff.mpr ⟨hfrozen, fun slot' hslot' => ?_⟩
      obtain rfl : slot = slot' := Option.some.inj (hslot.symm.trans hslot')
      exact hfixed
    exact congrArg Prod.fst
      (remove_eq_ok_iff.mpr ⟨id, e, admits, .inr ⟨rfl, rfl, hpresent, hopen⟩⟩)
  · intro t h
    obtain ⟨id, e, admits, ⟨hany, -⟩ | ⟨-, rfl, hpresent, -⟩⟩ := remove_eq_ok_iff.mp h
    · cases hany
    · exact ⟨id, admits.resolves, Store.drops_update admits.held hpresent⟩
  · exact write_of_error (Prod.ext h rfl)
  · exact remove_of_error (Prod.ext h rfl)
  -- the store that these leave is the store of the frame, so the frame is put back as it was
  · exact fun e k => Script.AccessOp.perform_snd l (.read e k) fr
  · exact fun e => Script.AccessOp.perform_snd l (.keys e) fr
  · exact fun e k => Script.AccessOp.perform_snd l (.has e k) fr
  · exact fun op fault => Script.AccessOp.perform_snd_of_error

/-- A host object with a fixed, a hidden and a plain member, and a view on it. -/
def mixedSlots : Store Unit :=
  ⟨#[⟨.object (.host "Host" .empty) false, .ofList [("title", .pinned (.string "a")),
      ("notes", .hidden .null), ("total", .plain (.int 3))], false⟩,
    ⟨.object (.view (.object 0) ["title", "notes", "total", "memo"]) false, .empty, true⟩]⟩

/-- The members that the view shows may be written and removed. -/
def mixedGrants : Registry :=
  { grants := ["title", "notes", "total", "memo"].map fun k =>
      ⟨.ofClass "Host", k, .ofList [.write, .delete]⟩ }

/-- Through the view: a hidden member is written, the write of a fixed one is refused, a plain one
is removed, and an absent one is removed without effect. -/
theorem writes_and_removals_are_exact_through_view :
    (∃ t, write mixedGrants mixedSlots (.object 1) "notes" (.int 7) = (.ok (), t) ∧
      mixedSlots.Sets t 0 "notes" (.int 7)) ∧
    (write mixedGrants mixedSlots (.object 1) "title" (.int 7)).1 ≠ .ok () ∧
    (write mixedGrants mixedSlots (.object 1) "title" (.int 7)).2 = mixedSlots ∧
    (∃ t, remove mixedGrants mixedSlots (.object 1) "total" = (.ok true, t) ∧
      mixedSlots.Drops t 0 "total") ∧
    remove mixedGrants mixedSlots (.object 1) "memo" = (.ok false, mixedSlots) := by
  have admits (c : Capability) (m : String)
      (h : mixedGrants.check mixedSlots (.object 1) m c = true) :
      Admits mixedGrants mixedSlots (.object 1) m c 0 mixedSlots.entities[0] :=
    ⟨by simp, h, rfl, rfl⟩
  refine ⟨?_, ?_, ?_, ?_, ?_⟩
  · obtain ⟨succeeds, sets, -⟩ :=
      writes_and_removals_are_exact mixedGrants mixedSlots (.object 1) "notes" (.int 7)
    have h := succeeds.mpr ⟨0, _, admits .write "notes" (by decide), rfl, by
      rintro slot ⟨⟩
      rfl⟩
    obtain ⟨id, hid, effect⟩ := sets _ (Prod.ext h rfl)
    cases hid
    exact ⟨_, Prod.ext h rfl, effect⟩
  · rw [Ne, (writes_and_removals_are_exact mixedGrants mixedSlots (.object 1) "title" (.int 7)).1]
    rintro ⟨id, e, ⟨-, -, hid, he⟩, -, hfixed⟩
    cases hid
    cases he
    cases hfixed _ rfl
  · obtain ⟨-, -, -, -, -, refused, -⟩ :=
      writes_and_removals_are_exact mixedGrants mixedSlots (.object 1) "title" (.int 7)
    exact refused (.immutableField "title") rfl
  · obtain ⟨-, -, -, succeeds, drops, -⟩ :=
      writes_and_removals_are_exact mixedGrants mixedSlots (.object 1) "total" .null
    have h := succeeds.mpr ⟨0, _, _, admits .delete "total" (by decide), rfl, rfl, rfl⟩
    obtain ⟨id, hid, effect⟩ := drops _ (Prod.ext h rfl)
    cases hid
    exact ⟨_, Prod.ext h rfl, effect⟩
  · obtain ⟨-, -, absent, -⟩ :=
      writes_and_removals_are_exact mixedGrants mixedSlots (.object 1) "memo" .null
    exact (absent mixedSlots).mpr ⟨rfl, 0, _, admits .delete "memo" (by decide), rfl⟩

end Access

end Confinement
