import Mathlib.Order.Lattice.Nat
import Confinement.Proofs.Access.Effect
import Confinement.Proofs.Registry.Precedence

/-!
# Plain objects as ordered maps

A guest writes and removes members of a plain object that it has just made. Reserved names are
refused at any time. For all others the object is a map that remembers its order: a name is listed
exactly while its latest edit is a write, and it is listed where the first write since its latest
removal has put it, however often it was overwritten since. So what the object shows can be told
from the edits alone.
-/
namespace Confinement

variable {code : Type}

/-- A name is among the keys exactly if it has a value. -/
theorem Table.mem_keys_iff {α : Type} {t : Table α} {k : String} :
    k ∈ t.keys ↔ (t.find? k).isSome = true := by
  constructor
  · intro hk
    by_contra hnone
    exact notMem_of_find?_eq_none (Option.not_isSome_iff_eq_none.mp hnone) hk
  · intro hsome
    obtain ⟨v, hv⟩ := Option.isSome_iff_exists.mp hsome
    obtain ⟨front, back, split⟩ := exists_split_of_findEntry hv
    simp [keys, split]

/-- Erasing a name that is not there changes nothing. -/
theorem Table.erase_eq_self {α : Type} {t : Table α} {k : String} (h : t.find? k = none) :
    t.erase k = t := by
  refine Table.ext (List.filter_eq_self.mpr fun e he => bne_iff_ne.mpr fun hk => ?_)
  exact notMem_of_find?_eq_none h (hk ▸ List.mem_map_of_mem he)

namespace Access

/-- A change to one member of an object. -/
inductive Edit where
  | write (name : String) (value : Value)
  | remove (name : String)

namespace Edit

def name : Edit → String
  | .write k _ | .remove k => k

/-- The value that the edit leaves. -/
def value? : Edit → Option Value
  | .write _ x => some x
  | .remove _ => none

/-- The capability that the edit needs. -/
def capability : Edit → Capability
  | .write _ _ => .write
  | .remove _ => .delete

/-- Asks for the edit on an object. -/
def request (v : Value) : Edit → Operation
  | .write k x => .write v k x
  | .remove k => .remove v k

end Edit

variable {edits : List Edit} {e : Edit} {k : String}

/-- The latest edit of a name. -/
def latest? (edits : List Edit) (k : String) : Option Edit := edits.reverse.find? (·.name = k)

/-- The value that the latest edit of a name leaves. -/
def written? (edits : List Edit) (k : String) : Option Value := (latest? edits k).bind Edit.value?

/-- The places of the writes to a name since its latest removal. -/
def sinceRemoval (edits : List Edit) (k : String) : Set Nat :=
  {i | (∃ x, edits[i]? = some (.write k x)) ∧ ∀ j, i < j → edits[j]? ≠ some (.remove k)}

/-- The place of the first write to a name since its latest removal. -/
noncomputable def entry (edits : List Edit) (k : String) : Nat := sInf (sinceRemoval edits k)

theorem latest?_concat (edits : List Edit) (e : Edit) (k : String) :
    latest? (edits ++ [e]) k = if e.name = k then some e else latest? edits k := by
  by_cases h : e.name = k <;> simp [latest?, h]

theorem name_of_latest? (h : latest? edits k = some e) : e.name = k := by
  simpa using List.find?_some h

theorem written?_concat (edits : List Edit) (e : Edit) (k : String) :
    written? (edits ++ [e]) k = if e.name = k then e.value? else written? edits k := by
  rw [written?, latest?_concat]
  split <;> rfl

theorem isSome_written?_iff :
    (written? edits k).isSome = true ↔ ∃ x, latest? edits k = some (.write k x) := by
  rw [written?]
  cases hlatest : latest? edits k with
  | none => simp
  | some e =>
    have hname := name_of_latest? hlatest
    cases e with
    | write k' x =>
      obtain rfl : k' = k := hname
      simp [Edit.value?]
    | remove k' => simp [Edit.value?]

theorem getElem?_concat_iff {d : Edit} {i : Nat} :
    (edits ++ [e])[i]? = some d ↔ edits[i]? = some d ∨ i = edits.length ∧ e = d := by
  rcases Nat.lt_trichotomy i edits.length with hlt | rfl | hgt
  · simp [List.getElem?_append_left hlt, hlt.ne]
  · simp
  · simp [List.getElem?_append_right hgt.le, hgt.le, hgt.ne', Nat.sub_ne_zero_of_lt hgt]

theorem lt_length_of_mem_sinceRemoval {i : Nat} (h : i ∈ sinceRemoval edits k) :
    i < edits.length := by
  obtain ⟨⟨x, hx⟩, -⟩ := h
  exact (List.getElem?_eq_some_iff.mp hx).choose

theorem sinceRemoval_concat_of_ne (h : e.name ≠ k) :
    sinceRemoval (edits ++ [e]) k = sinceRemoval edits k := by
  have hwrite (x : Value) : e ≠ .write k x := fun he => h (he ▸ rfl)
  have hremove : e ≠ .remove k := fun he => h (he ▸ rfl)
  simp only [sinceRemoval, ne_eq, getElem?_concat_iff, hwrite, hremove, and_false, or_false]

theorem sinceRemoval_concat_write (edits : List Edit) (k : String) (x : Value) :
    sinceRemoval (edits ++ [.write k x]) k = insert edits.length (sinceRemoval edits k) := by
  have hremove {j : Nat} : (edits ++ [.write k x])[j]? = some (.remove k) ↔
      edits[j]? = some (.remove k) := by simp [getElem?_concat_iff]
  ext i
  constructor
  · rintro ⟨⟨y, hy⟩, kept⟩
    rcases getElem?_concat_iff.mp hy with hold | ⟨rfl, -⟩
    · exact .inr ⟨⟨y, hold⟩, fun j hj hgone => kept j hj (hremove.mpr hgone)⟩
    · exact .inl rfl
  · rintro (rfl | ⟨⟨y, hy⟩, kept⟩)
    · refine ⟨⟨x, getElem?_concat_iff.mpr (.inr ⟨rfl, rfl⟩)⟩, fun j hj hgone => ?_⟩
      have hlt : j < edits.length := (List.getElem?_eq_some_iff.mp (hremove.mp hgone)).choose
      omega
    · exact ⟨⟨y, getElem?_concat_iff.mpr (.inl hy)⟩, fun j hj hgone => kept j hj (hremove.mp hgone)⟩

theorem sinceRemoval_concat_remove (edits : List Edit) (k : String) :
    sinceRemoval (edits ++ [.remove k]) k = ∅ := by
  refine Set.eq_empty_iff_forall_notMem.mpr ?_
  rintro i ⟨⟨x, hx⟩, kept⟩
  have hold : edits[i]? = some (.write k x) := by simpa [getElem?_concat_iff] using hx
  have hlt : i < edits.length := (List.getElem?_eq_some_iff.mp hold).choose
  exact kept edits.length hlt (getElem?_concat_iff.mpr (.inr ⟨rfl, rfl⟩))

/-- A name has been written since its latest removal exactly if its latest edit is a write. -/
theorem nonempty_sinceRemoval_iff :
    (sinceRemoval edits k).Nonempty ↔ (written? edits k).isSome = true := by
  induction edits using List.reverseRecOn with
  | nil => simp [sinceRemoval, written?, latest?, Set.Nonempty]
  | append_singleton edits e ih =>
    rw [written?_concat]
    by_cases h : e.name = k
    · cases e with
      | write k' x =>
        obtain rfl : k' = k := h
        simp [sinceRemoval_concat_write, Edit.name, Edit.value?]
      | remove k' =>
        obtain rfl : k' = k := h
        simp [sinceRemoval_concat_remove, Edit.name, Edit.value?]
    · rw [sinceRemoval_concat_of_ne h, if_neg h, ih]

theorem entry_lt_length (live : (sinceRemoval edits k).Nonempty) :
    entry edits k < edits.length :=
  lt_length_of_mem_sinceRemoval (Nat.sInf_mem live)

/-- Overwriting leaves a name where it entered. -/
theorem entry_concat_write (live : (sinceRemoval edits k).Nonempty) (x : Value) :
    entry (edits ++ [.write k x]) k = entry edits k := by
  rw [entry, sinceRemoval_concat_write, csInf_insert (OrderBot.bddBelow _) live]
  exact min_eq_right (entry_lt_length live).le

/-- A name that is not there enters at the end. -/
theorem entry_concat_write_of_not_nonempty (absent : ¬ (sinceRemoval edits k).Nonempty)
    (x : Value) : entry (edits ++ [.write k x]) k = edits.length := by
  rw [entry, sinceRemoval_concat_write, Set.not_nonempty_iff_eq_empty.mp absent,
    insert_empty_eq]
  exact csInf_singleton edits.length

/-- What an edit makes of the members of a plain object. -/
def Edit.applyTo (members : Table Slot) (e : Edit) : Table Slot :=
  if Text.isReserved e.name then members
  else match e with
    | .write k x => members.insert k (.plain x)
    | .remove k => members.erase k

namespace Edit

variable {members : Table Slot}

theorem applyTo_of_isReserved (h : Text.isReserved e.name = true) : e.applyTo members = members :=
  if_pos h

theorem applyTo_write (h : Text.isReserved k = false) (x : Value) :
    (write k x).applyTo members = members.insert k (.plain x) :=
  if_neg (Bool.eq_false_iff.mp h)

theorem applyTo_remove (h : Text.isReserved k = false) :
    (remove k).applyTo members = members.erase k :=
  if_neg (Bool.eq_false_iff.mp h)

end Edit

/-- The members that the edits leave of an object without any. -/
def content (edits : List Edit) : Table Slot := edits.foldl Edit.applyTo .empty

theorem content_concat (edits : List Edit) (e : Edit) :
    content (edits ++ [e]) = e.applyTo (content edits) := List.foldl_concat ..

theorem find?_applyTo (members : Table Slot) (e : Edit) (k : String) :
    (e.applyTo members).find? k =
      if e.name = k ∧ Text.isReserved k = false then e.value?.map .plain else members.find? k := by
  unfold Edit.applyTo
  by_cases hname : e.name = k
  · subst hname
    cases hreserved : Text.isReserved e.name with
    | true => simp
    | false => cases e <;> simp [Edit.name, Edit.value?]
  · have hother : ¬ (e.name = k ∧ Text.isReserved k = false) := fun h => hname h.1
    rw [if_neg hother]
    split
    · rfl
    · cases e with
      | write k' x =>
        have hne : k ≠ k' := Ne.symm hname
        rw [Table.find?_insert, if_neg hne]
      | remove k' =>
        have hne : k ≠ k' := Ne.symm hname
        rw [Table.find?_erase, if_neg hne]

theorem find?_content (edits : List Edit) (k : String) :
    (content edits).find? k =
      if Text.isReserved k then none else (written? edits k).map .plain := by
  induction edits using List.reverseRecOn with
  | nil => simp [content, written?, latest?, Table.find?, Table.empty, findEntry]
  | append_singleton edits e ih =>
    rw [content_concat, find?_applyTo, ih, written?_concat]
    by_cases hname : e.name = k <;> cases hreserved : Text.isReserved k <;> simp [hname]

theorem mem_keys_content_iff : k ∈ (content edits).keys ↔
    Text.isReserved k = false ∧ (written? edits k).isSome = true := by
  rw [Table.mem_keys_iff, find?_content]
  cases Text.isReserved k <;> simp

/-- A name that is listed before and after an edit has the same place in both. -/
theorem entry_concat_of_mem (before : k ∈ (content edits).keys)
    (after : k ∈ (content (edits ++ [e])).keys) : entry (edits ++ [e]) k = entry edits k := by
  by_cases hname : e.name = k
  · cases e with
    | write k' x =>
      obtain rfl : k' = k := hname
      exact entry_concat_write (nonempty_sinceRemoval_iff.mpr (mem_keys_content_iff.mp before).2) x
    | remove k' =>
      obtain rfl : k' = k := hname
      simp [mem_keys_content_iff, written?_concat, Edit.name, Edit.value?] at after
  · rw [entry, sinceRemoval_concat_of_ne hname, entry]

/-- An edit adds a new name at the end or leaves the order of the names alone. -/
theorem keys_applyTo_cases (members : Table Slot) (e : Edit) :
    (e.applyTo members).keys.Sublist members.keys ∨
      ∃ k x, e = .write k x ∧ Text.isReserved k = false ∧ k ∉ members.keys ∧
        (e.applyTo members).keys = members.keys ++ [k] := by
  unfold Edit.applyTo
  split
  case isTrue => exact .inl (.refl _)
  case isFalse hreserved =>
    cases e with
    | write k x =>
      by_cases hk : k ∈ members.keys
      · refine .inl ?_
        rw [Table.keys_insert, if_pos hk]
      · refine .inr ⟨k, x, rfl, Bool.eq_false_iff.mpr hreserved, hk, ?_⟩
        rw [Table.keys_insert, if_neg hk]
    | remove k =>
      refine .inl ?_
      rw [Table.keys_erase]
      exact List.filter_sublist

/-- Names are listed in the order of their first write since their latest removal. -/
theorem pairwise_entry_content (edits : List Edit) :
    (content edits).keys.Pairwise fun a b => entry edits a < entry edits b := by
  induction edits using List.reverseRecOn with
  | nil => exact .nil
  | append_singleton edits e ih =>
    -- what is listed before and after has kept its place, and a new name enters behind it
    have kept (k : String) (before : k ∈ (content edits).keys)
        (after : k ∈ (e.applyTo (content edits)).keys) :
        entry (edits ++ [e]) k = entry edits k :=
      entry_concat_of_mem before (content_concat edits e ▸ after)
    rw [content_concat]
    rcases keys_applyTo_cases (content edits) e with hsub | ⟨k, x, rfl, hfree, hk, hkeys⟩
    · refine (ih.sublist hsub).imp_of_mem fun ha hb hab => ?_
      rwa [kept _ (hsub.subset ha) ha, kept _ (hsub.subset hb) hb]
    · rw [hkeys] at kept ⊢
      have old (a : String) (ha : a ∈ (content edits).keys) :
          entry (edits ++ [.write k x]) a = entry edits a :=
        kept a ha (List.mem_append_left _ ha)
      refine List.pairwise_append.mpr ⟨ih.imp_of_mem fun ha hb hab => ?_, by simp, ?_⟩
      · rwa [old _ ha, old _ hb]
      · intro a ha b hb
        obtain rfl : b = k := List.mem_singleton.mp hb
        have live : (sinceRemoval edits a).Nonempty :=
          nonempty_sinceRemoval_iff.mpr (mem_keys_content_iff.mp ha).2
        have absent : ¬ (sinceRemoval edits b).Nonempty := fun hlive =>
          hk (mem_keys_content_iff.mpr ⟨hfree, nonempty_sinceRemoval_iff.mp hlive⟩)
        rw [old a ha, entry_concat_write_of_not_nonempty absent]
        exact entry_lt_length live

/-- The entity `id` is an unfrozen guest object with these members, all of them plain. -/
structure HoldsPlain (s : Store code) (id : EntityId) (members : Table Slot) : Prop where
  held : s.entity? id = some ⟨.object .guest false, members, false⟩
  plain : ∀ k slot, members.find? k = some slot → slot = .plain slot.value

namespace HoldsPlain

variable {r : Registry} {s : Store code} {id : EntityId} {members : Table Slot}

theorem view?_eq_none (h : HoldsPlain s id members) : s.view? (.object id) = none := by
  refine Store.view?_eq_none rfl fun target allow => ?_
  simp [Store.origin?, h.held]

/-- Its own guest may do anything to it, except under a reserved name. -/
theorem check (h : HoldsPlain s id members) (ungranted : ∀ m, r.granted? (.ofInstance id) m = none)
    (m : String) (c : Capability) : r.check s (.object id) m c = !Text.isReserved m := by
  have shown : s.isHidden id m = false := by
    rw [Store.isHidden, Store.slot?, h.held, Option.bind_some]
    cases hslot : members.find? m with
    | none => rfl
    | some slot =>
      rw [h.plain m slot hslot]
      rfl
  rw [Registry.check]
  cases hm : Text.isReserved m with
  | true =>
    rw [r.capabilities_of_isReserved s _ hm]
    cases c <;> rfl
  | false =>
    have horigin : s.origin? id = some .guest := by simp [Store.origin?, h.held]
    rw [r.capabilities_of_not_isReserved s _ hm,
      Registry.capabilitiesWithin_guest _ horigin (ungranted m), shown]
    exact CapabilitySet.contains_full c

theorem admits (h : HoldsPlain s id members) (ungranted : ∀ m, r.granted? (.ofInstance id) m = none)
    {m : String} (hm : Text.isReserved m = false) (c : Capability) :
    Admits r s (.object id) m c id ⟨.object .guest false, members, false⟩ where
  something := ⟨nofun, nofun, nofun⟩
  granted := by rw [h.check ungranted, hm, Bool.not_false]
  resolves := by rw [Store.resolve_of_view?_eq_none h.view?_eq_none, Value.id?]
  held := h.held

theorem not_isImmutable (h : HoldsPlain s id members) (m : String) :
    (⟨.object .guest false, members, false⟩ : Entity code).isImmutable m = false := by
  refine Entity.isImmutable_eq_false_iff.mpr ⟨rfl, fun slot hslot => ?_⟩
  rw [h.plain m slot hslot]
  rfl

theorem setValue (h : HoldsPlain s id members) (m : String) (x : Value) :
    (⟨.object .guest false, members, false⟩ : Entity code).setValue m x =
      ⟨.object .guest false, members.insert m (.plain x), false⟩ := by
  unfold Entity.setValue
  cases hslot : members.find? m with
  | none => rfl
  | some slot =>
    rw [h.plain m slot hslot]
    rfl

theorem applyTo_plain (h : HoldsPlain s id members) (e : Edit) (k : String) (slot : Slot)
    (hslot : (e.applyTo members).find? k = some slot) : slot = .plain slot.value := by
  rw [find?_applyTo] at hslot
  split at hslot
  · obtain ⟨x, -, rfl⟩ := Option.map_eq_some_iff.mp hslot
    rfl
  · exact h.plain k slot hslot

theorem update (h : HoldsPlain s id members) (e : Edit) {f : Entity code → Entity code}
    (hf : f ⟨.object .guest false, members, false⟩ =
      ⟨.object .guest false, e.applyTo members, false⟩) :
    HoldsPlain (s.update id f) id (e.applyTo members) where
  held := by rw [Store.entity?_update, if_pos rfl, h.held, Option.map_some, hf]
  plain := h.applyTo_plain e

/-- A reserved name is refused. -/
theorem perform_of_isReserved (h : HoldsPlain s id members)
    (ungranted : ∀ m, r.granted? (.ofInstance id) m = none) (hm : Text.isReserved e.name = true) :
    perform r s (e.request (.object id)) = (.error (.capabilityDenied e.capability e.name), s) := by
  have denied (c : Capability) : r.check s (.object id) e.name c = false := by
    rw [h.check ungranted, hm, Bool.not_true]
  cases e with
  | write k x =>
    have hwrite : writeTarget r s (.object id) k = .error (.capabilityDenied .write k) :=
      granted_of_not_check _ ⟨nofun, nofun, nofun⟩ (denied .write)
    rw [Edit.request, Access.perform, write_eq, hwrite]
    rfl
  | remove k =>
    have hremove : removeTarget r s (.object id) k = .error (.capabilityDenied .delete k) :=
      granted_of_not_check _ ⟨nofun, nofun, nofun⟩ (denied .delete)
    rw [Edit.request, Access.perform, remove_eq, hremove]
    rfl

/-- One request makes one edit. -/
theorem perform (h : HoldsPlain s id members)
    (ungranted : ∀ m, r.granted? (.ofInstance id) m = none) (e : Edit) :
    HoldsPlain (perform r s (e.request (.object id))).2 id (e.applyTo members) := by
  cases hm : Text.isReserved e.name with
  | true =>
    rw [h.perform_of_isReserved ungranted hm, Edit.applyTo_of_isReserved hm]
    exact h
  | false =>
    cases e with
    | write k x =>
      have hfree : Text.isReserved k = false := hm
      have hwrite : write r s (.object id) k x = (.ok (), s.update id (·.setValue k x)) :=
        write_eq_ok_iff.mpr ⟨id, _, h.admits ungranted hfree .write, h.not_isImmutable k, rfl⟩
      rw [Edit.request, Access.perform, hwrite]
      refine h.update _ ?_
      rw [h.setValue, Edit.applyTo_write hfree]
    | remove k =>
      have hfree : Text.isReserved k = false := hm
      have admits := h.admits ungranted hfree .delete
      rw [Edit.request, Access.perform]
      cases hslot : members.find? k with
      | none =>
        have hremove : remove r s (.object id) k = (.ok false, s) :=
          remove_eq_ok_iff.mpr ⟨id, _, admits, .inl ⟨rfl, rfl, hslot⟩⟩
        rw [hremove, Edit.applyTo_remove hfree, Table.erase_eq_self hslot]
        exact h
      | some slot =>
        have hremove : remove r s (.object id) k = (.ok true, s.update id (·.eraseProperty k)) :=
          remove_eq_ok_iff.mpr
            ⟨id, _, admits, .inr ⟨rfl, rfl, by simp [hslot], h.not_isImmutable k⟩⟩
        rw [hremove]
        refine h.update _ ?_
        rw [Edit.applyTo_remove hfree]
        rfl

theorem read_eq (h : HoldsPlain s id members)
    (ungranted : ∀ m, r.granted? (.ofInstance id) m = none) (hk : Text.isReserved k = false) :
    read r s (.object id) k = .ok (((members.find? k).map Slot.value).getD .missing) := by
  refine granted_eq_ok_iff.mpr ⟨⟨nofun, nofun, nofun⟩, (h.admits ungranted hk .read).granted, ?_⟩
  have hlookup : lookup? s (.object id) k = (members.find? k).map Slot.value :=
    (h.admits ungranted hk .read).lookup?_eq
  rw [rewrap, h.view?_eq_none, hlookup]

theorem keys_eq (h : HoldsPlain s id members)
    (ungranted : ∀ m, r.granted? (.ofInstance id) m = none)
    (free : ∀ k ∈ members.keys, Text.isReserved k = false) :
    keys r s (.object id) = .ok members.keys := by
  have listed : (⟨.object .guest false, members, false⟩ : Entity code).enumerableKeys =
      members.keys := by
    rw [Entity.enumerableKeys_eq]
    refine List.filter_eq_self.mpr fun k hk => ?_
    obtain ⟨slot, hslot⟩ := Option.isSome_iff_exists.mp (Table.mem_keys_iff.mp hk)
    rw [hslot, h.plain k slot hslot]
    rfl
  have allowed (k : String) (hk : k ∈ members.keys) :
      (!Text.isReserved k && r.check s (.object id) k .enumerate) = true := by
    rw [h.check ungranted, free k hk]
    rfl
  have hentity : s.entityOf? (s.resolve (.object id)) =
      some ⟨.object .guest false, members, false⟩ := by
    rw [Store.resolve_of_view?_eq_none h.view?_eq_none]
    exact h.held
  simp only [keys, requireObject, hentity, listed]
  exact congrArg Except.ok (List.filter_eq_self.mpr allowed)

end HoldsPlain

theorem run_concat_snd (r : Registry) (s : Store code) (ops : List Operation) (op : Operation) :
    (run r s (ops ++ [op])).2 = (perform r (run r s ops).2 op).2 := by
  induction ops generalizing s with
  | nil => rfl
  | cons first rest ih => exact ih (perform r s first).2

/-- The store after a guest has made a plain object and these edits to it. -/
def edited (r : Registry) (s : Store code) (edits : List Edit) : Store code :=
  (run r (s.newPlain []).2 (edits.map (Edit.request (s.newPlain []).1))).2

theorem holdsPlain_edited {r : Registry} {s : Store code}
    (ungranted : ∀ m, r.granted? (.ofInstance s.size) m = none) (edits : List Edit) :
    HoldsPlain (edited r s edits) s.size (content edits) := by
  induction edits using List.reverseRecOn with
  | nil =>
    refine ⟨s.entity?_alloc_self _, fun k slot hslot => ?_⟩
    cases hslot
  | append_singleton edits e ih =>
    have step : edited r s (edits ++ [e]) =
        (perform r (edited r s edits) (e.request (.object s.size))).2 := by
      rw [edited, List.map_append]
      exact run_concat_snd r _ _ _
    rw [step, content_concat]
    exact ih.perform ungranted e

/-- A new plain object without grants of its own is an ordered map for its guest. After any edits,
one more under a reserved name is refused and changes nothing; the names listed are those whose
latest edit is a write, each in the place of its first write since its latest removal; and a name
that is not reserved reads as the value last written, or as `missing`. -/
theorem plain_object_is_ordered_map (r : Registry) (s : Store code)
    (ungranted : ∀ m, r.granted? (.ofInstance s.size) m = none) (edits : List Edit) :
    (∀ e : Edit, Text.isReserved e.name = true →
      perform r (edited r s edits) (e.request (s.newPlain []).1) =
        (.error (.capabilityDenied e.capability e.name), edited r s edits)) ∧
    (∃ names, keys r (edited r s edits) (s.newPlain []).1 = .ok names ∧ names.Nodup ∧
      (∀ k, k ∈ names ↔ Text.isReserved k = false ∧ ∃ x, latest? edits k = some (.write k x)) ∧
      names.Pairwise fun a b => entry edits a < entry edits b) ∧
    ∀ k, Text.isReserved k = false →
      read r (edited r s edits) (s.newPlain []).1 k = .ok ((written? edits k).getD .missing) := by
  have fresh : (s.newPlain []).1 = .object s.size := rfl
  have object := holdsPlain_edited ungranted edits
  have free (k : String) (hk : k ∈ (content edits).keys) : Text.isReserved k = false :=
    (mem_keys_content_iff.mp hk).1
  rw [fresh]
  refine ⟨fun e he => object.perform_of_isReserved ungranted he, ⟨(content edits).keys,
    object.keys_eq ungranted free, (content edits).nodup, fun k => ?_,
    pairwise_entry_content edits⟩, fun k hk => ?_⟩
  · rw [mem_keys_content_iff, isSome_written?_iff]
  · have hread := object.read_eq ungranted hk
    rw [find?_content, hk] at hread
    simpa [Slot.plain, Function.comp_def] using hread

/-- Names are written over, removed and written again, and one of them is reserved. -/
def repeatedEdits : List Edit :=
  [.write "body" (.string "one"), .write "title" (.string "May"), .write "body" (.string "two"),
    .remove "body", .write "body__" .null, .write "note" .null, .remove "note",
    .write "body" (.string "three"), .write "title" (.string "June")]

/-- The name that was removed and written again comes last. -/
theorem plain_object_is_ordered_map_of_repeatedEdits :
    keys .empty (edited .empty (⟨#[]⟩ : Store Unit) repeatedEdits) (.object 0) =
      .ok ["title", "body"] ∧
    entry repeatedEdits "title" < entry repeatedEdits "body" ∧
    read .empty (edited .empty (⟨#[]⟩ : Store Unit) repeatedEdits) (.object 0) "body" =
      .ok (.string "three") ∧
    read .empty (edited .empty (⟨#[]⟩ : Store Unit) repeatedEdits) (.object 0) "note" =
      .ok .missing ∧
    perform .empty (edited .empty (⟨#[]⟩ : Store Unit) repeatedEdits)
        (.remove (.object 0) "body__") =
      (.error (.capabilityDenied .delete "body__"), edited .empty ⟨#[]⟩ repeatedEdits) := by
  obtain ⟨refused, ⟨names, hkeys, -, -, order⟩, reads⟩ :=
    plain_object_is_ordered_map .empty (⟨#[]⟩ : Store Unit) (fun _ => rfl) repeatedEdits
  have listed : keys .empty (edited .empty (⟨#[]⟩ : Store Unit) repeatedEdits) (.object 0) =
      .ok ["title", "body"] := rfl
  obtain rfl : ["title", "body"] = names := Except.ok.inj (listed.symm.trans hkeys)
  refine ⟨listed, ?_, reads "body" (by decide), reads "note" (by decide),
    refused (.remove "body__") (by decide)⟩
  exact (List.pairwise_cons.mp order).1 "body" (by decide)

end Access

end Confinement
