import Confinement.Proofs.Access.Effect
import Confinement.Proofs.Store.Persistence

/-!
# What a record shows

Taming puts a frozen record in place of a fault. The record of a host exception has the name and the
message of the exception, and then those of its fields that the policy allows, in order; a field
that holds a function with code of its own is shown as a stand-in. No policy that can be had allows
a location, a reserved name, or another `name` or `message`, so the members of a record are all
different and none of them gives anything away. All of this endures.
-/
namespace Confinement

variable {code : Type}

theorem exists_of_mem_forall₂ {α β : Type} {R : α → β → Prop} {l : List α} {l' : List β}
    (h : List.Forall₂ R l l') {b : β} (hb : b ∈ l') : ∃ a ∈ l, R a b := by
  induction h with
  | nil => cases hb
  | cons head _ ih =>
    rcases List.mem_cons.mp hb with rfl | hrest
    · exact ⟨_, List.mem_cons_self, head⟩
    · obtain ⟨a, ha, related⟩ := ih hrest
      exact ⟨a, List.mem_cons_of_mem _ ha, related⟩

namespace Taming

/-- A policy that can be had: the one without fields, or one for a list of them. -/
inductive Policy.Made : Policy → Prop
  | none : Made .none
  | ofFields (fields : List String) : Made (.ofFields fields)

variable {p : Policy} {field : String}

theorem Policy.Made.isCandidate (made : p.Made) (h : p.allows field = true) :
    Policy.isCandidate field = true := by
  cases made with
  | none => cases h
  | ofFields fields =>
    have hmem : field ∈ (fields.filter Policy.isCandidate).eraseDups := List.contains_iff_mem.mp h
    exact (List.mem_filter.mp (List.mem_eraseDups.mp hmem)).2

theorem Policy.isCandidate_iff : Policy.isCandidate field = true ↔
    isLocationField field = false ∧ Text.isReserved field = false ∧ field ≠ "name" ∧
      field ≠ "message" := by
  simp [Policy.isCandidate, and_assoc]

/-- If the value is a function, it is a stand-in. -/
def Powerless (s : Store code) (v : Value) : Prop :=
  ∀ id, v = .function id → ∃ f, s.function? id = some f ∧ f.isPowerless = true

/-- In this store a value is shown as itself, or as a frozen stand-in if it is a function with code
of its own. -/
inductive ShownAs (s : Store code) : Value → Value → Prop
  | itself {v : Value} (held : s.Holds v) (idle : isLive s v = false) : ShownAs s v v
  | standIn {id j : EntityId} {f : FunctionRecord code}
      (live : isLive s (.function id) = true)
      (made : s.entity? j = some ⟨.function f, .empty, true⟩) (idle : f.isPowerless = true) :
      ShownAs s (.function id) (.function j)

variable {s t : Store code} {v x : Value}

theorem holds_of_isLive (h : isLive s v = true) : s.Holds v := by
  cases v with
  | function id =>
    cases hf : s.function? id with
    | none => simp [isLive, hf] at h
    | some f => exact ⟨f, hf⟩
  | _ => cases h

theorem isLive_function {id : EntityId} {f : FunctionRecord code} (hf : s.function? id = some f) :
    isLive s (.function id) = !f.isPowerless := by
  simp [isLive, hf]

theorem function?_of_made {j : EntityId} {f : FunctionRecord code} {members : Table Slot}
    {frozen : Bool} (made : s.entity? j = some ⟨.function f, members, frozen⟩) :
    s.function? j = some f := by
  simp only [Store.function?, made]

theorem powerless_of_not_isLive (held : s.Holds v) (h : isLive s v = false) : Powerless s v := by
  rintro id rfl
  obtain ⟨f, hf⟩ := held
  refine ⟨f, hf, ?_⟩
  rwa [isLive_function hf, Bool.not_eq_false'] at h

/-- A function that has code of its own goes on having it, and one that has none gets none. -/
theorem isLive_eq_of_endures (endures : s.Endures t) (held : s.Holds v) :
    isLive t v = isLive s v := by
  cases v with
  | function id =>
    obtain ⟨f, hf⟩ := held
    obtain ⟨g, hg, alike⟩ := endures.functions id f hf
    rw [isLive_function hf, isLive_function hg]
    simp only [FunctionRecord.isPowerless, alike.body]
  | _ => rfl

namespace ShownAs

theorem endures (h : ShownAs s v x) (endures : s.Endures t) : ShownAs t v x := by
  cases h with
  | itself held idle =>
    exact .itself (endures.holds held) (by rw [isLive_eq_of_endures endures held, idle])
  | standIn live made idle =>
    refine .standIn ?_ (endures.entity?_of_frozen made rfl) idle
    rw [isLive_eq_of_endures endures (holds_of_isLive live), live]

/-- Nothing is shown as a function with code of its own. -/
theorem idle (h : ShownAs s v x) : isLive s x = false := by
  cases h with
  | itself _ idle => exact idle
  | standIn _ made idle => rw [isLive_function (function?_of_made made), idle, Bool.not_true]

theorem holds (h : ShownAs s v x) : s.Holds x := by
  cases h with
  | itself held _ => exact held
  | standIn _ made _ => exact ⟨_, function?_of_made made⟩

end ShownAs

theorem shownAs_tameThrown (held : s.Holds v) :
    ShownAs (tameThrown s v).2 v (tameThrown s v).1 := by
  have endures : s.Endures (tameThrown s v).2 := .of_adds (adds_tameThrown s v)
  cases hlive : isLive s v with
  | false =>
    rw [tameThrown_of_not_isLive hlive]
    exact .itself held hlive
  | true =>
    cases v with
    | function id =>
      obtain ⟨f, hf⟩ := held
      have hpower : f.isPowerless = false := by simpa [isLive, hf] using hlive
      have hmade : tameThrown s (.function id) = s.newStandIn f.debugName := by
        simp only [tameThrown, hf, hpower, Bool.false_eq_true, if_false]
      have live := (isLive_eq_of_endures endures (holds_of_isLive hlive)).trans hlive
      rw [hmade] at live ⊢
      exact .standIn live (s.entity?_alloc_self _) rfl
    | _ => cases hlive

/-- A field is shown under its name. -/
def ShowsField (s : Store code) (field entry : String × Value) : Prop :=
  entry.1 = field.1 ∧ ShownAs s field.2 entry.2

theorem showsField_tameFields {fields : List (String × Value)} (held : ∀ e ∈ fields, s.Holds e.2) :
    List.Forall₂ (ShowsField (tameFields p s fields).2) (fields.filter (p.allows ·.1))
      (tameFields p s fields).1 := by
  induction fields generalizing s with
  | nil => exact .nil
  | cons field rest ih =>
    obtain ⟨name, v⟩ := field
    have heldRest : ∀ e ∈ rest, s.Holds e.2 := fun e he => held e (List.mem_cons_of_mem _ he)
    rw [tameFields]
    cases hallows : p.allows name with
    | false =>
      rw [List.filter_cons_of_neg (by simp [hallows]), if_neg Bool.false_ne_true]
      exact ih heldRest
    | true =>
      have shown : ShownAs (tameThrown s v).2 v (tameThrown s v).1 :=
        shownAs_tameThrown (held _ List.mem_cons_self)
      have endures : s.Endures (tameThrown s v).2 := .of_adds (adds_tameThrown s v)
      rw [List.filter_cons_of_pos (by simp [hallows]), if_pos rfl]
      exact .cons ⟨rfl, shown.endures (.of_adds (adds_tameFields p _ rest))⟩
        (ih fun e he => endures.holds (heldRest e he))

/-- The names of the fields that are shown are those that the policy allows. -/
theorem keys_of_showsField {fields entries : List (String × Value)}
    (h : List.Forall₂ (ShowsField s) fields entries) :
    entries.map Prod.fst = fields.map Prod.fst := by
  induction h with
  | nil => rfl
  | cons head _ ih => rw [List.map_cons, List.map_cons, head.1, ih]

/-- The value is a frozen object that is marked as tamed, with these members in order. -/
def IsRecord (s : Store code) (x : Value) (entries : List (String × Value)) : Prop :=
  ∃ id members, x = .object id ∧ s.entity? id = some ⟨.object .guest true, members, true⟩ ∧
    members.entries = entries.map fun e => (e.1, .plain e.2)

namespace IsRecord

variable {entries : List (String × Value)}

theorem endures (h : IsRecord s x entries) (endures : s.Endures t) : IsRecord t x entries := by
  obtain ⟨id, members, rfl, held, hentries⟩ := h
  exact ⟨id, members, rfl, endures.entity?_of_frozen held rfl, hentries⟩

theorem newTamedRecord (s : Store code) (h : (entries.map Prod.fst).Nodup) :
    IsRecord (s.newTamedRecord entries).2 (s.newTamedRecord entries).1 entries := by
  refine ⟨s.size, _, rfl, s.entity?_alloc_self _, Table.entries_ofList ?_⟩
  simpa [Function.comp_def] using h

/-- The members of a record, as a reader of the object finds them. -/
theorem exists_entity (h : IsRecord s x entries) : ∃ id e, x = .object id ∧
    s.entity? id = some e ∧ e.nature = .object .guest true ∧ e.frozen = true ∧
    e.properties.keys = entries.map Prod.fst ∧ ∀ entry ∈ entries,
      e.ownValue? entry.1 = some entry.2 := by
  obtain ⟨id, members, rfl, held, hentries⟩ := h
  refine ⟨id, _, rfl, held, rfl, rfl, ?_, fun entry hentry => ?_⟩
  · simp [Table.keys, hentries, Function.comp_def]
  · have hmem : (entry.1, Slot.plain entry.2) ∈ members.entries := by
      rw [hentries]
      exact List.mem_map_of_mem hentry
    rw [Entity.ownValue?, Table.find?_of_mem hmem]
    rfl

/-- An object is never a function. -/
theorem idle (h : IsRecord s x entries) : isLive s x = false := by
  obtain ⟨id, members, rfl, -⟩ := h
  rfl

theorem holds (h : IsRecord s x entries) : s.Holds x := by
  obtain ⟨id, members, rfl, held, -⟩ := h
  exact ⟨.guest, by simp only [Store.origin?, held]⟩

end IsRecord

theorem nodup_details (fault : Fault) :
    ("name" :: "message" :: (details fault).map Prod.fst).Nodup := by
  cases fault <;> simp [details]

/-- The record of a fault of the boundary itself: its kind, its wording, and what a denial adds. -/
theorem isRecord_tame (p : Policy) (v : Vault code) {fault : Fault}
    (hthrown : ∀ x, fault ≠ .thrown x) (hhost : ∀ ex, fault ≠ .host ex) :
    IsRecord (tame p v fault).2.store (tame p v fault).1
      (("name", .string fault.kind) :: ("message", .string (fault.message v.store)) ::
        details fault) := by
  cases fault with
  | thrown x => exact absurd rfl (hthrown x)
  | host ex => exact absurd rfl (hhost ex)
  | _ => exact .newTamedRecord v.store (nodup_details _)

/-- `x` is a record of the exception as the policy shows it. -/
def Presents (s : Store code) (p : Policy) (ex : HostException) (x : Value) : Prop :=
  ∃ shown, IsRecord s x
      (("name", .string ex.name) :: ("message", .string ex.message) :: shown) ∧
    List.Forall₂ (ShowsField s) (ex.fields.entries.filter (p.allows ·.1)) shown

variable {ex : HostException}

theorem Presents.endures (h : Presents s p ex x) (endures : s.Endures t) : Presents t p ex x := by
  obtain ⟨shown, record, fields⟩ := h
  exact ⟨shown, record.endures endures, fields.imp fun _ _ h => ⟨h.1, h.2.endures endures⟩⟩

/-- The names in a record are different: those of the fields are, and none is `name` or
`message`. -/
theorem nodup_shown (made : p.Made) {shown : List (String × Value)}
    (h : List.Forall₂ (ShowsField s) (ex.fields.entries.filter (p.allows ·.1)) shown) :
    ("name" :: "message" :: shown.map Prod.fst).Nodup := by
  have candidate : ∀ name ∈ shown.map Prod.fst, Policy.isCandidate name = true := by
    intro name hname
    rw [keys_of_showsField h] at hname
    obtain ⟨e, he, rfl⟩ := List.mem_map.mp hname
    exact made.isCandidate (List.mem_filter.mp he).2
  have fresh (name : String) (hname : Policy.isCandidate name = false) :
      name ∉ shown.map Prod.fst := by
    intro hmem
    rw [candidate name hmem] at hname
    cases hname
  have fields : (shown.map Prod.fst).Nodup := by
    rw [keys_of_showsField h]
    exact (List.filter_sublist.map Prod.fst).nodup ex.fields.nodup
  refine List.nodup_cons.mpr ⟨?_, List.nodup_cons.mpr ⟨fresh _ (by decide), fields⟩⟩
  exact List.not_mem_cons_of_ne_of_not_mem (by decide) (fresh _ (by decide))

/-- The first time, the record of a host exception is made by the policy in force. -/
theorem presents_tameHost (made : p.Made) {v : Vault code} (hnone : v.record? ex = none)
    (held : ∀ e ∈ ex.fields.entries, v.store.Holds e.2) :
    Presents (tameHost p v ex).2.store p ex (tameHost p v ex).1 := by
  have fields := showsField_tameFields (p := p) held
  rw [tameHost, hnone]
  refine ⟨_, .newTamedRecord _ (nodup_shown made fields), fields.imp fun _ _ h => ⟨h.1, ?_⟩⟩
  exact h.2.endures (.alloc _ _)

/-- Every field that the policy allows is among those shown. -/
theorem exists_shown {shown : List (String × Value)} {y : Value}
    (fields : List.Forall₂ (ShowsField s) (ex.fields.entries.filter (p.allows ·.1)) shown)
    (hallows : p.allows field = true) (hfield : ex.fields.find? field = some y) :
    ∃ y', (field, y') ∈ shown ∧ ShownAs s y y' := by
  obtain ⟨front, back, split⟩ := exists_split_of_findEntry hfield
  have hmem : (field, y) ∈ ex.fields.entries.filter (p.allows ·.1) :=
    List.mem_filter.mpr ⟨by rw [split]; exact List.mem_append_right _ List.mem_cons_self, hallows⟩
  obtain ⟨⟨name, y'⟩, hentry, rfl, shows⟩ := exists_of_mem_forall₂ fields.flip hmem
  exact ⟨y', hentry, shows⟩

/-- What a record says besides `name` and `message` are fields that the policy allows. -/
theorem Presents.cases_of_mem (h : Presents s p ex x) {id : EntityId} {e : Entity code}
    (hx : x = .object id) (held : s.entity? id = some e) {field : String} {slot : Slot}
    (hslot : e.properties.find? field = some slot) :
    (field = "name" ∧ slot = .plain (.string ex.name)) ∨
    (field = "message" ∧ slot = .plain (.string ex.message)) ∨
    ∃ y, ex.fields.find? field = some y ∧ p.allows field = true ∧ slot = .plain slot.value ∧
      ShownAs s y slot.value := by
  obtain ⟨shown, ⟨id', members, rfl, held', hentries⟩, fields⟩ := h
  cases hx
  obtain rfl := Option.some.inj (held.symm.trans held')
  obtain ⟨front, back, split⟩ := exists_split_of_findEntry hslot
  have hmem : (field, slot) ∈ members.entries := by
    have split : members.entries = front ++ (field, slot) :: back := split
    simp [split]
  rw [hentries] at hmem
  simp only [List.map_cons, List.mem_cons, Prod.mk.injEq] at hmem
  refine hmem.imp_right (Or.imp_right fun hmem => ?_)
  obtain ⟨entry, hentry, heq⟩ := List.mem_map.mp hmem
  cases heq
  obtain ⟨allowed, hallowed, hname, shows⟩ := exists_of_mem_forall₂ fields hentry
  obtain ⟨hfield, hallows⟩ := List.mem_filter.mp hallowed
  rw [hname]
  exact ⟨allowed.2, Table.find?_of_mem hfield, hallows, rfl, shows⟩

/-- A record of a host exception gives nothing away. -/
theorem Presents.discreet (h : Presents s p ex x) (made : p.Made) {id : EntityId} {e : Entity code}
    (hx : x = .object id) (held : s.entity? id = some e) {field : String} {slot : Slot}
    (hslot : e.properties.find? field = some slot) :
    isLocationField field = false ∧ Text.isReserved field = false ∧ Powerless s slot.value := by
  rcases h.cases_of_mem hx held hslot with ⟨rfl, rfl⟩ | ⟨rfl, rfl⟩ | ⟨y, -, hallows, -, shown⟩
  · exact ⟨by decide, by decide, nofun⟩
  · exact ⟨by decide, by decide, nofun⟩
  · obtain ⟨hlocation, hreserved, -, -⟩ :=
      Policy.isCandidate_iff.mp (made.isCandidate hallows)
    exact ⟨hlocation, hreserved, powerless_of_not_isLive shown.holds shown.idle⟩

end Taming

end Confinement
