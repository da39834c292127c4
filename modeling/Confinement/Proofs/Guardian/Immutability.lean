import Confinement.Guardian
import Confinement.Proofs.Store.Chain

/-!
# What is immutable stays as it is

Guests change members through mediated access; the function guardian freezes, names and binds. None
of this changes a frozen object or function in any respect, nor a fixed slot of any object or
function, whatever the registry grants and whichever views stand in between. `Keeps` says that of
two stores; every step keeps, so every run does.
-/
namespace Confinement

variable {code : Type}

/-- The same object or function at a later time: unchanged if it was frozen, and with all the slots
that were fixed. -/
structure Entity.Keeps (e e' : Entity code) : Prop where
  frozen : e.frozen = true → e' = e
  fixed : ∀ m slot, e.properties.find? m = some slot → slot.fixed = true →
    e'.properties.find? m = some slot

namespace Entity.Keeps

theorem refl (e : Entity code) : e.Keeps e := ⟨fun _ => rfl, fun _ _ h _ => h⟩

theorem trans {e e' e'' : Entity code} (h : e.Keeps e') (h' : e'.Keeps e'') : e.Keeps e'' where
  frozen hfrozen := by
    have heq : e' = e := h.frozen hfrozen
    rw [← heq] at hfrozen ⊢
    exact h'.frozen hfrozen
  fixed m slot hslot hfixed := h'.fixed m slot (h.fixed m slot hslot hfixed) hfixed

/-- A change to a member that may be changed. -/
theorem of_changesOnly {m : String} {f : Entity code → Entity code} (only : Access.ChangesOnly m f)
    {e : Entity code} (h : e.isImmutable m = false) : e.Keeps (f e) := by
  obtain ⟨hfrozen, hfixed⟩ := Bool.or_eq_false_iff.mp h
  refine ⟨fun hf => ?_, fun m' slot hslot hf => ?_⟩
  · rw [hfrozen] at hf
    cases hf
  · have hne : m' ≠ m := by
      rintro rfl
      rw [hslot, Option.map_some, Option.getD_some, hf] at hfixed
      cases hfixed
    rw [only.others e m' hne, hslot]

theorem freeze (e : Entity code) : e.Keeps { e with frozen := true } where
  frozen hfrozen := by rw [← hfrozen]
  fixed _ _ hslot _ := hslot

end Entity.Keeps

namespace Store

/-- A later store: everything is still there, and what was immutable is unchanged. -/
def Keeps (s t : Store code) : Prop :=
  ∀ id e, s.entity? id = some e → ∃ e', t.entity? id = some e' ∧ e.Keeps e'

theorem Keeps.refl (s : Store code) : s.Keeps s := fun _ e he => ⟨e, he, .refl e⟩

theorem Keeps.trans {s t u : Store code} (h : s.Keeps t) (h' : t.Keeps u) : s.Keeps u := by
  intro id e he
  obtain ⟨e', he', hkeeps⟩ := h id e he
  obtain ⟨e'', he'', hkeeps'⟩ := h' id e' he'
  exact ⟨e'', he'', hkeeps.trans hkeeps'⟩

theorem keeps_update {s : Store code} {id : EntityId} {f : Entity code → Entity code}
    (h : ∀ e, s.entity? id = some e → e.Keeps (f e)) : s.Keeps (s.update id f) := by
  intro j e he
  rw [entity?_update]
  split
  · rename_i hj
    subst hj
    exact ⟨f e, by rw [he, Option.map_some], h e he⟩
  · exact ⟨e, he, .refl e⟩

theorem keeps_alloc (s : Store code) (e : Entity code) : s.Keeps (s.alloc e).2 := by
  intro id e' he'
  have hlt : id < s.size := lt_size_of_entity? he'
  exact ⟨e', by rw [s.entity?_alloc_of_lt e hlt, he'], .refl e'⟩

theorem keeps_freeze (s : Store code) (id : EntityId) : s.Keeps (s.freeze id) :=
  keeps_update fun e _ => .freeze e

/-- A function is renamed only while it is not frozen. -/
theorem keeps_rename {s : Store code} {id : EntityId} (h : s.isFrozen id = false) (name : String) :
    s.Keeps (s.rename id name) := by
  refine keeps_update fun e he => ?_
  have hfrozen : e.frozen = false := by simpa [isFrozen, he] using h
  refine ⟨fun hf => ?_, fun m slot hslot _ => ?_⟩
  · rw [hfrozen] at hf
    cases hf
  · split
    · exact hslot
    · exact hslot

/-- Naming a function leaves it alone or renames it while it is not frozen. -/
theorem tagName_cases (s : Store code) (id : EntityId) (name : String) :
    (s.tagName id name).2 = s ∨
      s.isFrozen id = false ∧ (s.tagName id name).2 = s.rename id name := by
  unfold tagName
  split
  · exact .inl rfl
  · cases hfrozen : s.isFrozen id with
    | true =>
      rw [if_pos rfl]
      split
      · exact .inl rfl
      · exact .inl rfl
    | false => exact .inr ⟨rfl, rfl⟩

/-- Marking a function names it, and freezes it unless the name is refused. -/
theorem markFrozen_cases (s : Store code) (id : EntityId) (name : String) :
    (s.markFrozen id name).2 = (s.tagName id name).2 ∨
      (s.markFrozen id name).2 = (s.tagName id name).2.freeze id := by
  unfold markFrozen
  rcases s.tagName id name with ⟨fault | _, t⟩
  · exact .inl rfl
  · exact .inr rfl

theorem keeps_tagName (s : Store code) (id : EntityId) (name : String) :
    s.Keeps (s.tagName id name).2 := by
  rcases s.tagName_cases id name with h | ⟨hfrozen, h⟩
  · rw [h]
    exact .refl s
  · rw [h]
    exact keeps_rename hfrozen name

theorem keeps_markFrozen (s : Store code) (id : EntityId) (name : String) :
    s.Keeps (s.markFrozen id name).2 := by
  have named := s.keeps_tagName id name
  rcases s.markFrozen_cases id name with h | h
  · rwa [h]
  · rw [h]
    exact named.trans (keeps_freeze _ id)

theorem keeps_bind (s : Store code) (id : EntityId) (receiver : Value) (guid : Option EntityId) :
    s.Keeps (s.bind id receiver guid).2 := by
  unfold bind
  split
  · exact keeps_alloc s _
  · exact .refl s

end Store

namespace Access

/-- Nothing but a member that may be changed is changed. -/
theorem not_isImmutable_of_change? {r : Registry} {s : Store code} {op : Operation} {id : EntityId}
    {m : String} {f : Entity code → Entity code} (h : change? r s op = some (id, m, f))
    {e : Entity code} (he : s.entity? id = some e) : e.isImmutable m = false := by
  cases op with
  | write u m' x =>
    simp only [change?] at h
    split at h
    · rename_i htarget
      cases h
      obtain ⟨-, -, e', he', himmutable⟩ := of_writeTarget_eq_ok htarget
      obtain rfl : e' = e := Option.some.inj (he'.symm.trans he)
      exact himmutable
    · cases h
  | remove u m' =>
    simp only [change?] at h
    split at h
    · rename_i htarget
      cases h
      obtain ⟨-, j, e', -, he', ⟨hnone, -⟩ | ⟨hsome, -, himmutable⟩⟩ :=
        of_removeTarget_eq_ok htarget
      · cases hnone
      · cases hsome
        obtain rfl : e' = e := Option.some.inj (he'.symm.trans he)
        exact himmutable
    · cases h
  | _ => cases h

theorem keeps_perform (r : Registry) (s : Store code) (op : Operation) :
    s.Keeps (perform r s op).2 := by
  rw [perform_store]
  cases h : change? r s op with
  | none => exact .refl s
  | some c =>
    exact Store.keeps_update fun e he =>
      .of_changesOnly (changesOnly_change? h) (not_isImmutable_of_change? h he)

end Access

namespace Guardian

/-- A mediated operation of a guest, or something that the function guardian does. -/
inductive Step where
  | access (op : Access.Operation)
  /-- Freezes an object or a function. -/
  | freeze (id : EntityId)
  | tag (id : EntityId) (name : String)
  | mark (id : EntityId) (name : String)
  | bind (id : EntityId) (receiver : Value) (guid : Option EntityId)

/-- The store after a step, be it done or refused. -/
def step (r : Registry) (s : Store code) : Step → Store code
  | .access op => (Access.perform r s op).2
  | .freeze id => s.freeze id
  | .tag id name => (s.tagName id name).2
  | .mark id name => (s.markFrozen id name).2
  | .bind id receiver guid => (s.bind id receiver guid).2

def run (r : Registry) (s : Store code) (steps : List Step) : Store code := steps.foldl (step r) s

theorem keeps_step (r : Registry) (s : Store code) (x : Step) : s.Keeps (step r s x) := by
  cases x with
  | access op => exact Access.keeps_perform r s op
  | freeze id => exact s.keeps_freeze id
  | tag id name => exact s.keeps_tagName id name
  | mark id name => exact s.keeps_markFrozen id name
  | bind id receiver guid => exact s.keeps_bind id receiver guid

theorem keeps_run (r : Registry) (s : Store code) (steps : List Step) :
    s.Keeps (run r s steps) := by
  induction steps generalizing s with
  | nil => exact .refl s
  | cons x steps ih => exact (keeps_step r s x).trans (ih (step r s x))

/-- The functions that are frozen from the start: those of the host, and bound wrappers. -/
inductive BornFrozen (s : Store code) : Value × Store code → Prop where
  | host (name : String) (kind : FunctionKind) (body : FunctionBody code) :
      BornFrozen s (s.newHostFunction name kind body)
  | bound (id : EntityId) (receiver : Value) (guid : Option EntityId) (f : FunctionRecord code)
      (h : s.function? id = some f) : BornFrozen s (s.bind id receiver guid)

theorem BornFrozen.exists_entity {s : Store code} {birth : Value × Store code}
    (h : BornFrozen s birth) :
    ∃ id e, birth.1 = .function id ∧ birth.2.entity? id = some e ∧ e.frozen = true := by
  cases h with
  | host name kind body => exact ⟨_, _, rfl, s.entity?_alloc_self _, rfl⟩
  | bound id receiver guid f h =>
    rw [Store.bind, h]
    exact ⟨_, _, rfl, s.entity?_alloc_self _, rfl⟩

/-- Consider any point of a run of mediated operations and acts of the guardian, under any grants.
What is frozen there is the same ever after: it is frozen, and has the same properties in the same
order and, if it is a function, the same name and guid. What is not frozen keeps its fixed slots as
they are. A function of the host or a bound wrapper that is made there never changes. -/
theorem immutable_over_runs (r : Registry) (s : Store code) (steps later : List Step) :
    (∀ id e, (run r s steps).entity? id = some e →
      ∃ e', (run r s (steps ++ later)).entity? id = some e' ∧ (e.frozen = true → e' = e) ∧
        ∀ m slot, e.properties.find? m = some slot → slot.fixed = true →
          e'.properties.find? m = some slot) ∧
    ∀ birth, BornFrozen (run r s steps) birth →
      ∃ e, birth.2.entityOf? birth.1 = some e ∧ e.frozen = true ∧
        (run r birth.2 later).entityOf? birth.1 = some e := by
  refine ⟨fun id e he => ?_, fun birth hbirth => ?_⟩
  · have hsplit : run r s (steps ++ later) = run r (run r s steps) later := List.foldl_append
    obtain ⟨e', he', hkeeps⟩ := keeps_run r (run r s steps) later id e he
    rw [hsplit]
    exact ⟨e', he', hkeeps.frozen, hkeeps.fixed⟩
  · obtain ⟨id, e, hid, he, hfrozen⟩ := hbirth.exists_entity
    obtain ⟨e', he', hkeeps⟩ := keeps_run r birth.2 later id e he
    rw [hkeeps.frozen hfrozen] at he'
    rw [hid]
    exact ⟨e, he, hfrozen, he'⟩

/-- A host object with a fixed slot, a guest function, and a view on the object. -/
def fixedStore : Store Unit :=
  ⟨#[⟨.object (.host "Host" .empty) false,
      .ofList [("number", .pinned (.int 7)), ("title", .plain .null)], false⟩,
    ⟨.function ⟨some "f", .simple, .guest, 1, .closure ()⟩, .ofList [("note", .plain .null)],
      false⟩,
    ⟨.object (.view (.object 0) ["number", "title"]) false, .empty, true⟩]⟩

/-- Both members of the object may be written and removed. -/
def fixedGrants : Registry :=
  { grants := [⟨.ofClass "Host", "number", .ofList [.write, .delete]⟩,
      ⟨.ofClass "Host", "title", .ofList [.write, .delete]⟩] }

/-- Attempts on the fixed slot and on the function, some of them refused, and a write to another
slot. -/
def fixedSteps : List Step :=
  [.access (.write (.object 2) "number" .null), .access (.remove (.object 0) "number"),
    .access (.write (.object 2) "title" (.int 1)), .access (.write (.function 1) "note" (.int 2)),
    .tag 1 "h", .freeze 0, .bind 1 (.object 0) none]

/-- The function is named and frozen first, and keeps its name and its properties. The object keeps
its fixed slot, and a bound wrapper of the function stays as it was made. -/
theorem immutable_over_runs_of_fixedStore :
    (∃ e, (run fixedGrants fixedStore [.mark 1 "g"]).entity? 1 = some e ∧ e.frozen = true ∧
      ∃ e', (run fixedGrants fixedStore ([.mark 1 "g"] ++ fixedSteps)).entity? 1 = some e' ∧
        e' = e) ∧
    (∃ e', (run fixedGrants fixedStore ([.mark 1 "g"] ++ fixedSteps)).entity? 0 = some e' ∧
      e'.properties.find? "number" = some (.pinned (.int 7))) ∧
    ∃ e, ((run fixedGrants fixedStore [.mark 1 "g"]).bind 1 .null none).2.entityOf?
        ((run fixedGrants fixedStore [.mark 1 "g"]).bind 1 .null none).1 = some e ∧
      e.frozen = true ∧
      (run fixedGrants ((run fixedGrants fixedStore [.mark 1 "g"]).bind 1 .null none).2
        fixedSteps).entityOf? ((run fixedGrants fixedStore [.mark 1 "g"]).bind 1 .null none).1 =
        some e :=
  have kept := immutable_over_runs fixedGrants fixedStore [.mark 1 "g"] fixedSteps
  have ⟨e₁, he₁, hfrozen, _⟩ := kept.1 1 _ rfl
  have ⟨e₀, he₀, _, hfixed⟩ := kept.1 0 _ rfl
  ⟨⟨_, rfl, rfl, e₁, he₁, hfrozen rfl⟩, ⟨e₀, he₀, hfixed "number" _ rfl rfl⟩,
    kept.2 _ (.bound 1 .null none _ rfl)⟩

end Guardian

end Confinement
