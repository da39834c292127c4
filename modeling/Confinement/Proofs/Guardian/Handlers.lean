import Confinement.Proofs.Store.Persistence

/-!
# Handlers

A list of handlers is told from the calls that made it. A handler is in the list if it was added
while no handler had its guid and none with that guid was removed since, and handlers stand in the
order in which they came. What counts is the guid, so that any wrapper with the guid of a handler
takes its place in a call. A list that fires goes through its handlers up to the first that fails.
-/
namespace Confinement

variable {code σ : Type}

namespace Store

/-- A function as a handler: it is known by its guid. -/
def handler? (s : Store code) (id : EntityId) : Option Handler :=
  (s.function? id).map fun f => ⟨id, f.guid⟩

variable {s t : Store code} {id : EntityId}

/-- A wrapper has the guid that it was bound with. -/
theorem handler?_of_bind {r : Value} {guid w : EntityId}
    (made : s.bind id r (some guid) = (.function w, t)) : t.handler? w = some ⟨w, guid⟩ := by
  unfold bind at made
  cases hf : s.function? id with
  | none => simp [hf] at made
  | some f =>
    rw [hf] at made
    cases made
    exact congrArg (Option.map _) (s.function?_alloc_self _ _ _)

theorem handler?_of_sameNatures (natures : s.SameNatures t) (id : EntityId) :
    t.handler? id = s.handler? id := by
  rw [handler?, handler?, natures.function? id]

theorem handler?_rename (s : Store code) (id j : EntityId) (name : String) :
    (s.rename j name).handler? id = s.handler? id := by
  rw [handler?, handler?, function?_rename]
  split
  · rw [Option.map_map]
    rfl
  · rfl

theorem handler?_freeze (s : Store code) (id j : EntityId) :
    (s.freeze j).handler? id = s.handler? id := by
  have natures : s.SameNatures (s.freeze j) := s.sameNatures_update j fun _ => rfl
  exact handler?_of_sameNatures natures id

theorem handler?_tagName (s : Store code) (id j : EntityId) (name : String) :
    (s.tagName j name).2.handler? id = s.handler? id := by
  rcases s.tagName_cases j name with h | ⟨-, h⟩
  · rw [h]
  · rw [h, s.handler?_rename id j name]

end Store

/-- A function is the same handler all its life. -/
theorem Guardian.handler?_step {s : Store code} {id : EntityId} {h : Handler}
    (held : s.handler? id = some h) (r : Registry) (x : Step) :
    (step r s x).handler? id = some h := by
  cases x with
  | access op =>
    exact (Store.handler?_of_sameNatures (Access.sameNatures_perform r s op) id).trans held
  | freeze j => exact (s.handler?_freeze id j).trans held
  | tag j name => exact (s.handler?_tagName id j name).trans held
  | mark j name =>
    have named := (s.handler?_tagName id j name).trans held
    rw [step]
    rcases s.markFrozen_cases j name with h | h
    · rwa [h]
    · rw [h]
      exact (Store.handler?_freeze _ id j).trans named
  | bind j receiver guid =>
    rw [step, Store.bind]
    split
    · obtain ⟨f, hf, -⟩ := Option.map_eq_some_iff.mp held
      have hlt : id < s.size := Store.lt_size_of_function? hf
      rw [← held, Store.handler?, Store.newBound, Store.newFunction, Store.function?,
        s.entity?_alloc_of_lt _ hlt]
      rfl
    · exact held

theorem Guardian.handler?_runEach {s : Store code} {id : EntityId} {h : Handler}
    (held : s.handler? id = some h) (steps : List (Registry × Step)) :
    (runEach s steps).handler? id = some h := by
  induction steps generalizing s with
  | nil => exact held
  | cons x steps ih => exact ih (handler?_step held x.1 x.2)

namespace HandlerList

/-- A call that adds or removes a handler. -/
inductive Edit where
  | add (h : Handler)
  | remove (h : Handler)

def Edit.applyTo (l : HandlerList) : Edit → HandlerList
  | .add h => (l.add h).2
  | .remove h => (l.remove h).2

/-- The list that the calls make, whatever each of them answered. -/
def ofEdits (edits : List Edit) : HandlerList := edits.foldl Edit.applyTo empty

/-- One of the calls removes the handler with this guid. -/
def Removes (edits : List Edit) (guid : EntityId) : Prop :=
  ∃ h, .remove h ∈ edits ∧ h.guid = guid

/-- A handler with this guid was added and not removed since. -/
def Present (edits : List Edit) (guid : EntityId) : Prop :=
  ∃ before h after, edits = before ++ .add h :: after ∧ h.guid = guid ∧ ¬ Removes after guid

/-- Call number `i` adds `h` while its guid is absent, and no later call removes that guid. -/
def Enters (edits : List Edit) (i : Nat) (h : Handler) : Prop :=
  ∃ before after, edits = before ++ .add h :: after ∧ before.length = i ∧
    ¬ Present before h.guid ∧ ¬ Removes after h.guid

variable {edits before after : List Edit} {e x : Edit} {g h : Handler} {guid : EntityId} {i : Nat}

theorem concat_eq_iff : edits ++ [e] = before ++ x :: after ↔
    (edits = before ∧ e = x ∧ after = []) ∨
      ∃ rest, after = rest ++ [e] ∧ edits = before ++ x :: rest := by
  constructor
  · intro heq
    rcases List.eq_nil_or_concat after with rfl | ⟨rest, last, rfl⟩
    · obtain ⟨hedits, he⟩ := List.append_inj' heq rfl
      exact .inl ⟨hedits, List.singleton_inj.mp he, rfl⟩
    · rw [List.concat_eq_append, ← List.cons_append, ← List.append_assoc] at heq
      obtain ⟨hedits, he⟩ := List.append_inj' heq rfl
      obtain rfl := List.singleton_inj.mp he
      exact .inr ⟨rest, List.concat_eq_append, hedits⟩
  · rintro (⟨rfl, rfl, rfl⟩ | ⟨rest, rfl, rfl⟩)
    · rfl
    · simp

theorem removes_concat_add : Removes (edits ++ [.add g]) guid ↔ Removes edits guid := by
  simp [Removes]

theorem removes_concat_remove :
    Removes (edits ++ [.remove g]) guid ↔ Removes edits guid ∨ g.guid = guid := by
  simp [Removes, or_and_right, exists_or]

theorem present_concat_add :
    Present (edits ++ [.add g]) guid ↔ g.guid = guid ∨ Present edits guid := by
  constructor
  · rintro ⟨before, h, after, hsplit, hguid, kept⟩
    rcases concat_eq_iff.mp hsplit with ⟨-, hadd, -⟩ | ⟨rest, rfl, hrest⟩
    · cases hadd
      exact .inl hguid
    · exact .inr ⟨before, h, rest, hrest, hguid, mt removes_concat_add.mpr kept⟩
  · rintro (hguid | ⟨before, h, rest, rfl, hguid, kept⟩)
    · exact ⟨edits, g, [], rfl, hguid, by simp [Removes]⟩
    · exact ⟨before, h, rest ++ [.add g], by simp, hguid, mt removes_concat_add.mp kept⟩

theorem present_concat_remove :
    Present (edits ++ [.remove g]) guid ↔ g.guid ≠ guid ∧ Present edits guid := by
  constructor
  · rintro ⟨before, h, after, hsplit, hguid, kept⟩
    rcases concat_eq_iff.mp hsplit with ⟨-, hadd, -⟩ | ⟨rest, rfl, hrest⟩
    · cases hadd
    · rw [removes_concat_remove, not_or] at kept
      exact ⟨kept.2, before, h, rest, hrest, hguid, kept.1⟩
  · rintro ⟨hne, before, h, rest, rfl, hguid, kept⟩
    refine ⟨before, h, rest ++ [.remove g], by simp, hguid, ?_⟩
    rw [removes_concat_remove, not_or]
    exact ⟨kept, hne⟩

theorem enters_concat_add : Enters (edits ++ [.add g]) i h ↔
    Enters edits i h ∨ i = edits.length ∧ h = g ∧ ¬ Present edits g.guid := by
  constructor
  · rintro ⟨before, after, hsplit, hlength, absent, kept⟩
    rcases concat_eq_iff.mp hsplit with ⟨rfl, hadd, -⟩ | ⟨rest, rfl, hrest⟩
    · cases hadd
      exact .inr ⟨hlength.symm, rfl, absent⟩
    · exact .inl ⟨before, rest, hrest, hlength, absent, mt removes_concat_add.mpr kept⟩
  · rintro (⟨before, rest, rfl, hlength, absent, kept⟩ | ⟨rfl, rfl, absent⟩)
    · exact ⟨before, rest ++ [.add g], by simp, hlength, absent, mt removes_concat_add.mp kept⟩
    · exact ⟨edits, [], rfl, rfl, absent, by simp [Removes]⟩

theorem enters_concat_remove :
    Enters (edits ++ [.remove g]) i h ↔ Enters edits i h ∧ g.guid ≠ h.guid := by
  constructor
  · rintro ⟨before, after, hsplit, hlength, absent, kept⟩
    rcases concat_eq_iff.mp hsplit with ⟨-, hadd, -⟩ | ⟨rest, rfl, hrest⟩
    · cases hadd
    · rw [removes_concat_remove, not_or] at kept
      exact ⟨⟨before, rest, hrest, hlength, absent, kept.1⟩, kept.2⟩
  · rintro ⟨⟨before, rest, rfl, hlength, absent, kept⟩, hne⟩
    refine ⟨before, rest ++ [.remove g], by simp, hlength, absent, ?_⟩
    rw [removes_concat_remove, not_or]
    exact ⟨kept, hne⟩

theorem Enters.lt_length (h : Enters edits i g) : i < edits.length := by
  obtain ⟨before, after, rfl, rfl, -⟩ := h
  simp

theorem Enters.present (h : Enters edits i g) : Present edits g.guid := by
  obtain ⟨before, after, hsplit, -, -, kept⟩ := h
  exact ⟨before, g, after, hsplit, rfl, kept⟩

theorem ofEdits_concat (edits : List Edit) (e : Edit) :
    ofEdits (edits ++ [e]) = e.applyTo (ofEdits edits) := List.foldl_concat ..

theorem handlers_add (l : HandlerList) (g : Handler) :
    (l.add g).2.handlers = if l.contains g then l.handlers else l.handlers ++ [g] := by
  unfold add
  split <;> rfl

theorem contains_eq_true_iff {l : HandlerList} :
    l.contains g = true ↔ ∃ h ∈ l.handlers, h.guid = g.guid := by
  simp [contains]

/-- The list gets shorter by a removal exactly if the guid is in it. -/
theorem fst_remove (l : HandlerList) (g : Handler) : (l.remove g).1 = l.contains g := by
  have shorter : (l.remove g).1 = true ↔ ¬ ∀ h ∈ l.handlers, (h.guid != g.guid) = true := by
    rw [remove, bne_iff_ne, Ne, List.length_filter_eq_length_iff]
  rw [Bool.eq_iff_iff, shorter, contains_eq_true_iff]
  simp

/-- A guid is in the list exactly if it is present by the calls. -/
theorem contains_ofEdits_iff : (ofEdits edits).contains g = true ↔ Present edits g.guid := by
  induction edits using List.reverseRecOn with
  | nil => simp [ofEdits, empty, contains, Present]
  | append_singleton edits e ih =>
    rw [ofEdits_concat]
    cases e with
    | add h =>
      rw [present_concat_add, ← ih, contains_eq_true_iff, contains_eq_true_iff, Edit.applyTo,
        handlers_add]
      split
      · rename_i hcontains
        obtain ⟨y, hy, hguid⟩ := contains_eq_true_iff.mp hcontains
        refine (or_iff_right_of_imp fun hsame => ?_).symm
        exact ⟨y, hy, hguid.trans hsame⟩
      · simp [or_and_right, exists_or, or_comm]
    | remove h =>
      rw [present_concat_remove, ← ih, contains_eq_true_iff, contains_eq_true_iff]
      simp only [Edit.applyTo, remove, List.mem_filter, bne_iff_ne]
      constructor
      · rintro ⟨y, ⟨hy, hne⟩, hguid⟩
        exact ⟨fun hsame => hne (hguid.trans hsame.symm), y, hy, hguid⟩
      · rintro ⟨hne, y, hy, hguid⟩
        exact ⟨y, ⟨hy, fun hsame => hne (hsame.symm.trans hguid)⟩, hguid⟩

theorem nodup_ofEdits (edits : List Edit) : ((ofEdits edits).handlers.map Handler.guid).Nodup := by
  induction edits using List.reverseRecOn with
  | nil => exact .nil
  | append_singleton edits e ih =>
    rw [ofEdits_concat]
    cases e with
    | add h =>
      rw [Edit.applyTo, handlers_add]
      split
      · exact ih
      · rename_i hcontains
        rw [contains_eq_true_iff] at hcontains
        rw [List.map_append, List.map_singleton, ← List.concat_eq_append]
        refine ih.concat fun hmem => hcontains ?_
        obtain ⟨y, hy, hguid⟩ := List.mem_map.mp hmem
        exact ⟨y, hy, hguid⟩
    | remove h => exact ih.sublist (List.filter_sublist.map _)

theorem mem_ofEdits_iff : h ∈ (ofEdits edits).handlers ↔ ∃ i, Enters edits i h := by
  induction edits using List.reverseRecOn with
  | nil => simp [ofEdits, empty, Enters]
  | append_singleton edits e ih =>
    rw [ofEdits_concat]
    cases e with
    | add g =>
      simp only [enters_concat_add, exists_or, ← ih, Edit.applyTo, handlers_add,
        ← contains_ofEdits_iff]
      split
      · rename_i hcontains
        simp [hcontains]
      · rename_i hcontains
        simp [hcontains]
    | remove g =>
      simp only [enters_concat_remove, exists_and_right, ← ih, Edit.applyTo, remove,
        List.mem_filter, bne_iff_ne, ne_comm]

/-- Handlers stand in the order in which they entered. -/
theorem pairwise_ofEdits (edits : List Edit) : (ofEdits edits).handlers.Pairwise fun a b =>
    ∀ i j, Enters edits i a → Enters edits j b → i < j := by
  induction edits using List.reverseRecOn with
  | nil => exact .nil
  | append_singleton edits e ih =>
    rw [ofEdits_concat]
    cases e with
    | add g =>
      rw [Edit.applyTo, handlers_add]
      split
      · rename_i hcontains
        have present := contains_ofEdits_iff.mp hcontains
        simpa only [enters_concat_add, present, not_true, and_false, or_false] using ih
      · rename_i hcontains
        rw [contains_ofEdits_iff] at hcontains
        -- what entered before has another guid than the one that enters last
        have other {a : Handler} (ha : a ∈ (ofEdits edits).handlers) : a ≠ g := by
          rintro rfl
          obtain ⟨i, hi⟩ := mem_ofEdits_iff.mp ha
          exact hcontains hi.present
        have last {j : Nat} (hj : Enters (edits ++ [.add g]) j g) : j = edits.length := by
          rcases enters_concat_add.mp hj with hold | hnew
          · exact absurd hold.present hcontains
          · exact hnew.1
        have old {a : Handler} (ha : a ∈ (ofEdits edits).handlers) {i : Nat}
            (hi : Enters (edits ++ [.add g]) i a) : Enters edits i a := by
          rcases enters_concat_add.mp hi with hold | hnew
          · exact hold
          · exact absurd hnew.2.1 (other ha)
        refine List.pairwise_append.mpr ⟨ih.imp_of_mem fun ha hb hab i j hi hj => ?_, by simp, ?_⟩
        · exact hab i j (old ha hi) (old hb hj)
        · intro a ha b hb i j hi hj
          obtain rfl := List.mem_singleton.mp hb
          rw [last hj]
          exact (old ha hi).lt_length
    | remove g =>
      refine (ih.sublist List.filter_sublist).imp fun hab i j hi hj => ?_
      exact hab i j (enters_concat_remove.mp hi).1 (enters_concat_remove.mp hj).1

theorem add_answer_iff : ((ofEdits edits).add g).1 = true ↔ ¬ Present edits g.guid := by
  rw [← contains_ofEdits_iff, add]
  split <;> simp_all

theorem remove_answer_iff : ((ofEdits edits).remove g).1 = true ↔ Present edits g.guid := by
  rw [fst_remove, contains_ofEdits_iff]

/-- Of a present guid the one handler goes and all others stay, in order. -/
theorem exists_split_of_present (present : Present edits g.guid) :
    ∃ front h back, (ofEdits edits).handlers = front ++ h :: back ∧ h.guid = g.guid ∧
      ((ofEdits edits).remove g).2.handlers = front ++ back := by
  obtain ⟨h, hmem, hguid⟩ := contains_eq_true_iff.mp (contains_ofEdits_iff.mpr present)
  obtain ⟨front, back, hsplit⟩ := List.append_of_mem hmem
  have nodup := nodup_ofEdits edits
  rw [hsplit, List.map_append, List.map_cons, List.nodup_middle, List.nodup_cons] at nodup
  have others : ∀ y ∈ front ++ back, (y.guid != g.guid) = true := by
    intro y hy
    rw [bne_iff_ne, ← hguid]
    intro hsame
    refine nodup.1 ?_
    rw [← hsame, ← List.map_append]
    exact List.mem_map_of_mem hy
  refine ⟨front, h, back, hsplit, hguid, ?_⟩
  have gone : (h.guid != g.guid) = false := by simp [hguid]
  rw [remove, hsplit, List.filter_append, List.filter_cons_of_neg (by simp [gone]),
    ← List.filter_append, List.filter_eq_self.mpr others]

theorem remove_of_not_present (absent : ¬ Present edits g.guid) :
    ((ofEdits edits).remove g).2.handlers = (ofEdits edits).handlers := by
  refine List.filter_eq_self.mpr fun y hy => bne_iff_ne.mpr fun hsame => absent ?_
  exact contains_ofEdits_iff.mp (contains_eq_true_iff.mpr ⟨y, hy, hsame⟩)

open Invocation (invoke Admits Passes Runs Refuses)

/-- From `fr` to `left` the handlers are invoked one after the other, each of them once, with this
receiver and these arguments. All return, except that the last one may fail. -/
inductive Dispatch (run : Runner code σ) (receiver : Value) (args : List Value) :
    Frame code σ → List Handler → Except Fault Unit → Frame code σ → Prop
  | done {fr : Frame code σ} : Dispatch run receiver args fr [] (.ok ()) fr
  | returned {fr next left : Frame code σ} {h : Handler} {rest : List Handler} {v : Value}
      {result : Except Fault Unit}
      (invoked : invoke run h.function (some receiver) args fr = (.ok v, next))
      (more : Dispatch run receiver args next rest result left) :
      Dispatch run receiver args fr (h :: rest) result left
  | failed {fr left : Frame code σ} {h : Handler} {fault : Fault}
      (invoked : invoke run h.function (some receiver) args fr = (.error fault, left)) :
      Dispatch run receiver args fr [h] (.error fault) left

theorem exists_dispatch (run : Runner code σ) (receiver : Value) (args : List Value)
    (handlers : List Handler) (fr : Frame code σ) :
    ∃ invoked rest, handlers = invoked ++ rest ∧
      Dispatch run receiver args fr invoked (fireAll run receiver args handlers fr).1
        (fireAll run receiver args handlers fr).2 ∧
      ((fireAll run receiver args handlers fr).1 = .ok () → rest = []) := by
  induction handlers generalizing fr with
  | nil => exact ⟨[], [], rfl, .done, fun _ => rfl⟩
  | cons h handlers ih =>
    rw [fireAll]
    rcases hinvoke : invoke run h.function (some receiver) args fr with ⟨fault | v, next⟩
    · refine ⟨[h], handlers, rfl, .failed hinvoke, fun hok => ?_⟩
      cases hok
    · obtain ⟨invoked, rest, rfl, dispatch, whole⟩ := ih next
      exact ⟨h :: invoked, rest, rfl, .returned hinvoke dispatch, whole⟩

theorem restAfter_one (args : List Value) :
    Arguments.restAfter args 1 = Arguments.normalize args.tail := by
  rw [Arguments.restAfter, List.drop_one]

theorem normalize_normalize (args : List Value) :
    Arguments.normalize (Arguments.normalize args) = Arguments.normalize args := by
  refine (List.map_map ..).trans (List.map_congr_left fun v _ => ?_)
  cases v <;> rfl

theorem eq_normalize_of_passes {args passed : List Value} (h : Passes args passed) :
    passed = Arguments.normalize args := by
  induction h with
  | nil => rfl
  | @cons x y _ _ hxy _ ih =>
    rw [ih]
    obtain ⟨rfl, rfl⟩ | ⟨hx, rfl⟩ := hxy
    · rfl
    · cases y with
      | missing => exact absurd rfl hx
      | _ => rfl

/-- What is passed on is normalised already, and the handler gets it as it is. -/
theorem runs_forwarded {start : Frame code σ} (older : start.store.WrapsOlder) {id : EntityId}
    {receiver : Value} (admits : Admits start.store id (some receiver)) (args : List Value) :
    Runs (fun run => invoke run id (some receiver) (Arguments.normalize args) start) id
      (some receiver) args start := by
  obtain ⟨n, inner, own, f, passed, wraps, hf, hpassed, once⟩ :=
    Invocation.runs_invoke older admits (Arguments.normalize args)
  have hpassed : passed = Arguments.normalize args :=
    (eq_normalize_of_passes hpassed).trans (normalize_normalize args)
  exact ⟨n, inner, own, f, passed, wraps, hf, hpassed ▸ Invocation.passes_normalize args, once⟩

theorem get_zero (args : List Value) : Arguments.get args 0 = args.head?.getD .undefined := by
  rw [Arguments.get, List.head?_eq_getElem?]

/-- After any calls, no two handlers in the list share a guid. A handler is in the list exactly if
it was added while its guid was absent and no call has removed that guid since, and handlers stand
in the order of these calls. The next call adds a handler exactly if its guid is absent, and it
removes one exactly if the guid is present: then that one handler goes, whichever function the call
was given. A wrapper that is bound with a guid is such a function from then on.
Fired in any frame, the list invokes a part of its handlers from the front, each of them once, with
the first argument or `undefined` as receiver and the others as arguments. Only the last of them may
fail, and if it does not, all handlers were invoked. An invocation runs the function once, or is
refused and changes nothing. -/
theorem handlers_are_ordered_set (edits : List Edit) :
    ((ofEdits edits).handlers.map Handler.guid).Nodup ∧
    (∀ h, h ∈ (ofEdits edits).handlers ↔ ∃ i, Enters edits i h) ∧
    ((ofEdits edits).handlers.Pairwise fun a b =>
      ∀ i j, Enters edits i a → Enters edits j b → i < j) ∧
    (∀ g, ((ofEdits edits).add g).1 = true ↔ ¬ Present edits g.guid) ∧
    (∀ g, ((ofEdits edits).remove g).1 = true ↔ Present edits g.guid) ∧
    (∀ g, Present edits g.guid → ∃ front h back,
      (ofEdits edits).handlers = front ++ h :: back ∧ h.guid = g.guid ∧
      ((ofEdits edits).remove g).2.handlers = front ++ back) ∧
    (∀ g, ¬ Present edits g.guid →
      ((ofEdits edits).remove g).2.handlers = (ofEdits edits).handlers) ∧
    (∀ (s t : Store code) id r guid w steps, s.bind id r (some guid) = (.function w, t) →
      (Guardian.runEach t steps).handler? w = some ⟨w, guid⟩) ∧
    ∀ args, ∃ receiver passed, receiver = args.head?.getD .undefined ∧ Passes args.tail passed ∧
      (∀ (run : Runner code σ) fr, ∃ invoked rest,
        (ofEdits edits).handlers = invoked ++ rest ∧
        Dispatch run receiver passed fr invoked ((ofEdits edits).fire run args fr).1
          ((ofEdits edits).fire run args fr).2 ∧
        (((ofEdits edits).fire run args fr).1 = .ok () → rest = [])) ∧
      ∀ (start : Frame code σ) id, start.store.WrapsOlder →
        (Admits start.store id (some receiver) →
          Runs (fun run => invoke run id (some receiver) passed start) id (some receiver)
            args.tail start) ∧
        (¬ Admits start.store id (some receiver) → ∃ name,
          Refuses (fun run => invoke run id (some receiver) passed start) start
            (.notCallable name)) := by
  refine ⟨nodup_ofEdits edits, fun h => mem_ofEdits_iff, pairwise_ofEdits edits,
    fun g => add_answer_iff, fun g => remove_answer_iff, fun g => exists_split_of_present,
    fun g => remove_of_not_present, fun s t id r guid w steps made => ?_, fun args => ?_⟩
  · exact Guardian.handler?_runEach (Store.handler?_of_bind made) steps
  · refine ⟨_, Arguments.normalize args.tail, rfl, Invocation.passes_normalize args.tail,
      fun run fr => ?_, fun start id older => ⟨fun admits => ?_, fun denied => ?_⟩⟩
    · rw [fire, get_zero, restAfter_one]
      exact exists_dispatch run _ _ _ fr
    · exact runs_forwarded older admits args.tail
    · exact Invocation.exists_refuses_invoke denied _

/-- The store after the method was bound under its own guid. -/
def sharedGuid : Store Unit := (Invocation.callables.bind 0 (.string "first") (some 0)).2

theorem bind_sharedGuid :
    Invocation.callables.bind 0 (.string "first") (some 0) = (.function 6, sharedGuid) := rfl

/-- The wrapper is added twice: while the method is in the list, and after the method has been
removed by its wrapper. -/
def sharedEdits : List Edit :=
  [.add ⟨0, 0⟩, .add ⟨3, 3⟩, .add ⟨6, 0⟩, .add ⟨5, 5⟩, .remove ⟨6, 0⟩, .add ⟨6, 0⟩]

/-- Code that does nothing. -/
def idleCode : Runner Unit Unit := fun _ _ _ fr => (.ok .undefined, fr)

/-- The method removes its wrapper from the list. When the list fires, the first handler runs, the
constructor is refused, and the last handler is not reached, though it would run. -/
theorem handlers_are_ordered_set_of_sharedGuid :
    (Guardian.runEach sharedGuid [(.empty, .freeze 1)]).handler? 6 = some ⟨6, 0⟩ ∧
    (∃ front h back, [⟨3, 3⟩, ⟨5, 5⟩, ⟨6, 0⟩] = front ++ h :: back ∧ h.guid = 0 ∧
      ((ofEdits sharedEdits).remove ⟨0, 0⟩).2.handlers = front ++ back) ∧
    (∃ invoked rest, [⟨3, 3⟩, ⟨5, 5⟩, ⟨6, 0⟩] = invoked ++ rest ∧
      Dispatch idleCode (.object 1) [.undefined] (.ofStore sharedGuid) invoked
        (.error (.notCallable "Plain")) (.ofStore sharedGuid)) ∧
    Runs (fun run => invoke run 6 (some (.object 1)) [.undefined] (.ofStore sharedGuid)) 6
      (some (.object 1)) [.missing] (.ofStore sharedGuid) := by
  have older : (Frame.ofStore sharedGuid).store.WrapsOlder :=
    Invocation.callables_wrapsOlder.of_bind bind_sharedGuid
  have present : Present sharedEdits 0 :=
    ⟨[.add ⟨0, 0⟩, .add ⟨3, 3⟩, .add ⟨6, 0⟩, .add ⟨5, 5⟩, .remove ⟨6, 0⟩], ⟨6, 0⟩, [], rfl, rfl,
      by simp [Removes]⟩
  obtain ⟨-, -, -, -, -, removed, -, wrapper, fires⟩ :=
    @handlers_are_ordered_set Unit Unit sharedEdits
  obtain ⟨receiver, passed, rfl, hpassed, dispatched, runs⟩ := fires [.object 1, .missing]
  obtain rfl : passed = [.undefined] := eq_normalize_of_passes hpassed
  obtain ⟨invoked, rest, hsplit, dispatch, -⟩ := dispatched idleCode (.ofStore sharedGuid)
  exact ⟨wrapper _ _ _ _ _ _ [(.empty, .freeze 1)] bind_sharedGuid, removed ⟨0, 0⟩ present,
    ⟨invoked, rest, hsplit, dispatch⟩, (runs (.ofStore sharedGuid) 6 older).1 ⟨_, rfl, rfl⟩⟩

end HandlerList

end Confinement
