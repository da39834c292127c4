import Confinement.Guardian
import Confinement.Proofs.Store.Chain

/-!
# What running code leaves

Taming and running functions only add to the store, as long as the code that runs does. What taming
makes anew is none of the values that were there: a record or stand-in gets an identity that no
older value has. Running a function comes down to running the code under all its bound wrappers and
containing what that ends with, once. So whatever the code keeps, and the steps around it keep,
every kind of call keeps.
-/
namespace Confinement

variable {code σ : Type}

namespace Store

/-- A later store: whatever was there is unchanged, and no function that is new has anything to
run. -/
structure Adds (s t : Store code) : Prop where
  kept : ∀ id e, s.entity? id = some e → t.entity? id = some e
  idle : ∀ id f, t.function? id = some f → s.function? id = some f ∨ f.isPowerless = true

namespace Adds

variable {s t : Store code}

theorem refl (s : Store code) : s.Adds s := ⟨fun _ _ he => he, fun _ _ hf => .inl hf⟩

theorem trans {u : Store code} (h : s.Adds t) (h' : t.Adds u) : s.Adds u := by
  refine ⟨fun id e he => h'.kept id e (h.kept id e he), fun id f hf => ?_⟩
  rcases h'.idle id f hf with hold | hidle
  · exact h.idle id f hold
  · exact .inr hidle

theorem alloc (s : Store code) {e : Entity code}
    (hidle : ∀ f, e.nature = .function f → f.isPowerless = true) : s.Adds (s.alloc e).2 := by
  refine ⟨fun id e' he' => ?_, fun id f hf => ?_⟩
  · rw [s.entity?_alloc_of_lt e (lt_size_of_entity? he'), he']
  · have hid : id < s.size + 1 := s.size_alloc e ▸ lt_size_of_function? hf
    rcases Nat.lt_or_eq_of_le (Nat.le_of_lt_add_one hid) with hlt | rfl
    · refine .inl ?_
      rwa [function?, s.entity?_alloc_of_lt e hlt] at hf
    · refine .inr (hidle f ?_)
      have hself : (s.alloc e).2.entity? s.size = some e := s.entity?_alloc_self e
      rw [function?, hself] at hf
      split at hf
      · rename_i heq
        cases heq
        cases hf
        rfl
      · cases hf

theorem newObject (s : Store code) (origin : ObjectOrigin) (entries : List (String × Slot))
    (frozen tamed : Bool) : s.Adds (s.newObject origin entries frozen tamed).2 :=
  .alloc s fun _ h => nomatch h

theorem toExtends (h : s.Adds t) : s.Extends t := by
  have hentity {id : EntityId} (hid : id < s.size) : t.entity? id = s.entity? id := by
    have he : s.entity? id = some s.entities[id] := Array.getElem?_eq_getElem hid
    rw [he]
    exact h.kept id _ he
  refine ⟨?_, fun id hid => by simp only [origin?, hentity hid]⟩
  by_contra hlt
  have hlt : t.size < s.size := Nat.lt_of_not_le hlt
  have he : t.entity? t.size = some s.entities[t.size] :=
    (hentity hlt).trans (Array.getElem?_eq_getElem hlt)
  exact lt_irrefl _ (lt_size_of_entity? he)

end Adds

end Store

/-- Code that adds to the store at most and leaves the origins of objects alone. -/
def Runner.Grows (run : Runner code σ) : Prop :=
  ∀ c receiver args (fr : Frame code σ), fr.store.Extends (run c receiver args fr).2.store

namespace Taming

/-- A function that still has code of its own. -/
def isLive (s : Store code) : Value → Bool
  | .function id => ((s.function? id).map (!·.isPowerless)).getD false
  | _ => false

theorem tameThrown_of_isLive {s : Store code} {v : Value} (h : isLive s v = true) :
    (tameThrown s v).1 = .function s.size := by
  cases v with
  | function id =>
    cases hf : s.function? id with
    | none => simp [isLive, hf] at h
    | some f =>
      have hpower : f.isPowerless = false := by simpa [isLive, hf] using h
      simp only [tameThrown, hf, hpower, Bool.false_eq_true, if_false]
      rfl
  | _ => cases h

theorem tameThrown_of_not_isLive {s : Store code} {v : Value} (h : isLive s v = false) :
    tameThrown s v = (v, s) := by
  cases v with
  | function id =>
    cases hf : s.function? id with
    | none => simp only [tameThrown, hf]
    | some f =>
      have hpower : f.isPowerless = true := by simpa [isLive, hf] using h
      simp only [tameThrown, hf, hpower, if_true]
  | _ => rfl

theorem adds_tameThrown (s : Store code) (v : Value) : s.Adds (tameThrown s v).2 := by
  unfold tameThrown
  split
  · split
    · split
      · exact .refl s
      · refine .alloc s fun f h => ?_
        cases h
        rfl
    · exact .refl s
  · exact .refl s

theorem adds_tameFields (p : Policy) (s : Store code) (fields : List (String × Value)) :
    s.Adds (tameFields p s fields).2 := by
  induction fields generalizing s with
  | nil => exact .refl s
  | cons field rest ih =>
    rw [tameFields]
    split
    · exact (adds_tameThrown s field.2).trans (ih _)
    · exact ih s

/-- The record of a host exception is the one it has, or one that is made now. -/
theorem tameHost_cases (p : Policy) (v : Vault code) (ex : HostException) :
    (∃ record, v.record? ex = some record ∧ tameHost p v ex = (record, v)) ∨
    (v.record? ex = none ∧ ∃ j, v.store.size ≤ j ∧ (tameHost p v ex).1 = .object j ∧
      v.store.Adds (tameHost p v ex).2.store) := by
  unfold tameHost
  cases v.record? ex with
  | some record => exact .inl ⟨record, rfl, rfl⟩
  | none =>
    have hfields := adds_tameFields p v.store ex.fields.entries
    exact .inr ⟨rfl, _, hfields.toExtends.size_le, rfl, hfields.trans (.newObject _ _ _ _ _)⟩

theorem adds_tame (p : Policy) (v : Vault code) (fault : Fault) :
    v.store.Adds (tame p v fault).2.store := by
  cases fault with
  | thrown x => exact adds_tameThrown v.store x
  | host ex =>
    rcases tameHost_cases p v ex with ⟨record, -, h⟩ | ⟨-, -, -, -, h⟩
    · rw [tame, h]
      exact .refl _
    · exact h
  | _ => exact .newObject v.store _ _ _ _

end Taming

theorem Frame.adds_tame (fr : Frame code σ) (fault : Fault) :
    fr.store.Adds (fr.tame fault).2.store :=
  Taming.adds_tame fr.context.loader.policy fr.world.vault fault

/-- Whatever a guarded block leaves, and taming keeps, is there after the fault has been caught. -/
theorem catchGuest_invariant {P : Frame code σ → Prop}
    (tame : ∀ left fault, P left → P (left.tame fault).2) {block : Run code σ Value}
    {fr : Frame code σ} (ran : P (block fr).2) : P (catchGuest block fr).2 := by
  unfold catchGuest
  rcases hblock : block fr with ⟨fault | v, left⟩
  · rw [hblock] at ran
    dsimp only
    split
    · exact tame left fault ran
    · exact ran
  · rwa [hblock] at ran

namespace Invocation

/-- How the checks before a method call fail. -/
theorem methodOf_eq_error {r : Registry} {s : Store code} {v : Value} {m : String} {fault : Fault}
    (h : methodOf r s v m = .error fault) : fault = .notAnObject m v.typeName ∨
      fault = .capabilityDenied .call m ∨ fault = .notCallable m := by
  unfold methodOf Access.require at h
  cases hobject : Access.requireObject v m with
  | error fault' =>
    rw [hobject] at h
    obtain rfl : fault' = fault := Except.error.inj h
    refine .inl ?_
    cases v <;> cases hobject <;> rfl
  | ok _ =>
    rw [hobject] at h
    cases hcheck : r.check s v m .call with
    | false =>
      rw [hcheck] at h
      cases h
      exact .inr (.inl rfl)
    | true =>
      rw [hcheck] at h
      refine .inr (.inr ?_)
      cases hlookup : Access.lookup? s v m with
      | none =>
        rw [hlookup] at h
        cases h
        rfl
      | some y =>
        rw [hlookup] at h
        cases y <;> cases h
        all_goals rfl

/-- How the checks before a construction fail. -/
theorem constructorOf_eq_error {r : Registry} {s : Store code} {ctor : Value} {fault : Fault}
    (h : constructorOf r s ctor = .error fault) : (∃ name, fault = .notConstructor name) ∨
      fault = .capabilityDenied .construct constructorMember := by
  unfold constructorOf at h
  split at h
  · split at h
    · cases h
      exact .inl ⟨_, rfl⟩
    · split at h
      · split at h
        · cases h
        · cases h
          exact .inr rfl
      · cases h
        exact .inl ⟨_, rfl⟩
  · cases h
    exact .inl ⟨_, rfl⟩

/-- Runs the code under all bound wrappers and lets out whatever it ends with. -/
def bareWithin (run : Runner code σ) :
    Nat → EntityId → Option Value → List Value → Run code σ Value
  | 0, _, _, _, fr => (.error (.notCallable "function"), fr)
  | fuel + 1, id, receiver, args, fr =>
    match fr.store.function? id with
    | none => (.error (.notCallable "function"), fr)
    | some f =>
      match f.body with
      | .native c | .closure c => run c receiver args fr
      | .standIn text => (.ok (.string text), fr)
      | .bound target bound => bareWithin run fuel target (some bound) args fr

/-- The host's, if the function or one that it wraps is a host function. -/
def guardOrigin (s : Store code) : Nat → EntityId → FunctionOrigin
  | 0, _ => .guest
  | fuel + 1, id =>
    match s.function? id with
    | none => .guest
    | some f =>
      match f.origin, f.body with
      | .host, _ => .host
      | .guest, .bound target _ => guardOrigin s fuel target
      | .guest, _ => .guest

theorem contain_of_ne {result : Except Fault Value} (h : ∀ ex, result ≠ .error (.host ex))
    (origin : FunctionOrigin) (fr : Frame code σ) : contain origin result fr = (result, fr) := by
  unfold contain
  split
  · exact absurd rfl (h _)
  · rfl

theorem contain_host_ne (result : Except Fault Value) (fr : Frame code σ) (ex : HostException) :
    (contain .host result fr).1 ≠ .error (.host ex) := by
  rcases result with fault | v
  · cases fault <;> exact fun h => nomatch h
  · exact fun h => nomatch h

/-- Containing a result for the host again changes nothing. -/
theorem contain_host_contain (origin : FunctionOrigin) (result : Except Fault Value)
    (fr : Frame code σ) :
    contain .host (contain origin result fr).1 (contain origin result fr).2 =
      contain .host result fr := by
  cases origin with
  | guest => rfl
  | host => exact contain_of_ne (contain_host_ne result fr) .host _

/-- However many wrappers there are, a result is contained once. -/
theorem runWithin_eq (run : Runner code σ) (n : Nat) (id : EntityId) (receiver : Option Value)
    (args : List Value) (fr : Frame code σ) :
    runWithin run n id receiver args fr =
      contain (guardOrigin fr.store n id) (bareWithin run n id receiver args fr).1
        (bareWithin run n id receiver args fr).2 := by
  induction n generalizing id receiver with
  | zero => rfl
  | succ n ih =>
    rw [runWithin, guardOrigin, bareWithin]
    cases fr.store.function? id with
    | none => rfl
    | some f =>
      dsimp only
      cases f.body with
      | native c => cases f.origin <;> rfl
      | closure c => cases f.origin <;> rfl
      | standIn text => cases f.origin <;> rfl
      | bound target bound =>
        simp only [ih]
        cases f.origin with
        | guest => rfl
        | host => exact contain_host_contain _ _ _

end Invocation

/-- A relation between a frame and a later one that code keeps, together with all that happens
around it in a call. -/
structure Runner.Respects (run : Runner code σ) (R : Frame code σ → Frame code σ → Prop) :
    Prop where
  refl : ∀ fr, R fr fr
  trans : ∀ {fr₁ fr₂ fr₃}, R fr₁ fr₂ → R fr₂ fr₃ → R fr₁ fr₃
  tame : ∀ fr fault, R fr (fr.tame fault).2
  create : ∀ fr cls, R fr (fr.withStore (Invocation.newInstance fr.store cls).2)
  code : ∀ c receiver args fr, R fr (run c receiver args fr).2

namespace Runner.Respects

open Invocation

variable {run : Runner code σ} {R : Frame code σ → Frame code σ → Prop} (h : run.Respects R)

include h

theorem contain (origin : FunctionOrigin) (result : Except Fault Value) (fr : Frame code σ) :
    R fr (contain origin result fr).2 := by
  unfold Invocation.contain
  split
  · rename_i ex
    exact h.tame fr (.host ex)
  · exact h.refl fr

theorem bareWithin (n : Nat) (id : EntityId) (receiver : Option Value) (args : List Value)
    (fr : Frame code σ) : R fr (bareWithin run n id receiver args fr).2 := by
  induction n generalizing id receiver with
  | zero => exact h.refl fr
  | succ n ih =>
    rw [Invocation.bareWithin]
    cases fr.store.function? id with
    | none => exact h.refl fr
    | some f =>
      dsimp only
      cases f.body with
      | native c => exact h.code c receiver args fr
      | closure c => exact h.code c receiver args fr
      | standIn text => exact h.refl fr
      | bound target bound => exact ih target (some bound)

theorem runFunction (id : EntityId) (receiver : Option Value) (args : List Value)
    (fr : Frame code σ) : R fr (runFunction run id receiver args fr).2 := by
  rw [Invocation.runFunction, runWithin_eq]
  exact h.trans (h.bareWithin _ id receiver args fr) (h.contain _ _ _)

theorem invoke (id : EntityId) (receiver : Option Value) (args : List Value) (fr : Frame code σ) :
    R fr (invoke run id receiver args fr).2 := by
  unfold Invocation.invoke
  split
  · exact h.refl fr
  · split
    · exact h.runFunction id receiver _ fr
    · exact h.refl fr

theorem callFunction (callee : Value) (args : List Value) (fr : Frame code σ) :
    R fr (callFunction run callee args fr).2 := by
  unfold Invocation.callFunction
  split
  · exact h.invoke _ none args fr
  · exact h.refl fr

theorem callMethod (v : Value) (m : String) (args : List Value) (fr : Frame code σ) :
    R fr (callMethod run v m args fr).2 := by
  unfold Invocation.callMethod
  cases methodOf fr.registry fr.store v m with
  | error fault => exact h.refl fr
  | ok id =>
    have called := h.invoke id (some (fr.store.resolve v)) args fr
    dsimp only
    rcases hinvoke : Invocation.invoke run id (some (fr.store.resolve v)) args fr with
      ⟨fault | y, left⟩
    · rwa [hinvoke] at called
    · rwa [hinvoke] at called

theorem construct (ctor : Value) (args : List Value) (fr : Frame code σ) :
    R fr (construct run ctor args fr).2 := by
  unfold Invocation.construct
  cases constructorOf fr.registry fr.store ctor with
  | error fault => exact h.refl fr
  | ok found =>
    obtain ⟨id, cls⟩ := found
    have called := h.trans (h.create fr cls) (h.runFunction (fr.store.unbound id)
      (some (newInstance fr.store cls).1) (Arguments.normalize args) _)
    dsimp only
    rcases hrun : Invocation.runFunction run (fr.store.unbound id)
      (some (newInstance fr.store cls).1) (Arguments.normalize args)
      (fr.withStore (newInstance fr.store cls).2) with ⟨fault | y, left⟩
    · rwa [hrun] at called
    · rwa [hrun] at called

theorem fireAll (receiver : Value) (args : List Value) (handlers : List Handler)
    (fr : Frame code σ) : R fr (HandlerList.fireAll run receiver args handlers fr).2 := by
  induction handlers generalizing fr with
  | nil => exact h.refl fr
  | cons first rest ih =>
    have called := h.invoke first.function (some receiver) args fr
    rw [HandlerList.fireAll]
    rcases hinvoke : Invocation.invoke run first.function (some receiver) args fr with
      ⟨fault | y, left⟩
    · rwa [hinvoke] at called
    · rw [hinvoke] at called
      exact h.trans called (ih left)

end Runner.Respects

theorem Invocation.adds_newInstance (s : Store code) (cls : Option String) :
    s.Adds (newInstance s cls).2 := by
  cases cls with
  | none => exact .newObject s _ _ _ _
  | some cls => exact .newObject s _ _ _ _

theorem Runner.Grows.respects {run : Runner code σ} (grows : run.Grows) :
    run.Respects fun fr fr' => fr.store.Extends fr'.store where
  refl fr := .refl fr.store
  trans := .trans
  tame fr fault := (fr.adds_tame fault).toExtends
  create fr cls := (Invocation.adds_newInstance fr.store cls).toExtends
  code := grows

namespace Invocation

variable {run : Runner code σ} (grows : run.Grows)

include grows

theorem extends_bareWithin (n : Nat) (id : EntityId) (receiver : Option Value) (args : List Value)
    (fr : Frame code σ) : fr.store.Extends (bareWithin run n id receiver args fr).2.store :=
  grows.respects.bareWithin n id receiver args fr

theorem extends_invoke (id : EntityId) (receiver : Option Value) (args : List Value)
    (fr : Frame code σ) : fr.store.Extends (invoke run id receiver args fr).2.store :=
  grows.respects.invoke id receiver args fr

theorem extends_callMethod (v : Value) (m : String) (args : List Value) (fr : Frame code σ) :
    fr.store.Extends (callMethod run v m args fr).2.store :=
  grows.respects.callMethod v m args fr

end Invocation

/-- The frame of a module that runs on this store without any explicit grant. -/
def Frame.ofStore (s : Store Unit) : Frame Unit Unit where
  context :=
    { moduleId := "main"
      loader := { registry := .empty, report := fun _ _ _ world => world }
      scope := 0
      sandbox := .new ⟨Emission.defaultStem, .ofIndex 0⟩ }
  world := { vault := { store := s }, state := () }

end Confinement
