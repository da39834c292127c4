import Confinement.Proofs.Invocation.Check
import Confinement.Proofs.Registry.Precedence

/-!
# Bound receivers

Binding makes a wrapper that runs a function with one receiver for good, and a wrapper may be bound
again. Whichever way the outermost wrapper is called, the receiver that was bound first is the one
that the function gets, and the wrappers add nothing to what it ends with: each has the origin of
what it wraps, so a fault is contained once. Constructors stay constructors under their wrappers,
and their instances are the only receivers that they get.
-/
namespace Confinement

variable {code σ : Type}

/-- What becomes of the kind of a function when it is bound. -/
def FunctionKind.whenBound : FunctionKind → FunctionKind
  | .method => .simple
  | k => k

theorem FunctionKind.whenBound_whenBound (k : FunctionKind) :
    k.whenBound.whenBound = k.whenBound := by
  cases k <;> rfl

namespace FunctionRecord

/-- `g` is a wrapper of the function `f` with the identity `target`. -/
structure Binds (g f : FunctionRecord code) (target : EntityId) (r : Value) : Prop where
  kind : g.kind = f.kind.whenBound
  origin : g.origin = f.origin
  body : g.body = .bound target r

/-- The two differ at most in name and guid. -/
structure Alike (f g : FunctionRecord code) : Prop where
  kind : g.kind = f.kind
  origin : g.origin = f.origin
  body : g.body = f.body

variable {f f' g g' : FunctionRecord code} {target : EntityId} {r : Value}

theorem Binds.congr (h : g.Binds f target r) (hg : g.Alike g') (hf : f.Alike f') :
    g'.Binds f' target r where
  kind := by rw [hg.kind, h.kind, hf.kind]
  origin := by rw [hg.origin, h.origin, hf.origin]
  body := hg.body.trans h.body

end FunctionRecord

namespace Store

/-- A later store: every function is there and does what it did. -/
def KeepsFunctions (s t : Store code) : Prop :=
  ∀ id f, s.function? id = some f → ∃ g, t.function? id = some g ∧ f.Alike g

/-- In the course of time the function `id` has been bound, the wrapper bound again and so on, to
these receivers one after the other. The last wrapper is `w`. -/
inductive Nesting (id : EntityId) : Store code → List Value → EntityId → Prop
  | bare {s : Store code} {f : FunctionRecord code} (hf : s.function? id = some f) :
      Nesting id s [] id
  | bind {s t : Store code} {rs : List Value} {w w' : EntityId} {r : Value}
      {guid : Option EntityId} (below : Nesting id s rs w)
      (made : s.bind w r guid = (.function w', t)) : Nesting id t (rs ++ [r]) w'
  | later {s t : Store code} {rs : List Value} {w : EntityId} (before : Nesting id s rs w)
      (kept : s.KeepsFunctions t) : Nesting id t rs w

/-- In this store, `w` is the function `id` under wrappers with these receivers, innermost first. -/
inductive Nests (s : Store code) (id : EntityId) : List Value → EntityId → Prop
  | bare {f : FunctionRecord code} (hf : s.function? id = some f) : Nests s id [] id
  | bound {rs : List Value} {target w : EntityId} {r : Value} {f g : FunctionRecord code}
      (below : Nests s id rs target) (ht : s.function? target = some f)
      (hw : s.function? w = some g) (binds : g.Binds f target r) : Nests s id (rs ++ [r]) w

variable {s t : Store code} {id w w' : EntityId} {rs : List Value} {r : Value}
  {f : FunctionRecord code} {guid : Option EntityId}

theorem Nests.of_keepsFunctions (nests : s.Nests id rs w) (kept : s.KeepsFunctions t) :
    t.Nests id rs w := by
  induction nests with
  | bare hf =>
    obtain ⟨g, hg, -⟩ := kept _ _ hf
    exact .bare hg
  | bound below ht hw binds ih =>
    obtain ⟨f', hf', alike⟩ := kept _ _ ht
    obtain ⟨g', hg', alike'⟩ := kept _ _ hw
    exact .bound ih hf' hg' (binds.congr alike' alike)

theorem keepsFunctions_alloc (s : Store code) (e : Entity code) :
    s.KeepsFunctions (s.alloc e).2 := by
  intro id f hf
  have hlt : id < s.size := lt_size_of_function? hf
  refine ⟨f, ?_, rfl, rfl, rfl⟩
  rwa [function?, s.entity?_alloc_of_lt e hlt]

theorem function?_alloc_self (s : Store code) (f : FunctionRecord code) (p : Table Slot)
    (frozen : Bool) : (s.alloc ⟨.function f, p, frozen⟩).2.function? s.size = some f := by
  have hself : (s.alloc ⟨.function f, p, frozen⟩).2.entity? s.size =
      some ⟨.function f, p, frozen⟩ := s.entity?_alloc_self _
  rw [function?, hself]

theorem keepsFunctions_of_sameNatures (natures : s.SameNatures t) : s.KeepsFunctions t := by
  intro id f hf
  exact ⟨f, (natures.function? id).symm.trans hf, rfl, rfl, rfl⟩

/-- What binding makes. -/
theorem exists_of_bind (made : s.bind w r guid = (.function w', t)) :
    ∃ f g, s.function? w = some f ∧ w' = s.size ∧
      t = (s.alloc ⟨.function g, .empty, true⟩).2 ∧ g.Binds f w r := by
  unfold bind at made
  cases hf : s.function? w with
  | none => simp [hf] at made
  | some f =>
    rw [hf] at made
    cases made
    refine ⟨f, _, rfl, rfl, rfl, ?_, rfl, rfl⟩
    cases f.kind <;> rfl

theorem WrapsOlder.of_sameNatures (older : s.WrapsOlder) (natures : s.SameNatures t) :
    t.WrapsOlder := by
  intro id f target r hf hbody
  rw [← natures.function?] at hf ⊢
  exact older id f target r hf hbody

/-- A wrapper is younger than what it wraps. -/
theorem WrapsOlder.of_bind (older : s.WrapsOlder) (made : s.bind w r guid = (.function w', t)) :
    t.WrapsOlder := by
  obtain ⟨f, g, hf, -, rfl, binds⟩ := exists_of_bind made
  have hwrapped : w < s.size := lt_size_of_function? hf
  have keeps := s.keepsFunctions_alloc ⟨.function g, .empty, true⟩
  intro id f' target r' hf' hbody
  have hid : id < s.size + 1 := s.size_alloc _ ▸ lt_size_of_function? hf'
  rcases Nat.lt_or_eq_of_le (Nat.le_of_lt_add_one hid) with hlt | rfl
  · rw [function?, s.entity?_alloc_of_lt _ hlt] at hf'
    obtain ⟨hltid, h, hh⟩ := older id f' target r' hf' hbody
    obtain ⟨h', hh', -⟩ := keeps target h hh
    exact ⟨hltid, h', hh'⟩
  · rw [s.function?_alloc_self] at hf'
    cases hf'
    rw [binds.body] at hbody
    cases hbody
    obtain ⟨h', hh', -⟩ := keeps w f hf
    exact ⟨hwrapped, h', hh'⟩

theorem Nesting.nests (nesting : Nesting id s rs w) : s.Nests id rs w := by
  induction nesting with
  | bare hf => exact .bare hf
  | @bind s t rs w w' r guid _ made ih =>
    obtain ⟨f, g, hf, rfl, rfl, binds⟩ := exists_of_bind made
    have kept := s.keepsFunctions_alloc ⟨.function g, .empty, true⟩
    obtain ⟨f', hf', alike⟩ := kept _ _ hf
    exact .bound (ih.of_keepsFunctions kept) hf' (s.function?_alloc_self _ _ _)
      (binds.congr ⟨rfl, rfl, rfl⟩ alike)
  | later _ kept ih => exact ih.of_keepsFunctions kept

theorem Nests.whenBound_kind (nests : s.Nests id rs w) (hf : s.function? id = some f) :
    ∃ g, s.function? w = some g ∧ g.kind.whenBound = f.kind.whenBound := by
  induction nests with
  | bare => exact ⟨f, hf, rfl⟩
  | bound _ ht hw binds ih =>
    obtain ⟨f', hf', hkind⟩ := ih
    obtain rfl := Option.some.inj (ht.symm.trans hf')
    refine ⟨_, hw, ?_⟩
    rw [binds.kind, FunctionKind.whenBound_whenBound, hkind]

/-- All wrappers have the kind that one of them would have. -/
theorem Nests.kind (nests : s.Nests id rs w) (wrapped : rs ≠ []) (hf : s.function? id = some f) :
    ∃ g, s.function? w = some g ∧ g.kind = f.kind.whenBound := by
  cases nests with
  | bare => exact absurd rfl wrapped
  | bound below ht hw binds =>
    obtain ⟨f', hf', hkind⟩ := below.whenBound_kind hf
    obtain rfl := Option.some.inj (ht.symm.trans hf')
    exact ⟨_, hw, binds.kind.trans hkind⟩

/-- Under its wrappers there is what is under the function itself. -/
theorem Nests.unbound_eq (nests : s.Nests id rs w) (older : s.WrapsOlder) :
    s.unbound w = s.unbound id := by
  induction nests with
  | bare => rfl
  | @bound rs target w r f g below ht hw binds ih =>
    obtain ⟨n, inner, own, wraps⟩ := older.exists_wraps ht (some r)
    have outer : s.Wraps (n + 1) w none inner own := .bound hw (by rw [binds.body]; rfl) wraps
    rw [← ih, outer.unbound_eq, wraps.unbound_eq]

end Store

namespace Invocation

variable {run : Runner code σ} {fr : Frame code σ} {n : Nat} {id inner target w : EntityId}
  {receiver own : Option Value} {f g : FunctionRecord code} {r : Value} {rs : List Value}

theorem contain_contain (origin : FunctionOrigin) (result : Except Fault Value)
    (left : Frame code σ) :
    contain origin (contain origin result left).1 (contain origin result left).2 =
      contain origin result left := by
  cases origin with
  | guest => rfl
  | host => exact contain_host_contain .host result left

theorem runWithin_bound (hf : fr.store.function? id = some f) (hbody : f.body = .bound target r)
    (k : Nat) (args : List Value) : runWithin run (k + 1) id receiver args fr =
      contain f.origin (runWithin run k target (some r) args fr).1
        (runWithin run k target (some r) args fr).2 := by
  simp only [runWithin, hf, hbody]

/-- What comes out of a function has been contained for its origin. -/
theorem contain_runWithin (hf : fr.store.function? id = some f) (k : Nat) (args : List Value) :
    contain f.origin (runWithin run (k + 1) id receiver args fr).1
        (runWithin run (k + 1) id receiver args fr).2 =
      runWithin run (k + 1) id receiver args fr := by
  simp only [runWithin, hf]
  exact contain_contain _ _ _

/-- One unit of fuel for each wrapper and one for the function is all that running takes. -/
theorem runWithin_eq_of_wraps (wraps : fr.store.Wraps n id receiver inner own) {fuel : Nat}
    (hfuel : n < fuel) (args : List Value) :
    runWithin run fuel id receiver args fr = runWithin run (n + 1) id receiver args fr := by
  induction wraps generalizing fuel with
  | @bare id receiver f hf hbody =>
    obtain ⟨k, rfl⟩ := Nat.exists_eq_add_of_lt hfuel
    simp only [runWithin, hf]
    cases hcode : f.body with
    | bound target r =>
      rw [hcode] at hbody
      cases hbody
    | _ => rfl
  | bound hf hbody _ ih =>
    obtain ⟨k, rfl⟩ := Nat.exists_eq_add_of_lt hfuel
    have hwrapper := FunctionBody.eq_bound_of_bound? hbody
    rw [runWithin_bound hf hwrapper, runWithin_bound hf hwrapper, ih (by omega)]

/-- A wrapper does nothing but to replace the receiver. -/
theorem runFunction_of_binds (wraps : fr.store.Wraps n target (some r) inner own)
    (ht : fr.store.function? target = some f) (hw : fr.store.function? w = some g)
    (binds : g.Binds f target r) (args : List Value) :
    runFunction run w receiver args fr = runFunction run target (some r) args fr := by
  have outer : fr.store.Wraps (n + 1) w receiver inner own :=
    .bound hw (by rw [binds.body]; rfl) wraps
  rw [runFunction, runFunction, runWithin_eq_of_wraps outer outer.count_lt_size,
    runWithin_eq_of_wraps wraps wraps.count_lt_size, runWithin_bound hw binds.body, binds.origin,
    contain_runWithin ht]

/-- Of all receivers, the one that was bound first is left. -/
theorem runFunction_of_nests (nests : fr.store.Nests id rs w) (older : fr.store.WrapsOlder)
    (receiver : Option Value) (args : List Value) :
    runFunction run w receiver args fr = runFunction run id (rs.head?.or receiver) args fr := by
  induction nests generalizing receiver with
  | bare => rfl
  | @bound rs target w r f g _ ht hw binds ih =>
    -- `receiver` goes no further than the outermost wrapper, whose own takes its place
    obtain ⟨n, inner, own, wraps⟩ := older.exists_wraps ht (some r)
    have hfirst : (rs ++ [r]).head?.or receiver = rs.head?.or (some r) := by
      cases rs <;> rfl
    rw [runFunction_of_binds wraps ht hw binds, ih (some r), hfirst]

section Nested

variable {first : Value} {args : List Value} {v : Value} {m : String}

/-- Once bound, a function that is no constructor may be called in any way. -/
theorem admits_of_nests (nests : fr.store.Nests id (first :: rs) w)
    (hf : fr.store.function? id = some f) (hkind : ∀ cls, f.kind ≠ .constructor cls)
    (receiver : Option Value) : Admits fr.store w receiver := by
  obtain ⟨g, hg, hsimple⟩ := nests.kind (List.cons_ne_nil _ _) hf
  refine ⟨g, hg, ?_⟩
  rw [hsimple]
  cases hcases : f.kind with
  | constructor cls => exact absurd hcases (hkind cls)
  | simple => rfl
  | method => rfl

theorem invoke_of_nests (nests : fr.store.Nests id (first :: rs) w) (older : fr.store.WrapsOlder)
    (hf : fr.store.function? id = some f) (hkind : ∀ cls, f.kind ≠ .constructor cls)
    (run : Runner code σ) (receiver : Option Value) (args : List Value) :
    invoke run w receiver args fr = invoke run id (some first) args fr := by
  rw [invoke_of_admits (admits_of_nests nests hf hkind receiver),
    invoke_of_admits (admits_some_iff.mpr ⟨f, hf, hkind⟩), runFunction_of_nests nests older]
  rfl

theorem not_admits_of_nests (nests : fr.store.Nests id (first :: rs) w)
    (hf : fr.store.function? id = some f) {cls : Option String} (hkind : f.kind = .constructor cls)
    (receiver : Option Value) : ¬ Admits fr.store w receiver := by
  obtain ⟨g, hg, hsame⟩ := nests.kind (List.cons_ne_nil _ _) hf
  rw [hkind] at hsame
  rintro ⟨g', hg', hcall⟩
  obtain rfl := Option.some.inj (hg.symm.trans hg')
  rw [hsame] at hcall
  cases hcall

theorem not_isNothing_of_lookup? {s : Store code} {x : Value}
    (h : Access.lookup? s v m = some x) : ¬ IsNothing v := by
  have nothing (u : Value) (hu : s.view? u = none) (hid : u.id? = none) :
      Access.lookup? s u m = none := by
    simp [Access.lookup?, Store.resolve_of_view?_eq_none hu, Store.entityOf?, hid]
  rintro (rfl | rfl | rfl)
  all_goals
    rw [nothing _ rfl rfl] at h
    cases h

/-- Called on what is no view, a method returns what its function returns. -/
theorem callMethod_eq_invoke (grows : run.Grows) (hview : fr.store.view? v = none)
    (found : methodOf fr.registry fr.store v m = .ok id) (args : List Value) :
    callMethod run v m args fr = invoke run id (some (fr.store.resolve v)) args fr := by
  have hlookup := (methodOf_eq_ok_iff.mp found).2.2
  have hv : ∀ j ∈ v.id?, j < fr.store.size := by
    intro j hj
    rw [Access.lookup?, Store.resolve_of_view?_eq_none hview] at hlookup
    obtain ⟨e, he, -⟩ := Option.bind_eq_some_iff.mp hlookup
    rw [Store.entityOf?, hj, Option.bind_some] at he
    exact Store.lt_size_of_entity? he
  rw [callMethod_of_methodOf found]
  have kept : (invoke run id (some (fr.store.resolve v)) args fr).2.store.view? v = none :=
    ((extends_invoke grows id _ args fr).view?_eq hv).trans hview
  rcases hinvoke : invoke run id (some (fr.store.resolve v)) args fr with ⟨fault | y, left⟩
  · rfl
  · rw [hinvoke] at kept
    simp only [handOut, Access.rewrap, kept, Except.map]

/-- A new instance is none of the values that were there. -/
theorem newInstance_ne_of_holds {s : Store code} (held : s.Holds r) (cls : Option String) :
    (newInstance s cls).1 ≠ r := by
  have hmade : (newInstance s cls).1 = .object s.size := by cases cls <;> rfl
  rintro rfl
  rw [hmade] at held
  exact lt_irrefl _ (held.lt_size s.size rfl)

/-- Construction through the wrappers of a constructor runs the body at the bottom on the new
instance. -/
theorem exists_runsOnce_construct (nests : fr.store.Nests id (first :: rs) w)
    (older : fr.store.WrapsOlder) (hf : fr.store.function? id = some f) {cls : Option String}
    (hkind : f.kind = .constructor cls)
    (permitted : mayConstruct fr.registry fr.store (.function w) cls = true) (args : List Value) :
    ∃ g passed, fr.store.function? (fr.store.unbound id) = some g ∧ g.body.bound? = none ∧
      (f.body.bound? = none → g = f) ∧ Passes args passed ∧
      RunsOnce (fun run => construct run (.function w) args fr) g.body
        (some (newInstance fr.store cls).1) passed
        (fr.withStore (newInstance fr.store cls).2) := by
  obtain ⟨wrapper, hw, hsame⟩ := nests.kind (List.cons_ne_nil _ _) hf
  obtain ⟨n, inner, own, wraps⟩ := older.exists_wraps hw none
  obtain ⟨g, hg, hbody⟩ := wraps.exists_bare
  have hunder : fr.store.function? (fr.store.unbound id) = some g := by
    rw [← nests.unbound_eq older, wraps.unbound_eq, hg]
  have is : IsConstructor fr.store (.function w) w cls :=
    ⟨rfl, wrapper, hw, by rw [hsame, hkind]; rfl⟩
  refine ⟨g, _, hunder, hbody, fun hown => ?_, passes_normalize args,
    runsOnce_construct is permitted wraps hg hbody args⟩
  have bare : fr.store.Wraps 0 id none id none := .bare hf hown
  rw [bare.unbound_eq, hf] at hunder
  exact (Option.some.inj hunder).symm

end Nested

/-- A function has been bound, once or several times over. If it is no constructor, then the last
wrapper, called in any way, runs the function once with the receiver bound first, and returns what
the function returns for that receiver; through a method call it does so as long as the code turns
no object into a view. The wrappers of a constructor refuse every call, and a permitted construction
runs the body with the new instance as receiver, which is none of the values that were bound. -/
theorem first_bound_receiver_wins {fr : Frame code σ} (older : fr.store.WrapsOlder)
    {id w : EntityId} {f : FunctionRecord code} (hf : fr.store.function? id = some f)
    {first : Value} {rs : List Value} (nesting : Store.Nesting id fr.store (first :: rs) w)
    (args : List Value) :
    ((∀ cls, f.kind ≠ .constructor cls) →
      (Runs (fun run => callFunction run (.function w) args fr) id (some first) args fr ∧
        ∀ run, callFunction run (.function w) args fr = invoke run id (some first) args fr) ∧
      (∀ receiver, Runs (fun run => invoke run w receiver args fr) id (some first) args fr ∧
        ∀ run, invoke run w receiver args fr = invoke run id (some first) args fr) ∧
      ∀ v m, fr.store.view? v = none → Access.lookup? fr.store v m = some (.function w) →
        fr.registry.check fr.store v m .call = true →
        Runs (fun run => callMethod run v m args fr) id (some first) args fr ∧
        ∀ run : Runner code σ, run.Grows →
          callMethod run v m args fr = invoke run id (some first) args fr) ∧
    ∀ cls, f.kind = .constructor cls →
      (∃ name, Refuses (fun run => callFunction run (.function w) args fr) fr
        (.notCallable name)) ∧
      (∀ receiver, ∃ name, Refuses (fun run => invoke run w receiver args fr) fr
        (.notCallable name)) ∧
      (∀ v m, Access.lookup? fr.store v m = some (.function w) →
        fr.registry.check fr.store v m .call = true →
        ∃ name, Refuses (fun run => callMethod run v m args fr) fr (.notCallable name)) ∧
      (mayConstruct fr.registry fr.store (.function w) cls = true →
        ∃ g passed, fr.store.function? (fr.store.unbound id) = some g ∧
          g.body.bound? = none ∧ (f.body.bound? = none → g = f) ∧ Passes args passed ∧
          RunsOnce (fun run => construct run (.function w) args fr) g.body
            (some (newInstance fr.store cls).1) passed
            (fr.withStore (newInstance fr.store cls).2)) ∧
      ∀ r ∈ first :: rs, fr.store.Holds r → (newInstance fr.store cls).1 ≠ r := by
  have nests := nesting.nests
  refine ⟨fun hkind => ?_, fun cls hkind => ?_⟩
  · have runs : Runs (fun run => invoke run id (some first) args fr) id (some first) args fr :=
      runs_invoke older (admits_some_iff.mpr ⟨f, hf, hkind⟩) args
    have same := invoke_of_nests nests older hf hkind
    refine ⟨⟨?_, fun run => same run none args⟩, fun receiver => ⟨?_, fun run => same run _ args⟩,
      fun v m hview hlookup granted => ⟨?_, fun run grows => ?_⟩⟩
    · simpa only [callFunction, same] using runs
    · simpa only [same] using runs
    · have found := methodOf_eq_ok_iff.mpr ⟨not_isNothing_of_lookup? hlookup, granted, hlookup⟩
      simp only [callMethod_of_methodOf found, same]
      exact runs.handOut _
    · have found := methodOf_eq_ok_iff.mpr ⟨not_isNothing_of_lookup? hlookup, granted, hlookup⟩
      rw [callMethod_eq_invoke grows hview found, same]
  · have refuses (receiver : Option Value) :
        ∃ name, Refuses (fun run => invoke run w receiver args fr) fr (.notCallable name) :=
      exists_refuses_invoke (not_admits_of_nests nests hf hkind receiver) args
    refine ⟨refuses none, refuses, fun v m hlookup granted => ?_,
      fun permitted => exists_runsOnce_construct nests older hf hkind permitted args,
      fun r _ held => newInstance_ne_of_holds held cls⟩
    have found := methodOf_eq_ok_iff.mpr ⟨not_isNothing_of_lookup? hlookup, granted, hlookup⟩
    obtain ⟨name, refused⟩ := refuses (some (fr.store.resolve v))
    simp only [callMethod_of_methodOf found]
    exact ⟨name, refused.handOut _⟩

/-- The store after the method was bound to a first receiver. -/
def boundOnce : Store Unit := (callables.bind 0 (.string "first") none).2

/-- The store after the wrapper was bound to a second receiver. -/
def boundTwice : Store Unit := (boundOnce.bind 6 .null none).2

/-- The store after the guest's constructor was bound, too. -/
def boundConstructor : Store Unit := (boundTwice.bind 5 (.object 1) none).2

/-- The store with the outer wrapper as a member of the object. -/
def boundStore : Store Unit := boundConstructor.update 1 (·.setValue "wrapper" (.function 7))

theorem bind_boundOnce : callables.bind 0 (.string "first") none = (.function 6, boundOnce) := rfl

theorem bind_boundTwice : boundOnce.bind 6 .null none = (.function 7, boundTwice) := rfl

theorem bind_boundConstructor :
    boundTwice.bind 5 (.object 1) none = (.function 8, boundConstructor) :=
  rfl

theorem boundStore_sameNatures : boundConstructor.SameNatures boundStore :=
  Store.sameNatures_update _ _ (Access.changesOnly_setValue "wrapper" (.function 7)).nature

theorem boundStore_wrapsOlder : boundStore.WrapsOlder := by
  have bound : boundConstructor.WrapsOlder :=
    ((callables_wrapsOlder.of_bind bind_boundOnce).of_bind bind_boundTwice).of_bind
      bind_boundConstructor
  exact bound.of_sameNatures boundStore_sameNatures

/-- Called as a function or as a method, the wrapper runs the method with the first receiver. The
bound constructor cannot be called, and is run with an instance of its own when it constructs. -/
theorem first_bound_receiver_wins_of_boundStore :
    Runs (fun run => callFunction run (.function 7) [.null] (.ofStore boundStore)) 0
      (some (.string "first")) [.null] (.ofStore boundStore) ∧
    Runs (fun run => callMethod run (.object 1) "wrapper" [.null] (.ofStore boundStore)) 0
      (some (.string "first")) [.null] (.ofStore boundStore) ∧
    (∃ name, Refuses (fun run => callFunction run (.function 8) [.null] (.ofStore boundStore))
      (.ofStore boundStore) (.notCallable name)) ∧
    RunsOnce (fun run => construct run (.function 8) [.null] (.ofStore boundStore)) (.closure ())
      (some (.object 9)) [.null]
      ((Frame.ofStore boundStore).withStore (boundStore.newPlain []).2) := by
  have older : (Frame.ofStore boundStore).store.WrapsOlder := boundStore_wrapsOlder
  have written := Store.keepsFunctions_of_sameNatures boundStore_sameNatures
  have twice : Store.Nesting 0 boundTwice [.string "first", .null] 7 :=
    .bind (.bind (.bare rfl) bind_boundOnce) bind_boundTwice
  have wrapper : Store.Nesting 0 boundStore [.string "first", .null] 7 :=
    .later (.later twice (Store.keepsFunctions_alloc _ _)) written
  have maker : Store.Nesting 5 boundStore [.object 1] 8 :=
    .later (.bind (.bare rfl) bind_boundConstructor) written
  have hmethod : (Frame.ofStore boundStore).store.function? 0 =
      some ⟨some "method", .method, .host, 0, .native ()⟩ := rfl
  have hmaker : (Frame.ofStore boundStore).store.function? 5 =
      some ⟨some "Plain", .constructor none, .guest, 5, .closure ()⟩ := rfl
  obtain ⟨plainly, -, methods⟩ := (first_bound_receiver_wins older hmethod wrapper [.null]).1 nofun
  obtain ⟨refused, -, -, constructs, -⟩ :=
    (first_bound_receiver_wins older hmaker maker [.null]).2 none rfl
  refine ⟨plainly.1, (methods (.object 1) "wrapper" rfl rfl rfl).1, refused, ?_⟩
  obtain ⟨g, passed, -, -, hown, hpassed, once⟩ := constructs rfl
  obtain rfl := hown rfl
  obtain rfl : passed = [.null] := by
    simpa [Passes, List.forall₂_cons_left_iff] using hpassed
  exact once

end Invocation

end Confinement
