import Confinement.Proofs.Invocation.Growth

/-!
# What escapes through faults

A method runs with the value behind the view as its receiver, and what it throws is handed on as it
is. Between the code of a method and a catch site stand bound wrappers, which contain raw host
exceptions once for all, and taming. Both only ever add new values in place of old ones. So an old
value, such as the one that a view stands for, gets through exactly if the code itself throws it, or
raises a host exception that was tamed into it before.
-/
namespace Confinement

variable {code σ : Type}

/-- An old value is the record of a host exception exactly if it has been that before. -/
theorem Frame.tame_host_eq_iff (fr : Frame code σ) (ex : HostException) {x : Value} {j : EntityId}
    (hj : x.id? = some j) (hlt : j < fr.store.size) :
    (fr.tame (.host ex)).1 = x ↔ fr.world.vault.record? ex = some x := by
  have htame : (fr.tame (.host ex)).1 =
      (Taming.tameHost fr.context.loader.policy fr.world.vault ex).1 := rfl
  rw [htame]
  rcases Taming.tameHost_cases fr.context.loader.policy fr.world.vault ex with
    ⟨record, hrecord, heq⟩ | ⟨hnone, k, hk, heq, -⟩
  · rw [hrecord, heq, Option.some.injEq]
  · rw [hnone, heq]
    refine iff_of_false (fun h => ?_) (fun h => nomatch h)
    rw [← h] at hj
    obtain rfl : k = j := Option.some.inj hj
    exact absurd hlt (Nat.not_lt.mpr hk)

/-- An old value comes out of taming exactly if it was thrown, and is no function with code of its
own, or is the record of the host exception. -/
theorem Frame.tame_eq_iff (fr : Frame code σ) (fault : Fault) {x : Value} {j : EntityId}
    (hj : x.id? = some j) (hlt : j < fr.store.size) :
    (fr.tame fault).1 = x ↔ (fault = .thrown x ∧ Taming.isLive fr.store x = false) ∨
      ∃ ex, fault = .host ex ∧ fr.world.vault.record? ex = some x := by
  have fresh {k : EntityId} (hk : x.id? = some k) : k ≠ fr.store.size := by
    rintro rfl
    exact lt_irrefl _ (Option.some.inj (hj.symm.trans hk) ▸ hlt)
  cases fault with
  | thrown y =>
    have htame : (fr.tame (.thrown y)).1 = (Taming.tameThrown fr.store y).1 := rfl
    rw [htame]
    simp only [Fault.thrown.injEq, reduceCtorEq, false_and, exists_false, or_false]
    cases hlive : Taming.isLive fr.store y with
    | true =>
      rw [Taming.tameThrown_of_isLive hlive]
      refine iff_of_false (fun h => fresh (h ▸ rfl) rfl) ?_
      rintro ⟨rfl, h⟩
      rw [hlive] at h
      cases h
    | false =>
      rw [Taming.tameThrown_of_not_isLive hlive]
      exact ⟨fun h => ⟨h, h ▸ hlive⟩, fun h => h.1⟩
  | host ex =>
    simp only [fr.tame_host_eq_iff ex hj hlt, reduceCtorEq, false_and, false_or, Fault.host.injEq,
      exists_eq_left']
  | _ =>
    simp only [reduceCtorEq, false_and, exists_false, or_false, iff_false]
    exact fun h => fresh (h ▸ rfl) rfl

/-- What a catch site can get hold of among the old values. -/
theorem catchGuest_caught_iff (body : Run code σ Value) (fr : Frame code σ) {x : Value}
    {j : EntityId} (hj : x.id? = some j) (hlt : j < (body fr).2.store.size) :
    (catchGuest body fr).1 = .ok (.caught x) ↔
      ((body fr).1 = .error (.thrown x) ∧ Taming.isLive (body fr).2.store x = false) ∨
      ∃ ex, (body fr).1 = .error (.host ex) ∧ (body fr).2.world.vault.record? ex = some x := by
  unfold catchGuest
  rcases hbody : body fr with ⟨fault | v, fr'⟩
  · rw [hbody] at hlt
    cases hcatch : fault.isCatchable with
    | true =>
      simpa [hcatch] using fr'.tame_eq_iff fault hj hlt
    | false =>
      refine iff_of_false (by simp [hcatch]) ?_
      rintro (⟨h, -⟩ | ⟨ex, h, -⟩)
      · cases h
        cases hcatch
      · cases h
        cases hcatch
  · simp

namespace Invocation

theorem contain_eq_thrown_iff (origin : FunctionOrigin) (result : Except Fault Value)
    (fr : Frame code σ) (x : Value) :
    (contain origin result fr).1 = .error (.thrown x) ↔ result = .error (.thrown x) ∨
      origin = .host ∧ ∃ ex, result = .error (.host ex) ∧ (fr.tame (.host ex)).1 = x := by
  unfold contain
  split
  · rename_i ex
    simp
  · rename_i h
    refine ⟨.inl, ?_⟩
    rintro (h' | ⟨rfl, ex, rfl, -⟩)
    · exact h'
    · exact absurd rfl (h ex rfl)

/-- The code under the method `m` of `v`, called with these arguments, ends like this. -/
structure MethodEnds (run : Runner code σ) (v : Value) (m : String) (args : List Value)
    (fr : Frame code σ) (id : EntityId) (result : Except Fault Value) (fr' : Frame code σ) :
    Prop where
  method : methodOf fr.registry fr.store v m = .ok id
  callable : ∃ f, fr.store.function? id = some f ∧ mayCall f.kind (some (fr.store.resolve v)) = true
  ends : bareWithin run fr.store.size id (some (fr.store.resolve v)) (Arguments.normalize args) fr =
    (result, fr')

variable {run : Runner code σ} {v : Value} {m : String} {args : List Value} {fr : Frame code σ}

theorem MethodEnds.invoke_eq {id : EntityId} {result : Except Fault Value} {fr' : Frame code σ}
    (h : MethodEnds run v m args fr id result fr') :
    invoke run id (some (fr.store.resolve v)) args fr =
      contain (guardOrigin fr.store fr.store.size id) result fr' := by
  obtain ⟨f, hf, hcall⟩ := h.callable
  simp only [invoke, hf, hcall, if_true, runFunction, runWithin_eq, h.ends]

/-- If a method call does not get as far as running code, what it raises was not thrown. -/
theorem exists_methodEnds_of_thrown {x : Value}
    (h : (callMethod run v m args fr).1 = .error (.thrown x)) :
    ∃ id result fr', MethodEnds run v m args fr id result fr' := by
  unfold callMethod at h
  cases hmethod : methodOf fr.registry fr.store v m with
  | error fault =>
    rw [hmethod] at h
    -- no check fails by throwing
    obtain rfl : fault = .thrown x := Except.error.inj h
    rcases methodOf_eq_error hmethod with h | h | h <;> cases h
  | ok id =>
    rw [hmethod] at h
    cases hf : fr.store.function? id with
    | none =>
      simp only [invoke, hf] at h
      cases h
    | some f =>
      cases hcall : mayCall f.kind (some (fr.store.resolve v)) with
      | false =>
        simp only [invoke, hf, hcall, Bool.false_eq_true, if_false] at h
        cases h
      | true => exact ⟨id, _, _, hmethod, ⟨f, hf, hcall⟩, rfl⟩

/-- A method call throws what its code leaves after containment. -/
theorem MethodEnds.callMethod_eq_thrown_iff {id : EntityId} {result : Except Fault Value}
    {fr' : Frame code σ} (h : MethodEnds run v m args fr id result fr') (x : Value) :
    (callMethod run v m args fr).1 = .error (.thrown x) ↔
      (contain (guardOrigin fr.store fr.store.size id) result fr').1 = .error (.thrown x) := by
  simp only [callMethod, h.method, h.invoke_eq]
  rcases contain (guardOrigin fr.store fr.store.size id) result fr' with ⟨fault | y, fr₁⟩
  · exact Iff.rfl
  · exact iff_of_false (fun h => nomatch h) (fun h => nomatch h)

/-- Which endings of its code make a method call throw an old value. -/
theorem MethodEnds.throws_old_iff (grows : run.Grows) {id : EntityId}
    {result : Except Fault Value} {fr' : Frame code σ}
    (h : MethodEnds run v m args fr id result fr') {x : Value} {j : EntityId}
    (hj : x.id? = some j) (hlt : j < fr.store.size) :
    (callMethod run v m args fr).1 = .error (.thrown x) ↔ result = .error (.thrown x) ∨
      guardOrigin fr.store fr.store.size id = .host ∧
        ∃ ex, result = .error (.host ex) ∧ fr'.world.vault.record? ex = some x := by
  have hgrown : fr.store.Extends fr'.store := by
    have hbare := extends_bareWithin grows fr.store.size id (some (fr.store.resolve v))
      (Arguments.normalize args) fr
    rwa [h.ends] at hbare
  have hlt' : j < fr'.store.size := hlt.trans_le hgrown.size_le
  simp only [h.callMethod_eq_thrown_iff, contain_eq_thrown_iff, fr'.tame_host_eq_iff _ hj hlt']

/-- Let `v` be a view and `x` the value it stands for. A call of a method through `v` throws `x`
exactly if the code under the method does, or if that code raises a host exception whose record `x`
is already and a host function stands on the way. A catch site around the call gets `x` exactly if
the call throws `x` and `x` is no function with code of its own, or if the call lets out a host
exception whose record `x` is. -/
theorem target_escapes_iff {run : Runner code σ} (grows : run.Grows) (fr : Frame code σ)
    (grounded : fr.store.Grounded) {v target : Value} (hv : fr.store.Fronts v target) (m : String)
    (args : List Value) {x : Value} (hx : x.sameIdentity (fr.store.resolve v) = true) :
    ((callMethod run v m args fr).1 = .error (.thrown x) ↔ ∃ id fr',
      MethodEnds run v m args fr id (.error (.thrown x)) fr' ∨
      guardOrigin fr.store fr.store.size id = .host ∧
        ∃ ex, MethodEnds run v m args fr id (.error (.host ex)) fr' ∧
          fr'.world.vault.record? ex = some x) ∧
    ((catchGuest (callMethod run v m args) fr).1 = .ok (.caught x) ↔
      (callMethod run v m args fr).1 = .error (.thrown x) ∧
        Taming.isLive (callMethod run v m args fr).2.store x = false ∨
      ∃ ex, (callMethod run v m args fr).1 = .error (.host ex) ∧
        (callMethod run v m args fr).2.world.vault.record? ex = some x) := by
  obtain ⟨rfl, hreference⟩ := Value.sameIdentity_iff.mp hx
  obtain ⟨j, hj⟩ := Option.isSome_iff_exists.mp hreference
  have hlt : j < fr.store.size := grounded.resolve_lt_size hv hj
  refine ⟨⟨fun h => ?_, ?_⟩, ?_⟩
  · obtain ⟨id, result, fr', ends⟩ := exists_methodEnds_of_thrown h
    rcases (ends.throws_old_iff grows hj hlt).mp h with rfl | ⟨hhost, ex, rfl, hrecord⟩
    · exact ⟨id, fr', .inl ends⟩
    · exact ⟨id, fr', .inr ⟨hhost, ex, ends, hrecord⟩⟩
  · rintro ⟨id, fr', ends | ⟨hhost, ex, ends, hrecord⟩⟩
    · exact (ends.throws_old_iff grows hj hlt).mpr (.inl rfl)
    · exact (ends.throws_old_iff grows hj hlt).mpr (.inr ⟨hhost, ex, rfl, hrecord⟩)
  · have hgrown := extends_callMethod grows v m args fr
    exact catchGuest_caught_iff _ fr hj (hlt.trans_le hgrown.size_le)

/-- An object with a method, and a view that shows only the method. -/
def methodView : Store Unit :=
  ⟨#[⟨.object .guest false,
      .ofList [("hidden", .plain .null), ("fail", .plain (.function 2))], false⟩,
    ⟨.object (.view (.object 0) ["fail"]) false, .empty, true⟩,
    ⟨.function ⟨some "fail", .method, .guest, 3, .closure ()⟩, .empty, true⟩]⟩

/-- The method throws what it is called on. -/
def throwReceiver : Runner Unit Unit := fun _ receiver _ fr =>
  (.error (.thrown (receiver.getD .undefined)), fr)

/-- A method that throws its receiver, called through the view, gives the target to its caller. -/
theorem target_thrown_and_caught :
    methodView.view? (.object 1) = some (.object 0, ["fail"]) ∧
    methodView.resolve (.object 1) = .object 0 ∧
    (callMethod throwReceiver (.object 1) "fail" [] (.ofStore methodView)).1 =
      .error (.thrown (.object 0)) ∧
    (catchGuest (callMethod throwReceiver (.object 1) "fail" []) (.ofStore methodView)).1 =
      .ok (.caught (.object 0)) :=
  ⟨rfl, rfl, rfl, rfl⟩

theorem methodView_grounded : methodView.Grounded := by
  intro id target allow h j hj
  match id with
  | 0 => cases h
  | 1 =>
    cases h
    cases hj
    decide
  | 2 => cases h
  | _ + 3 => cases h

/-- The target is caught because the code of the method throws it. -/
theorem target_escapes_iff_of_thrown :
    methodView.Grounded ∧ methodView.Fronts (.object 1) (.object 0) ∧
    (Value.object 0).sameIdentity (methodView.resolve (.object 1)) = true ∧
    MethodEnds throwReceiver (.object 1) "fail" [] (.ofStore methodView) 2
      (.error (.thrown (.object 0))) (.ofStore methodView) ∧
    (callMethod throwReceiver (.object 1) "fail" [] (.ofStore methodView)).1 =
      .error (.thrown (.object 0)) ∧
    (catchGuest (callMethod throwReceiver (.object 1) "fail" []) (.ofStore methodView)).1 =
      .ok (.caught (.object 0)) :=
  have fronts : methodView.Fronts (.object 1) (.object 0) := ⟨_, rfl⟩
  have grows : throwReceiver.Grows := fun _ _ _ _ => .refl _
  have ends : MethodEnds throwReceiver (.object 1) "fail" [] (.ofStore methodView) 2
      (.error (.thrown (.object 0))) (.ofStore methodView) := ⟨rfl, ⟨_, rfl, rfl⟩, rfl⟩
  have escapes := target_escapes_iff grows (.ofStore methodView) methodView_grounded fronts
    "fail" [] (x := .object 0) rfl
  have thrown := escapes.1.mpr ⟨2, .ofStore methodView, .inl ends⟩
  ⟨methodView_grounded, fronts, rfl, ends, thrown, escapes.2.mpr (.inl ⟨thrown, rfl⟩)⟩

end Invocation

end Confinement
