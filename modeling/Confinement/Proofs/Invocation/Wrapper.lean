import Mathlib.Data.Fintype.Card
import Confinement.Proofs.Invocation.Growth

/-!
# Functions under bound wrappers

A bound wrapper runs another function with a receiver of its own, and that function may be a wrapper
again. `Wraps` follows the wrappers down to a function with a body of its own. On the way no
function comes twice, so the store holds more entities than there are wrappers, and running and
unwrapping always get to the bottom. What comes out of a host function there is contained, however
many wrappers it has, and a raw host exception gets out only where no host function is passed.
-/
namespace Confinement

variable {code σ : Type}

namespace FunctionBody

/-- The code that the body has of its own. -/
def code? : FunctionBody code → Option code
  | .native c | .closure c => some c
  | .standIn _ | .bound _ _ => none

/-- What a wrapper runs, and with which receiver. -/
def bound? : FunctionBody code → Option (EntityId × Value)
  | .bound target receiver => some (target, receiver)
  | .native _ | .closure _ | .standIn _ => none

theorem eq_bound_of_bound? {body : FunctionBody code} {target : EntityId} {receiver : Value}
    (h : body.bound? = some (target, receiver)) : body = .bound target receiver := by
  cases body with
  | bound target' receiver' =>
    cases h
    rfl
  | _ => cases h

end FunctionBody

namespace Store

/-- Under `n` bound wrappers, the function `id` called with `receiver` is the function `inner`
called with `own`, and `inner` is no wrapper. -/
inductive Wraps (s : Store code) :
    Nat → EntityId → Option Value → EntityId → Option Value → Prop
  | bare {id : EntityId} {receiver : Option Value} {f : FunctionRecord code}
      (hf : s.function? id = some f) (hbody : f.body.bound? = none) :
      Wraps s 0 id receiver id receiver
  | bound {n : Nat} {id target inner : EntityId} {receiver own : Option Value} {r : Value}
      {f : FunctionRecord code} (hf : s.function? id = some f)
      (hbody : f.body.bound? = some (target, r)) (below : Wraps s n target (some r) inner own) :
      Wraps s (n + 1) id receiver inner own

namespace Wraps

variable {s : Store code} {n m : Nat} {id inner : EntityId} {receiver own : Option Value}

/-- The function alone decides how many wrappers there are. -/
theorem count_unique {inner' : EntityId} {receiver' own' : Option Value}
    (h : s.Wraps n id receiver inner own) (h' : s.Wraps m id receiver' inner' own') : n = m := by
  induction h generalizing m receiver' with
  | bare hf hbody =>
    cases h' with
    | bare => rfl
    | bound hf' hbody' =>
      rw [hf] at hf'
      cases hf'
      rw [hbody] at hbody'
      cases hbody'
  | bound hf hbody _ ih =>
    cases h' with
    | bare hf' hbody' =>
      rw [hf] at hf'
      cases hf'
      rw [hbody] at hbody'
      cases hbody'
    | bound hf' hbody' below' =>
      rw [hf] at hf'
      cases hf'
      rw [hbody] at hbody'
      cases hbody'
      rw [ih below']

theorem outer_lt_size (h : s.Wraps n id receiver inner own) : id < s.size := by
  cases h with
  | bare hf _ => exact lt_size_of_function? hf
  | bound hf _ _ => exact lt_size_of_function? hf

/-- On the way down, every smaller number of wrappers is met. -/
theorem exists_of_le (h : s.Wraps n id receiver inner own) (hm : m ≤ n) :
    ∃ id' receiver', s.Wraps m id' receiver' inner own := by
  induction h with
  | bare hf hbody =>
    obtain rfl : m = 0 := Nat.le_zero.mp hm
    exact ⟨_, _, .bare hf hbody⟩
  | bound hf hbody below ih =>
    rcases Nat.le_add_one_iff.mp hm with hle | rfl
    · exact ih hle
    · exact ⟨_, none, .bound hf hbody below⟩

/-- No function comes twice on the way down, so there are fewer wrappers than entities. -/
theorem count_lt_size (h : s.Wraps n id receiver inner own) : n < s.size := by
  -- `met m` is where `m` wrappers are still to come, and so it tells what `m` is
  choose met receivers hmet using fun m : Fin (n + 1) => h.exists_of_le (Nat.le_of_lt_add_one m.2)
  let place : Fin (n + 1) → Fin s.size := fun m => ⟨met m, (hmet m).outer_lt_size⟩
  have hplace : Function.Injective place := by
    intro i j hij
    have hmet_eq : met i = met j := congrArg Fin.val hij
    have hi := hmet i
    rw [hmet_eq] at hi
    exact Fin.ext (hi.count_unique (hmet j))
  have hcard := Fintype.card_le_of_injective place hplace
  simp only [Fintype.card_fin] at hcard
  omega

theorem unboundWithin_eq (h : s.Wraps n id receiver inner own) {fuel : Nat} (hfuel : n ≤ fuel) :
    s.unboundWithin fuel id = inner := by
  induction h generalizing fuel with
  | @bare id receiver f hf hbody =>
    cases fuel with
    | zero => rfl
    | succ fuel =>
      obtain ⟨name, kind, origin, guid, body⟩ := f
      rw [unboundWithin, hf]
      cases body with
      | bound target r => cases hbody
      | _ => rfl
  | @bound n id target inner receiver own r f hf hbody below ih =>
    obtain ⟨k, rfl⟩ := Nat.exists_eq_add_of_le' hfuel
    obtain ⟨name, kind, origin, guid, body⟩ := f
    obtain rfl := FunctionBody.eq_bound_of_bound? hbody
    rw [← Nat.add_assoc, unboundWithin, hf]
    exact ih (Nat.le_add_left n k)

/-- Unwrapping a function ends at the bottom. -/
theorem unbound_eq (h : s.Wraps n id receiver inner own) : s.unbound id = inner :=
  h.unboundWithin_eq h.count_lt_size.le

end Wraps

end Store

namespace Invocation

/-- Runs the body that a function has of its own. -/
def runOwn (run : Runner code σ) (body : FunctionBody code) (receiver : Option Value)
    (args : List Value) : Run code σ Value := fun fr =>
  match body with
  | .native c | .closure c => run c receiver args fr
  | .standIn text => (.ok (.string text), fr)
  | .bound _ _ => (.error (.notCallable "function"), fr)

variable {run : Runner code σ} {fr : Frame code σ} {n : Nat} {id inner : EntityId}
  {receiver own : Option Value} {f : FunctionRecord code}

theorem bareWithin_of_wraps (h : fr.store.Wraps n id receiver inner own)
    (hf : fr.store.function? inner = some f) {fuel : Nat} (hfuel : n < fuel) (args : List Value) :
    bareWithin run fuel id receiver args fr = runOwn run f.body own args fr := by
  induction h generalizing fuel with
  | bare hf' hbody =>
    obtain ⟨k, rfl⟩ := Nat.exists_eq_add_of_lt hfuel
    rw [hf] at hf'
    cases hf'
    simp only [bareWithin, hf, runOwn]
    cases hcode : f.body with
    | bound target r =>
      rw [hcode] at hbody
      cases hbody
    | _ => rfl
  | bound hf' hbody below ih =>
    obtain ⟨k, rfl⟩ := Nat.exists_eq_add_of_lt hfuel
    rw [bareWithin, hf']
    dsimp only
    rw [FunctionBody.eq_bound_of_bound? hbody]
    exact ih hf (by omega)

theorem guardOrigin_of_wraps {s : Store code} (h : s.Wraps n id receiver inner own)
    (hf : s.function? inner = some f) (hhost : f.origin = .host) {fuel : Nat} (hfuel : n < fuel) :
    guardOrigin s fuel id = .host := by
  induction h generalizing fuel with
  | bare hf' hbody =>
    obtain ⟨k, rfl⟩ := Nat.exists_eq_add_of_lt hfuel
    rw [guardOrigin, hf]
    dsimp only
    rw [hhost]
  | @bound n id target inner receiver own r g hg hbody below ih =>
    obtain ⟨k, rfl⟩ := Nat.exists_eq_add_of_lt hfuel
    rw [guardOrigin, hg]
    dsimp only
    rw [FunctionBody.eq_bound_of_bound? hbody]
    cases g.origin with
    | host => rfl
    | guest => exact ih hf (by omega)

/-- However many wrappers there are around a host function, its body runs once and what it ends
with is contained. -/
theorem runFunction_of_wraps (h : fr.store.Wraps n id receiver inner own)
    (hf : fr.store.function? inner = some f) (hhost : f.origin = .host) (args : List Value) :
    runFunction run id receiver args fr =
      contain .host (runOwn run f.body own args fr).1 (runOwn run f.body own args fr).2 := by
  rw [runFunction, runWithin_eq, guardOrigin_of_wraps h hf hhost h.count_lt_size,
    bareWithin_of_wraps h hf h.count_lt_size]

theorem contain_eq_host_iff (origin : FunctionOrigin) (result : Except Fault Value)
    (fr : Frame code σ) (ex : HostException) :
    (contain origin result fr).1 = .error (.host ex) ↔
      origin = .guest ∧ result = .error (.host ex) := by
  cases origin with
  | guest => simp [contain]
  | host => simpa using contain_host_ne result fr ex

/-- A raw host exception comes out of a function only if the body of a guest function raised it. -/
theorem exists_wraps_of_runWithin {fuel : Nat} {args : List Value} {ex : HostException}
    (h : (runWithin run fuel id receiver args fr).1 = .error (.host ex)) :
    ∃ n inner own f, fr.store.Wraps n id receiver inner own ∧
      fr.store.function? inner = some f ∧ f.origin = .guest ∧
      (runOwn run f.body own args fr).1 = .error (.host ex) := by
  induction fuel generalizing id receiver with
  | zero => cases h
  | succ fuel ih =>
    rw [runWithin] at h
    cases hf : fr.store.function? id with
    | none =>
      rw [hf] at h
      cases h
    | some f =>
      simp only [hf, contain_eq_host_iff] at h
      obtain ⟨hguest, hraised⟩ := h
      cases hbody : f.body with
      | bound target r =>
        rw [hbody] at hraised
        obtain ⟨n, inner, own, g, hwraps, hg⟩ := ih hraised
        have hbound : f.body.bound? = some (target, r) := by rw [hbody]; rfl
        exact ⟨n + 1, inner, own, g, .bound hf hbound hwraps, hg⟩
      | standIn text =>
        rw [hbody] at hraised
        cases hraised
      | native c =>
        rw [hbody] at hraised
        have hown : f.body.bound? = none := by rw [hbody]; rfl
        exact ⟨0, id, receiver, f, .bare hf hown, hf, hguest, by rw [hbody]; exact hraised⟩
      | closure c =>
        rw [hbody] at hraised
        have hown : f.body.bound? = none := by rw [hbody]; rfl
        exact ⟨0, id, receiver, f, .bare hf hown, hf, hguest, by rw [hbody]; exact hraised⟩

end Invocation

end Confinement
