import Mathlib.Logic.Relation
import Confinement.Proofs.Registry.Permanence

/-!
# The class hierarchy

Whether a declaration would close a circle is found out by climbing from the new parent. Climbing is
complete because no earlier declaration closed a circle, and no declaration closes one because
climbing is complete. The invariant that carries both is acyclicity, over every history of calls.
-/
namespace Confinement

/-- Nothing is above itself. -/
def Acyclic (above : String → String → Prop) : Prop := ∀ c, ¬ Relation.TransGen above c c

namespace Acyclic

variable {R S : String → String → Prop} {c p : String}

theorem mono (h : ∀ a b, R a b → S a b) (acyclic : Acyclic S) : Acyclic R :=
  fun c circle => acyclic c (Relation.TransGen.mono h c c circle)

/-- With one more pair, a way up is an old one or passes through that pair. -/
theorem transGen_or_through {a b : String} (h : ∀ x y, S x y → R x y ∨ (x = c ∧ y = p))
    (way : Relation.TransGen S a b) : Relation.TransGen R a b ∨
      (Relation.ReflTransGen R a c ∧ Relation.ReflTransGen R p b) := by
  induction way with
  | single first =>
    rcases h _ _ first with hold | ⟨rfl, rfl⟩
    · exact .inl (.single hold)
    · exact .inr ⟨.refl, .refl⟩
  | tail _ last ih =>
    rcases h _ _ last with hold | ⟨rfl, rfl⟩
    · rcases ih with old | ⟨lower, upper⟩
      · exact .inl (old.tail hold)
      · exact .inr ⟨lower, upper.tail hold⟩
    · rcases ih with old | ⟨lower, -⟩
      · exact .inr ⟨old.to_reflTransGen, .refl⟩
      · exact .inr ⟨lower, .refl⟩

/-- One more pair closes a circle only if its lower end was above its upper end. -/
theorem insert (acyclic : Acyclic R) (hnot : ¬ Relation.ReflTransGen R p c)
    (h : ∀ x y, S x y → R x y ∨ (x = c ∧ y = p)) : Acyclic S := by
  intro a circle
  rcases transGen_or_through h circle with old | ⟨lower, upper⟩
  · exact acyclic a old
  · exact hnot (upper.trans lower)

end Acyclic

namespace Registry

variable {r r' : Registry} {cls parent : String}

/-- The class was declared with this parent. -/
def Parent (r : Registry) (cls parent : String) : Prop := r.parents.find? cls = some parent

/-- The class that is `n` parents up. -/
def ancestor? (r : Registry) : Nat → String → Option String
  | 0, cls => some cls
  | n + 1, cls => (r.parents.find? cls).bind (r.ancestor? n)

theorem ancestor?_succ_of_parent (h : r.Parent cls parent) (n : Nat) :
    r.ancestor? (n + 1) cls = r.ancestor? n parent := by
  rw [ancestor?, show r.parents.find? cls = some parent from h, Option.bind_some]

theorem ancestor?_add (m n : Nat) (cls : String) :
    r.ancestor? (m + n) cls = (r.ancestor? m cls).bind (r.ancestor? n) := by
  induction m generalizing cls with
  | zero => rw [Nat.zero_add, ancestor?, Option.bind_some]
  | succ m ih =>
    rw [Nat.succ_add, ancestor?, ancestor?]
    cases r.parents.find? cls with
    | none => rfl
    | some parent => exact ih parent

theorem reflTransGen_iff {top : String} :
    Relation.ReflTransGen r.Parent cls top ↔ ∃ n, r.ancestor? n cls = some top := by
  constructor
  · intro way
    induction way using Relation.ReflTransGen.head_induction_on with
    | refl => exact ⟨0, rfl⟩
    | head first _ ih =>
      obtain ⟨n, hn⟩ := ih
      exact ⟨n + 1, (ancestor?_succ_of_parent first n).trans hn⟩
  · rintro ⟨n, hn⟩
    induction n generalizing cls with
    | zero =>
      obtain rfl : cls = top := Option.some.inj hn
      exact .refl
    | succ n ih =>
      obtain ⟨parent, hparent, hrest⟩ := Option.bind_eq_some_iff.mp hn
      exact .head hparent (ih hrest)

/-- No class comes twice on the way up. -/
theorem ancestor?_ne_of_lt (acyclic : Acyclic r.Parent) {i j : Nat} (hij : i < j) {c : String}
    (hi : r.ancestor? i cls = some c) : r.ancestor? j cls ≠ some c := by
  intro hj
  obtain ⟨k, rfl⟩ : ∃ k, j = i + (k + 1) := ⟨j - i - 1, by omega⟩
  have hcircle : r.ancestor? (k + 1) c = some c := by rwa [ancestor?_add, hi] at hj
  obtain ⟨parent, hparent, hrest⟩ := Option.bind_eq_some_iff.mp hcircle
  exact acyclic c (.head' hparent (reflTransGen_iff.mpr ⟨k, hrest⟩))

theorem mem_keys_of_parent (h : r.Parent cls parent) : cls ∈ r.parents.keys := by
  obtain ⟨front, back, split⟩ := exists_split_of_findEntry h
  simp [Table.keys, split]

/-- The classes passed on the way up are declared and different, so there are no more of them than
declared classes. -/
theorem le_size_of_ancestor? (acyclic : Acyclic r.Parent) {n : Nat} {top : String}
    {passed : List String} (hnodup : passed.Nodup)
    (hpassed : ∀ c ∈ passed, c ∈ r.parents.keys ∧ Relation.TransGen r.Parent c cls)
    (h : r.ancestor? n cls = some top) : n + passed.length ≤ r.parents.size := by
  induction n generalizing cls passed with
  | zero =>
    have hsubset : passed ⊆ r.parents.keys := fun c hc => (hpassed c hc).1
    have hlength := (List.subperm_of_subset hnodup hsubset).length_le
    rw [Table.keys, List.length_map] at hlength
    rw [Table.size]
    omega
  | succ n ih =>
    obtain ⟨parent, hparent, hrest⟩ := Option.bind_eq_some_iff.mp h
    have hnew : cls ∉ passed := fun hmem => acyclic cls (hpassed cls hmem).2
    have hlength := ih (List.nodup_cons.mpr ⟨hnew, hnodup⟩) (fun c hc => ?_) hrest
    · rw [List.length_cons] at hlength
      omega
    · rcases List.mem_cons.mp hc with rfl | hmem
      · exact ⟨mem_keys_of_parent hparent, .single hparent⟩
      · exact ⟨(hpassed c hmem).1, (hpassed c hmem).2.tail hparent⟩

/-- What the loop has seen is below the class it is at, so in a hierarchy without circles it never
meets a parent it has seen, and it ends for want of a parent or of steps. -/
theorem getElem?_ancestorsWithin (acyclic : Acyclic r.Parent) (n : Nat) {seen : List String}
    (hseen : ∀ c ∈ seen, Relation.ReflTransGen r.Parent c cls) (i : Nat) :
    (ancestorsWithin r.parents n seen cls)[i]? =
      if i < n then r.ancestor? (i + 1) cls else none := by
  induction n generalizing cls seen i with
  | zero => rw [ancestorsWithin, List.getElem?_nil, if_neg (Nat.not_lt_zero i)]
  | succ n ih =>
    rw [ancestorsWithin]
    cases hparent : r.parents.find? cls with
    | none => simp [ancestor?, hparent]
    | some parent =>
      have hnew : parent ∉ seen := fun hmem => acyclic cls (.head' hparent (hseen parent hmem))
      have hseen' : ∀ c ∈ parent :: seen, Relation.ReflTransGen r.Parent c parent := by
        intro c hc
        rcases List.mem_cons.mp hc with rfl | hmem
        · exact .refl
        · exact (hseen c hmem).tail hparent
      simp only [if_neg hnew]
      cases i with
      | zero => simp [ancestor?, hparent]
      | succ i =>
        rw [List.getElem?_cons_succ, ih hseen', ancestor?_succ_of_parent hparent]
        simp only [Nat.add_lt_add_iff_right]

/-- The chain of a class is the class and its parents one after the other, as far as they go. -/
theorem getElem?_classChain (acyclic : Acyclic r.Parent) (cls : String) (n : Nat) :
    (r.classChain cls)[n]? = r.ancestor? n cls := by
  rw [classChain]
  cases n with
  | zero => rfl
  | succ n =>
    have hseen : ∀ c ∈ [cls], Relation.ReflTransGen r.Parent c cls := by
      simp [Relation.ReflTransGen.refl]
    rw [List.getElem?_cons_succ, getElem?_ancestorsWithin acyclic _ hseen]
    split
    · rfl
    · rename_i hlarge
      cases htop : r.ancestor? (n + 1) cls with
      | none => rfl
      | some top =>
        have hle := le_size_of_ancestor? acyclic List.nodup_nil (by simp) htop
        rw [List.length_nil] at hle
        omega

theorem mem_classChain_iff (acyclic : Acyclic r.Parent) {top : String} :
    top ∈ r.classChain cls ↔ Relation.ReflTransGen r.Parent cls top := by
  rw [List.mem_iff_getElem?, reflTransGen_iff]
  simp only [getElem?_classChain acyclic]

theorem nodup_classChain (acyclic : Acyclic r.Parent) (cls : String) :
    (r.classChain cls).Nodup := by
  rw [List.nodup_iff_getElem?_ne_getElem?]
  intro i j hij hj heq
  have hlast := List.getElem?_eq_getElem hj
  rw [hlast, getElem?_classChain acyclic] at heq
  rw [getElem?_classChain acyclic] at hlast
  exact ancestor?_ne_of_lt acyclic hij heq hlast

/-- At no class on the way up is the parent one of those passed. -/
theorem not_mem_of_classChain_eq (acyclic : Acyclic r.Parent) {passed rest : List String}
    {current : String} (h : r.classChain cls = passed ++ current :: rest)
    (hparent : r.Parent current parent) : parent ∉ passed ++ [current] := by
  have hat (n : Nat) : (passed ++ current :: rest)[n]? = r.ancestor? n cls := by
    rw [← h, getElem?_classChain acyclic]
  have hcurrent : r.ancestor? passed.length cls = some current := by
    rw [← hat, List.getElem?_append_right le_rfl, Nat.sub_self, List.getElem?_cons_zero]
  have hnext : r.ancestor? (passed.length + 1) cls = some parent := by
    rw [ancestor?_add, hcurrent, Option.bind_some, ancestor?_succ_of_parent hparent, ancestor?]
  intro hmem
  obtain ⟨i, hi⟩ := List.mem_iff_getElem?.mp hmem
  have hlt : i < passed.length + 1 := by
    have hlength := (List.getElem?_eq_some_iff.mp hi).1
    rwa [List.length_append, List.length_singleton] at hlength
  have hbefore : r.ancestor? i cls = some parent := by
    rw [← hat, List.append_cons, List.getElem?_append_left (by simpa using hlt), hi]
  exact ancestor?_ne_of_lt acyclic hlt hbefore hnext

/-- All that an accepted declaration has passed, and all that it does. -/
theorem declare_cases (h : r.declare cls parent = (.ok (), r')) : cls ∉ r.classChain parent ∧
    ((r.Parent cls parent ∧ r' = r) ∨ (r.parents.find? cls = none ∧
      r' = { r with parents := r.parents.insert cls parent })) := by
  unfold declare at h
  by_cases hmem : cls ∈ r.classChain parent
  · rw [if_pos hmem] at h
    cases h
  · rw [if_neg hmem] at h
    refine ⟨hmem, ?_⟩
    cases hfound : r.parents.find? cls with
    | none =>
      simp only [hfound] at h
      exact .inr ⟨rfl, (congrArg Prod.snd h).symm⟩
    | some existing =>
      simp only [hfound] at h
      by_cases heq : existing = parent
      · rw [if_pos heq] at h
        exact .inl ⟨hfound.trans (congrArg some heq), (congrArg Prod.snd h).symm⟩
      · rw [if_neg heq] at h
        cases h

/-- An accepted declaration settles the parent of its class and no other. -/
theorem find?_parents_declare (h : r.declare cls parent = (.ok (), r')) (c : String) :
    r'.parents.find? c = if c = cls then some parent else r.parents.find? c := by
  obtain ⟨-, ⟨hparent, rfl⟩ | ⟨-, rfl⟩⟩ := declare_cases h
  · by_cases hc : c = cls
    · rw [if_pos hc, hc]
      exact hparent
    · rw [if_neg hc]
  · exact r.parents.find?_insert cls c parent

theorem parent_declare_iff (h : r.declare cls parent = (.ok (), r')) {c p : String} :
    r'.Parent c p ↔ r.Parent c p ∨ (c = cls ∧ p = parent) := by
  have hold : r.parents.find? cls = none ∨ r.parents.find? cls = some parent := by
    obtain ⟨-, ⟨hparent, -⟩ | ⟨hnone, -⟩⟩ := declare_cases h
    · exact .inr hparent
    · exact .inl hnone
  rw [Parent, Parent, find?_parents_declare h]
  by_cases hc : c = cls
  · subst hc
    rcases hold with hnone | hparent
    · simp [hnone, eq_comm]
    · simp [hparent, eq_comm]
  · simp [hc]

theorem acyclic_declare (acyclic : Acyclic r.Parent) (h : r.declare cls parent = (.ok (), r')) :
    Acyclic r'.Parent := by
  have hnot := (declare_cases h).1
  rw [mem_classChain_iff acyclic] at hnot
  exact acyclic.insert hnot fun c p => (parent_declare_iff h).mp

/-- When a declaration is refused. -/
theorem answer_declare_eq_error_iff (acyclic : Acyclic r.Parent) (cls parent : String) :
    (∃ refusal, r.answer (.declare cls parent) = .error refusal) ↔
      parent = cls ∨ Relation.TransGen r.Parent parent cls ∨
        ∃ other, r.Parent cls other ∧ other ≠ parent := by
  have habove : cls ∈ r.classChain parent ↔
      parent = cls ∨ Relation.TransGen r.Parent parent cls := by
    rw [mem_classChain_iff acyclic, Relation.reflTransGen_iff_eq_or_transGen, eq_comm]
  rw [← or_assoc, ← habove, answer, perform, declare]
  by_cases hmem : cls ∈ r.classChain parent
  · simp [hmem]
  · rw [if_neg hmem]
    cases hfound : r.parents.find? cls with
    | none => simp [Parent, hfound, hmem]
    | some existing =>
      by_cases heq : existing = parent
      · simp [Parent, hfound, hmem, heq]
      · simp [Parent, hfound, hmem, heq]

theorem acyclic_ofCalls (calls : List Call) : Acyclic (ofCalls calls).Parent := by
  refine ofCalls_invariant (P := fun r => Acyclic r.Parent) ?_ ?_ ?_ calls
  · intro r r' subject member caps acyclic hgrant
    unfold Parent
    rw [parents_grant hgrant]
    exact acyclic
  · exact acyclic_declare
  · intro c circle
    obtain ⟨p, hparent, -⟩ := Relation.TransGen.head'_iff.mp circle
    cases hparent

/-- What holds of the hierarchy after every history of calls, whichever of them were accepted. It
has no circle. The chain of a class has at place `n` the class that is `n` parents up, and ends
where there is no parent; it has no repetition, and at no class on the way does the loop meet a
parent that it has passed. A declaration is refused exactly if the parent is the class itself or has
it above, or if the class has another parent; an accepted one settles the parent of its class and no
other. -/
theorem hierarchy_stays_acyclic (calls : List Call) :
    Acyclic (ofCalls calls).Parent ∧
    (∀ cls n, ((ofCalls calls).classChain cls)[n]? = (ofCalls calls).ancestor? n cls) ∧
    (∀ cls, ((ofCalls calls).classChain cls).Nodup) ∧
    (∀ cls passed current rest parent,
      (ofCalls calls).classChain cls = passed ++ current :: rest →
      (ofCalls calls).Parent current parent → parent ∉ passed ++ [current]) ∧
    (∀ cls parent, (∃ refusal, (ofCalls calls).answer (.declare cls parent) = .error refusal) ↔
      parent = cls ∨ Relation.TransGen (ofCalls calls).Parent parent cls ∨
        ∃ other, (ofCalls calls).Parent cls other ∧ other ≠ parent) ∧
    ∀ cls parent, (ofCalls calls).answer (.declare cls parent) = .ok () →
      ∀ c, (ofCalls (calls ++ [.declare cls parent])).parents.find? c =
        if c = cls then some parent else (ofCalls calls).parents.find? c := by
  have acyclic := acyclic_ofCalls calls
  refine ⟨acyclic, getElem?_classChain acyclic, nodup_classChain acyclic, ?_,
    answer_declare_eq_error_iff acyclic, ?_⟩
  · exact fun cls passed current rest parent => not_mem_of_classChain_eq acyclic
  · intro cls parent haccepted
    rw [ofCalls_concat]
    exact find?_parents_declare (perform_of_answer haccepted)

/-- A chain of three classes, two declarations that are refused, and one that is repeated. -/
def chainCalls : List Call :=
  [.declare "Link" "Button", .declare "Button" "Control", .declare "Control" "Link",
    .declare "Link" "Control", .declare "Link" "Button"]

/-- The chain is climbed without a repetition. A declaration that closes a circle is refused, and
one for the last class of the chain settles the parent of that class alone. -/
theorem hierarchy_stays_acyclic_of_chain :
    (ofCalls chainCalls).classChain "Link" = ["Link", "Button", "Control"] ∧
    "Button" ∉ ["Link"] ∧
    (∃ refusal, (ofCalls chainCalls).answer (.declare "Control" "Link") = .error refusal) ∧
    (ofCalls chainCalls).answer (.declare "Control" "Widget") = .ok () ∧
    (ofCalls (chainCalls ++ [.declare "Control" "Widget"])).parents.find? "Control" =
      some "Widget" ∧
    (ofCalls (chainCalls ++ [.declare "Control" "Widget"])).parents.find? "Link" =
      some "Button" := by
  have hchain : (ofCalls chainCalls).classChain "Link" = ["Link", "Button", "Control"] := by decide
  have hfirst : (ofCalls chainCalls).Parent "Link" "Button" := by unfold Parent; decide
  have hsecond : (ofCalls chainCalls).Parent "Button" "Control" := by unfold Parent; decide
  have haccepted : (ofCalls chainCalls).answer (.declare "Control" "Widget") = .ok () := by rfl
  obtain ⟨-, -, -, unbroken, refused, settled⟩ := hierarchy_stays_acyclic chainCalls
  have hcontrol := settled "Control" "Widget" haccepted
  exact ⟨hchain, unbroken "Link" [] "Link" _ "Button" hchain hfirst,
    (refused "Control" "Link").mpr (.inr (.inl (.tail (.single hfirst) hsecond))), haccepted,
    hcontrol "Control", hcontrol "Link"⟩

end Registry

end Confinement
