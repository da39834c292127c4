import Confinement.Proofs.Registry.History

/-!
# Grants are permanent

Of every registry that calls can make, the stored grants are exactly the ones that a lookup finds,
and each of them was found valid when it came in. An accepted grant settles its own pair of subject
and member and touches nothing else; a refused call touches nothing at all. So a pair that holds a
set holds it ever after. Granting in bulk is granting one by one, up to the first refusal.
-/
namespace Confinement.Registry

theorem ofCalls_append (calls later : List Call) :
    ofCalls (calls ++ later) = later.foldl apply (ofCalls calls) :=
  List.foldl_append

theorem ofCalls_concat (calls : List Call) (call : Call) :
    ofCalls (calls ++ [call]) = (ofCalls calls).apply call := ofCalls_append calls [call]

theorem granted?_concat (r : Registry) (g : Grant) (subject : Subject) (member : String) :
    { r with grants := r.grants ++ [g] }.granted? subject member =
      (r.granted? subject member).or
        (if g.subject = subject ∧ g.member = member then some g.capabilities else none) := by
  unfold granted?
  rw [List.find?_append, Option.map_or]
  by_cases hg : g.subject = subject ∧ g.member = member
  · simp [hg]
  · simp [hg]

/-- An accepted grant settles its own pair and leaves every other pair as it was. -/
theorem granted?_grant {r r' : Registry} {subject : Subject} {member : String}
    {caps : CapabilitySet} (h : r.grant subject member caps = (.ok (), r')) (subject' : Subject)
    (member' : String) :
    r'.granted? subject' member' =
      if subject' = subject ∧ member' = member then some caps else r.granted? subject' member' := by
  obtain ⟨-, -, ⟨hgranted, rfl⟩ | ⟨hnone, rfl⟩⟩ := grant_cases h
  · split
    · rename_i hpair
      obtain ⟨rfl, rfl⟩ := hpair
      exact hgranted
    · rfl
  · rw [granted?_concat]
    by_cases hpair : subject' = subject ∧ member' = member
    · obtain ⟨rfl, rfl⟩ := hpair
      simp [hnone]
    · have hother : ¬ (subject = subject' ∧ member = member') :=
        fun heq => hpair ⟨heq.1.symm, heq.2.symm⟩
      rw [if_neg hpair, if_neg hother, Option.or_none]

theorem parents_grant {r r' : Registry} {subject : Subject} {member : String}
    {caps : CapabilitySet} (h : r.grant subject member caps = (.ok (), r')) :
    r'.parents = r.parents := by
  obtain ⟨-, -, ⟨-, rfl⟩ | ⟨-, rfl⟩⟩ := grant_cases h
  · rfl
  · rfl

theorem granted?_declare {r r' : Registry} {cls parent : String}
    (h : r.declare cls parent = (.ok (), r')) (subject : Subject) (member : String) :
    r'.granted? subject member = r.granted? subject member := by
  rw [granted?, granted?, grants_declare h]

/-- A grant is stored exactly if a lookup of its pair finds it. -/
theorem mem_grants_iff (calls : List Call) (g : Grant) : g ∈ (ofCalls calls).grants ↔
    (ofCalls calls).granted? g.subject g.member = some g.capabilities := by
  refine ⟨?_, mem_grants_of_granted?⟩
  refine ofCalls_invariant
    (P := fun r => g ∈ r.grants → r.granted? g.subject g.member = some g.capabilities) ?_ ?_ ?_
    calls
  · intro r r' subject member caps ih hgrant hmem
    obtain ⟨-, -, ⟨-, rfl⟩ | ⟨hnone, rfl⟩⟩ := grant_cases hgrant
    · exact ih hmem
    · rcases List.mem_append.mp hmem with hold | hnew
      · rw [granted?_concat, ih hold, Option.some_or]
      · rw [List.mem_singleton.mp hnew, granted?_concat, hnone]
        simp
  · intro r r' cls parent ih hdeclare hmem
    rw [grants_declare hdeclare] at hmem
    rw [granted?_declare hdeclare]
    exact ih hmem
  · exact fun hmem => absurd hmem List.not_mem_nil

/-- Whatever calls follow, a pair that holds a set goes on holding it. -/
theorem granted?_foldl_apply {r : Registry} {subject : Subject} {member : String}
    {caps : CapabilitySet} (h : r.granted? subject member = some caps) (later : List Call) :
    (later.foldl apply r).granted? subject member = some caps := by
  refine foldl_apply_invariant (P := fun r => r.granted? subject member = some caps) ?_ ?_ h later
  · intro r r' subject' member' caps' hheld hgrant
    obtain ⟨-, -, ⟨-, rfl⟩ | ⟨-, rfl⟩⟩ := grant_cases hgrant
    · exact hheld
    · rw [granted?_concat, hheld, Option.some_or]
  · intro r r' cls parent hheld hdeclare
    rw [granted?_declare hdeclare]
    exact hheld

/-- When a grant is accepted. -/
theorem answer_grant_eq_ok_iff (r : Registry) (subject : Subject) (member : String)
    (caps : CapabilitySet) : r.answer (.grant subject member caps) = .ok () ↔
    Text.isReserved member = false ∧ (caps.contains .write && caps.contains .call) = false ∧
      (r.granted? subject member = none ∨ r.granted? subject member = some caps) := by
  constructor
  · intro h
    obtain ⟨hreserved, hboth, ⟨hgranted, -⟩ | ⟨hnone, -⟩⟩ := grant_cases (perform_of_answer h)
    · exact ⟨hreserved, hboth, .inr hgranted⟩
    · exact ⟨hreserved, hboth, .inl hnone⟩
  · rintro ⟨hreserved, hboth, hpair⟩
    have hvalid : validate member caps = .ok () := by simp [validate, hreserved, hboth]
    rcases hpair with hnone | hgranted
    · simp [answer, perform, grant, hvalid, hnone]
    · simp [answer, perform, grant, hvalid, hgranted]

/-- Granting on several members at once. -/
def Call.isBulk : Call → Bool
  | .grantAll _ _ _ => true
  | .grant _ _ _ | .declare _ _ => false

/-- A refused call that is not a bulk grant changes nothing. -/
theorem apply_of_refused {r : Registry} {call : Call} {refusal : GrantRefusal}
    (hsingle : call.isBulk = false) (h : r.answer call = .error refusal) : r.apply call = r := by
  cases call with
  | grant subject member caps => exact grant_of_refused (perform_of_answer h)
  | grantAll subject members caps => cases hsingle
  | declare cls parent => exact declare_of_refused (perform_of_answer h)

/-- Where a bulk grant has come to when it ends: the members `done` hold the set, and if any are
left, the first of them is refused and the call with it. -/
structure Call.BulkEnds (r : Registry) (subject : Subject) (caps : CapabilitySet)
    (members done rest : List String) : Prop where
  split : members = done ++ rest
  same : r.apply (.grantAll subject members caps) =
    (done.map fun member => Call.grant subject member caps).foldl apply r
  held : ∀ member ∈ done,
    (r.apply (.grantAll subject members caps)).granted? subject member = some caps
  accepted : rest = [] → r.answer (.grantAll subject members caps) = .ok ()
  refused : ∀ member tail, rest = member :: tail → ∃ refusal,
    (r.apply (.grantAll subject members caps)).answer (.grant subject member caps) =
      .error refusal ∧ r.answer (.grantAll subject members caps) = .error refusal

/-- A bulk grant is single grants one after the other, up to the first that is refused. -/
theorem exists_bulkEnds (r : Registry) (subject : Subject) (caps : CapabilitySet)
    (members : List String) : ∃ done rest, Call.BulkEnds r subject caps members done rest := by
  induction members generalizing r with
  | nil =>
    refine ⟨[], [], rfl, rfl, fun member hmem => absurd hmem List.not_mem_nil, fun _ => rfl, ?_⟩
    intro member tail h
    cases h
  | cons first others ih =>
    rcases hgrant : r.grant subject first caps with ⟨refusal | _, r'⟩
    · obtain rfl := grant_of_refused hgrant
      have hbulk : r'.grantAll subject caps (first :: others) = (.error refusal, r') := by
        rw [grantAll, hgrant]
      refine ⟨[], first :: others, rfl, ?_, fun member hmem => absurd hmem List.not_mem_nil,
        ?_, ?_⟩
      · simp only [apply, perform, hbulk, List.map_nil, List.foldl_nil]
      · intro h
        cases h
      · intro member tail h
        cases h
        exact ⟨refusal, by simp only [answer, apply, perform, hbulk, hgrant],
          by simp only [answer, perform, hbulk]⟩
    · have hbulk : r.grantAll subject caps (first :: others) = r'.grantAll subject caps others := by
        rw [grantAll, hgrant]
      have happly : r.apply (.grantAll subject (first :: others) caps) =
          r'.apply (.grantAll subject others caps) := by simp only [apply, perform, hbulk]
      have hanswer : r.answer (.grantAll subject (first :: others) caps) =
          r'.answer (.grantAll subject others caps) := by simp only [answer, perform, hbulk]
      have hfirst : r.apply (.grant subject first caps) = r' := by
        simp only [apply, perform, hgrant]
      obtain ⟨done, rest, ends⟩ := ih r'
      refine ⟨first :: done, rest, by rw [ends.split, List.cons_append], ?_, ?_, ?_, ?_⟩
      · rw [happly, ends.same, List.map_cons, List.foldl_cons, hfirst]
      · intro member hmem
        rw [happly]
        rcases List.mem_cons.mp hmem with rfl | hlater
        · have hnow : r'.granted? subject member = some caps := by
            rw [granted?_grant hgrant, if_pos ⟨rfl, rfl⟩]
          rw [ends.same]
          exact granted?_foldl_apply hnow _
        · exact ends.held member hlater
      · intro hrest
        rw [hanswer]
        exact ends.accepted hrest
      · intro member tail hrest
        rw [happly, hanswer]
        exact ends.refused member tail hrest

/-- What holds after every history of calls, whichever of them were accepted. The stored grants are
those that lookups find; none is on a reserved member, and none has both `write` and `call`. A pair
that holds a set holds it after all later calls. A grant is accepted exactly if it is valid and its
pair is free or holds the very set; it then settles that pair and nothing else. A refused grant or
declaration changes nothing. A bulk grant ends as `BulkEnds` says. -/
theorem grants_are_permanent (calls : List Call) :
    (∀ g, g ∈ (ofCalls calls).grants ↔
      (ofCalls calls).granted? g.subject g.member = some g.capabilities) ∧
    (∀ g ∈ (ofCalls calls).grants, Text.isReserved g.member = false ∧
      (g.capabilities.contains .write && g.capabilities.contains .call) = false) ∧
    (∀ subject member caps, (ofCalls calls).granted? subject member = some caps →
      ∀ later, (ofCalls (calls ++ later)).granted? subject member = some caps) ∧
    (∀ subject member caps, (ofCalls calls).answer (.grant subject member caps) = .ok () ↔
      Text.isReserved member = false ∧ (caps.contains .write && caps.contains .call) = false ∧
        ((ofCalls calls).granted? subject member = none ∨
          (ofCalls calls).granted? subject member = some caps)) ∧
    (∀ subject member caps, (ofCalls calls).answer (.grant subject member caps) = .ok () →
      (ofCalls (calls ++ [.grant subject member caps])).parents = (ofCalls calls).parents ∧
      ∀ subject' member',
        (ofCalls (calls ++ [.grant subject member caps])).granted? subject' member' =
          if subject' = subject ∧ member' = member then some caps
          else (ofCalls calls).granted? subject' member') ∧
    (∀ call refusal, call.isBulk = false → (ofCalls calls).answer call = .error refusal →
      ofCalls (calls ++ [call]) = ofCalls calls) ∧
    ∀ subject members caps,
      ∃ done rest, Call.BulkEnds (ofCalls calls) subject caps members done rest := by
  refine ⟨mem_grants_iff calls, valid_of_mem_grants calls, ?_,
    (ofCalls calls).answer_grant_eq_ok_iff, ?_, ?_, ?_⟩
  · intro subject member caps hheld later
    rw [ofCalls_append]
    exact granted?_foldl_apply hheld later
  · intro subject member caps haccepted
    have hgrant := perform_of_answer haccepted
    rw [ofCalls_concat]
    exact ⟨parents_grant hgrant, granted?_grant hgrant⟩
  · intro call refusal hsingle hrefused
    rw [ofCalls_concat]
    exact apply_of_refused hsingle hrefused
  · exact fun subject members caps => exists_bulkEnds _ subject caps members

/-- A grant on a class, and the declaration of a subclass. -/
def subclassCalls : List Call :=
  [.grant (.ofClass "Base") "color" (.ofList [.read]), .declare "Derived" "Base"]

/-- A bulk grant is refused at its second member, after it has granted the first. The pair that
holds a set keeps it, and a circular declaration is refused and changes nothing. -/
theorem grants_are_permanent_of_refused_bulk :
    (ofCalls subclassCalls).granted? (.ofClass "Base") "color" = some (.ofList [.read]) ∧
    (ofCalls (subclassCalls ++ [.grantAll (.ofClass "Base") ["switch", "color", "size"]
      (.ofList [.write])])).granted? (.ofClass "Base") "color" = some (.ofList [.read]) ∧
    (ofCalls subclassCalls).answer (.grantAll (.ofClass "Base") ["switch", "color", "size"]
      (.ofList [.write])) =
        .error (.alreadyGranted (.ofClass "Base") (.ofList [.read]) "color") ∧
    (ofCalls subclassCalls).answer (.declare "Base" "Derived") =
      .error (.circular "Base" "Derived") ∧
    ofCalls (subclassCalls ++ [.declare "Base" "Derived"]) = ofCalls subclassCalls := by
  have hcolor : (ofCalls subclassCalls).granted? (.ofClass "Base") "color" =
      some (.ofList [.read]) := by decide
  have hcircular : (ofCalls subclassCalls).answer (.declare "Base" "Derived") =
      .error (.circular "Base" "Derived") := by rfl
  obtain ⟨-, -, stays, -, -, refused, -⟩ := grants_are_permanent subclassCalls
  exact ⟨hcolor, stays _ _ _ hcolor _, by rfl, hcircular, refused _ _ rfl hcircular⟩

end Confinement.Registry
