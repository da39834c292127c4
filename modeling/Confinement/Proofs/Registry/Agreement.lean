import Confinement.Proofs.Registry.Hierarchy

/-!
# Calls in any order

Each call is checked against what the calls before it have left. Whether all of a list are accepted
is nevertheless a question about the list as a whole: no class is given two parents, nothing comes
to stand above itself, every grant is valid, and no member of a subject is given two sets. The
registry then holds what the calls say and nothing else. Neither depends on the order.
-/
namespace Confinement.Registry

variable {r : Registry} {call : Call} {calls : List Call}

/-- One after the other, the calls are all accepted. -/
def Accepts (r : Registry) : List Call → Prop
  | [] => True
  | call :: calls => r.answer call = .ok () ∧ (r.apply call).Accepts calls

theorem accepts_append {later : List Call} :
    r.Accepts (calls ++ later) ↔ r.Accepts calls ∧ (calls.foldl apply r).Accepts later := by
  induction calls generalizing r with
  | nil => simp [Accepts]
  | cons call calls ih => simp only [List.cons_append, Accepts, ih, and_assoc, List.foldl_cons]

/-- The calls leave room for each other, whatever their order. -/
structure Agree (calls : List Call) : Prop where
  one_parent : ∀ cls p q, .declare cls p ∈ calls → .declare cls q ∈ calls → p = q
  acyclic : Acyclic fun cls parent => .declare cls parent ∈ calls
  valid : ∀ subject member caps, .grant subject member caps ∈ calls →
    Text.isReserved member = false ∧ (caps.contains .write && caps.contains .call) = false
  one_set : ∀ subject member a b, .grant subject member a ∈ calls →
    .grant subject member b ∈ calls → a = b

theorem parent_apply_iff (hsingle : call.isBulk = false) (h : r.answer call = .ok ())
    {cls parent : String} :
    (r.apply call).Parent cls parent ↔ r.Parent cls parent ∨ call = .declare cls parent := by
  cases call with
  | grant subject member caps =>
    rw [Parent, parents_grant (perform_of_answer h)]
    simp [Parent]
  | grantAll subject members caps => cases hsingle
  | declare cls' parent' =>
    rw [parent_declare_iff (perform_of_answer h)]
    simp [eq_comm]

theorem granted?_apply_iff (hsingle : call.isBulk = false) (h : r.answer call = .ok ())
    {subject : Subject} {member : String} {caps : CapabilitySet} :
    (r.apply call).granted? subject member = some caps ↔
      r.granted? subject member = some caps ∨ call = .grant subject member caps := by
  cases call with
  | grant subject' member' caps' =>
    obtain ⟨-, -, hfree⟩ := (r.answer_grant_eq_ok_iff subject' member' caps').mp h
    rw [granted?_grant (perform_of_answer h)]
    by_cases hpair : subject = subject' ∧ member = member'
    · obtain ⟨rfl, rfl⟩ := hpair
      rcases hfree with hnone | hgranted
      · simp [hnone]
      · simp [hgranted]
    · rw [if_neg hpair]
      have hother : ¬ Call.grant subject' member' caps' = .grant subject member caps := by
        intro heq
        cases heq
        exact hpair ⟨rfl, rfl⟩
      simp [hother]
  | grantAll subject' members caps' => cases hsingle
  | declare cls parent =>
    rw [granted?_declare (perform_of_answer h)]
    simp

theorem parent_foldl_iff (hsingle : ∀ call ∈ calls, call.isBulk = false) (h : r.Accepts calls)
    {cls parent : String} : (calls.foldl apply r).Parent cls parent ↔
      r.Parent cls parent ∨ .declare cls parent ∈ calls := by
  induction calls generalizing r with
  | nil => simp
  | cons call calls ih =>
    obtain ⟨hfirst, hrest⟩ := h
    rw [List.foldl_cons, ih (fun c hc => hsingle c (List.mem_cons_of_mem call hc)) hrest,
      parent_apply_iff (hsingle call List.mem_cons_self) hfirst, List.mem_cons, or_assoc, eq_comm]

theorem granted?_foldl_iff (hsingle : ∀ call ∈ calls, call.isBulk = false) (h : r.Accepts calls)
    {subject : Subject} {member : String} {caps : CapabilitySet} :
    (calls.foldl apply r).granted? subject member = some caps ↔
      r.granted? subject member = some caps ∨ .grant subject member caps ∈ calls := by
  induction calls generalizing r with
  | nil => simp
  | cons call calls ih =>
    obtain ⟨hfirst, hrest⟩ := h
    rw [List.foldl_cons, ih (fun c hc => hsingle c (List.mem_cons_of_mem call hc)) hrest,
      granted?_apply_iff (hsingle call List.mem_cons_self) hfirst, List.mem_cons, or_assoc,
      @eq_comm Call call]

theorem parent_ofCalls_iff (hsingle : ∀ call ∈ calls, call.isBulk = false)
    (h : empty.Accepts calls) {cls parent : String} :
    (ofCalls calls).Parent cls parent ↔ .declare cls parent ∈ calls :=
  (parent_foldl_iff hsingle h).trans (or_iff_right fun hparent => nomatch hparent)

theorem granted?_ofCalls_iff (hsingle : ∀ call ∈ calls, call.isBulk = false)
    (h : empty.Accepts calls) {subject : Subject} {member : String} {caps : CapabilitySet} :
    (ofCalls calls).granted? subject member = some caps ↔ .grant subject member caps ∈ calls :=
  (granted?_foldl_iff hsingle h).trans (or_iff_right fun hgranted => nomatch hgranted)

/-- No grant is stored twice. -/
theorem nodup_grants (calls : List Call) : (ofCalls calls).grants.Nodup := by
  refine ofCalls_invariant (P := fun r => r.grants.Nodup) ?_ ?_ List.nodup_nil calls
  · intro r r' subject member caps hnodup hgrant
    obtain ⟨-, -, ⟨-, rfl⟩ | ⟨hnone, rfl⟩⟩ := grant_cases hgrant
    · exact hnodup
    · have hfind := List.find?_eq_none.mp (Option.map_eq_none_iff.mp hnone)
      have hnew : (⟨subject, member, caps⟩ : Grant) ∉ r.grants := by
        intro hmem
        simpa using hfind _ hmem
      refine List.nodup_append.mpr ⟨hnodup, List.nodup_singleton _, fun g hg g' hg' heq => ?_⟩
      rw [List.mem_singleton.mp hg'] at heq
      exact hnew (heq ▸ hg)
  · intro r r' cls parent hnodup hdeclare
    rwa [grants_declare hdeclare]

theorem agree_of_accepts (hsingle : ∀ call ∈ calls, call.isBulk = false)
    (h : empty.Accepts calls) : Agree calls := by
  refine ⟨fun cls p q hp hq => ?_, ?_, fun subject member caps hmem => ?_,
    fun subject member a b ha hb => ?_⟩
  · rw [← parent_ofCalls_iff hsingle h] at hp hq
    exact Option.some.inj (hp.symm.trans hq)
  · exact (acyclic_ofCalls calls).mono fun cls parent => (parent_ofCalls_iff hsingle h).mpr
  · rw [← granted?_ofCalls_iff hsingle h] at hmem
    exact valid_of_mem_grants calls _ (mem_grants_of_granted? hmem)
  · rw [← granted?_ofCalls_iff hsingle h] at ha hb
    exact Option.some.inj (ha.symm.trans hb)

/-- A call is accepted if it agrees with all that the registry holds. -/
theorem answer_eq_ok_of_agree {all : List Call} (agree : Agree all)
    (hparents : ∀ cls parent, r.Parent cls parent → .declare cls parent ∈ all)
    (hgrants : ∀ subject member caps,
      r.granted? subject member = some caps → .grant subject member caps ∈ all)
    (hsingle : call.isBulk = false) (hmem : call ∈ all) : r.answer call = .ok () := by
  cases call with
  | grant subject member caps =>
    obtain ⟨hreserved, hboth⟩ := agree.valid subject member caps hmem
    refine (r.answer_grant_eq_ok_iff subject member caps).mpr ⟨hreserved, hboth, ?_⟩
    cases hgranted : r.granted? subject member with
    | none => exact .inl rfl
    | some other =>
      have heq := agree.one_set subject member other caps (hgrants _ _ _ hgranted) hmem
      exact .inr (congrArg some heq)
  | grantAll subject members caps => cases hsingle
  | declare cls parent =>
    cases hanswer : r.answer (.declare cls parent) with
    | ok _ => rfl
    | error refusal =>
      -- each of the three reasons to refuse contradicts the agreement
      have hreasons := answer_declare_eq_error_iff (agree.acyclic.mono hparents) cls parent
      rcases hreasons.mp ⟨refusal, hanswer⟩ with rfl | hcircle | ⟨other, hother, hne⟩
      · exact absurd (.single hmem) (agree.acyclic parent)
      · have hup := Relation.TransGen.mono hparents parent cls hcircle
        exact absurd (.head hmem hup) (agree.acyclic cls)
      · exact absurd (agree.one_parent cls other parent (hparents _ _ hother) hmem) hne

theorem accepts_of_agree {all : List Call} (agree : Agree all)
    (hparents : ∀ cls parent, r.Parent cls parent → .declare cls parent ∈ all)
    (hgrants : ∀ subject member caps,
      r.granted? subject member = some caps → .grant subject member caps ∈ all)
    (hsingle : ∀ call ∈ calls, call.isBulk = false) (hall : calls ⊆ all) : r.Accepts calls := by
  induction calls generalizing r with
  | nil => exact trivial
  | cons call calls ih =>
    have hcall := hsingle call List.mem_cons_self
    have hmem := hall List.mem_cons_self
    have hfirst := answer_eq_ok_of_agree agree hparents hgrants hcall hmem
    refine ⟨hfirst, ih (fun cls parent h => ?_) (fun subject member caps h => ?_)
      (fun c hc => hsingle c (List.mem_cons_of_mem call hc)) fun c hc =>
        hall (List.mem_cons_of_mem call hc)⟩
    · rcases (parent_apply_iff hcall hfirst).mp h with hold | rfl
      · exact hparents cls parent hold
      · exact hmem
    · rcases (granted?_apply_iff hcall hfirst).mp h with hold | rfl
      · exact hgrants subject member caps hold
      · exact hmem

/-- Single calls are all accepted exactly if they agree. -/
theorem accepts_iff_agree (hsingle : ∀ call ∈ calls, call.isBulk = false) :
    empty.Accepts calls ↔ Agree calls := by
  refine ⟨agree_of_accepts hsingle, fun agree => accepts_of_agree agree ?_ ?_ hsingle fun _ h => h⟩
  · exact fun cls parent hparent => nomatch hparent
  · exact fun subject member caps hgranted => nomatch hgranted

theorem Agree.perm {calls' : List Call} (hperm : calls'.Perm calls) (agree : Agree calls) :
    Agree calls' where
  one_parent cls p q hp hq := agree.one_parent cls p q (hperm.subset hp) (hperm.subset hq)
  acyclic := agree.acyclic.mono fun _ _ h => hperm.subset h
  valid subject member caps h := agree.valid subject member caps (hperm.subset h)
  one_set subject member a b ha hb :=
    agree.one_set subject member a b (hperm.subset ha) (hperm.subset hb)

/-- The registry depends on which calls were made and not on their order. -/
theorem ofCalls_perm {calls' : List Call} (hperm : calls'.Perm calls)
    (hsingle : ∀ call ∈ calls, call.isBulk = false) (h : empty.Accepts calls)
    (h' : empty.Accepts calls') :
    (∀ cls, (ofCalls calls').parents.find? cls = (ofCalls calls).parents.find? cls) ∧
    (∀ subject member,
      (ofCalls calls').granted? subject member = (ofCalls calls).granted? subject member) ∧
    (ofCalls calls').grants.Perm (ofCalls calls).grants := by
  have hsingle' : ∀ call ∈ calls', call.isBulk = false :=
    fun call hcall => hsingle call (hperm.subset hcall)
  have hgranted (subject : Subject) (member : String) :
      (ofCalls calls').granted? subject member = (ofCalls calls).granted? subject member := by
    refine Option.ext fun caps => ?_
    rw [granted?_ofCalls_iff hsingle' h', granted?_ofCalls_iff hsingle h, hperm.mem_iff]
  refine ⟨fun cls => Option.ext fun parent => ?_, hgranted, ?_⟩
  · exact (parent_ofCalls_iff hsingle' h').trans
      (hperm.mem_iff.trans (parent_ofCalls_iff hsingle h).symm)
  · refine (List.perm_ext_iff_of_nodup (nodup_grants calls') (nodup_grants calls)).mpr fun g => ?_
    rw [mem_grants_iff, mem_grants_iff, hgranted]

end Confinement.Registry
