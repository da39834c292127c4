import Confinement.Proofs.Invocation.Call

/-!
# The boundary for host exceptions

Code that runs makes calls, and the code that it calls makes calls again. A course describes a piece
of code as far as that matters: what it does by itself, the calls that it makes, the blocks that it
guards, the modules that it has run, and how it ends. A ledger takes down what every call answers
and how every guarded block ends, at any depth. If guest code raises no raw host exception by
itself, then no call is ever answered with one, and no block of guest code ends with one.
-/
namespace Confinement

namespace Invocation

/-- The result is a raw host exception. -/
def Raw {α : Type} (result : Except Fault α) : Prop := ∃ ex, result = .error (.host ex)

/-- What comes back to code of either side. -/
inductive Receipt where
  /-- The answer to a call. -/
  | answer (side : FunctionOrigin) (result : Except Fault Value)
  /-- The ending of a guarded block. -/
  | block (side : FunctionOrigin) (result : Except Fault Value)

/-- No call answers with a raw host exception, and no block of guest code ends with one. -/
def Receipt.Civil : Receipt → Prop
  | .answer _ result => ¬ Raw result
  | .block side result => side = .guest → ¬ Raw result

/-- The state of running code, and beside it all that has come back to any code so far. -/
structure Ledger (τ : Type) where
  own : τ
  receipts : List Receipt := []

/-- The course of a piece of code. -/
inductive Course (code σ : Type) where
  | ends (result : Except Fault Value)
  /-- Something of its own doing, after which it looks around. -/
  | act (change : Frame code σ → Frame code σ) (next : Frame code σ → Course code σ)
  | call (c : Call) (next : Except Fault Value → Course code σ)
  /-- A block whose faults it handles. -/
  | guard (block : Course code σ) (next : Except Fault CatchOutcome → Course code σ)
  /-- Code of either side that is run for itself, such as the body of a module. -/
  | visit (side : FunctionOrigin) (body : Course code σ)
      (next : Except Fault Value → Course code σ)

end Invocation

section Ledger

open Invocation

variable {code τ : Type}

def Frame.receipts (fr : Frame code (Ledger τ)) : List Receipt := fr.world.state.receipts

def Frame.note (fr : Frame code (Ledger τ)) (r : Receipt) : Frame code (Ledger τ) :=
  { fr with world := { fr.world with state :=
    { fr.world.state with receipts := fr.receipts ++ [r] } } }

/-- Takes down how a part has ended. -/
def Invocation.noting (receipt : Except Fault Value → Receipt) (part : Run code (Ledger τ) Value) :
    Run code (Ledger τ) Value := fun fr =>
  ((part fr).1, (part fr).2.note (receipt (part fr).1))

/-- Every guest function has guest code. -/
def Store.Separated (side : code → FunctionOrigin) (s : Store code) : Prop :=
  ∀ id f c, s.function? id = some f → f.origin = .guest → f.body.code? = some c → side c = .guest

theorem Store.Adds.separated {side : code → FunctionOrigin} {s t : Store code} (h : s.Adds t)
    (separated : s.Separated side) : t.Separated side := by
  intro id f c hf hguest hcode
  rcases h.idle id f hf with hold | hidle
  · exact separated id f c hold hguest hcode
  · unfold FunctionRecord.isPowerless at hidle
    split at hidle
    · rename_i hbody
      rw [hbody] at hcode
      cases hcode
    · cases hidle

/-- If functions were separated, they still are, and nothing uncivil has come back to any code. -/
def Frame.Orderly (side : code → FunctionOrigin) (fr fr' : Frame code (Ledger τ)) : Prop :=
  fr.store.Separated side → fr'.store.Separated side ∧
    ∃ new, fr'.receipts = fr.receipts ++ new ∧ ∀ r ∈ new, r.Civil

namespace Frame.Orderly

variable {side : code → FunctionOrigin} {fr fr' : Frame code (Ledger τ)}

theorem of_receipts_eq (hseparated : fr.store.Separated side → fr'.store.Separated side)
    (hreceipts : fr'.receipts = fr.receipts) : fr.Orderly side fr' := by
  intro separated
  refine ⟨hseparated separated, [], ?_, ?_⟩
  · rw [hreceipts, List.append_nil]
  · simp

theorem refl (fr : Frame code (Ledger τ)) : fr.Orderly side fr := .of_receipts_eq id rfl

theorem trans {fr'' : Frame code (Ledger τ)} (h : fr.Orderly side fr')
    (h' : fr'.Orderly side fr'') : fr.Orderly side fr'' := by
  intro separated
  obtain ⟨separated', new, hnew, hcivil⟩ := h separated
  obtain ⟨separated'', more, hmore, hcivil'⟩ := h' separated'
  refine ⟨separated'', new ++ more, ?_, fun r hr => ?_⟩
  · rw [hmore, hnew, List.append_assoc]
  · rcases List.mem_append.mp hr with hr | hr
    · exact hcivil r hr
    · exact hcivil' r hr

theorem noting {receipt : Except Fault Value → Receipt} {part : Run code (Ledger τ) Value}
    (ran : fr.Orderly side (part fr).2) (hcivil : (receipt (part fr).1).Civil) :
    fr.Orderly side (noting receipt part fr).2 := by
  refine ran.trans fun separated => ⟨separated, [receipt (part fr).1], rfl, fun r hr => ?_⟩
  rwa [List.mem_singleton.mp hr]

end Frame.Orderly

/-- Code that leaves all in order, and raises no raw host exception if it is guest code. -/
structure Runner.Orderly (side : code → FunctionOrigin) (run : Runner code (Ledger τ)) : Prop where
  leaves : ∀ c receiver args (fr : Frame code (Ledger τ)),
    fr.Orderly side (run c receiver args fr).2
  civil : ∀ c receiver args (fr : Frame code (Ledger τ)), side c = .guest →
    fr.store.Separated side → ¬ Raw (run c receiver args fr).1

namespace Runner.Orderly

variable {side : code → FunctionOrigin} {run : Runner code (Ledger τ)} (h : Runner.Orderly side run)

include h

theorem respects : Runner.Respects run (Frame.Orderly side) where
  refl := .refl
  trans := .trans
  tame fr fault := .of_receipts_eq (fr.adds_tame fault).separated rfl
  create fr cls := .of_receipts_eq (adds_newInstance fr.store cls).separated rfl
  code := h.leaves

/-- The guest functions that a call comes to run have guest code, and all others contain. -/
theorem not_raw_make {fr : Frame code (Ledger τ)} (separated : fr.store.Separated side) (c : Call) :
    ¬ Raw (c.make run fr).1 := by
  rintro ⟨ex, hraised⟩
  obtain ⟨f, left, hguest, id, receiver, args, start, n, inner, own, enters, -, hf, hown⟩ :=
    Call.exists_ends_of_raised hraised
  -- at the time when the function is run, guest functions still have guest code
  obtain ⟨separated', -⟩ := enters.respects h.respects separated
  have hraw : Raw (runOwn run f.body own args start).1 := ⟨ex, by rw [hown]⟩
  have guest {c : code} (hcode : f.body.code? = some c) :
      ¬ Raw (run c own args start).1 :=
    h.civil c own args start (separated' inner f c hf hguest hcode) separated'
  cases hbody : f.body with
  | native c => exact guest (by rw [hbody]; rfl) (by rwa [hbody] at hraw)
  | closure c => exact guest (by rw [hbody]; rfl) (by rwa [hbody] at hraw)
  | standIn text =>
    rw [hbody] at hraw
    obtain ⟨_, h⟩ := hraw
    cases h
  | bound target r =>
    rw [hbody] at hraw
    obtain ⟨_, h⟩ := hraw
    cases h

end Runner.Orderly

theorem not_raw_catchGuest {σ : Type} (block : Run code σ Value) (fr : Frame code σ) :
    ¬ Raw (catchGuest block fr).1 := by
  rintro ⟨ex, h⟩
  unfold catchGuest at h
  rcases hblock : block fr with ⟨fault | v, left⟩
  · rw [hblock] at h
    cases hcatch : fault.isCatchable with
    | true => simp [hcatch] at h
    | false =>
      obtain rfl : fault = .host ex := by simpa [hcatch] using h
      cases hcatch
  · rw [hblock] at h
    cases h

namespace Invocation.Course

/-- Follows the course of code of the side `who`; `run` runs the functions that it calls. -/
def follow (run : Runner code (Ledger τ)) :
    Course code (Ledger τ) → FunctionOrigin → Run code (Ledger τ) Value
  | .ends result, _, fr => (result, fr)
  | .act change next, who, fr => (next (change fr)).follow run who (change fr)
  | .call c next, who, fr =>
    let (result, fr) := noting (.answer who) (c.make run) fr
    (next result).follow run who fr
  | .guard block next, who, fr =>
    let (result, fr) := catchGuest (noting (.block who) (block.follow run who)) fr
    (next result).follow run who fr
  | .visit side body next, who, fr =>
    let (result, fr) := body.follow run side fr
    (next result).follow run who fr

/-- By itself the code mixes no functions up and does not touch the ledger. If it is guest code, it
raises no raw host exception, as long as none has come back to it. -/
def Fair (side : code → FunctionOrigin) : Course code (Ledger τ) → FunctionOrigin → Prop
  | .ends result, who => who = .guest → ¬ Raw result
  | .act change next, who =>
    (∀ fr, fr.store.Separated side → (change fr).store.Separated side) ∧
      (∀ fr, (change fr).receipts = fr.receipts) ∧ ∀ fr, (next fr).Fair side who
  | .call _ next, who => ∀ result, ¬ Raw result → (next result).Fair side who
  | .guard block next, who =>
    block.Fair side who ∧ ∀ result, ¬ Raw result → (next result).Fair side who
  | .visit within body next, who =>
    body.Fair side within ∧
      ∀ result, (within = .guest → ¬ Raw result) → (next result).Fair side who

/-- A fair course leaves all in order, and so does all that it calls. -/
theorem orderly_follow {side : code → FunctionOrigin} {run : Runner code (Ledger τ)}
    (orderly : Runner.Orderly side run) {who : FunctionOrigin} {k : Course code (Ledger τ)}
    (fair : k.Fair side who) {fr : Frame code (Ledger τ)} (separated : fr.store.Separated side) :
    fr.Orderly side (k.follow run who fr).2 ∧ (who = .guest → ¬ Raw (k.follow run who fr).1) := by
  induction k generalizing fr who with
  | ends result => exact ⟨.refl fr, fair⟩
  | act change next ih =>
    obtain ⟨keepsSeparated, keepsReceipts, fairNext⟩ := fair
    have changed : fr.Orderly side (change fr) :=
      .of_receipts_eq (keepsSeparated fr) (keepsReceipts fr)
    obtain ⟨rest, ends⟩ := ih (change fr) (fairNext _) (keepsSeparated fr separated)
    exact ⟨changed.trans rest, ends⟩
  | call c next ih =>
    have answered : ¬ Raw (c.make run fr).1 := orderly.not_raw_make separated c
    have noted : fr.Orderly side (noting (.answer who) (c.make run) fr).2 :=
      (c.respects_make orderly.respects fr).noting answered
    obtain ⟨rest, ends⟩ := ih _ (fair _ answered) (noted separated).1
    exact ⟨noted.trans rest, ends⟩
  | guard block next ihBlock ihNext =>
    -- the ending of the block is taken down before the catch tames it
    obtain ⟨ran, ended⟩ := ihBlock fair.1 separated
    have noted : fr.Orderly side (noting (.block who) (block.follow run who) fr).2 :=
      ran.noting ended
    have guarded : fr.Orderly side
        (catchGuest (noting (.block who) (block.follow run who)) fr).2 :=
      catchGuest_invariant (fun left fault h => h.trans (orderly.respects.tame left fault)) noted
    obtain ⟨rest, ends⟩ := ihNext _ (fair.2 _ (not_raw_catchGuest _ fr)) (guarded separated).1
    exact ⟨guarded.trans rest, ends⟩
  | visit within body next ihBody ihNext =>
    obtain ⟨ran, ended⟩ := ihBody fair.1 separated
    obtain ⟨rest, ends⟩ := ihNext _ (fair.2 _ ended) (ran separated).1
    exact ⟨ran.trans rest, ends⟩

end Invocation.Course

namespace Invocation

/-- Function code of both sides, by its courses. -/
structure Program (code τ : Type) where
  side : code → FunctionOrigin
  course : code → Option Value → List Value → Course code (Ledger τ)

namespace Program

/-- Runs function code with at most this many calls nested in each other. -/
def runAt (p : Program code τ) : Nat → Runner code (Ledger τ)
  | 0 => fun _ _ _ fr => (.ok .undefined, fr)
  | depth + 1 => fun c receiver args =>
    (p.course c receiver args).follow (p.runAt depth) (p.side c)

/-- Raw host exceptions are raised by host code only. -/
def Fair (p : Program code τ) : Prop :=
  ∀ c receiver args, (p.course c receiver args).Fair p.side (p.side c)

theorem Fair.orderly_runAt {p : Program code τ} (fair : p.Fair) (depth : Nat) :
    Runner.Orderly p.side (p.runAt depth) := by
  induction depth with
  | zero => exact ⟨fun _ _ _ fr => .refl fr, fun _ _ _ _ _ _ ⟨_, h⟩ => nomatch h⟩
  | succ depth ih =>
    refine ⟨fun c receiver args fr separated => ?_, fun c receiver args fr hside separated => ?_⟩
    · exact (Course.orderly_follow ih (fair c receiver args) separated).1 separated
    · exact (Course.orderly_follow ih (fair c receiver args) separated).2 hside

end Program

/-- Whatever code does: a call that comes to run host functions only, under any number of wrappers,
never ends with a raw host exception. Where the body of a host function raises one, the call throws
the record that it is tamed into, and any other fault of the body comes out as it is. Hence where
raw host exceptions are raised by host code only, no call is ever answered with one and no block of
guest code ever ends with one, at any depth of calls. -/
theorem host_exceptions_stay_behind {σ : Type} :
    (∀ (run : Runner code σ) (fr : Frame code σ) (c : Call),
      (∀ f result left, c.Ends run fr f result left → f.origin = .host) →
        ¬ Raw (c.make run fr).1) ∧
    (∀ (run : Runner code σ) (fr left : Frame code σ) (c : Call) (f : FunctionRecord code)
      (fault : Fault), c.Ends run fr f (.error fault) left → f.origin = .host →
        (∀ ex, fault = .host ex → c.make run fr =
          (.error (.thrown (left.tame (.host ex)).1), (left.tame (.host ex)).2)) ∧
        ((∀ ex, fault ≠ .host ex) → c.make run fr = (.error fault, left))) ∧
    ∀ (p : Program code τ) (depth : Nat) (who : FunctionOrigin) (k : Course code (Ledger τ))
      (fr : Frame code (Ledger τ)), p.Fair → k.Fair p.side who → fr.store.Separated p.side →
        (∃ new, (k.follow (p.runAt depth) who fr).2.receipts = fr.receipts ++ new ∧
          ∀ r ∈ new, r.Civil) ∧
        (who = .guest → ¬ Raw (k.follow (p.runAt depth) who fr).1) := by
  refine ⟨fun run fr c hosts => ?_, fun run fr left c f fault ends hhost => ⟨?_, ?_⟩,
    fun p depth who k fr fair fairCourse separated => ?_⟩
  · rintro ⟨ex, hraised⟩
    obtain ⟨f, left, hguest, ends⟩ := Call.exists_ends_of_raised hraised
    rw [hosts f _ left ends] at hguest
    cases hguest
  · rintro ex rfl
    exact ends.make_eq hhost rfl
  · intro hother
    exact ends.make_eq hhost (contain_of_ne (fun ex h => hother ex (Except.error.inj h)) .host left)
  · obtain ⟨orderly, ended⟩ :=
      Course.orderly_follow (fair.orderly_runAt depth) fairCourse separated
    exact ⟨(orderly separated).2, ended⟩

/-- A host function that raises, two wrappers around it, and a guest function. -/
def raisingStore : Store FunctionOrigin :=
  ⟨#[⟨.function ⟨some "raise", .simple, .host, 0, .native .host⟩, .empty, true⟩,
    ⟨.function ⟨some "bound raise", .simple, .host, 1, .bound 0 .null⟩, .empty, true⟩,
    ⟨.function ⟨some "bound bound raise", .simple, .host, 2, .bound 1 .null⟩, .empty, true⟩,
    ⟨.function ⟨some "guest", .simple, .guest, 3, .closure .guest⟩, .empty, false⟩]⟩

def rawException : HostException := ⟨0, "HostError", "message", .empty⟩

/-- The guest calls the outer wrapper twice, first under guard, and lets out the second result. -/
def raisingProgram : Program FunctionOrigin Unit where
  side := id
  course
    | .host, _, _ => .ends (.error (.host rawException))
    | .guest, _, _ => .guard (.call (.function (.function 2) []) .ends) fun _ =>
        .call (.function (.function 2) []) .ends

/-- A module that calls the guest function. -/
def raisingModule : Course FunctionOrigin (Ledger Unit) :=
  .visit .guest (.call (.function (.function 3) []) .ends) .ends

def raisingFrame : Frame FunctionOrigin (Ledger Unit) where
  context :=
    { moduleId := "main"
      loader := { registry := .empty, report := fun _ _ _ world => world }
      scope := 0
      sandbox := .new ⟨Emission.defaultStem, .ofIndex 0⟩ }
  world := { vault := { store := raisingStore, records := #[none] }, state := { own := () } }

theorem raisingProgram_fair : raisingProgram.Fair := by
  intro c receiver args
  cases c with
  | host => exact fun hguest => nomatch hguest
  | guest => exact ⟨fun _ h _ => h, fun _ _ _ h _ => h⟩

theorem raisingStore_separated : raisingStore.Separated raisingProgram.side := by
  intro id f c hf hguest hcode
  match id with
  | 0 | 1 | 2 =>
    cases hf
    cases hguest
  | 3 =>
    cases hf
    cases hcode
    rfl
  | _ + 4 => cases hf

/-- The exception is raised raw under two wrappers, and thrown as its record. Over the whole run
four results come back to guest code, each of them that record. -/
theorem host_exceptions_stay_behind_of_wrappers :
    ¬ Raw ((Call.function (.function 2) []).make (raisingProgram.runAt 1) raisingFrame).1 ∧
    (Call.function (.function 2) []).make (raisingProgram.runAt 1) raisingFrame =
      (.error (.thrown (.object 4)), (raisingFrame.tame (.host rawException)).2) ∧
    (raisingModule.follow (raisingProgram.runAt 2) .guest raisingFrame).2.receipts =
      [.answer .guest (.error (.thrown (.object 4))), .block .guest (.error (.thrown (.object 4))),
        .answer .guest (.error (.thrown (.object 4))),
        .answer .guest (.error (.thrown (.object 4)))] ∧
    ¬ Raw (raisingModule.follow (raisingProgram.runAt 2) .guest raisingFrame).1 := by
  have wraps : raisingStore.Wraps 2 2 none 0 (some .null) :=
    .bound rfl rfl (.bound rfl rfl (.bare rfl rfl))
  have ends : (Call.function (.function 2) []).Ends (raisingProgram.runAt 1) raisingFrame
      ⟨some "raise", .simple, .host, 0, .native .host⟩ (.error (.host rawException)) raisingFrame :=
    ⟨2, none, [], raisingFrame, 2, 0, some .null, .function ⟨_, rfl, rfl⟩, wraps, rfl, rfl⟩
  have hosts (f : FunctionRecord FunctionOrigin) (result : Except Fault Value)
      (left : Frame FunctionOrigin (Ledger Unit)) (h : (Call.function (.function 2) []).Ends
        (raisingProgram.runAt 1) raisingFrame f result left) : f.origin = .host := by
    obtain ⟨id, receiver, args, start, n, inner, own, enters, hwraps, hf, -⟩ := h
    cases enters
    obtain rfl : 0 = inner := hwraps.unbound_eq
    cases hf
    rfl
  have fair : raisingModule.Fair raisingProgram.side .guest :=
    ⟨fun _ h _ => h, fun _ h _ => h rfl⟩
  have boundary := @host_exceptions_stay_behind FunctionOrigin Unit (Ledger Unit)
  exact ⟨boundary.1 _ _ _ hosts, (boundary.2.1 _ _ _ _ _ _ ends rfl).1 rawException rfl, rfl,
    (boundary.2.2 raisingProgram 2 .guest raisingModule raisingFrame raisingProgram_fair fair
      raisingStore_separated).2 rfl⟩

end Invocation

end Ledger

end Confinement
