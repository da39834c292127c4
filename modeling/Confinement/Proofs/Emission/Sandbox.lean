import Confinement.Emission.Sandbox
import Confinement.Proofs.Emission.Forest
import Confinement.Proofs.Emission.Style

/-!
# A sandbox is two machines side by side

Markup operations go to the builder, style calls to the scoper, and each of the two goes on as if it
were alone until one of them fails or the sandbox is aborted. Three flags tell of a failure: the
poison of the builder, that of the scoper, and the abortion of the sandbox. They agree: a sandbox is
aborted exactly if it was told so or one of its parts is poisoned. From then on it does not change.
-/
namespace Confinement.Emission

namespace SandboxOp

/-- What an operation on a sandbox asks of the builder. -/
def markup? (token : Token) : SandboxOp → Option MarkupOp
  | .markup op => some op
  | .scopedId loc => some (.addAttribute "id" (token.scopedId loc))
  | .style _ | .abort _ => none

/-- What an operation on a sandbox asks of the scoper. -/
def style? : SandboxOp → Option (List String)
  | .style parts => some parts
  | .markup _ | .scopedId _ | .abort _ => none

def isAbort : SandboxOp → Bool
  | .abort _ => true
  | .markup _ | .scopedId _ | .style _ => false

/-- The part of a sequence that concerns markup. -/
def markupOps (token : Token) (ops : List SandboxOp) : List MarkupOp :=
  ops.filterMap (·.markup? token)

/-- The part of a sequence that concerns style. -/
def styleCalls (ops : List SandboxOp) : List (List String) := ops.filterMap (·.style?)

theorem markupOps_append (token : Token) (ops more : List SandboxOp) :
    markupOps token (ops ++ more) = markupOps token ops ++ markupOps token more :=
  List.filterMap_append

theorem styleCalls_append (ops more : List SandboxOp) :
    styleCalls (ops ++ more) = styleCalls ops ++ styleCalls more := List.filterMap_append

end SandboxOp

open SandboxOp

namespace MarkupBuilder

/-- An operation on a usable builder fails exactly if it poisons the builder. -/
theorem apply_eq_ok_iff {b : MarkupBuilder} (hp : b.poisoned = false) (op : MarkupOp) :
    (b.apply op).1 = .ok () ↔ (b.apply op).2.poisoned = false := by
  have hfail (v : Violation) : (b.fail v).1 = .ok () ↔ (b.fail v).2.poisoned = false := by
    simp [fail]
  cases op <;> simp only [apply, beginTag, addAttribute, finishOpenTag, addText, rawInner, endTag,
    whenSettled, whenUsable, hp, Bool.false_eq_true, if_false]
  all_goals
    repeat' split
    all_goals first | exact hfail _ | simp [append, hp]

/-- No start tag is unfinished and no element is open. -/
def IsComplete (b : MarkupBuilder) : Prop := b.pending = none ∧ b.opened = []

theorem exists_finish_iff {b : MarkupBuilder} (hp : b.poisoned = false) :
    (∃ m, b.finish = .ok m) ↔ b.IsComplete := by
  rw [finish, hp, IsComplete]
  cases b.pending <;> cases b.opened <;> simp

theorem run_append (b : MarkupBuilder) (ops more : List MarkupOp) :
    b.run (ops ++ more) = (b.run ops).run more := List.foldl_append

end MarkupBuilder

namespace StyleScoper

theorem emit_eq_ok_iff {s : StyleScoper} (hp : s.poisoned = false) (parts : List String) :
    (s.emit parts).1 = .ok () ↔ (s.emit parts).2.poisoned = false := by
  rw [emit, hp, if_neg Bool.false_ne_true]
  split
  · simp [fail]
  · split
    · simp [fail]
    · simp

/-- A poisoned scoper no longer changes. -/
theorem run_of_poisoned {s : StyleScoper} (h : s.poisoned = true) (calls : List (List String)) :
    s.run calls = s := by
  induction calls with
  | nil => rfl
  | cons parts more ih =>
    have hsame : (s.emit parts).2 = s := by rw [emit, if_pos h]
    have hstep : s.run (parts :: more) = (s.emit parts).2.run more := rfl
    rw [hstep, hsame, ih]

theorem poisoned_of_finish {s : StyleScoper} {text : String} (h : s.finish = .ok text) :
    s.poisoned = false := by
  unfold finish at h
  split at h
  · cases h
  · rename_i hp
    exact Bool.not_eq_true _ ▸ hp

theorem exists_finish {s : StyleScoper} (hp : s.poisoned = false) : ∃ text, s.finish = .ok text :=
  ⟨s.stylesheet, by rw [finish, hp]; rfl⟩

theorem run_append (s : StyleScoper) (calls more : List (List String)) :
    s.run (calls ++ more) = (s.run calls).run more := List.foldl_append

end StyleScoper

namespace Sandbox

/-- The sandbox with both parts as they are after their share of the operations. -/
def advance (s : Sandbox) (ops : List SandboxOp) : Sandbox :=
  { s with
    markup := s.markup.run (markupOps s.token ops)
    style := s.style.run (styleCalls ops) }

theorem advance_cons (s : Sandbox) (op : SandboxOp) (ops : List SandboxOp) :
    s.advance (op :: ops) = (s.advance [op]).advance ops := by
  have hsplit : op :: ops = [op] ++ ops := rfl
  simp only [advance, hsplit, markupOps_append, styleCalls_append, MarkupBuilder.run_append,
    StyleScoper.run_append]

/-- Nothing has failed so far, and no part of the sandbox says otherwise. -/
structure Live (s : Sandbox) : Prop where
  aborted : s.aborted = none
  markup : s.markup.poisoned = false
  style : s.style.poisoned = false

theorem live_new (token : Token) : (new token).Live := ⟨rfl, rfl, rfl⟩

/-- Once a part is poisoned, no share of operations makes up for it. -/
theorem live_of_live_advance {s : Sandbox} {ops : List SandboxOp} (h : (s.advance ops).Live) :
    s.Live := by
  refine ⟨h.aborted, ?_, ?_⟩
  · by_contra hp
    rw [Bool.not_eq_false] at hp
    have hmarkup := h.markup
    rw [advance, MarkupBuilder.run_of_poisoned hp, hp] at hmarkup
    cases hmarkup
  · by_contra hp
    rw [Bool.not_eq_false] at hp
    have hstyle := h.style
    rw [advance, StyleScoper.run_of_poisoned hp, hp] at hstyle
    cases hstyle

/-- Unless it aborts, an operation is handed to one of the parts, and the sandbox is aborted if that
part fails. -/
theorem apply_eq_guard {s : Sandbox} (h : s.aborted = none) {op : SandboxOp}
    (hop : op.isAbort = false) :
    ∃ result, s.apply op = (s.advance [op]).guard result ∧
      (s.Live → (result = .ok () ↔ (s.advance [op]).Live)) := by
  have byMarkup {mop : MarkupOp} (hmarkup : op.markup? s.token = some mop)
      (hstyle : op.style? = none) (happly : s.apply op = s.markupOp mop) :
      ∃ result, s.apply op = (s.advance [op]).guard result ∧
        (s.Live → (result = .ok () ↔ (s.advance [op]).Live)) := by
    have hadvance : s.advance [op] = { s with markup := (s.markup.apply mop).2 } := by
      simp only [advance, markupOps, styleCalls, List.filterMap_cons, List.filterMap_nil, hmarkup,
        hstyle]
      rfl
    refine ⟨(s.markup.apply mop).1, ?_, fun live => ?_⟩
    · simp only [happly, markupOp, hadvance, h]
    · rw [MarkupBuilder.apply_eq_ok_iff live.markup, hadvance]
      exact ⟨fun hp => ⟨h, hp, live.style⟩, fun hlive => hlive.markup⟩
  cases op with
  | markup mop => exact byMarkup rfl rfl rfl
  | scopedId loc => exact byMarkup rfl rfl rfl
  | style parts =>
    have hadvance : s.advance [.style parts] = { s with style := (s.style.emit parts).2 } := rfl
    refine ⟨(s.style.emit parts).1, ?_, fun live => ?_⟩
    · simp only [apply, emitStyle, hadvance, h]
    · rw [StyleScoper.emit_eq_ok_iff live.style, hadvance]
      exact ⟨fun hp => ⟨h, live.markup, hp⟩, fun hlive => hlive.style⟩
  | abort reason => cases hop

/-- The operation aborts the sandbox, or it fails. -/
def Breaks (s : Sandbox) (op : SandboxOp) : Prop := op.isAbort = true ∨ (s.apply op).1 ≠ .ok ()

/-- An aborted sandbox has a reason for it, be it this one or an earlier one. -/
theorem exists_aborted_abort (s : Sandbox) (reason : Violation) :
    ∃ first, (s.abort reason).aborted = some first := by
  rw [abort]
  cases s.aborted with
  | none => exact ⟨reason, rfl⟩
  | some first => exact ⟨first, rfl⟩

theorem exists_aborted_of_isAbort {op : SandboxOp} (hop : op.isAbort = true) (s : Sandbox) :
    ∃ reason, (s.apply op).2.aborted = some reason := by
  cases op with
  | abort reason => exact s.exists_aborted_abort (.stated reason)
  | _ => cases hop

/-- A usable sandbox is aborted exactly by an operation that breaks it. -/
theorem aborted_apply_iff {s : Sandbox} (h : s.aborted = none) (op : SandboxOp) :
    (s.apply op).2.aborted = none ↔ ¬ s.Breaks op := by
  cases hop : op.isAbort with
  | true =>
    obtain ⟨reason, haborted⟩ := exists_aborted_of_isAbort hop s
    simp [Breaks, hop, haborted]
  | false =>
    obtain ⟨result, happly, -⟩ := apply_eq_guard h hop
    rw [Breaks, hop, happly]
    have hsame : (s.advance [op]).aborted = none := h
    cases result <;> simp [guard, abort, hsame]

/-- A live sandbox takes an operation as its parts do, and notices when one of them fails. -/
theorem apply_live {s : Sandbox} (live : s.Live) (op : SandboxOp) :
    ((s.apply op).2.aborted = none ↔ op.isAbort = false ∧ (s.advance [op]).Live) ∧
      ((s.apply op).2.aborted = none → (s.apply op).2 = s.advance [op]) := by
  cases hop : op.isAbort with
  | true =>
    obtain ⟨reason, haborted⟩ := exists_aborted_of_isAbort hop s
    simp [haborted]
  | false =>
    obtain ⟨result, happly, hresult⟩ := apply_eq_guard live.aborted hop
    rw [happly, ← hresult live]
    have hsame : (s.advance [op]).aborted = none := live.aborted
    cases result <;> simp [guard, abort, hsame]

/-- An aborted sandbox no longer changes, and refuses everything but another abort. -/
theorem apply_of_aborted {s : Sandbox} {reason : Violation} (h : s.aborted = some reason)
    (op : SandboxOp) : (s.apply op).2 = s ∧
      (op.isAbort = false → (s.apply op).1 = .error (.sandboxAborted reason)) := by
  cases op with
  | markup op => simp [apply, markupOp, h]
  | scopedId loc => simp [apply, scopedIdAttribute, markupOp, h]
  | style parts => simp [apply, emitStyle, h]
  | abort again =>
    refine ⟨?_, fun hne => nomatch hne⟩
    simp only [apply, abort, h, Option.some_or]
    rw [← h]

theorem exists_aborted_of_breaks {s : Sandbox} {op : SandboxOp} (h : s.Breaks op) :
    ∃ reason, (s.apply op).2.aborted = some reason := by
  refine Option.ne_none_iff_exists'.mp fun hnone => ?_
  cases haborted : s.aborted with
  | none => exact (aborted_apply_iff haborted op).mp hnone h
  | some reason =>
    rw [(apply_of_aborted haborted op).1, haborted] at hnone
    cases hnone

theorem run_cons (s : Sandbox) (op : SandboxOp) (ops : List SandboxOp) :
    s.run (op :: ops) = (s.apply op).2.run ops := rfl

theorem run_append (s : Sandbox) (ops more : List SandboxOp) :
    s.run (ops ++ more) = (s.run ops).run more := List.foldl_append

theorem run_of_aborted {s : Sandbox} {reason : Violation} (h : s.aborted = some reason)
    (ops : List SandboxOp) : s.run ops = s := by
  induction ops with
  | nil => rfl
  | cons op ops ih => rw [run_cons, (apply_of_aborted h op).1, ih]

/-- A run leaves a usable sandbox usable exactly if none of its operations breaks it. -/
theorem aborted_run_iff {s : Sandbox} (h : s.aborted = none) (ops : List SandboxOp) :
    (s.run ops).aborted = none ↔
      ∀ before op after, ops = before ++ op :: after → ¬ (s.run before).Breaks op := by
  constructor
  · rintro hend before op after rfl hbreaks
    obtain ⟨reason, haborted⟩ := exists_aborted_of_breaks hbreaks
    rw [run_append, run_cons, run_of_aborted haborted, haborted] at hend
    cases hend
  · intro hnever
    induction ops generalizing s with
    | nil => exact h
    | cons op ops ih =>
      have hnext : (s.apply op).2.aborted = none :=
        (aborted_apply_iff h op).mpr (hnever [] op ops rfl)
      refine ih hnext fun before op' after hops => ?_
      exact hnever (op :: before) op' after (by rw [hops, List.cons_append])

/-- A run of a live sandbox is a run of its parts, as long as nothing breaks it. It is broken
exactly if it is aborted or one of the parts, on its own, is poisoned in the end. -/
theorem run_live {s : Sandbox} (live : s.Live) (ops : List SandboxOp) :
    ((s.run ops).aborted = none ↔ (∀ op ∈ ops, op.isAbort = false) ∧ (s.advance ops).Live) ∧
      ((s.run ops).aborted = none → s.run ops = s.advance ops) := by
  induction ops generalizing s with
  | nil => exact ⟨by simpa using ⟨fun _ => live, fun h => h.aborted⟩, fun _ => rfl⟩
  | cons op ops ih =>
    obtain ⟨hiff, hadvance⟩ := apply_live live op
    rw [run_cons, advance_cons, List.forall_mem_cons]
    cases haborted : (s.apply op).2.aborted with
    | none =>
      rw [haborted] at hiff hadvance
      obtain ⟨hop, hlive⟩ := hiff.mp rfl
      rw [hadvance rfl]
      simpa [hop] using ih hlive
    | some reason =>
      rw [run_of_aborted haborted, haborted]
      refine ⟨iff_of_false (fun h => nomatch h) ?_, fun h => nomatch h⟩
      rintro ⟨⟨hop, -⟩, hlive⟩
      rw [hiff.mpr ⟨hop, live_of_live_advance hlive⟩] at haborted
      cases haborted

theorem finish_eq_ok_iff {s : Sandbox} (h : s.aborted = none) (out : Output) :
    s.finish = .ok out ↔ s.markup.finish = .ok out.markup ∧
      s.style.finish = .ok out.stylesheet ∧ s.token = out.token := by
  obtain ⟨token, markup, stylesheet⟩ := out
  rw [finish, h]
  cases s.markup.finish with
  | error v => simp [bind, Except.bind]
  | ok m =>
    cases s.style.finish with
    | error v => simp [bind, Except.bind]
    | ok css =>
      simpa [bind, Except.bind] using ⟨fun ⟨a, b, c⟩ => ⟨b, c, a⟩, fun ⟨b, c, a⟩ => ⟨a, b, c⟩⟩

theorem finish_of_aborted {s : Sandbox} {reason : Violation} (h : s.aborted = some reason) :
    s.finish = .error (.sandboxAborted reason) := by
  rw [finish, h]

/-- A fresh sandbox releases what its two parts, each on its own, release; nothing if it is aborted
or one of them releases nothing. -/
theorem finish_run_new_iff (token : Token) (ops : List SandboxOp) (out : Output) :
    ((new token).run ops).finish = .ok out ↔
      (∀ op ∈ ops, op.isAbort = false) ∧
      ((MarkupBuilder.new token).run (markupOps token ops)).finish = .ok out.markup ∧
      ((StyleScoper.new token).run (styleCalls ops)).finish = .ok out.stylesheet ∧
      token = out.token := by
  obtain ⟨hiff, hadvance⟩ := run_live (live_new token) ops
  constructor
  · intro h
    have hnone : ((new token).run ops).aborted = none := by
      refine Option.eq_none_iff_forall_not_mem.mpr fun reason hreason => ?_
      rw [finish_of_aborted hreason] at h
      cases h
    rw [finish_eq_ok_iff hnone, hadvance hnone] at h
    exact ⟨(hiff.mp hnone).1, h⟩
  · rintro ⟨hops, hparts⟩
    have hlive : ((new token).advance ops).Live :=
      ⟨rfl, MarkupBuilder.poisoned_of_finish hparts.1, StyleScoper.poisoned_of_finish hparts.2.1⟩
    have hnone : ((new token).run ops).aborted = none := hiff.mpr ⟨hops, hlive⟩
    rw [finish_eq_ok_iff hnone, hadvance hnone]
    exact hparts

/-- A fresh sandbox releases something exactly if nothing breaks it and its markup is complete. -/
theorem isSome_finish_run_iff (token : Token) (ops : List SandboxOp) :
    ((new token).run ops).finish.toOption.isSome = true ↔
      (∀ before op after, ops = before ++ op :: after → ¬ ((new token).run before).Breaks op) ∧
      ((new token).run ops).markup.IsComplete := by
  obtain ⟨hiff, hadvance⟩ := run_live (live_new token) ops
  rw [← aborted_run_iff rfl]
  cases haborted : ((new token).run ops).aborted with
  | some reason => simp [finish_of_aborted haborted, Except.toOption]
  | none =>
    have live : ((new token).run ops).Live := by
      rw [hadvance haborted]
      exact (hiff.mp haborted).2
    rw [← MarkupBuilder.exists_finish_iff live.markup]
    obtain ⟨stylesheet, hstyle⟩ := StyleScoper.exists_finish live.style
    constructor
    · intro h
      cases hfinish : ((new token).run ops).finish with
      | error v =>
        rw [hfinish] at h
        cases h
      | ok out => exact ⟨rfl, out.markup, ((finish_eq_ok_iff haborted out).mp hfinish).1⟩
    · rintro ⟨-, m, hmarkup⟩
      have hfinish : ((new token).run ops).finish =
          .ok ⟨((new token).run ops).token, m, stylesheet⟩ :=
        (finish_eq_ok_iff haborted _).mpr ⟨hmarkup, hstyle, rfl⟩
      rw [hfinish]
      rfl

/-- A sandbox is the product of a markup builder and a style scoper. It releases exactly what the
two release when each is given its part of the operations alone, provided that it is never aborted.
Once an operation has failed or aborted it, it is aborted for good: every later markup or style
operation is refused as a structural violation, for one and the same reason, and so is finishing.
Nothing else aborts it. So two interleavings of the same markup and style operations, both aborted
or neither, release the same. -/
theorem sandbox_is_product (token : Token) :
    (∀ ops out, ((new token).run ops).finish = .ok out ↔
      (∀ op ∈ ops, op.isAbort = false) ∧
      ((MarkupBuilder.new token).run (markupOps token ops)).finish = .ok out.markup ∧
      ((StyleScoper.new token).run (styleCalls ops)).finish = .ok out.stylesheet ∧
      token = out.token) ∧
    (∀ before op, ((new token).run before).Breaks op → ∃ reason, ∀ after,
      ((new token).run (before ++ op :: after)).aborted = some reason ∧
      (∀ later : SandboxOp, later.isAbort = false →
        (((new token).run (before ++ op :: after)).apply later).1 =
          .error (.sandboxAborted reason)) ∧
      ((new token).run (before ++ op :: after)).finish = .error (.sandboxAborted reason)) ∧
    (∀ ops, ((new token).run ops).isAborted = true ↔
      ∃ before op after, ops = before ++ op :: after ∧ ((new token).run before).Breaks op) ∧
    ∀ ops ops', markupOps token ops = markupOps token ops' → styleCalls ops = styleCalls ops' →
      ((∀ op ∈ ops, op.isAbort = false) ↔ ∀ op ∈ ops', op.isAbort = false) →
      ((new token).run ops).finish.toOption = ((new token).run ops').finish.toOption := by
  refine ⟨finish_run_new_iff token, fun before op hbreaks => ?_, fun ops => ?_, ?_⟩
  · obtain ⟨reason, haborted⟩ := exists_aborted_of_breaks hbreaks
    refine ⟨reason, fun after => ?_⟩
    rw [run_append, run_cons, run_of_aborted haborted]
    exact ⟨haborted, fun later hlater => (apply_of_aborted haborted later).2 hlater,
      finish_of_aborted haborted⟩
  · rw [isAborted, Option.isSome_iff_ne_none, Ne, aborted_run_iff rfl]
    simp only [not_forall, not_not, exists_prop]
  · intro ops ops' hmarkup hstyle habort
    refine Option.ext fun out => ?_
    have released (xs : List SandboxOp) : ((new token).run xs).finish.toOption = some out ↔
        ((new token).run xs).finish = .ok out := by
      cases ((new token).run xs).finish <;> simp [Except.toOption]
    rw [released, released, finish_run_new_iff, finish_run_new_iff, hmarkup, hstyle, habort]

/-- A paragraph with a scoped id, and then a rule for it. -/
def markupThenStyle : List SandboxOp :=
  [.markup (.beginTag "p"), .scopedId "top", .markup (.finishOpenTag false), .markup (.endTag "p"),
    .style ["#top-", " > b \x7b color: red \x7d"]]

/-- The same, with the rule given inside of the start tag. -/
def styleInsideMarkup : List SandboxOp :=
  [.markup (.beginTag "p"), .style ["#top-", " > b \x7b color: red \x7d"], .scopedId "top",
    .markup (.finishOpenTag false), .markup (.endTag "p")]

/-- Two interleavings of the same calls release the same output. Text inside of a start tag aborts
the sandbox, whatever follows. -/
theorem sandbox_is_product_of_interleaving :
    markupOps .first markupThenStyle = markupOps .first styleInsideMarkup ∧
    styleCalls markupThenStyle = styleCalls styleInsideMarkup ∧
    ((new .first).run markupThenStyle).finish.toOption.isSome = true ∧
    ((new .first).run markupThenStyle).finish.toOption =
      ((new .first).run styleInsideMarkup).finish.toOption ∧
    ((new .first).run [.markup (.beginTag "p")]).Breaks (.markup (.addText "x")) ∧
    ∃ reason, ((new .first).run
      ([.markup (.beginTag "p")] ++ .markup (.addText "x") :: markupThenStyle)).finish =
        .error (.sandboxAborted reason) :=
  have breaks : ((new .first).run [.markup (.beginTag "p")]).Breaks (.markup (.addText "x")) :=
    .inr (by decide +kernel)
  have ⟨reason, broken⟩ := (sandbox_is_product .first).2.1 _ _ breaks
  ⟨rfl, rfl, by decide +kernel,
    (sandbox_is_product .first).2.2.2 _ _ rfl rfl (by decide), breaks, reason,
    (broken markupThenStyle).2.2⟩

end Sandbox

end Confinement.Emission
