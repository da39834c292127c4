import Confinement.Emission.Style
import Confinement.Proofs.Stylesheet.Weight

/-!
# What a style scoper lets through

An accepted call adds the rules that its text is read as, all of them confined. The released style
sheet is the printed form of all rules that came in. It is read back as those very rules exactly if
every value survives where it is printed: a value is lost if trimming has left nothing of it, or if
it opens a comment that a later value or selector closes.
-/
namespace Confinement.Emission

theorem forM_eq_ok_iff {xs : List α} {f : α → Except ε Unit} :
    xs.forM f = .ok () ↔ ∀ x ∈ xs, f x = .ok () := by
  induction xs with
  | nil => simp [pure, Except.pure]
  | cons x xs ih =>
    change (f x >>= fun _ => xs.forM f) = .ok () ↔ _
    rw [List.forall_mem_cons, ← ih]
    cases f x with
    | error e => simp [bind, Except.bind]
    | ok u => simp [bind, Except.bind]

/-- The empty selector is not confined: it does not mention the token. -/
theorem toList_ne_nil_of_checkConfined {x : String} {token : Token}
    (h : checkConfined x token = .ok ()) : x.toList ≠ [] := by
  intro hx
  simp [checkConfined, hx, Text.trim, Text.trimStart, Text.trimEnd, occurrences, occurrencesAfter]
    at h

namespace StyleScoper

/-- What an accepted call has passed and what it adds. -/
theorem emit_accepted {s : StyleScoper} {parts : List String} (h : (s.emit parts).1 = .ok ()) :
    s.poisoned = false ∧ ∃ rules, Stylesheet.parse (s.token.text.intercalate parts) = some rules ∧
      (∀ r ∈ rules, ∀ x ∈ r.selectors, checkConfined x s.token = .ok ()) ∧
      (s.emit parts).2 = { s with rules := s.rules ++ rules } := by
  unfold emit at h ⊢
  cases hp : s.poisoned with
  | true => simp [hp] at h
  | false =>
    simp only [hp, Bool.false_eq_true, if_false] at h ⊢
    cases hparse : Stylesheet.parse (s.token.text.intercalate parts) with
    | none => simp [hparse, fail] at h
    | some rules =>
      simp only [hparse] at h ⊢
      split at h
      · simp [fail] at h
      · rename_i hall
        refine ⟨trivial, rules, rfl, fun r hr => ?_, by simp⟩
        exact forM_eq_ok_iff.mp (forM_eq_ok_iff.mp hall r hr)

/-- The scoper after a sequence of calls, whatever each of them answered. -/
def run (s : StyleScoper) (calls : List (List String)) : StyleScoper :=
  calls.foldl (fun s parts => (s.emit parts).2) s

/-- Whether each of the calls, made one after the other, is accepted. -/
def Accepts : StyleScoper → List (List String) → Prop
  | _, [] => True
  | s, parts :: more => (s.emit parts).1 = .ok () ∧ Accepts (s.emit parts).2 more

/-- Accepted calls add their rules one behind the other, each read on its own. -/
theorem run_accepted {s : StyleScoper} {calls : List (List String)} (h : s.Accepts calls)
    (hp : s.poisoned = false) :
    ∃ read : List (List Stylesheet.Rule),
      calls.map (fun parts => Stylesheet.parse (s.token.text.intercalate parts)) = read.map some ∧
      (∀ r ∈ read.flatten, Stylesheet.RuleShape r ∧
        ∀ x ∈ r.selectors, checkConfined x s.token = .ok ()) ∧
      s.run calls = { s with rules := s.rules ++ read.flatten } := by
  induction calls generalizing s with
  | nil => exact ⟨[], rfl, by simp, by simp [run]⟩
  | cons parts more ih =>
    obtain ⟨-, rules, hparse, hconfined, hs⟩ := emit_accepted h.1
    have hmore := h.2
    rw [hs] at hmore
    obtain ⟨read, hread, hall, hrun⟩ := ih hmore hp
    refine ⟨rules :: read, ?_, ?_, ?_⟩
    · simp only [List.map_cons, hparse]
      exact congrArg (some rules :: ·) hread
    · intro r hr
      rcases List.mem_append.mp hr with hr | hr
      · exact ⟨Stylesheet.shape_rules hparse r hr, hconfined r hr⟩
      · exact hall r hr
    · have hstep : s.run (parts :: more) = (s.emit parts).2.run more := rfl
      rw [hstep, hs, hrun]
      simp

end StyleScoper

open StyleScoper in
/-- A sequence of accepted calls, under any token. The released text is read back as the rules of
the calls, in order and unchanged, exactly if every value survives where it is printed. -/
theorem stylesheet_read_back_iff (token : Token) (calls : List (List String))
    (accepted : (new token).Accepts calls) :
    ∃ (read : List (List Stylesheet.Rule)) (text : String),
      calls.map (fun parts => Stylesheet.parse (token.text.intercalate parts)) = read.map some ∧
      ((new token).run calls).finish = .ok text ∧
      (Stylesheet.parse text = some read.flatten ↔ Stylesheet.SheetSurvives read.flatten) := by
  obtain ⟨read, hread, hall, hrun⟩ := run_accepted accepted rfl
  refine ⟨read, "\n".intercalate (read.flatten.map Stylesheet.Rule.text), hread, ?_, ?_⟩
  · rw [hrun]
    simp [finish, stylesheet, new]
  · rw [Stylesheet.parse_joined]
    exact Stylesheet.rules_sheet_iff (fun r hr => (hall r hr).1) fun r hr x hx =>
      toList_ne_nil_of_checkConfined ((hall r hr).2 x hx)

/-- The token of the first module, under the stem that the host uses when it chooses none. -/
def Token.first : Token := ⟨defaultStem, .ofIndex 0⟩

/-- The first value opens a comment that nothing closes. -/
def unclosedComment : List (List String) :=
  [[".", " p \x7b a: /* c \x7d"], ["#x-", " > q \x7b d: e \x7d"]]

open StyleScoper in
/-- Two calls that are accepted, with a comment that stays open. -/
theorem stylesheet_read_back_of_unclosedComment :
    (new .first).Accepts unclosedComment ∧
    ∃ (read : List (List Stylesheet.Rule)) (text : String),
      unclosedComment.map (fun parts => Stylesheet.parse (Token.first.text.intercalate parts)) =
        read.map some ∧
      ((new .first).run unclosedComment).finish = .ok text ∧
      (Stylesheet.parse text = some read.flatten ↔ Stylesheet.SheetSurvives read.flatten) :=
  have accepted : (new .first).Accepts unclosedComment :=
    ⟨by decide +kernel, by decide +kernel, trivial⟩
  ⟨accepted, stylesheet_read_back_iff .first unclosedComment accepted⟩

/-- The second value closes the comment that the first one opens. -/
def commentAcrossRules : List (List String) :=
  [[".", " p \x7b a: /* c \x7d"], [".", " q \x7b d: e */ f \x7d"]]

/-- A value of nothing but a no-break space. -/
def blankValue : List (List String) := [[".", " p \x7b a: \u00a0 \x7d"]]

open StyleScoper in
/-- Two ways in which the released text is not read back. A comment across two rules makes one of
them, with a third value. A blank value is printed as an empty one, and the sheet cannot be read
at all. -/
theorem stylesheet_not_read_back :
    ((new .first).Accepts commentAcrossRules ∧
      commentAcrossRules.map (fun parts =>
          Stylesheet.parse (Token.first.text.intercalate parts)) =
        [some [⟨["." ++ Token.first.text ++ " p"], [⟨"a", "/* c"⟩]⟩],
          some [⟨["." ++ Token.first.text ++ " q"], [⟨"d", "e */ f"⟩]⟩]] ∧
      ((new .first).run commentAcrossRules).finish.map Stylesheet.parse =
        .ok (some [⟨["." ++ Token.first.text ++ " p"], [⟨"a", "f"⟩]⟩])) ∧
    ((new .first).Accepts blankValue ∧
      ((new .first).run blankValue).finish.map Stylesheet.parse = .ok none) :=
  ⟨⟨⟨by decide +kernel, by decide +kernel, trivial⟩, by decide +kernel, by decide +kernel⟩,
    ⟨by decide +kernel, trivial⟩, by decide +kernel⟩

end Confinement.Emission
