import Confinement.Stylesheet
import Mathlib.Tactic

/-!
# What the reader of style sheets can do

One statement for each thing that a reader can do at a place: skip, take a selector, go on behind a
comma or a semicolon, read a rule. Later proofs cite these and do not open the readers.
-/
namespace Confinement.Stylesheet

theorem skip_space {c : Char} (h : isSpace c = true) (s : List Char) : skip (c :: s) = skip s := by
  rw [skip.eq_def]
  split
  · rename_i heq; cases heq
  · rename_i heq; cases heq; simp [isSpace] at h
  · rename_i heq; cases heq; simp [h]

/-- A comment that is open ends exactly where its closing first stands. -/
theorem afterComment_eq_none_iff (s : List Char) :
    afterComment s = none ↔ ¬ ['*', '/'] <:+: s := by
  fun_induction afterComment s with
  | case1 => simp
  | case2 rest => simp [List.infix_cons_iff]
  | case3 c rest hclose ih =>
    rw [ih, List.infix_cons_iff]
    have : ¬ ['*', '/'] <+: c :: rest := by
      rintro ⟨t, ht⟩
      simp only [List.cons_append, List.nil_append, List.cons.injEq] at ht
      exact hclose t ht.1.symm ht.2.symm
    simp [this]

/-- Nothing is skipped where neither a space nor a closed comment stands. -/
theorem skip_eq_self {c : Char} {s : List Char} (hc : isSpace c = false)
    (hs : ∀ w, c = '/' → s = '*' :: w → ¬ ['*', '/'] <:+: w) : skip (c :: s) = c :: s := by
  rw [skip.eq_def]
  split
  · rename_i heq; cases heq
  · rename_i w heq
    cases heq
    have hw := (afterComment_eq_none_iff w).mpr (hs w rfl rfl)
    split
    · rename_i h; rw [hw] at h; cases h
    · rfl
  · rename_i heq; cases heq; simp [hc]

theorem skip_of_ne_slash {c : Char} (hc : isSpace c = false) (hslash : c ≠ '/') (s : List Char) :
    skip (c :: s) = c :: s :=
  skip_eq_self hc fun _ h => absurd h hslash

/-- Every space of the reader is a blank. -/
theorem isBlank_of_isSpace {c : Char} (h : isSpace c = true) : Text.isBlank c = true := by
  simp only [isSpace, Bool.or_eq_true, beq_iff_eq] at h
  rcases h with (((rfl | rfl) | rfl) | rfl) | rfl <;> decide

theorem isSpace_of_not_isBlank {c : Char} (h : Text.isBlank c = false) : isSpace c = false := by
  by_contra hs
  rw [isBlank_of_isSpace (by simpa using hs)] at h
  cases h

theorem selector_of_run {s run rest : List Char} (h : takeSelector s = (run, rest))
    (hr : run ≠ []) : selector s = some (String.ofList (Text.trim run), rest) := by
  unfold selector
  split
  · rename_i heq; rw [h] at heq; exact absurd (congrArg Prod.fst heq) hr
  · rename_i heq; rw [h] at heq; cases heq; rfl

theorem moreSelectors_comma {s rest after : List Char} {x : String} (hs : skip s = ',' :: rest)
    (hx : selector (skip rest) = some (x, after)) :
    moreSelectors s = (x :: (moreSelectors after).1, (moreSelectors after).2) := by
  rw [moreSelectors.eq_def]
  split
  · rename_i r heq
    rw [hs] at heq
    cases heq
    split
    · rename_i heq; rw [hx] at heq; cases heq; rfl
    · rename_i heq; rw [hx] at heq; cases heq
  · rename_i hne; exact absurd hs (hne rest)

theorem moreSelectors_stop {s : List Char} (hs : ∀ rest, skip s ≠ ',' :: rest) :
    moreSelectors s = ([], s) := by
  rw [moreSelectors.eq_def]
  split
  · rename_i rest heq; exact absurd heq (hs rest)
  · rfl

/-- What the reader takes from a place where a declaration may start: declarations, each behind a
semicolon, and the rest. -/
def items (s : List Char) : List Declaration × List Char :=
  let found := declaration? (skip s)
  let more := moreDeclarations found.2
  (found.1 ++ more.1, more.2)

theorem items_space (s : List Char) : items (' ' :: s) = items s := by
  rw [items, skip_space (by decide)]
  rfl

theorem moreDeclarations_semicolon {s rest : List Char} (hs : skip s = ';' :: rest) :
    moreDeclarations s = items rest := by
  rw [moreDeclarations.eq_def]
  split
  · rename_i r heq; rw [hs] at heq; cases heq; rfl
  · rename_i hne; exact absurd hs (hne rest)

theorem moreDeclarations_stop {s : List Char} (hs : ∀ rest, skip s ≠ ';' :: rest) :
    moreDeclarations s = ([], s) := by
  rw [moreDeclarations.eq_def]
  split
  · rename_i rest heq; exact absurd heq (hs rest)
  · rfl

/-- A rule is a selector, more selectors, an opening brace, declarations and a closing brace. -/
theorem rule_eq_some_iff {s rest : List Char} {r : Rule} :
    rule s = some (r, rest) ↔ ∃ x after u, selector s = some (x, after) ∧
      r.selectors = x :: (moreSelectors after).1 ∧ skip (moreSelectors after).2 = '\x7b' :: u ∧
      r.declarations = (items u).1 ∧ skip (items u).2 = '\x7d' :: rest := by
  constructor
  · intro h
    unfold rule at h
    split at h
    · cases h
    · rename_i x after hx
      simp only at h
      split at h
      · rename_i u hu
        split at h
        · rename_i tail hw
          cases h
          exact ⟨x, after, u, hx, rfl, hu, rfl, hw⟩
        · cases h
      · cases h
  · rintro ⟨x, after, u, hx, hselectors, hu, hdeclarations, hw⟩
    cases r
    simp only at hselectors hdeclarations
    subst hselectors hdeclarations
    simp only [items] at hw ⊢
    simp only [rule, hx, hu, hw]

theorem rules_nil {s : List Char} (hs : skip s = []) : rules s = some [] := by
  rw [rules.eq_def]
  split
  · rfl
  · rename_i heq; rw [hs] at heq; cases heq

theorem rules_cons {s : List Char} (hs : skip s ≠ []) {r : Rule} {rest : List Char}
    (hr : rule (skip s) = some (r, rest)) : rules s = (rules rest).map (r :: ·) := by
  rw [rules.eq_def]
  split
  · rename_i heq; exact absurd heq hs
  · rename_i c more heq
    rw [heq] at hr
    split
    · rename_i heq'; rw [hr] at heq'; cases heq'; rfl
    · rename_i heq'; rw [hr] at heq'; cases heq'

theorem rules_none {s : List Char} (hs : skip s ≠ []) (hr : rule (skip s) = none) :
    rules s = none := by
  rw [rules.eq_def]
  split
  · rename_i heq; exact absurd heq hs
  · rename_i c more heq
    rw [heq] at hr
    split
    · rename_i heq'; rw [hr] at heq'; cases heq'
    · rfl

/-- Only what is left after skipping matters. -/
theorem rules_eq_of_skip_eq {s t : List Char} (h : skip s = skip t) : rules s = rules t := by
  by_cases hs : skip s = []
  · rw [rules_nil hs, rules_nil (h ▸ hs)]
  · have ht : skip t ≠ [] := h ▸ hs
    cases hr : rule (skip s) with
    | none => rw [rules_none hs hr, rules_none ht (h ▸ hr)]
    | some found =>
      obtain ⟨r, rest⟩ := found
      rw [rules_cons hs hr, rules_cons ht (h ▸ hr)]

end Confinement.Stylesheet
