import Confinement.Text
import Mathlib.Data.List.DropRight
import Mathlib.Tactic

/-!
# Trimmed text

A text is trimmed when no blank stands at either end. Trimming gives a trimmed text, leaves a
trimmed one alone, and only takes blanks away.
-/
namespace Confinement.Text

/-- No blank at the start and none at the end. -/
structure Trimmed (s : List Char) : Prop where
  head : ∀ c, s.head? = some c → isBlank c = false
  last : ∀ c, s.getLast? = some c → isBlank c = false

theorem trimEnd_isPrefix (s : List Char) : trimEnd s <+: s := List.rdropWhile_prefix isBlank s

theorem trimStart_isSuffix (s : List Char) : trimStart s <:+ s := List.dropWhile_suffix isBlank

theorem trim_isInfix (s : List Char) : trim s <:+: s :=
  (trimEnd_isPrefix _).isInfix.trans (trimStart_isSuffix s).isInfix

theorem head_trimStart {s : List Char} {c : Char} (h : (trimStart s).head? = some c) :
    isBlank c = false := by
  have hd := List.head?_dropWhile_not isBlank s
  rw [show s.dropWhile isBlank = trimStart s from rfl, h] at hd
  simpa using hd

theorem last_trimEnd {s : List Char} {c : Char} (h : (trimEnd s).getLast? = some c) :
    isBlank c = false := by
  have hd := List.head?_dropWhile_not isBlank s.reverse
  rw [trimEnd, List.getLast?_reverse] at h
  rw [h] at hd
  simpa using hd

theorem trimStart_of_head {s : List Char} (h : ∀ c, s.head? = some c → isBlank c = false) :
    trimStart s = s := by
  cases s with
  | nil => rfl
  | cons c rest => simp [trimStart, h c rfl]

theorem trimEnd_of_last {s : List Char} (h : ∀ c, s.getLast? = some c → isBlank c = false) :
    trimEnd s = s := by
  have hr : trimStart s.reverse = s.reverse :=
    trimStart_of_head fun c hc => h c (by rwa [List.head?_reverse] at hc)
  rw [trimEnd, show s.reverse.dropWhile isBlank = s.reverse from hr, List.reverse_reverse]

theorem trimmed_trim (s : List Char) : Trimmed (trim s) := by
  refine ⟨fun c hc => ?_, fun c hc => last_trimEnd hc⟩
  -- The first character of a prefix is the first character of the whole.
  obtain ⟨t, ht⟩ := trimEnd_isPrefix (trimStart s)
  apply head_trimStart (s := s)
  rw [← ht]
  cases hs : trimEnd (trimStart s) with
  | nil => simp [trim, hs] at hc
  | cons d rest => simpa [trim, hs] using hc

theorem Trimmed.trim_eq {s : List Char} (h : Trimmed s) : trim s = s := by
  rw [trim, trimStart_of_head h.head, trimEnd_of_last h.last]

theorem trimEnd_append_blank (s : List Char) {c : Char} (hc : isBlank c = true) :
    trimEnd (s ++ [c]) = trimEnd s := by
  simp [trimEnd, hc]

/-- A blank behind a trimmed text is trimmed away again. -/
theorem Trimmed.trim_append_blank {s : List Char} (h : Trimmed s) {c : Char}
    (hc : isBlank c = true) : trim (s ++ [c]) = s := by
  cases s with
  | nil => simp [trim, trimStart, trimEnd, hc]
  | cons d rest =>
    have hd : isBlank d = false := h.head d rfl
    have hs : trimStart (d :: rest ++ [c]) = d :: rest ++ [c] := by simp [trimStart, hd]
    rw [trim, hs, trimEnd_append_blank _ hc, trimEnd_of_last h.last]

/-- Trimming takes away blanks only, so it keeps the count of everything else. -/
theorem countP_trim {p : Char → Bool} (h : ∀ c, isBlank c = true → p c = false) (s : List Char) :
    (trim s).countP p = s.countP p := by
  have drop (t : List Char) : (t.dropWhile isBlank).countP p = t.countP p := by
    induction t with
    | nil => rfl
    | cons c rest ih =>
      by_cases hc : isBlank c = true
      · simp [hc, ih, h c hc]
      · simp [hc]
  simp only [trim, trimEnd, trimStart, List.countP_reverse, drop]

end Confinement.Text
