import Mathlib.Tactic
import Confinement.Proofs.Stylesheet.Printing

/-!
# How a style sheet reads a selector list

A backslash makes the next character literal, inside a string and outside; a string ends at the
next matching quote that is not escaped; parentheses and brackets nest, and a closing one counts
only if it is the one awaited. Commas separate selectors only outside all of these, and so do
combinators end the compound that a selector opens with.

The text before the brace of a printed rule is cut into selectors that way. Each piece starts with
one of the rule's selectors, and may run on over further ones if a comma is hidden from it.
-/
namespace Confinement.Selector
open Stylesheet (isSpace)

/-- Where in a selector list the reader is. -/
structure Place where
  /-- The closing parentheses and brackets that are awaited, the innermost first. -/
  awaited : List Char := []
  /-- The quote that ends the string the reader is in. -/
  quote : Option Char := none
  /-- Whether the last character was a backslash that makes the next one literal. -/
  escaped : Bool := false
  deriving DecidableEq, Repr

def isQuote (c : Char) : Bool := c == '\x22' || c == '\x27'

def isCombinator (c : Char) : Bool := c == '>' || c == '~' || c == '+'

/-- The closing character of a parenthesis or bracket. -/
def closer? : Char → Option Char
  | '(' => some ')'
  | '[' => some ']'
  | _ => none

def isCloser (c : Char) : Bool := c == ')' || c == ']'

namespace Place

/-- Outside of strings, parentheses, brackets and escapes. -/
def isTop (p : Place) : Bool := p.awaited.isEmpty && p.quote.isNone && !p.escaped

/-- One character further. -/
def next (p : Place) (c : Char) : Place :=
  if p.escaped then { p with escaped := false }
  else match p.quote with
    | some q =>
      if c == q then { p with quote := none }
      else { p with escaped := c == '\\' }
    | none =>
      if c == '\\' then { p with escaped := true }
      else if isQuote c then { p with quote := some c }
      else match closer? c with
        | some closing => { p with awaited := closing :: p.awaited }
        | none =>
          if isCloser c && p.awaited.head? == some c then { p with awaited := p.awaited.tail }
          else p

/-- Whether a character ends the compound. -/
def stops (p : Place) (c : Char) : Bool := p.isTop && (isSpace c || isCombinator c)

end Place

/-- The text cut at the commas that separate selectors. -/
def split (p : Place) : List Char → List (List Char)
  | [] => [[]]
  | c :: rest =>
    if p.isTop && c == ',' then [] :: split {} rest
    else (split (p.next c) rest).modifyHead (c :: ·)

/-- The selectors of a selector list, each from its first character on. -/
def selectors (text : List Char) : List (List Char) := (split {} text).map (·.dropWhile isSpace)

/-- What stands behind the compound that the reader is in. -/
def afterCompound (p : Place) : List Char → List Char
  | [] => []
  | c :: rest => if p.stops c then c :: rest else afterCompound (p.next c) rest

/-- Whether a text continues, behind white space, with a sibling combinator. -/
def leadsToSibling (s : List Char) : Bool :=
  match s.dropWhile isSpace with
  | '~' :: _ | '+' :: _ => true
  | _ => false

/-- Whether the first combinator of a selector leads to a sibling of what its compound matches. -/
def reachesSibling (s : List Char) : Bool := leadsToSibling (afterCompound {} s)

/-- The characters of class and id names, with what stands in front of them. -/
def isOrdinary (c : Char) : Bool := Text.isIdentChar c || c == '.' || c == '#'

theorem ne_of_isOrdinary {c d : Char} (h : isOrdinary c = true) (hd : isOrdinary d = false) :
    c ≠ d := by
  rintro rfl
  rw [h] at hd
  contradiction

theorem isBlank_of_isIdentChar {c : Char} (h : Text.isIdentChar c = true) :
    Text.isBlank c = false := by
  unfold Text.isIdentChar Char.isAlphanum Char.isAlpha Char.isUpper Char.isLower Char.isDigit at h
  simp only [Bool.or_eq_true, Bool.and_eq_true, decide_eq_true_eq, beq_iff_eq, ge_iff_le,
    UInt32.le_iff_toNat_le] at h
  have upper : 'A'.val.toNat = 65 ∧ 'Z'.val.toNat = 90 := ⟨rfl, rfl⟩
  have lower : 'a'.val.toNat = 97 ∧ 'z'.val.toNat = 122 := ⟨rfl, rfl⟩
  have digit : '0'.val.toNat = 48 ∧ '9'.val.toNat = 57 := ⟨rfl, rfl⟩
  rcases h with (h | rfl) | rfl
  · have code : c.toNat = c.val.toNat := rfl
    simp only [Text.isBlank, Bool.or_eq_false_iff, Bool.and_eq_false_iff, decide_eq_false_iff_not,
      beq_eq_false_iff_ne]
    omega
  · decide
  · decide

theorem isBlank_of_isOrdinary {c : Char} (h : isOrdinary c = true) : Text.isBlank c = false := by
  simp only [isOrdinary, Bool.or_eq_true, beq_iff_eq] at h
  rcases h with (h | rfl) | rfl
  · exact isBlank_of_isIdentChar h
  · decide
  · decide

theorem closer?_eq_none_iff {c : Char} : closer? c = none ↔ c ≠ '(' ∧ c ≠ '[' := by
  unfold closer?
  split
  · simp
  · simp
  · exact iff_of_true rfl ⟨‹_›, ‹_›⟩

/-- An ordinary character is passed without notice. -/
theorem Place.next_of_isOrdinary {c : Char} (h : isOrdinary c = true) : next {} c = {} := by
  have hescape : c ≠ '\\' := ne_of_isOrdinary h (by decide)
  have hdouble : c ≠ '\x22' := ne_of_isOrdinary h (by decide)
  have hsingle : c ≠ '\x27' := ne_of_isOrdinary h (by decide)
  have hopen : closer? c = none :=
    closer?_eq_none_iff.mpr ⟨ne_of_isOrdinary h (by decide), ne_of_isOrdinary h (by decide)⟩
  simp [next, isQuote, hescape, hdouble, hsingle, hopen]

theorem Place.stops_of_isOrdinary {c : Char} (h : isOrdinary c = true) : stops {} c = false := by
  have hspace : isSpace c = false :=
    Stylesheet.isSpace_of_not_isBlank (isBlank_of_isOrdinary h)
  have hchild : c ≠ '>' := ne_of_isOrdinary h (by decide)
  have htilde : c ≠ '~' := ne_of_isOrdinary h (by decide)
  have hplus : c ≠ '+' := ne_of_isOrdinary h (by decide)
  simp [stops, isCombinator, hspace, hchild, htilde, hplus]

theorem afterCompound_ordinary {o : List Char} (h : ∀ c ∈ o, isOrdinary c = true) (s : List Char) :
    afterCompound {} (o ++ s) = afterCompound {} s := by
  induction o with
  | nil => rfl
  | cons c o ih =>
    have hc := h c (List.mem_cons_self ..)
    rw [List.cons_append, afterCompound, Place.stops_of_isOrdinary hc, Place.next_of_isOrdinary hc]
    exact ih fun d hd => h d (List.mem_cons_of_mem c hd)

/-- What may stand behind a printed selector in the same piece: nothing, the space in front of the
brace, or a comma that does not separate. -/
def Ends (t : List Char) : Prop := t = [] ∨ t = [' '] ∨ t.head? = some ','

theorem split_append {u : List Char} (h : ∀ c ∈ u, c ≠ ',') (p : Place) (s : List Char) :
    split p (u ++ s) = (split (u.foldl Place.next p) s).modifyHead (u ++ ·) := by
  induction u generalizing p with
  | nil => exact (congrFun List.modifyHead_id (split p s)).symm
  | cons c u ih =>
    have hc : c ≠ ',' := h c (List.mem_cons_self ..)
    rw [List.cons_append, split, if_neg (by simp [hc]),
      ih fun d hd => h d (List.mem_cons_of_mem c hd), List.modifyHead_modifyHead]
    rfl

/-- The rest of a piece ends where a selector is at its end, and every later piece starts with a
selector of its own. -/
theorem split_furtherSelectors (xs : List String) (h : ∀ x ∈ xs, ∀ c ∈ x.toList, c ≠ ',')
    (p : Place) :
    ∃ t more, split p (Stylesheet.furtherSelectors xs ++ [' ']) = t :: more ∧ Ends t ∧
      ∀ y ∈ more, ∃ x ∈ xs, ∃ t, Ends t ∧ y = ' ' :: x.toList ++ t := by
  induction xs generalizing p with
  | nil => exact ⟨[' '], [], by simp [Stylesheet.furtherSelectors, split], .inr (.inl rfl), by simp⟩
  | cons x xs ih =>
    have text : Stylesheet.furtherSelectors (x :: xs) ++ [' '] =
        ',' :: ((' ' :: x.toList) ++ (Stylesheet.furtherSelectors xs ++ [' '])) := by
      simp [Stylesheet.furtherSelectors]
    have unbroken : ∀ c ∈ ' ' :: x.toList, c ≠ ',' := by
      rintro c hc
      rcases List.mem_cons.mp hc with rfl | hc
      · decide
      · exact h x (List.mem_cons_self ..) c hc
    have further (q : Place) : ∃ t more,
        split q ((' ' :: x.toList) ++ (Stylesheet.furtherSelectors xs ++ [' '])) =
          (' ' :: x.toList ++ t) :: more ∧ Ends t ∧
        ∀ y ∈ more, ∃ x' ∈ x :: xs, ∃ t, Ends t ∧ y = ' ' :: x'.toList ++ t := by
      obtain ⟨t, more, hsplit, ht, hmore⟩ := ih (fun y hy => h y (List.mem_cons_of_mem x hy))
        ((' ' :: x.toList).foldl Place.next q)
      refine ⟨t, more, by rw [split_append unbroken, hsplit]; rfl, ht, fun y hy => ?_⟩
      obtain ⟨x', hx', hy⟩ := hmore y hy
      exact ⟨x', List.mem_cons_of_mem x hx', hy⟩
    cases hp : p.isTop with
    | true =>
      -- The comma separates: the piece before it is at its end.
      obtain ⟨t, more, hsplit, ht, hmore⟩ := further {}
      refine ⟨[], (' ' :: x.toList ++ t) :: more, ?_, .inl rfl, fun y hy => ?_⟩
      · rw [text, split, if_pos (by simp [hp]), hsplit]
      rcases List.mem_cons.mp hy with rfl | hy
      · exact ⟨x, List.mem_cons_self .., t, ht, rfl⟩
      · exact hmore y hy
    | false =>
      obtain ⟨t, more, hsplit, ht, hmore⟩ := further (p.next ',')
      refine ⟨',' :: ' ' :: x.toList ++ t, more, ?_, .inr (.inr rfl), hmore⟩
      rw [text, split, if_neg (by simp [hp]), hsplit]
      rfl

/-- The text of a printed rule before its brace. -/
def selectorText (r : Stylesheet.Rule) : List Char := r.text.toList.takeWhile (· != '\x7b')

theorem selectorText_eq {r : Stylesheet.Rule} (shape : Stylesheet.RuleShape r) {x : String}
    {xs : List String} (h : r.selectors = x :: xs) :
    selectorText r = x.toList ++ (Stylesheet.furtherSelectors xs ++ [' ']) := by
  have inside : ∀ y ∈ r.selectors, ∀ c ∈ y.toList, (c != '\x7b') = true := by
    intro y hy c hc
    have := (shape.selectors y hy).unbroken c hc
    simp only [Stylesheet.endsSelector, Bool.or_eq_false_iff] at this
    simp [bne, this]
  have before : ∀ c ∈ x.toList ++ (Stylesheet.furtherSelectors xs ++ [' ']),
      (c != '\x7b') = true := by
    intro c hc
    simp only [Stylesheet.furtherSelectors, List.mem_append, List.mem_flatMap, List.mem_cons,
      List.not_mem_nil, or_false] at hc
    rcases hc with hc | ⟨y, hy, rfl | rfl | hc⟩ | rfl
    · exact inside x (h ▸ List.mem_cons_self ..) c hc
    · decide
    · decide
    · exact inside y (h ▸ List.mem_cons_of_mem x hy) c hc
    · decide
  have text : r.text.toList = (x.toList ++ (Stylesheet.furtherSelectors xs ++ [' '])) ++
      '\x7b' :: Stylesheet.braced r.declarations [] := by
    simpa using Stylesheet.Rule.toList_text h []
  rw [selectorText, text, List.takeWhile_append_of_pos before]
  simp

/-- Whatever the reader makes of a printed rule, each of its pieces starts with a selector of the
rule. -/
theorem mem_selectors {r : Stylesheet.Rule} (shape : Stylesheet.RuleShape r)
    (nonempty : ∀ x ∈ r.selectors, x.toList ≠ []) {y : List Char}
    (hy : y ∈ selectors (selectorText r)) :
    ∃ x ∈ r.selectors, ∃ t, Ends t ∧ y = x.toList ++ t := by
  -- Selectors are printed trimmed, so the first character of one is where its piece starts.
  have starts : ∀ x ∈ r.selectors, ∀ t, (x.toList ++ t).dropWhile isSpace = x.toList ++ t := by
    intro x hx t
    obtain ⟨c, rest, hc⟩ := List.exists_cons_of_ne_nil (nonempty x hx)
    have hspace : isSpace c = false := by
      apply Stylesheet.isSpace_of_not_isBlank
      exact (shape.selectors x hx).trimmed.head c (by rw [hc]; rfl)
    simp [hc, hspace]
  have unbroken : ∀ x ∈ r.selectors, ∀ c ∈ x.toList, c ≠ ',' := by
    rintro x hx c hc rfl
    have := (shape.selectors x hx).unbroken _ hc
    simp [Stylesheet.endsSelector] at this
  obtain ⟨x, xs, hr⟩ := List.exists_cons_of_ne_nil shape.nonempty
  have hx : x ∈ r.selectors := hr ▸ List.mem_cons_self ..
  have hxs : ∀ x' ∈ xs, x' ∈ r.selectors := fun x' hx' => hr ▸ List.mem_cons_of_mem x hx'
  obtain ⟨t, more, hsplit, ht, hmore⟩ := split_furtherSelectors xs
    (fun x' hx' => unbroken x' (hxs x' hx')) (x.toList.foldl Place.next {})
  obtain ⟨piece, hpiece, rfl⟩ := List.mem_map.mp hy
  rw [selectorText_eq shape hr, split_append (unbroken x hx), hsplit] at hpiece
  rcases List.mem_cons.mp hpiece with rfl | hpiece
  · exact ⟨x, hx, t, ht, starts x hx t⟩
  · obtain ⟨x', hx', t', ht', rfl⟩ := hmore piece hpiece
    refine ⟨x', hxs x' hx', t', ht', ?_⟩
    rw [List.cons_append, List.dropWhile_cons_of_pos (by decide), starts x' (hxs x' hx') t']

end Confinement.Selector
