import Confinement.Proofs.Emission.Style
import Confinement.Proofs.Selector.Reading

/-!
# Where confined selectors lead

The confinement check has a simpler eye than a style sheet: it knows no escapes, does not tell a
parenthesis from a bracket, takes every Unicode blank for white space and sees selectors that were
cut at every comma. Each selector that it lets through opens with the scoping class or a scoped id,
also as the style sheet reads it. It leaves its element through a sibling combinator only if the
compound that it opens with is not written plainly, that is, if it holds one of the things that only
the style sheet sees.
-/
namespace Confinement.Emission
open Selector (Place)
open Stylesheet (isSpace)

theorem isIdentChar_hexDigit (n : Nat) : Text.isIdentChar (Guid.hexDigit n) = true := by
  have digits : ∀ m < 16, Text.isIdentChar (Guid.hexDigit m) = true := by decide
  have same : Guid.hexDigit (n % 16) = Guid.hexDigit n := by simp [Guid.hexDigit]
  exact same ▸ digits (n % 16) (Nat.mod_lt n (by decide))

theorem isIdentChar_of_mem_hexDigits {width n : Nat} {c : Char}
    (h : c ∈ Guid.hexDigits width n) : Text.isIdentChar c = true := by
  induction width generalizing n with
  | zero => simp [Guid.hexDigits] at h
  | succ width ih =>
    rcases List.mem_append.mp h with h | h
    · exact ih h
    · rw [List.mem_singleton.mp h]
      exact isIdentChar_hexDigit n

theorem isIdentChar_of_isCssIdentifier {s : String} (h : Text.isCssIdentifier s = true) :
    ∀ c ∈ s.toList, Text.isIdentChar c = true := by
  have body {s : List Char} (h : Text.isIdentifierBody s = true) :
      ∀ c ∈ s, Text.isIdentChar c = true := by
    cases s with
    | nil => simp
    | cons c rest =>
      simp only [Text.isIdentifierBody, Bool.and_eq_true, Bool.or_eq_true, List.all_eq_true] at h
      intro d hd
      rcases List.mem_cons.mp hd with rfl | hd
      · rcases h.1 with halpha | hd
        · simp [Text.isIdentChar, Char.isAlphanum, halpha]
        · simp [Text.isIdentChar, hd]
      · exact h.2 d hd
  unfold Text.isCssIdentifier Text.isCssIdentifierChars at h
  split at h
  · rename_i rest hs
    rw [hs]
    intro c hc
    rcases List.mem_cons.mp hc with rfl | hc
    · decide
    · exact body h c hc
  · exact body h

theorem isIdentChar_of_mem_token {stem : String} {guid : Guid} {token : Token}
    (made : Token.make? stem guid = some token) :
    ∀ c ∈ token.text.toList, Text.isIdentChar c = true := by
  unfold Token.make? at made
  split at made
  · rename_i hstem
    cases made
    intro c hc
    simp only [Token.text, String.toList_append, String.toList_ofList, List.mem_append] at hc
    rcases hc with (hc | hc) | hc
    · exact isIdentChar_of_isCssIdentifier hstem c hc
    · rw [show "-".toList = ['-'] from rfl, List.mem_singleton] at hc
      rw [hc]
      decide
    · exact isIdentChar_of_mem_hexDigits hc
  · cases made

/-- The scoping class, or an id that is scoped to the module. -/
def Opening (token : Token) (o : List Char) : Prop :=
  o = '.' :: token.text.toList ∨
    ∃ loc : List Char, loc ≠ [] ∧ (∀ c ∈ loc, Text.isIdentChar c = true) ∧
      o = '#' :: loc ++ '-' :: token.text.toList

/-- A selector opens with the scoping class or with a scoped id. -/
def Opens (token : Token) (s : List Char) : Prop := ∃ o, Opening token o ∧ o <+: s

theorem Opening.ordinary {stem : String} {guid : Guid} {token : Token} {o : List Char}
    (h : Opening token o) (made : Token.make? stem guid = some token) :
    ∀ c ∈ o, Selector.isOrdinary c = true := by
  have name {c : Char} (hc : Text.isIdentChar c = true) : Selector.isOrdinary c = true := by
    simp [Selector.isOrdinary, hc]
  have htoken := isIdentChar_of_mem_token made
  intro c hc
  rcases h with rfl | ⟨loc, -, hloc, rfl⟩
  · rcases List.mem_cons.mp hc with rfl | hc
    · decide
    · exact name (htoken c hc)
  · simp only [List.cons_append, List.mem_cons, List.mem_append] at hc
    rcases hc with rfl | hc | rfl | hc
    · decide
    · exact name (hloc c hc)
    · decide
    · exact name (htoken c hc)

theorem splitFirst_eq_some {needle s before after : List Char}
    (h : splitFirst needle s = some (before, after)) : s = before ++ needle ++ after := by
  induction s generalizing before with
  | nil =>
    unfold splitFirst at h
    split at h
    · rename_i hn
      cases h
      simp [List.isEmpty_iff.mp hn]
    · cases h
  | cons c rest ih =>
    unfold splitFirst at h
    split at h
    · rename_i hn
      cases h
      obtain ⟨t, ht⟩ := List.isPrefixOf_iff_prefix.mp hn
      rw [← ht]
      simp
    · obtain ⟨⟨b, a⟩, hsplit, hba⟩ := Option.map_eq_some_iff.mp h
      cases hba
      rw [ih hsplit]
      simp

/-- A text that starts with a sibling combinator. -/
def IsSibling (s : List Char) : Prop := ∃ c rest, s = c :: rest ∧ (c = '~' ∨ c = '+')

theorem checkCombinator_eq_ok_iff {name : String} {s : List Char} :
    checkCombinator name s = .ok () ↔ ¬ IsSibling (Text.trimStart s) := by
  unfold checkCombinator IsSibling
  split
  · rename_i rest hs
    simp [hs]
  · rename_i rest hs
    simp [hs]
  · rename_i htilde hplus
    refine iff_of_true rfl ?_
    rintro ⟨c, rest, hs, rfl | rfl⟩
    · exact htilde rest hs
    · exact hplus rest hs

/-- What may follow the scoping class: nothing, or a blank or `>` that leads to no sibling. -/
def Descends (after : List Char) : Prop :=
  after = [] ∨ ∃ c rest, after = c :: rest ∧ (Text.isBlank c = true ∨ c = '>') ∧
    ¬ IsSibling (Text.trimStart after)

theorem checkAfterClass_eq_ok_iff {name : String} {after : List Char} :
    checkAfterClass name after = .ok () ↔ Descends after := by
  cases after with
  | nil => simp [checkAfterClass, Descends]
  | cons c rest =>
    simp only [checkAfterClass, Bool.or_eq_true, beq_iff_eq]
    split
    · rename_i hc
      simp [checkCombinator_eq_ok_iff, Descends, hc]
    · rename_i hc
      simp [Descends, hc]

/-- The local part of a scoped id, and what follows the token. -/
structure Scoped (loc after : List Char) : Prop where
  nonempty : loc ≠ []
  named : ∀ c ∈ loc, Text.isIdentChar c = true
  ends : ∀ c, after.head? = some c → Text.isIdentChar c = false
  stays : ¬ IsSibling (Text.trimStart (skipCompound 0 none after))

theorem checkId_eq_ok_iff {name : String} {token id : List Char} :
    checkId name token id = .ok () ↔
      ∃ loc after, splitFirst token id = some (loc ++ ['-'], after) ∧ Scoped loc after := by
  have extended {after : List Char} : (after.head?.map Text.isIdentChar).getD false = true ↔
      ¬ ∀ c, after.head? = some c → Text.isIdentChar c = false := by
    cases after.head? <;> simp
  unfold checkId
  constructor
  · intro h
    split at h
    · cases h
    · rename_i before after hsplit
      split at h
      · rename_i loc hloc
        split at h
        · cases h
        · rename_i hname
          split at h
          · cases h
          · rename_i hextended
            have hname : loc ≠ [] ∧ ∀ c ∈ loc, Text.isIdentChar c = true := by simpa using hname
            have hbefore : before = loc.reverse ++ ['-'] := by
              rw [← List.reverse_reverse before, hloc, List.reverse_cons]
            exact ⟨loc.reverse, after, hbefore ▸ hsplit, by simpa using hname.1,
              by simpa using hname.2, not_not.mp (mt extended.mpr hextended),
              checkCombinator_eq_ok_iff.mp h⟩
      · cases h
  · rintro ⟨loc, after, hsplit, hne, hloc, hend, hsibling⟩
    have hname : ¬ (loc.reverse.isEmpty || !loc.reverse.all Text.isIdentChar) = true := by
      simpa using ⟨hne, hloc⟩
    simp only [hsplit, List.reverse_append, List.reverse_singleton, List.singleton_append]
    rw [if_neg hname, if_neg (not_not.mpr hend ∘ extended.mp)]
    exact checkCombinator_eq_ok_iff.mpr hsibling

/-- The check branch by branch, with the token of an id where the check finds it. -/
theorem checkConfined_eq_ok_iff {x : String} {token : Token} :
    checkConfined x token = .ok () ↔
      occurrences token.text.toList (Text.trim x.toList) = 1 ∧
        ((∃ after, Text.trim x.toList = '.' :: (token.text.toList ++ after) ∧ Descends after) ∨
        ∃ id loc after, Text.trim x.toList = '#' :: id ∧
          splitFirst token.text.toList id = some (loc ++ ['-'], after) ∧ Scoped loc after) := by
  simp only [checkConfined, bne_iff_ne, ne_eq]
  split
  · rename_i hcount
    simp [hcount]
  rename_i hcount
  rw [not_not] at hcount
  generalize Text.trim x.toList = s at hcount
  split
  · rename_i rest
    split
    · rename_i hprefix
      obtain ⟨after, rfl⟩ := List.isPrefixOf_iff_prefix.mp hprefix
      rw [List.drop_left, checkAfterClass_eq_ok_iff]
      simp [hcount]
    · rename_i hprefix
      refine iff_of_false (by simp) ?_
      rintro ⟨-, ⟨after, hs, -⟩ | ⟨id, loc, after, hs, -⟩⟩
      · obtain ⟨-, rfl⟩ := List.cons.inj hs
        exact hprefix (List.isPrefixOf_iff_prefix.mpr (List.prefix_append ..))
      · simp at hs
  · rename_i id
    rw [checkId_eq_ok_iff]
    simp [hcount]
  · rename_i hclass hid
    refine iff_of_false (by simp) ?_
    rintro ⟨-, ⟨after, hs, -⟩ | ⟨id, loc, after, hs, -⟩⟩
    · exact hclass _ hs
    · exact hid _ hs

/-- Outside of strings, parentheses and brackets the check stops at each blank and combinator. -/
theorem skipCompound_stop {c : Char} (h : (Text.isBlank c || Selector.isCombinator c) = true)
    (rest : List Char) : skipCompound 0 none (c :: rest) = c :: rest := by
  have other {d : Char} (hd : (Text.isBlank d || Selector.isCombinator d) = false) : c ≠ d := by
    rintro rfl
    rw [h] at hd
    contradiction
  have hquote : (c == '\x22' || c == '\x27') = false := by
    simp [@other '\x22' (by decide), @other '\x27' (by decide)]
  have hopen : (c == '(' || c == '[') = false := by
    simp [@other '(' (by decide), @other '[' (by decide)]
  have hclose : (c == ')' || c == ']') = false := by
    simp [@other ')' (by decide), @other ']' (by decide)]
  have hstop : (Text.isBlank c || c == '>' || c == '~' || c == '+') = true := by
    simpa only [Selector.isCombinator, ← Bool.or_assoc] using h
  simp only [skipCompound, hquote, hopen, hclose, hstop, Bool.false_eq_true, if_false]
  simp

/-- The class is followed by a blank or by `>`, where the compound stops. -/
theorem Descends.not_isSibling {after : List Char} (h : Descends after) :
    ¬ IsSibling (Text.trimStart (skipCompound 0 none after)) := by
  rcases h with rfl | ⟨c, rest, rfl, hc, hsibling⟩
  · rintro ⟨c, rest, hs, -⟩
    cases hs
  · have hstop : (Text.isBlank c || Selector.isCombinator c) = true := by
      rcases hc with hblank | rfl
      · rw [hblank, Bool.true_or]
      · decide
    rw [skipCompound_stop hstop]
    exact hsibling

/-- What stands behind an opening that passed the check, read with the eye of the check. -/
theorem exists_opening {x : String} {token : Token} (h : checkConfined x token = .ok ()) :
    ∃ o after, Text.trim x.toList = o ++ after ∧ Opening token o ∧
      ¬ IsSibling (Text.trimStart (skipCompound 0 none after)) := by
  obtain ⟨-, ⟨after, hs, hdescends⟩ | ⟨id, loc, after, hs, hsplit, hscoped⟩⟩ :=
    checkConfined_eq_ok_iff.mp h
  · exact ⟨'.' :: token.text.toList, after, hs, .inl rfl, hdescends.not_isSibling⟩
  · refine ⟨'#' :: loc ++ '-' :: token.text.toList, after, ?_,
      .inr ⟨loc, hscoped.nonempty, hscoped.named, rfl⟩, hscoped.stays⟩
    rw [hs, splitFirst_eq_some hsplit]
    simp

/-- Whether a character of a compound means to a style sheet what it seems to mean. A comma would
cut the selector in two, and an escaped character is literal. A parenthesis or bracket that is not
the awaited one closes nothing, and a blank that is not white space separates nothing. -/
def plainly (p : Place) (c : Char) : Bool :=
  c != ',' &&
    match p.quote, p.escaped with
    | some q, escaped => !escaped || c != q
    | none, true =>
      !Selector.isQuote c && (Selector.closer? c).isNone && !Selector.isCloser c &&
        !(p.awaited.isEmpty && (Text.isBlank c || Selector.isCombinator c))
    | none, false =>
      if Selector.isCloser c then p.awaited.isEmpty || p.awaited.head? == some c
      else !(p.awaited.isEmpty && Text.isBlank c)

/-- Whether the compound that the reader is in is written plainly to its end. -/
def plain (p : Place) : List Char → Bool
  | [] => true
  | c :: rest => p.stops c || (plainly p c && plain (p.next c) rest)

theorem plainly_of_isOrdinary {c : Char} (h : Selector.isOrdinary c = true) :
    plainly {} c = true := by
  have hparen : c ≠ ')' := Selector.ne_of_isOrdinary h (by decide)
  have hbracket : c ≠ ']' := Selector.ne_of_isOrdinary h (by decide)
  have hcomma : c ≠ ',' := Selector.ne_of_isOrdinary h (by decide)
  simp [plainly, Selector.isCloser, hparen, hbracket, hcomma, Selector.isBlank_of_isOrdinary h]

theorem plain_ordinary {o : List Char} (h : ∀ c ∈ o, Selector.isOrdinary c = true) (s : List Char) :
    plain {} (o ++ s) = plain {} s := by
  induction o with
  | nil => rfl
  | cons c o ih =>
    have hc := h c (List.mem_cons_self ..)
    rw [List.cons_append, plain, Place.stops_of_isOrdinary hc, plainly_of_isOrdinary hc,
      Place.next_of_isOrdinary hc, ih fun d hd => h d (List.mem_cons_of_mem c hd)]
    rfl

/-- Where the style sheet ends the compound, the check ends it. -/
theorem skipCompound_of_stops {p : Place} {c : Char} (h : p.stops c = true) (rest : List Char) :
    skipCompound p.awaited.length p.quote (c :: rest) = c :: rest := by
  simp only [Place.stops, Place.isTop, Bool.and_eq_true, List.isEmpty_iff,
    Option.isNone_iff_eq_none] at h
  rw [h.1.1.1, h.1.1.2]
  refine skipCompound_stop ?_ rest
  rcases Bool.or_eq_true .. ▸ h.2 with hspace | hcombinator
  · rw [Stylesheet.isBlank_of_isSpace hspace, Bool.true_or]
  · rw [hcombinator, Bool.or_true]

/-- Characters without a meaning of their own are passed. -/
theorem skipCompound_pass {depth : Nat} {c : Char} (hquote : Selector.isQuote c = false)
    (hopen : Selector.closer? c = none) (hclose : Selector.isCloser c = false)
    (hstop : depth = 0 → (Text.isBlank c || Selector.isCombinator c) = false) (rest : List Char) :
    skipCompound depth none (c :: rest) = skipCompound depth none rest := by
  obtain ⟨hparen, hbracket⟩ := Selector.closer?_eq_none_iff.mp hopen
  simp only [Selector.isQuote] at hquote
  simp only [Selector.isCloser] at hclose
  simp only [Selector.isCombinator, ← Bool.or_assoc] at hstop
  simp only [skipCompound, hquote, hclose, Bool.false_eq_true, if_false]
  rw [if_neg (by simp [hparen, hbracket]), if_neg]
  simp only [Bool.and_eq_true, beq_iff_eq, not_and, Bool.not_eq_true]
  exact hstop

theorem skipCompound_closer {c : Char} (h : Selector.isCloser c = true) (depth : Nat)
    (rest : List Char) :
    skipCompound depth none (c :: rest) = skipCompound (depth - 1) none rest := by
  simp only [Selector.isCloser, Bool.or_eq_true, beq_iff_eq] at h
  rcases h with rfl | rfl <;> simp [skipCompound]

/-- Outside of strings, where nothing is escaped. -/
theorem skipCompound_of_plainly_outside {awaited : List Char} {c : Char}
    (hstop : Place.stops { awaited } c = false) (hplain : plainly { awaited } c = true)
    (rest : List Char) :
    skipCompound awaited.length none (c :: rest) =
      skipCompound (Place.next { awaited } c).awaited.length (Place.next { awaited } c).quote
        rest := by
  by_cases hescape : c = '\\'
  · rw [hescape]
    exact skipCompound_pass (by decide) (by decide) (by decide) (fun _ => by decide) rest
  cases hquote : Selector.isQuote c with
  | true =>
    have hq : (c == '\x22' || c == '\x27') = true := hquote
    simp [skipCompound, hq, Place.next, hescape, hquote]
  | false =>
    by_cases hopen : c = '(' ∨ c = '['
    · rcases hopen with rfl | rfl <;> simp [skipCompound, Place.next, hquote, Selector.closer?]
    have hopen : Selector.closer? c = none := Selector.closer?_eq_none_iff.mpr (not_or.mp hopen)
    have hnext : Place.next { awaited } c = if Selector.isCloser c && awaited.head? == some c then
        { awaited := awaited.tail } else { awaited } := by
      simp [Place.next, hescape, hquote, hopen]
    cases hclose : Selector.isCloser c with
    | true =>
      -- Only the awaited one closes something, and where none is awaited the depth stays at zero.
      simp only [plainly, hclose, if_true, Bool.and_eq_true] at hplain
      rw [skipCompound_closer hclose, hnext, hclose]
      cases awaited with
      | nil => rfl
      | cons d ds =>
        have hd : d = c := by simpa using hplain.2
        simp [hd]
    | false =>
      simp only [plainly, hclose, Bool.and_eq_true] at hplain
      have hpass : awaited.length = 0 → (Text.isBlank c || Selector.isCombinator c) = false := by
        intro h
        rw [List.length_eq_zero_iff.mp h] at hstop hplain
        have hcombinator : isSpace c = false ∧ Selector.isCombinator c = false := by
          simpa [Place.stops, Place.isTop] using hstop
        have hblank : Text.isBlank c = false := by simpa using hplain.2
        rw [hblank, hcombinator.2, Bool.or_false]
      rw [skipCompound_pass hquote hopen hclose hpass, hnext, hclose]
      rfl

/-- A plain character takes both to the same place. -/
theorem skipCompound_of_plainly {p : Place} {c : Char} (hstop : p.stops c = false)
    (hplain : plainly p c = true) (rest : List Char) :
    skipCompound p.awaited.length p.quote (c :: rest) =
      skipCompound (p.next c).awaited.length (p.next c).quote rest := by
  obtain ⟨awaited, quote, escaped⟩ := p
  cases quote with
  | some q =>
    have hq : escaped = true → c ≠ q := by
      rintro rfl
      simp only [plainly, Bool.and_eq_true] at hplain
      simpa using hplain.2
    by_cases hc : c = q
    · cases escaped with
      | true => exact absurd hc (hq rfl)
      | false => simp [skipCompound, Place.next, hc]
    · cases escaped <;> simp [skipCompound, Place.next, hc]
  | none =>
    cases escaped with
    | true =>
      simp only [plainly, Bool.and_eq_true, Bool.not_eq_true', Option.isNone_iff_eq_none] at hplain
      obtain ⟨-, ⟨⟨hquote, hopen⟩, hclose⟩, htop⟩ := hplain
      refine skipCompound_pass hquote hopen hclose (fun h => ?_) rest
      have hawaited : awaited = [] := List.length_eq_zero_iff.mp h
      rw [hawaited] at htop
      exact htop
    | false => exact skipCompound_of_plainly_outside hstop hplain rest

theorem leadsToSibling_iff {s : List Char} :
    Selector.leadsToSibling s = true ↔ IsSibling (s.dropWhile Stylesheet.isSpace) := by
  unfold Selector.leadsToSibling IsSibling
  split
  · simp_all
  · simp_all
  · rename_i htilde hplus
    refine iff_of_false (by simp) ?_
    rintro ⟨c, rest, hs, rfl | rfl⟩
    · exact htilde rest hs
    · exact hplus rest hs

theorem leadsToSibling_of_ends {t : List Char} (ends : Selector.Ends t) :
    Selector.leadsToSibling t = false := by
  rcases ends with rfl | rfl | hcomma
  · rfl
  · rfl
  · obtain ⟨rest, rfl⟩ := List.head?_eq_some_iff.mp hcomma
    rfl

/-- White space counts as blank, so what a style sheet sees behind it the check sees too. -/
theorem isSibling_trimStart {s t : List Char} (ends : Selector.Ends t)
    (h : Selector.leadsToSibling (s ++ t) = true) : IsSibling (Text.trimStart s) := by
  induction s with
  | nil => simp [leadsToSibling_of_ends ends] at h
  | cons c s ih =>
    rw [leadsToSibling_iff, List.cons_append] at h
    cases hspace : Stylesheet.isSpace c with
    | true =>
      rw [List.dropWhile_cons_of_pos hspace, ← leadsToSibling_iff] at h
      rw [Text.trimStart, List.dropWhile_cons_of_pos (Stylesheet.isBlank_of_isSpace hspace)]
      exact ih h
    | false =>
      rw [List.dropWhile_cons_of_neg (by simp [hspace])] at h
      obtain ⟨d, rest, heq, hd⟩ := h
      obtain ⟨rfl, -⟩ := List.cons.inj heq
      refine ⟨c, s, ?_, hd⟩
      rcases hd with rfl | rfl <;> rfl

/-- Over a plain compound the two go side by side, up to the combinator behind it. -/
theorem isSibling_of_plain {p : Place} {s t : List Char} (ends : Selector.Ends t)
    (hplain : plain p (s ++ t) = true)
    (h : Selector.leadsToSibling (Selector.afterCompound p (s ++ t)) = true) :
    IsSibling (Text.trimStart (skipCompound p.awaited.length p.quote s)) := by
  induction s generalizing p with
  | nil =>
    exfalso
    rcases ends with rfl | rfl | hcomma
    · simp [Selector.afterCompound, Selector.leadsToSibling] at h
    · rw [List.nil_append, Selector.afterCompound] at h
      split at h <;> simp [Selector.afterCompound, Selector.leadsToSibling, Stylesheet.isSpace] at h
    · obtain ⟨rest, rfl⟩ := List.head?_eq_some_iff.mp hcomma
      simp [plain, plainly, Place.stops, Stylesheet.isSpace, Selector.isCombinator] at hplain
  | cons c s ih =>
    rw [List.cons_append, Selector.afterCompound] at h
    rw [List.cons_append, plain] at hplain
    cases hstop : p.stops c with
    | true =>
      rw [skipCompound_of_stops hstop]
      rw [if_pos hstop, ← List.cons_append] at h
      exact isSibling_trimStart ends h
    | false =>
      simp only [hstop, Bool.false_or, Bool.and_eq_true] at hplain
      rw [skipCompound_of_plainly hstop hplain.1]
      rw [if_neg (by simp [hstop])] at h
      exact ih hplain.2 h

/-- A selector that passed the check, with whatever follows it in the same piece. -/
theorem opens_and_stays {stem : String} {guid : Guid} {token : Token}
    (made : Token.make? stem guid = some token) {x : String} (trimmed : Text.Trimmed x.toList)
    (confined : checkConfined x token = .ok ()) {t : List Char} (ends : Selector.Ends t) :
    Opens token (x.toList ++ t) ∧
      (plain {} (x.toList ++ t) = true → Selector.reachesSibling (x.toList ++ t) = false) := by
  obtain ⟨o, after, htrim, hopening, hcheck⟩ := exists_opening confined
  rw [trimmed.trim_eq] at htrim
  have ordinary := hopening.ordinary made
  rw [htrim, List.append_assoc]
  refine ⟨⟨o, hopening, List.prefix_append o _⟩, fun hplain => ?_⟩
  rw [plain_ordinary ordinary] at hplain
  rw [Selector.reachesSibling, Selector.afterCompound_ordinary ordinary, ← Bool.not_eq_true]
  intro hsibling
  exact hcheck (isSibling_of_plain ends hplain hsibling)

/-- An accepted call, under a token that the host made. It adds the rules that its text is read as,
and every selector of a printed rule, cut as style sheets cut them, opens with the scoping class or
a scoped id. Where that compound is written plainly, no sibling combinator stands behind it. -/
theorem emitted_selectors_stay_inside {stem : String} {guid : Guid} (s : StyleScoper)
    (made : Token.make? stem guid = some s.token) (parts : List String)
    (accepted : (s.emit parts).1 = .ok ()) :
    ∃ rules, Stylesheet.parse (s.token.text.intercalate parts) = some rules ∧
      (s.emit parts).2.rules = s.rules ++ rules ∧
      ∀ r ∈ rules, ∀ x ∈ Selector.selectors (Selector.selectorText r),
        Opens s.token x ∧ (plain {} x = true → Selector.reachesSibling x = false) := by
  obtain ⟨-, rules, hparse, hconfined, hs⟩ := StyleScoper.emit_accepted accepted
  refine ⟨rules, hparse, by rw [hs], fun r hr y hy => ?_⟩
  have shape := Stylesheet.shape_rules hparse r hr
  obtain ⟨x, hx, t, ends, rfl⟩ := Selector.mem_selectors shape
    (fun x hx => toList_ne_nil_of_checkConfined (hconfined r hr x hx)) hy
  exact opens_and_stays made (shape.selectors x hx).trimmed (hconfined r hr x hx) ends

/-- Combinators inside a string and inside parentheses, and a child combinator behind them. -/
def hiddenTildes : List String := ["#x-", "[a='~ ('](~ b) > p \x7b c: d \x7d"]

open StyleScoper in
/-- A compound that is written plainly though it holds combinators. -/
theorem emitted_selectors_stay_inside_of_hiddenTildes :
    Token.make? defaultStem (.ofIndex 0) = some (new .first).token ∧
    ((new .first).emit hiddenTildes).1 = .ok () ∧
    ((new .first).emit hiddenTildes).2.rules ≠ [] ∧
    ∀ r ∈ ((new .first).emit hiddenTildes).2.rules,
      ∀ x ∈ Selector.selectors (Selector.selectorText r),
        Opens .first x ∧ Selector.reachesSibling x = false := by
  have made : Token.make? defaultStem (.ofIndex 0) = some (new .first).token := by decide
  have accepted : ((new .first).emit hiddenTildes).1 = .ok () := by decide +kernel
  have one_rule : ((new .first).emit hiddenTildes).2.rules.length = 1 := by decide +kernel
  have plainly : ∀ r ∈ ((new .first).emit hiddenTildes).2.rules,
      ∀ x ∈ Selector.selectors (Selector.selectorText r), plain {} x = true := by decide +kernel
  obtain ⟨rules, -, hrules, inside⟩ :=
    emitted_selectors_stay_inside (new .first) made hiddenTildes accepted
  refine ⟨made, accepted, List.ne_nil_of_length_pos (by omega), fun r hr x hx => ?_⟩
  have hmem : r ∈ rules := by rwa [hrules] at hr
  exact ⟨(inside r hmem x hx).1, (inside r hmem x hx).2 (plainly r hr x hx)⟩

/-- The call is accepted although a selector of one of its rules reaches a sibling. -/
def StyleScoper.LetsSiblingThrough (s : StyleScoper) (parts : List String) : Prop :=
  (s.emit parts).1 = .ok () ∧ ∃ r ∈ (s.emit parts).2.rules,
    ∃ x ∈ Selector.selectors (Selector.selectorText r), Selector.reachesSibling x = true

instance (s : StyleScoper) (parts : List String) : Decidable (s.LetsSiblingThrough parts) :=
  inferInstanceAs (Decidable (_ ∧ _))

open StyleScoper in
/-- Four ways to hide the combinator: an escaped parenthesis, a comma inside parentheses,
parentheses and brackets that cross, and a no-break space, which is part of the class name. -/
theorem emit_lets_siblings_through :
    (new .first).LetsSiblingThrough ["#x-", "\\( ~ p \x7b c: d \x7d"] ∧
    (new .first).LetsSiblingThrough ["#x-", ":is(a, .", " b) ~ p \x7b c: d \x7d"] ∧
    (new .first).LetsSiblingThrough ["#x-", "([)) > b]) ~ p \x7b c: d \x7d"] ∧
    (new .first).LetsSiblingThrough [".", "\u00a0p ~ q \x7b c: d \x7d"] := by
  decide +kernel

end Confinement.Emission
