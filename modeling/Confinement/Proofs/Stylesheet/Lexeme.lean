import Confinement.Proofs.Stylesheet.Shape

/-!
# The lexemes of style sheets

A style sheet is cut into lexemes, each behind the longest gap of spaces and closed comments and
each the longest run of its class. A class may look at the text behind a run, since a selector ends
where a comment opens. What the reader takes at a place is exactly such a lexeme.
-/
namespace Confinement.Stylesheet

/-- A run of a class in front of `rest` that is not shorter than any other one at that place. -/
structure Longest (P : List Char → List Char → Prop) (run rest : List Char) : Prop where
  belongs : P run rest
  longest : ∀ run' rest', P run' rest' → run' ++ rest' = run ++ rest → run'.length ≤ run.length

/-- Where every place of a run of the class has a property, a run ends at the latest where the text
lacks it. -/
theorem Longest.of_stops {P : List Char → List Char → Prop} (goesOn : List Char → Prop)
    (everywhere : ∀ a b rest, P (a ++ b) rest → b ≠ [] → goesOn (b ++ rest))
    {run rest : List Char} (belongs : P run rest) (stops : ¬ goesOn rest) : Longest P run rest := by
  refine ⟨belongs, fun run' rest' h same => ?_⟩
  by_contra longer
  obtain ⟨b, rfl⟩ := List.prefix_of_prefix_length_le (List.prefix_append run rest)
    (same ▸ List.prefix_append run' rest') (by omega)
  have hb : b ≠ [] := by
    rintro rfl
    simp at longer
  rw [List.append_assoc] at same
  exact stops (List.append_cancel_left same ▸ everywhere run b rest' h hb)

/-- A run of characters of some kind ends where a character of another kind stands. -/
theorem Longest.of_chars {P : List Char → List Char → Prop} (kind : Char → Bool)
    (chars : ∀ run rest, P run rest → ∀ c ∈ run, kind c = true) {run rest : List Char}
    (belongs : P run rest) (stops : ∀ c, rest.head? = some c → kind c = false) :
    Longest P run rest := by
  refine .of_stops (fun s => ∃ c, s.head? = some c ∧ kind c = true) (fun a b t h hb => ?_)
    belongs ?_
  · obtain ⟨c, b, rfl⟩ := List.exists_cons_of_ne_nil hb
    exact ⟨c, rfl, chars _ t h c (by simp)⟩
  · rintro ⟨c, hc, hkind⟩
    rw [stops c hc] at hkind
    cases hkind

/-- Spaces and closed comments. A comment ends where its closing first stands. -/
inductive IsGap : List Char → Prop where
  | nil : IsGap []
  | space {c : Char} {gap : List Char} (hc : isSpace c = true) (hgap : IsGap gap) :
      IsGap (c :: gap)
  | comment {body gap : List Char} (hbody : ¬ ['*', '/'] <:+: body) (hgap : IsGap gap) :
      IsGap ('/' :: '*' :: (body ++ '*' :: '/' :: gap))

/-- A selector is not empty, holds no separator, and no comment opens at any place of it. -/
structure IsSelector (run rest : List Char) : Prop where
  nonempty : run ≠ []
  unbroken : ∀ c ∈ run, endsSelector c = false
  uncommented : ∀ a b, run = a ++ b → b ≠ [] → ¬ ['/', '*'] <+: b ++ rest

/-- A letter, a hyphen or an underscore, then any of these or digits, all behind an optional hyphen.
A hyphen at the start is always the optional one. -/
def IsProperty (run : List Char) : Prop :=
  ∃ c more, startsProperty c = true ∧ (∀ d ∈ more, Text.isIdentChar d = true) ∧
    (run = '-' :: c :: more ∨ c ≠ '-' ∧ run = c :: more)

def IsValue (run : List Char) : Prop := run ≠ [] ∧ ∀ c ∈ run, inValue c = true

/-- A piece of a style sheet: a name or value of some kind, or a single mark. -/
inductive Lexeme where
  | selector (run : List Char)
  | property (run : List Char)
  | value (run : List Char)
  | mark (c : Char)

namespace Lexeme

def text : Lexeme → List Char
  | .selector run => run
  | .property run => run
  | .value run => run
  | .mark c => [c]

/-- What the kind of a lexeme asks of a run and of the text behind it. -/
def Fits : Lexeme → List Char → List Char → Prop
  | .selector _ => IsSelector
  | .property _ => fun run _ => IsProperty run
  | .value _ => fun run _ => IsValue run
  | .mark c => fun run _ => run = [c]

end Lexeme

/-- Behind the longest gap stands the lexeme, the longest of its class, and behind that `rest`. -/
def Takes (s : List Char) (l : Lexeme) (rest : List Char) : Prop :=
  ∃ gap, s = gap ++ (l.text ++ rest) ∧ Longest (fun g _ => IsGap g) gap (l.text ++ rest) ∧
    Longest l.Fits l.text rest

/-- The text is cut into lexemes, and `rest` is left. -/
inductive Cut : List Char → List Lexeme → List Char → Prop where
  | nil (s : List Char) : Cut s [] s
  | cons {s t rest : List Char} {l : Lexeme} {ls : List Lexeme} (first : Takes s l t)
      (more : Cut t ls rest) : Cut s (l :: ls) rest

/-- A run as the reader yields it. -/
def trimmed (run : List Char) : String := String.ofList (Text.trim run)

theorem afterComment_append {body : List Char} (h : ¬ ['*', '/'] <:+: body) (rest : List Char) :
    afterComment (body ++ '*' :: '/' :: rest) = some rest := by
  induction body with
  | nil => rfl
  | cons c body ih =>
    have tail := ih fun hi => h (hi.trans (List.suffix_cons c body).isInfix)
    rw [List.cons_append, afterComment.eq_def]
    split
    · rename_i heq; cases heq
    · -- The closing would have to lie within the body.
      rename_i heq
      obtain ⟨rfl, hnext⟩ := List.cons.inj heq
      cases body with
      | nil => cases hnext
      | cons d body =>
        obtain ⟨rfl, -⟩ := List.cons.inj hnext
        exact absurd (List.prefix_append ['*', '/'] body).isInfix h
    · rename_i heq
      obtain ⟨-, rfl⟩ := List.cons.inj heq
      exact tail

theorem exists_body_of_afterComment {s rest : List Char} (h : afterComment s = some rest) :
    ∃ body, ¬ ['*', '/'] <:+: body ∧ s = body ++ '*' :: '/' :: rest := by
  fun_induction afterComment s with
  | case1 => cases h
  | case2 => cases h; exact ⟨[], by simp, rfl⟩
  | case3 c s hclose ih =>
    obtain ⟨body, hbody, rfl⟩ := ih h
    refine ⟨c :: body, ?_, rfl⟩
    rw [List.infix_cons_iff]
    rintro (⟨t, ht⟩ | hi)
    · obtain ⟨rfl, rfl⟩ := List.cons.inj ht
      exact hclose _ rfl rfl
    · exact hbody hi

theorem skip_comment {s rest : List Char} (h : afterComment s = some rest) :
    skip ('/' :: '*' :: s) = skip rest := by
  rw [skip]
  split
  · rename_i heq; rw [h] at heq; cases heq; rfl
  · rename_i heq; rw [h] at heq; cases heq

theorem skip_gap {gap : List Char} (h : IsGap gap) (t : List Char) : skip (gap ++ t) = skip t := by
  induction h with
  | nil => rfl
  | space hc _ ih => rw [List.cons_append, skip_space hc, ih]
  | comment hbody _ ih =>
    simp only [List.cons_append, List.append_assoc]
    rw [skip_comment (afterComment_append hbody _), ih]

theorem exists_gap (s : List Char) : ∃ gap, IsGap gap ∧ s = gap ++ skip s := by
  fun_induction skip s with
  | case1 => exact ⟨[], .nil, rfl⟩
  | case2 s after h ih =>
    obtain ⟨body, hbody, rfl⟩ := exists_body_of_afterComment h
    obtain ⟨gap, hgap, heq⟩ := ih
    refine ⟨_, .comment hbody hgap, ?_⟩
    nth_rewrite 1 [heq]
    simp
  | case3 => exact ⟨[], .nil, rfl⟩
  | case4 c s _ hc ih =>
    obtain ⟨gap, hgap, heq⟩ := ih
    exact ⟨c :: gap, .space hc hgap, by rw [List.cons_append, ← heq]⟩
  | case5 => exact ⟨[], .nil, rfl⟩

theorem skip_skip (s : List Char) : skip (skip s) = skip s := by
  obtain ⟨gap, hgap, heq⟩ := exists_gap s
  conv_rhs => rw [heq, skip_gap hgap]

theorem IsGap.append {gap gap' : List Char} (h : IsGap gap) (h' : IsGap gap') :
    IsGap (gap ++ gap') := by
  induction h with
  | nil => exact h'
  | space hc _ ih => exact .space hc ih
  | comment hbody _ ih =>
    simp only [List.cons_append, List.append_assoc]
    exact .comment hbody ih

theorem isGap_iff_skip {s : List Char} : IsGap s ↔ skip s = [] := by
  constructor
  · intro h
    have := skip_gap h []
    rwa [List.append_nil, skip] at this
  · intro h
    obtain ⟨gap, hgap, heq⟩ := exists_gap s
    rw [heq, h, List.append_nil]
    exact hgap

theorem longest_gap_iff {gap rest : List Char} :
    Longest (fun g _ => IsGap g) gap rest ↔ IsGap gap ∧ skip rest = rest := by
  constructor
  · intro h
    obtain ⟨more, hmore, heq⟩ := exists_gap rest
    have bound := h.longest (gap ++ more) (skip rest) (h.belongs.append hmore)
      (by rw [List.append_assoc, ← heq])
    obtain rfl : more = [] := by
      rw [List.length_append] at bound
      exact List.length_eq_zero_iff.mp (by omega)
    exact ⟨h.belongs, heq.symm⟩
  · rintro ⟨hgap, hstop⟩
    refine ⟨hgap, fun run rest' hrun same => ?_⟩
    have left : skip rest' = rest := by rw [← skip_gap hrun, same, skip_gap hgap, hstop]
    have shorter := length_skip rest'
    have length := congrArg List.length same
    simp only [List.length_append] at length
    rw [left] at shorter
    omega

theorem takes_iff {s rest : List Char} {l : Lexeme} :
    Takes s l rest ↔ skip s = l.text ++ rest ∧ Longest l.Fits l.text rest := by
  constructor
  · rintro ⟨gap, rfl, hgap, hl⟩
    obtain ⟨hgap, hstop⟩ := longest_gap_iff.mp hgap
    exact ⟨by rw [skip_gap hgap, hstop], hl⟩
  · rintro ⟨hs, hl⟩
    obtain ⟨gap, hgap, heq⟩ := exists_gap s
    rw [hs] at heq
    refine ⟨gap, heq, longest_gap_iff.mpr ⟨hgap, ?_⟩, hl⟩
    rw [← hs, skip_skip]

theorem takes_mark_iff {s rest : List Char} {c : Char} :
    Takes s (.mark c) rest ↔ skip s = c :: rest := by
  have longest : Longest (Lexeme.mark c).Fits [c] rest :=
    ⟨rfl, fun run' _ h _ => by rw [show run' = [c] from h]⟩
  rw [takes_iff]
  exact and_iff_left longest

theorem cut_cons_iff {s rest : List Char} {l : Lexeme} {ls : List Lexeme} :
    Cut s (l :: ls) rest ↔ ∃ t, Takes s l t ∧ Cut t ls rest := by
  constructor
  · intro h
    cases h with
    | cons first more => exact ⟨_, first, more⟩
  · rintro ⟨t, first, more⟩
    exact .cons first more

theorem cut_append_iff {s rest : List Char} {ls ls' : List Lexeme} :
    Cut s (ls ++ ls') rest ↔ ∃ t, Cut s ls t ∧ Cut t ls' rest := by
  induction ls generalizing s with
  | nil =>
    constructor
    · exact fun h => ⟨s, .nil s, h⟩
    · rintro ⟨t, h, h'⟩
      cases h
      exact h'
  | cons l ls ih =>
    simp only [List.cons_append, cut_cons_iff, ih]
    constructor
    · rintro ⟨u, first, t, more, last⟩
      exact ⟨t, ⟨u, first, more⟩, last⟩
    · rintro ⟨t, ⟨u, first, more⟩, last⟩
      exact ⟨u, first, t, more, last⟩

/-- What stands in front of the first lexeme does not matter. -/
theorem cut_skip_iff {s rest : List Char} {l : Lexeme} {ls : List Lexeme} :
    Cut (skip s) (l :: ls) rest ↔ Cut s (l :: ls) rest := by
  simp only [cut_cons_iff, takes_iff, skip_skip]

theorem cut_mark_iff {s t rest : List Char} {c : Char} {ls : List Lexeme} (h : skip s = c :: t) :
    Cut s (.mark c :: ls) rest ↔ Cut t ls rest := by
  rw [cut_cons_iff]
  constructor
  · rintro ⟨u, hu, more⟩
    cases h.symm.trans (takes_mark_iff.mp hu)
    exact more
  · exact fun more => ⟨t, takes_mark_iff.mpr h, more⟩

theorem not_cut_mark {s t rest : List Char} {c d : Char} {ls : List Lexeme} (h : skip s = c :: t)
    (hne : c ≠ d) : ¬ Cut s (.mark d :: ls) rest := by
  rw [cut_cons_iff]
  rintro ⟨u, hu, -⟩
  exact hne (List.cons.inj (h.symm.trans (takes_mark_iff.mp hu))).1

/-- A selector goes on where no separator stands and no comment opens. -/
def GoesOn (s : List Char) : Prop :=
  ∃ c rest, s = c :: rest ∧ endsSelector c = false ∧ ¬ ['/', '*'] <+: s

theorem takeSelector_of_goesOn {c : Char} {rest : List Char} (h : GoesOn (c :: rest)) :
    takeSelector (c :: rest) = (c :: (takeSelector rest).1, (takeSelector rest).2) := by
  obtain ⟨d, t, heq, hd, hopen⟩ := h
  obtain ⟨rfl, rfl⟩ := List.cons.inj heq
  rw [takeSelector.eq_def]
  split
  · rename_i heq; cases heq
  · rename_i w heq
    rw [heq] at hopen
    exact absurd (List.prefix_append ['/', '*'] w) hopen
  · rename_i heq
    obtain ⟨rfl, rfl⟩ := List.cons.inj heq
    exact if_neg (by simpa [endsSelector] using hd)

theorem takeSelector_of_not_goesOn {s : List Char} (h : ¬ GoesOn s) :
    takeSelector s = ([], s) := by
  rw [takeSelector.eq_def]
  split
  · rfl
  · rfl
  · rename_i c rest hopen
    refine if_pos ?_
    by_contra hc
    refine h ⟨c, rest, rfl, by simpa [endsSelector] using hc, ?_⟩
    rintro ⟨t, ht⟩
    obtain ⟨rfl, rfl⟩ := List.cons.inj ht
    exact hopen t rfl rfl

theorem isSelector_iff {run rest : List Char} :
    IsSelector run rest ↔ run ≠ [] ∧ ∀ a b, run = a ++ b → b ≠ [] → GoesOn (b ++ rest) := by
  constructor
  · intro h
    refine ⟨h.nonempty, fun a b hab hb => ?_⟩
    obtain ⟨c, b, rfl⟩ := List.exists_cons_of_ne_nil hb
    exact ⟨c, b ++ rest, rfl, h.unbroken c (by simp [hab]), h.uncommented a _ hab hb⟩
  · rintro ⟨hne, h⟩
    refine ⟨hne, fun c hc => ?_, fun a b hab hb => ?_⟩
    · obtain ⟨a, b, rfl⟩ := List.append_of_mem hc
      obtain ⟨d, t, heq, hd, -⟩ := h a (c :: b) rfl (by simp)
      obtain ⟨rfl, -⟩ := List.cons.inj heq
      exact hd
    · obtain ⟨-, -, -, -, hopen⟩ := h a b hab hb
      exact hopen

/-- The selector goes on at every place of the run that is taken, and not behind it. -/
theorem goesOn_takeSelector (s : List Char) :
    (∀ a b, (takeSelector s).1 = a ++ b → b ≠ [] → GoesOn (b ++ (takeSelector s).2)) ∧
      ¬ GoesOn (takeSelector s).2 := by
  induction s with
  | nil =>
    refine ⟨fun a b hab hb => ?_, fun ⟨_, _, heq, _⟩ => by cases heq⟩
    exact absurd (List.append_eq_nil_iff.mp hab.symm).2 hb
  | cons c s ih =>
    by_cases h : GoesOn (c :: s)
    · rw [takeSelector_of_goesOn h]
      refine ⟨fun a b hab hb => ?_, ih.2⟩
      cases a with
      | nil =>
        rw [List.nil_append] at hab
        rw [← hab, List.cons_append, takeSelector_append]
        exact h
      | cons d a => exact ih.1 a b (List.cons.inj hab).2 hb
    · rw [takeSelector_of_not_goesOn h]
      refine ⟨fun a b hab hb => ?_, h⟩
      exact absurd (List.append_eq_nil_iff.mp hab.symm).2 hb

theorem takeSelector_run_append {run : List Char} (rest : List Char)
    (h : ∀ a b, run = a ++ b → b ≠ [] → GoesOn (b ++ rest)) :
    takeSelector (run ++ rest) = (run ++ (takeSelector rest).1, (takeSelector rest).2) := by
  induction run with
  | nil => rfl
  | cons c run ih =>
    have more := ih fun a b hab => h (c :: a) b (by rw [hab, List.cons_append])
    have here : GoesOn (c :: (run ++ rest)) := h [] (c :: run) rfl (by simp)
    rw [List.cons_append, takeSelector_of_goesOn here, more, List.cons_append]

theorem longest_selector_iff {run rest : List Char} :
    Longest IsSelector run rest ↔ takeSelector (run ++ rest) = (run, rest) ∧ run ≠ [] := by
  constructor
  · intro h
    obtain ⟨hne, everywhere⟩ := isSelector_iff.mp h.belongs
    have stops : ¬ GoesOn rest := by
      rintro ⟨c, t, rfl, hc, hopen⟩
      -- One more character would still be a selector.
      have longer : IsSelector (run ++ [c]) t := by
        refine isSelector_iff.mpr ⟨by simp, fun a b hab hb => ?_⟩
        obtain ⟨b, d, rfl⟩ := (List.eq_nil_or_concat' b).resolve_left hb
        rw [← List.append_assoc] at hab
        obtain ⟨hrun, rfl⟩ := List.append_singleton_inj.mp hab
        rw [List.append_assoc, List.singleton_append]
        by_cases hb' : b = []
        · rw [hb']
          exact ⟨c, t, rfl, hc, hopen⟩
        · exact everywhere a b hrun hb'
      have := h.longest _ t longer (by simp)
      simp at this
    rw [takeSelector_run_append rest everywhere, takeSelector_of_not_goesOn stops, List.append_nil]
    exact ⟨rfl, hne⟩
  · rintro ⟨htake, hne⟩
    have h := goesOn_takeSelector (run ++ rest)
    rw [htake] at h
    refine .of_stops GoesOn (fun a b t hP hb => ?_) (isSelector_iff.mpr ⟨hne, h.1⟩) h.2
    exact (isSelector_iff.mp hP).2 a b rfl hb

theorem selector_skip_iff {s rest : List Char} {x : String} :
    selector (skip s) = some (x, rest) ↔ ∃ run, Takes s (.selector run) rest ∧ trimmed run = x := by
  constructor
  · intro h
    unfold selector at h
    split at h
    · cases h
    · rename_i run t hne htake
      cases h
      have whole := takeSelector_append (skip s)
      rw [htake] at whole
      refine ⟨run, takes_iff.mpr ⟨whole.symm, longest_selector_iff.mpr ⟨?_, ?_⟩⟩, rfl⟩
      · rw [Lexeme.text, whole, htake]
      · rintro rfl
        exact hne rfl
  · rintro ⟨run, htakes, rfl⟩
    obtain ⟨hs, hlongest⟩ := takes_iff.mp htakes
    obtain ⟨htake, hne⟩ := longest_selector_iff.mp hlongest
    rw [hs]
    exact selector_of_run htake hne

/-- What starts a property may also continue it. -/
theorem isIdentChar_of_startsProperty {c : Char} (h : startsProperty c = true) :
    Text.isIdentChar c = true := by
  simp only [startsProperty, Bool.or_eq_true] at h
  rcases h with (halpha | hhyphen) | hunderscore
  · simp [Text.isIdentChar, Char.isAlphanum, halpha]
  · simp [Text.isIdentChar, hhyphen]
  · simp [Text.isIdentChar, hunderscore]

theorem IsProperty.isIdentChar {run : List Char} (h : IsProperty run) :
    ∀ c ∈ run, Text.isIdentChar c = true := by
  obtain ⟨c, more, hc, hmore, rfl | ⟨-, rfl⟩⟩ := h
  · simpa [isIdentChar_of_startsProperty hc, show Text.isIdentChar '-' = true by decide] using hmore
  · simpa [isIdentChar_of_startsProperty hc] using hmore

theorem IsProperty.append {run : List Char} (h : IsProperty run) {d : Char}
    (hd : Text.isIdentChar d = true) : IsProperty (run ++ [d]) := by
  obtain ⟨c, more, hc, hmore, hrun⟩ := h
  refine ⟨c, more ++ [d], hc, fun e he => ?_, ?_⟩
  · rcases List.mem_append.mp he with he | he
    · exact hmore e he
    · rw [List.mem_singleton.mp he]
      exact hd
  · rcases hrun with rfl | ⟨hne, rfl⟩
    · exact .inl rfl
    · exact .inr ⟨hne, rfl⟩

/-- A property that stands alone is read whole. -/
theorem IsProperty.takeProperty_eq {run : List Char} (h : IsProperty run) :
    takeProperty run = some (run, []) := by
  obtain ⟨c, more, hc, hmore, hrun⟩ := h
  have body : propertyBody (c :: more) = some (c :: more, []) := by
    simp [propertyBody, hc, List.takeWhile_eq_self_iff.mpr hmore,
      List.dropWhile_eq_nil_iff.mpr hmore]
  rcases hrun with rfl | ⟨hne, rfl⟩
  · simp [takeProperty_hyphen, body]
  · rw [takeProperty_cons hne, body]

theorem propertyBody_spec {s run rest : List Char} (h : propertyBody s = some (run, rest)) :
    (∃ c more, startsProperty c = true ∧ (∀ d ∈ more, Text.isIdentChar d = true) ∧
      run = c :: more) ∧ ∀ d, rest.head? = some d → Text.isIdentChar d = false := by
  cases s with
  | nil => cases h
  | cons c s =>
    simp only [propertyBody] at h
    split at h
    · rename_i hc
      cases h
      refine ⟨⟨c, _, hc, fun d hd => List.mem_takeWhile_imp hd, rfl⟩, fun d hd => ?_⟩
      have := List.head?_dropWhile_not Text.isIdentChar s
      rw [hd] at this
      simpa using this
    · cases h

theorem takeProperty_spec {s run rest : List Char} (h : takeProperty s = some (run, rest)) :
    IsProperty run ∧ ∀ d, rest.head? = some d → Text.isIdentChar d = false := by
  cases s with
  | nil => cases h
  | cons c s =>
    by_cases hc : c = '-'
    · subst hc
      obtain ⟨⟨body, tail⟩, hp, hq⟩ := Option.map_eq_some_iff.mp h
      cases hq
      obtain ⟨⟨c, more, hc, hmore, rfl⟩, stops⟩ := propertyBody_spec hp
      exact ⟨⟨c, more, hc, hmore, .inl rfl⟩, stops⟩
    · rw [takeProperty_cons hc] at h
      obtain ⟨⟨d, more, hd, hmore, rfl⟩, stops⟩ := propertyBody_spec h
      obtain ⟨rfl, -⟩ := List.cons.inj (propertyBody_append h)
      exact ⟨⟨d, more, hd, hmore, .inr ⟨hc, rfl⟩⟩, stops⟩

theorem longest_property_iff {run rest : List Char} :
    Longest (fun p _ => IsProperty p) run rest ↔ takeProperty (run ++ rest) = some (run, rest) := by
  constructor
  · intro h
    refine takeProperty_reread h.belongs.takeProperty_eq fun d hd => ?_
    by_contra hident
    obtain ⟨t, rfl⟩ := List.head?_eq_some_iff.mp hd
    have := h.longest (run ++ [d]) t (h.belongs.append (by simpa using hident)) (by simp)
    simp at this
  · intro h
    obtain ⟨hrun, stops⟩ := takeProperty_spec h
    exact .of_chars Text.isIdentChar (fun _ _ hp => hp.isIdentChar) hrun stops

theorem longest_value_iff {run rest : List Char} :
    Longest (fun v _ => IsValue v) run rest ↔ run ≠ [] ∧
      (run ++ rest).takeWhile inValue = run ∧ (run ++ rest).dropWhile inValue = rest := by
  constructor
  · intro h
    obtain ⟨hne, hrun⟩ := h.belongs
    rw [List.takeWhile_append_of_pos hrun, List.dropWhile_append_of_pos hrun]
    cases rest with
    | nil => simp [hne]
    | cons c t =>
      have stops : inValue c = false := by
        by_contra hc
        have longer : IsValue (run ++ [c]) := by
          refine ⟨by simp, fun d hd => ?_⟩
          rcases List.mem_append.mp hd with hd | hd
          · exact hrun d hd
          · rw [List.mem_singleton.mp hd]
            simpa using hc
        have := h.longest _ t longer (by simp)
        simp at this
      simp [hne, stops]
  · rintro ⟨hne, htake, hdrop⟩
    refine .of_chars inValue (fun _ _ hv => hv.2) ⟨hne, fun c hc => ?_⟩ fun c hc => ?_
    · rw [← htake] at hc
      exact List.mem_takeWhile_imp hc
    · have := List.head?_dropWhile_not inValue (run ++ rest)
      rw [hdrop, hc] at this
      simpa using this

theorem takes_property_iff {s run rest : List Char} :
    Takes s (.property run) rest ↔ takeProperty (skip s) = some (run, rest) := by
  rw [takes_iff]
  constructor
  · rintro ⟨hs, h⟩
    rw [hs]
    exact longest_property_iff.mp h
  · intro h
    have whole := takeProperty_append h
    rw [← whole] at h
    exact ⟨whole.symm, longest_property_iff.mpr h⟩

theorem takes_value_iff {s run rest : List Char} :
    Takes s (.value run) rest ↔ run ≠ [] ∧
      (skip s).takeWhile inValue = run ∧ (skip s).dropWhile inValue = rest := by
  rw [takes_iff]
  constructor
  · rintro ⟨hs, h⟩
    rw [hs]
    exact longest_value_iff.mp h
  · intro h
    have whole : skip s = run ++ rest := by rw [← h.2.1, ← h.2.2, List.takeWhile_append_dropWhile]
    rw [whole] at h ⊢
    exact ⟨rfl, longest_value_iff.mpr h⟩

end Confinement.Stylesheet
