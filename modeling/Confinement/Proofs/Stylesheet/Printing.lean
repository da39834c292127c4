import Confinement.Proofs.Stylesheet.Shape

/-!
# Reading what was printed

A style sheet is printed rule by rule, each on a line. Reading it back gives the same rules if every
value survives: it is not empty, and it does not open a comment that some later text closes. Every
lemma leaves open what stands behind the printed part.
-/
namespace Confinement.Stylesheet

theorem takeSelector_run {x : List Char} (unbroken : ∀ c ∈ x, endsSelector c = false)
    (uncommented : ¬ ['/', '*'] <:+: x) {c : Char} (hc : endsSelector c = true) (u : List Char) :
    takeSelector (x ++ c :: u) = (x, c :: u) := by
  induction x with
  | nil =>
    have hslash : c ≠ '/' := by rintro rfl; simp [endsSelector] at hc
    simp only [endsSelector] at hc
    rw [List.nil_append, takeSelector.eq_def]
    split
    · rename_i heq; cases heq
    · rename_i heq; cases heq; exact absurd rfl hslash
    · rename_i heq; cases heq; simp [hc]
  | cons d x ih =>
    have hd : endsSelector d = false := unbroken d (List.mem_cons_self ..)
    have rest := ih (fun e he => unbroken e (List.mem_cons_of_mem _ he))
      (fun h => uncommented (h.trans (List.suffix_cons d x).isInfix))
    simp only [endsSelector] at hd
    rw [List.cons_append, takeSelector.eq_def]
    split
    · rename_i heq; cases heq
    · -- An opening of a comment would have to lie within the selector.
      rename_i w heq
      exfalso
      cases x with
      | nil =>
        simp only [List.nil_append, List.cons.injEq] at heq
        rw [heq.2.1] at hc
        simp [endsSelector] at hc
      | cons e x =>
        simp only [List.cons_append, List.cons.injEq] at heq
        rw [heq.1, heq.2.1] at uncommented
        exact uncommented (List.prefix_append ['/', '*'] x).isInfix
    · rename_i heq
      cases heq
      simp [hd, rest]

theorem skip_selector {x : List Char} (shape : SelectorShape x) (hx : x ≠ []) {t : List Char}
    (ht : t.head? ≠ some '*') : skip (x ++ t) = x ++ t := by
  cases x with
  | nil => exact absurd rfl hx
  | cons d x =>
    rw [List.cons_append]
    refine skip_eq_self (isSpace_of_not_isBlank (shape.trimmed.head d rfl)) ?_
    rintro w rfl hw
    exfalso
    cases x with
    | nil =>
      rw [List.nil_append] at hw
      exact ht (by rw [hw]; rfl)
    | cons e x =>
      simp only [List.cons_append, List.cons.injEq] at hw
      rw [hw.1] at shape
      exact shape.uncommented (List.prefix_append ['/', '*'] x).isInfix

/-- The selectors behind the first, as they are printed. -/
def furtherSelectors (xs : List String) : List Char := xs.flatMap fun x => ',' :: ' ' :: x.toList

/-- What the reader has in front of it once the selector before `xs` is read. The space in front of
the brace goes with the last selector. -/
def afterSelector (xs : List String) (u : List Char) : List Char :=
  match xs with
  | [] => '\x7b' :: u
  | xs => furtherSelectors xs ++ ' ' :: '\x7b' :: u

theorem selector_printed {x : String} (shape : SelectorShape x.toList) (hx : x.toList ≠ [])
    (xs : List String) (u : List Char) :
    selector (x.toList ++ (furtherSelectors xs ++ ' ' :: '\x7b' :: u)) =
      some (x, afterSelector xs u) := by
  cases xs with
  | nil =>
    have unbroken : ∀ c ∈ x.toList ++ [' '], endsSelector c = false := by
      intro c hc
      rcases List.mem_append.mp hc with hc | hc
      · exact shape.unbroken c hc
      · obtain rfl : c = ' ' := by simpa using hc
        rfl
    have uncommented : ¬ ['/', '*'] <:+: x.toList ++ [' '] := by
      rw [List.infix_concat_iff]
      rintro (h | h)
      · have := h.getLast (by simp)
        simp at this
      · exact shape.uncommented h
    have run := takeSelector_run unbroken uncommented (c := '\x7b') rfl u
    rw [List.append_assoc] at run
    refine (selector_of_run run (by simp)).trans ?_
    rw [shape.trimmed.trim_append_blank (by decide), String.ofList_toList]
    rfl
  | cons y ys =>
    have run := takeSelector_run shape.unbroken shape.uncommented (c := ',') rfl
      (' ' :: y.toList ++ (furtherSelectors ys ++ ' ' :: '\x7b' :: u))
    have text : x.toList ++ (furtherSelectors (y :: ys) ++ ' ' :: '\x7b' :: u) =
        x.toList ++ ',' :: (' ' :: y.toList ++ (furtherSelectors ys ++ ' ' :: '\x7b' :: u)) := by
      simp [furtherSelectors]
    rw [text, selector_of_run run hx, shape.trimmed.trim_eq, String.ofList_toList]
    simp [afterSelector, furtherSelectors]

theorem moreSelectors_printed (xs : List String) (shapes : ∀ x ∈ xs, SelectorShape x.toList)
    (nonempty : ∀ x ∈ xs, x.toList ≠ []) (u : List Char) :
    moreSelectors (afterSelector xs u) = (xs, '\x7b' :: u) := by
  induction xs with
  | nil =>
    refine moreSelectors_stop fun rest h => ?_
    rw [afterSelector, skip_of_ne_slash (by decide) (by decide)] at h
    cases h
  | cons y ys ih =>
    have shape := shapes y (List.mem_cons_self ..)
    have hy := nonempty y (List.mem_cons_self ..)
    have text : afterSelector (y :: ys) u =
        ',' :: ' ' :: (y.toList ++ (furtherSelectors ys ++ ' ' :: '\x7b' :: u)) := by
      simp [afterSelector, furtherSelectors]
    have comma : skip (afterSelector (y :: ys) u) =
        ',' :: ' ' :: (y.toList ++ (furtherSelectors ys ++ ' ' :: '\x7b' :: u)) := by
      rw [text, skip_of_ne_slash (by decide) (by decide)]
    have next : selector (skip (' ' :: (y.toList ++ (furtherSelectors ys ++ ' ' :: '\x7b' :: u)))) =
        some (y, afterSelector ys u) := by
      rw [skip_space (by decide), skip_selector shape hy (by cases ys <;> simp [furtherSelectors])]
      exact selector_printed shape hy ys u
    rw [moreSelectors_comma comma next, ih (fun x hx => shapes x (List.mem_cons_of_mem _ hx))
      (fun x hx => nonempty x (List.mem_cons_of_mem _ hx))]

/-- A value survives in front of `behind` if it is not empty and opens no comment that is closed in
the text from there on. -/
def Survives (value behind : List Char) : Prop :=
  value ≠ [] ∧ (['/', '*'] <+: value → ¬ ['*', '/'] <:+: value.drop 2 ++ behind)

instance (value behind : List Char) : Decidable (Survives value behind) :=
  inferInstanceAs (Decidable (_ ∧ _))

/-- A property starts with a letter, a hyphen or an underscore. -/
theorem property_head {p : List Char} (h : takeProperty p = some (p, [])) :
    ∃ c rest, p = c :: rest ∧ startsProperty c = true := by
  cases p with
  | nil => cases h
  | cons c rest =>
    refine ⟨c, rest, rfl, ?_⟩
    by_cases hc : c = '-'
    · subst hc; rfl
    · rw [takeProperty_cons hc] at h
      simp only [propertyBody] at h
      split at h
      · assumption
      · cases h

/-- What starts a property is no space, no separator and opens no comment. -/
theorem startsProperty_ne {c : Char} (h : startsProperty c = true) :
    isSpace c = false ∧ c ≠ '/' ∧ c ≠ ';' ∧ c ≠ '\x7d' := by
  refine ⟨?_, ?_, ?_, ?_⟩
  · by_contra hs
    simp only [isSpace, Bool.not_eq_false, Bool.or_eq_true, beq_iff_eq] at hs
    rcases hs with (((rfl | rfl) | rfl) | rfl) | rfl <;> simp [startsProperty] at h
  all_goals rintro rfl; simp [startsProperty] at h

theorem Declaration.toList_text (d : Declaration) (t : List Char) :
    d.text.toList ++ t = d.property.toList ++ ':' :: ' ' :: (d.value.toList ++ ';' :: t) := by
  simp [Declaration.text]

theorem skip_declaration {d : Declaration} (shape : DeclarationShape d) (t : List Char) :
    skip (d.text.toList ++ t) = d.text.toList ++ t := by
  obtain ⟨c, rest, hp, hc⟩ := property_head shape.property
  obtain ⟨hspace, hslash, -, -⟩ := startsProperty_ne hc
  rw [d.toList_text, hp, List.cons_append, skip_of_ne_slash hspace hslash]

/-- Where the reader looks for the value of a printed declaration. -/
theorem declaration_printed_start {d : Declaration} (shape : DeclarationShape d) (t : List Char) :
    declaration (d.text.toList ++ t) =
      match (skip (d.value.toList ++ ';' :: t)).takeWhile inValue with
      | [] => none
      | value => some (⟨d.property, String.ofList (Text.trim value)⟩,
          (skip (d.value.toList ++ ';' :: t)).dropWhile inValue) := by
  have name := takeProperty_reread (t := ':' :: ' ' :: (d.value.toList ++ ';' :: t)) shape.property
    (by simp; decide)
  have colon := skip_of_ne_slash (show isSpace ':' = false by decide) (show ':' ≠ '/' by decide)
    (' ' :: (d.value.toList ++ ';' :: t))
  have blank := skip_space (show isSpace ' ' = true by decide) (d.value.toList ++ ';' :: t)
  rw [d.toList_text, declaration, name]
  cases h : (skip (d.value.toList ++ ';' :: t)).takeWhile inValue with
  | nil => simp only [colon, blank, h]
  | cons c v => simp only [colon, blank, h, String.ofList_toList]

theorem skip_value {d : Declaration} (shape : DeclarationShape d) {t : List Char}
    (survives : Survives d.value.toList (';' :: t)) :
    skip (d.value.toList ++ ';' :: t) = d.value.toList ++ ';' :: t := by
  obtain ⟨hne, hopen⟩ := survives
  cases hv : d.value.toList with
  | nil => exact absurd hv hne
  | cons c v =>
    rw [List.cons_append]
    refine skip_eq_self (isSpace_of_not_isBlank (shape.trimmed.head c (by rw [hv]; rfl))) ?_
    rintro w rfl hw
    cases v with
    | nil => cases hw
    | cons e v =>
      simp only [List.cons_append, List.cons.injEq] at hw
      obtain ⟨rfl, rfl⟩ := hw
      rw [hv] at hopen
      exact hopen (List.prefix_append ['/', '*'] v)

theorem declaration_printed {d : Declaration} (shape : DeclarationShape d) {t : List Char}
    (survives : Survives d.value.toList (';' :: t)) :
    declaration (d.text.toList ++ t) = some (d, ';' :: t) := by
  have take : (d.value.toList ++ ';' :: t).takeWhile inValue = d.value.toList := by
    rw [List.takeWhile_append_of_pos shape.inside]
    simp [inValue]
  have drop : (d.value.toList ++ ';' :: t).dropWhile inValue = ';' :: t := by
    rw [List.dropWhile_append_of_pos shape.inside]
    simp [inValue]
  rw [declaration_printed_start shape, skip_value shape survives, take, drop]
  split
  · rename_i heq; exact absurd heq survives.1
  · rw [shape.trimmed.trim_eq, String.ofList_toList]

/-- The declarations of a rule as they are printed, up to and with the brace that closes them. -/
def block (ds : List Declaration) (t : List Char) : List Char :=
  match ds with
  | [] => '\x7d' :: t
  | d :: ds => d.text.toList ++ ' ' :: block ds t

/-- Every value of a printed block survives in front of what is printed behind it. -/
def BlockSurvives : List Declaration → List Char → Prop
  | [], _ => True
  | d :: ds, t => Survives d.value.toList (';' :: ' ' :: block ds t) ∧ BlockSurvives ds t

instance decidableBlockSurvives : (ds : List Declaration) → (t : List Char) →
    Decidable (BlockSurvives ds t)
  | [], _ => inferInstanceAs (Decidable True)
  | _ :: ds, t => @instDecidableAnd _ _ _ (decidableBlockSurvives ds t)

theorem items_brace (t : List Char) : items ('\x7d' :: t) = ([], '\x7d' :: t) := by
  have hs : skip ('\x7d' :: t) = '\x7d' :: t := skip_of_ne_slash (by decide) (by decide) t
  have hd : declaration ('\x7d' :: t) = none := by
    simp [declaration, takeProperty, propertyBody, startsProperty]
  have hm : moreDeclarations ('\x7d' :: t) = ([], '\x7d' :: t) :=
    moreDeclarations_stop fun rest h => by rw [hs] at h; cases h
  simp [items, hs, declaration?, hd, hm]

theorem items_declaration {d : Declaration} (shape : DeclarationShape d) {t : List Char}
    (survives : Survives d.value.toList (';' :: t)) :
    items (d.text.toList ++ t) = (d :: (items t).1, (items t).2) := by
  have more : moreDeclarations (';' :: t) = items t :=
    moreDeclarations_semicolon (skip_of_ne_slash (by decide) (by decide) t)
  rw [items, skip_declaration shape]
  simp [declaration?, declaration_printed shape survives, more]

theorem items_block (ds : List Declaration) (shapes : ∀ d ∈ ds, DeclarationShape d)
    {t : List Char} (survive : BlockSurvives ds t) : items (block ds t) = (ds, '\x7d' :: t) := by
  induction ds with
  | nil => exact items_brace t
  | cons d ds ih =>
    have rest := ih (fun e he => shapes e (List.mem_cons_of_mem _ he)) survive.2
    rw [block, items_declaration (shapes d (List.mem_cons_self ..)) survive.1, items_space, rest]

theorem toList_intercalate_cons (sep x : String) (xs : List String) :
    (sep.intercalate (x :: xs)).toList =
      x.toList ++ xs.flatMap fun y => sep.toList ++ y.toList := by
  induction xs generalizing x with
  | nil => simp
  | cons y ys ih =>
    rw [String.intercalate_cons_cons, String.toList_append, ih]
    simp

/-- The text behind the opening brace of a printed rule. -/
def braced (ds : List Declaration) (t : List Char) : List Char :=
  ' ' :: ((" ".intercalate (ds.map Declaration.text)).toList ++ ' ' :: '\x7d' :: t)

theorem braced_nil (t : List Char) : braced [] t = ' ' :: ' ' :: block [] t := rfl

theorem braced_cons (d : Declaration) (ds : List Declaration) (t : List Char) :
    braced (d :: ds) t = ' ' :: block (d :: ds) t := by
  rw [braced, List.map_cons, toList_intercalate_cons]
  congr 1
  induction ds generalizing d with
  | nil => simp [block]
  | cons e ds ih =>
    rw [block, ← ih e]
    simp

/-- The text behind the opening brace is a printed block, up to spaces. -/
theorem items_braced (ds : List Declaration) (t : List Char) :
    items (braced ds t) = items (block ds t) := by
  cases ds with
  | nil => rw [braced_nil, items_space, items_space]
  | cons d ds => rw [braced_cons, items_space]

theorem Rule.toList_text {r : Rule} {x : String} {xs : List String} (h : r.selectors = x :: xs)
    (t : List Char) :
    r.text.toList ++ t =
      x.toList ++ (furtherSelectors xs ++ ' ' :: '\x7b' :: braced r.declarations t) := by
  rw [Rule.text, h]
  simp only [String.toList_append, toList_intercalate_cons]
  simp [furtherSelectors, braced]

/-- In a printed rule only the declarations are open: the selectors are read back in any case. -/
theorem rule_text_iff {r : Rule} (shape : RuleShape r) (nonempty : ∀ x ∈ r.selectors, x.toList ≠ [])
    {t : List Char} {r' : Rule} {rest : List Char} :
    rule (r.text.toList ++ t) = some (r', rest) ↔ r'.selectors = r.selectors ∧
      r'.declarations = (items (block r.declarations t)).1 ∧
      skip (items (block r.declarations t)).2 = '\x7d' :: rest := by
  obtain ⟨x, xs, h⟩ := List.exists_cons_of_ne_nil shape.nonempty
  have hx : x ∈ r.selectors := by simp [h]
  have hxs : ∀ y ∈ xs, y ∈ r.selectors := fun y hy => by simp [h, hy]
  have first := selector_printed (shape.selectors x hx) (nonempty x hx) xs (braced r.declarations t)
  have others := moreSelectors_printed xs (fun y hy => shape.selectors y (hxs y hy))
    (fun y hy => nonempty y (hxs y hy)) (braced r.declarations t)
  have brace : skip ('\x7b' :: braced r.declarations t) = '\x7b' :: braced r.declarations t :=
    skip_of_ne_slash (by decide) (by decide) _
  rw [r.toList_text h, rule_eq_some_iff, h, ← items_braced]
  constructor
  · rintro ⟨x', after, u, hfirst, hselectors, hopen, hdeclarations, hclose⟩
    cases first.symm.trans hfirst
    rw [others] at hselectors hopen
    cases brace.symm.trans hopen
    exact ⟨hselectors, hdeclarations, hclose⟩
  · rintro ⟨hselectors, hdeclarations, hclose⟩
    exact ⟨x, _, _, first, by rw [others, hselectors], by rw [others, brace], hdeclarations, hclose⟩

/-- A printed rule is read back, whatever stands behind it. -/
theorem rule_printed {r : Rule} (shape : RuleShape r) (nonempty : ∀ x ∈ r.selectors, x.toList ≠ [])
    {t : List Char} (survive : BlockSurvives r.declarations t) :
    rule (r.text.toList ++ t) = some (r, t) := by
  rw [rule_text_iff shape nonempty, items_block r.declarations shape.declarations survive]
  exact ⟨rfl, rfl, skip_of_ne_slash (by decide) (by decide) t⟩

/-- Rules as they are printed, each on a line of its own. -/
def sheet (rs : List Rule) : List Char := rs.flatMap fun r => '\n' :: r.text.toList

/-- Every value of a printed sheet survives in front of what is printed behind it. -/
def SheetSurvives : List Rule → Prop
  | [] => True
  | r :: rs => BlockSurvives r.declarations (sheet rs) ∧ SheetSurvives rs

instance decidableSheetSurvives : (rs : List Rule) → Decidable (SheetSurvives rs)
  | [] => inferInstanceAs (Decidable True)
  | _ :: rs => @instDecidableAnd _ _ _ (decidableSheetSurvives rs)

theorem skip_rule {r : Rule} (shape : RuleShape r) (nonempty : ∀ x ∈ r.selectors, x.toList ≠ [])
    (t : List Char) : skip (r.text.toList ++ t) = r.text.toList ++ t := by
  obtain ⟨x, xs, h⟩ := List.exists_cons_of_ne_nil shape.nonempty
  have hx : x ∈ r.selectors := by simp [h]
  rw [r.toList_text h]
  exact skip_selector (shape.selectors x hx) (nonempty x hx)
    (by cases xs <;> simp [furtherSelectors])

theorem skip_sheet {r : Rule} (shape : RuleShape r) (nonempty : ∀ x ∈ r.selectors, x.toList ≠ [])
    (rs : List Rule) : skip (sheet (r :: rs)) = r.text.toList ++ sheet rs := by
  rw [sheet, List.flatMap_cons, List.cons_append, skip_space (by decide)]
  exact skip_rule shape nonempty (sheet rs)

theorem sheet_ne_nil {r : Rule} (shape : RuleShape r) (t : List Char) :
    r.text.toList ++ t ≠ [] := by
  obtain ⟨x, xs, h⟩ := List.exists_cons_of_ne_nil shape.nonempty
  rw [r.toList_text h]
  simp

/-- A printed sheet is read back if all its values survive. -/
theorem rules_sheet (rs : List Rule) (shapes : ∀ r ∈ rs, RuleShape r)
    (nonempty : ∀ r ∈ rs, ∀ x ∈ r.selectors, x.toList ≠ []) (survive : SheetSurvives rs) :
    rules (sheet rs) = some rs := by
  induction rs with
  | nil => exact rules_nil (by simp [sheet, skip])
  | cons r rs ih =>
    have shape := shapes r (List.mem_cons_self ..)
    have start := skip_sheet shape (nonempty r (List.mem_cons_self ..)) rs
    have first : rule (skip (sheet (r :: rs))) = some (r, sheet rs) := by
      rw [start]
      exact rule_printed shape (nonempty r (List.mem_cons_self ..)) survive.1
    rw [rules_cons (by rw [start]; exact sheet_ne_nil shape _) first,
      ih (fun r' hr => shapes r' (List.mem_cons_of_mem _ hr))
        (fun r' hr => nonempty r' (List.mem_cons_of_mem _ hr)) survive.2]
    rfl

/-- Joining the printed rules with line breaks gives the sheet, up to a line break in front. -/
theorem parse_joined (rs : List Rule) :
    parse ("\n".intercalate (rs.map Rule.text)) = rules (sheet rs) := by
  rw [parse]
  cases rs with
  | nil => simp [sheet]
  | cons r rs =>
    refine rules_eq_of_skip_eq ?_
    rw [sheet, List.flatMap_cons, List.cons_append, skip_space (by decide), List.map_cons,
      toList_intercalate_cons]
    simp [List.flatMap_map]

end Confinement.Stylesheet
