import Confinement.Proofs.Stylesheet.Printing

/-!
# The weight of a style sheet

The weight of a text is the number of its characters that are neither blank nor a semicolon. What
the reader finds weighs at most as much as what it has read; a comment that it skips is lost weight.
A printed sheet weighs exactly as much as its rules. So a sheet that is read back as itself has lost
nothing, and all its values survive.
-/
namespace Confinement.Stylesheet

def weighs (c : Char) : Bool := !Text.isBlank c && c != ';'

def weight (s : List Char) : ℕ := s.countP weighs

@[simp] theorem weight_append (s t : List Char) : weight (s ++ t) = weight s + weight t :=
  List.countP_append

theorem weight_cons (c : Char) (s : List Char) :
    weight (c :: s) = weight s + if weighs c = true then 1 else 0 := List.countP_cons

theorem weight_cons_of_isBlank {c : Char} (h : Text.isBlank c = true) (s : List Char) :
    weight (c :: s) = weight s := by
  simp [weight_cons, weighs, h]

theorem weight_le_cons (c : Char) (s : List Char) : weight s ≤ weight (c :: s) := by
  rw [weight_cons]; omega

theorem weight_trim (s : List Char) : weight (Text.trim s) = weight s :=
  Text.countP_trim (fun c hc => by simp [weighs, hc]) s

theorem weight_afterComment {s rest : List Char} (h : afterComment s = some rest) :
    weight rest ≤ weight s := by
  fun_induction afterComment s with
  | case1 => cases h
  | case2 r =>
    cases h
    exact (weight_le_cons '/' rest).trans (weight_le_cons '*' _)
  | case3 c r _ ih => exact (ih h).trans (weight_le_cons c r)

theorem weight_skip_le (s : List Char) : weight (skip s) ≤ weight s := by
  fun_induction skip s with
  | case1 => exact le_rfl
  | case2 r after h ih =>
    have hr := weight_afterComment h
    have hc := (weight_le_cons '*' r).trans (weight_le_cons '/' _)
    omega
  | case3 => exact le_rfl
  | case4 c r _ h ih => exact ih.trans (weight_le_cons c r)
  | case5 => exact le_rfl

/-- A comment that is skipped is lost. -/
theorem weight_skip_comment {w rest : List Char} (h : afterComment w = some rest) :
    weight (skip ('/' :: '*' :: w)) < weight ('/' :: '*' :: w) := by
  have hs : skip ('/' :: '*' :: w) = skip rest := by
    rw [skip.eq_def]
    simp only
    split
    · rename_i heq; rw [h] at heq; cases heq; rfl
    · rename_i heq; rw [h] at heq; cases heq
  have hrest := weight_skip_le rest
  have hw := weight_afterComment h
  have hopen : weight ('/' :: '*' :: w) = weight w + 2 := by
    rw [weight_cons, weight_cons, if_pos (by decide), if_pos (by decide)]
  rw [hs]
  omega

theorem weight_selector {s rest : List Char} {x : String} (h : selector s = some (x, rest)) :
    weight x.toList + weight rest = weight s := by
  have hs := takeSelector_append s
  unfold selector at h
  split at h
  · cases h
  · rename_i run after _ heq
    cases h
    rw [heq] at hs
    rw [String.toList_ofList, weight_trim, ← weight_append, hs]

/-- A selector weighs its text and one character that separates it. -/
def selectorsWeight (xs : List String) : ℕ := (xs.map fun x => weight x.toList + 1).sum

@[simp] theorem selectorsWeight_cons (x : String) (xs : List String) :
    selectorsWeight (x :: xs) = weight x.toList + 1 + selectorsWeight xs := by
  simp [selectorsWeight]

theorem weight_moreSelectors_le (s : List Char) :
    selectorsWeight (moreSelectors s).1 + weight (moreSelectors s).2 ≤ weight s := by
  fun_induction moreSelectors s with
  | case1 s rest hc x after hs more ih =>
    have h1 := weight_skip_le s
    have h2 := weight_skip_le rest
    have h3 := weight_selector hs
    rw [hc, weight_cons, if_pos (by decide)] at h1
    simp only [selectorsWeight_cons, more] at ih ⊢
    omega
  | case2 => simp [selectorsWeight]
  | case3 => simp [selectorsWeight]

/-- A declaration weighs its property, a colon and its value. -/
def Declaration.weight (d : Declaration) : ℕ :=
  Stylesheet.weight d.property.toList + 1 + Stylesheet.weight d.value.toList

def declarationsWeight (ds : List Declaration) : ℕ := (ds.map Declaration.weight).sum

@[simp] theorem declarationsWeight_nil : declarationsWeight [] = 0 := rfl

@[simp] theorem declarationsWeight_cons (d : Declaration) (ds : List Declaration) :
    declarationsWeight (d :: ds) = d.weight + declarationsWeight ds := by
  simp [declarationsWeight]

@[simp] theorem declarationsWeight_append (ds es : List Declaration) :
    declarationsWeight (ds ++ es) = declarationsWeight ds + declarationsWeight es := by
  simp [declarationsWeight]

theorem weight_declaration_le {s rest : List Char} {d : Declaration}
    (h : declaration s = some (d, rest)) : d.weight + weight rest ≤ weight s := by
  unfold declaration at h
  split at h
  · cases h
  · rename_i name afterName hn
    have hname := congrArg weight (takeProperty_append hn)
    have hskip := weight_skip_le afterName
    split at h
    · rename_i afterColon hc
      have hvalue := weight_skip_le afterColon
      rw [hc, weight_cons, if_pos (by decide)] at hskip
      simp only at h
      split at h
      · cases h
      · cases h
        have hsplit := congrArg weight
          (List.takeWhile_append_dropWhile (p := inValue) (l := skip afterColon))
        simp only [weight_append] at hname hsplit
        simp only [Declaration.weight, String.toList_ofList, weight_trim]
        omega
    · cases h

theorem weight_declaration?_le (s : List Char) :
    declarationsWeight (declaration? s).1 + weight (declaration? s).2 ≤ weight s := by
  unfold declaration?
  split
  · rename_i h
    simpa using weight_declaration_le h
  · simp

theorem weight_moreDeclarations_le (s : List Char) :
    declarationsWeight (moreDeclarations s).1 + weight (moreDeclarations s).2 ≤ weight s := by
  fun_induction moreDeclarations s with
  | case1 s rest hc found more ih =>
    have h1 := weight_skip_le s
    have h2 := weight_skip_le rest
    have h3 := weight_declaration?_le (skip rest)
    rw [hc, weight_cons, if_neg (by decide)] at h1
    simp only [declarationsWeight_append, found, more] at ih ⊢
    omega
  | case2 => simp

theorem weight_items_le (s : List Char) :
    declarationsWeight (items s).1 + weight (items s).2 ≤ weight s := by
  have h1 := weight_skip_le s
  have h2 := weight_declaration?_le (skip s)
  have h3 := weight_moreDeclarations_le (declaration? (skip s)).2
  simp only [items, declarationsWeight_append]
  omega

/-- A rule weighs its selectors, its declarations and the closing brace. The opening brace stands
for the comma that the last selector does not have. -/
def Rule.weight (r : Rule) : ℕ :=
  selectorsWeight r.selectors + declarationsWeight r.declarations + 1

theorem weight_rule_le {s rest : List Char} {r : Rule} (h : rule s = some (r, rest)) :
    r.weight + weight rest ≤ weight s := by
  obtain ⟨x, after, u, hx, hselectors, hopen, hdeclarations, hclose⟩ := rule_eq_some_iff.mp h
  have h1 := weight_selector hx
  have h2 := weight_moreSelectors_le after
  have h3 := weight_skip_le (moreSelectors after).2
  have h4 := weight_items_le u
  have h5 := weight_skip_le (items u).2
  rw [hopen, weight_cons, if_pos (by decide)] at h3
  rw [hclose, weight_cons, if_pos (by decide)] at h5
  simp only [Rule.weight, hselectors, hdeclarations, selectorsWeight_cons]
  omega

def rulesWeight (rs : List Rule) : ℕ := (rs.map Rule.weight).sum

@[simp] theorem rulesWeight_cons (r : Rule) (rs : List Rule) :
    rulesWeight (r :: rs) = r.weight + rulesWeight rs := by
  simp [rulesWeight]

theorem weight_rules_le {s : List Char} {rs : List Rule} (h : rules s = some rs) :
    rulesWeight rs ≤ weight s := by
  fun_induction rules s generalizing rs with
  | case1 => cases h; simp [rulesWeight]
  | case2 s c more hs r rest hr ih =>
    obtain ⟨others, ho, rfl⟩ := Option.map_eq_some_iff.mp h
    have h1 := weight_skip_le s
    have h2 := weight_rule_le hr
    have h3 := ih ho
    rw [hs] at h1
    rw [rulesWeight_cons]
    omega
  | case3 => cases h

theorem weight_declaration_text (d : Declaration) (t : List Char) :
    weight (d.text.toList ++ t) = d.weight + weight t := by
  rw [d.toList_text, weight_append, weight_cons, if_pos (by decide),
    weight_cons_of_isBlank (by decide), weight_append, weight_cons, if_neg (by decide),
    Declaration.weight]
  omega

theorem weight_block (ds : List Declaration) (t : List Char) :
    weight (block ds t) = declarationsWeight ds + 1 + weight t := by
  induction ds with
  | nil =>
    rw [block, weight_cons, if_pos (by decide), declarationsWeight_nil]
    omega
  | cons d ds ih =>
    rw [block, weight_declaration_text, weight_cons_of_isBlank (by decide), ih,
      declarationsWeight_cons]
    omega

theorem weight_furtherSelectors (xs : List String) :
    weight (furtherSelectors xs) = selectorsWeight xs := by
  induction xs with
  | nil => rfl
  | cons x xs ih =>
    have h : furtherSelectors (x :: xs) = ',' :: ' ' :: (x.toList ++ furtherSelectors xs) := by
      simp [furtherSelectors]
    rw [h, weight_cons, if_pos (by decide), weight_cons_of_isBlank (by decide), weight_append, ih,
      selectorsWeight_cons]
    omega

theorem weight_braced (ds : List Declaration) (t : List Char) :
    weight (braced ds t) = declarationsWeight ds + 1 + weight t := by
  cases ds with
  | nil =>
    rw [braced_nil, weight_cons_of_isBlank (by decide), weight_cons_of_isBlank (by decide),
      weight_block]
  | cons d ds => rw [braced_cons, weight_cons_of_isBlank (by decide), weight_block]

theorem weight_rule_text {r : Rule} (h : r.selectors ≠ []) (t : List Char) :
    weight (r.text.toList ++ t) = r.weight + weight t := by
  obtain ⟨x, xs, hx⟩ := List.exists_cons_of_ne_nil h
  rw [r.toList_text hx, weight_append, weight_append, weight_furtherSelectors,
    weight_cons_of_isBlank (by decide), weight_cons, if_pos (by decide), weight_braced, Rule.weight,
    hx, selectorsWeight_cons]
  omega

theorem weight_sheet {rs : List Rule} (h : ∀ r ∈ rs, r.selectors ≠ []) :
    weight (sheet rs) = rulesWeight rs := by
  induction rs with
  | nil => rfl
  | cons r rs ih =>
    have rest := ih fun r' hr => h r' (List.mem_cons_of_mem _ hr)
    have text : sheet (r :: rs) = '\n' :: (r.text.toList ++ sheet rs) := by simp [sheet]
    rw [text, weight_cons_of_isBlank (by decide), weight_rule_text (h r (List.mem_cons_self ..)),
      rest, rulesWeight_cons]

/-- The reader either finds no value or loses weight on its way to one. -/
theorem weight_skip_lt_of_not_survives {v behind : List Char} (h : ¬ Survives v behind) :
    v = [] ∨ weight (skip (v ++ behind)) < weight (v ++ behind) := by
  by_cases hv : v = []
  · exact .inl hv
  · right
    simp only [Survives, not_and, Classical.not_imp, not_not] at h
    obtain ⟨⟨w, rfl⟩, hclose⟩ := h hv
    rw [show (['/', '*'] ++ w).drop 2 = w from rfl] at hclose
    obtain ⟨rest, hrest⟩ : ∃ rest, afterComment (w ++ behind) = some rest := by
      cases ha : afterComment (w ++ behind) with
      | none => exact absurd hclose ((afterComment_eq_none_iff _).mp ha)
      | some rest => exact ⟨rest, rfl⟩
    exact weight_skip_comment hrest

theorem weight_declaration_lt {d e : Declaration} (shape : DeclarationShape d) {t rest : List Char}
    (h : ¬ Survives d.value.toList (';' :: t))
    (hd : declaration (d.text.toList ++ t) = some (e, rest)) :
    e.weight + weight rest < weight (d.text.toList ++ t) := by
  rw [declaration_printed_start shape] at hd
  rcases weight_skip_lt_of_not_survives h with hv | hlt
  · rw [hv, List.nil_append, skip_of_ne_slash (by decide) (by decide)] at hd
    simp [inValue] at hd
  · split at hd
    · cases hd
    · cases hd
      have hsplit := congrArg weight
        (List.takeWhile_append_dropWhile (p := inValue) (l := skip (d.value.toList ++ ';' :: t)))
      rw [weight_append] at hsplit
      rw [d.toList_text, weight_append, weight_cons, if_pos (by decide),
        weight_cons_of_isBlank (by decide), Declaration.weight, String.toList_ofList, weight_trim]
      dsimp only
      omega

/-- Where the value of the first declaration does not survive, the reader stops in front of that
declaration or has lost weight behind it. -/
theorem items_of_not_survives {d : Declaration} (shape : DeclarationShape d) {t : List Char}
    (h : ¬ Survives d.value.toList (';' :: t)) :
    (∀ rest, skip (items (d.text.toList ++ t)).2 ≠ '\x7d' :: rest) ∨
      declarationsWeight (items (d.text.toList ++ t)).1 + weight (items (d.text.toList ++ t)).2 <
        weight (d.text.toList ++ t) := by
  cases hd : declaration (d.text.toList ++ t) with
  | none =>
    left
    obtain ⟨c, tail, hp, hc⟩ := property_head shape.property
    obtain ⟨-, -, hsemicolon, hbrace⟩ := startsProperty_ne hc
    have start : d.text.toList ++ t =
        c :: (tail ++ ':' :: ' ' :: (d.value.toList ++ ';' :: t)) := by
      rw [d.toList_text, hp, List.cons_append]
    have stop : moreDeclarations (d.text.toList ++ t) = ([], d.text.toList ++ t) := by
      refine moreDeclarations_stop fun rest hs => ?_
      rw [skip_declaration shape, start] at hs
      exact hsemicolon (List.cons.inj hs).1
    intro rest hs
    simp only [items, skip_declaration shape, declaration?, hd, stop] at hs
    rw [start] at hs
    exact hbrace (List.cons.inj hs).1
  | some found =>
    right
    obtain ⟨e, rest⟩ := found
    have more := weight_moreDeclarations_le rest
    have lost := weight_declaration_lt shape h hd
    simp only [items, skip_declaration shape, declaration?, hd, declarationsWeight_append,
      declarationsWeight_cons, declarationsWeight_nil]
    omega

theorem items_block_of_not_survives {ds : List Declaration}
    (shapes : ∀ d ∈ ds, DeclarationShape d) {t : List Char} (h : ¬ BlockSurvives ds t) :
    (∀ rest, skip (items (block ds t)).2 ≠ '\x7d' :: rest) ∨
      declarationsWeight (items (block ds t)).1 + weight (items (block ds t)).2 <
        weight (block ds t) := by
  induction ds with
  | nil => exact absurd trivial h
  | cons d ds ih =>
    have shape := shapes d (List.mem_cons_self ..)
    by_cases hd : Survives d.value.toList (';' :: ' ' :: block ds t)
    · have hds : ¬ BlockSurvives ds t := fun hs => h ⟨hd, hs⟩
      rw [block, items_declaration shape hd, items_space]
      rcases ih (fun e he => shapes e (List.mem_cons_of_mem _ he)) hds with hstop | hlt
      · exact .inl hstop
      · right
        rw [weight_declaration_text, weight_cons_of_isBlank (by decide), declarationsWeight_cons]
        dsimp only
        omega
    · exact items_of_not_survives shape hd

theorem weight_rule_lt {r r' : Rule} (shape : RuleShape r)
    (nonempty : ∀ x ∈ r.selectors, x.toList ≠ []) {t rest : List Char}
    (h : ¬ BlockSurvives r.declarations t) (hr : rule (r.text.toList ++ t) = some (r', rest)) :
    r'.weight + weight rest < weight (r.text.toList ++ t) := by
  obtain ⟨hselectors, hdeclarations, hclose⟩ := (rule_text_iff shape nonempty).mp hr
  rcases items_block_of_not_survives shape.declarations h with hstop | hlt
  · exact absurd hclose (hstop rest)
  · have hskip := weight_skip_le (items (block r.declarations t)).2
    rw [hclose, weight_cons, if_pos (by decide)] at hskip
    rw [weight_block] at hlt
    rw [weight_rule_text shape.nonempty, Rule.weight, Rule.weight, hselectors, hdeclarations]
    omega

/-- A printed sheet in which some value does not survive is read, if at all, as lighter rules. -/
theorem rulesWeight_lt_of_not_survives {rs : List Rule} (shapes : ∀ r ∈ rs, RuleShape r)
    (nonempty : ∀ r ∈ rs, ∀ x ∈ r.selectors, x.toList ≠ []) (h : ¬ SheetSurvives rs)
    {rs' : List Rule} (hr : rules (sheet rs) = some rs') : rulesWeight rs' < rulesWeight rs := by
  induction rs generalizing rs' with
  | nil => exact absurd trivial h
  | cons r rs ih =>
    have shape := shapes r (List.mem_cons_self ..)
    have filled := nonempty r (List.mem_cons_self ..)
    have shapes' : ∀ r ∈ rs, RuleShape r := fun r' hr => shapes r' (List.mem_cons_of_mem _ hr)
    have start := skip_sheet shape filled rs
    have hne : skip (sheet (r :: rs)) ≠ [] := by rw [start]; exact sheet_ne_nil shape _
    have hsheet := weight_sheet fun r' hr => (shapes' r' hr).nonempty
    cases hread : rule (skip (sheet (r :: rs))) with
    | none => rw [rules_none hne hread] at hr; cases hr
    | some found =>
      obtain ⟨first, rest⟩ := found
      rw [rules_cons hne hread] at hr
      obtain ⟨others, ho, rfl⟩ := Option.map_eq_some_iff.mp hr
      rw [start] at hread
      rw [rulesWeight_cons, rulesWeight_cons]
      by_cases hb : BlockSurvives r.declarations (sheet rs)
      · rw [rule_printed shape filled hb] at hread
        cases hread
        have hrest := ih shapes' (fun r' hr => nonempty r' (List.mem_cons_of_mem _ hr))
          (fun hs => h ⟨hb, hs⟩) ho
        omega
      · have hlt := weight_rule_lt shape filled hb hread
        have hothers := weight_rules_le ho
        rw [weight_rule_text shape.nonempty] at hlt
        omega

/-- Rules are read back from their printed form exactly if all their values survive there. -/
theorem rules_sheet_iff {rs : List Rule} (shapes : ∀ r ∈ rs, RuleShape r)
    (nonempty : ∀ r ∈ rs, ∀ x ∈ r.selectors, x.toList ≠ []) :
    rules (sheet rs) = some rs ↔ SheetSurvives rs := by
  refine ⟨fun h => ?_, rules_sheet rs shapes nonempty⟩
  by_contra hs
  exact lt_irrefl _ (rulesWeight_lt_of_not_survives shapes nonempty hs h)

end Confinement.Stylesheet
