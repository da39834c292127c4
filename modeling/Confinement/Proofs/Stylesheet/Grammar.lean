import Confinement.Proofs.Stylesheet.Lexeme

/-!
# The grammar of style sheets

Lexemes spell rules: selectors with commas between them, then declarations with semicolons between
them inside braces, where a declaration may be left out. The reader accepts exactly the texts that
are cut into such lexemes, and yields what they spell.

Each lemma `cut_…_iff` follows one function of the reader: it says of which cuts of the text the
function has taken the front.
-/
namespace Confinement.Stylesheet

/-- A declaration as it is written. -/
structure WrittenDeclaration where
  property : List Char
  value : List Char

namespace WrittenDeclaration

def lexemes (d : WrittenDeclaration) : List Lexeme :=
  [.property d.property, .mark ':', .value d.value]

def declaration (d : WrittenDeclaration) : Declaration :=
  ⟨String.ofList d.property, trimmed d.value⟩

end WrittenDeclaration

/-- What stands between two semicolons: a declaration or nothing. -/
abbrev WrittenItem := Option WrittenDeclaration

namespace WrittenItem

def lexemes (i : WrittenItem) : List Lexeme := (i.map WrittenDeclaration.lexemes).getD []

def declarations (i : WrittenItem) : List Declaration :=
  (i.map WrittenDeclaration.declaration).toList

end WrittenItem

/-- A rule as it is written: a selector and more of them, an item and more of them. -/
structure WrittenRule where
  selector : List Char
  selectors : List (List Char)
  item : WrittenItem
  items : List WrittenItem

namespace WrittenRule

/-- The selectors behind the first. -/
def furtherSelectors (runs : List (List Char)) : List Lexeme :=
  runs.flatMap fun x => [.mark ',', .selector x]

/-- The items behind the first. -/
def furtherItems (items : List WrittenItem) : List Lexeme :=
  items.flatMap fun i => .mark ';' :: i.lexemes

/-- A selector, more of them, and between braces an item and more of them. -/
def lexemes (r : WrittenRule) : List Lexeme :=
  .selector r.selector :: (furtherSelectors r.selectors ++ .mark '\x7b' ::
    (r.item.lexemes ++ (furtherItems r.items ++ [.mark '\x7d'])))

def rule (r : WrittenRule) : Rule :=
  ⟨trimmed r.selector :: r.selectors.map trimmed,
    r.item.declarations ++ r.items.flatMap WrittenItem.declarations⟩

end WrittenRule

theorem cut_furtherSelectors_cons_iff {s t rest run : List Char} {runs : List (List Char)}
    {ls : List Lexeme} (h : skip s = ',' :: t) :
    Cut s (WrittenRule.furtherSelectors (run :: runs) ++ ls) rest ↔
      ∃ u, Takes t (.selector run) u ∧ Cut u (WrittenRule.furtherSelectors runs ++ ls) rest :=
  (cut_mark_iff h).trans cut_cons_iff

/-- The selectors behind the first, up to the opening brace. -/
theorem cut_moreSelectors_iff (s : List Char) {rest : List Char} {ls : List Lexeme}
    (xs : List String) :
    (∃ runs, Cut s (WrittenRule.furtherSelectors runs ++ .mark '\x7b' :: ls) rest ∧
        runs.map trimmed = xs) ↔
      Cut (moreSelectors s).2 (.mark '\x7b' :: ls) rest ∧ (moreSelectors s).1 = xs := by
  fun_induction moreSelectors s generalizing xs with
  | case1 s t hc x after hx more ih =>
    constructor
    · rintro ⟨runs, hcut, rfl⟩
      cases runs with
      | nil => exact absurd hcut (not_cut_mark hc (by decide))
      | cons run runs =>
        obtain ⟨u, htakes, hcut⟩ := (cut_furtherSelectors_cons_iff hc).mp hcut
        cases hx.symm.trans (selector_skip_iff.mpr ⟨run, htakes, rfl⟩)
        obtain ⟨hcut, hmore⟩ := (ih _).mp ⟨runs, hcut, rfl⟩
        exact ⟨hcut, congrArg (trimmed run :: ·) hmore⟩
    · rintro ⟨hcut, rfl⟩
      obtain ⟨run, htakes, rfl⟩ := selector_skip_iff.mp hx
      obtain ⟨runs, hcut, hruns⟩ := (ih _).mpr ⟨hcut, rfl⟩
      exact ⟨run :: runs, (cut_furtherSelectors_cons_iff hc).mpr ⟨after, htakes, hcut⟩,
        congrArg (trimmed run :: ·) hruns⟩
  | case2 s t hc hx =>
    refine iff_of_false ?_ fun h => not_cut_mark hc (by decide) h.1
    rintro ⟨runs, hcut, rfl⟩
    cases runs with
    | nil => exact not_cut_mark hc (by decide) hcut
    | cons run runs =>
      obtain ⟨u, htakes, -⟩ := (cut_furtherSelectors_cons_iff hc).mp hcut
      cases hx.symm.trans (selector_skip_iff.mpr ⟨run, htakes, rfl⟩)
  | case3 s hc =>
    constructor
    · rintro ⟨runs, hcut, rfl⟩
      cases runs with
      | nil => exact ⟨hcut, rfl⟩
      | cons run runs =>
        obtain ⟨t, htakes, -⟩ := cut_cons_iff.mp hcut
        exact absurd (takes_mark_iff.mp htakes) (hc t)
    · rintro ⟨hcut, rfl⟩
      exact ⟨[], hcut, rfl⟩

theorem declaration_eq_some_iff {s rest : List Char} {d : Declaration} :
    declaration s = some (d, rest) ↔ ∃ name t u value, takeProperty s = some (name, t) ∧
      skip t = ':' :: u ∧ (value ≠ [] ∧ (skip u).takeWhile inValue = value ∧
        (skip u).dropWhile inValue = rest) ∧ ⟨String.ofList name, trimmed value⟩ = d := by
  constructor
  · intro h
    unfold declaration at h
    split at h
    · cases h
    · rename_i name t hname
      split at h
      · rename_i u hcolon
        simp only at h
        split at h
        · cases h
        · rename_i hne
          cases h
          exact ⟨name, t, u, _, hname, hcolon, ⟨hne, rfl, rfl⟩, rfl⟩
      · cases h
  · rintro ⟨name, t, u, value, hname, hcolon, ⟨hne, hvalue, rfl⟩, rfl⟩
    cases value with
    | nil => exact absurd rfl hne
    | cons c v => simp only [declaration, hname, hcolon, hvalue, trimmed]

theorem declaration_skip_iff {s rest : List Char} {d : Declaration} :
    declaration (skip s) = some (d, rest) ↔
      ∃ w : WrittenDeclaration, Cut s w.lexemes rest ∧ w.declaration = d := by
  rw [declaration_eq_some_iff]
  constructor
  · rintro ⟨name, t, u, value, hname, hcolon, hvalue, rfl⟩
    exact ⟨⟨name, value⟩, .cons (takes_property_iff.mpr hname) (.cons (takes_mark_iff.mpr hcolon)
      (.cons (takes_value_iff.mpr hvalue) (.nil rest))), rfl⟩
  · rintro ⟨⟨name, value⟩, hcut, rfl⟩
    obtain ⟨t, hname, hcut⟩ := cut_cons_iff.mp hcut
    obtain ⟨u, hcolon, hcut⟩ := cut_cons_iff.mp hcut
    obtain ⟨v, hvalue, hcut⟩ := cut_cons_iff.mp hcut
    cases hcut
    exact ⟨name, t, u, value, takes_property_iff.mp hname, takes_mark_iff.mp hcolon,
      takes_value_iff.mp hvalue, rfl⟩

theorem declaration_of_not_startsProperty {c : Char} (h : startsProperty c = false)
    (s : List Char) : declaration (c :: s) = none := by
  have hne : c ≠ '-' := by rintro rfl; simp [startsProperty] at h
  simp [declaration, takeProperty_cons hne, propertyBody, h]

/-- Behind an item stands a semicolon or the closing brace. -/
theorem exists_mark_behind_item (items : List WrittenItem) :
    ∃ c ls, startsProperty c = false ∧
      WrittenRule.furtherItems items ++ [.mark '\x7d'] = .mark c :: ls := by
  cases items with
  | nil => exact ⟨'\x7d', [], by decide, rfl⟩
  | cons i items => exact ⟨';', _, by decide, rfl⟩

/-- An item is read as what it is, since the mark behind it starts no property. -/
theorem cut_item_iff {s rest : List Char} (items : List WrittenItem) (ds : List Declaration) :
    (∃ i : WrittenItem,
        Cut s (i.lexemes ++ (WrittenRule.furtherItems items ++ [.mark '\x7d'])) rest ∧
          i.declarations = ds) ↔
      Cut (declaration? (skip s)).2 (WrittenRule.furtherItems items ++ [.mark '\x7d']) rest ∧
        (declaration? (skip s)).1 = ds := by
  obtain ⟨c, ls, hc, hmark⟩ := exists_mark_behind_item items
  rw [hmark]
  constructor
  · rintro ⟨i, hcut, rfl⟩
    cases i with
    | none =>
      obtain ⟨t, hmark, -⟩ := cut_cons_iff.mp hcut
      have nothing := declaration_of_not_startsProperty hc t
      rw [← takes_mark_iff.mp hmark] at nothing
      rw [declaration?, nothing]
      exact ⟨cut_skip_iff.mpr hcut, rfl⟩
    | some w =>
      obtain ⟨t, hw, hcut⟩ := cut_append_iff.mp hcut
      rw [declaration?, declaration_skip_iff.mpr ⟨w, hw, rfl⟩]
      exact ⟨hcut, rfl⟩
  · rintro ⟨hcut, rfl⟩
    unfold declaration? at hcut ⊢
    split at hcut
    · rename_i d t hd
      obtain ⟨w, hw, rfl⟩ := declaration_skip_iff.mp hd
      exact ⟨some w, cut_append_iff.mpr ⟨t, hw, hcut⟩, rfl⟩
    · rename_i hd
      exact ⟨none, cut_skip_iff.mp hcut, rfl⟩

theorem cut_furtherItems_cons_iff {s t rest : List Char} {i : WrittenItem}
    {items : List WrittenItem} {ls : List Lexeme} (h : skip s = ';' :: t) :
    Cut s (WrittenRule.furtherItems (i :: items) ++ ls) rest ↔
      Cut t (i.lexemes ++ (WrittenRule.furtherItems items ++ ls)) rest := by
  rw [WrittenRule.furtherItems, List.flatMap_cons, List.append_assoc]
  exact cut_mark_iff h

/-- The items behind the first, up to the closing brace. -/
theorem cut_moreDeclarations_iff (s : List Char) {rest : List Char} (ds : List Declaration) :
    (∃ items, Cut s (WrittenRule.furtherItems items ++ [.mark '\x7d']) rest ∧
        items.flatMap WrittenItem.declarations = ds) ↔
      skip (moreDeclarations s).2 = '\x7d' :: rest ∧ (moreDeclarations s).1 = ds := by
  fun_induction moreDeclarations s generalizing ds with
  | case1 s t hc found more ih =>
    constructor
    · rintro ⟨items, hcut, rfl⟩
      cases items with
      | nil => exact absurd hcut (not_cut_mark hc (by decide))
      | cons i items =>
        rw [cut_furtherItems_cons_iff hc] at hcut
        obtain ⟨hcut, hi⟩ := (cut_item_iff items _).mp ⟨i, hcut, rfl⟩
        obtain ⟨hclose, hmore⟩ := (ih _).mp ⟨items, hcut, rfl⟩
        exact ⟨hclose, by rw [List.flatMap_cons, ← hi, ← hmore]⟩
    · rintro ⟨hclose, rfl⟩
      obtain ⟨items, hcut, hitems⟩ := (ih _).mpr ⟨hclose, rfl⟩
      obtain ⟨i, hcut, hi⟩ := (cut_item_iff items _).mpr ⟨hcut, rfl⟩
      exact ⟨i :: items, (cut_furtherItems_cons_iff hc).mpr hcut,
        by rw [List.flatMap_cons, hi, hitems]⟩
  | case2 s hc =>
    constructor
    · rintro ⟨items, hcut, rfl⟩
      cases items with
      | nil =>
        obtain ⟨t, hclose, hcut⟩ := cut_cons_iff.mp hcut
        cases hcut
        exact ⟨takes_mark_iff.mp hclose, rfl⟩
      | cons i items =>
        obtain ⟨t, htakes, -⟩ := cut_cons_iff.mp hcut
        exact absurd (takes_mark_iff.mp htakes) (hc t)
    · rintro ⟨hclose, rfl⟩
      exact ⟨[], (cut_mark_iff hclose).mpr (.nil rest), rfl⟩

theorem cut_items_iff {s rest : List Char} {ds : List Declaration} :
    (∃ i is, Cut s (WrittenItem.lexemes i ++ (WrittenRule.furtherItems is ++ [.mark '\x7d'])) rest ∧
        i.declarations ++ is.flatMap WrittenItem.declarations = ds) ↔
      skip (items s).2 = '\x7d' :: rest ∧ (items s).1 = ds := by
  constructor
  · rintro ⟨i, is, hcut, rfl⟩
    obtain ⟨hcut, hi⟩ := (cut_item_iff is _).mp ⟨i, hcut, rfl⟩
    obtain ⟨hclose, his⟩ := (cut_moreDeclarations_iff _ _).mp ⟨is, hcut, rfl⟩
    exact ⟨hclose, by rw [← hi, ← his]; rfl⟩
  · rintro ⟨hclose, rfl⟩
    obtain ⟨is, hcut, his⟩ := (cut_moreDeclarations_iff _ _).mpr ⟨hclose, rfl⟩
    obtain ⟨i, hcut, hi⟩ := (cut_item_iff is _).mpr ⟨hcut, rfl⟩
    exact ⟨i, is, hcut, by rw [hi, his]; rfl⟩

theorem cut_rule_iff {s rest : List Char} {r : Rule} :
    (∃ w : WrittenRule, Cut s w.lexemes rest ∧ w.rule = r) ↔ rule (skip s) = some (r, rest) := by
  rw [rule_eq_some_iff]
  constructor
  · rintro ⟨⟨x, xs, i, is⟩, hcut, rfl⟩
    obtain ⟨after, hx, hcut⟩ := cut_cons_iff.mp hcut
    obtain ⟨hcut, hxs⟩ := (cut_moreSelectors_iff after _).mp ⟨xs, hcut, rfl⟩
    obtain ⟨u, hopen, hcut⟩ := cut_cons_iff.mp hcut
    obtain ⟨hclose, hitems⟩ := cut_items_iff.mp ⟨i, is, hcut, rfl⟩
    exact ⟨trimmed x, after, u, selector_skip_iff.mpr ⟨x, hx, rfl⟩, by rw [hxs]; rfl,
      takes_mark_iff.mp hopen, hitems.symm, hclose⟩
  · rintro ⟨x, after, u, hx, hselectors, hopen, hdeclarations, hclose⟩
    obtain ⟨run, htakes, rfl⟩ := selector_skip_iff.mp hx
    obtain ⟨i, is, hcut, hitems⟩ := cut_items_iff.mpr ⟨hclose, rfl⟩
    obtain ⟨runs, hcut, hruns⟩ :=
      (cut_moreSelectors_iff after _).mpr ⟨.cons (takes_mark_iff.mpr hopen) hcut, rfl⟩
    refine ⟨⟨run, runs, i, is⟩, .cons htakes hcut, ?_⟩
    cases r
    simp only [WrittenRule.rule, hruns, hitems] at hselectors hdeclarations ⊢
    rw [hselectors, hdeclarations]

/-- The rules of a text are those that it is cut into. -/
theorem rules_eq_some_iff (s : List Char) (rs : List Rule) :
    rules s = some rs ↔ ∃ (ws : List WrittenRule) (rest : List Char),
      Cut s (ws.flatMap WrittenRule.lexemes) rest ∧ IsGap rest ∧ ws.map WrittenRule.rule = rs := by
  fun_induction rules s generalizing rs with
  | case1 s hs =>
    constructor
    · intro h
      cases h
      exact ⟨[], s, .nil s, isGap_iff_skip.mpr hs, rfl⟩
    · rintro ⟨ws, rest, hcut, -, rfl⟩
      cases ws with
      | nil => rfl
      | cons w ws =>
        obtain ⟨t, hw, -⟩ := cut_append_iff.mp hcut
        have read := cut_rule_iff.mp ⟨w, hw, rfl⟩
        rw [hs] at read
        cases read
  | case2 s c more hs r t hr ih =>
    rw [← hs] at hr
    constructor
    · intro h
      obtain ⟨others, ho, rfl⟩ := Option.map_eq_some_iff.mp h
      obtain ⟨ws, rest, hcut, hgap, rfl⟩ := (ih others).mp ho
      obtain ⟨w, hw, rfl⟩ := cut_rule_iff.mpr hr
      exact ⟨w :: ws, rest, cut_append_iff.mpr ⟨t, hw, hcut⟩, hgap, rfl⟩
    · rintro ⟨ws, rest, hcut, hgap, rfl⟩
      cases ws with
      | nil =>
        cases hcut
        rw [isGap_iff_skip.mp hgap] at hs
        cases hs
      | cons w ws =>
        obtain ⟨u, hw, hcut⟩ := cut_append_iff.mp hcut
        cases hr.symm.trans (cut_rule_iff.mp ⟨w, hw, rfl⟩)
        rw [(ih _).mpr ⟨ws, rest, hcut, hgap, rfl⟩]
        rfl
  | case3 s c more hs hr =>
    rw [← hs] at hr
    refine iff_of_false (by simp) ?_
    rintro ⟨ws, rest, hcut, hgap, rfl⟩
    cases ws with
    | nil =>
      cases hcut
      rw [isGap_iff_skip.mp hgap] at hs
      cases hs
    | cons w ws =>
      obtain ⟨u, hw, -⟩ := cut_append_iff.mp hcut
      cases hr.symm.trans (cut_rule_iff.mp ⟨w, hw, rfl⟩)

def isBrace (c : Char) : Bool := c == '\x7b' || c == '\x7d'

/-- The braces of a text outside of its gaps. -/
def braces (ls : List Lexeme) : List Char := (ls.flatMap Lexeme.text).filter isBrace

theorem Cut.fits {s rest : List Char} {ls : List Lexeme} (h : Cut s ls rest) :
    ∀ l ∈ ls, ∃ t, l.Fits l.text t := by
  induction h with
  | nil => simp
  | cons first _ ih =>
    obtain ⟨gap, -, -, hl⟩ := first
    exact List.forall_mem_cons.mpr ⟨⟨_, hl.belongs⟩, ih⟩

/-- Braces stand in marks only. -/
theorem braces_eq_nil {ls : List Lexeme} (fits : ∀ l ∈ ls, ∃ t, l.Fits l.text t)
    (marks : ∀ c, .mark c ∈ ls → isBrace c = false) : braces ls = [] := by
  refine List.filter_eq_nil_iff.mpr fun c hc => ?_
  obtain ⟨l, hl, hc⟩ := List.mem_flatMap.mp hc
  obtain ⟨t, ht⟩ := fits l hl
  cases l with
  | selector run =>
    have := ht.unbroken c hc
    simp_all [endsSelector, isBrace]
  | property run =>
    have := ht.isIdentChar c hc
    rw [Bool.not_eq_true]
    by_contra hbrace
    simp only [isBrace, Bool.not_eq_false, Bool.or_eq_true, beq_iff_eq] at hbrace
    rcases hbrace with rfl | rfl <;> exact absurd this (by decide)
  | value run =>
    have := ht.2 c hc
    simp_all [inValue, isBrace]
  | mark d =>
    rw [List.mem_singleton.mp hc, marks d hl]
    decide

theorem braces_append (ls ls' : List Lexeme) : braces (ls ++ ls') = braces ls ++ braces ls' := by
  simp [braces]

theorem WrittenItem.mark_of_mem {i : WrittenItem} {c : Char} (h : .mark c ∈ i.lexemes) :
    c = ':' := by
  cases i with
  | none => simp [lexemes] at h
  | some d => simpa [lexemes, WrittenDeclaration.lexemes] using h

namespace WrittenRule

theorem mark_of_mem_furtherSelectors {runs : List (List Char)} {c : Char}
    (h : .mark c ∈ furtherSelectors runs) : c = ',' := by
  obtain ⟨x, -, hx⟩ := List.mem_flatMap.mp h
  simpa using hx

theorem mark_of_mem_furtherItems {items : List WrittenItem} {c : Char}
    (h : .mark c ∈ furtherItems items) : c = ';' ∨ c = ':' := by
  obtain ⟨i, -, hi⟩ := List.mem_flatMap.mp h
  rcases List.mem_cons.mp hi with hi | hi
  · exact .inl (Lexeme.mark.inj hi)
  · exact .inr (WrittenItem.mark_of_mem hi)

/-- A rule has one opening brace and, behind it, one closing brace. -/
theorem braces_lexemes {w : WrittenRule} (fits : ∀ l ∈ w.lexemes, ∃ t, l.Fits l.text t) :
    braces w.lexemes = ['\x7b', '\x7d'] := by
  have parts : w.lexemes = (.selector w.selector :: furtherSelectors w.selectors) ++
      ([.mark '\x7b'] ++ ((w.item.lexemes ++ furtherItems w.items) ++ [.mark '\x7d'])) := by
    simp [lexemes]
  rw [parts] at fits ⊢
  have selectors : braces (.selector w.selector :: furtherSelectors w.selectors) = [] := by
    refine braces_eq_nil (fun l hl => fits l (List.mem_append_left _ hl)) fun c hc => ?_
    rcases List.mem_cons.mp hc with hc | hc
    · cases hc
    · rw [mark_of_mem_furtherSelectors hc]
      decide
  have items : braces (w.item.lexemes ++ furtherItems w.items) = [] := by
    refine braces_eq_nil (fun l hl => fits l ?_) fun c hc => ?_
    · exact List.mem_append_right _ (List.mem_append_right _ (List.mem_append_left _ hl))
    · rcases List.mem_append.mp hc with hc | hc
      · rw [WrittenItem.mark_of_mem hc]
        decide
      · rcases mark_of_mem_furtherItems hc with rfl | rfl <;> decide
  simp only [braces_append, selectors, items]
  decide

end WrittenRule

/-- In a text that is cut into rules, an opening and a closing brace for each rule take turns. -/
theorem Cut.braces_eq {s rest : List Char} {ws : List WrittenRule}
    (h : Cut s (ws.flatMap WrittenRule.lexemes) rest) :
    braces (ws.flatMap WrittenRule.lexemes) =
      (List.replicate ws.length ['\x7b', '\x7d']).flatten := by
  induction ws generalizing s with
  | nil => rfl
  | cons w ws ih =>
    obtain ⟨t, hw, hws⟩ := cut_append_iff.mp h
    rw [List.flatMap_cons, braces_append, WrittenRule.braces_lexemes hw.fits, ih hws]
    rfl

/-- Behind a text that is cut into rules the reader goes on where it starts. -/
theorem rules_of_cut {s rest : List Char} {ws : List WrittenRule}
    (h : Cut s (ws.flatMap WrittenRule.lexemes) rest) :
    rules s = (rules rest).map (ws.map WrittenRule.rule ++ ·) := by
  induction ws generalizing s with
  | nil =>
    cases h
    simp
  | cons w ws ih =>
    obtain ⟨t, hw, hws⟩ := cut_append_iff.mp h
    have hrule := cut_rule_iff.mp ⟨w, hw, rfl⟩
    have hskip : skip s ≠ [] := by
      intro hskip
      rw [hskip] at hrule
      cases hrule
    rw [rules_cons hskip hrule, ih hws, Option.map_map]
    rfl

/-- A selector with a semicolon behind it starts no rule. -/
theorem rules_of_semicolon {s t rest run : List Char} (selector : Takes s (.selector run) t)
    (semicolon : Takes t (.mark ';') rest) : rules s = none := by
  have hselector := selector_skip_iff.mpr ⟨run, selector, rfl⟩
  have hsemicolon := takes_mark_iff.mp semicolon
  have alone : moreSelectors t = ([], t) := by
    rw [moreSelectors]
    split
    · rename_i hcomma
      cases hcomma.symm.trans hsemicolon
    · rfl
  have refused : rule (skip s) = none := by
    refine Option.eq_none_iff_forall_ne_some.mpr fun found hfound => ?_
    obtain ⟨x, after, u, hx, -, hopen, -⟩ := rule_eq_some_iff.mp hfound
    cases hselector.symm.trans hx
    rw [alone] at hopen
    cases hsemicolon.symm.trans hopen
  refine rules_none (fun hskip => ?_) refused
  rw [hskip] at hselector
  cases hselector

/-- The reader yields rules exactly for the texts that are cut into these rules and a gap at the
end. Outside of gaps an opening and a closing brace take turns then, so no block stands inside
another and no brace alone. At-rules get no treatment of their own: one with declarations in its
block is a rule like any other, and where a rule may start, one that ends with a semicolon in place
of a block makes the whole text fail. -/
theorem parse_iff_cut (css : String) :
    (∀ rs, parse css = some rs ↔ ∃ (ws : List WrittenRule) (rest : List Char),
      Cut css.toList (ws.flatMap WrittenRule.lexemes) rest ∧ IsGap rest ∧
        ws.map WrittenRule.rule = rs) ∧
    (∀ (ws : List WrittenRule) (rest : List Char),
      Cut css.toList (ws.flatMap WrittenRule.lexemes) rest →
        braces (ws.flatMap WrittenRule.lexemes) =
          (List.replicate ws.length ['\x7b', '\x7d']).flatten) ∧
    ∀ (ws : List WrittenRule) (rest run t after : List Char),
      Cut css.toList (ws.flatMap WrittenRule.lexemes) rest → Takes rest (.selector run) t →
        Takes t (.mark ';') after → parse css = none := by
  refine ⟨rules_eq_some_iff css.toList, fun _ _ h => h.braces_eq, ?_⟩
  intro ws rest run t after hcut selector semicolon
  rw [parse, rules_of_cut hcut, rules_of_semicolon selector semicolon, Option.map_none]

/-- Comments with braces in gaps, a comment that only a value sees, places without a declaration and
an at-rule. -/
def crowdedSheet : String :=
  "/* \x7b */a ,b/*\x7d*/\x7b ; p : /*;*/v /* w ;-q:x\n\x7d @page\x7b\x7d/* */"

/-- A sheet of two rules with every kind of gap. -/
theorem parse_iff_cut_of_crowdedSheet :
    let rs := [⟨["a", "b"], [⟨"p", "v /* w"⟩, ⟨"-q", "x"⟩]⟩, ⟨["@page"], []⟩]
    parse crowdedSheet = some rs ∧ ∃ (ws : List WrittenRule) (rest : List Char),
      Cut crowdedSheet.toList (ws.flatMap WrittenRule.lexemes) rest ∧ IsGap rest ∧
        ws.map WrittenRule.rule = rs ∧
        braces (ws.flatMap WrittenRule.lexemes) = ['\x7b', '\x7d', '\x7b', '\x7d'] := by
  intro rs
  have hparse : parse crowdedSheet = some rs := by decide +kernel
  obtain ⟨accepts, turns, -⟩ := parse_iff_cut crowdedSheet
  obtain ⟨ws, rest, hcut, hgap, hrs⟩ := (accepts rs).mp hparse
  have two : ws.length = 2 := by rw [← List.length_map WrittenRule.rule, hrs]; rfl
  refine ⟨hparse, ws, rest, hcut, hgap, hrs, ?_⟩
  rw [turns ws rest hcut, two]
  rfl

/-- At-rules with declarations in their block or with nothing in it are read as rules. -/
theorem parse_lets_atRules_through :
    parse "@font-face \x7b src: x \x7d" = some [⟨["@font-face"], [⟨"src", "x"⟩]⟩] ∧
    parse "@media print \x7b\x7d" = some [⟨["@media print"], []⟩] := by
  decide +kernel

end Confinement.Stylesheet
