import Confinement.Proofs.Stylesheet.Steps
import Confinement.Proofs.Text.Blank

/-!
# The shape of rules that were read

Every rule that the reader yields has at least one selector. A selector is trimmed and holds neither
a separator nor the opening of a comment; a property has the form of one; a value is trimmed and
stays inside its declaration. Selectors and values may be empty: trimming knows more blanks than the
reader skips.
-/
namespace Confinement.Stylesheet

/-- The characters that end a selector. -/
def endsSelector (c : Char) : Bool := c == ',' || c == '\x7b' || c == '\x7d' || c == ';'

/-- What a selector looks like once it was read. -/
structure SelectorShape (x : List Char) : Prop where
  trimmed : Text.Trimmed x
  unbroken : ∀ c ∈ x, endsSelector c = false
  uncommented : ¬ ['/', '*'] <:+: x

/-- What a declaration looks like once it was read. -/
structure DeclarationShape (d : Declaration) : Prop where
  property : takeProperty d.property.toList = some (d.property.toList, [])
  trimmed : Text.Trimmed d.value.toList
  inside : ∀ c ∈ d.value.toList, inValue c = true

/-- What a rule looks like once it was read. -/
structure RuleShape (r : Rule) : Prop where
  nonempty : r.selectors ≠ []
  selectors : ∀ x ∈ r.selectors, SelectorShape x.toList
  declarations : ∀ d ∈ r.declarations, DeclarationShape d

theorem takeSelector_append (s : List Char) : (takeSelector s).1 ++ (takeSelector s).2 = s := by
  fun_induction takeSelector s with
  | case1 => rfl
  | case2 => rfl
  | case3 => rfl
  | case4 c rest _ _ more ih => simp [more, ih]

theorem unbroken_takeSelector (s : List Char) :
    ∀ c ∈ (takeSelector s).1, endsSelector c = false := by
  fun_induction takeSelector s with
  | case1 => simp
  | case2 => simp
  | case3 => simp
  | case4 c rest _ hc more ih =>
    intro d hd
    rcases List.mem_cons.mp hd with rfl | hd
    · simpa [endsSelector] using hc
    · exact ih d hd

theorem uncommented_takeSelector (s : List Char) : ¬ ['/', '*'] <:+: (takeSelector s).1 := by
  fun_induction takeSelector s with
  | case1 => simp
  | case2 => simp
  | case3 => simp
  | case4 c rest hopen _ more ih =>
    rw [List.infix_cons_iff]
    rintro (hp | hi)
    · obtain ⟨t, ht⟩ := hp
      simp only [List.cons_append, List.nil_append, List.cons.injEq] at ht
      have hrest := takeSelector_append rest
      rw [← ht.2] at hrest
      exact hopen _ ht.1.symm hrest.symm
    · exact ih hi

/-- Part of a selector, trimmed, is a selector. -/
theorem SelectorShape.trim {x : List Char} (unbroken : ∀ c ∈ x, endsSelector c = false)
    (uncommented : ¬ ['/', '*'] <:+: x) : SelectorShape (Text.trim x) where
  trimmed := Text.trimmed_trim x
  unbroken c hc := unbroken c ((Text.trim_isInfix x).subset hc)
  uncommented h := uncommented (h.trans (Text.trim_isInfix x))

theorem shape_selector {s rest : List Char} {x : String} (h : selector s = some (x, rest)) :
    SelectorShape x.toList := by
  have unbroken := unbroken_takeSelector s
  have uncommented := uncommented_takeSelector s
  unfold selector at h
  split at h
  · cases h
  · rename_i run after _ heq
    rw [heq] at unbroken uncommented
    cases h
    rw [String.toList_ofList]
    exact .trim unbroken uncommented

theorem shape_moreSelectors (s : List Char) :
    ∀ x ∈ (moreSelectors s).1, SelectorShape x.toList := by
  fun_induction moreSelectors s with
  | case1 s rest hc x after hs more ih =>
    intro y hy
    rcases List.mem_cons.mp hy with rfl | hy
    · exact shape_selector hs
    · exact ih y hy
  | case2 => simp
  | case3 => simp

theorem propertyBody_append {s run rest : List Char} (h : propertyBody s = some (run, rest)) :
    run ++ rest = s := by
  cases s with
  | nil => cases h
  | cons c s =>
    simp only [propertyBody] at h
    split at h
    · cases h; simp
    · cases h

/-- The body of a property is read again, whatever follows it, unless that could continue it. -/
theorem propertyBody_reread {s run rest t : List Char} (h : propertyBody s = some (run, rest))
    (ht : ∀ c, t.head? = some c → Text.isIdentChar c = false) :
    propertyBody (run ++ t) = some (run, t) := by
  cases s with
  | nil => cases h
  | cons c s =>
    simp only [propertyBody] at h
    split at h
    · rename_i hc
      cases h
      have all : ∀ d ∈ s.takeWhile Text.isIdentChar, Text.isIdentChar d = true :=
        fun d hd => List.mem_takeWhile_imp hd
      have stop : t.takeWhile Text.isIdentChar = [] ∧ t.dropWhile Text.isIdentChar = t := by
        cases t with
        | nil => simp
        | cons d _ => simp [ht d rfl]
      simp [propertyBody, hc, List.takeWhile_append_of_pos all, List.dropWhile_append_of_pos all,
        stop]
    · cases h

theorem takeProperty_hyphen (s : List Char) :
    takeProperty ('-' :: s) = (propertyBody s).map fun p => ('-' :: p.1, p.2) := rfl

theorem takeProperty_cons {c : Char} (hc : c ≠ '-') (s : List Char) :
    takeProperty (c :: s) = propertyBody (c :: s) := by
  unfold takeProperty
  split
  · rename_i heq; cases heq; exact absurd rfl hc
  · rfl

theorem takeProperty_append {s run rest : List Char} (h : takeProperty s = some (run, rest)) :
    run ++ rest = s := by
  cases s with
  | nil => cases h
  | cons c s =>
    by_cases hc : c = '-'
    · subst hc
      obtain ⟨⟨body, tail⟩, hp, hq⟩ := Option.map_eq_some_iff.mp h
      cases hq
      simp [propertyBody_append hp]
    · rw [takeProperty_cons hc] at h
      exact propertyBody_append h

theorem takeProperty_reread {s run rest t : List Char} (h : takeProperty s = some (run, rest))
    (ht : ∀ c, t.head? = some c → Text.isIdentChar c = false) :
    takeProperty (run ++ t) = some (run, t) := by
  cases s with
  | nil => cases h
  | cons c s =>
    by_cases hc : c = '-'
    · subst hc
      obtain ⟨⟨body, tail⟩, hp, hq⟩ := Option.map_eq_some_iff.mp h
      cases hq
      simp [takeProperty_hyphen, propertyBody_reread hp ht]
    · rw [takeProperty_cons hc] at h
      have again := propertyBody_reread h ht
      simp only [propertyBody] at h
      split at h
      · cases h
        rw [List.cons_append, takeProperty_cons hc]
        exact again
      · cases h

theorem shape_declaration {s rest : List Char} {d : Declaration}
    (h : declaration s = some (d, rest)) : DeclarationShape d := by
  unfold declaration at h
  split at h
  · cases h
  · rename_i name afterName hn
    split at h
    · rename_i afterColon _
      simp only at h
      split at h
      · cases h
      · cases h
        refine ⟨?_, ?_, ?_⟩
        · have again := takeProperty_reread (t := []) hn (by simp)
          simpa using again
        · simpa using Text.trimmed_trim _
        · intro c hc
          rw [String.toList_ofList] at hc
          exact List.mem_takeWhile_imp ((Text.trim_isInfix _).subset hc)
    · cases h

theorem shape_declaration? (s : List Char) : ∀ d ∈ (declaration? s).1, DeclarationShape d := by
  unfold declaration?
  split
  · rename_i h
    simpa using shape_declaration h
  · simp

theorem shape_moreDeclarations (s : List Char) :
    ∀ d ∈ (moreDeclarations s).1, DeclarationShape d := by
  fun_induction moreDeclarations s with
  | case1 s rest hc found more ih =>
    intro d hd
    rcases List.mem_append.mp hd with hd | hd
    · exact shape_declaration? _ d hd
    · exact ih d hd
  | case2 => simp

theorem shape_items (s : List Char) : ∀ d ∈ (items s).1, DeclarationShape d := by
  intro d hd
  rcases List.mem_append.mp hd with hd | hd
  · exact shape_declaration? _ d hd
  · exact shape_moreDeclarations _ d hd

theorem shape_rule {s rest : List Char} {r : Rule} (h : rule s = some (r, rest)) :
    RuleShape r := by
  obtain ⟨x, after, u, hx, hselectors, -, hdeclarations, -⟩ := rule_eq_some_iff.mp h
  refine ⟨by simp [hselectors], fun y hy => ?_, fun d hd => ?_⟩
  · rw [hselectors] at hy
    rcases List.mem_cons.mp hy with rfl | hy
    · exact shape_selector hx
    · exact shape_moreSelectors after y hy
  · rw [hdeclarations] at hd
    exact shape_items u d hd

/-- Every rule of a style sheet that can be read has the shape of a rule. -/
theorem shape_rules {s : List Char} {rs : List Rule} (h : rules s = some rs) :
    ∀ r ∈ rs, RuleShape r := by
  fun_induction rules s generalizing rs with
  | case1 => cases h; simp
  | case2 s c more _ r rest hr ih =>
    obtain ⟨others, ho, rfl⟩ := Option.map_eq_some_iff.mp h
    intro r' hr'
    rcases List.mem_cons.mp hr' with rfl | hr'
    · exact shape_rule hr
    · exact ih ho r' hr'
  | case3 => cases h

end Confinement.Stylesheet
