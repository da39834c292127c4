import Confinement.Proofs.Stylesheet.Lexeme
import Confinement.Proofs.Stylesheet.Printing

/-!
# Canonical rules

Rules whose printed form is read back in any company. Their selectors and values are trimmed and not
empty and keep clear of the separators, no comment opens in a selector, and a value does not start
with one. A value may hold a comment, closed or not, since the reader has passed the place where it
would skip one. Whether a rule is canonical can be computed.
-/
namespace Confinement.Stylesheet

structure CanonicalSelector (x : String) : Prop where
  nonempty : x ≠ ""
  shape : SelectorShape x.toList

structure CanonicalDeclaration (d : Declaration) : Prop where
  property : IsProperty d.property.toList
  nonempty : d.value ≠ ""
  trimmed : Text.Trimmed d.value.toList
  inside : ∀ c ∈ d.value.toList, inValue c = true
  uncommented : ¬ ['/', '*'] <+: d.value.toList

structure CanonicalRule (r : Rule) : Prop where
  nonempty : r.selectors ≠ []
  selectors : ∀ x ∈ r.selectors, CanonicalSelector x
  declarations : ∀ d ∈ r.declarations, CanonicalDeclaration d

theorem CanonicalDeclaration.shape {d : Declaration} (h : CanonicalDeclaration d) :
    DeclarationShape d :=
  ⟨h.property.takeProperty_eq, h.trimmed, h.inside⟩

theorem CanonicalRule.shape {r : Rule} (h : CanonicalRule r) : RuleShape r :=
  ⟨h.nonempty, fun x hx => (h.selectors x hx).shape, fun d hd => (h.declarations d hd).shape⟩

-- The tests of single characters are Boolean ones: a quantifier over characters, even over those of
-- a text, may be decided by trying all characters that there are.
instance (s : List Char) : Decidable (Text.Trimmed s) :=
  decidable_of_iff (s.head?.any Text.isBlank = false ∧ s.getLast?.any Text.isBlank = false)
    ⟨fun h => ⟨(Option.any_eq_false ..).mp h.1, (Option.any_eq_false ..).mp h.2⟩,
      fun h => ⟨(Option.any_eq_false ..).mpr h.head, (Option.any_eq_false ..).mpr h.last⟩⟩

instance (x : List Char) : Decidable (SelectorShape x) :=
  decidable_of_iff (Text.Trimmed x ∧ x.any endsSelector = false ∧ ¬ ['/', '*'] <:+: x)
    ⟨fun h => ⟨h.1, by simpa using h.2.1, h.2.2⟩,
      fun h => ⟨h.trimmed, by simpa using h.unbroken, h.uncommented⟩⟩

instance (run : List Char) : Decidable (IsProperty run) :=
  decidable_of_iff (takeProperty run = some (run, []))
    ⟨fun h => (takeProperty_spec h).1, IsProperty.takeProperty_eq⟩

instance (x : String) : Decidable (CanonicalSelector x) :=
  decidable_of_iff (x ≠ "" ∧ SelectorShape x.toList)
    ⟨fun h => ⟨h.1, h.2⟩, fun h => ⟨h.nonempty, h.shape⟩⟩

instance (d : Declaration) : Decidable (CanonicalDeclaration d) :=
  decidable_of_iff (IsProperty d.property.toList ∧ d.value ≠ "" ∧ Text.Trimmed d.value.toList ∧
      d.value.toList.all inValue = true ∧ ¬ ['/', '*'] <+: d.value.toList)
    ⟨fun h => ⟨h.1, h.2.1, h.2.2.1, List.all_eq_true.mp h.2.2.2.1, h.2.2.2.2⟩,
      fun h => ⟨h.property, h.nonempty, h.trimmed, List.all_eq_true.mpr h.inside, h.uncommented⟩⟩

instance (r : Rule) : Decidable (CanonicalRule r) :=
  decidable_of_iff (r.selectors ≠ [] ∧ (∀ x ∈ r.selectors, CanonicalSelector x) ∧
      ∀ d ∈ r.declarations, CanonicalDeclaration d)
    ⟨fun h => ⟨h.1, h.2.1, h.2.2⟩, fun h => ⟨h.nonempty, h.selectors, h.declarations⟩⟩

/-- A value that starts with no comment survives in front of any text. -/
theorem CanonicalDeclaration.survives {d : Declaration} (h : CanonicalDeclaration d)
    (behind : List Char) : Survives d.value.toList behind :=
  ⟨by simpa using h.nonempty, fun hopen => absurd hopen h.uncommented⟩

theorem blockSurvives_of_canonical {ds : List Declaration}
    (h : ∀ d ∈ ds, CanonicalDeclaration d) (t : List Char) : BlockSurvives ds t := by
  induction ds with
  | nil => trivial
  | cons d ds ih =>
    exact ⟨(h d (List.mem_cons_self ..)).survives _, ih fun e he => h e (List.mem_cons_of_mem _ he)⟩

theorem sheetSurvives_of_canonical {rs : List Rule} (h : ∀ r ∈ rs, CanonicalRule r) :
    SheetSurvives rs := by
  induction rs with
  | nil => trivial
  | cons r rs ih =>
    exact ⟨blockSurvives_of_canonical (h r (List.mem_cons_self ..)).declarations _,
      ih fun q hq => h q (List.mem_cons_of_mem _ hq)⟩

/-- Printing canonical rules, a line each, and reading the text gives the same rules. -/
theorem parse_canonical (rs : List Rule) (canonical : ∀ r ∈ rs, CanonicalRule r) :
    parse ("\n".intercalate (rs.map Rule.text)) = some rs := by
  rw [parse_joined]
  refine rules_sheet rs (fun r hr => (canonical r hr).shape) (fun r hr x hx => ?_)
    (sheetSurvives_of_canonical canonical)
  simpa using ((canonical r hr).selectors x hx).nonempty

/-- Quotes, backslashes and pieces of comments, next to the separators that are printed. -/
def trickyRules : List Rule :=
  [⟨["a[b='*/']", "*/ \"\\", "/"], [⟨"--x", "/ * \\ /* \"a,"⟩, ⟨"_y", "*/ /"⟩]⟩, ⟨["@p"], []⟩]

/-- Rules whose texts hold quotes and pieces of comments are read back. -/
theorem parse_canonical_of_trickyRules :
    (∀ r ∈ trickyRules, CanonicalRule r) ∧
      parse ("\n".intercalate (trickyRules.map Rule.text)) = some trickyRules :=
  have canonical : ∀ r ∈ trickyRules, CanonicalRule r := by decide +kernel
  ⟨canonical, parse_canonical trickyRules canonical⟩

end Confinement.Stylesheet
