import Confinement.Text

/-!
# Style sheets

A style sheet is a list of flat rules: selectors, and declarations of a property each. The written
form of a rule is one line. The reader accepts flat rule lists only, with no block inside another.
Before every token it skips spaces and closed comments. A selector runs up to a comma, a brace, a
semicolon or a comment; a value runs up to a semicolon or a brace, and a comment inside it is
ordinary text. Selectors and values are then trimmed of white space.
-/
namespace Confinement.Stylesheet

structure Declaration where
  property : String
  value : String
  deriving DecidableEq, Repr

structure Rule where
  selectors : List String
  declarations : List Declaration
  deriving DecidableEq, Repr

def Declaration.text (d : Declaration) : String := d.property ++ ": " ++ d.value ++ ";"

/-- One line: the selectors, then the declarations between braces. -/
def Rule.text (r : Rule) : String :=
  ", ".intercalate r.selectors ++ " \x7b " ++ " ".intercalate (r.declarations.map Declaration.text)
    ++ " \x7d"

/-- The spaces of the grammar: space, tab, line feed, carriage return, form feed. -/
def isSpace (c : Char) : Bool :=
  c == ' ' || c == '\t' || c == '\r' || c == '\n' || c == '\x0c'

/-- What stands after the end of the comment that is open. -/
def afterComment : List Char → Option (List Char)
  | [] => none
  | '*' :: '/' :: rest => some rest
  | _ :: rest => afterComment rest

theorem length_afterComment {s rest : List Char} (h : afterComment s = some rest) :
    rest.length < s.length := by
  fun_induction afterComment s with
  | case1 => simp at h
  | case2 r =>
    cases h
    simp only [List.length_cons]
    omega
  | case3 c r _ ih =>
    have := ih h
    simp only [List.length_cons]
    omega

/-- The text without the spaces and closed comments at its start. -/
def skip : List Char → List Char
  | [] => []
  | '/' :: '*' :: rest =>
    match _h : afterComment rest with
    | some after => skip after
    | none => '/' :: '*' :: rest
  | c :: rest => if isSpace c then skip rest else c :: rest
termination_by s => s.length
decreasing_by
  · have := length_afterComment _h; simp; omega
  · simp

theorem length_skip (s : List Char) : (skip s).length ≤ s.length := by
  fun_induction skip s with
  | case1 => simp
  | case2 r after h ih => have := length_afterComment h; simp; omega
  | case3 => simp
  | case4 => simp; omega
  | case5 => simp

/-- The longest run that can be a selector, and the rest. -/
def takeSelector : List Char → List Char × List Char
  | [] => ([], [])
  | '/' :: '*' :: rest => ([], '/' :: '*' :: rest)
  | c :: rest =>
    if c == ',' || c == '\x7b' || c == '\x7d' || c == ';' then ([], c :: rest)
    else
      let more := takeSelector rest
      (c :: more.1, more.2)

theorem length_takeSelector (s : List Char) :
    (takeSelector s).1.length + (takeSelector s).2.length = s.length := by
  fun_induction takeSelector s with
  | case1 => rfl
  | case2 => simp
  | case3 => simp
  | case4 c rest _ _ more ih => simp only [more, List.length_cons] at ih ⊢; omega

/-- One selector; it is not empty. -/
def selector (s : List Char) : Option (String × List Char) :=
  match takeSelector s with
  | ([], _) => none
  | (run, rest) => some (String.ofList (Text.trim run), rest)

theorem length_selector {s rest : List Char} {x : String} (h : selector s = some (x, rest)) :
    rest.length < s.length := by
  have hl := length_takeSelector s
  unfold selector at h
  split at h
  · simp at h
  · rename_i run r hne heq
    rw [heq] at hl
    cases run with
    | nil => exact absurd rfl hne
    | cons c cs => simp_all; omega

/-- The selectors after the first, each behind a comma. A comma that no selector follows is left
where it stands. -/
def moreSelectors (s : List Char) : List String × List Char :=
  match _hc : skip s with
  | ',' :: rest =>
    match _hs : selector (skip rest) with
    | some (x, after) =>
      let more := moreSelectors after
      (x :: more.1, more.2)
    | none => ([], s)
  | _ => ([], s)
termination_by s.length
decreasing_by
  all_goals
    have h1 := length_selector _hs
    have h2 := length_skip rest
    have h3 := length_skip s
    rw [_hc] at h3
    simp only [List.length_cons] at h3
    omega

theorem length_moreSelectors (s : List Char) : (moreSelectors s).2.length ≤ s.length := by
  fun_induction moreSelectors s with
  | case1 s rest hc x after hs more ih =>
    have h1 := length_selector hs
    have h2 := length_skip rest
    have h3 := length_skip s
    rw [hc] at h3
    simp only [List.length_cons] at h3
    simp only [more] at ih ⊢
    omega
  | case2 => simp
  | case3 => simp

def startsProperty (c : Char) : Bool := c.isAlpha || c == '-' || c == '_'

/-- A property without its optional leading hyphen. -/
def propertyBody : List Char → Option (List Char × List Char)
  | [] => none
  | c :: rest =>
    if startsProperty c then
      some (c :: rest.takeWhile Text.isIdentChar, rest.dropWhile Text.isIdentChar)
    else none

/-- The longest run that is a property name. -/
def takeProperty : List Char → Option (List Char × List Char)
  | '-' :: rest => (propertyBody rest).map fun p => ('-' :: p.1, p.2)
  | s => propertyBody s

theorem length_propertyBody {s run rest : List Char} (h : propertyBody s = some (run, rest)) :
    rest.length < s.length := by
  cases s with
  | nil => simp [propertyBody] at h
  | cons c r =>
    have := (List.dropWhile_sublist Text.isIdentChar (l := r)).length_le
    simp only [propertyBody] at h
    split at h
    · cases h
      simp only [List.length_cons]
      omega
    · cases h

theorem length_takeProperty {s run rest : List Char} (h : takeProperty s = some (run, rest)) :
    rest.length < s.length := by
  unfold takeProperty at h
  split at h
  · rename_i r
    obtain ⟨⟨run, tail⟩, hp, hq⟩ := Option.map_eq_some_iff.mp h
    have := length_propertyBody hp
    simp_all; omega
  · exact length_propertyBody h

/-- The characters of a value. -/
def inValue (c : Char) : Bool := !(c == ';' || c == '\x7b' || c == '\x7d')

/-- A property, a colon and a value that is not empty. -/
def declaration (s : List Char) : Option (Declaration × List Char) :=
  match takeProperty s with
  | none => none
  | some (name, afterName) =>
    match skip afterName with
    | ':' :: afterColon =>
      let start := skip afterColon
      match start.takeWhile inValue with
      | [] => none
      | value =>
        some (⟨String.ofList name, String.ofList (Text.trim value)⟩, start.dropWhile inValue)
    | _ => none

theorem length_declaration {s rest : List Char} {d : Declaration}
    (h : declaration s = some (d, rest)) : rest.length < s.length := by
  unfold declaration at h
  split at h
  · simp at h
  · rename_i name afterName hn
    have h1 := length_takeProperty hn
    have h2 := length_skip afterName
    split at h
    · rename_i afterColon hc
      rw [hc] at h2
      have h3 := length_skip afterColon
      have h4 := (List.dropWhile_sublist inValue (l := skip afterColon)).length_le
      simp only [List.length_cons] at h2
      simp only at h
      split at h
      · simp at h
      · simp only [Option.some.injEq, Prod.mk.injEq] at h
        obtain ⟨_, rfl⟩ := h
        omega
    · simp at h

/-- A declaration, if one starts here. -/
def declaration? (s : List Char) : List Declaration × List Char :=
  match declaration s with
  | some (d, rest) => ([d], rest)
  | none => ([], s)

theorem length_declaration? (s : List Char) : (declaration? s).2.length ≤ s.length := by
  unfold declaration?
  split
  · rename_i h; exact Nat.le_of_lt (length_declaration h)
  · simp

/-- What follows the first declaration: semicolons, each with a declaration or with none. -/
def moreDeclarations (s : List Char) : List Declaration × List Char :=
  match _hc : skip s with
  | ';' :: rest =>
    let found := declaration? (skip rest)
    let more := moreDeclarations found.2
    (found.1 ++ more.1, more.2)
  | _ => ([], s)
termination_by s.length
decreasing_by
  all_goals
    have h1 := length_declaration? (skip rest)
    have h2 := length_skip rest
    have h3 := length_skip s
    rw [_hc] at h3
    simp only [List.length_cons] at h3
    omega

theorem length_moreDeclarations (s : List Char) :
    (moreDeclarations s).2.length ≤ s.length := by
  fun_induction moreDeclarations s with
  | case1 s rest hc found more ih =>
    have h1 := length_declaration? (skip rest)
    have h2 := length_skip rest
    have h3 := length_skip s
    rw [hc] at h3
    simp only [List.length_cons] at h3
    simp only [found, more] at ih ⊢
    omega
  | case2 => simp

/-- One rule: selectors, then declarations between braces. -/
def rule (s : List Char) : Option (Rule × List Char) :=
  match selector s with
  | none => none
  | some (first, afterFirst) =>
    let others := moreSelectors afterFirst
    match skip others.2 with
    | '\x7b' :: afterOpen =>
      let found := declaration? (skip afterOpen)
      let more := moreDeclarations found.2
      match skip more.2 with
      | '\x7d' :: rest => some (⟨first :: others.1, found.1 ++ more.1⟩, rest)
      | _ => none
    | _ => none

theorem length_rule {s rest : List Char} {r : Rule} (h : rule s = some (r, rest)) :
    rest.length < s.length := by
  unfold rule at h
  split at h
  · simp at h
  · rename_i first afterFirst hf
    have h1 := length_selector hf
    have h2 := length_moreSelectors afterFirst
    have h3 := length_skip (moreSelectors afterFirst).2
    simp only at h
    split at h
    · rename_i afterOpen ho
      rw [ho] at h3
      have h4 := length_skip afterOpen
      have h5 := length_declaration? (skip afterOpen)
      have h6 := length_moreDeclarations (declaration? (skip afterOpen)).2
      have h7 := length_skip (moreDeclarations (declaration? (skip afterOpen)).2).2
      simp only [List.length_cons] at h3
      split at h
      · rename_i r hr
        rw [hr] at h7
        simp only [Option.some.injEq, Prod.mk.injEq] at h
        obtain ⟨_, rfl⟩ := h
        simp only [List.length_cons] at h7
        omega
      · simp at h
    · simp at h

/-- Rules up to the end of the text. -/
def rules (s : List Char) : Option (List Rule) :=
  match _hs : skip s with
  | [] => some []
  | c :: more =>
    match _hr : rule (c :: more) with
    | some (r, rest) => (rules rest).map (r :: ·)
    | none => none
termination_by s.length
decreasing_by
  have h1 := length_rule _hr
  have h2 := length_skip s
  rw [_hs] at h2
  omega

/-- The rules of a style sheet, or nothing if the text is no list of flat rules. -/
def parse (css : String) : Option (List Rule) := rules css.toList

end Confinement.Stylesheet
