import Confinement.Emission.Markup
import Mathlib.Tactic

/-!
# Markup as the text of a forest

A forest is what a builder is told piece by piece. `events` is the sequence of operations that
describes it and `markup` is its written form. A builder releases markup exactly for the sequences
that describe a forest with proper names, and what it releases is the written form of that forest.

One operation on a usable builder is described once, by `Accepts`. What a whole run has done is
read backwards from it: `Rest` holds what is still to come when some elements are open.
-/
namespace Confinement.Emission

/-- An ordered forest: nothing, or a tree in front of a forest. A fragment is a forest that was
released on its own and spliced in. -/
inductive Forest where
  | empty
  | text (content : String) (rest : Forest)
  | void (name : String) (attributes : List (String × String)) (rest : Forest)
  | element (name : String) (attributes : List (String × String)) (children rest : Forest)
  | fragment (inner rest : Forest)

namespace Forest

/-- The characters that have a meaning of their own in text, and the entities that stand for
them. -/
def textEntities : List (Char × String) := [('&', "&amp;"), ('<', "&lt;"), ('>', "&gt;")]

/-- In an attribute value the quotes have a meaning as well. -/
def attributeEntities : List (Char × String) :=
  textEntities ++ [('\x22', "&quot;"), ('\x27', "&#39;")]

/-- Character data in written form: an entity for each character that the table lists, and every
other character as it is. -/
def written (entities : List (Char × String)) (content : String) : String :=
  String.join (content.toList.map fun c => (entities.lookup c).getD (String.singleton c))

/-- Attributes as they stand in a start tag, each behind a space and with its value in quotes. -/
def attributesMarkup : List (String × String) → String
  | [] => ""
  | (name, value) :: more =>
    " " ++ name ++ "=\"" ++ written attributeEntities value ++ "\"" ++ attributesMarkup more

/-- The written form of a forest. -/
def markup : Forest → String
  | .empty => ""
  | .text content rest => written textEntities content ++ rest.markup
  | .void name attributes rest =>
    "<" ++ name ++ attributesMarkup attributes ++ "/>" ++ rest.markup
  | .element name attributes children rest =>
    "<" ++ name ++ attributesMarkup attributes ++ ">" ++ children.markup ++ "</" ++ name ++ ">" ++
      rest.markup
  | .fragment inner rest => inner.markup ++ rest.markup

def attributeEvents (attributes : List (String × String)) : List MarkupOp :=
  attributes.map fun a => .addAttribute a.1 a.2

/-- The operations that describe a forest. A fragment arrives as markup. -/
def events : Forest → List MarkupOp
  | .empty => []
  | .text content rest => .addText content :: rest.events
  | .void name attributes rest =>
    .beginTag name :: (attributeEvents attributes ++ .finishOpenTag true :: rest.events)
  | .element name attributes children rest =>
    .beginTag name :: (attributeEvents attributes ++ .finishOpenTag false ::
      (children.events ++ .endTag name :: rest.events))
  | .fragment inner rest => .rawInner ⟨inner.markup⟩ :: rest.events

def attributesNamed (attributes : List (String × String)) : Bool :=
  attributes.all fun a => Text.isMarkupName a.1

/-- Whether every element and attribute has a proper name, in spliced fragments too. -/
def wellNamed : Forest → Bool
  | .empty => true
  | .text _ rest => rest.wellNamed
  | .void name attributes rest =>
    Text.isMarkupName name && attributesNamed attributes && rest.wellNamed
  | .element name attributes children rest =>
    Text.isMarkupName name && attributesNamed attributes && children.wellNamed && rest.wellNamed
  | .fragment inner rest => inner.wellNamed && rest.wellNamed

/-- A function that escapes character by character writes with a table, if it agrees with the table
on every character. -/
theorem ofList_flatMap_eq_written {entities : List (Char × String)} {escape : Char → List Char}
    (h : ∀ c, String.ofList (escape c) = (entities.lookup c).getD (String.singleton c))
    (content : String) :
    String.ofList (content.toList.flatMap escape) = written entities content := by
  rw [written]
  induction content.toList with
  | nil => rfl
  | cons c rest ih => simp [List.flatMap_cons, String.ofList_append, h, ih]

theorem ofList_escapeTextChar (c : Char) :
    String.ofList (Text.escapeTextChar c) = (textEntities.lookup c).getD (String.singleton c) := by
  unfold Text.escapeTextChar
  split
  · rfl
  · rfl
  · rfl
  · rename_i amp lt gt
    have unlisted : textEntities.lookup c = none := by
      simpa [List.lookup_eq_none_iff, textEntities] using ⟨amp, lt, gt⟩
    rw [unlisted, Option.getD_none, String.singleton_eq_ofList]

theorem ofList_escapeAttributeChar (c : Char) :
    String.ofList (Text.escapeAttributeChar c) =
      (attributeEntities.lookup c).getD (String.singleton c) := by
  unfold Text.escapeAttributeChar
  split
  · rfl
  · rfl
  · rename_i quote apostrophe
    have unlisted : [('\x22', "&quot;"), ('\x27', "&#39;")].lookup c = none := by
      simpa [List.lookup_eq_none_iff] using ⟨quote, apostrophe⟩
    rw [ofList_escapeTextChar, attributeEntities, List.lookup_append, unlisted, Option.or_none]

theorem escapeText_eq_written (content : String) :
    Text.escapeText content = written textEntities content :=
  ofList_flatMap_eq_written ofList_escapeTextChar content

theorem escapeAttribute_eq_written (value : String) :
    Text.escapeAttribute value = written attributeEntities value :=
  ofList_flatMap_eq_written ofList_escapeAttributeChar value

end Forest

/-- Markup that came out of a finished builder, as did every fragment spliced into it. -/
inductive Released : Markup → Prop where
  | finish (token : Token) (ops : List MarkupOp) (m : Markup)
      (fragments : ∀ inner, MarkupOp.rawInner inner ∈ ops → Released inner)
      (finished : ((MarkupBuilder.new token).run ops).finish = .ok m) : Released m

namespace MarkupBuilder

/-- The effect of an operation on a builder that stays usable. -/
inductive Accepts : MarkupBuilder → MarkupOp → MarkupBuilder → Prop where
  | beginTag (b : MarkupBuilder) (name : String) (hp : b.poisoned = false)
      (settled : b.pending = none) (named : Text.isMarkupName name = true) :
      Accepts b (.beginTag name) { b with out := b.out ++ ("<" ++ name), pending := some name }
  | addAttribute (b : MarkupBuilder) (tag name value : String) (hp : b.poisoned = false)
      (pending : b.pending = some tag) (named : Text.isMarkupName name = true) :
      Accepts b (.addAttribute name value)
        (b.append (" " ++ name ++ "=\"" ++ Text.escapeAttribute value ++ "\""))
  | close (b : MarkupBuilder) (tag : String) (hp : b.poisoned = false)
      (pending : b.pending = some tag) :
      Accepts b (.finishOpenTag true) { b with out := b.out ++ "/>", pending := none }
  | enter (b : MarkupBuilder) (tag : String) (hp : b.poisoned = false)
      (pending : b.pending = some tag) :
      Accepts b (.finishOpenTag false)
        { b with out := b.out ++ ">", pending := none, opened := tag :: b.opened }
  | addText (b : MarkupBuilder) (content : String) (hp : b.poisoned = false)
      (settled : b.pending = none) :
      Accepts b (.addText content) (b.append (Text.escapeText content))
  | rawInner (b : MarkupBuilder) (inner : Markup) (hp : b.poisoned = false)
      (settled : b.pending = none) : Accepts b (.rawInner inner) (b.append inner.text)
  | endTag (b : MarkupBuilder) (name : String) (outer : List String) (hp : b.poisoned = false)
      (settled : b.pending = none) (top : b.opened = name :: outer) :
      Accepts b (.endTag name) { b with out := b.out ++ ("</" ++ name ++ ">"), opened := outer }

theorem apply_of_accepts {b b' : MarkupBuilder} {op : MarkupOp} (h : Accepts b op b') :
    (b.apply op).2 = b' := by
  cases h with
  | beginTag name hp settled named =>
    simp [apply, beginTag, whenSettled, whenUsable, append, hp, settled, named]
  | addAttribute tag name value hp pending named =>
    simp [apply, addAttribute, whenUsable, hp, pending, named]
  | close tag hp pending => simp [apply, finishOpenTag, whenUsable, append, hp, pending]
  | enter tag hp pending => simp [apply, finishOpenTag, whenUsable, append, hp, pending]
  | addText content hp settled => simp [apply, addText, whenSettled, whenUsable, hp, settled]
  | rawInner inner hp settled => simp [apply, rawInner, whenSettled, whenUsable, hp, settled]
  | endTag name outer hp settled top =>
    simp [apply, endTag, whenSettled, whenUsable, append, hp, settled, top]

/-- A poisoned builder no longer changes. -/
theorem apply_of_poisoned {b : MarkupBuilder} (h : b.poisoned = true) (op : MarkupOp) :
    (b.apply op).2 = b := by
  cases op <;> simp [apply, beginTag, addAttribute, finishOpenTag, addText, rawInner, endTag,
    whenSettled, whenUsable, h]

/-- Whatever leaves a builder usable is an accepted operation. -/
theorem accepts_apply {b : MarkupBuilder} {op : MarkupOp}
    (h : (b.apply op).2.poisoned = false) : Accepts b op (b.apply op).2 := by
  have hp : b.poisoned = false := by
    by_contra hb
    rw [apply_of_poisoned (by simpa using hb)] at h
    exact hb h
  cases op with
  | beginTag name =>
    simp only [apply, beginTag, whenSettled, whenUsable, hp] at h ⊢
    cases settled : b.pending with
    | some tag => simp [settled, fail] at h
    | none =>
      by_cases named : Text.isMarkupName name = true
      · simpa [append, settled, named] using Accepts.beginTag b name hp settled named
      · simp [settled, named, fail] at h
  | addAttribute name value =>
    simp only [apply, addAttribute, whenUsable, hp] at h ⊢
    cases pending : b.pending with
    | none => simp [pending, fail] at h
    | some tag =>
      by_cases named : Text.isMarkupName name = true
      · simpa [pending, named] using Accepts.addAttribute b tag name value hp pending named
      · simp [pending, named, fail] at h
  | finishOpenTag selfClosing =>
    simp only [apply, finishOpenTag, whenUsable, hp] at h ⊢
    cases pending : b.pending with
    | none => simp [pending, fail] at h
    | some tag =>
      cases selfClosing with
      | true => simpa [append, pending] using Accepts.close b tag hp pending
      | false => simpa [append, pending] using Accepts.enter b tag hp pending
  | addText content =>
    simp only [apply, addText, whenSettled, whenUsable, hp] at h ⊢
    cases settled : b.pending with
    | some tag => simp [settled, fail] at h
    | none => simpa [settled] using Accepts.addText b content hp settled
  | rawInner inner =>
    simp only [apply, rawInner, whenSettled, whenUsable, hp] at h ⊢
    cases settled : b.pending with
    | some tag => simp [settled, fail] at h
    | none => simpa [settled] using Accepts.rawInner b inner hp settled
  | endTag name =>
    simp only [apply, endTag, whenSettled, whenUsable, hp] at h ⊢
    cases settled : b.pending with
    | some tag => simp [settled, fail] at h
    | none =>
      cases hopened : b.opened with
      | nil => simp [settled, hopened, fail] at h
      | cons top outer =>
        by_cases htop : top = name
        · subst htop
          simpa [append, settled, hopened] using Accepts.endTag b top outer hp settled hopened
        · simp [settled, hopened, htop, fail] at h

@[simp] theorem run_nil (b : MarkupBuilder) : b.run [] = b := rfl

theorem run_cons (b : MarkupBuilder) (op : MarkupOp) (ops : List MarkupOp) :
    b.run (op :: ops) = (b.apply op).2.run ops := rfl

theorem run_cons_of_accepts {b b' : MarkupBuilder} {op : MarkupOp} (h : Accepts b op b')
    (ops : List MarkupOp) : b.run (op :: ops) = b'.run ops := by
  rw [run_cons, apply_of_accepts h]

/-- Attributes with proper names go into the start tag that is unfinished. -/
theorem run_attributeEvents (b : MarkupBuilder) {tag : String} (hp : b.poisoned = false)
    (pending : b.pending = some tag) (attributes : List (String × String))
    (named : Forest.attributesNamed attributes = true) (ops : List MarkupOp) :
    b.run (Forest.attributeEvents attributes ++ ops) =
      (b.append (Forest.attributesMarkup attributes)).run ops := by
  induction attributes generalizing b with
  | nil => simp [Forest.attributeEvents, Forest.attributesMarkup, append]
  | cons a more ih =>
    obtain ⟨name, value⟩ := a
    simp only [Forest.attributesNamed, List.all_cons, Bool.and_eq_true] at named
    refine (run_cons_of_accepts (.addAttribute b tag name value hp pending named.1) _).trans ?_
    refine (ih (b.append _) hp pending named.2).trans ?_
    simp [Forest.attributesMarkup, Forest.escapeAttribute_eq_written, append, String.append_assoc]

theorem run_startTag (b : MarkupBuilder) (hp : b.poisoned = false) (settled : b.pending = none)
    {name : String} (hname : Text.isMarkupName name = true) {attributes : List (String × String)}
    (named : Forest.attributesNamed attributes = true) (ops : List MarkupOp) :
    b.run (.beginTag name :: (Forest.attributeEvents attributes ++ ops)) =
      { b with
        out := b.out ++ "<" ++ name ++ Forest.attributesMarkup attributes
        pending := some name : MarkupBuilder }.run ops := by
  refine (run_cons_of_accepts (.beginTag b name hp settled hname) _).trans ?_
  refine (run_attributeEvents _ ?_ rfl attributes named ops).trans ?_
  · exact hp
  · simp [append, String.append_assoc]

/-- A described forest is written behind what the builder holds, and nothing else changes. -/
theorem run_events (b : MarkupBuilder) (hp : b.poisoned = false) (settled : b.pending = none)
    (f : Forest) (named : f.wellNamed = true) (ops : List MarkupOp) :
    b.run (f.events ++ ops) = (b.append f.markup).run ops := by
  induction f generalizing b ops with
  | empty => simp [Forest.events, Forest.markup, append]
  | text content rest ih =>
    refine (run_cons_of_accepts (.addText b content hp settled) _).trans ?_
    refine (ih (b.append _) hp settled named ops).trans ?_
    simp [Forest.markup, Forest.escapeText_eq_written, append, String.append_assoc]
  | void name attributes rest ih =>
    simp only [Forest.wellNamed, Bool.and_eq_true] at named
    obtain ⟨⟨hname, hattributes⟩, hrest⟩ := named
    simp only [Forest.events, List.cons_append, List.append_assoc]
    rw [run_startTag b hp settled hname hattributes]
    refine (run_cons_of_accepts (.close _ name ?_ rfl) _).trans ?_
    · exact hp
    refine (ih _ ?_ rfl hrest ops).trans ?_
    · exact hp
    simp [Forest.markup, append, String.append_assoc, settled]
  | element name attributes children rest ihc ihr =>
    simp only [Forest.wellNamed, Bool.and_eq_true] at named
    obtain ⟨⟨⟨hname, hattributes⟩, hchildren⟩, hrest⟩ := named
    simp only [Forest.events, List.cons_append, List.append_assoc]
    rw [run_startTag b hp settled hname hattributes]
    refine (run_cons_of_accepts (.enter _ name ?_ rfl) _).trans ?_
    · exact hp
    refine (ihc _ ?_ rfl hchildren _).trans ?_
    · exact hp
    refine (run_cons_of_accepts (.endTag _ name b.opened ?_ rfl rfl) _).trans ?_
    · exact hp
    refine (ihr _ ?_ rfl hrest ops).trans ?_
    · exact hp
    simp [Forest.markup, append, String.append_assoc, settled]
  | fragment inner rest _ ihr =>
    simp only [Forest.wellNamed, Bool.and_eq_true] at named
    refine (run_cons_of_accepts (.rawInner b ⟨inner.markup⟩ hp settled) _).trans ?_
    refine (ihr (b.append _) hp settled named.2 ops).trans ?_
    simp [Forest.markup, append, String.append_assoc]

/-- What is still to come when elements are open: a forest inside the innermost one, then for each
open element its end tag and the forest behind it. -/
structure Rest where
  inside : Forest
  closing : List (String × Forest)

namespace Rest

def closingEvents : List (String × Forest) → List MarkupOp
  | [] => []
  | (name, behind) :: outer => .endTag name :: (behind.events ++ closingEvents outer)

def closingMarkup : List (String × Forest) → String
  | [] => ""
  | (name, behind) :: outer => "</" ++ name ++ ">" ++ behind.markup ++ closingMarkup outer

def events (r : Rest) : List MarkupOp := r.inside.events ++ closingEvents r.closing

def markup (r : Rest) : String := r.inside.markup ++ closingMarkup r.closing

def wellNamed (r : Rest) : Bool := r.inside.wellNamed && r.closing.all (·.2.wellNamed)

/-- The elements that are open, innermost first. -/
def names (r : Rest) : List String := r.closing.map Prod.fst

end Rest

/-- A settled builder with these open elements reaches `out` through `ops`. -/
def Completes (b : MarkupBuilder) (ops : List MarkupOp) (out : String) : Prop :=
  ∃ r : Rest, r.wellNamed = true ∧ r.names = b.opened ∧ ops = r.events ∧ out = b.out ++ r.markup

/-- A builder in the start tag of `tag` reaches `out` through `ops`. -/
def CompletesTag (b : MarkupBuilder) (tag : String) (ops : List MarkupOp) (out : String) : Prop :=
  ∃ (attributes : List (String × String)) (selfClosing : Bool) (r : Rest),
    Forest.attributesNamed attributes = true ∧ r.wellNamed = true ∧
    r.names = (if selfClosing then b.opened else tag :: b.opened) ∧
    ops = Forest.attributeEvents attributes ++ .finishOpenTag selfClosing :: r.events ∧
    out = b.out ++ Forest.attributesMarkup attributes ++ (if selfClosing then "/>" else ">") ++
      r.markup

theorem completes_nil {b : MarkupBuilder} {m : Markup} (h : b.finish = .ok m) :
    b.pending = none ∧ Completes b [] m.text := by
  unfold finish at h
  split at h
  · cases h
  · split at h
    · cases h
    · cases h
    · rename_i settled opened
      cases h
      refine ⟨settled, ⟨.empty, []⟩, rfl, opened.symm, rfl, ?_⟩
      simp [Rest.markup, Rest.closingMarkup, Forest.markup]

theorem Completes.addText {b : MarkupBuilder} {content : String} {ops : List MarkupOp}
    {out : String} (h : Completes (b.append (Text.escapeText content)) ops out) :
    Completes b (.addText content :: ops) out := by
  obtain ⟨⟨inside, closing⟩, named, opened, rfl, rfl⟩ := h
  refine ⟨⟨.text content inside, closing⟩, named, opened, rfl, ?_⟩
  simp [append, Rest.markup, Forest.markup, Forest.escapeText_eq_written, String.append_assoc]

theorem Completes.rawInner {b : MarkupBuilder} {inner : Forest} (hinner : inner.wellNamed = true)
    {ops : List MarkupOp} {out : String} (h : Completes (b.append inner.markup) ops out) :
    Completes b (.rawInner ⟨inner.markup⟩ :: ops) out := by
  obtain ⟨⟨inside, closing⟩, named, opened, rfl, rfl⟩ := h
  refine ⟨⟨.fragment inner inside, closing⟩, ?_, opened, rfl, ?_⟩
  · simpa [Rest.wellNamed, Forest.wellNamed, hinner] using named
  · simp [append, Rest.markup, Forest.markup, String.append_assoc]

theorem Completes.endTag {b : MarkupBuilder} {name : String} {outer : List String}
    (top : b.opened = name :: outer) {ops : List MarkupOp} {out : String}
    (h : Completes { b with out := b.out ++ ("</" ++ name ++ ">"), opened := outer } ops out) :
    Completes b (.endTag name :: ops) out := by
  obtain ⟨⟨inside, closing⟩, named, opened, rfl, rfl⟩ := h
  refine ⟨⟨.empty, (name, inside) :: closing⟩, ?_, ?_, rfl, ?_⟩
  · simpa [Rest.wellNamed, Forest.wellNamed] using named
  · rw [top]; exact congrArg (name :: ·) opened
  · simp [Rest.markup, Rest.closingMarkup, Forest.markup, String.append_assoc]

theorem CompletesTag.close {b : MarkupBuilder} {tag : String} {ops : List MarkupOp} {out : String}
    (h : Completes { b with out := b.out ++ "/>", pending := none } ops out) :
    CompletesTag b tag (.finishOpenTag true :: ops) out := by
  obtain ⟨r, named, opened, rfl, rfl⟩ := h
  exact ⟨[], true, r, rfl, named, opened, rfl, by simp [Forest.attributesMarkup]⟩

theorem CompletesTag.enter {b : MarkupBuilder} {tag : String} {ops : List MarkupOp} {out : String}
    (h : Completes { b with out := b.out ++ ">", pending := none, opened := tag :: b.opened }
      ops out) :
    CompletesTag b tag (.finishOpenTag false :: ops) out := by
  obtain ⟨r, named, opened, rfl, rfl⟩ := h
  exact ⟨[], false, r, rfl, named, opened, rfl, by simp [Forest.attributesMarkup]⟩

theorem CompletesTag.addAttribute {b : MarkupBuilder} {tag name value : String}
    (hname : Text.isMarkupName name = true) {ops : List MarkupOp} {out : String}
    (h : CompletesTag
      (b.append (" " ++ name ++ "=\"" ++ Text.escapeAttribute value ++ "\"")) tag ops out) :
    CompletesTag b tag (.addAttribute name value :: ops) out := by
  obtain ⟨attributes, selfClosing, r, hattributes, named, opened, rfl, rfl⟩ := h
  refine ⟨(name, value) :: attributes, selfClosing, r, ?_, named, opened, rfl, ?_⟩
  · simpa [Forest.attributesNamed, hname] using hattributes
  · simp [append, Forest.attributesMarkup, Forest.escapeAttribute_eq_written, String.append_assoc]

theorem Completes.beginTag {b : MarkupBuilder} {name : String}
    (hname : Text.isMarkupName name = true) {ops : List MarkupOp} {out : String}
    (h : CompletesTag { b with out := b.out ++ ("<" ++ name), pending := some name } name ops out) :
    Completes b (.beginTag name :: ops) out := by
  obtain ⟨attributes, selfClosing, ⟨inside, closing⟩, hattributes, named, opened, rfl, rfl⟩ := h
  cases selfClosing with
  | true =>
    refine ⟨⟨.void name attributes inside, closing⟩, ?_, opened, ?_, ?_⟩
    · simpa [Rest.wellNamed, Forest.wellNamed, hname, hattributes] using named
    · simp [Rest.events, Forest.events]
    · simp [Rest.markup, Forest.markup, String.append_assoc]
  | false =>
    -- The innermost end tag to come is the one of this element.
    cases closing with
    | nil => simp [Rest.names] at opened
    | cons first outer =>
      obtain ⟨last, behind⟩ := first
      simp only [Rest.names, List.map_cons, Bool.false_eq_true, if_false, List.cons.injEq] at opened
      obtain ⟨rfl, hopened⟩ := opened
      refine ⟨⟨.element last attributes inside behind, outer⟩, ?_, hopened, ?_, ?_⟩
      · simp only [Rest.wellNamed, List.all_cons, Bool.and_eq_true] at named
        simp [Rest.wellNamed, Forest.wellNamed, hname, hattributes, named.1, named.2.1]
        simpa using named.2.2
      · simp [Rest.events, Rest.closingEvents, Forest.events]
      · simp [Rest.markup, Rest.closingMarkup, Forest.markup, String.append_assoc]

theorem run_of_poisoned {b : MarkupBuilder} (h : b.poisoned = true) (ops : List MarkupOp) :
    b.run ops = b := by
  induction ops with
  | nil => rfl
  | cons op ops ih => rw [run_cons, apply_of_poisoned h, ih]

theorem poisoned_of_finish {b : MarkupBuilder} {m : Markup} (h : b.finish = .ok m) :
    b.poisoned = false := by
  unfold finish at h
  split at h
  · cases h
  · rename_i hp; simpa using hp

/-- Every run that ends in a release goes through the events of a forest. The induction is on the
operations that are left, for every state the builder can be in. -/
theorem completes_of_finish (ops : List MarkupOp)
    (fragments : ∀ inner, MarkupOp.rawInner inner ∈ ops →
      ∃ f : Forest, f.wellNamed = true ∧ inner = ⟨f.markup⟩)
    (b : MarkupBuilder) (m : Markup) (h : (b.run ops).finish = .ok m) :
    (b.pending = none → Completes b ops m.text) ∧
      ∀ tag, b.pending = some tag → CompletesTag b tag ops m.text := by
  induction ops generalizing b with
  | nil =>
    rw [run_nil] at h
    obtain ⟨settled, hc⟩ := completes_nil h
    exact ⟨fun _ => hc, fun tag ht => by simp [settled] at ht⟩
  | cons op ops ih =>
    have usable : (b.apply op).2.poisoned = false := by
      by_contra hb
      rw [run_cons, run_of_poisoned (by simpa using hb)] at h
      exact hb (poisoned_of_finish h)
    have rest := ih (fun inner hi => fragments inner (List.mem_cons_of_mem _ hi)) (b.apply op).2 h
    have step := accepts_apply usable
    generalize (b.apply op).2 = b' at rest step
    cases step with
    | beginTag name hp settled named =>
      exact ⟨fun _ => .beginTag named (rest.2 name rfl), fun tag ht => by simp [settled] at ht⟩
    | addAttribute tag name value hp pending named =>
      refine ⟨fun hn => by simp [pending] at hn, fun tag' ht => ?_⟩
      exact .addAttribute named (rest.2 tag' ht)
    | close tag hp pending =>
      exact ⟨fun hn => by simp [pending] at hn, fun tag' _ => .close (rest.1 rfl)⟩
    | enter tag hp pending =>
      refine ⟨fun hn => by simp [pending] at hn, fun tag' ht => ?_⟩
      obtain rfl : tag = tag' := Option.some.inj (pending.symm.trans ht)
      exact .enter (rest.1 rfl)
    | addText content hp settled =>
      exact ⟨fun _ => .addText (rest.1 settled), fun tag ht => by simp [settled] at ht⟩
    | rawInner inner hp settled =>
      obtain ⟨f, hf, rfl⟩ := fragments inner (List.mem_cons_self ..)
      exact ⟨fun _ => .rawInner hf (rest.1 settled), fun tag ht => by simp [settled] at ht⟩
    | endTag name outer hp settled top =>
      exact ⟨fun _ => .endTag top (rest.1 settled), fun tag ht => by simp [settled] at ht⟩

/-- A fresh builder releases `m` exactly if it was told a forest, and `m` is that forest's text. -/
theorem finish_run_new_iff (token : Token) (ops : List MarkupOp)
    (fragments : ∀ inner, MarkupOp.rawInner inner ∈ ops →
      ∃ f : Forest, f.wellNamed = true ∧ inner = ⟨f.markup⟩) (m : Markup) :
    ((new token).run ops).finish = .ok m ↔
      ∃ f : Forest, f.wellNamed = true ∧ ops = f.events ∧ m = ⟨f.markup⟩ := by
  constructor
  · intro h
    obtain ⟨⟨inside, closing⟩, named, opened, rfl, hm⟩ :=
      (completes_of_finish ops fragments (new token) m h).1 rfl
    obtain rfl : closing = [] := List.map_eq_nil_iff.mp opened
    refine ⟨inside, ?_, ?_, ?_⟩
    · simpa [Rest.wellNamed] using named
    · simp [Rest.events, Rest.closingEvents]
    · cases m
      simpa [Rest.markup, Rest.closingMarkup, new] using hm
  · rintro ⟨f, named, rfl, rfl⟩
    have h := run_events (new token) rfl rfl f named []
    rw [List.append_nil, run_nil] at h
    rw [h]
    simp [finish, append, new]

end MarkupBuilder

/-- Whatever a builder releases is the text of some forest, fragments included. -/
theorem Released.exists_forest {m : Markup} (h : Released m) :
    ∃ f : Forest, f.wellNamed = true ∧ m = ⟨f.markup⟩ := by
  induction h with
  | finish token ops m _ finished ih =>
    obtain ⟨f, named, _, hm⟩ := (MarkupBuilder.finish_run_new_iff token ops ih m).mp finished
    exact ⟨f, named, hm⟩

/-- A builder that was only given released fragments, and otherwise any operations in any order,
releases markup exactly when the operations describe a forest with proper names. The markup is then
the written form of that forest; otherwise finishing is a structural violation. -/
theorem release_iff_forest (token : Token) (ops : List MarkupOp)
    (fragments : ∀ inner, MarkupOp.rawInner inner ∈ ops → Released inner) :
    (∀ m, ((MarkupBuilder.new token).run ops).finish = .ok m ↔
      ∃ f : Forest, f.wellNamed = true ∧ ops = f.events ∧ m = ⟨f.markup⟩) ∧
    ((¬ ∃ f : Forest, f.wellNamed = true ∧ ops = f.events) →
      ∃ v, ((MarkupBuilder.new token).run ops).finish = .error v) := by
  have released := MarkupBuilder.finish_run_new_iff token ops fun inner hi =>
    (fragments inner hi).exists_forest
  refine ⟨released, fun none => ?_⟩
  cases hf : ((MarkupBuilder.new token).run ops).finish with
  | error v => exact ⟨v, rfl⟩
  | ok m =>
    obtain ⟨f, named, hops, _⟩ := (released m).mp hf
    exact absurd ⟨f, named, hops⟩ none

/-- Operations that need every part of the written form: text and an attribute value with characters
to escape, a spliced fragment and a void element. -/
theorem release_iff_forest_of_escaped_and_spliced :
    Released ⟨"<li>1 &lt; 2</li>"⟩ ∧
      ((MarkupBuilder.new ⟨"guest", .ofIndex 0⟩).run
        [.beginTag "ul", .addAttribute "title" "'a' & \"b\"", .finishOpenTag false,
          .addText "<a> & \"b\"", .rawInner ⟨"<li>1 &lt; 2</li>"⟩, .beginTag "br",
          .finishOpenTag true, .endTag "ul"]).finish =
        .ok ⟨"<ul title=\"&#39;a&#39; &amp; &quot;b&quot;\">&lt;a&gt; &amp; \"b\"" ++
          "<li>1 &lt; 2</li><br/></ul>"⟩ := by
  have item : Released ⟨"<li>1 &lt; 2</li>"⟩ :=
    .finish ⟨"guest", .ofIndex 0⟩
      [.beginTag "li", .finishOpenTag false, .addText "1 < 2", .endTag "li"] _
      (by simp) (by decide +kernel)
  refine ⟨item, ((release_iff_forest _ _ ?_).1 _).mpr
    ⟨.element "ul" [("title", "'a' & \"b\"")] (.text "<a> & \"b\""
      (.fragment (.element "li" [] (.text "1 < 2" .empty) .empty) (.void "br" [] .empty))) .empty,
    by decide +kernel, rfl, by decide +kernel⟩⟩
  intro inner hi
  obtain rfl : inner = ⟨"<li>1 &lt; 2</li>"⟩ := by simpa using hi
  exact item

end Confinement.Emission
