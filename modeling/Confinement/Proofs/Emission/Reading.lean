import Confinement.Proofs.Emission.Forest

/-!
# Reading markup

A reader of markup that knows nothing of builders. It takes the text apart into characters, some
written as entities, and tags, and puts the pieces together from the end. On markup that a builder
has released it recovers the forest that the builder was told, with fragments in their place,
adjacent text as one and no empty text. So released markup cannot be read as anything else than what
was said, whatever the texts, attribute values and fragments were.
-/
namespace Confinement.Emission

namespace Forest

/-- Text in front of a forest, as one with text that the forest starts with. -/
def prependText (content : String) (f : Forest) : Forest :=
  if content = "" then f
  else match f with
    | .text more rest => .text (content ++ more) rest
    | f => .text content f

/-- The trees of a forest in front of others, with fragments in their place and text joined. -/
def onto : Forest → Forest → Forest
  | .empty, behind => behind
  | .text content rest, behind => prependText content (rest.onto behind)
  | .void name attributes rest, behind => .void name attributes (rest.onto behind)
  | .element name attributes children rest, behind =>
    .element name attributes (children.onto .empty) (rest.onto behind)
  | .fragment inner rest, behind => inner.onto (rest.onto behind)

/-- The forest with its fragments in their place, adjacent text as one and no empty text. -/
def normal (f : Forest) : Forest := f.onto .empty

def startsWithText : Forest → Bool
  | .text _ _ => true
  | _ => false

/-- Whether no text is empty or stands in front of other text, and no fragment is left. -/
def isNormal : Forest → Bool
  | .empty => true
  | .text content rest => content != "" && !rest.startsWithText && rest.isNormal
  | .void _ _ rest => rest.isNormal
  | .element _ _ children rest => children.isNormal && rest.isNormal
  | .fragment _ _ => false

theorem prependText_empty (f : Forest) : prependText "" f = f := if_pos rfl

theorem prependText_append (a b : String) (f : Forest) :
    prependText (a ++ b) f = prependText a (prependText b f) := by
  by_cases ha : a = ""
  · rw [ha, String.empty_append, prependText_empty]
  by_cases hb : b = ""
  · rw [hb, String.append_empty, prependText_empty]
  have hab : a ++ b ≠ "" := by simp [ha, hb]
  cases f <;> simp [prependText, ha, hb, hab, String.append_assoc]

theorem markup_prependText (content : String) (f : Forest) :
    (prependText content f).markup = written textEntities content ++ f.markup := by
  by_cases h : content = ""
  · rw [h, prependText_empty]
    simp [written]
  · cases f <;> simp [prependText, h, markup, written, String.append_assoc]

theorem isNormal_prependText (content : String) {f : Forest} (h : f.isNormal = true) :
    (prependText content f).isNormal = true := by
  by_cases hc : content = ""
  · rwa [hc, prependText_empty]
  · cases f <;> simp_all [prependText, isNormal, startsWithText]

theorem isNormal_onto (f : Forest) {behind : Forest} (h : behind.isNormal = true) :
    (f.onto behind).isNormal = true := by
  induction f generalizing behind with
  | empty => exact h
  | text content rest ih => exact isNormal_prependText content (ih h)
  | void name attributes rest ih => exact ih h
  | element name attributes children rest ihc ihr =>
    simp only [onto, isNormal, Bool.and_eq_true]
    exact ⟨ihc rfl, ihr h⟩
  | fragment inner rest ihi ihr => exact ihi (ihr h)

/-- A forest in normal form stays as it is. -/
theorem normal_of_isNormal {f : Forest} (h : f.isNormal = true) : f.normal = f := by
  unfold normal
  induction f with
  | empty => rfl
  | text content rest ih =>
    simp only [isNormal, Bool.and_eq_true, bne_iff_ne] at h
    rw [onto, ih h.2]
    cases rest <;> simp_all [prependText, startsWithText]
  | void name attributes rest ih => rw [onto, ih h]
  | element name attributes children rest ihc ihr =>
    simp only [isNormal, Bool.and_eq_true] at h
    rw [onto, ihc h.1, ihr h.2]
  | fragment inner rest _ _ => cases h

/-- Only what the markup does not show is lost. -/
theorem markup_onto (f behind : Forest) : (f.onto behind).markup = f.markup ++ behind.markup := by
  induction f generalizing behind with
  | empty => simp [onto, markup]
  | text content rest ih => simp [onto, markup, markup_prependText, ih, String.append_assoc]
  | void name attributes rest ih => simp [onto, markup, ih, String.append_assoc]
  | element name attributes children rest ihc ihr =>
    simp [onto, markup, ihc, ihr, String.append_assoc]
  | fragment inner rest ihi ihr => simp [onto, markup, ihi, ihr, String.append_assoc]

theorem markup_normal (f : Forest) : f.normal.markup = f.markup := by
  rw [normal, markup_onto, markup, String.append_empty]

end Forest

namespace Reading

/-- Takes what `p` takes, again and again, as long as it takes something. -/
def many {α : Type} (p : List Char → Option (α × List Char)) (s : List Char) :
    List α × List Char :=
  match p s with
  | none => ([], s)
  | some (a, rest) =>
    if _h : rest.length < s.length then
      let more := many p rest
      (a :: more.1, more.2)
    else ([], s)
termination_by s.length

/-- The entities by which characters are written that would otherwise be taken for markup. -/
def entity : List Char → Option (Char × List Char)
  | 'a' :: 'm' :: 'p' :: ';' :: rest => some ('&', rest)
  | 'l' :: 't' :: ';' :: rest => some ('<', rest)
  | 'g' :: 't' :: ';' :: rest => some ('>', rest)
  | 'q' :: 'u' :: 'o' :: 't' :: ';' :: rest => some ('\x22', rest)
  | '#' :: '3' :: '9' :: ';' :: rest => some ('\x27', rest)
  | _ => none

/-- A character of text; `<` and `&` do not stand for themselves. -/
def character : List Char → Option (Char × List Char)
  | [] => none
  | c :: rest =>
    if c = '&' then entity rest
    else if c = '<' then none
    else some (c, rest)

/-- A character of an attribute value, which ends at a double quote. -/
def valueCharacter (s : List Char) : Option (Char × List Char) :=
  if s.head? = some '\x22' then none else character s

def isNameChar (c : Char) : Bool := Text.isIdentChar c || c == ':'

def name (s : List Char) : Option (String × List Char) :=
  let run := String.ofList (s.takeWhile isNameChar)
  if Text.isMarkupName run then some (run, s.dropWhile isNameChar) else none

/-- An attribute behind a space, with its value in double quotes. -/
def quotedAttribute : List Char → Option ((String × String) × List Char)
  | ' ' :: s =>
    match name s with
    | some (n, '=' :: '\x22' :: after) =>
      match many valueCharacter after with
      | (value, '\x22' :: rest) => some ((n, String.ofList value), rest)
      | _ => none
    | _ => none
  | _ => none

/-- A piece of markup: a character of text or a tag. -/
inductive Piece where
  | char (c : Char)
  | start (name : String) (attributes : List (String × String))
  | void (name : String) (attributes : List (String × String))
  | stop (name : String)

/-- The rest of a start tag, behind its opening bracket. -/
def startTag (s : List Char) : Option (Piece × List Char) :=
  match name s with
  | some (n, after) =>
    match many quotedAttribute after with
    | (attributes, '/' :: '>' :: rest) => some (.void n attributes, rest)
    | (attributes, '>' :: rest) => some (.start n attributes, rest)
    | _ => none
  | none => none

/-- The rest of an end tag, behind its slash. -/
def endTag (s : List Char) : Option (Piece × List Char) :=
  match name s with
  | some (n, '>' :: rest) => some (.stop n, rest)
  | _ => none

def piece : List Char → Option (Piece × List Char)
  | '<' :: '/' :: s => endTag s
  | '<' :: s => startTag s
  | s => (character s).map fun p => (.char p.1, p.2)

open MarkupBuilder (Rest)

/-- Puts a piece in front of what stands behind it. A start tag goes with the end tag that comes
first. -/
def place : Piece → Rest → Option Rest
  | .char c, r => some { r with inside := r.inside.prependText (String.singleton c) }
  | .void name attributes, r => some { r with inside := .void name attributes r.inside }
  | .stop name, r => some ⟨.empty, (name, r.inside) :: r.closing⟩
  | .start name attributes, ⟨inside, (last, behind) :: outer⟩ =>
    if name = last then some ⟨.element name attributes inside behind, outer⟩ else none
  | .start _ _, ⟨_, []⟩ => none

def assemble (ps : List Piece) : Option Rest :=
  ps.foldr (fun p r => r.bind (place p)) (some ⟨.empty, []⟩)

end Reading

/-- The forest that markup shows, if every tag has its counterpart. -/
def Markup.read (m : Markup) : Option Forest :=
  match Reading.many Reading.piece m.text.toList with
  | (ps, []) =>
    match Reading.assemble ps with
    | some ⟨f, []⟩ => some f
    | _ => none
  | _ => none

namespace Reading

/-- Reading again and again takes exactly `u` off the front of any text, as the items `as`. -/
def Reads {α : Type} (p : List Char → Option (α × List Char)) (as : List α) (u : List Char) :
    Prop :=
  ∀ t, many p (u ++ t) = (as ++ (many p t).1, (many p t).2)

section
variable {α : Type} {p : List Char → Option (α × List Char)}

theorem many_of_eq_none {s : List Char} (h : p s = none) : many p s = ([], s) := by
  rw [many, h]

theorem Reads.nil : Reads p [] [] := fun _ => rfl

theorem Reads.append {as bs : List α} {u v : List Char} (hu : Reads p as u) (hv : Reads p bs v) :
    Reads p (as ++ bs) (u ++ v) := by
  intro t
  rw [List.append_assoc, hu, hv]
  simp

theorem Reads.single {a : α} {u : List Char} (hu : u ≠ []) (h : ∀ t, p (u ++ t) = some (a, t)) :
    Reads p [a] u := by
  intro t
  rw [many, h]
  simp [hu]

/-- Items that are read one by one are read in a row. -/
theorem Reads.map {β : Type} {item : β → α} {text : β → List Char} (hne : ∀ b, text b ≠ [])
    (h : ∀ b t, p (text b ++ t) = some (item b, t)) (bs : List β) :
    Reads p (bs.map item) (bs.flatMap text) := by
  induction bs with
  | nil => exact .nil
  | cons b bs ih => exact (Reads.single (hne b) (h b)).append ih

end

/-- An escaped character starts with `&` or stands for itself. -/
theorem escapeTextChar_cases (c : Char) :
    (∃ more, Text.escapeTextChar c = '&' :: more) ∨
      Text.escapeTextChar c = [c] ∧ c ≠ '&' ∧ c ≠ '<' := by
  unfold Text.escapeTextChar
  split
  · exact .inl ⟨_, rfl⟩
  · exact .inl ⟨_, rfl⟩
  · exact .inl ⟨_, rfl⟩
  · rename_i hamp hlt _
    exact .inr ⟨rfl, hamp, hlt⟩

theorem escapeTextChar_ne_nil (c : Char) : Text.escapeTextChar c ≠ [] := by
  rcases escapeTextChar_cases c with ⟨more, h⟩ | ⟨h, -⟩ <;> simp [h]

theorem character_of_ne {c : Char} (hamp : c ≠ '&') (hlt : c ≠ '<') (t : List Char) :
    character (c :: t) = some (c, t) := by
  rw [character, if_neg hamp, if_neg hlt]

theorem character_escapeTextChar (c : Char) (t : List Char) :
    character (Text.escapeTextChar c ++ t) = some (c, t) := by
  unfold Text.escapeTextChar
  split
  · rfl
  · rfl
  · rfl
  · rename_i hamp hlt _
    exact character_of_ne hamp hlt t

theorem piece_escapeTextChar (c : Char) (t : List Char) :
    piece (Text.escapeTextChar c ++ t) = some (.char c, t) := by
  have read := character_escapeTextChar c t
  have noTag : (Text.escapeTextChar c ++ t).head? ≠ some '<' := by
    rcases escapeTextChar_cases c with ⟨more, h⟩ | ⟨h, -, hlt⟩
    · simp [h]
    · simpa [h] using hlt
  unfold piece
  split
  · rename_i s heq
    rw [heq] at noTag
    exact absurd rfl noTag
  · rename_i s _ heq
    rw [heq] at noTag
    exact absurd rfl noTag
  · rw [read]
    rfl

theorem escapeAttributeChar_ne_nil (c : Char) : Text.escapeAttributeChar c ≠ [] := by
  unfold Text.escapeAttributeChar
  split
  · simp
  · simp
  · exact escapeTextChar_ne_nil c

theorem valueCharacter_escapeAttributeChar (c : Char) (t : List Char) :
    valueCharacter (Text.escapeAttributeChar c ++ t) = some (c, t) := by
  unfold Text.escapeAttributeChar
  split
  · rfl
  · rfl
  · rename_i hquote _
    have open_ : (Text.escapeTextChar c ++ t).head? ≠ some '\x22' := by
      rcases escapeTextChar_cases c with ⟨more, h⟩ | ⟨h, -⟩
      · simp [h]
      · simpa [h] using hquote
    rw [valueCharacter, if_neg open_, character_escapeTextChar]

theorem exists_head_of_isMarkupName {n : String} (named : Text.isMarkupName n = true) :
    ∃ c more, n.toList = c :: more ∧ c.isAlpha = true ∧ ∀ d ∈ more, isNameChar d = true := by
  unfold Text.isMarkupName at named
  cases hn : n.toList with
  | nil => simp [hn, Text.isMarkupNameChars] at named
  | cons c more =>
    rw [hn] at named
    simp only [Text.isMarkupNameChars, Bool.and_eq_true, List.all_eq_true] at named
    exact ⟨c, more, rfl, named⟩

theorem isNameChar_of_isMarkupName {n : String} (named : Text.isMarkupName n = true) :
    ∀ c ∈ n.toList, isNameChar c = true := by
  obtain ⟨c, more, hn, halpha, hmore⟩ := exists_head_of_isMarkupName named
  rw [hn]
  refine List.forall_mem_cons.mpr ⟨?_, hmore⟩
  simp [isNameChar, Text.isIdentChar, Char.isAlphanum, halpha]

theorem name_append {n : String} (named : Text.isMarkupName n = true) {t : List Char}
    (ht : ∀ c, t.head? = some c → isNameChar c = false) : name (n.toList ++ t) = some (n, t) := by
  have chars := isNameChar_of_isMarkupName named
  have stop : t.takeWhile isNameChar = [] ∧ t.dropWhile isNameChar = t := by
    cases t with
    | nil => simp
    | cons c _ => simp [ht c rfl]
  simp [name, List.takeWhile_append_of_pos chars, List.dropWhile_append_of_pos chars, stop, named]

theorem many_valueCharacter (value : String) (t : List Char) :
    many valueCharacter ((Text.escapeAttribute value).toList ++ '\x22' :: t) =
      (value.toList, '\x22' :: t) := by
  have reads : Reads valueCharacter (value.toList.map id) (Text.escapeAttribute value).toList := by
    rw [Text.escapeAttribute, String.toList_ofList]
    exact .map escapeAttributeChar_ne_nil valueCharacter_escapeAttributeChar value.toList
  have stop : many valueCharacter ('\x22' :: t) = ([], '\x22' :: t) := many_of_eq_none rfl
  rw [reads, stop, List.map_id, List.append_nil]

theorem quotedAttribute_append {n : String} (named : Text.isMarkupName n = true) (value : String)
    (t : List Char) :
    quotedAttribute (' ' :: (n.toList ++
      '=' :: '\x22' :: ((Text.escapeAttribute value).toList ++ '\x22' :: t))) =
        some ((n, value), t) := by
  have hname := name_append named
    (t := '=' :: '\x22' :: ((Text.escapeAttribute value).toList ++ '\x22' :: t))
    (by simp; decide)
  simp only [quotedAttribute, hname, many_valueCharacter, String.ofList_toList]

theorem reads_attributes (attributes : List (String × String))
    (named : Forest.attributesNamed attributes = true) :
    Reads quotedAttribute attributes (Forest.attributesMarkup attributes).toList := by
  induction attributes with
  | nil => exact .nil
  | cons a more ih =>
    obtain ⟨n, value⟩ := a
    simp only [Forest.attributesNamed, List.all_cons, Bool.and_eq_true] at named
    have first : Reads quotedAttribute [(n, value)]
        (" " ++ n ++ "=\"" ++ Text.escapeAttribute value ++ "\"").toList := by
      refine .single (by simp) fun t => ?_
      have read := quotedAttribute_append named.1 value t
      simpa using read
    have both := first.append (ih named.2)
    rwa [Forest.escapeAttribute_eq_written, ← String.toList_append] at both

/-- The attributes of a start tag end where no space follows. -/
theorem many_quotedAttribute {attributes : List (String × String)}
    (named : Forest.attributesNamed attributes = true) {c : Char} (hc : c ≠ ' ') (t : List Char) :
    many quotedAttribute ((Forest.attributesMarkup attributes).toList ++ c :: t) =
      (attributes, c :: t) := by
  have stop : many quotedAttribute (c :: t) = ([], c :: t) := by
    refine many_of_eq_none ?_
    unfold quotedAttribute
    split
    · rename_i heq
      exact absurd (List.cons.inj heq).1 hc
    · rfl
  rw [reads_attributes attributes named, stop, List.append_nil]

/-- The name of a start tag ends where its attributes start or the tag ends. -/
theorem name_startTag {n : String} (hname : Text.isMarkupName n = true)
    (attributes : List (String × String)) {c : Char} (hc : isNameChar c = false) (t : List Char) :
    name (n.toList ++ ((Forest.attributesMarkup attributes).toList ++ c :: t)) =
      some (n, (Forest.attributesMarkup attributes).toList ++ c :: t) := by
  refine name_append hname fun d hd => ?_
  cases attributes with
  | nil =>
    obtain rfl : c = d := by simpa [Forest.attributesMarkup] using hd
    exact hc
  | cons a more =>
    obtain rfl : ' ' = d := by simpa [Forest.attributesMarkup] using hd
    decide

theorem piece_startTag {n : String} (hname : Text.isMarkupName n = true) (s : List Char) :
    piece ('<' :: (n.toList ++ s)) = startTag (n.toList ++ s) := by
  obtain ⟨c, more, hn, halpha, -⟩ := exists_head_of_isMarkupName hname
  have hslash : c ≠ '/' := by rintro rfl; simp at halpha
  rw [hn, List.cons_append]
  unfold piece
  split
  · rename_i heq
    exact absurd (List.cons.inj (List.cons.inj heq).2).1 hslash
  · rename_i heq
    rw [← (List.cons.inj heq).2]
  · rename_i hopen
    exact absurd rfl (hopen _)

theorem piece_void {n : String} (hname : Text.isMarkupName n = true)
    {attributes : List (String × String)} (hattributes : Forest.attributesNamed attributes = true)
    (t : List Char) :
    piece ('<' :: (n.toList ++ ((Forest.attributesMarkup attributes).toList ++ '/' :: '>' :: t))) =
      some (.void n attributes, t) := by
  have name := name_startTag hname attributes (c := '/') (by decide) ('>' :: t)
  have read := many_quotedAttribute hattributes (c := '/') (by decide) ('>' :: t)
  rw [piece_startTag hname]
  simp only [startTag, name, read]

theorem piece_start {n : String} (hname : Text.isMarkupName n = true)
    {attributes : List (String × String)} (hattributes : Forest.attributesNamed attributes = true)
    (t : List Char) :
    piece ('<' :: (n.toList ++ ((Forest.attributesMarkup attributes).toList ++ '>' :: t))) =
      some (.start n attributes, t) := by
  have name := name_startTag hname attributes (c := '>') (by decide) t
  have read := many_quotedAttribute hattributes (c := '>') (by decide) t
  rw [piece_startTag hname]
  simp only [startTag, name, read]

theorem piece_stop {n : String} (hname : Text.isMarkupName n = true) (t : List Char) :
    piece ('<' :: '/' :: (n.toList ++ '>' :: t)) = some (.stop n, t) := by
  have name := name_append hname (t := '>' :: t) (by simp; decide)
  simp only [piece, endTag, name]

/-- The pieces that the markup of a forest consists of. -/
def pieces : Forest → List Piece
  | .empty => []
  | .text content rest => content.toList.map .char ++ pieces rest
  | .void name attributes rest => .void name attributes :: pieces rest
  | .element name attributes children rest =>
    .start name attributes :: (pieces children ++ .stop name :: pieces rest)
  | .fragment inner rest => pieces inner ++ pieces rest

theorem reads_markup (f : Forest) (named : f.wellNamed = true) :
    Reads piece (pieces f) f.markup.toList := by
  induction f with
  | empty => exact .nil
  | text content rest ih =>
    have text : Reads piece (content.toList.map .char) (Text.escapeText content).toList := by
      rw [Text.escapeText, String.toList_ofList]
      exact .map escapeTextChar_ne_nil piece_escapeTextChar content.toList
    have both := text.append (ih named)
    rwa [Forest.escapeText_eq_written, ← String.toList_append] at both
  | void name attributes rest ih =>
    simp only [Forest.wellNamed, Bool.and_eq_true] at named
    obtain ⟨⟨hname, hattributes⟩, hrest⟩ := named
    have tag : Reads piece [.void name attributes]
        ("<" ++ name ++ Forest.attributesMarkup attributes ++ "/>").toList :=
      .single (by simp) fun t => by simpa using piece_void hname hattributes t
    have both := tag.append (ih hrest)
    rwa [← String.toList_append] at both
  | element name attributes children rest ihc ihr =>
    simp only [Forest.wellNamed, Bool.and_eq_true] at named
    obtain ⟨⟨⟨hname, hattributes⟩, hchildren⟩, hrest⟩ := named
    have open_ : Reads piece [.start name attributes]
        ("<" ++ name ++ Forest.attributesMarkup attributes ++ ">").toList :=
      .single (by simp) fun t => by simpa using piece_start hname hattributes t
    have close : Reads piece [.stop name] ("</" ++ name ++ ">").toList :=
      .single (by simp) fun t => by simpa using piece_stop hname t
    have all := open_.append ((ihc hchildren).append (close.append (ihr hrest)))
    simpa [pieces, Forest.markup] using all
  | fragment inner rest ihi ihr =>
    simp only [Forest.wellNamed, Bool.and_eq_true] at named
    have both := (ihi named.1).append (ihr named.2)
    rwa [← String.toList_append] at both

theorem assemble_cons (p : Piece) (ps : List Piece) :
    assemble (p :: ps) = (assemble ps).bind (place p) := rfl

theorem assemble_chars (cs : List Char) (ps : List Piece) :
    assemble (cs.map .char ++ ps) = (assemble ps).map fun r =>
      { r with inside := r.inside.prependText (String.ofList cs) } := by
  induction cs with
  | nil => simp [Forest.prependText_empty]
  | cons c cs ih =>
    rw [List.map_cons, List.cons_append, assemble_cons, ih]
    cases assemble ps with
    | none => rfl
    | some r => simp [place, Forest.prependText_append]

/-- The pieces of a forest put it in front of what stands behind it. -/
theorem assemble_pieces (f : Forest) (ps : List Piece) :
    assemble (pieces f ++ ps) = (assemble ps).map fun r =>
      { r with inside := f.onto r.inside } := by
  induction f generalizing ps with
  | empty => simp [pieces, Forest.onto]
  | text content rest ih =>
    rw [pieces, List.append_assoc, assemble_chars, ih]
    simp [Function.comp_def, Forest.onto]
  | void name attributes rest ih =>
    rw [pieces, List.cons_append, assemble_cons, ih]
    cases assemble ps <;> rfl
  | element name attributes children rest ihc ihr =>
    rw [pieces, List.cons_append, List.append_assoc, assemble_cons, ihc, List.cons_append,
      assemble_cons, ihr]
    cases assemble ps with
    | none => rfl
    | some r => simp [place, Forest.onto]
  | fragment inner rest ihi ihr =>
    rw [pieces, List.append_assoc, ihi, ihr]
    simp [Function.comp_def, Forest.onto]

end Reading

/-- Reading the markup of a forest recovers the forest. -/
theorem Forest.read_markup {f : Forest} (named : f.wellNamed = true) :
    Markup.read ⟨f.markup⟩ = some f.normal := by
  have pieces : Reading.many Reading.piece f.markup.toList = (Reading.pieces f, []) := by
    have reads := Reading.reads_markup f named []
    have nothing : Reading.many Reading.piece [] = ([], []) := Reading.many_of_eq_none rfl
    rwa [nothing, List.append_nil, List.append_nil] at reads
  have whole : Reading.assemble (Reading.pieces f) = some ⟨f.normal, []⟩ := by
    have put := Reading.assemble_pieces f []
    rwa [List.append_nil] at put
  simp only [Markup.read, pieces, whole]

/-- What a builder releases that was told a forest. -/
theorem MarkupBuilder.eq_markup_of_finish {token : Token} {m : Markup} {f : Forest}
    (fragments : ∀ inner, MarkupOp.rawInner inner ∈ f.events → Released inner)
    (finished : ((new token).run f.events).finish = .ok m) (named : f.wellNamed = true) :
    m = ⟨f.markup⟩ := by
  have told := (finish_run_new_iff token f.events
    (fun inner hi => (fragments inner hi).exists_forest) ⟨f.markup⟩).mpr ⟨f, named, rfl, rfl⟩
  exact Except.ok.inj (finished.symm.trans told)

/-- What a builder has released is read as the forest that it was told, in normal form, and that
forest has the released markup. So the same markup is never released for two different forests. -/
theorem released_markup_recovers_forest {token : Token} {ops : List MarkupOp} {m : Markup}
    (fragments : ∀ inner, MarkupOp.rawInner inner ∈ ops → Released inner)
    (finished : ((MarkupBuilder.new token).run ops).finish = .ok m) :
    (∃ f : Forest, f.wellNamed = true ∧ ops = f.events) ∧
    (∀ f : Forest, f.wellNamed = true → ops = f.events →
      m.read = some f.normal ∧ f.normal.isNormal = true ∧ f.normal.markup = m.text ∧
        (f.isNormal = true → m.read = some f)) ∧
    ∀ (token' : Token) (ops' : List MarkupOp),
      (∀ inner, MarkupOp.rawInner inner ∈ ops' → Released inner) →
      ((MarkupBuilder.new token').run ops').finish = .ok m →
      ∀ f f' : Forest, f.wellNamed = true → ops = f.events → f'.wellNamed = true →
        ops' = f'.events → f.normal = f'.normal := by
  refine ⟨?_, ?_, ?_⟩
  · obtain ⟨f, named, hops, -⟩ := (MarkupBuilder.finish_run_new_iff token ops
      (fun inner hi => (fragments inner hi).exists_forest) m).mp finished
    exact ⟨f, named, hops⟩
  · rintro f named rfl
    obtain rfl := MarkupBuilder.eq_markup_of_finish fragments finished named
    refine ⟨f.read_markup named, f.isNormal_onto rfl, f.markup_normal, fun hnormal => ?_⟩
    rw [f.read_markup named, Forest.normal_of_isNormal hnormal]
  · rintro token' ops' fragments' finished' f f' named rfl named' rfl
    have first : m.read = some f.normal := by
      rw [MarkupBuilder.eq_markup_of_finish fragments finished named, f.read_markup named]
    have second : m.read = some f'.normal := by
      rw [MarkupBuilder.eq_markup_of_finish fragments' finished' named', f'.read_markup named']
    exact Option.some.inj (first.symm.trans second)

/-- Text in three parts, one of them empty, in front of a fragment that starts with text. -/
def choppedForest : Forest :=
  .element "p" [("title", "'")] (.text "1 <" (.text "" (.text " "
    (.fragment (.text "2" (.void "br" [] .empty)) .empty)))) .empty

/-- The three texts and that of the fragment are read back as one. -/
theorem released_markup_recovers_forest_of_choppedForest :
    (∀ inner, MarkupOp.rawInner inner ∈ choppedForest.events → Released inner) ∧
    ((MarkupBuilder.new ⟨"guest", .ofIndex 0⟩).run choppedForest.events).finish =
      .ok ⟨"<p title=\"&#39;\">1 &lt; 2<br/></p>"⟩ ∧
    Markup.read ⟨"<p title=\"&#39;\">1 &lt; 2<br/></p>"⟩ =
      some (.element "p" [("title", "'")] (.text "1 < 2" (.void "br" [] .empty)) .empty) := by
  have fragments : ∀ inner, MarkupOp.rawInner inner ∈ choppedForest.events → Released inner := by
    intro inner hi
    obtain rfl : inner = ⟨(Forest.text "2" (.void "br" [] .empty)).markup⟩ := by
      simpa [choppedForest, Forest.events, Forest.attributeEvents] using hi
    exact .finish ⟨"guest", .ofIndex 0⟩ [.addText "2", .beginTag "br", .finishOpenTag true] _
      (by simp) (by decide +kernel)
  have finished : ((MarkupBuilder.new ⟨"guest", .ofIndex 0⟩).run choppedForest.events).finish =
      .ok ⟨"<p title=\"&#39;\">1 &lt; 2<br/></p>"⟩ := by decide +kernel
  refine ⟨fragments, finished, ?_⟩
  have recovered := (released_markup_recovers_forest fragments finished).2.1 choppedForest
    (by decide +kernel) rfl
  rw [recovered.1]
  rfl

end Confinement.Emission
