/-!
# Text

The classes of characters and names that the library tells apart, the trimming of white space, and
the escapes of markup. Names of elements and attributes, identifiers of style sheets and reserved
member names are ASCII by definition; white space is that of Unicode. In the text of markup the
three characters `&`, `<` and `>` are written as entities, and in an attribute value the two quotes
as well. -/
namespace Confinement.Text

/-- Letters, digits, hyphen and underscore: what may follow the first character of an identifier. -/
def isIdentChar (c : Char) : Bool := c.isAlphanum || c == '-' || c == '_'

/-- Letter, then letters, digits, `-`, `_` and `:`. -/
def isMarkupNameChars : List Char → Bool
  | [] => false
  | c :: rest => c.isAlpha && rest.all fun d => isIdentChar d || d == ':'

/-- What stands after the optional leading hyphen of an identifier. -/
def isIdentifierBody : List Char → Bool
  | [] => false
  | c :: rest => (c.isAlpha || c == '_') && rest.all isIdentChar

def isCssIdentifierChars : List Char → Bool
  | '-' :: rest => isIdentifierBody rest
  | s => isIdentifierBody s

/-- Whether an element or attribute may carry this name. -/
def isMarkupName (name : String) : Bool := isMarkupNameChars name.toList

/-- Whether the text is an identifier of a style sheet: one leading hyphen at most. -/
def isCssIdentifier (text : String) : Bool := isCssIdentifierChars text.toList

/-- Member names that end in two underscores belong to the host and are never granted. -/
def isReserved (name : String) : Bool :=
  match name.toList.reverse with
  | '_' :: '_' :: _ => true
  | _ => false

/-- The twenty-five characters of the Unicode property `White_Space`. -/
def isBlank (c : Char) : Bool :=
  let n := c.toNat
  (0x09 ≤ n && n ≤ 0x0D) || n == 0x20 || n == 0x85 || n == 0xA0 || n == 0x1680 ||
    (0x2000 ≤ n && n ≤ 0x200A) || n == 0x2028 || n == 0x2029 || n == 0x202F || n == 0x205F ||
    n == 0x3000

def trimStart (s : List Char) : List Char := s.dropWhile isBlank

def trimEnd (s : List Char) : List Char := (s.reverse.dropWhile isBlank).reverse

/-- The text without the blanks at its two ends. -/
def trim (s : List Char) : List Char := trimEnd (trimStart s)

def escapeTextChar : Char → List Char
  | '&' => "&amp;".toList
  | '<' => "&lt;".toList
  | '>' => "&gt;".toList
  | c => [c]

def escapeAttributeChar : Char → List Char
  | '\x22' => "&quot;".toList
  | '\x27' => "&#39;".toList
  | c => escapeTextChar c

def escapeText (s : String) : String := String.ofList (s.toList.flatMap escapeTextChar)

def escapeAttribute (s : String) : String := String.ofList (s.toList.flatMap escapeAttributeChar)

end Confinement.Text
