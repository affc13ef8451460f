import SourceAtlas.Pattern
import SourceAtlas.Text.Case
import SourceAtlas.Record.Basic
/-!
The rules by which lines of source are recognized, one pattern per form of statement. All of them
look at a single line.
-/

namespace SourceAtlas.Source

open Pattern

/-! ### Characters and words -/

/-- A character that may begin an identifier. -/
def startsIdentifier (c : Char) : Bool := c.isAlpha || c == '_' || c == '$'

/-- A character that may continue an identifier. -/
def continuesIdentifier (c : Char) : Bool := Text.isWord c || c == '$'

/-- A character of a dotted name. -/
def inDottedName (c : Char) : Bool := continuesIdentifier c || c == '.'

/-- A character on the same line. -/
def onLine (c : Char) : Bool := c != '\n'

/-- A quote that may enclose a module name. -/
def isQuote (c : Char) : Bool := c.toNat == 0x27 || c == '"'

/-- A quote that may enclose a route, the back quote among them. -/
def isRouteQuote (c : Char) : Bool := isQuote c || c.toNat == 0x60

/-- A character of an import clause. -/
def inClause (c : Char) : Bool :=
  continuesIdentifier c || c == '*' || c == '{' || c == '}' || c == ',' || Text.isBlank c

/-- The text between `import` and its module: something between blanks, and the word `from`. -/
def isClause (text : List Char) : Bool :=
  match Text.stripSuffix? "from".toList (Text.trimEnd text) with
  | some front =>
    text.getLast?.any Text.isBlank && front.head?.any Text.isBlank &&
      front.getLast?.any Text.isBlank && 3 ≤ front.length
  | none => false

/-- The text ends in `from`. -/
def endsInFrom (text : List Char) : Bool := (Text.stripSuffix? "from".toList text).isSome

/-- All blanks that follow. -/
def blanks : Pattern := run Text.isBlank

/-- All blanks that follow, one at least. -/
def gap : Pattern := oneOrMore Text.isBlank

/-- A keyword and the blanks behind it. -/
def keyword (text : String) : Pattern := both (literal text) gap

/-- A keyword that may be missing. -/
def maybe (text : String) : Pattern := optional (keyword text)

/-- An identifier. -/
def identifier : Pattern := both (one startsIdentifier) (run continuesIdentifier)

/-- The shortest text between angle brackets that lets the rest of a rule match, and the blanks
behind it; it may be missing. -/
def maybeAngles : Pattern := optional (all [char '<', fewest onLine, char '>', blanks])

/-- A character and the blanks behind it, or nothing. -/
def maybeMark (c : Char) : Pattern := optional (both (char c) blanks)

/-- A quoted module name, kept as group 1. -/
def moduleName : Pattern :=
  all [one isQuote, group 1 (oneOrMore fun c => !isQuote c), one isQuote]

/-! ### Imports -/

/-- An import statement on one line. A clause holds no quote, so it is all that stands before the
module. -/
def importRule : Pattern :=
  all [blanks, literal "import", either (both gap (maybe "type")) (only isClause (run inClause)),
    moduleName]

/-- The word `from`, perhaps behind blanks. -/
def fromWord : Pattern := both blanks (literal "from")

/-- A name behind `as`, and the word `from`; both may be written as one. -/
def renamedFrom : Pattern :=
  all [gap, literal "as", gap,
    either (both identifier fromWord)
      (both (one startsIdentifier) (only endsInFrom (run continuesIdentifier)))]

/-- An export that names the module it comes from. -/
def reexportRule : Pattern :=
  all [blanks, keyword "export", maybe "type",
    either (both (char '*') (either renamedFrom fromWord))
      (all [char '{', run (· != '}'), char '}', fromWord]),
    gap, moduleName]

/-- The last line of an import that spans several. -/
def importTailRule : Pattern := all [blanks, char '}', fromWord, gap, moduleName]

/-- A call of `require`, anywhere in a line. -/
def requireRule : Pattern :=
  all [wordEdge, literal "require", blanks, char '(', blanks, moduleName, blanks, char ')']

/-! ### Declarations -/

/-- A function up to the `(` of its parameters: group 1 is set for an async one, group 2 is its
name. -/
def functionRule : Pattern :=
  all [blanks, maybe "export", maybe "default", maybe "declare", optional (group 1 (keyword "async")),
    literal "function", wordEdge, blanks, maybeMark '*', group 2 identifier, blanks, maybeAngles,
    char '(']

/-- A function bound to a name: group 1 is the name, group 2 is set for an async one, group 3 is a
parameter without parentheses. -/
def arrowRule : Pattern :=
  all [blanks, maybe "export", word ["const", "let", "var"], gap, group 1 identifier, blanks,
    optional (both (char ':') (oneOrMore (· != '='))), char '=', blanks,
    optional (group 2 (keyword "async")), maybeAngles,
    either (char '(') (all [group 3 identifier, blanks, literal "=>"])]

/-- What follows the parameters of such a function: group 1 is its return type, with the blanks
around it. A colon with blanks alone behind it counts when no other arrow follows. -/
def arrowTailRule : Pattern :=
  both blanks (anyOf [
    all [char ':', blanks, group 1 (both (one onLine) (fewest onLine)), literal "=>"],
    all [char ':', group 1 gap, literal "=>"],
    literal "=>"])

/-- A class: group 1 is its name. -/
def classRule : Pattern :=
  all [blanks, maybe "export", maybe "default", maybe "declare", maybe "abstract", keyword "class",
    group 1 identifier]

/-- The interfaces of a class, kept as group 2; blanks alone count from the second on. -/
def interfaceList : Pattern :=
  both (literal "implements") (either (both gap (group 2 (oneOrMore (· != '{'))))
    (both (one Text.isBlank) (group 2 gap)))

/-- What follows the name of a class: group 1 is its superclass, group 2 its interfaces. -/
def heritageRule : Pattern :=
  all [blanks,
    optional (all [keyword "extends", group 1 (oneOrMore inDottedName),
      optional (all [char '<', fewest onLine, char '>'])]),
    blanks, optional interfaceList]

/-- An interface: group 1 is its name. -/
def interfaceRule : Pattern :=
  all [blanks, maybe "export", maybe "default", maybe "declare", keyword "interface",
    group 1 identifier]

/-- What follows the name of an interface: group 1 is what it extends. -/
def interfaceTailRule : Pattern :=
  all [blanks, keyword "extends", group 1 (oneOrMore (· != '{'))]

/-- A type alias: group 1 is its name. -/
def typeRule : Pattern :=
  all [blanks, maybe "export", maybe "declare", keyword "type", group 1 identifier, blanks,
    maybeAngles, char '=']

/-- An enumeration: group 1 is its name. -/
def enumRule : Pattern :=
  all [blanks, maybe "export", maybe "declare", maybe "const", keyword "enum", group 1 identifier]

/-- The words that may stand before a method's name. -/
def methodModifiers : List String :=
  ["public", "private", "protected", "static", "async", "abstract", "override", "readonly"]

/-- A method up to the `(` of its parameters: group 1 holds its modifiers, group 2 its name. -/
def methodRule : Pattern :=
  all [blanks, group 1 (many (both (word methodModifiers) gap)),
    optional (both (word ["get", "set"]) gap), maybeMark '*',
    group 2 (both (optional (char '#')) identifier), blanks, maybeMark '?', maybeAngles, char '(']

/-- The word `function`, anywhere in a line. -/
def functionWordRule : Pattern := all [wordEdge, literal "function", wordEdge]

/-- Words that look like the name of a method and are none. -/
def reservedWords : List String :=
  ["if", "for", "while", "switch", "catch", "return", "function", "new", "typeof", "await", "yield",
    "super", "this", "with", "do", "else", "throw", "delete", "void", "import"]

/-! ### Routes -/

/-- A quoted route, kept as group 2. -/
def routePath : Pattern :=
  all [one isRouteQuote, group 2 (run fun c => !isRouteQuote c), one isRouteQuote]

/-- The name of a verb, kept as group 1. -/
def routeVerb (letter : Char → Pattern) : Pattern :=
  group 1 (anyOf (HttpMethod.all.map fun m => all (m.callName.toList.map letter)))

/-- A call such as `.get('/path', ` anywhere in a line. -/
def routeCallRule : Pattern :=
  all [char '.', routeVerb char, blanks, char '(', blanks, routePath, blanks,
    char ',']

/-- A decorator such as `@Get('/path')` anywhere in a line, in letters of any case. -/
def routeDecoratorRule : Pattern :=
  all [char '@', routeVerb fun c => one (Text.foldCase · == c), blanks, char '(', blanks,
    routePath, blanks, char ')']

/-- The handler at the end of a route's line, kept as group 1. -/
def routeHandlerRule : Pattern :=
  all [char ',', blanks, group 1 (both (one startsIdentifier) (run inDottedName)), blanks,
    char ')', blanks, maybeMark ';', lineEnd]

/-! ### Parameters -/

/-- A decorator before a parameter, with the blanks behind it. -/
def parameterDecoratorRule : Pattern :=
  all [char '@', oneOrMore inDottedName,
    optional (all [char '(', run (· != ')'), char ')']), blanks]

end SourceAtlas.Source
