import KrlWorkbench.Code.Block
import KrlWorkbench.Code.Token
import KrlWorkbench.Finding.Context

/-!
# Checks of declarations

Names that are used and not declared, names declared twice, and what a data list asks of its
declarations: in a public list every `DECL` is to be global, in a private one none, and names
are short and do not begin with a digit.
-/

namespace KrlWorkbench.Finding

open Text

/-! ## Undeclared names -/

/-- The keys of the jump labels of the document. -/
def labels (ctx : Context) : List Text :=
  ctx.lines.filterMap fun line =>
    if LineRule.label.holds line.code then
      (blankSeparated (trimEnd (dropEndWhile (· == ':') (trim line.code)))).head?.map upper
    else none

/-- Braces open in front of a column: opening ones less closing ones. -/
def braceDepth (code : Text) : Int :=
  (code.count '\x7b' : Int) - code.count '\x7d'

/-- Whether an identifier names a field inside an aggregate literal. -/
def isAggregateField (code : Text) (token : Token) : Bool :=
  0 < braceDepth (takeBytes token.start code) &&
    token.lead.any fun c => c == '\x7b' || c == ',' || c == ':'

/-- Whether an identifier is called, so that an opening parenthesis follows it. -/
def isCalled (code : Text) (token : Token) : Bool :=
  (trimStart (dropBytes token.stop code)).head? == some '('

/-- Whether an identifier stands for a variable that nobody declares; `previous` is the
identifier before it. -/
def isUndeclared (ctx : Context) (labels : List Text) (code : Text) (previous : Option Token)
    (token : Token) : Bool :=
  !token.isQualified
    && !(previous.any fun t => sameName t.text "GOTO".toList)
    && !ctx.isKnown token.text
    && !labels.contains (upper token.text)
    && !isCalled code token
    && !isAggregateField code token

/-- The tokens, each with the one in front of it. -/
def withPrevious (previous : Option Token) : List Token → List (Option Token × Token)
  | [] => []
  | token :: rest => (previous, token) :: withPrevious (some token) rest

/-- The findings for the undeclared names that a line uses. -/
def undeclaredIn (ctx : Context) (labels : List Text) (line : SourceLine) : List Finding :=
  if line.kind != .usage || LineRule.label.holds line.code then []
  else
    (withPrevious none (Token.tokens line.code)).filterMap fun (previous, token) =>
      if isUndeclared ctx labels line.code previous token then
        some ⟨ctx.span line.number token.start (token.stop - token.start),
          .undefinedVariable token.text⟩
      else none

/-- Names that nobody declares. -/
def undeclared (ctx : Context) : List Finding :=
  ctx.lines.flatMap (undeclaredIn ctx (labels ctx))

/-- Drops each finding that repeats the range and the message of one before it, messages as they
read in a language; `seen` holds those met so far. -/
def withoutRepeats (locale : Locale) (seen : List (Range × String)) : List Finding → List Finding
  | [] => []
  | f :: rest =>
    let said := (f.range, f.cause.message locale)
    if seen.contains said then withoutRepeats locale seen rest
    else f :: withoutRepeats locale (said :: seen) rest

/-! ## Data lists -/

def closesDataList (code : Text) : Bool :=
  BlockKind.dataList.closerPattern.isIn code

/-- The name a message uses for a declaring line. -/
def declaredName (ctx : Context) (code : Text) : Text :=
  match ctx.declaredIn code with
  | first :: _ => first.text
  | [] =>
    match LineRule.typeDefinition.find? code with
    | some found => found.text 4
    | none => "DECL".toList

/-- The finding for a declaring line in a list that is public or not. -/
def visibilityOf (ctx : Context) (isPublic : Bool) (line : SourceLine) : List Finding :=
  if !LineRule.declKeyword.holds line.code then []
  else
    let name := declaredName ctx line.code
    match isPublic, LineRule.globalKeyword.find? line.code with
    | true, none => [⟨ctx.codeRange line, .missingGlobal name⟩]
    | false, some found =>
      [⟨ctx.span line.number found.whole.start "GLOBAL".length, .globalNotPublic name⟩]
    | _, _ => []

/-- Follows the lines with the state of the data list they are in: public, private or none. -/
def visibilityFrom (ctx : Context) : Option Bool → List SourceLine → List Finding
  | _, [] => []
  | state, line :: rest =>
    match LineRule.dataListHeader.find? line.code with
    | some found => visibilityFrom ctx (some (found.has 2)) rest
    | none =>
      if closesDataList line.code then visibilityFrom ctx none rest
      else
        match state with
        | none => visibilityFrom ctx none rest
        | some isPublic =>
          visibilityOf ctx isPublic line ++ visibilityFrom ctx state rest

/-- Declarations that do not fit the visibility of their data list. -/
def visibility (ctx : Context) : List Finding :=
  visibilityFrom ctx none ctx.lines

def maxNameLength : Nat := 24

/-- The finding for a name that is too long or begins with a digit. -/
def nameOf (ctx : Context) (line : Nat) (name : Capture) : Option Finding :=
  let range := ctx.span line name.start (byteLength name.text)
  if name.text.head?.any isDigit then some ⟨range, .nameStartsWithDigit name.text⟩
  else if maxNameLength < byteLength name.text then
    some ⟨range, .nameTooLong name.text maxNameLength⟩
  else none

/-- Follows the lines, knowing whether they are in a data list. -/
def namesFrom (ctx : Context) : Bool → List SourceLine → List Finding
  | _, [] => []
  | inside, line :: rest =>
    if LineRule.dataListHeader.holds line.code then namesFrom ctx true rest
    else if closesDataList line.code then namesFrom ctx false rest
    else if inside then
      (ctx.declaredIn line.code).filterMap (nameOf ctx line.number) ++ namesFrom ctx inside rest
    else namesFrom ctx inside rest

/-- Names in data lists that are too long or begin with a digit. -/
def names (ctx : Context) : List Finding :=
  namesFrom ctx false ctx.lines

/-! ## Duplicates -/

/-- Names declared so far, each with the line of its first declaration. -/
structure Declared where
  routines : List (Text × Nat) := []
  /-- Variables outside routine bodies. -/
  module : List (Text × Nat) := []
  /-- Variables of the body at hand, if there is one. -/
  body : Option (List (Text × Nat)) := none
  /-- Parameters of that body not declared yet. -/
  params : List Text := []

namespace Declared

/-- The variables among which a new one must be unique. -/
def scope (d : Declared) : List (Text × Nat) :=
  d.body.getD d.module

/-- Adds a variable to the scope at hand. -/
def add (d : Declared) (key : Text) (line : Nat) : Declared :=
  match d.body with
  | some body => { d with body := some ((key, line) :: body) }
  | none => { d with module := (key, line) :: d.module }

def enter (d : Declared) (r : Routine) : Declared :=
  { d with body := some [], params := r.params.map fun p => upper p.name }

def leave (d : Declared) : Declared :=
  { d with body := none, params := [] }

/-- Adds a routine, unless its name is taken. -/
def addRoutine (d : Declared) (key : Text) (line : Nat) : Declared :=
  if (d.routines.lookup key).isSome then d else { d with routines := (key, line) :: d.routines }

end Declared

/-- Adds the names of a line one by one, with a finding for each that is taken. The first
declaration of a parameter in the body gives it its type and repeats nothing. -/
def duplicatesIn (ctx : Context) (line : Nat) (d : Declared) :
    List Capture → List Finding × Declared
  | [] => ([], d)
  | name :: rest =>
    let key := upper name.text
    if d.body.isSome && d.params.contains key then
      let d := { d with params := d.params.filter (· != key) }
      duplicatesIn ctx line (d.add key line) rest
    else
      match d.scope.lookup key with
      | some first =>
        let (found, d) := duplicatesIn ctx line d rest
        (⟨ctx.span line name.start (byteLength name.text),
          .duplicateVariable name.text (first + 1)⟩ :: found, d)
      | none => duplicatesIn ctx line (d.add key line) rest

def duplicateRoutine (d : Declared) (r : Routine) : List Finding :=
  match d.routines.lookup r.key, r.symbol.range with
  | some first, some range => [⟨range, .duplicateRoutine r.name (first + 1)⟩]
  | _, _ => []

/-- Follows the lines with the names declared so far. -/
def duplicatesFrom (ctx : Context) : Declared → List SourceLine → List Finding
  | _, [] => []
  | d, line :: rest =>
    match Routine.ofHeader? ctx.text line.code line.number with
    | some r =>
      duplicateRoutine d r ++
        duplicatesFrom ctx ((d.addRoutine r.key line.number).enter r) rest
    | none =>
      match LineRule.scopeCloser.find? line.code with
      | some found =>
        let d := if sameName (found.text 1) "ENDDAT".toList then d else d.leave
        duplicatesFrom ctx d rest
      | none =>
        let (found, d) := duplicatesIn ctx line.number d (ctx.declaredIn line.code)
        found ++ duplicatesFrom ctx d rest

/-- Names declared twice. -/
def duplicates (ctx : Context) : List Finding :=
  duplicatesFrom ctx {} ctx.lines

end KrlWorkbench.Finding
