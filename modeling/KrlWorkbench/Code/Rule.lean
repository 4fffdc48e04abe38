import KrlWorkbench.Pattern.Basic

/-!
# Line rules

The shapes of line that the analyses look for.  Keywords are read in either case throughout;
where a rule accepts names, `initial` and `anyCaseInitial` tell whether a letter outside ASCII
that folds to an ASCII letter may begin one.
-/

namespace KrlWorkbench

/-- The shapes of lines that mean something. -/
inductive LineRule where
  /-- A typed list of names, with or without `DECL`. Groups: 1 and 4 `GLOBAL`, 2 and 5 `CONST`,
  3 `DECL`, 6 the type, 7 the list. -/
  | declaration
  /-- Groups: 1 `GLOBAL`, 2 the name, 3 what it stands for. -/
  | signal
  /-- Groups: 1 `GLOBAL`, 2 the name, 3 the parameters. -/
  | routineHeader
  /-- Groups: 1 `GLOBAL`, 2 the type returned, 3 the name, 4 the parameters. -/
  | functionHeader
  /-- Groups: 1 the name, 2 `PUBLIC`. -/
  | dataListHeader
  /-- Groups: 1 and 2 `GLOBAL`, 3 the keyword, 4 the name, 5 the members. -/
  | typeDefinition
  /-- Group 1: the keyword. -/
  | scopeOpener
  /-- Group 1: the keyword. -/
  | scopeCloser
  /-- A statement after which the next one is not reached. Group 1: the keyword. -/
  | exit
  /-- A line that is reached again whatever precedes it. Group 1: the keyword. -/
  | reachable
  | label
  | waitFor
  | timeout
  | halt
  /-- Group 1: the variable. -/
  | switchSubject
  /-- Groups: 1 the variable, 2 the number. -/
  | literalAssignment
  /-- Group 1: the speed. -/
  | pathSpeed
  /-- Group 1: the speed. -/
  | axisSpeed
  | toolAssignment
  | baseAssignment
  | motionDefaults
  /-- Group 1: the keyword. -/
  | motion
  | foldOpen
  | foldClose
  /-- Group 1: the name called. -/
  | call
  /-- Groups: 1 the owner, 2 the start of a member name, at the end of the text. -/
  | memberAccess
  | globalKeyword
  | declKeyword
  deriving DecidableEq, Repr

namespace LineRule

open Pattern

def all : List LineRule :=
  [.declaration, .signal, .routineHeader, .functionHeader, .dataListHeader, .typeDefinition,
    .scopeOpener, .scopeCloser, .exit, .reachable, .label, .waitFor, .timeout, .halt,
    .switchSubject, .literalAssignment, .pathSpeed, .axisSpeed, .toolAssignment, .baseAssignment,
    .motionDefaults, .motion, .foldOpen, .foldClose, .call, .memberAccess, .globalKeyword,
    .declKeyword]

/-! ## Character classes -/

/-- A letter up to case, an underscore. -/
def anyCaseInitial (c : Char) : Bool :=
  Text.isLetter (Text.fold c) || c == '_'

/-- A word character or a dollar sign. -/
def isNamePart (c : Char) : Bool :=
  Text.isWordChar c || c == '$'

/-- Any character but a line feed. -/
def isInLine (c : Char) : Bool :=
  c != '\n'

/-- A character that is no blank. -/
def isSolid (c : Char) : Bool :=
  !Text.isBlank c

/-! ## Pieces of rules -/

/-- The start of a line with its indentation. -/
def indent : Pattern :=
  .textStart ++ blanks

/-- A keyword and the gap after it, or neither. -/
def maybe (index : Nat) (k : String) : Pattern :=
  option (.group index (keyword k) ++ gap)

/-- A keyword and the gap after it, or neither, without a group. -/
def skip (k : String) : Pattern :=
  option (keyword k ++ gap)

/-- A name of word characters, first letter in either case. -/
def name : Pattern :=
  .one anyCaseInitial ++ .many Text.isWordChar

/-- A name of word characters with an ASCII initial. -/
def asciiName : Pattern :=
  .one Text.isNameStart ++ .many Text.isWordChar

/-- A name that may hold dollar signs. -/
def systemName : Pattern :=
  .one (fun c => anyCaseInitial c || c == '$') ++ .many isNamePart

/-- The parameter list up to the first closing parenthesis. -/
def parameters (index : Nat) : Pattern :=
  blanks ++ char '(' ++ .group index (.many (· != ')')) ++ char ')'

def sign : Pattern :=
  option (.one fun c => c == '+' || c == '-')

def digits : Pattern :=
  atLeastOne Text.isDecimalDigit

/-- An equals sign and a number, group 1. -/
def speed : Pattern :=
  blanks ++ char '=' ++ blanks ++
    .group 1 (.alt
      (sign ++ digits ++ option (char '.' ++ .many Text.isDecimalDigit))
      (sign ++ char '.' ++ digits))

/-! ## The rules -/

/-- The pattern of each shape; its groups are what later readers ask for. -/
def pattern : LineRule → Pattern
  | declaration =>
    indent ++ maybe 1 "GLOBAL" ++ maybe 2 "CONST" ++ maybe 3 "DECL" ++ maybe 4 "GLOBAL" ++
      maybe 5 "CONST" ++ .group 6 systemName ++ gap ++
      .group 7 (.one isSolid ++ .many isInLine) ++ .textEnd
  | signal =>
    indent ++ maybe 1 "GLOBAL" ++ keyword "SIGNAL" ++ gap ++ .group 2 (atLeastOne isSolid) ++
      blanks ++ .group 3 (.many isInLine) ++ .textEnd
  | routineHeader =>
    indent ++ maybe 1 "GLOBAL" ++ keyword "DEF" ++ gap ++ .group 2 name ++ parameters 3
  | functionHeader =>
    indent ++ maybe 1 "GLOBAL" ++ keyword "DEFFCT" ++ gap ++
      .group 2 (.one (fun c => anyCaseInitial c || c == '$') ++
        .many fun c => isNamePart c || c == '[' || c == ']') ++
      gap ++ .group 3 name ++ parameters 4
  | dataListHeader =>
    indent ++ keyword "DEFDAT" ++ gap ++ .group 1 systemName ++
      option (gap ++ .group 2 (keyword "PUBLIC"))
  | typeDefinition =>
    indent ++ maybe 1 "GLOBAL" ++ skip "DECL" ++ maybe 2 "GLOBAL" ++
      .group 3 (anyKeyword ["STRUC", "ENUM"]) ++ gap ++ .group 4 name ++ gap ++
      .group 5 (.many isInLine) ++ .textEnd
  | scopeOpener =>
    indent ++ skip "GLOBAL" ++ .group 1 (anyKeyword ["DEF", "DEFFCT", "DEFDAT"]) ++
      .wordBoundary
  | scopeCloser =>
    indent ++ .group 1 (anyKeyword ["END", "ENDFCT", "ENDDAT"]) ++ .wordBoundary
  | exit =>
    indent ++ .group 1 (anyKeyword ["RETURN", "EXIT", "GOTO", "HALT"]) ++ .wordBoundary
  | reachable =>
    indent ++
      .group 1 (.alt (keyword "END" ++ .many Text.isWordChar)
        (anyKeyword ["UNTIL", "CASE", "DEFAULT", "ELSE"])) ++
      .wordBoundary
  | label => indent ++ asciiName ++ blanks ++ char ':' ++ blanks ++ .textEnd
  | waitFor => indent ++ keyword "WAIT" ++ gap ++ keyword "FOR" ++ .wordBoundary
  | timeout => wholeWord "TIMEOUT".toList
  | halt => indent ++ keyword "HALT" ++ .wordBoundary
  | switchSubject =>
    indent ++ keyword "SWITCH" ++ gap ++ .group 1 name ++ blanks ++ .textEnd
  | literalAssignment =>
    indent ++ .group 1 asciiName ++ blanks ++ char '=' ++ blanks ++
      .group 2 (sign ++
        .alt (digits ++ char '.' ++ .many Text.isDecimalDigit) (char '.' ++ digits) ++
        option (.one (fun c => c == 'e' || c == 'E') ++ sign ++ digits)) ++
      blanks ++ .textEnd
  | pathSpeed => indent ++ keyword "$VEL.CP" ++ speed
  | axisSpeed => indent ++ keyword "$VEL_PTP" ++ speed
  | toolAssignment => indent ++ keyword "$TOOL" ++ blanks ++ char '='
  | baseAssignment => indent ++ keyword "$BASE" ++ blanks ++ char '='
  | motionDefaults =>
    .wordBoundary ++ keyword "BAS" ++ blanks ++ char '(' ++ blanks ++ keyword "#INITMOV" ++
      .wordBoundary
  | motion =>
    indent ++ .group 1 (anyKeyword ["PTP", "LIN", "CIRC", "SPTP", "SLIN", "SCIRC"]) ++
      option (keyword "_REL") ++ .wordBoundary
  | foldOpen => indent ++ char ';' ++ blanks ++ keyword "FOLD" ++ .wordBoundary
  | foldClose => indent ++ char ';' ++ blanks ++ keyword "ENDFOLD" ++ .wordBoundary
  | call => .group 1 asciiName ++ blanks ++ char '('
  | memberAccess =>
    .group 1 (.one (fun c => Text.isNameStart c || c == '$') ++ .many isNamePart) ++
      option (char '[' ++ .many (· != ']') ++ char ']') ++ char '.' ++
      .group 2 (.many Text.isWordChar) ++ .textEnd
  | globalKeyword => .wordBoundary ++ keyword "GLOBAL" ++ gap
  | declKeyword => indent ++ skip "GLOBAL" ++ skip "CONST" ++ keyword "DECL" ++ .wordBoundary

/-- The leftmost place where a line has this shape. -/
def find? (rule : LineRule) (line : Text) : Option Match :=
  rule.pattern.find? line

def holds (rule : LineRule) (line : Text) : Bool :=
  rule.pattern.isIn line

end LineRule
end KrlWorkbench
