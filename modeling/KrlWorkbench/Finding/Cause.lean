import KrlWorkbench.Json.Printer

/-!
# Causes of findings

A finding states a cause and a place.  The cause fixes everything a reader is told: the stable
code, the severity, the data that later help to mend it, and the message in each language.
-/

namespace KrlWorkbench

/-- The language of messages. -/
inductive Locale where
  | english
  | german
  deriving DecidableEq, Repr, Inhabited

/-- The locale of a language tag: its first part decides, and all but German is English. -/
def Locale.ofTag (tag : Text) : Locale :=
  let primary := tag.takeWhile fun c => c != '-' && c != '_'
  if Text.upper primary == "DE".toList then .german else .english

/-- Stable name of a kind of finding. -/
inductive FindingCode where
  | undefinedVariable
  | missingGlobal
  | globalNotPublic
  | nameTooLong
  | nameStartsWithDigit
  | unmatchedBlock
  | unclosedBlock
  | duplicateName
  | deadCode
  | emptyBlock
  | waitWithoutTimeout
  | haltStatement
  | realInSwitch
  | shouldBeReal
  | unsafePathSpeed
  | unsafeAxisSpeed
  | toolNotInitialized
  | baseNotInitialized
  | nonAsciiCharacter
  deriving DecidableEq, Repr, Inhabited

namespace FindingCode

def all : List FindingCode :=
  [.undefinedVariable, .missingGlobal, .globalNotPublic, .nameTooLong, .nameStartsWithDigit,
    .unmatchedBlock, .unclosedBlock, .duplicateName, .deadCode, .emptyBlock, .waitWithoutTimeout,
    .haltStatement, .realInSwitch, .shouldBeReal, .unsafePathSpeed, .unsafeAxisSpeed,
    .toolNotInitialized, .baseNotInitialized, .nonAsciiCharacter]

def text : FindingCode → String
  | .undefinedVariable => "undefinedVariable"
  | .missingGlobal => "missingGlobal"
  | .globalNotPublic => "globalNotPublic"
  | .nameTooLong => "nameTooLong"
  | .nameStartsWithDigit => "nameStartsWithDigit"
  | .unmatchedBlock => "unmatchedBlock"
  | .unclosedBlock => "unclosedBlock"
  | .duplicateName => "duplicateName"
  | .deadCode => "deadCode"
  | .emptyBlock => "emptyBlock"
  | .waitWithoutTimeout => "waitWithoutTimeout"
  | .haltStatement => "haltStatement"
  | .realInSwitch => "realInSwitch"
  | .shouldBeReal => "shouldBeReal"
  | .unsafePathSpeed => "unsafeVelocityCp"
  | .unsafeAxisSpeed => "unsafeVelocityPtp"
  | .toolNotInitialized => "toolNotInitialized"
  | .baseNotInitialized => "baseNotInitialized"
  | .nonAsciiCharacter => "nonAsciiCharacter"

def ofText? (text : String) : Option FindingCode :=
  all.find? fun code => code.text == text

end FindingCode

/-- How grave a finding is. -/
inductive Severity where
  | error
  | warning
  | information
  deriving DecidableEq, Repr, Inhabited

def Severity.number : Severity → Nat
  | .error => 1
  | .warning => 2
  | .information => 3

/-- What a finding says, with the data its message needs. -/
inductive Cause where
  | undefinedVariable (name : Text)
  | missingGlobal (name : Text)
  | globalNotPublic (name : Text)
  | nameTooLong (name : Text) (limit : Nat)
  | nameStartsWithDigit (name : Text)
  | unexpectedCloser (closer opener : String)
  | mismatchedCloser (closer expected : String)
  | unclosedBlock (opener closer : String)
  /-- Line numbers count from one. -/
  | duplicateRoutine (name : Text) (firstLine : Nat)
  | duplicateVariable (name : Text) (firstLine : Nat)
  | deadCode
  | emptyBlock (keyword : String)
  | waitWithoutTimeout
  | haltStatement
  | realInSwitch (name : Text)
  | shouldBeReal (name value : Text)
  /-- `written` is the number as it stands in the program. -/
  | unsafePathSpeed (written : Text) (value limit : Float)
  | unsafeAxisSpeed (written : Text) (value limit : Float)
  | toolNotInitialized
  | baseNotInitialized
  | nonAscii (text : Text)
  deriving Inhabited

namespace Cause

def code : Cause → FindingCode
  | .undefinedVariable _ => .undefinedVariable
  | .missingGlobal _ => .missingGlobal
  | .globalNotPublic _ => .globalNotPublic
  | .nameTooLong _ _ => .nameTooLong
  | .nameStartsWithDigit _ => .nameStartsWithDigit
  | .unexpectedCloser _ _ => .unmatchedBlock
  | .mismatchedCloser _ _ => .unmatchedBlock
  | .unclosedBlock _ _ => .unclosedBlock
  | .duplicateRoutine _ _ => .duplicateName
  | .duplicateVariable _ _ => .duplicateName
  | .deadCode => .deadCode
  | .emptyBlock _ => .emptyBlock
  | .waitWithoutTimeout => .waitWithoutTimeout
  | .haltStatement => .haltStatement
  | .realInSwitch _ => .realInSwitch
  | .shouldBeReal _ _ => .shouldBeReal
  | .unsafePathSpeed _ _ _ => .unsafePathSpeed
  | .unsafeAxisSpeed _ _ _ => .unsafeAxisSpeed
  | .toolNotInitialized => .toolNotInitialized
  | .baseNotInitialized => .baseNotInitialized
  | .nonAscii _ => .nonAsciiCharacter

def severity : Cause → Severity
  | .missingGlobal _ => .warning
  | .deadCode => .warning
  | .emptyBlock _ => .warning
  | .waitWithoutTimeout => .information
  | .haltStatement => .information
  | .shouldBeReal _ _ => .warning
  | .unsafePathSpeed _ _ _ => .warning
  | .unsafeAxisSpeed _ _ _ => .warning
  | .toolNotInitialized => .warning
  | .baseNotInitialized => .warning
  | .nonAscii _ => .warning
  | _ => .error

/-- What a client gets to mend the cause, keys in alphabetical order. -/
def data : Cause → Option Json
  | .undefinedVariable name => some (.obj [("varName", .ofText name)])
  | .missingGlobal name => some (.obj [("name", .ofText name)])
  | .globalNotPublic name => some (.obj [("name", .ofText name)])
  | .unexpectedCloser _ opener => some (.obj [("expected", .str opener)])
  | .mismatchedCloser _ expected => some (.obj [("expected", .str expected)])
  | .unclosedBlock _ closer => some (.obj [("expected", .str closer)])
  | .duplicateRoutine name firstLine =>
    some (.obj [("firstLine", .ofNat firstLine), ("name", .ofText name)])
  | .duplicateVariable name firstLine =>
    some (.obj [("firstLine", .ofNat firstLine), ("name", .ofText name)])
  | .emptyBlock keyword => some (.obj [("keyword", .str keyword)])
  | .realInSwitch name => some (.obj [("varName", .ofText name)])
  | .shouldBeReal name value => some (.obj [("value", .ofText value), ("varName", .ofText name)])
  | .unsafePathSpeed written _ limit =>
    some (.obj [("limit", .float limit), ("value", .ofText written)])
  | .unsafeAxisSpeed written _ limit =>
    some (.obj [("limit", .float limit), ("value", .ofText written)])
  | _ => none

/-- Whether the code in question could go away without loss. -/
def isUnnecessary : Cause → Bool
  | .deadCode => true
  | _ => false

def english : Cause → String
  | .undefinedVariable name => s!"Variable '{String.ofList name}' is not declared."
  | .missingGlobal name =>
    s!"'{String.ofList name}' is declared in a PUBLIC data list but is not GLOBAL."
  | .globalNotPublic name => s!"'{String.ofList name}' is GLOBAL but the data list is not PUBLIC."
  | .nameTooLong name limit => s!"Name '{String.ofList name}' is longer than {limit} characters."
  | .nameStartsWithDigit name => s!"Name '{String.ofList name}' must not start with a digit."
  | .unexpectedCloser closer opener => s!"'{closer}' has no matching '{opener}'."
  | .mismatchedCloser closer expected => s!"Found '{closer}' where '{expected}' was expected."
  | .unclosedBlock opener closer => s!"'{opener}' is never closed; expected '{closer}'."
  | .duplicateRoutine name firstLine =>
    s!"Routine '{String.ofList name}' is already defined on line {firstLine}."
  | .duplicateVariable name firstLine =>
    s!"'{String.ofList name}' is already declared on line {firstLine}."
  | .deadCode => "Unreachable code."
  | .emptyBlock keyword => s!"Empty {keyword} block."
  | .waitWithoutTimeout => "WAIT FOR without TIMEOUT may block indefinitely."
  | .haltStatement => "HALT stops program execution."
  | .realInSwitch name =>
    s!"SWITCH on '{String.ofList name}' of type REAL; use INT, CHAR or an ENUM."
  | .shouldBeReal name value =>
    s!"'{String.ofList name}' is INT but is assigned the decimal value {String.ofList value}."
  | .unsafePathSpeed _ value limit =>
    s!"$VEL.CP = {Number.display value} m/s exceeds the safe limit of {Number.display limit} m/s."
  | .unsafeAxisSpeed _ value limit =>
    s!"$VEL_PTP = {Number.display value} exceeds {Number.display limit} percent."
  | .toolNotInitialized => "Motion before $TOOL is initialized."
  | .baseNotInitialized => "Motion before $BASE is initialized."
  | .nonAscii text =>
    s!"Non-ASCII characters '{String.ofList text}' may not be supported by the controller."

def german : Cause → String
  | .undefinedVariable name => s!"Variable '{String.ofList name}' ist nicht deklariert."
  | .missingGlobal name =>
    s!"'{String.ofList name}' steht in einer PUBLIC-Datenliste, ist aber nicht GLOBAL."
  | .globalNotPublic name =>
    s!"'{String.ofList name}' ist GLOBAL, die Datenliste ist aber nicht PUBLIC."
  | .nameTooLong name limit => s!"Name '{String.ofList name}' ist länger als {limit} Zeichen."
  | .nameStartsWithDigit name =>
    s!"Name '{String.ofList name}' darf nicht mit einer Ziffer beginnen."
  | .unexpectedCloser closer opener => s!"'{closer}' ohne passendes '{opener}'."
  | .mismatchedCloser closer expected => s!"'{closer}' gefunden, aber '{expected}' erwartet."
  | .unclosedBlock opener closer => s!"'{opener}' wird nicht geschlossen; '{closer}' erwartet."
  | .duplicateRoutine name firstLine =>
    s!"Routine '{String.ofList name}' ist bereits in Zeile {firstLine} definiert."
  | .duplicateVariable name firstLine =>
    s!"'{String.ofList name}' ist bereits in Zeile {firstLine} deklariert."
  | .deadCode => "Nicht erreichbarer Code."
  | .emptyBlock keyword => s!"Leerer {keyword}-Block."
  | .waitWithoutTimeout => "WAIT FOR ohne TIMEOUT kann endlos blockieren."
  | .haltStatement => "HALT hält die Programmausführung an."
  | .realInSwitch name =>
    s!"SWITCH auf '{String.ofList name}' vom Typ REAL; INT, CHAR oder ENUM verwenden."
  | .shouldBeReal name value =>
    s!"'{String.ofList name}' ist INT, erhält aber den Dezimalwert {String.ofList value}."
  | .unsafePathSpeed _ value limit =>
    s!"$VEL.CP = {Number.display value} m/s überschreitet das sichere " ++
      s!"Limit von {Number.display limit} m/s."
  | .unsafeAxisSpeed _ value limit =>
    s!"$VEL_PTP = {Number.display value} überschreitet {Number.display limit} Prozent."
  | .toolNotInitialized => "Bewegung vor Initialisierung von $TOOL."
  | .baseNotInitialized => "Bewegung vor Initialisierung von $BASE."
  | .nonAscii text =>
    s!"Nicht-ASCII-Zeichen '{String.ofList text}' werden von der Steuerung evtl. nicht unterstützt."

def message (cause : Cause) : Locale → String
  | .english => cause.english
  | .german => cause.german

end Cause
end KrlWorkbench
