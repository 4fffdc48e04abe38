import KrlWorkbench.Text.Basic

/-!
# Library functions

Routines that every controller provides, with the header they would have in a program.
-/

namespace KrlWorkbench

/-- A routine of the controller's library. -/
structure LibraryFunction where
  name : String
  params : List String
  returnType : Option String
  doc : String

namespace LibraryFunction

/-- All library functions, in the order in which they are offered. -/
def all : List LibraryFunction := [
  ⟨"ABS", ["x"], some "REAL", "Absolute value."⟩,
  ⟨"SQRT", ["x"], some "REAL", "Square root."⟩,
  ⟨"SIN", ["x"], some "REAL", "Sine of an angle in degrees."⟩,
  ⟨"COS", ["x"], some "REAL", "Cosine of an angle in degrees."⟩,
  ⟨"TAN", ["x"], some "REAL", "Tangent of an angle in degrees."⟩,
  ⟨"ACOS", ["x"], some "REAL", "Arc cosine in degrees."⟩,
  ⟨"ATAN2", ["y", "x"], some "REAL", "Arc tangent of y/x in degrees."⟩,
  ⟨"MAX", ["a", "b"], some "REAL", "Larger of two values."⟩,
  ⟨"MIN", ["a", "b"], some "REAL", "Smaller of two values."⟩,
  ⟨"STRLEN", ["text[]"], some "INT", "Length of a character array."⟩,
  ⟨"StrAdd", ["dest[]:OUT", "src[]:IN"], some "INT", "Appends src to dest."⟩,
  ⟨"StrClear", ["text[]:OUT"], some "BOOL", "Clears a character array."⟩,
  ⟨"StrComp", ["a[]:IN", "b[]:IN", "ignore_case:IN"], some "BOOL",
    "Compares two character arrays."⟩,
  ⟨"StrCopy", ["dest[]:OUT", "src[]:IN"], some "BOOL", "Copies src into dest."⟩,
  ⟨"StrFind", ["start:IN", "text[]:IN", "key[]:IN", "ignore_case:IN"], some "INT",
    "Finds key in text."⟩,
  ⟨"StrLen", ["text[]:IN"], some "INT", "Length of a character array."⟩,
  ⟨"INV_POS", ["pos:IN"], some "FRAME", "Inverts a frame."⟩,
  ⟨"BAS", ["command:IN", "value:IN"], none, "Base package: initialises motion parameters."⟩,
  ⟨"VARSTATE", ["name[]:IN"], some "VAR_STATE", "Initialisation state of a variable."⟩,
  ⟨"MSG_SEND", ["msg:IN"], some "INT", "Sends a message to the message window."⟩,
  ⟨"SET_KRLMSG", ["type:IN", "msg:OUT", "params[]:OUT", "opts:OUT"], some "INT",
    "Issues a KRL message."⟩,
  ⟨"GET_SIG_INF", ["name[]:IN", "info:OUT"], some "INT", "Reads signal properties."⟩]

/-- The function with a name, in either case; the first of two spellings. -/
def find? (name : Text) : Option LibraryFunction :=
  all.find? fun f => Text.sameName f.name.toList name

def header (f : LibraryFunction) : String :=
  let params := ", ".intercalate f.params
  match f.returnType with
  | some type => s!"DEFFCT {type} {f.name}({params})"
  | none => s!"DEF {f.name}({params})"

end LibraryFunction
end KrlWorkbench
