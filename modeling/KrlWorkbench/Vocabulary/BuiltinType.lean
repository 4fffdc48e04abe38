import KrlWorkbench.Text.Basic

/-!
# Built-in types

The types that need no definition, and the members of those that are structures.
-/

namespace KrlWorkbench.BuiltinType

def simple : List String :=
  ["INT", "REAL", "BOOL", "CHAR"]

/-- The types for positions, loads and motion data. -/
def motion : List String :=
  ["FRAME", "POS", "E6POS", "E3POS", "AXIS", "E6AXIS", "E3AXIS", "LOAD", "FDAT", "PDAT",
    "LDAT", "E6POS_T"]

def names : List Text :=
  (simple ++ motion).map (·.toList)

/-- Whether a word names a built-in type, in either case. -/
def isBuiltinType (word : Text) : Bool :=
  names.contains (Text.upper word)

def structures : List (String × List String) := [
  ("FRAME", ["X", "Y", "Z", "A", "B", "C"]),
  ("POS", ["X", "Y", "Z", "A", "B", "C", "S", "T"]),
  ("E3POS", ["X", "Y", "Z", "A", "B", "C", "S", "T", "E1", "E2", "E3"]),
  ("E6POS", ["X", "Y", "Z", "A", "B", "C", "S", "T", "E1", "E2", "E3", "E4", "E5", "E6"]),
  ("AXIS", ["A1", "A2", "A3", "A4", "A5", "A6"]),
  ("E3AXIS", ["A1", "A2", "A3", "A4", "A5", "A6", "E1", "E2", "E3"]),
  ("E6AXIS", ["A1", "A2", "A3", "A4", "A5", "A6", "E1", "E2", "E3", "E4", "E5", "E6"]),
  ("LOAD", ["M", "CM", "J"]),
  ("VEL_STRUC", ["CP", "ORI1", "ORI2"]),
  ("ACC_STRUC", ["CP", "ORI1", "ORI2"]),
  ("APO_STRUC", ["CVEL", "CPTP", "CDIS", "CORI"])]

/-- The members of a built-in structure, named in either case. -/
def members? (typeName : Text) : Option (List String) :=
  (structures.find? fun s => s.1.toList == Text.upper typeName).map (·.2)

end KrlWorkbench.BuiltinType
