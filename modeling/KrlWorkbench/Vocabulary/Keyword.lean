import KrlWorkbench.Text.Basic

/-!
# Keywords

The reserved words of the language with a line of documentation each.  Lookups ignore the case
of ASCII letters.
-/

namespace KrlWorkbench

/-- A word of the language. -/
structure Keyword where
  name : String
  doc : String

namespace Keyword

/-- All keywords, in the order in which they are offered. -/
def all : List Keyword := [
  ⟨"DEF", "Starts a subroutine."⟩,
  ⟨"END", "Ends a subroutine."⟩,
  ⟨"DEFFCT", "Starts a function returning a value."⟩,
  ⟨"ENDFCT", "Ends a function."⟩,
  ⟨"DEFDAT", "Starts a data list."⟩,
  ⟨"ENDDAT", "Ends a data list."⟩,
  ⟨"PUBLIC", "Makes the global declarations of a data list importable."⟩,
  ⟨"GLOBAL", "Makes a declaration or routine visible to other modules."⟩,
  ⟨"DECL", "Declares variables."⟩,
  ⟨"CONST", "Declares a constant."⟩,
  ⟨"SIGNAL", "Binds a name to one or more I/O channels."⟩,
  ⟨"STRUC", "Declares a structure type."⟩,
  ⟨"ENUM", "Declares an enumeration type."⟩,
  ⟨"IF", "Conditional branch: IF cond THEN ... [ELSE ...] ENDIF."⟩,
  ⟨"THEN", "Begins the true branch of IF."⟩,
  ⟨"ELSE", "Begins the false branch of IF."⟩,
  ⟨"ENDIF", "Ends an IF block."⟩,
  ⟨"FOR", "Counting loop: FOR i = a TO b [STEP s] ... ENDFOR."⟩,
  ⟨"TO", "Upper bound of FOR, or range of SIGNAL."⟩,
  ⟨"STEP", "Increment of FOR."⟩,
  ⟨"ENDFOR", "Ends a FOR loop."⟩,
  ⟨"WHILE", "Pre-test loop: WHILE cond ... ENDWHILE."⟩,
  ⟨"ENDWHILE", "Ends a WHILE loop."⟩,
  ⟨"REPEAT", "Post-test loop: REPEAT ... UNTIL cond."⟩,
  ⟨"UNTIL", "Ends a REPEAT loop with its exit condition."⟩,
  ⟨"LOOP", "Endless loop: LOOP ... ENDLOOP."⟩,
  ⟨"ENDLOOP", "Ends a LOOP."⟩,
  ⟨"EXIT", "Leaves the innermost loop."⟩,
  ⟨"SWITCH", "Multi-way branch on an integral or enum value."⟩,
  ⟨"CASE", "Branch of a SWITCH."⟩,
  ⟨"DEFAULT", "Fallback branch of a SWITCH."⟩,
  ⟨"ENDSWITCH", "Ends a SWITCH."⟩,
  ⟨"GOTO", "Jumps to a label."⟩,
  ⟨"RETURN", "Returns from a routine."⟩,
  ⟨"HALT", "Stops program execution."⟩,
  ⟨"WAIT", "WAIT FOR cond, or WAIT SEC t."⟩,
  ⟨"SEC", "Time in seconds for WAIT SEC."⟩,
  ⟨"TIMEOUT", "Upper bound for a wait."⟩,
  ⟨"CONTINUE", "Suppresses advance-run stop for the next line."⟩,
  ⟨"INTERRUPT", "Declares or controls an interrupt."⟩,
  ⟨"WHEN", "Condition of an interrupt or trigger."⟩,
  ⟨"DO", "Action of an interrupt or trigger."⟩,
  ⟨"ON", "Switches an interrupt or analog cycle on."⟩,
  ⟨"OFF", "Switches an interrupt or analog cycle off."⟩,
  ⟨"TRIGGER", "Path-related switching action."⟩,
  ⟨"DISTANCE", "Trigger anchor point."⟩,
  ⟨"DELAY", "Trigger time offset."⟩,
  ⟨"PATH", "Path trigger offset."⟩,
  ⟨"PRIO", "Trigger priority."⟩,
  ⟨"BRAKE", "Stops the robot in an interrupt routine."⟩,
  ⟨"RESUME", "Cancels running interrupt routines."⟩,
  ⟨"PTP", "Point-to-point motion."⟩,
  ⟨"LIN", "Linear motion."⟩,
  ⟨"CIRC", "Circular motion."⟩,
  ⟨"PTP_REL", "Relative point-to-point motion."⟩,
  ⟨"LIN_REL", "Relative linear motion."⟩,
  ⟨"CIRC_REL", "Relative circular motion."⟩,
  ⟨"SPTP", "Spline point-to-point motion."⟩,
  ⟨"SLIN", "Spline linear motion."⟩,
  ⟨"SCIRC", "Spline circular motion."⟩,
  ⟨"SPLINE", "Starts a spline block."⟩,
  ⟨"ENDSPLINE", "Ends a spline block."⟩,
  ⟨"C_PTP", "Approximate a PTP motion."⟩,
  ⟨"C_DIS", "Approximate by distance."⟩,
  ⟨"C_VEL", "Approximate by velocity."⟩,
  ⟨"C_ORI", "Approximate by orientation."⟩,
  ⟨"CA", "Circular angle."⟩,
  ⟨"AND", "Logical and."⟩,
  ⟨"OR", "Logical or."⟩,
  ⟨"NOT", "Logical negation."⟩,
  ⟨"EXOR", "Logical exclusive or."⟩,
  ⟨"B_AND", "Bitwise and."⟩,
  ⟨"B_OR", "Bitwise or."⟩,
  ⟨"B_NOT", "Bitwise negation."⟩,
  ⟨"B_EXOR", "Bitwise exclusive or."⟩,
  ⟨"TRUE", "Boolean true."⟩,
  ⟨"FALSE", "Boolean false."⟩,
  ⟨"IN", "Input parameter direction."⟩,
  ⟨"OUT", "Output parameter direction."⟩,
  ⟨"ANIN", "Cyclic analog input."⟩,
  ⟨"ANOUT", "Cyclic analog output."⟩,
  ⟨"PULSE", "Sets an output for a given time."⟩,
  ⟨"IMPORT", "Imports data from another data list."⟩,
  ⟨"IS", "Part of an IMPORT statement."⟩,
  ⟨"EXT", "Declares an external subroutine."⟩,
  ⟨"EXTFCT", "Declares an external function."⟩]

def names : List Text :=
  all.map fun k => k.name.toList

def find? (word : Text) : Option Keyword :=
  all.find? fun k => k.name.toList == Text.upper word

/-- Whether a word is one, in either case. -/
def isKeyword (word : Text) : Bool :=
  names.contains (Text.upper word)

end Keyword
end KrlWorkbench
