import KrlWorkbench.Text.Basic

/-!
# System variables

Variables of the controller; their names begin with a dollar sign.
-/

namespace KrlWorkbench

/-- A variable of the controller. -/
structure SystemVariable where
  name : String
  typeName : String
  doc : String

namespace SystemVariable

/-- All system variables, in the order in which they are offered. -/
def all : List SystemVariable := [
  ⟨"$TOOL", "FRAME", "Current tool frame."⟩,
  ⟨"$BASE", "FRAME", "Current base frame."⟩,
  ⟨"$POS_ACT", "E6POS", "Current Cartesian position."⟩,
  ⟨"$AXIS_ACT", "E6AXIS", "Current axis position."⟩,
  ⟨"$VEL", "VEL_STRUC", "Cartesian velocity (CP in m/s)."⟩,
  ⟨"$VEL_PTP", "INT", "PTP axis velocity in percent."⟩,
  ⟨"$ACC", "ACC_STRUC", "Cartesian acceleration."⟩,
  ⟨"$ACC_PTP", "INT", "PTP axis acceleration in percent."⟩,
  ⟨"$APO", "APO_STRUC", "Approximation parameters."⟩,
  ⟨"$IN", "BOOL", "Digital inputs."⟩,
  ⟨"$OUT", "BOOL", "Digital outputs."⟩,
  ⟨"$ANIN", "REAL", "Analog inputs."⟩,
  ⟨"$ANOUT", "REAL", "Analog outputs."⟩,
  ⟨"$TIMER", "INT", "Timers in milliseconds."⟩,
  ⟨"$TIMER_STOP", "BOOL", "Timer stop flags."⟩,
  ⟨"$FLAG", "BOOL", "Flags."⟩,
  ⟨"$CYCFLAG", "BOOL", "Cyclic flags."⟩,
  ⟨"$OV_PRO", "INT", "Program override in percent."⟩,
  ⟨"$MODE_OP", "MODE_OP", "Operating mode."⟩,
  ⟨"$LOAD", "LOAD", "Current payload."⟩,
  ⟨"$ORI_TYPE", "ORI_TYPE", "Orientation control type."⟩,
  ⟨"$ADVANCE", "INT", "Advance run depth."⟩,
  ⟨"$NULLFRAME", "FRAME", "Zero frame."⟩,
  ⟨"$WORLD", "FRAME", "World coordinate system."⟩,
  ⟨"$ROBROOT", "FRAME", "Robot root frame."⟩,
  ⟨"$H_POS", "E6AXIS", "Home position."⟩]

/-- The system variable with a name, dollar sign included, in either case. -/
def find? (name : Text) : Option SystemVariable :=
  all.find? fun v => Text.sameName v.name.toList name

end SystemVariable
end KrlWorkbench
