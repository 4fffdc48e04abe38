import KrlWorkbench.Finding.Context

/-!
# Checks of the flow of control

Statements that are never reached, and statements that may stop the program.
-/

namespace KrlWorkbench.Finding

open Text

/-- Whether a line is reached again whatever stands before it. -/
def restores (code : Text) : Bool :=
  LineRule.reachable.holds code || LineRule.label.holds code

/-- Follows the lines, knowing whether the one at hand is reached. -/
def deadFrom (ctx : Context) : Bool → List SourceLine → List Finding
  | _, [] => []
  | dead, line :: rest =>
    if dead && !restores line.code then
      if line.kind.isCode then ⟨ctx.codeRange line, .deadCode⟩ :: deadFrom ctx true rest
      else deadFrom ctx true rest
    else deadFrom ctx (LineRule.exit.holds line.code) rest

/-- Statements that are never reached. -/
def dead (ctx : Context) : List Finding :=
  deadFrom ctx false ctx.lines

/-- The findings for a line that waits without a limit or halts. -/
def stopsIn (ctx : Context) (line : SourceLine) : List Finding :=
  let start := indentBytes line.code
  let waits :=
    match LineRule.waitFor.find? line.code with
    | some found =>
      if LineRule.timeout.holds line.code then []
      else [⟨ctx.span line.number start (found.whole.stop - start), .waitWithoutTimeout⟩]
    | none => []
  let halts :=
    if LineRule.halt.holds line.code then
      [⟨ctx.span line.number start "HALT".length, .haltStatement⟩]
    else []
  waits ++ halts

/-- Waits without a limit, and halts. -/
def stops (ctx : Context) : List Finding :=
  ctx.lines.flatMap (stopsIn ctx)

/-! ## Checks of motion

Speeds beyond what is safe, and motions in a routine that has set neither the tool nor the base
frame before. -/

/-! ## Speed -/

/-- Highest safe speed along a path, in metres per second. -/
def maxPathSpeed : Float := 3.0

/-- Highest axis speed, in percent. -/
def maxAxisSpeed : Float := 100.0

/-- The finding for a line that sets a speed above its limit. -/
def speedIn (ctx : Context) (rule : LineRule) (limit : Float) (cause : Text → Float → Float → Cause)
    (line : SourceLine) : List Finding :=
  match (rule.find? line.code).bind (·.group? 1) with
  | none => []
  | some written =>
    match Number.read? written.text with
    | none => []
    | some value =>
      if value ≤ limit then []
      else
        [⟨ctx.span line.number written.start (byteLength written.text),
          cause written.text value limit⟩]

/-- Speeds above their limits. -/
def speeds (ctx : Context) : List Finding :=
  ctx.lines.flatMap fun line =>
    speedIn ctx .pathSpeed maxPathSpeed .unsafePathSpeed line ++
      speedIn ctx .axisSpeed maxAxisSpeed .unsafeAxisSpeed line

/-! ## Tool and base -/

/-- Which frames a routine has set so far. -/
structure Frames where
  tool : Bool
  base : Bool
  deriving DecidableEq, Repr

/-- The frames that are set after a line of code. -/
def Frames.after (f : Frames) (code : Text) : Frames :=
  let both := LineRule.motionDefaults.holds code
  ⟨f.tool || LineRule.toolAssignment.holds code || both,
    f.base || LineRule.baseAssignment.holds code || both⟩

/-- The findings for a motion while some frame is not set. -/
def motionIn (ctx : Context) (f : Frames) (line : SourceLine) : List Finding :=
  match (LineRule.motion.find? line.code).bind (·.group? 1) with
  | none => []
  | some keyword =>
    let range := ctx.span line.number keyword.start (byteLength keyword.text)
    (if f.tool then [] else [⟨range, .toolNotInitialized⟩]) ++
      (if f.base then [] else [⟨range, .baseNotInitialized⟩])

/-- Follows the lines with the frames set so far; a routine starts with none. -/
def motionFrom (ctx : Context) : Frames → List SourceLine → List Finding
  | _, [] => []
  | f, line :: rest =>
    if LineRule.routineHeader.holds line.code || LineRule.functionHeader.holds line.code then
      motionFrom ctx ⟨false, false⟩ rest
    else
      let f := f.after line.code
      motionIn ctx f line ++ motionFrom ctx f rest

/-- Motions before the tool or the base frame is set. -/
def motions (ctx : Context) : List Finding :=
  motionFrom ctx ⟨false, false⟩ ctx.lines

end KrlWorkbench.Finding
