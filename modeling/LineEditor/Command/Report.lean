/-!
# Reports

What a command tells: the lines to print, whether it changed the text or the numbering of lines, and
whether the editor is to stop.
-/

namespace LineEditor

structure Report where
  output : List String
  changed : Bool
  /-- Lines were put in, taken out or moved, or another window is current. -/
  shapeChanged : Bool
  quit : Bool
  deriving Repr, DecidableEq

namespace Report

def clean : Report := ⟨[], false, false, false⟩

def ofOutput (output : List String) : Report := { clean with output := output }

def ofEdit (shapeChanged : Bool) (output : List String) : Report :=
  { clean with output := output, changed := true, shapeChanged := shapeChanged }

/-- Another window is current, or the current one looks different. -/
def ofSwitch (output : List String) : Report :=
  { clean with output := output, shapeChanged := true }

/-- The reports of two commands run one after the other. -/
def followedBy (r s : Report) : Report where
  output := r.output ++ s.output
  changed := r.changed || s.changed
  shapeChanged := r.shapeChanged || s.shapeChanged
  quit := r.quit || s.quit

end Report

end LineEditor
