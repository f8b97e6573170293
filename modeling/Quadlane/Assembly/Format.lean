import Quadlane.Program.Basic
import Quadlane.Text.Rune

/-! Programs as assembly text: the declarations, then one line an instruction. -/

namespace Quadlane.Assembly

def directive (word : String) (names : List Text) : Text :=
  if names.isEmpty then [] else Text.words (Text.lit word :: names) ++ Text.lit "\n"

def constantLine (c : Constant) : Text :=
  directive ".const" (c.name :: c.value.toList.map Lane.render)

def setLine (s : SetDeclaration) : Text :=
  Text.trim (Text.words [Text.lit ".dataset", s.name, Text.words s.vars]) ++ Text.lit "\n"

def declarations (p : Program) : Text :=
  directive ".name" (if p.name.isEmpty then [] else [p.name]) ++
  directive ".input" p.inputs ++
  directive ".output" p.outputs ++
  p.constants.flatMap constantLine ++
  p.sets.flatMap setLine

/-- The assembly text of a program, and the error that ended it early. -/
def format (p : Program) : Text × Option ReadError :=
  let (text, error) := Code.disassemble p.bytes
  (declarations p ++ text, error)

end Quadlane.Assembly
