import SourceAtlas.Glob.Expression
import SourceAtlas.Glob.Match

/-! Sets of glob patterns that are used together. -/
namespace SourceAtlas.Glob

/-- Why patterns cannot be used together: one is refused, or one is nested too deeply. Of that one there
is the expression if it is tried on paths with its extension, and otherwise its position among the
patterns that are tried on all paths. -/
inductive SetFault
  | refused (fault : Fault)
  | deepExpression (expression : String)
  | deepPosition (position : Nat)
  deriving DecidableEq, Repr

def deepMessage (position : Nat) : String := "error parsing pattern " ++ toString position

def SetFault.message : SetFault → String
  | refused fault => fault.message
  | deepExpression expression => "error parsing glob '" ++ expression ++ "': " ++ deepMessage 0
  | deepPosition position => deepMessage position

/-- Reads patterns in order, up to the first that is refused. -/
def parseAll (separated : Bool) (texts : List String) : Except Fault (List Pattern) :=
  texts.mapM (Pattern.parse separated)

/-- Checks that no pattern which is looked up by an expression is nested too deeply. Those with an
extension come first. -/
def checkDepth (patterns : List Pattern) : Except SetFault Unit :=
  let withExtension := patterns.filter (·.lookup == .withExtension)
  let anyPath := patterns.filter (·.lookup == .anyPath)
  match withExtension.find? Pattern.isDeep, anyPath.findIdx? Pattern.isDeep with
  | some pattern, _ => .error (.deepExpression pattern.expression)
  | none, some position => .error (.deepPosition position)
  | none, none => .ok ()

def readSet (separated : Bool) (texts : List String) : Except SetFault (List Pattern) := do
  let patterns ← (parseAll separated texts).mapError .refused
  checkDepth patterns
  return patterns

def anyMatch (patterns : List Pattern) (path : String) : Bool := patterns.any (·.isMatch path)

end SourceAtlas.Glob
