import SourceAtlas.Glob.Lookup
import SourceAtlas.Glob.Mask
import SourceAtlas.Text.Utf8

/-! Which paths a glob pattern matches. Matching is on bytes: a token leads from the ends of a text that
are left before it to those that it can leave, and a pattern matches a text when its tokens together can
leave nothing. -/
namespace SourceAtlas.Glob

mutual

/-- The ends of a text that a token can leave of the marked ones. A void branch of a group counts only if
all are void. -/
def Token.pass (separated : Bool) (text : Bytes) (mask : Mask) : Token → Mask
  | .literal c => mask.stepAll (String.utf8EncodeChar c) text
  | .anyOne => mask.step (spansByte separated) text
  | .anyRun => mask.spread (spansByte separated) text
  | .recursivePrefix => mask.union ((mask.spreadAll text).stepSeparator text)
  | .recursiveSuffix => (mask.stepSeparator text).spreadAll text
  | .recursiveMiddle =>
    let inside := mask.stepSeparator text
    inside.union ((inside.spreadAll text).stepSeparator text)
  | .characterClass negated ranges =>
    let bytes := classRanges ranges
    mask.step (fun b => inRanges bytes b != negated) text
  | .alternatives branches =>
    if branchesVoid branches then mask else branchesPass separated text mask branches

def passAll (separated : Bool) (text : Bytes) (mask : Mask) : List Token → Mask
  | [] => mask
  | token :: tokens => passAll separated text (token.pass separated text mask) tokens

def branchesPass (separated : Bool) (text : Bytes) (mask : Mask) : List (List Token) → Mask
  | [] => mask.map fun _ => false
  | branch :: branches =>
    let others := branchesPass separated text mask branches
    if branchVoid branch then others else (passAll separated text mask branch).union others

end

namespace Pattern

/-- Whether the tokens of a pattern span a text. Two stars alone span everything. -/
def spans (pattern : Pattern) (text : Bytes) : Bool :=
  match pattern.tokens with
  | [.recursivePrefix] => true
  | tokens => (passAll pattern.separated text (.whole text) tokens).complete

end Pattern

/-- Whether a path has a file name: a step up at its end is none. -/
def hasName (path : Bytes) : Bool :=
  !path.isEmpty && (path.reverse.takeWhile (· != separator)) != [0x2E, 0x2E]

namespace Pattern

def matchesBytes (pattern : Pattern) (path : Bytes) : Bool :=
  pattern.spans path && (!pattern.needsName || hasName path)

def isMatch (pattern : Pattern) (path : String) : Bool :=
  pattern.matchesBytes (Utf8.encode path.toList)

end Pattern

end SourceAtlas.Glob
