import SourceAtlas.Glob.Bytes
import SourceAtlas.Glob.Lookup
import SourceAtlas.Text.Hex

/-! The regular expression of a pattern: its text, and how deeply it is nested. -/
namespace SourceAtlas.Glob

/-- The marks of a regular expression, which a backslash turns into characters. -/
def expressionMarks : List Char :=
  ['\\', '.', '+', '*', '?', '(', ')', '|', '[', ']', '\x7b', '\x7d', '^', '$', '#', '&', '-', '~']

/-- A character in a regular expression. The bytes of one outside ASCII are written in hexadecimal. -/
def charExpression (c : Char) : List Char :=
  if expressionMarks.contains c then ['\\', c]
  else if c.toNat < 0x80 then [c]
  else (String.utf8EncodeChar c).flatMap fun b => '\\' :: 'x' :: Text.hexByte b.toNat

def rangeExpression (range : Char × Char) : List Char :=
  if range.1 = range.2 then charExpression range.1
  else charExpression range.1 ++ '-' :: charExpression range.2

mutual

/-- The expression of a token. Branches of a group that say nothing are left out. -/
def Token.expression (separated : Bool) : Token → List Char
  | .literal c => charExpression c
  | .anyOne => if separated then ['[', '^', '/', ']'] else ['.']
  | .anyRun => if separated then ['[', '^', '/', ']', '*'] else ['.', '*']
  | .recursivePrefix => ['(', '?', ':', '/', '?', '|', '.', '*', '/', ')']
  | .recursiveSuffix => ['/', '.', '*']
  | .recursiveMiddle => ['(', '?', ':', '/', '|', '/', '.', '*', '/', ')']
  | .characterClass negated ranges =>
    '[' :: (if negated then ['^'] else []) ++ ranges.flatMap rangeExpression ++ [']']
  | .alternatives branches =>
    match branchExpressions separated branches with
    | [] => []
    | expressions => ['(', '?', ':'] ++ Text.joinWith ['|'] expressions ++ [')']

def sequenceExpression (separated : Bool) : List Token → List Char
  | [] => []
  | token :: tokens => token.expression separated ++ sequenceExpression separated tokens

def branchExpressions (separated : Bool) : List (List Token) → List (List Char)
  | [] => []
  | branch :: branches =>
    match sequenceExpression separated branch with
    | [] => branchExpressions separated branches
    | expression => expression :: branchExpressions separated branches

end

/-- The depth of a sequence of expressions of given depths. One alone is no sequence. -/
def sequenceDepth : List Nat → Nat
  | [] => 0
  | [depth] => depth
  | depths => depths.foldl max 0 + 1

mutual

/-- The depths of the expressions of a token, which can be several or none. A character by itself has no
depth; classes, repetitions, groups, alternatives and sequences each add one to what they hold. -/
def Token.depths (separated : Bool) : Token → List Nat
  | .literal c => (String.utf8EncodeChar c).map fun _ => 0
  | .anyOne => if separated then [1] else [0]
  | .anyRun => if separated then [2] else [1]
  | .recursivePrefix | .recursiveMiddle => [4]
  | .recursiveSuffix => [0, 1]
  | .characterClass _ ranges => if (classRanges ranges).length = 1 then [1] else [2]
  | .alternatives branches =>
    match branchDepths separated branches with
    | [] => []
    | [depth] => [depth + 1]
    | depths => [depths.foldl max 0 + 2]

def sequenceDepths (separated : Bool) : List Token → List Nat
  | [] => []
  | token :: tokens => token.depths separated ++ sequenceDepths separated tokens

def branchDepths (separated : Bool) : List (List Token) → List Nat
  | [] => []
  | branch :: branches =>
    match sequenceDepths separated branch with
    | [] => branchDepths separated branches
    | depths => sequenceDepth depths :: branchDepths separated branches

end

namespace Pattern

/-- The expression of a pattern, from the start of a path to its end. -/
def expression (pattern : Pattern) : String :=
  let inner := match pattern.tokens with
    | [.recursivePrefix] => ['.', '*']
    | tokens => sequenceExpression pattern.separated tokens
  "(?-u)^" ++ String.ofList inner ++ "$"

/-- The depth of the expression, which is a sequence with marks for the start and the end. -/
def depth (pattern : Pattern) : Nat :=
  (sequenceDepths pattern.separated pattern.tokens).foldl max 0 + 1

def depthLimit : Nat := 250

def isDeep (pattern : Pattern) : Bool := depthLimit < pattern.depth

end Pattern

end SourceAtlas.Glob
