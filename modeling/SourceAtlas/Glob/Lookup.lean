import SourceAtlas.Glob.Pattern

/-! How the paths that a pattern matches are looked up. -/
namespace SourceAtlas.Glob

/-- A pattern is looked up by a file name in any folder, a fixed path, an extension, or the start or end
of paths, if it asks for nothing else. Otherwise it is tried on all paths, or on those with its
extension. -/
inductive Lookup
  | fileName
  | fixed
  | extension
  | start
  | ending
  | withExtension
  | anyPath
  deriving DecidableEq, Repr

def Token.isLiteral : Token → Bool
  | .literal _ => true
  | _ => false

def Token.isNameLiteral : Token → Bool
  | .literal c => c != '/'
  | _ => false

def Token.isExtensionLiteral : Token → Bool
  | .literal c => c != '/' && c != '.'
  | _ => false

namespace Pattern

def isFileName (pattern : Pattern) : Bool :=
  match pattern.tokens with
  | .recursivePrefix :: token :: tokens => (token :: tokens).all Token.isNameLiteral
  | _ => false

def isFixed (pattern : Pattern) : Bool :=
  !pattern.tokens.isEmpty && pattern.tokens.all Token.isLiteral

def isExtension (pattern : Pattern) : Bool :=
  match pattern.tokens with
  | .recursivePrefix :: .anyRun :: .literal '.' :: tokens => tokens.all Token.isExtensionLiteral
  | .anyRun :: .literal '.' :: tokens =>
    !pattern.separated && tokens.all Token.isExtensionLiteral
  | _ => false

/-- The pattern is a fixed text with anything after it. -/
def isStart (pattern : Pattern) : Bool :=
  match pattern.tokens.reverse with
  | .recursiveSuffix :: before => before.all Token.isLiteral
  | .anyRun :: before =>
    !pattern.separated && !before.isEmpty && before.all Token.isLiteral
  | _ => false

/-- The pattern is a fixed text with anything before it, or any folders. -/
def isEnding (pattern : Pattern) : Bool :=
  match pattern.tokens with
  | .recursivePrefix :: .anyRun :: tokens => !pattern.separated && isFixedEnd tokens
  | .anyRun :: tokens => !pattern.separated && isFixedEnd tokens
  | .recursivePrefix :: token :: tokens => (token :: tokens).all Token.isLiteral
  | _ => false
where
  /-- A single separator is not worth a look-up. -/
  isFixedEnd : List Token → Bool
    | [] => false
    | [.literal c] => c != '/'
    | tokens => tokens.all Token.isLiteral

def endsInExtension (pattern : Pattern) : Bool :=
  match pattern.tokens.reverse.dropWhile Token.isExtensionLiteral with
  | .literal '.' :: _ => true
  | _ => false

def lookup (pattern : Pattern) : Lookup :=
  if pattern.isFileName then .fileName
  else if pattern.isFixed then .fixed
  else if pattern.isExtension then .extension
  else if pattern.isStart then .start
  else if pattern.isEnding then .ending
  else if pattern.endsInExtension then .withExtension
  else .anyPath

def needsName (pattern : Pattern) : Bool :=
  match pattern.lookup with
  | .fileName | .extension | .withExtension => true
  | .fixed | .start | .ending | .anyPath => false

end Pattern

end SourceAtlas.Glob
