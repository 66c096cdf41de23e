import SourceAtlas.Text.Parts

/-! File paths as texts, and the components they stand for. Repeated and trailing separators and inner
single dots are no components, so several texts can be one path; paths are compared, ordered and
stripped by their components. -/
namespace SourceAtlas

open Text

/-- A component is the root, a single dot at the start of a relative path, a step up, or a name. -/
inductive Component
  | root
  | here
  | up
  | name (text : String)
  deriving DecidableEq, Repr

namespace Component

def text : Component → String
  | root => "/"
  | here => "."
  | up => ".."
  | name text => text

def rank : Component → Nat
  | root => 0
  | here => 1
  | up => 2
  | name _ => 3

def order (a b : Component) : Ordering :=
  (compare a.rank b.rank).then (compare a.text b.text)

/-- The component that a part between separators stands for, after the first part. -/
def ofPart? (part : List Char) : Option Component :=
  if part = [] ∨ part = ['.'] then none
  else if part = ['.', '.'] then some up
  else some (name (String.ofList part))

/-- The first component in which two lists differ orders them; a list comes before its extensions. -/
def orderAll : List Component → List Component → Ordering
  | [], [] => .eq
  | [], _ :: _ => .lt
  | _ :: _, [] => .gt
  | a :: as, b :: bs => (a.order b).then (orderAll as bs)

/-- The components left after the given ones, if the list starts with these. -/
def after? : List Component → List Component → Option (List Component)
  | [], rest => some rest
  | _ :: _, [] => none
  | b :: bs, c :: cs => if b = c then after? bs cs else none

end Component

structure Path where
  text : String
  deriving DecidableEq, Repr, Inhabited

namespace Path

def isAbsolute (path : Path) : Bool := path.text.toList.head? == some '/'

/-- The components of a path text. A leading single dot counts only in a relative path. -/
def componentsOf (text : List Char) : List Component :=
  match text with
  | '/' :: rest => .root :: (splitAt '/' rest).filterMap Component.ofPart?
  | text =>
    match splitAt '/' text with
    | ['.'] :: parts => .here :: parts.filterMap Component.ofPart?
    | parts => parts.filterMap Component.ofPart?

def components (path : Path) : List Component := componentsOf path.text.toList

/-- Two texts are one path when they have the same components. -/
def same (a b : Path) : Bool := decide (a.components = b.components)

/-- The order of paths, component by component. -/
def le (a b : Path) : Bool := (Component.orderAll a.components b.components).isLE

/-- The components joined by separators: the name of a file within its project. -/
def keyOf (components : List Component) : String :=
  String.ofList (joinWith ['/'] (components.map fun c => c.text.toList))

def key (path : Path) : String := keyOf path.components

def below? (base path : Path) : Option Path :=
  (Component.after? base.components path.components).map fun rest => ⟨keyOf rest⟩

/-- Appends a path; an absolute one replaces what it is appended to. -/
def join (base path : Path) : Path :=
  if path.isAbsolute then path
  else
    match base.text.toList.getLast? with
    | none => path
    | some '/' => ⟨base.text ++ path.text⟩
    | some _ => ⟨base.text ++ "/" ++ path.text⟩

def isFiller (part : List Char) : Bool := part == [] || part == ['.']

/-- The text of a path without its last component, or nothing if that is the root or missing. What
comes before the last component keeps its spelling, up to separators and dots at its end. -/
def parent? (path : Path) : Option Path :=
  let text := path.text.toList
  let rooted := text.head? == some '/'
  let dotted := (splitAt '/' text).head? == some ['.']
  let lead := if rooted ∨ dotted then text.take 1 else []
  let parts := (splitAt '/' (text.drop lead.length)).reverse.dropWhile isFiller
  match parts with
  | [] => if dotted then some ⟨""⟩ else none
  | _ :: before =>
    some ⟨String.ofList (lead ++ joinWith ['/'] (before.dropWhile isFiller).reverse)⟩

/-- A path and its parents, innermost first, at most `limit` parents. -/
def ancestorsWithin (path : Path) : Nat → List Path
  | 0 => [path]
  | limit + 1 =>
    path ::
      match path.parent? with
      | none => []
      | some parent => parent.ancestorsWithin limit

/-- A path and all its parents, innermost first. A parent has a shorter text, so the length of the
text bounds their number. -/
def ancestors (path : Path) : List Path := path.ancestorsWithin path.text.length

def fileName? (path : Path) : Option String :=
  match path.components.getLast? with
  | some (.name text) => some text
  | _ => none

/-- What follows the last dot of the file name, if something precedes that dot. -/
def extension? (path : Path) : Option String :=
  path.fileName?.bind fun name =>
    match (splitAt '.' name.toList).reverse with
    | last :: before :: rest =>
      if before = [] ∧ rest = [] then none else some (String.ofList last)
    | _ => none

end Path

end SourceAtlas
