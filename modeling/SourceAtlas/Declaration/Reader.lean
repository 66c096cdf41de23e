import SourceAtlas.Fault
import SourceAtlas.Syntax.Documentation
import SourceAtlas.Syntax.TypeText

/-! The questions that the recording of declarations asks about a source text. -/
namespace SourceAtlas

open Syntax

inductive Comments
  | kept
  | removed
  deriving DecidableEq, Repr

/-- A way to answer the questions: the type that an annotation states, the type that a declaration
without one shows, the text of a node, and its documentation. -/
structure Reader where
  statedType? : SourceFile → Place → Option String
  inferredType? : SourceFile → Place → Option String
  print : Comments → SourceFile → Place → Except Fault String
  documentation : SourceFile → Place → String

namespace Reader

def syntactic : Reader where
  statedType? file place := file.typeText? place
  inferredType? file place := file.inferredType? place
  print
    | .kept, file, place => .ok (file.text place.node)
    | .removed, file, place => .ok (file.textWithoutComments place.node)
  documentation file place := file.documentation place

/-- A reader that knows no types. -/
def untyped (reader : Reader) : Reader :=
  { reader with statedType? := fun _ _ => none, inferredType? := fun _ _ => none }

/-- A reader that cannot print nodes of one kind. -/
def withoutKind (kind : String) (reader : Reader) : Reader :=
  { reader with
    print := fun comments file place =>
      if place.node.kind = kind then .error (.malformedNode (.of file place.node .rendering))
      else reader.print comments file place }

end Reader

end SourceAtlas
