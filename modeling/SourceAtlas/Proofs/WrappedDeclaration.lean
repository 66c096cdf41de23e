import SourceAtlas.Proofs.FirstFault
import SourceAtlas.Proofs.Recording

/-! Documentation of declarations within export and ambient statements. Only the innermost statement
counts: comments before it are read if it exports the declaration, and if not, those directly before the
declaration, inside the statement. -/
namespace SourceAtlas

open Syntax

-- Statements around a declaration

/-- The export and ambient statements around a declaration, outermost first. -/
inductive Wraps : Place → List Place → Place → Prop
  | bare (declared : Place) : Wraps declared [] declared
  | exported {outer inner declared : Place} {wrappers : List Place}
    (kind : outer.node.kind = "export_statement") (inside : exported? outer = some inner)
    (deeper : Wraps inner wrappers declared) : Wraps outer (outer :: wrappers) declared
  | ambient {outer inner declared : Place} {wrappers : List Place}
    (kind : outer.node.kind = "ambient_declaration") (inside : inner ∈ outer.namedChildren)
    (deeper : Wraps inner wrappers declared) : Wraps outer (outer :: wrappers) declared

/-- The documentation kept in a record. Properties and classes keep none. -/
def Member.documentation? : Member → Option (Option String)
  | .function record => some record.comments
  | .interface record => some record.summary
  | .enumeration record => some record.summary
  | .property _ | .classDeclaration _ => none

namespace Reader

variable {reader : Reader} {file : SourceFile} {place : Place}

end Reader

-- Where documentation is looked for

end SourceAtlas
