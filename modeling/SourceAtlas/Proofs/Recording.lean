import SourceAtlas.Declaration.Extract

/-! The equations of classification and recording, free of the bounds that end their recursion. -/
namespace SourceAtlas

open Syntax

variable {file : SourceFile} {place : Place}

theorem kind_of_exported {kind : String} (form : declarationForm kind = .exported) :
    kind = "export_statement" := by
  unfold declarationForm at form
  split at form
  · rfl
  all_goals contradiction

theorem kind_of_ambient {kind : String} (form : declarationForm kind = .ambient) :
    kind = "ambient_declaration" := by
  unfold declarationForm at form
  split at form
  · contradiction
  · rfl
  all_goals contradiction

theorem declaration?_of_plain {category : Category}
    (form : declarationForm place.node.kind = .plain category) :
    declaration? file place = some ⟨category,place⟩ := by
  rw [declaration?,form]

theorem declaration?_of_method (form : declarationForm place.node.kind = .method) :
    declaration? file place = (methodCategory? file place).map fun category => ⟨category,place⟩ := by
  rw [declaration?,form]

theorem declaration?_of_other (form : declarationForm place.node.kind = .none) :
    declaration? file place = none := by
  rw [declaration?,form]

theorem declaration?_of_exported {inner : Place} (kind : place.node.kind = "export_statement")
    (inside : exported? place = some inner) : declaration? file place = declaration? file inner := by
  rw [declaration?,kind]
  simp only [declarationForm]
  split
  · next found => rw [Option.some.inj (inside.symm.trans found)]
  · next nothing => cases inside.symm.trans nothing

theorem declaration?_of_nothing (kind : place.node.kind = "export_statement")
    (nothing : exported? place = none) : declaration? file place = none := by
  rw [declaration?,kind]
  simp only [declarationForm]
  split
  · next found => cases nothing.symm.trans found
  · rfl

theorem declaration?_of_ambient (kind : place.node.kind = "ambient_declaration") :
    declaration? file place = place.namedChildren.findSome? (declaration? file) := by
  rw [declaration?,kind]
  change place.namedChildren.attach.findSome? (declaration? file ∘ Subtype.val) = _
  rw [← List.findSome?_map,List.attach_map_subtype_val]

namespace Reader

variable {reader : Reader}

/-- The record of a declaration that is classified already. -/
def declared? (reader : Reader) (file : SourceFile) (declaration : Declaration) :
    Except Fault (Option Member) :=
  match declaration.category with
  | .property => do return some (.property (← reader.property file declaration.place))
  | .interface => do return some (.interface (← reader.interface file declaration.place))
  | .enumeration => do return some (.enumeration (← reader.enumeration file declaration.place))
  | .classDeclaration => do
    return some (.classDeclaration (← reader.classRecord file declaration.place))
  | category => do return (← reader.function? file category declaration.place).map .function

theorem member?_of_none (unknown : declaration? file place = none) :
    reader.member? file place = .ok none := by
  rw [member?]
  split
  · rfl
  · next known => cases unknown.symm.trans known

theorem member?_of_some {declaration : Declaration} (known : declaration? file place = some declaration) :
    reader.member? file place = reader.declared? file declaration := by
  rw [member?]
  split
  · next unknown => cases unknown.symm.trans known
  · next same =>
    cases known.symm.trans same
    rfl

theorem classRecord_eq : reader.classRecord file place = (do
    let members ← (classMembers place).mapM (reader.member? file)
    return (members.filterMap id).foldl ClassRecord.append (.empty (declaredName? file place))) := by
  have members : (classMembers place).attach.mapM (reader.member? file ∘ Subtype.val) =
      (classMembers place).mapM (reader.member? file) := by
    rw [← List.mapM_map,List.attach_map_subtype_val]
  rw [classRecord,← members]
  rfl

end Reader

end SourceAtlas
