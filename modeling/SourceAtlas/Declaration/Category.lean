import SourceAtlas.Syntax.Source

/-! Which nodes are declarations, and of what category. Export and ambient statements stand for the
declaration inside them. -/
namespace SourceAtlas

open Syntax

inductive Category
  | function
  | property
  | getter
  | setter
  | interface
  | enumeration
  | classDeclaration
  deriving DecidableEq, Repr

structure Declaration where
  category : Category
  place : Place
  deriving Repr

/-- The keyword that makes a method an accessor. A method with such a name has no such keyword. -/
def accessor? (place : Place) : Option Category :=
  place.node.children.findSome? fun child =>
    match child.kind with
    | "get" => some .getter
    | "set" => some .setter
    | _ => none

def constructorNames : List String := ["constructor", "\"constructor\"", "\x27constructor\x27"]

def isConstructor (file : SourceFile) (place : Place) : Bool :=
  match place.child? .name with
  | some name => constructorNames.contains (file.text name.node)
  | none => false

/-- How a kind of node is declared: it is a category of its own, a method, a statement around a
declaration, or nothing that is kept. -/
inductive DeclarationForm
  | plain (category : Category)
  | method
  | exported
  | ambient
  | none

def declarationForm : String → DeclarationForm
  | "export_statement" => .exported
  | "ambient_declaration" => .ambient
  | "method_definition" | "method_signature" | "abstract_method_signature" => .method
  | "function_declaration" | "generator_function_declaration" | "function_signature"
  | "function_expression" | "function" | "generator_function" | "arrow_function" => .plain .function
  | "public_field_definition" | "field_definition" => .plain .property
  | "interface_declaration" => .plain .interface
  | "enum_declaration" => .plain .enumeration
  | "class_declaration" | "abstract_class_declaration" | "class" => .plain .classDeclaration
  | _ => .none

/-- The category of a method that is not a constructor. -/
def methodCategory? (file : SourceFile) (place : Place) : Option Category :=
  match accessor? place with
  | some category => some category
  | none => if isConstructor file place then none else some .function

/-- The part of an export statement that may declare something. -/
def exported? (place : Place) : Option Place :=
  (place.child? .declaration).or (place.child? .value)

theorem sizeOf_lt_of_exported? {place inner : Place} (found : exported? place = some inner) :
    sizeOf inner.node < sizeOf place.node := by
  unfold exported? at found
  rcases Option.or_eq_some_iff.1 found with declared | ⟨_, value⟩
  · exact Place.sizeOf_lt_of_child? declared
  · exact Place.sizeOf_lt_of_child? value

def declaration? (file : SourceFile) (place : Place) : Option Declaration :=
  match declarationForm place.node.kind with
  | .plain category => some ⟨category, place⟩
  | .method => (methodCategory? file place).map fun category => ⟨category, place⟩
  | .exported =>
    match _found : exported? place with
    | some inner => declaration? file inner
    | none => none
  | .ambient => place.namedChildren.attach.findSome? fun inner => declaration? file inner.1
  | .none => none
termination_by sizeOf place.node
decreasing_by
  · exact sizeOf_lt_of_exported? _found
  · exact Place.sizeOf_lt_of_mem_namedChildren inner.2

theorem sizeOf_declaration_le {file : SourceFile} {place : Place} {found : Declaration}
    (known : declaration? file place = some found) :
    sizeOf found.place.node ≤ sizeOf place.node := by
  fun_induction declaration? file place with
  | case1 =>
    cases Option.some.inj known
    exact Nat.le_refl _
  | case2 =>
    obtain ⟨_, _, rfl⟩ := Option.map_eq_some_iff.1 known
    exact Nat.le_refl _
  | case3 place _ inner exportedHere ih =>
    exact Nat.le_of_lt (Nat.lt_of_le_of_lt (ih known) (sizeOf_lt_of_exported? exportedHere))
  | case4 => simp at known
  | case5 place _ ih =>
    obtain ⟨inner, _, here⟩ := List.exists_of_findSome?_eq_some known
    exact Nat.le_of_lt
      (Nat.lt_of_le_of_lt (ih inner here) (Place.sizeOf_lt_of_mem_namedChildren inner.2))
  | case6 => simp at known

end SourceAtlas
