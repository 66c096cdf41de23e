import SourceAtlas.Declaration.Category
import SourceAtlas.Declaration.Reader
import SourceAtlas.Record

/-! Recording declarations: each kind of declaration, the members of a class, and a whole file. The
first declaration that cannot be recorded stops the recording. -/
namespace SourceAtlas

open Syntax

def Fault.malformed {α : Type} (file : SourceFile) (place : Place) (defect : Defect) :
    Except Fault α :=
  .error (.malformedNode (.of file place.node defect))

/-- The name of a declaration, unless it is empty. -/
def declaredName? (file : SourceFile) (place : Place) : Option String :=
  ((place.child? .name).map fun name => file.text name.node).filter (· ≠ "")

def declaredName (file : SourceFile) (place : Place) (defect : Defect) : Except Fault String :=
  match declaredName? file place with
  | some name => .ok name
  | none => Fault.malformed file place defect

def bodyOf (file : SourceFile) (place : Place) (defect : Defect) : Except Fault Place :=
  match place.child? .body with
  | some body => .ok body
  | none => Fault.malformed file place defect

namespace Reader

variable (reader : Reader) (file : SourceFile)

def typeIn? (field : Field) (place : Place) : Option String :=
  (place.child? field).bind fun annotation => reader.statedType? file annotation

/-- The documentation of a declaration, unless it is empty. -/
def documentation? (place : Place) : Option String :=
  some (reader.documentation file place) |>.filter (· ≠ "")

/-- The type of a property is the stated one; without an annotation it is the one that the declaration
shows. -/
def property (place : Place) : Except Fault PropertyRecord := do
  let name ← declaredName file place .propertyName
  match place.child? .type with
  | some annotation => return ⟨name, reader.statedType? file annotation⟩
  | none => return ⟨name, reader.inferredType? file place⟩

/-- The node that names a parameter: its pattern, or what a rest pattern collects into. -/
def parameterName (pattern : Place) : Node :=
  if pattern.node.kind = "rest_pattern" then
    (pattern.namedChildren.head?.map (·.node)).getD pattern.node
  else pattern.node

def parameter (place : Place) : Except Fault PropertyRecord :=
  match place.child? .pattern with
  | none => Fault.malformed file place .parameterName
  | some pattern => .ok ⟨file.text (parameterName pattern), reader.typeIn? file .type place⟩

def isParameter (place : Place) : Bool :=
  place.node.kind == "required_parameter" || place.node.kind == "optional_parameter"

/-- The parameters of a function, in order. An arrow function may have a single bare parameter. -/
def parameters (place : Place) : Except Fault (List PropertyRecord) :=
  match place.child? .parameter with
  | some bare => .ok [⟨file.text bare.node, none⟩]
  | none =>
    match place.child? .parameters with
    | none => .ok []
    | some list => (list.namedChildren.filter isParameter).mapM (reader.parameter file)

def returnType (place : Place) : String := (reader.typeIn? file .returnType place).getD anyType

/-- What a function takes and returns. A getter takes nothing, and a setter returns nothing. -/
def signature (category : Category) (place : Place) : Except Fault (List PropertyRecord × String) :=
  match category with
  | .getter => .ok ([], reader.returnType file place)
  | .setter => do return (← reader.parameters file place, voidType)
  | _ => do return (← reader.parameters file place, reader.returnType file place)

/-- A function, method or accessor. Without a name it is not recorded. -/
def function? (category : Category) (place : Place) : Except Fault (Option FunctionRecord) :=
  match declaredName? file place with
  | none => .ok none
  | some name => do
    let content ← reader.print .removed file place
    let (parameters, returnType) ← reader.signature file category place
    return some ⟨name, content, parameters, returnType, reader.documentation? file place⟩

def propertySignature (place : Place) : Except Fault PropertyRecord := do
  let name ← declaredName file place .signatureName
  return ⟨name, some ((reader.typeIn? file .type place).getD anyType)⟩

/-- An interface with its property signatures; its other members are left out. -/
def interface (place : Place) : Except Fault InterfaceRecord := do
  let name ← declaredName file place .interfaceName
  let body ← bodyOf file place .interfaceBody
  let signatures := body.namedChildren.filter fun member => member.node.kind == "property_signature"
  let properties ← signatures.mapM (reader.propertySignature file)
  return ⟨name, properties, reader.documentation? file place⟩

/-- A member of an enumeration, with or without an initialiser; other nodes are left out. -/
def enumMember? (place : Place) : Except Fault (Option EnumMemberRecord) :=
  match place.node.kind with
  | "enum_assignment" => do
    let name ← declaredName file place .enumMemberName
    return some ⟨name, (place.child? .value).map fun value => file.text value.node⟩
  | "property_identifier" | "string" | "number" | "computed_property_name" =>
    .ok (some ⟨file.text place.node, none⟩)
  | _ => .ok none

def enumeration (place : Place) : Except Fault EnumRecord := do
  let name ← declaredName file place .enumName
  let body ← bodyOf file place .enumBody
  let members ← body.namedChildren.mapM (enumMember? file)
  return ⟨name, members.filterMap id, reader.documentation? file place⟩

def classMembers (place : Place) : List Place :=
  match place.child? .body with
  | none => []
  | some body => body.namedChildren

theorem sizeOf_lt_of_mem_classMembers {place member : Place} (inside : member ∈ classMembers place) :
    sizeOf member.node < sizeOf place.node := by
  unfold classMembers at inside
  split at inside
  · simp at inside
  · next body found =>
    exact Nat.lt_trans (Place.sizeOf_lt_of_mem_namedChildren inside)
      (Place.sizeOf_lt_of_child? found)

mutual

/-- The record of what a place declares, or nothing if it declares nothing that is kept. -/
def member? (place : Place) : Except Fault (Option Member) :=
  match _known : declaration? file place with
  | none => .ok none
  | some declaration =>
    match declaration.category with
    | .property => do return some (.property (← reader.property file declaration.place))
    | .interface => do return some (.interface (← reader.interface file declaration.place))
    | .enumeration => do return some (.enumeration (← reader.enumeration file declaration.place))
    | .classDeclaration => do
      return some (.classDeclaration (← classRecord declaration.place))
    | category => do
      return (← reader.function? file category declaration.place).map .function
termination_by (sizeOf place.node, 1)
decreasing_by
  rcases Nat.lt_or_eq_of_le (sizeOf_declaration_le _known) with less | same
  · exact Prod.Lex.left _ _ less
  · rw [same]
    exact Prod.Lex.right _ Nat.zero_lt_one

/-- A class with its own members. Classes inside it are read, but not kept. -/
def classRecord (place : Place) : Except Fault ClassRecord := do
  let members ← (classMembers place).attach.mapM fun member => member? member.1
  return (members.filterMap id).foldl ClassRecord.append (.empty (declaredName? file place))
termination_by (sizeOf place.node, 0)
decreasing_by exact Prod.Lex.left _ _ (sizeOf_lt_of_mem_classMembers member.2)

end

/-- Puts what a place declares into a container. -/
def aggregate {α : Type} [Container α] (place : Place) : ExceptT Fault (StateM α) Unit := do
  let found ← ExceptT.mk (pure (reader.member? file place))
  if let some member := found then
    modify (Container.append · member)

/-- A whole file. `key` names it, and `dependencies` are recorded as they are. -/
def moduleRecord (key : String) (dependencies : List String) : Except Fault ModuleRecord := do
  let members ← file.root.namedChildren.mapM (reader.member? file)
  return (members.filterMap id).foldl ModuleRecord.append (.empty key dependencies)

end Reader

end SourceAtlas
