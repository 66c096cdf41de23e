import SourceAtlas.Syntax.Source

/-! Declarations that cannot be recorded: what is missing from a node, and where the node is. -/
namespace SourceAtlas

inductive Defect
  | propertyName
  | parameterName
  | interfaceName
  | interfaceBody
  | signatureName
  | enumName
  | enumBody
  | enumMemberName
  | rendering
  deriving DecidableEq, Repr

def Defect.step : Defect → String
  | propertyName => "extract_property"
  | parameterName => "extract_function_parameters"
  | interfaceName | interfaceBody | signatureName => "extract_interface"
  | enumName | enumBody | enumMemberName => "extract_enum"
  | rendering => "print"

def Defect.reason : Defect → String
  | propertyName => "property has no name"
  | parameterName => "parameter has no name"
  | interfaceName => "interface has no name"
  | interfaceBody => "interface has no body"
  | signatureName => "property signature has no name"
  | enumName => "enum has no name"
  | enumBody => "enum has no body"
  | enumMemberName => "enum member has no name"
  | rendering => "cannot render node"

/-- A defect with the kind of the node that has it, its file and its line. -/
structure MalformedNode where
  defect : Defect
  kind : String
  file : String
  line : Nat
  deriving DecidableEq, Repr

def MalformedNode.message (malformed : MalformedNode) : String :=
  malformed.defect.step ++ ": malformed " ++ malformed.kind ++ " node at " ++ malformed.file ++ ":" ++
    toString malformed.line ++ ": " ++ malformed.defect.reason

def MalformedNode.of (file : Syntax.SourceFile) (node : Syntax.Node) (defect : Defect) : MalformedNode :=
  ⟨defect, node.kind, file.path.text, file.line node⟩

end SourceAtlas
