/-! The records of an atlas: what is kept of each declaration, of each class and of each source file. -/
namespace SourceAtlas

/-- A class property, an interface property or a parameter. -/
structure PropertyRecord where
  name : String
  type : Option String
  deriving DecidableEq, Repr

/-- A named function, method, getter or setter. `content` is its text without comments. -/
structure FunctionRecord where
  name : String
  content : String
  parameters : List PropertyRecord
  returnType : String
  comments : Option String
  deriving DecidableEq, Repr

/-- `value` is the text of the member's initialiser. -/
structure EnumMemberRecord where
  name : String
  value : Option String
  deriving DecidableEq, Repr

structure EnumRecord where
  name : String
  members : List EnumMemberRecord
  summary : Option String
  deriving DecidableEq, Repr

structure InterfaceRecord where
  name : String
  properties : List PropertyRecord
  summary : Option String
  deriving DecidableEq, Repr

/-- A class with its own members, in source order. -/
structure ClassRecord where
  name : Option String
  functions : List FunctionRecord
  properties : List PropertyRecord
  interfaces : List InterfaceRecord
  enums : List EnumRecord
  deriving DecidableEq, Repr

/-- A source file with its top-level declarations, in source order. `path` names the file within its
project. -/
structure ModuleRecord where
  path : String
  classes : List ClassRecord
  functions : List FunctionRecord
  interfaces : List InterfaceRecord
  enums : List EnumRecord
  dependencies : List String
  deriving DecidableEq, Repr

def ClassRecord.empty (name : Option String) : ClassRecord := ⟨name, [], [], [], []⟩

def ModuleRecord.empty (path : String) (dependencies : List String) : ModuleRecord :=
  ⟨path, [], [], [], [], dependencies⟩

/-- Whether a file declares nothing that is kept. -/
def ModuleRecord.isEmpty (module : ModuleRecord) : Bool :=
  module.classes.isEmpty && module.functions.isEmpty && module.interfaces.isEmpty &&
    module.enums.isEmpty

inductive Member
  | function (record : FunctionRecord)
  | property (record : PropertyRecord)
  | interface (record : InterfaceRecord)
  | enumeration (record : EnumRecord)
  | classDeclaration (record : ClassRecord)
  deriving DecidableEq, Repr

/-- A class keeps no classes inside it. -/
def ClassRecord.append (record : ClassRecord) : Member → ClassRecord
  | .function f => { record with functions := record.functions ++ [f] }
  | .property p => { record with properties := record.properties ++ [p] }
  | .interface i => { record with interfaces := record.interfaces ++ [i] }
  | .enumeration e => { record with enums := record.enums ++ [e] }
  | .classDeclaration _ => record

/-- A file keeps no properties. -/
def ModuleRecord.append (record : ModuleRecord) : Member → ModuleRecord
  | .function f => { record with functions := record.functions ++ [f] }
  | .property _ => record
  | .interface i => { record with interfaces := record.interfaces ++ [i] }
  | .enumeration e => { record with enums := record.enums ++ [e] }
  | .classDeclaration c => { record with classes := record.classes ++ [c] }

/-- A record that keeps what is declared within it. -/
class Container (α : Type) where
  append : α → Member → α

instance : Container ClassRecord := ⟨ClassRecord.append⟩

instance : Container ModuleRecord := ⟨ModuleRecord.append⟩

end SourceAtlas
