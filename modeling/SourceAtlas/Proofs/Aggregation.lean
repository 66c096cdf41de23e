import SourceAtlas.Proofs.FirstFault
import SourceAtlas.Proofs.Recording

/-! Containers grow by what is declared at places. Members go to the end of the list for their kind, in
the order of the calls, and a call that fails changes nothing. The records of a class and of a file come
about in this way from their direct children. -/
namespace SourceAtlas

open Syntax

-- Members by their kind

namespace Member

def function? : Member → Option FunctionRecord
  | .function record => some record
  | _ => none

def property? : Member → Option PropertyRecord
  | .property record => some record
  | _ => none

def interface? : Member → Option InterfaceRecord
  | .interface record => some record
  | _ => none

def enumeration? : Member → Option EnumRecord
  | .enumeration record => some record
  | _ => none

def class? : Member → Option ClassRecord
  | .classDeclaration record => some record
  | _ => none

end Member

/-- A class with further members, each at the end of the list for its kind. Classes are not kept. -/
def ClassRecord.extend (record : ClassRecord) (members : List Member) : ClassRecord :=
  { record with
    functions := record.functions ++ members.filterMap Member.function?
    properties := record.properties ++ members.filterMap Member.property?
    interfaces := record.interfaces ++ members.filterMap Member.interface?
    enums := record.enums ++ members.filterMap Member.enumeration? }

/-- A file with further members, each at the end of the list for its kind. Properties are not kept. -/
def ModuleRecord.extend (record : ModuleRecord) (members : List Member) : ModuleRecord :=
  { record with
    classes := record.classes ++ members.filterMap Member.class?
    functions := record.functions ++ members.filterMap Member.function?
    interfaces := record.interfaces ++ members.filterMap Member.interface?
    enums := record.enums ++ members.filterMap Member.enumeration? }

theorem ClassRecord.foldl_append (members : List Member) (record : ClassRecord) :
    members.foldl ClassRecord.append record = record.extend members := by
  induction members generalizing record with
  | nil => simp [extend]
  | cons member members ih =>
    rw [List.foldl_cons,ih]
    cases member <;> simp [extend,append,List.filterMap_cons,Member.function?,Member.property?,
      Member.interface?,Member.enumeration?]

theorem ModuleRecord.foldl_append (members : List Member) (record : ModuleRecord) :
    members.foldl ModuleRecord.append record = record.extend members := by
  induction members generalizing record with
  | nil => simp [extend]
  | cons member members ih =>
    rw [List.foldl_cons,ih]
    cases member <;> simp [extend,append,List.filterMap_cons,Member.function?,Member.class?,
      Member.interface?,Member.enumeration?]

-- What is recorded of a declaration

def Category.isFunction : Category → Bool
  | .function | .getter | .setter => true
  | .property | .interface | .enumeration | .classDeclaration => false

namespace Reader

/-- The one member that a declaration of each category gives. What stands in the body of a class is
within the record of that class. -/
inductive Records (reader : Reader) (file : SourceFile) : Declaration → Member → Prop
  | function {category : Category} {place : Place} {record : FunctionRecord}
    (kind : category.isFunction = true)
    (made : reader.function? file category place = .ok (some record)) :
    Records reader file ⟨category,place⟩ (.function record)
  | property {place : Place} {record : PropertyRecord} (made : reader.property file place = .ok record) :
    Records reader file ⟨.property,place⟩ (.property record)
  | interface {place : Place} {record : InterfaceRecord}
    (made : reader.interface file place = .ok record) :
    Records reader file ⟨.interface,place⟩ (.interface record)
  | enumeration {place : Place} {record : EnumRecord}
    (made : reader.enumeration file place = .ok record) :
    Records reader file ⟨.enumeration,place⟩ (.enumeration record)
  | classDeclaration {place : Place} {record : ClassRecord}
    (made : reader.classRecord file place = .ok record) :
    Records reader file ⟨.classDeclaration,place⟩ (.classDeclaration record)

variable {reader : Reader} {file : SourceFile} {place : Place} {member : Member}

theorem declared?_of_function {category : Category} (kind : category.isFunction = true) :
    reader.declared? file ⟨category,place⟩ =
      (do return (← reader.function? file category place).map Member.function) := by
  cases category with
  | function => rfl
  | getter => rfl
  | setter => rfl
  | _ => contradiction

theorem records_of_function {category : Category} (kind : category.isFunction = true)
    (made : reader.declared? file ⟨category,place⟩ = .ok (some member)) :
    reader.Records file ⟨category,place⟩ member := by
  rw [declared?_of_function kind] at made
  obtain ⟨found,here,returned⟩ := bind_eq_ok_iff.mp made
  obtain ⟨record,rfl,rfl⟩ := Option.map_eq_some_iff.mp (Except.ok.inj returned)
  exact .function kind here

theorem declared?_eq_some_iff {declaration : Declaration} :
    reader.declared? file declaration = .ok (some member) ↔ reader.Records file declaration member := by
  constructor
  · intro made
    obtain ⟨category,place⟩ := declaration
    cases category with
    | function => exact records_of_function rfl made
    | getter => exact records_of_function rfl made
    | setter => exact records_of_function rfl made
    | property =>
      obtain ⟨record,here,returned⟩ := bind_eq_ok_iff.mp made
      cases returned
      exact .property here
    | interface =>
      obtain ⟨record,here,returned⟩ := bind_eq_ok_iff.mp made
      cases returned
      exact .interface here
    | enumeration =>
      obtain ⟨record,here,returned⟩ := bind_eq_ok_iff.mp made
      cases returned
      exact .enumeration here
    | classDeclaration =>
      obtain ⟨record,here,returned⟩ := bind_eq_ok_iff.mp made
      cases returned
      exact .classDeclaration here
  · intro records
    cases records with
    | function kind made =>
      rw [declared?_of_function kind]
      exact bind_eq_ok_iff.mpr ⟨_,made,rfl⟩
    | property made => exact bind_eq_ok_iff.mpr ⟨_,made,rfl⟩
    | interface made => exact bind_eq_ok_iff.mpr ⟨_,made,rfl⟩
    | enumeration made => exact bind_eq_ok_iff.mpr ⟨_,made,rfl⟩
    | classDeclaration made => exact bind_eq_ok_iff.mpr ⟨_,made,rfl⟩

theorem member?_eq_some_iff : reader.member? file place = .ok (some member) ↔
    ∃ declaration, declaration? file place = some declaration ∧ reader.Records file declaration member := by
  cases known : declaration? file place with
  | none => simp [member?_of_none known]
  | some declaration => simp [member?_of_some known,declared?_eq_some_iff]

end Reader

-- Calls on a container

/-- A request to put what a place declares into a container. -/
structure Call where
  reader : Reader
  file : SourceFile
  place : Place

namespace Call

def found (call : Call) : Except Fault (Option Member) := call.reader.member? call.file call.place

def answer (call : Call) : Except Fault Unit := call.found.map fun _ => ()

/-- The member that a call finds, if it succeeds and finds one. -/
def member? (call : Call) : Option Member := call.found.toOption.join

theorem member?_eq_some_iff {call : Call} {member : Member} :
    call.member? = some member ↔ call.found = .ok (some member) := by
  unfold member?
  cases call.found with
  | error fault => simp [Except.toOption]
  | ok found => simp [Except.toOption]

theorem answer_eq_ok_iff {call : Call} : call.answer = .ok () ↔ ∃ found, call.found = .ok found := by
  unfold answer
  cases call.found with
  | error fault => simp [Except.map]
  | ok found => simp [Except.map]

variable {α : Type} [Container α]

def perform (call : Call) : StateM α (Except Fault Unit) :=
  (call.reader.aggregate call.file call.place).run

/-- All calls in order, whether those before have failed or not. -/
def performAll (calls : List Call) : StateM α (List (Except Fault Unit)) := calls.mapM perform

theorem perform_eq (call : Call) (container : α) : call.perform.run container =
    (call.answer,call.member?.elim container (Container.append container)) := by
  unfold perform Reader.aggregate answer member? found
  cases call.reader.member? call.file call.place with
  | error fault => rfl
  | ok found => cases found <;> rfl

theorem performAll_eq (calls : List Call) (container : α) : (performAll calls).run container =
    (calls.map answer,(calls.filterMap member?).foldl Container.append container) := by
  induction calls generalizing container with
  | nil => rfl
  | cons call calls ih =>
    have parted : (performAll (call :: calls)).run container = (do
        let (answers,final) ← (performAll calls).run (call.member?.elim container (Container.append container))
        pure (call.answer :: answers,final) : Id (List (Except Fault Unit) × α)) := by
      rw [performAll,List.mapM_cons,StateT.run_bind,perform_eq]
      rfl
    rw [parted,ih,List.filterMap_cons]
    cases call.member? <;> rfl

end Call

-- Classes and files

namespace Reader

variable {reader : Reader} {file : SourceFile}

def calls (reader : Reader) (file : SourceFile) (places : List Place) : List Call :=
  places.map (Call.mk reader file)

/-- Reading all places and keeping the members is the same as calling for each of them, if none fails. -/
theorem mapM_member?_iff {α : Type} [Container α] {places : List Place} {container final : α} :
    (∃ found, places.mapM (reader.member? file) = .ok found ∧
      (found.filterMap id).foldl Container.append container = final) ↔
      (∀ call ∈ reader.calls file places, call.answer = .ok ()) ∧
      ((Call.performAll (reader.calls file places)).run container).2 = final := by
  rw [Call.performAll_eq]
  have kept : (places.map fun place => (reader.member? file place).toOption.join).filterMap id =
      (reader.calls file places).filterMap Call.member? := by
    rw [calls,List.filterMap_map,List.filterMap_map]
    rfl
  have answered : (∀ call ∈ reader.calls file places, call.answer = .ok ()) ↔
      ∀ place ∈ places, ∃ found, reader.member? file place = .ok found := by
    rw [calls,List.forall_mem_map]
    exact forall₂_congr fun place _ => Call.answer_eq_ok_iff
  rw [answered,← kept]
  constructor
  · rintro ⟨found,made,rfl⟩
    obtain ⟨each,rfl⟩ := mapM_option_eq_ok_iff.mp made
    exact ⟨each,rfl⟩
  · rintro ⟨each,rfl⟩
    exact ⟨_,mapM_option_eq_ok_iff.mpr ⟨each,rfl⟩,rfl⟩

theorem classRecord_eq_ok_iff {place : Place} {record : ClassRecord} :
    reader.classRecord file place = .ok record ↔
      (∀ call ∈ reader.calls file (classMembers place), call.answer = .ok ()) ∧
      ((Call.performAll (reader.calls file (classMembers place))).run
        (ClassRecord.empty (declaredName? file place))).2 = record := by
  rw [classRecord_eq,bind_eq_ok_iff,← mapM_member?_iff]
  exact exists_congr fun found => and_congr_right fun _ => ⟨Except.ok.inj,congrArg Except.ok⟩

theorem moduleRecord_eq_ok_iff {key : String} {dependencies : List String} {record : ModuleRecord} :
    reader.moduleRecord file key dependencies = .ok record ↔
      (∀ call ∈ reader.calls file file.root.namedChildren, call.answer = .ok ()) ∧
      ((Call.performAll (reader.calls file file.root.namedChildren)).run
        (ModuleRecord.empty key dependencies)).2 = record := by
  rw [moduleRecord,bind_eq_ok_iff,← mapM_member?_iff]
  exact exists_congr fun found => and_congr_right fun _ => ⟨Except.ok.inj,congrArg Except.ok⟩

theorem map_node_classMembers (place : Place) : (classMembers place).map (·.node) =
    (place.child? .body).toList.flatMap fun body => body.node.children.filter (·.named) := by
  unfold classMembers
  cases place.child? .body with
  | none => rfl
  | some body => simp [Place.map_node_namedChildren]

end Reader

theorem Call.perform_of_error {α : Type} [Container α] {call : Call} {fault : Fault} (container : α)
    (failed : call.found = .error fault) : call.perform.run container = (.error fault,container) := by
  rw [perform_eq,answer,member?,failed]
  rfl

theorem Call.member?_of_class {call : Call} {declared : Place}
    (known : declaration? call.file call.place = some ⟨.classDeclaration,declared⟩) :
    call.member? = (call.reader.classRecord call.file declared).toOption.map Member.classDeclaration := by
  rw [member?,found,Reader.member?_of_some known,Reader.declared?]
  cases call.reader.classRecord call.file declared <;> rfl

/-- Calls on the record of a class or of a file, whatever it holds already and however they end: each
list grows at its end by the members of its kind that the calls find, in their order, and nothing else
changes, so a class keeps no classes and a file no properties. A call that fails changes nothing at all.
Classes and files are read by one such call for each direct child, and what stands in the body of a
class goes into the record of that class alone. -/
theorem aggregate_exact :
    (∀ (calls : List Call) (record : ClassRecord), (Call.performAll calls).run record =
      (calls.map Call.answer,record.extend (calls.filterMap Call.member?))) ∧
    (∀ (calls : List Call) (record : ModuleRecord), (Call.performAll calls).run record =
      (calls.map Call.answer,record.extend (calls.filterMap Call.member?))) ∧
    (∀ {α : Type} [Container α] (call : Call) (fault : Fault) (container : α),
      call.found = .error fault → call.perform.run container = (.error fault,container)) ∧
    (∀ (call : Call) (member : Member), call.member? = some member ↔
      ∃ declaration, declaration? call.file call.place = some declaration ∧
        call.reader.Records call.file declaration member) ∧
    (∀ (call : Call) (declared : Place),
      declaration? call.file call.place = some ⟨.classDeclaration,declared⟩ → call.member? =
        (call.reader.classRecord call.file declared).toOption.map Member.classDeclaration) ∧
    (∀ (reader : Reader) (file : SourceFile) (place : Place) (record : ClassRecord),
      reader.classRecord file place = .ok record ↔
        (∀ call ∈ reader.calls file (Reader.classMembers place), call.answer = .ok ()) ∧
        ((Call.performAll (reader.calls file (Reader.classMembers place))).run
          (ClassRecord.empty (declaredName? file place))).2 = record) ∧
    (∀ (reader : Reader) (file : SourceFile) (key : String) (dependencies : List String)
      (record : ModuleRecord), reader.moduleRecord file key dependencies = .ok record ↔
        (∀ call ∈ reader.calls file file.root.namedChildren, call.answer = .ok ()) ∧
        ((Call.performAll (reader.calls file file.root.namedChildren)).run
          (ModuleRecord.empty key dependencies)).2 = record) ∧
    (∀ place : Place, (Reader.classMembers place).map (·.node) =
      (place.child? .body).toList.flatMap fun body => body.node.children.filter (·.named)) ∧
    ∀ file : SourceFile, file.root.namedChildren.map (·.node) = file.tree.children.filter (·.named) := by
  refine ⟨?_,?_,?_,?_,?_,?_,?_,?_,?_⟩
  · intro calls record
    rw [Call.performAll_eq]
    exact congrArg _ (ClassRecord.foldl_append _ record)
  · intro calls record
    rw [Call.performAll_eq]
    exact congrArg _ (ModuleRecord.foldl_append _ record)
  · intro α container call fault record failed
    exact call.perform_of_error record failed
  · intro call member
    rw [Call.member?_eq_some_iff]
    exact Reader.member?_eq_some_iff
  · intro call declared known
    exact Call.member?_of_class known
  · intro reader file place record
    exact Reader.classRecord_eq_ok_iff
  · intro reader file key dependencies record
    exact Reader.moduleRecord_eq_ok_iff
  · exact Reader.map_node_classMembers
  · intro file
    exact Place.map_node_namedChildren file.root

-- A file with an enumeration, an interface without a name and a class

def mixedTree : Node :=
  ⟨"program",true,0,33,[],[⟨"enum_declaration",true,0,9,[],[⟨"enum",false,0,4,[],[]⟩,
      ⟨"identifier",true,5,6,[.name],[]⟩,
      ⟨"enum_body",true,7,9,[.body],[⟨"\x7b",false,7,8,[],[]⟩,⟨"\x7d",false,8,9,[],[]⟩]⟩]⟩,
    ⟨"interface_declaration",true,10,22,[],[⟨"interface",false,10,19,[],[]⟩,
      ⟨"interface_body",true,20,22,[.body],[⟨"\x7b",false,20,21,[],[]⟩,⟨"\x7d",false,21,22,[],[]⟩]⟩]⟩,
    ⟨"class_declaration",true,23,33,[],[⟨"class",false,23,28,[],[]⟩,
      ⟨"type_identifier",true,29,30,[.name],[]⟩,
      ⟨"class_body",true,31,33,[.body],[⟨"\x7b",false,31,32,[],[]⟩,⟨"\x7d",false,32,33,[],[]⟩]⟩]⟩]⟩

def mixedFile : SourceFile :=
  ⟨⟨"a.ts"⟩,Utf8.encode "enum E \x7b\x7d interface \x7b\x7d class C \x7b\x7d".toList,mixedTree⟩

def mixedCall (index : Nat) : Call :=
  ⟨.syntactic,mixedFile,mixedFile.root.namedChildren.getD index mixedFile.root⟩

def mixedCalls : List Call := [mixedCall 0,mixedCall 1,mixedCall 2]

def mixedFault : Fault := .malformedNode ⟨.interfaceName,"interface_declaration","a.ts",1⟩

theorem mixedCall_enum : (mixedCall 0).found = .ok (some (.enumeration ⟨"E",[],none⟩)) := by
  have recorded : Reader.syntactic.enumeration mixedFile (mixedCall 0).place = .ok ⟨"E",[],none⟩ := by
    decide +kernel
  exact Reader.member?_eq_some_iff.mpr ⟨_,declaration?_of_plain rfl,.enumeration recorded⟩

theorem mixedCall_interface : (mixedCall 1).found = .error mixedFault := by
  have refused : Reader.syntactic.interface mixedFile (mixedCall 1).place = .error mixedFault := by
    decide +kernel
  have read : (mixedCall 1).found = Reader.syntactic.declared? mixedFile ⟨.interface,(mixedCall 1).place⟩ :=
    Reader.member?_of_some (declaration?_of_plain rfl)
  rw [read]
  exact bind_eq_error_iff.mpr (.inl refused)

theorem mixedCall_class : (mixedCall 2).found = .ok (some (.classDeclaration (.empty (some "C")))) := by
  have name : declaredName? mixedFile (mixedCall 2).place = some "C" := by decide +kernel
  have empty : Reader.classMembers (mixedCall 2).place = [] := rfl
  have recorded : Reader.syntactic.classRecord mixedFile (mixedCall 2).place = .ok (.empty (some "C")) := by
    rw [Reader.classRecord_eq,empty,name]
    rfl
  exact Reader.member?_eq_some_iff.mpr ⟨_,declaration?_of_plain rfl,.classDeclaration recorded⟩

theorem aggregate_exact_mixed :
    (Call.performAll mixedCalls).run (ClassRecord.empty none) = ([.ok (),.error mixedFault,.ok ()],
      { ClassRecord.empty none with enums := [⟨"E",[],none⟩] }) ∧
    (Call.performAll mixedCalls).run (ModuleRecord.empty "m" []) = ([.ok (),.error mixedFault,.ok ()],
      { ModuleRecord.empty "m" [] with enums := [⟨"E",[],none⟩], classes := [.empty (some "C")] }) ∧
    (mixedCall 1).perform.run (ClassRecord.empty none) = (.error mixedFault,.empty none) := by
  obtain ⟨inClass,inModule,failed,_⟩ := aggregate_exact
  have answers : mixedCalls.map Call.answer = [.ok (),.error mixedFault,.ok ()] := by
    simp only [mixedCalls,List.map_cons,List.map_nil,Call.answer,mixedCall_enum,mixedCall_interface,
      mixedCall_class]
    rfl
  have members : mixedCalls.filterMap Call.member? =
      [.enumeration ⟨"E",[],none⟩,.classDeclaration (.empty (some "C"))] := by
    simp only [mixedCalls,List.filterMap_cons,List.filterMap_nil,Call.member?,mixedCall_enum,
      mixedCall_interface,mixedCall_class]
    rfl
  refine ⟨?_,?_,failed _ _ _ mixedCall_interface⟩
  · rw [inClass,answers,members]
    rfl
  · rw [inModule,answers,members]
    rfl

end SourceAtlas
