import SourceAtlas.Proofs.Aggregation
import SourceAtlas.Proofs.Assembly
import SourceAtlas.Proofs.FirstOffence

/-! Records of an assembled atlas are well formed. Names, types and documentation that are there are not
empty, and the function records of a file or class stand for its named functions one by one, so that
those of getters and setters can be told. -/
namespace SourceAtlas

open Syntax

-- Records that are well formed

structure FunctionRecord.WellFormed (record : FunctionRecord) : Prop where
  name : record.name ≠ ""
  returnType : record.returnType ≠ ""
  comments : record.comments ≠ some ""

structure InterfaceRecord.WellFormed (record : InterfaceRecord) : Prop where
  name : record.name ≠ ""
  summary : record.summary ≠ some ""
  properties : ∀ property ∈ record.properties,
    property.name ≠ "" ∧ ∃ type, property.type = some type ∧ type ≠ ""

structure EnumRecord.WellFormed (record : EnumRecord) : Prop where
  name : record.name ≠ ""
  summary : record.summary ≠ some ""

/-- The record of a named function, method or accessor: a getter takes nothing, and a setter returns
nothing. -/
structure FunctionRecord.Describes (file : SourceFile) (declaration : Declaration)
    (record : FunctionRecord) : Prop where
  named : declaredName? file declaration.place = some record.name
  wellFormed : record.WellFormed
  getter : declaration.category = .getter → record.parameters = []
  setter : declaration.category = .setter → record.returnType = "void"

/-- What a place declares if that is a function, method or accessor with a name. -/
def namedFunction? (file : SourceFile) (place : Place) : Option Declaration :=
  (declaration? file place).filter fun declaration =>
    declaration.category.isFunction && (declaredName? file declaration.place).isSome

def declaredClass? (file : SourceFile) (place : Place) : Option Declaration :=
  (declaration? file place).filter (·.category = .classDeclaration)

structure ClassRecord.WellFormed (file : SourceFile) (declaration : Declaration) (record : ClassRecord) :
    Prop where
  name : record.name ≠ some ""
  functions : List.Forall₂ (FunctionRecord.Describes file)
    ((Reader.classMembers declaration.place).filterMap (namedFunction? file)) record.functions
  properties : ∀ property ∈ record.properties, property.name ≠ ""
  interfaces : ∀ inner ∈ record.interfaces, inner.WellFormed
  enums : ∀ inner ∈ record.enums, inner.WellFormed

structure ModuleRecord.WellFormed (file : SourceFile) (record : ModuleRecord) : Prop where
  classes : List.Forall₂ (ClassRecord.WellFormed file)
    (file.root.namedChildren.filterMap (declaredClass? file)) record.classes
  functions : List.Forall₂ (FunctionRecord.Describes file)
    (file.root.namedChildren.filterMap (namedFunction? file)) record.functions
  interfaces : ∀ inner ∈ record.interfaces, inner.WellFormed
  enums : ∀ inner ∈ record.enums, inner.WellFormed

-- Results that stand for items

section Results

variable {α β γ δ : Type} {items : List α} {results : List (Option β)} {relates : α → Option β → Prop}
  {second : β → Option δ}

theorem forall₂_filterMap {agrees : γ → δ → Prop} {first : α → Option γ}
    (all : List.Forall₂ relates items results)
    (each : ∀ item result, relates item result → Option.Rel agrees (first item) (result.bind second)) :
    List.Forall₂ agrees (items.filterMap first) ((results.filterMap id).filterMap second) := by
  rw [List.filterMap_filterMap]
  exact List.rel_filterMap (fun item result here => each item result here) all

theorem forall_mem_filterMap {holds : δ → Prop} (all : List.Forall₂ relates items results)
    (each : ∀ item result found, relates item (some result) → second result = some found → holds found) :
    ∀ found ∈ (results.filterMap id).filterMap second, holds found := by
  intro found member
  obtain ⟨result,inside,kept⟩ := List.mem_filterMap.mp member
  obtain ⟨_,inResults,rfl⟩ := List.mem_filterMap.mp inside
  obtain ⟨item,_,here⟩ := exists_of_forall₂ all inResults
  exact each item result found here kept

end Results

-- Declarations

namespace Reader

variable {file : SourceFile} {place : Place}

theorem declaredName?_ne_empty : declaredName? file place ≠ some "" := by
  intro named
  have kept := (Option.filter_eq_some_iff.mp named).2
  simp at kept

theorem declaredName?_of_declaredName {name : String} {defect : Defect}
    (named : declaredName file place defect = .ok name) : declaredName? file place = some name := by
  unfold declaredName at named
  split at named
  · next found =>
    cases Except.ok.inj named
    exact found
  · cases named

theorem ne_empty_of_declaredName {name : String} {defect : Defect}
    (named : declaredName file place defect = .ok name) : name ≠ "" := by
  rintro rfl
  exact declaredName?_ne_empty (declaredName?_of_declaredName named)

theorem documentation?_ne_empty {reader : Reader} : reader.documentation? file place ≠ some "" := by
  intro said
  have kept := (Option.filter_eq_some_iff.mp said).2
  simp at kept

theorem typeText?_ne_empty : file.typeText? place ≠ some "" := by
  intro stated
  have kept := (Option.filter_eq_some_iff.mp stated).2
  simp at kept

/-- A stated type, or the type of anything where none is stated. -/
theorem typeIn?_getD_ne_empty (field : Field) :
    (syntactic.typeIn? file field place).getD anyType ≠ "" := by
  cases stated : syntactic.typeIn? file field place with
  | none => decide
  | some type =>
    obtain ⟨written,_,text⟩ := Option.bind_eq_some_iff.mp stated
    rintro rfl
    exact typeText?_ne_empty text

theorem property_wellFormed {reader : Reader} {record : PropertyRecord}
    (made : reader.property file place = .ok record) : record.name ≠ "" := by
  obtain ⟨name,named,later⟩ := bind_eq_ok_iff.mp made
  have solid := ne_empty_of_declaredName named
  split at later <;> cases later <;> exact solid

theorem function?_describes {category : Category} {record : FunctionRecord}
    (made : syntactic.function? file category place = .ok (some record)) :
    record.Describes file ⟨category,place⟩ := by
  unfold function? at made
  split at made
  · cases made
  · next name named =>
    obtain ⟨content,_,later⟩ := bind_eq_ok_iff.mp made
    obtain ⟨⟨parameters,returnType⟩,taken,returned⟩ := bind_eq_ok_iff.mp later
    cases returned
    have solid : name ≠ "" := fun empty => declaredName?_ne_empty (empty ▸ named)
    have shape : returnType ≠ "" ∧ (category = .getter → parameters = []) ∧
        (category = .setter → returnType = voidType) := by
      have stated : syntactic.returnType file place ≠ "" := typeIn?_getD_ne_empty .returnType
      cases category with
      | getter =>
        cases taken
        exact ⟨stated,fun _ => rfl,nofun⟩
      | setter =>
        obtain ⟨_,_,returned⟩ := bind_eq_ok_iff.mp taken
        cases returned
        exact ⟨by decide,nofun,fun _ => rfl⟩
      | _ =>
        obtain ⟨_,_,returned⟩ := bind_eq_ok_iff.mp taken
        cases returned
        exact ⟨stated,nofun,nofun⟩
    exact ⟨named,⟨solid,shape.1,documentation?_ne_empty⟩,shape.2.1,shape.2.2⟩

theorem function?_eq_none_iff {reader : Reader} {category : Category} {result : Option FunctionRecord}
    (made : reader.function? file category place = .ok result) :
    result = none ↔ declaredName? file place = none := by
  unfold function? at made
  split at made
  · next unnamed =>
    cases made
    exact iff_of_true rfl unnamed
  · next named =>
    obtain ⟨content,_,later⟩ := bind_eq_ok_iff.mp made
    obtain ⟨signature,_,returned⟩ := bind_eq_ok_iff.mp later
    cases returned
    simp [named]

theorem interface_wellFormed {record : InterfaceRecord}
    (made : syntactic.interface file place = .ok record) : record.WellFormed := by
  obtain ⟨name,named,later⟩ := bind_eq_ok_iff.mp made
  obtain ⟨body,_,later⟩ := bind_eq_ok_iff.mp later
  obtain ⟨properties,each,returned⟩ := bind_eq_ok_iff.mp later
  cases returned
  refine ⟨ne_empty_of_declaredName named,documentation?_ne_empty,?_⟩
  intro property inside
  obtain ⟨part,_,signed⟩ := exists_of_forall₂ (mapM_eq_ok_iff.mp each) inside
  obtain ⟨partName,partNamed,returned⟩ := bind_eq_ok_iff.mp signed
  cases returned
  exact ⟨ne_empty_of_declaredName partNamed,_,rfl,typeIn?_getD_ne_empty .type⟩

theorem enumeration_wellFormed {reader : Reader} {record : EnumRecord}
    (made : reader.enumeration file place = .ok record) : record.WellFormed := by
  obtain ⟨name,named,later⟩ := bind_eq_ok_iff.mp made
  obtain ⟨body,_,later⟩ := bind_eq_ok_iff.mp later
  obtain ⟨members,_,returned⟩ := bind_eq_ok_iff.mp later
  cases returned
  exact ⟨ne_empty_of_declaredName named,documentation?_ne_empty⟩

-- Members of a file or class

/-- What is recorded of a place is well formed, and it is a function record exactly if the place
declares a named function. Class records are looked at apart, since a class keeps none of them. -/
structure MemberWellFormed (file : SourceFile) (place : Place) (result : Option Member) : Prop where
  functions : Option.Rel (FunctionRecord.Describes file) (namedFunction? file place)
    (result.bind Member.function?)
  properties : ∀ record, result.bind Member.property? = some record → record.name ≠ ""
  interfaces : ∀ record, result.bind Member.interface? = some record → record.WellFormed
  enums : ∀ record, result.bind Member.enumeration? = some record → record.WellFormed

theorem MemberWellFormed.of_function {declaration : Declaration} {result : Option FunctionRecord}
    (known : declaration? file place = some declaration) (function : declaration.category.isFunction = true)
    (made : syntactic.function? file declaration.category declaration.place = .ok result) :
    MemberWellFormed file place (result.map Member.function) := by
  refine ⟨?_,?_,?_,?_⟩
  · cases result with
    | none =>
      have unnamed := (function?_eq_none_iff made).mp rfl
      have passed : namedFunction? file place = none := by simp [namedFunction?,known,unnamed]
      rw [passed]
      exact .none
    | some record =>
      have described := function?_describes made
      have kept : namedFunction? file place = some declaration := by
        simp [namedFunction?,known,function,described.named]
      rw [kept]
      exact .some described
  all_goals
    intro record found
    cases result <;> cases found

theorem member?_wellFormed {result : Option Member} (recorded : syntactic.member? file place = .ok result) :
    MemberWellFormed file place result := by
  cases known : declaration? file place with
  | none =>
    rw [member?_of_none known] at recorded
    cases recorded
    have passed : namedFunction? file place = none := by simp [namedFunction?,known]
    exact ⟨passed ▸ .none,nofun,nofun,nofun⟩
  | some declaration =>
    rw [member?_of_some known] at recorded
    have passed (other : declaration.category.isFunction = false) : namedFunction? file place = none := by
      simp [namedFunction?,known,other]
    obtain ⟨category,declared⟩ := declaration
    cases category with
    | property =>
      obtain ⟨record,made,returned⟩ := bind_eq_ok_iff.mp recorded
      cases returned
      refine ⟨passed rfl ▸ .none,?_,nofun,nofun⟩
      rintro _ ⟨⟩
      exact property_wellFormed made
    | interface =>
      obtain ⟨record,made,returned⟩ := bind_eq_ok_iff.mp recorded
      cases returned
      refine ⟨passed rfl ▸ .none,nofun,?_,nofun⟩
      rintro _ ⟨⟩
      exact interface_wellFormed made
    | enumeration =>
      obtain ⟨record,made,returned⟩ := bind_eq_ok_iff.mp recorded
      cases returned
      refine ⟨passed rfl ▸ .none,nofun,nofun,?_⟩
      rintro _ ⟨⟩
      exact enumeration_wellFormed made
    | classDeclaration =>
      obtain ⟨record,made,returned⟩ := bind_eq_ok_iff.mp recorded
      cases returned
      exact ⟨passed rfl ▸ .none,nofun,nofun,nofun⟩
    | _ =>
      obtain ⟨found,made,returned⟩ := bind_eq_ok_iff.mp recorded
      cases returned
      exact .of_function known rfl made

theorem classRecord_wellFormed {declaration : Declaration} {record : ClassRecord}
    (made : syntactic.classRecord file declaration.place = .ok record) : record.WellFormed file declaration := by
  rw [classRecord_eq] at made
  obtain ⟨results,recorded,returned⟩ := bind_eq_ok_iff.mp made
  cases returned
  have all := (mapM_eq_ok_iff.mp recorded).imp fun _ _ here => member?_wellFormed here
  rw [ClassRecord.foldl_append]
  exact {
    name := declaredName?_ne_empty
    functions := forall₂_filterMap all fun _ _ here => here.functions
    properties := forall_mem_filterMap all fun _ _ _ here => here.properties _
    interfaces := forall_mem_filterMap all fun _ _ _ here => here.interfaces _
    enums := forall_mem_filterMap all fun _ _ _ here => here.enums _ }

theorem member?_class {result : Option Member} (recorded : syntactic.member? file place = .ok result) :
    Option.Rel (ClassRecord.WellFormed file) (declaredClass? file place) (result.bind Member.class?) := by
  cases known : declaration? file place with
  | none =>
    rw [member?_of_none known] at recorded
    cases recorded
    simp [declaredClass?,known]
  | some declaration =>
    rw [member?_of_some known] at recorded
    have passed (other : declaration.category ≠ .classDeclaration) : declaredClass? file place = none := by
      simp [declaredClass?,known,other]
    obtain ⟨category,declared⟩ := declaration
    cases category with
    | classDeclaration =>
      obtain ⟨record,made,returned⟩ := bind_eq_ok_iff.mp recorded
      cases returned
      have kept : declaredClass? file place = some ⟨.classDeclaration,declared⟩ := by
        simp [declaredClass?,known]
      rw [kept]
      exact .some (classRecord_wellFormed made)
    | property | interface | enumeration =>
      obtain ⟨record,made,returned⟩ := bind_eq_ok_iff.mp recorded
      cases returned
      exact passed nofun ▸ .none
    | _ =>
      obtain ⟨found,made,returned⟩ := bind_eq_ok_iff.mp recorded
      cases returned
      cases found <;> exact passed nofun ▸ .none

theorem moduleRecord_wellFormed {key : String} {dependencies : List String} {record : ModuleRecord}
    (made : syntactic.moduleRecord file key dependencies = .ok record) : record.WellFormed file := by
  obtain ⟨results,recorded,returned⟩ := bind_eq_ok_iff.mp made
  cases returned
  have each := mapM_eq_ok_iff.mp recorded
  have all := each.imp fun _ _ here => member?_wellFormed here
  rw [ModuleRecord.foldl_append]
  exact {
    classes := forall₂_filterMap each fun _ _ here => member?_class here
    functions := forall₂_filterMap all fun _ _ here => here.functions
    interfaces := forall_mem_filterMap all fun _ _ _ here => here.interfaces _
    enums := forall_mem_filterMap all fun _ _ _ here => here.enums _ }

end Reader

-- Atlases

theorem Atlas.mem_insertAll {records : List ModuleRecord} {modules : Table ModuleRecord}
    {entry : String × ModuleRecord} (inside : entry ∈ (insertAll modules records).entries) :
    entry ∈ modules.entries ∨ ∃ record ∈ records, entry = (record.path,record) := by
  induction records generalizing modules with
  | nil => exact .inl inside
  | cons record records ih =>
    rw [insertAll,List.foldl_cons,← insertAll] at inside
    rcases ih inside with before | ⟨later,member,same⟩
    · rcases mem_insertEntry before with here | old
      · exact .inr ⟨record,List.mem_cons_self,here⟩
      · exact .inl old
    · exact .inr ⟨later,List.mem_cons_of_mem _ member,same⟩

/-- Every module of an assembled atlas records one of the root files, under its key, and all records in
it are well formed. -/
theorem Provider.assemble_wellFormed (provider : Provider) (program : provider.reader = .syntactic)
    (root : Path) (name : String) {atlas : Atlas} (assembled : provider.assemble root name = .ok atlas) :
    ∀ project ∈ atlas.projects.values, ∀ entry ∈ project.modules.entries,
      ∃ path ∈ provider.roots, ∃ file, provider.file? path = some file ∧
        entry.1 = keyOf root path ∧ entry.2.path = keyOf root path ∧ entry.2.WellFormed file := by
  obtain ⟨records,all,rfl⟩ := assemble_eq_ok_iff.mp assembled
  intro project member entry inside
  have only : project = ⟨Atlas.insertAll .empty records⟩ := List.mem_singleton.mp member
  subst only
  rcases Atlas.mem_insertAll inside with nothing | ⟨record,member,rfl⟩
  · exact absurd nothing List.not_mem_nil
  · obtain ⟨path,inRoots,recorded⟩ := exists_of_forall₂ all member
    have path_eq := recorded.path_eq
    obtain ⟨file,dependencies,text,_,declarations⟩ := recorded
    rw [program] at declarations
    exact ⟨path,inRoots,file,text,path_eq,path_eq,Reader.moduleRecord_wellFormed declarations⟩

-- A class with a getter and a setter

def accessorTree : Node :=
  ⟨"program",true,0,46,[],[⟨"class_declaration",true,0,46,[],[⟨"class",false,0,5,[],[]⟩,
    ⟨"type_identifier",true,6,7,[.name],[]⟩,
    ⟨"class_body",true,8,46,[.body],[⟨"\x7b",false,8,9,[],[]⟩,
      ⟨"method_definition",true,10,31,[],[⟨"get",false,10,13,[],[]⟩,
        ⟨"property_identifier",true,14,15,[.name],[]⟩,
        ⟨"formal_parameters",true,15,17,[.parameters],[⟨"(",false,15,16,[],[]⟩,⟨")",false,16,17,[],[]⟩]⟩,
        ⟨"statement_block",true,18,31,[.body],[⟨"\x7b",false,18,19,[],[]⟩,
          ⟨"return_statement",true,20,29,[],[⟨"return",false,20,26,[],[]⟩,⟨"number",true,27,28,[],[]⟩,
            ⟨";",false,28,29,[],[]⟩]⟩,⟨"\x7d",false,30,31,[],[]⟩]⟩]⟩,
      ⟨"method_definition",true,32,44,[],[⟨"set",false,32,35,[],[]⟩,
        ⟨"property_identifier",true,36,37,[.name],[]⟩,
        ⟨"formal_parameters",true,37,40,[.parameters],[⟨"(",false,37,38,[],[]⟩,
          ⟨"required_parameter",true,38,39,[],[⟨"identifier",true,38,39,[.pattern],[]⟩]⟩,
          ⟨")",false,39,40,[],[]⟩]⟩,
        ⟨"statement_block",true,41,44,[.body],
          [⟨"\x7b",false,41,42,[],[]⟩,⟨"\x7d",false,43,44,[],[]⟩]⟩]⟩,
      ⟨"\x7d",false,45,46,[],[]⟩]⟩]⟩]⟩

def accessorFile : SourceFile :=
  ⟨⟨"/p/a.ts"⟩,Utf8.encode "class A \x7b get n() \x7b return 1; \x7d set n(v) \x7b \x7d \x7d".toList,accessorTree⟩

def accessorProvider : Provider where
  roots := [⟨"/p/a.ts"⟩]
  file? path := if path = ⟨"/p/a.ts"⟩ then some accessorFile else none
  reader := .syntactic

def accessorClass : Place := accessorFile.root.namedChildren.headD accessorFile.root

/-- The getter and the setter of the class. -/
def accessorPlaces : Place × Place :=
  let members := Reader.classMembers accessorClass
  (members.headD accessorClass,members.getLastD accessorClass)

theorem accessorFile_offences : accessorFile.offences = [] := by
  have top : accessorFile.root.namedChildren = [accessorClass] := rfl
  have members : Reader.classMembers accessorClass = [accessorPlaces.1,accessorPlaces.2] := rfl
  have getter : declaration? accessorFile accessorPlaces.1 = some ⟨.getter,accessorPlaces.1⟩ := by
    rw [declaration?]
    rfl
  have setter : declaration? accessorFile accessorPlaces.2 = some ⟨.setter,accessorPlaces.2⟩ := by
    rw [declaration?]
    rfl
  have taken : Declaration.offences accessorFile ⟨.setter,accessorPlaces.2⟩ = [] := by decide +kernel
  rw [SourceFile.offences,top,List.flatMap_singleton,
    Reader.placeOffences_of_class (declaration?_of_plain rfl),members,List.flatMap_cons,List.flatMap_singleton,
    Reader.placeOffences_of_single getter (by decide),Reader.placeOffences_of_single setter (by decide),
    taken]
  rfl

theorem Provider.assemble_wellFormed_accessors : accessorProvider.reader = .syntactic ∧
    ∃ atlas, accessorProvider.assemble ⟨"/p"⟩ "p" = .ok atlas ∧
      ∀ project ∈ atlas.projects.values, ∀ entry ∈ project.modules.entries,
        ∃ path ∈ accessorProvider.roots, ∃ file, accessorProvider.file? path = some file ∧
          entry.1 = keyOf ⟨"/p"⟩ path ∧ entry.2.path = keyOf ⟨"/p"⟩ path ∧ entry.2.WellFormed file := by
  have recorded : ∀ path ∈ accessorProvider.roots, ∃ record, Recorded accessorProvider ⟨"/p"⟩ path record := by
    intro path inside
    cases List.mem_singleton.mp inside
    obtain ⟨record,made⟩ := (Reader.moduleRecord_firstOffence accessorFile "a.ts" []).1.mpr accessorFile_offences
    exact ⟨record,accessorFile,[],rfl,rfl,made⟩
  obtain ⟨records,all⟩ := exists_recordedAll recorded
  have assembled : accessorProvider.assemble ⟨"/p"⟩ "p" =
      .ok (.ofModules "p" (Atlas.insertAll .empty records)) := assemble_eq_ok_iff.mpr ⟨records,all,rfl⟩
  exact ⟨rfl,_,assembled,assemble_wellFormed accessorProvider rfl ⟨"/p"⟩ "p" assembled⟩

end SourceAtlas
