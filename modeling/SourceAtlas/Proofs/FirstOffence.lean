import SourceAtlas.Proofs.FirstFault
import SourceAtlas.Proofs.Recording

/-! Recording a file fails exactly at the first offence among the declarations that it visits. What is
visited and what offends is said here without any recording. -/
namespace SourceAtlas

open Syntax

-- What offends

structure Offence where
  node : Node
  defect : Defect

def Offence.fault (file : SourceFile) (offence : Offence) : Fault :=
  .malformedNode ⟨offence.defect,offence.node.kind,file.path.text,
    1 + (file.bytes.take offence.node.start).count 0x0A⟩

def namelessOffences (file : SourceFile) (defect : Defect) (place : Place) : List Offence :=
  if declaredName? file place = none then [⟨place.node,defect⟩] else []

def lackOffences (field : Field) (defect : Defect) (place : Place) : List Offence :=
  if place.child? field = none then [⟨place.node,defect⟩] else []

def partsOf (field : Field) (kinds : List String) (place : Place) : List Place :=
  ((place.child? field).toList.flatMap Place.namedChildren).filter fun part => part.node.kind ∈ kinds

/-- A bare parameter stands for the whole list of parameters. -/
def parameterOffences (place : Place) : List Offence :=
  if place.child? .parameter = none then
    (partsOf .parameters ["required_parameter","optional_parameter"] place).flatMap
      (lackOffences .pattern .parameterName)
  else []

def bodyOffences (file : SourceFile) (kind : String) (name body part : Defect) (place : Place) :
    List Offence :=
  namelessOffences file name place ++ (lackOffences .body body place ++
    (partsOf .body [kind] place).flatMap (namelessOffences file part))

/-- The offences of a declaration, in the order in which they are looked for. -/
def Declaration.offences (file : SourceFile) (declaration : Declaration) : List Offence :=
  let place := declaration.place
  match declaration.category with
  | .function | .setter => if declaredName? file place = none then [] else parameterOffences place
  | .property => namelessOffences file .propertyName place
  | .interface =>
    bodyOffences file "property_signature" .interfaceName .interfaceBody .signatureName place
  | .enumeration => bodyOffences file "enum_assignment" .enumName .enumBody .enumMemberName place
  | .getter | .classDeclaration => []

/-- What a place declares and, after a class, what is declared directly in its body, at any depth of
classes. -/
def visited (file : SourceFile) (place : Place) : List Declaration :=
  match _known : declaration? file place with
  | none => []
  | some declaration =>
    declaration :: if declaration.category = .classDeclaration then
      (Reader.classMembers declaration.place).attach.flatMap fun member => visited file member.1 else []
termination_by sizeOf place.node
decreasing_by
  exact Nat.lt_of_lt_of_le (Reader.sizeOf_lt_of_mem_classMembers member.2)
    (sizeOf_declaration_le _known)

def placeOffences (file : SourceFile) (place : Place) : List Offence :=
  (visited file place).flatMap (Declaration.offences file)

/-- The offences of a file in the order in which it is read. -/
def Syntax.SourceFile.offences (file : SourceFile) : List Offence :=
  file.root.namedChildren.flatMap (placeOffences file)

-- What is reported

section Reports

variable {file : SourceFile} {α β : Type}

/-- A step fails with the first offence of a list, or it succeeds if there is none. -/
def Reports (file : SourceFile) (offences : List Offence) (outcome : Except Fault α) : Prop :=
  match offences with
  | [] => ∃ value, outcome = .ok value
  | offence :: _ => outcome = .error (offence.fault file)

theorem Reports.ok (value : α) : Reports file [] (.ok value) := ⟨value,rfl⟩

theorem Reports.bind {first second : List Offence} {outcome : Except Fault α} {next : α → Except Fault β}
    (here : Reports file first outcome)
    (later : ∀ value, outcome = .ok value → Reports file second (next value)) :
    Reports file (first ++ second) (outcome >>= next) := by
  cases first with
  | nil =>
    obtain ⟨value,passed⟩ := here
    have following := later value passed
    rw [passed]
    exact following
  | cons offence first =>
    have failed : outcome = .error (offence.fault file) := here
    exact bind_eq_error_iff.mpr (.inl failed)

theorem Reports.bindOk {offences : List Offence} {outcome : Except Fault α} {next : α → Except Fault β}
    (here : Reports file offences outcome) (total : ∀ value, ∃ result, next value = .ok result) :
    Reports file offences (outcome >>= next) := by
  rw [← List.append_nil offences]
  exact here.bind fun value _ => total value

theorem Reports.mapM {items : List α} {step : α → Except Fault β} {offences : α → List Offence}
    (each : ∀ item ∈ items, Reports file (offences item) (step item)) :
    Reports file (items.flatMap offences) (items.mapM step) := by
  induction items with
  | nil => exact .ok []
  | cons item items ih =>
    obtain ⟨here,later⟩ := List.forall_mem_cons.mp each
    rw [List.mapM_cons,List.flatMap_cons]
    exact here.bind fun value _ => (ih later).bindOk fun values => ⟨_,rfl⟩

theorem Reports.mapM_filter {items : List α} {step : α → Except Fault β} {offences : α → List Offence}
    {looked : α → Bool} (each : ∀ item, looked item = true → Reports file (offences item) (step item))
    (passed : ∀ item, looked item = false → Reports file [] (step item)) :
    Reports file ((items.filter looked).flatMap offences) (items.mapM step) := by
  have parted : (items.filter looked).flatMap offences =
      items.flatMap fun item => if looked item then offences item else [] := by
    induction items with
    | nil => rfl
    | cons item items ih =>
      rw [List.filter_cons,List.flatMap_cons,← ih]
      split <;> rfl
  rw [parted]
  refine .mapM fun item _ => ?_
  cases look : looked item with
  | true => exact each item look
  | false => exact passed item look

theorem Reports.error_iff {offences : List Offence} {outcome : Except Fault α}
    (reports : Reports file offences outcome) (fault : Fault) :
    outcome = .error fault ↔ ∃ offence, offences.head? = some offence ∧ fault = offence.fault file := by
  cases offences with
  | nil =>
    obtain ⟨value,passed⟩ := reports
    simp [passed]
  | cons offence offences =>
    have failed : outcome = .error (offence.fault file) := reports
    simp [failed,eq_comm]

theorem Reports.ok_iff {offences : List Offence} {outcome : Except Fault α}
    (reports : Reports file offences outcome) : (∃ value, outcome = .ok value) ↔ offences = [] := by
  cases offences with
  | nil => exact iff_of_true reports rfl
  | cons offence offences =>
    have failed : outcome = .error (offence.fault file) := reports
    simp [failed]

theorem reports_malformed {place : Place} {defect : Defect} (offences : List Offence) :
    Reports file (⟨place.node,defect⟩ :: offences) (Fault.malformed (α := α) file place defect) := rfl

-- Declarations

theorem reports_declaredName (place : Place) (defect : Defect) :
    Reports file (namelessOffences file defect place) (declaredName file place defect) := by
  unfold namelessOffences declaredName
  cases declaredName? file place with
  | none => exact reports_malformed []
  | some name => exact .ok name

theorem reports_bodyOf (place : Place) (defect : Defect) :
    Reports file (lackOffences .body defect place) (bodyOf file place defect) := by
  unfold lackOffences bodyOf
  cases place.child? .body with
  | none => exact reports_malformed []
  | some body => exact .ok body

theorem child?_of_bodyOf {place body : Place} {defect : Defect}
    (known : bodyOf file place defect = .ok body) : place.child? .body = some body := by
  unfold bodyOf at known
  split at known
  · next found _ => exact Except.ok.inj known ▸ ‹_›
  · cases known

namespace Reader

variable {reader : Reader}

theorem reports_property (place : Place) :
    Reports file (namelessOffences file .propertyName place) (reader.property file place) := by
  refine (reports_declaredName place _).bindOk fun name => ?_
  cases place.child? .type with
  | none => exact ⟨_,rfl⟩
  | some annotation => exact ⟨_,rfl⟩

theorem reports_parameter (place : Place) :
    Reports file (lackOffences .pattern .parameterName place) (reader.parameter file place) := by
  unfold lackOffences parameter
  cases place.child? .pattern with
  | none => exact reports_malformed []
  | some pattern => exact .ok _

theorem partsOf_none {field : Field} {kinds : List String} {place : Place}
    (none' : place.child? field = none) : partsOf field kinds place = [] := by
  rw [partsOf,none']
  rfl

theorem partsOf_some {field : Field} {kinds : List String} {place part : Place}
    (found : place.child? field = some part) :
    partsOf field kinds place = part.namedChildren.filter fun inner => inner.node.kind ∈ kinds := by
  rw [partsOf,found,Option.toList_some,List.flatMap_singleton]

theorem isParameter_eq : isParameter =
    fun place => decide (place.node.kind ∈ ["required_parameter","optional_parameter"]) := by
  funext place
  rw [isParameter,Bool.eq_iff_iff]
  simp

theorem reports_parameters (place : Place) :
    Reports file (parameterOffences place) (reader.parameters file place) := by
  unfold parameterOffences parameters
  cases place.child? .parameter with
  | some bare => exact .ok _
  | none =>
    rw [if_pos rfl]
    cases found : place.child? .parameters with
    | none =>
      rw [partsOf_none found]
      exact .ok []
    | some list =>
      rw [partsOf_some found,isParameter_eq]
      exact .mapM fun part _ => reports_parameter part

theorem reports_signature (category : Category) (takes : category ≠ .getter) (place : Place) :
    Reports file (parameterOffences place) (reader.signature file category place) := by
  cases category with
  | getter => exact absurd rfl takes
  | _ => exact (reports_parameters place).bindOk fun _ => ⟨_,rfl⟩

theorem reports_function {category : Category} {place : Place} {offences : List Offence}
    (taken : Reports file offences (syntactic.signature file category place)) :
    Reports file (if declaredName? file place = none then [] else offences)
      (syntactic.function? file category place) := by
  unfold function?
  cases declaredName? file place with
  | none => exact .ok none
  | some name =>
    rw [if_neg (Option.some_ne_none name)]
    exact taken.bindOk fun _ => ⟨_,rfl⟩

theorem reports_propertySignature (place : Place) :
    Reports file (namelessOffences file .signatureName place) (reader.propertySignature file place) :=
  (reports_declaredName place _).bindOk fun _ => ⟨_,rfl⟩

theorem reports_enumMember {place : Place} (assigned : place.node.kind = "enum_assignment") :
    Reports file (namelessOffences file .enumMemberName place) (enumMember? file place) := by
  rw [enumMember?,assigned]
  exact (reports_declaredName place _).bindOk fun _ => ⟨_,rfl⟩

theorem reports_otherMember {place : Place} (other : place.node.kind ≠ "enum_assignment") :
    Reports file [] (enumMember? file place) := by
  unfold enumMember?
  split
  · contradiction
  iterate 5 exact .ok _

theorem reports_body {place : Place} {kind : String} {name body part : Defect}
    {read : Place → Except Fault α} {next : String → α → Except Fault β}
    (inside : ∀ found, place.child? .body = some found →
      Reports file ((partsOf .body [kind] place).flatMap (namelessOffences file part)) (read found))
    (total : ∀ name value, ∃ result, next name value = .ok result) :
    Reports file (bodyOffences file kind name body part place) (do
      let name ← declaredName file place name
      let found ← bodyOf file place body
      let value ← read found
      next name value) := by
  refine (reports_declaredName place name).bind fun name _ => ?_
  refine (reports_bodyOf place body).bind fun found known => ?_
  exact (inside found (child?_of_bodyOf known)).bindOk (total name)

theorem reports_interface (place : Place) : Reports file
    (bodyOffences file "property_signature" .interfaceName .interfaceBody .signatureName place)
    (reader.interface file place) := by
  refine reports_body (fun found known => ?_) fun _ _ => ⟨_,rfl⟩
  rw [partsOf_some known]
  simp only [List.mem_singleton]
  exact .mapM fun part _ => reports_propertySignature part

theorem reports_enumeration (place : Place) : Reports file
    (bodyOffences file "enum_assignment" .enumName .enumBody .enumMemberName place)
    (reader.enumeration file place) := by
  refine reports_body (fun found known => ?_) fun _ _ => ⟨_,rfl⟩
  rw [partsOf_some known]
  refine .mapM_filter (fun part assigned => ?_) fun part other => ?_
  · exact reports_enumMember (by simpa using assigned)
  · exact reports_otherMember (by simpa using other)

-- Members, classes and files

theorem visited_of_none {place : Place} (unknown : declaration? file place = none) :
    visited file place = [] := by
  rw [visited]
  split
  · rfl
  · next known => cases unknown.symm.trans known

theorem visited_of_some {place : Place} {declaration : Declaration}
    (known : declaration? file place = some declaration) :
    visited file place = declaration :: if declaration.category = .classDeclaration then
      (classMembers declaration.place).flatMap (visited file) else [] := by
  rw [visited]
  split
  · next unknown => cases unknown.symm.trans known
  · next same =>
    cases known.symm.trans same
    rw [← List.flatMap_map,List.attach_map_subtype_val]

theorem placeOffences_of_single {place : Place} {declaration : Declaration}
    (known : declaration? file place = some declaration)
    (single : declaration.category ≠ .classDeclaration) :
    placeOffences file place = declaration.offences file := by
  rw [placeOffences,visited_of_some known,if_neg single,List.flatMap_singleton]

theorem placeOffences_of_class {place declared : Place}
    (known : declaration? file place = some ⟨.classDeclaration,declared⟩) :
    placeOffences file place = (classMembers declared).flatMap (placeOffences file) := by
  rw [placeOffences,visited_of_some known,if_pos rfl,List.flatMap_cons,List.flatMap_assoc]
  rfl

theorem reports_declared {declaration : Declaration} (single : declaration.category ≠ .classDeclaration) :
    Reports file (declaration.offences file) (syntactic.declared? file declaration) := by
  obtain ⟨category,place⟩ := declaration
  cases category with
  | classDeclaration => exact absurd rfl single
  | property => exact (reports_property place).bindOk fun _ => ⟨_,rfl⟩
  | interface => exact (reports_interface place).bindOk fun _ => ⟨_,rfl⟩
  | enumeration => exact (reports_enumeration place).bindOk fun _ => ⟨_,rfl⟩
  | function =>
    exact (reports_function (reports_signature .function nofun place)).bindOk fun _ => ⟨_,rfl⟩
  | setter =>
    exact (reports_function (reports_signature .setter nofun place)).bindOk fun _ => ⟨_,rfl⟩
  | getter =>
    have recorded : Reports file _ (syntactic.function? file .getter place) :=
      reports_function (.ok _)
    rw [ite_self] at recorded
    exact recorded.bindOk fun _ => ⟨_,rfl⟩

theorem reports_class {place : Place} (each : ∀ member ∈ classMembers place,
    Reports file (placeOffences file member) (reader.member? file member)) :
    Reports file ((classMembers place).flatMap (placeOffences file))
      (reader.declared? file ⟨.classDeclaration,place⟩) := by
  refine Reports.bindOk ?_ fun _ => ⟨_,rfl⟩
  rw [classRecord_eq]
  exact (Reports.mapM each).bindOk fun _ => ⟨_,rfl⟩

theorem reports_member (place : Place) :
    Reports file (placeOffences file place) (syntactic.member? file place) := by
  -- The members of a class are smaller nodes than what declares it, however it is wrapped.
  induction size : sizeOf place.node using Nat.strongRecOn generalizing place with
  | ind size ih =>
    subst size
    cases known : declaration? file place with
    | none =>
      rw [placeOffences,visited_of_none known,member?_of_none known]
      exact .ok none
    | some declaration =>
      rw [member?_of_some known]
      by_cases single : declaration.category = .classDeclaration
      · obtain ⟨category,declared⟩ := declaration
        cases single
        rw [placeOffences_of_class known]
        refine reports_class fun member inside => ih _ ?_ member rfl
        exact Nat.lt_of_lt_of_le (sizeOf_lt_of_mem_classMembers inside) (sizeOf_declaration_le known)
      · rw [placeOffences_of_single known single]
        exact reports_declared single

end Reader

end Reports

/-- A file is recorded exactly if nothing in it offends. Otherwise the recording fails with the first
offence, at its node. -/
theorem Reader.moduleRecord_firstOffence (file : SourceFile) (key : String) (dependencies : List String) :
    ((∃ record, syntactic.moduleRecord file key dependencies = .ok record) ↔ file.offences = []) ∧
      ∀ fault, syntactic.moduleRecord file key dependencies = .error fault ↔
        ∃ offence, file.offences.head? = some offence ∧ fault = offence.fault file := by
  have members : Reports file file.offences (file.root.namedChildren.mapM (syntactic.member? file)) :=
    .mapM fun place _ => reports_member place
  have recorded : Reports file file.offences (syntactic.moduleRecord file key dependencies) :=
    members.bindOk fun _ => ⟨_,rfl⟩
  exact ⟨recorded.ok_iff,recorded.error_iff⟩

end SourceAtlas
