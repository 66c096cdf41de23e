import SourceAtlas.Proofs.Utf8
import SourceAtlas.Proofs.WellFormedRecord

/-! The names of parameters and of members of enumerations. The name of an assigned member is looked at
before it is recorded. Any other name is the text of its node as it is, and empty if that cannot be read. -/
namespace SourceAtlas

open Syntax

-- Nodes that cannot be read

/-- A node is unreadable if it has no bytes or its bytes write no text. -/
def Syntax.SourceFile.Unreadable (file : SourceFile) (node : Node) : Prop :=
  ∀ text, Utf8.encode text = file.slice node.start node.stop → text = []

/-- A name is the text of a node, and so it is empty exactly if the node is unreadable. -/
structure NamedAfter (file : SourceFile) (node : Node) (name : String) : Prop where
  text : name = file.text node
  empty : name = "" ↔ file.Unreadable node

def HasReadableName (file : SourceFile) (place : Place) : Prop :=
  ∃ named, place.child? .name = some named ∧ ¬file.Unreadable named.node

section Names

variable {file : SourceFile} {place : Place} {node : Node} {name : String}

theorem text_eq_empty_iff : file.text node = "" ↔ file.Unreadable node := by
  unfold SourceFile.text SourceFile.Unreadable
  cases decoded : Utf8.decode? (file.slice node.start node.stop) with
  | none =>
    refine iff_of_true rfl fun text encoded => ?_
    cases decoded.symm.trans (Utf8.decode?_eq_some_iff.mpr encoded)
  | some characters =>
    have encoded := Utf8.decode?_eq_some_iff.mp decoded
    rw [String.ofList_eq_empty_iff]
    constructor
    · rintro rfl text same
      exact Utf8.encode_injective (same.trans encoded.symm)
    · exact fun unreadable => unreadable characters encoded

theorem namedAfter_text (file : SourceFile) (node : Node) : NamedAfter file node (file.text node) :=
  ⟨rfl,text_eq_empty_iff⟩

theorem declaredName?_eq_some_iff : declaredName? file place = some name ↔
    ∃ named, place.child? .name = some named ∧ NamedAfter file named.node name ∧
      ¬file.Unreadable named.node := by
  unfold declaredName?
  rw [Option.filter_eq_some_iff,Option.map_eq_some_iff]
  constructor
  · rintro ⟨⟨named,found,rfl⟩,kept⟩
    exact ⟨named,found,namedAfter_text file named.node,fun unreadable =>
      (of_decide_eq_true kept) (text_eq_empty_iff.mpr unreadable)⟩
  · rintro ⟨named,found,after,readable⟩
    exact ⟨⟨named,found,after.text.symm⟩,decide_eq_true fun empty => readable (after.empty.mp empty)⟩

theorem hasReadableName_iff : HasReadableName file place ↔ declaredName? file place ≠ none := by
  rw [Option.ne_none_iff_exists',HasReadableName]
  simp only [declaredName?_eq_some_iff]
  constructor
  · rintro ⟨named,found,readable⟩
    exact ⟨_,named,found,namedAfter_text file named.node,readable⟩
  · rintro ⟨_,named,found,_,readable⟩
    exact ⟨named,found,readable⟩

theorem Reports.isMalformed {α : Type} {offences : List Offence} {outcome : Except Fault α} {fault : Fault}
    (reports : Reports file offences outcome) (failed : outcome = .error fault) :
    ∃ node defect, fault = .malformedNode (.of file node defect) := by
  obtain ⟨offence,_,rfl⟩ := (reports.error_iff fault).mp failed
  exact ⟨offence.node,offence.defect,rfl⟩

end Names

-- Nodes that name parts

/-- The node that names a parameter of a list: its pattern, or what a rest pattern collects into. -/
inductive NamesParameter (parameter : Place) : Node → Prop
  | pattern {pattern : Place} (found : parameter.child? .pattern = some pattern)
      (plain : pattern.node.kind ≠ "rest_pattern") : NamesParameter parameter pattern.node
  | collected {pattern inner : Place} (found : parameter.child? .pattern = some pattern)
      (rest : pattern.node.kind = "rest_pattern") (first : pattern.namedChildren.head? = some inner) :
      NamesParameter parameter inner.node
  | rest {pattern : Place} (found : parameter.child? .pattern = some pattern)
      (rest : pattern.node.kind = "rest_pattern") (alone : pattern.namedChildren = []) :
      NamesParameter parameter pattern.node

def parameterKinds : List String := ["required_parameter","optional_parameter"]

/-- What is recorded of the parameters of a function carries, in order, the texts of the nodes that
name them. -/
inductive ParametersNamed (file : SourceFile) (place : Place) : List PropertyRecord → Prop
  | bare {bare : Place} {record : PropertyRecord} (found : place.child? .parameter = some bare)
      (named : NamedAfter file bare.node record.name) : ParametersNamed file place [record]
  | listed {records : List PropertyRecord} (none : place.child? .parameter = none)
      (each : List.Forall₂ (fun parameter record => ∃ node, NamesParameter parameter node ∧
        NamedAfter file node record.name) (partsOf .parameters parameterKinds place) records) :
      ParametersNamed file place records

def bareMemberKinds : List String := ["property_identifier","string","number","computed_property_name"]

/-- The node that names a member of an enumeration. -/
inductive NamesMember (member : Place) : Node → Prop
  | assigned {name : Place} (assignment : member.node.kind = "enum_assignment")
      (found : member.child? .name = some name) : NamesMember member name.node
  | bare (kind : member.node.kind ∈ bareMemberKinds) : NamesMember member member.node

def memberKinds : List String := "enum_assignment" :: bareMemberKinds

/-- What is recorded of a member carries the text of the node that names it. The name of an assigned
member is never empty. -/
structure MemberNamed (file : SourceFile) (member : Place) (record : EnumMemberRecord) : Prop where
  named : ∃ node, NamesMember member node ∧ NamedAfter file node record.name
  assigned : member.node.kind = "enum_assignment" → record.name ≠ ""

namespace Reader

variable {reader : Reader} {file : SourceFile} {place : Place}

-- Parameters

theorem namesParameter_parameterName {parameter pattern : Place}
    (found : parameter.child? .pattern = some pattern) :
    NamesParameter parameter (parameterName pattern) := by
  unfold parameterName
  by_cases rest : pattern.node.kind = "rest_pattern"
  · rw [if_pos rest]
    cases inner : pattern.namedChildren with
    | nil => exact .rest found rest inner
    | cons first others => exact .collected found rest (by rw [inner,List.head?_cons])
  · rw [if_neg rest]
    exact .pattern found rest

theorem parameter_named {parameter : Place} {record : PropertyRecord}
    (made : reader.parameter file parameter = .ok record) :
    ∃ node, NamesParameter parameter node ∧ NamedAfter file node record.name := by
  unfold Reader.parameter at made
  split at made
  · cases made
  · next pattern found =>
    cases made
    exact ⟨_,namesParameter_parameterName found,namedAfter_text file _⟩

theorem exists_parameter_iff {parameter : Place} :
    (∃ record, reader.parameter file parameter = .ok record) ↔ ∃ node, NamesParameter parameter node := by
  unfold Reader.parameter
  cases found : parameter.child? .pattern with
  | none =>
    refine iff_of_false (fun ⟨_,made⟩ => nomatch made) ?_
    rintro ⟨_,named⟩
    cases named <;> simp_all
  | some pattern => exact iff_of_true ⟨_,rfl⟩ ⟨_,namesParameter_parameterName found⟩

theorem parameters_named {records : List PropertyRecord} (made : reader.parameters file place = .ok records) :
    ParametersNamed file place records := by
  unfold parameters at made
  split at made
  · next bare found =>
    cases made
    exact .bare found (namedAfter_text file bare.node)
  · next none =>
    refine .listed none ?_
    split at made
    · next empty =>
      cases made
      rw [partsOf_none empty]
      exact .nil
    · next list found =>
      rw [partsOf_some found]
      rw [isParameter_eq] at made
      exact (mapM_eq_ok_iff.mp made).imp fun _ _ => parameter_named

theorem exists_parameters_iff : (∃ records, reader.parameters file place = .ok records) ↔
    (place.child? .parameter = none →
      ∀ parameter ∈ partsOf .parameters parameterKinds place, ∃ node, NamesParameter parameter node) := by
  have each (parameter : Place) : lackOffences .pattern .parameterName parameter = [] ↔
      ∃ node, NamesParameter parameter node := by
    rw [← @exists_parameter_iff reader file,(reports_parameter parameter).ok_iff]
  rw [(reports_parameters place).ok_iff,parameterOffences]
  split
  · next none =>
    simp only [List.flatMap_eq_nil_iff,each,none,true_implies]
    rfl
  · next bare => simp [bare]

-- Members of enumerations

theorem enumMember?_named {member : Place} {result : Option EnumMemberRecord}
    (made : enumMember? file member = .ok result) :
    Option.Rel (MemberNamed file) (Option.guard (fun part => part.node.kind ∈ memberKinds) member)
      result := by
  have kept (known : member.node.kind ∈ memberKinds) :
      Option.guard (fun part : Place => part.node.kind ∈ memberKinds) member = some member := by
    rw [Option.guard,if_pos (decide_eq_true known)]
  have bare (known : member.node.kind ∈ bareMemberKinds) :
      MemberNamed file member ⟨file.text member.node,none⟩ := by
    refine ⟨⟨_,.bare known,namedAfter_text file member.node⟩,fun assigned => ?_⟩
    rw [assigned] at known
    exact absurd known (by decide)
  unfold enumMember? at made
  split at made
  · next assigned =>
    obtain ⟨name,named,returned⟩ := bind_eq_ok_iff.mp made
    cases returned
    rw [kept (by rw [assigned]; decide)]
    obtain ⟨node,found,after,_⟩ := declaredName?_eq_some_iff.mp (declaredName?_of_declaredName named)
    exact .some ⟨⟨_,.assigned assigned found,after⟩,fun _ => ne_empty_of_declaredName named⟩
  iterate 4
    · next known =>
      cases made
      rw [kept (by rw [known]; decide)]
      exact .some (bare (by rw [known]; decide))
  · cases made
    rw [Option.guard,if_neg (by simp_all [memberKinds,bareMemberKinds])]
    exact .none

theorem enumeration_named {record : EnumRecord} (made : reader.enumeration file place = .ok record) :
    List.Forall₂ (MemberNamed file) (partsOf .body memberKinds place) record.members := by
  obtain ⟨name,_,later⟩ := bind_eq_ok_iff.mp made
  obtain ⟨body,found,later⟩ := bind_eq_ok_iff.mp later
  obtain ⟨members,each,returned⟩ := bind_eq_ok_iff.mp later
  cases returned
  rw [partsOf_some (child?_of_bodyOf found),← List.filterMap_eq_filter]
  exact List.rel_filterMap (fun _ _ named => named)
    ((mapM_eq_ok_iff.mp each).imp fun _ _ => enumMember?_named)

theorem exists_enumeration_iff : (∃ record, reader.enumeration file place = .ok record) ↔
    HasReadableName file place ∧ place.child? .body ≠ none ∧
      ∀ member ∈ partsOf .body ["enum_assignment"] place, HasReadableName file member := by
  rw [(reports_enumeration place).ok_iff,bodyOffences]
  simp [hasReadableName_iff,namelessOffences,lackOffences]

/-- The names of recorded parameters and members are the texts of the nodes that name them, and
recording them fails only at a malformed node. A list of parameters is recorded exactly if each has a
node that names it, readable or not: the name is empty exactly if that node is unreadable. So is the
name of a member of an enumeration, unless it is an assigned one: that has to be readable. -/
theorem partNames_exact (reader : Reader) (file : SourceFile) (place : Place) :
    ((∃ records, reader.parameters file place = .ok records) ↔
      (place.child? .parameter = none →
        ∀ parameter ∈ partsOf .parameters parameterKinds place, ∃ node, NamesParameter parameter node)) ∧
    (∀ records, reader.parameters file place = .ok records → ParametersNamed file place records) ∧
    (∀ fault, reader.parameters file place = .error fault →
      ∃ node defect, fault = .malformedNode (.of file node defect)) ∧
    ((∃ record, reader.enumeration file place = .ok record) ↔
      HasReadableName file place ∧ place.child? .body ≠ none ∧
        ∀ member ∈ partsOf .body ["enum_assignment"] place, HasReadableName file member) ∧
    (∀ record, reader.enumeration file place = .ok record → record.name ≠ "" ∧
      List.Forall₂ (MemberNamed file) (partsOf .body memberKinds place) record.members) ∧
    (∀ fault, reader.enumeration file place = .error fault →
      ∃ node defect, fault = .malformedNode (.of file node defect)) :=
  ⟨exists_parameters_iff,fun _ => parameters_named,fun _ => Reports.isMalformed (reports_parameters place),
    exists_enumeration_iff,fun _ made => ⟨(enumeration_wellFormed made).name,enumeration_named made⟩,
    fun _ => Reports.isMalformed (reports_enumeration place)⟩

def unreadTree : Node :=
  ⟨"program",true,0,51,[],[⟨"enum_declaration",true,0,21,[],[⟨"identifier",true,5,6,[.name],[]⟩,
    ⟨"enum_body",true,7,21,[.body],[⟨"string",true,9,12,[.name],[]⟩,
      ⟨"enum_assignment",true,14,19,[],[⟨"property_identifier",true,14,15,[.name],[]⟩,
        ⟨"number",true,18,19,[.value],[]⟩]⟩]⟩]⟩,
    ⟨"function_declaration",true,22,51,[],[⟨"identifier",true,31,32,[.name],[]⟩,
      ⟨"formal_parameters",true,32,48,[.parameters],[
        ⟨"required_parameter",true,33,44,[],[⟨"object_pattern",true,33,44,[.pattern],[]⟩]⟩,
        ⟨"required_parameter",true,46,47,[],[⟨"identifier",true,46,47,[.pattern],[]⟩]⟩]⟩,
      ⟨"statement_block",true,49,51,[.body],[]⟩]⟩]⟩

/-- An enumeration and a function with a byte in each that no text has. -/
def unreadFile : SourceFile :=
  ⟨⟨"a.ts"⟩,Utf8.encode "enum E \x7b '".toList ++ 0xFF :: (Utf8.encode
    "', B = 1 \x7d\nfunction f(\x7b a = '".toList ++ 0xFE :: Utf8.encode "' \x7d, b) \x7b\x7d".toList),
    unreadTree⟩

theorem partNames_exact_unread : ∃ enumeration function,
    unreadFile.root.namedChildren = [enumeration,function] ∧
    (∃ records, syntactic.parameters unreadFile function = .ok records ∧
      ParametersNamed unreadFile function records) ∧
    ∃ record, syntactic.enumeration unreadFile enumeration = .ok record ∧
      List.Forall₂ (MemberNamed unreadFile) (partsOf .body memberKinds enumeration) record.members := by
  refine ⟨_,_,rfl,⟨_,rfl,?_⟩,_,rfl,?_⟩
  · exact (partNames_exact syntactic unreadFile _).2.1 _ rfl
  · exact ((partNames_exact syntactic unreadFile _).2.2.2.2.1 _ rfl).2

/-- A member and a parameter are recorded without a name. -/
theorem partNames_empty : ∃ enumeration function record,
    unreadFile.root.namedChildren = [enumeration,function] ∧
    syntactic.parameters unreadFile function = .ok [⟨"",none⟩,⟨"b",none⟩] ∧
    syntactic.enumeration unreadFile enumeration = .ok record ∧
    record.members = [⟨"",none⟩,⟨"B",some "1"⟩] :=
  ⟨_,_,_,rfl,rfl,rfl,rfl⟩

end Reader

end SourceAtlas
