import SourceAtlas.Json.Decode
import SourceAtlas.Json.Value
import SourceAtlas.Record
import SourceAtlas.Syntax.TypeText

/-! The JSON form of records. A missing optional text is written as no member, and reads back from no
member or from null. -/
namespace SourceAtlas

open Json (Draft Slot Result)

def PropertyRecord.toJson (record : PropertyRecord) : Json :=
  .object (("name", .text record.name) :: Json.optionalMember "type" record.type)

def PropertyRecord.slots : List (Slot PropertyRecord) := [
  .of "name" true Draft.asText fun record name => { record with name },
  .of "type" false (Draft.asOptional Draft.asText) fun record type => { record with type }]

def PropertyRecord.ofDraft : Draft → Result PropertyRecord := Draft.asRecord slots ⟨"", none⟩

def FunctionRecord.toJson (record : FunctionRecord) : Json :=
  .object ([("name", .text record.name), ("content", .text record.content),
    ("parameters", .array (record.parameters.map PropertyRecord.toJson)),
    ("returnType", .text record.returnType)] ++ Json.optionalMember "comments" record.comments)

def FunctionRecord.slots : List (Slot FunctionRecord) := [
  .of "name" true Draft.asText fun record name => { record with name },
  .of "content" true Draft.asText fun record content => { record with content },
  .of "parameters" true (Draft.asList PropertyRecord.ofDraft)
    fun record parameters => { record with parameters },
  .of "returnType" false Draft.asText fun record returnType => { record with returnType },
  .of "comments" false (Draft.asOptional Draft.asText)
    fun record comments => { record with comments }]

def FunctionRecord.ofDraft : Draft → Result FunctionRecord :=
  Draft.asRecord slots ⟨"", "", [], Syntax.anyType, none⟩

def EnumMemberRecord.toJson (record : EnumMemberRecord) : Json :=
  .object (("name", .text record.name) :: Json.optionalMember "value" record.value)

def EnumMemberRecord.slots : List (Slot EnumMemberRecord) := [
  .of "name" true Draft.asText fun record name => { record with name },
  .of "value" false (Draft.asOptional Draft.asText) fun record value => { record with value }]

def EnumMemberRecord.ofDraft : Draft → Result EnumMemberRecord := Draft.asRecord slots ⟨"", none⟩

def EnumRecord.toJson (record : EnumRecord) : Json :=
  .object ([("name", .text record.name),
    ("members", .array (record.members.map EnumMemberRecord.toJson))] ++
    Json.optionalMember "summary" record.summary)

def EnumRecord.slots : List (Slot EnumRecord) := [
  .of "name" true Draft.asText fun record name => { record with name },
  .of "members" true (Draft.asList EnumMemberRecord.ofDraft)
    fun record members => { record with members },
  .of "summary" false (Draft.asOptional Draft.asText) fun record summary => { record with summary }]

def EnumRecord.ofDraft : Draft → Result EnumRecord := Draft.asRecord slots ⟨"", [], none⟩

def InterfaceRecord.toJson (record : InterfaceRecord) : Json :=
  .object ([("name", .text record.name),
    ("properties", .array (record.properties.map PropertyRecord.toJson))] ++
    Json.optionalMember "summary" record.summary)

def InterfaceRecord.slots : List (Slot InterfaceRecord) := [
  .of "name" true Draft.asText fun record name => { record with name },
  .of "properties" true (Draft.asList PropertyRecord.ofDraft)
    fun record properties => { record with properties },
  .of "summary" false (Draft.asOptional Draft.asText) fun record summary => { record with summary }]

def InterfaceRecord.ofDraft : Draft → Result InterfaceRecord := Draft.asRecord slots ⟨"", [], none⟩

def ClassRecord.toJson (record : ClassRecord) : Json :=
  .object (Json.optionalMember "name" record.name ++ [
    ("functions", .array (record.functions.map FunctionRecord.toJson)),
    ("properties", .array (record.properties.map PropertyRecord.toJson)),
    ("interfaces", .array (record.interfaces.map InterfaceRecord.toJson)),
    ("enums", .array (record.enums.map EnumRecord.toJson))])

def ClassRecord.slots : List (Slot ClassRecord) := [
  .of "name" false (Draft.asOptional Draft.asText) fun record name => { record with name },
  .of "functions" true (Draft.asList FunctionRecord.ofDraft)
    fun record functions => { record with functions },
  .of "properties" true (Draft.asList PropertyRecord.ofDraft)
    fun record properties => { record with properties },
  .of "interfaces" true (Draft.asList InterfaceRecord.ofDraft)
    fun record interfaces => { record with interfaces },
  .of "enums" true (Draft.asList EnumRecord.ofDraft) fun record enums => { record with enums }]

def ClassRecord.ofDraft : Draft → Result ClassRecord := Draft.asRecord slots (.empty none)

def ModuleRecord.toJson (record : ModuleRecord) : Json :=
  .object [("path", .text record.path),
    ("classes", .array (record.classes.map ClassRecord.toJson)),
    ("functions", .array (record.functions.map FunctionRecord.toJson)),
    ("interfaces", .array (record.interfaces.map InterfaceRecord.toJson)),
    ("enums", .array (record.enums.map EnumRecord.toJson)),
    ("dependencies", Json.ofTexts record.dependencies)]

def ModuleRecord.slots : List (Slot ModuleRecord) := [
  .of "path" true Draft.asText fun record path => { record with path },
  .of "classes" true (Draft.asList ClassRecord.ofDraft) fun record classes => { record with classes },
  .of "functions" true (Draft.asList FunctionRecord.ofDraft)
    fun record functions => { record with functions },
  .of "interfaces" true (Draft.asList InterfaceRecord.ofDraft)
    fun record interfaces => { record with interfaces },
  .of "enums" true (Draft.asList EnumRecord.ofDraft) fun record enums => { record with enums },
  .of "dependencies" true (Draft.asList Draft.asText)
    fun record dependencies => { record with dependencies }]

def ModuleRecord.ofDraft : Draft → Result ModuleRecord := Draft.asRecord slots (.empty "" [])

end SourceAtlas
