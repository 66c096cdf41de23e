import Mathlib.Data.List.Nodup
import SourceAtlas.Atlas.Json
import SourceAtlas.Proofs.FirstFault
import SourceAtlas.Proofs.JsonWriting

/-! Reading an atlas from its text gives the atlas back. Written records have their members in the order
of the fields that they are read into, and only members of fields that may be missing are left out. -/
namespace SourceAtlas

open Json (Draft Slot Result Member)

-- Records

namespace Json

/-- The members of a written record, along the fields that they are read into: each field is filled
from its member, or it has no member and need not have one. -/
inductive Filled {ρ : Type} : List (Slot ρ) → ρ → List Member → ρ → Prop
  | nil (record : ρ) : Filled [] record [] record
  | present {slot : Slot ρ} {slots : List (Slot ρ)} {record filled whole : ρ} {value : Draft}
    {members : List Member} (here : slot.fill record value = .ok filled)
    (later : Filled slots filled members whole) :
    Filled (slot :: slots) record ((some slot.name,value) :: members) whole
  | missing {slot : Slot ρ} {slots : List (Slot ρ)} {record whole : ρ} {members : List Member}
    (optional : slot.required = false) (later : Filled slots record members whole) :
    Filled (slot :: slots) record members whole

variable {ρ : Type}

theorem find?_slot {slots : List (Slot ρ)} (distinct : (slots.map Slot.name).Nodup) {slot : Slot ρ}
    (inside : slot ∈ slots) : slots.find? (·.name == slot.name) = some slot := by
  induction slots with
  | nil => exact absurd inside List.not_mem_nil
  | cons first slots ih =>
    obtain ⟨fresh,rest⟩ := List.nodup_cons.mp distinct
    rcases List.mem_cons.mp inside with rfl | later
    · exact List.find?_cons_of_pos (beq_self_eq_true _)
    · have other : (first.name == slot.name) = false := by
        refine beq_false_of_ne fun same => fresh ?_
        exact same ▸ List.mem_map_of_mem later
      rw [List.find?_cons,other]
      exact ih rest later

/-- The fields before those that are left are filled, or need not be. -/
structure FilledBefore (earlier : List (Slot ρ)) (seen : List String) : Prop where
  known : ∀ name ∈ seen, name ∈ earlier.map Slot.name
  complete : ∀ slot ∈ earlier, slot.required = true → slot.name ∈ seen

theorem FilledBefore.present {earlier : List (Slot ρ)} {seen : List String}
    (before : FilledBefore earlier seen) (slot : Slot ρ) :
    FilledBefore (earlier ++ [slot]) (slot.name :: seen) where
  known := by
    rw [List.map_append]
    exact List.forall_mem_cons.mpr ⟨List.mem_append_right _ List.mem_cons_self,
      fun name old => List.mem_append_left _ (before.known name old)⟩
  complete := List.forall_mem_append.mpr
    ⟨fun other inside required => List.mem_cons_of_mem _ (before.complete other inside required),
      List.forall_mem_singleton.mpr fun _ => List.mem_cons_self⟩

theorem FilledBefore.missing {earlier : List (Slot ρ)} {seen : List String}
    (before : FilledBefore earlier seen) {slot : Slot ρ} (optional : slot.required = false) :
    FilledBefore (earlier ++ [slot]) seen where
  known name old := by
    rw [List.map_append]
    exact List.mem_append_left _ (before.known name old)
  complete := List.forall_mem_append.mpr ⟨before.complete,List.forall_mem_singleton.mpr
    fun required => absurd (optional.symm.trans required) Bool.false_ne_true⟩

theorem fillMembers_of_filled {slots later : List (Slot ρ)} {record whole : ρ} {members : List Member}
    (filled : Filled later record members whole) (distinct : (slots.map Slot.name).Nodup)
    (earlier : List (Slot ρ)) (parted : slots = earlier ++ later) (seen : List String)
    (before : FilledBefore earlier seen) :
    ∃ names, Draft.fillMembers slots record seen members = .ok (whole,names) ∧
      FilledBefore slots names := by
  induction filled generalizing earlier seen with
  | nil record =>
    rw [List.append_nil] at parted
    exact ⟨seen,rfl,parted ▸ before⟩
  | @present slot later record filled whole value members here _ ih =>
    have inside : slot ∈ slots := parted ▸ List.mem_append_right _ List.mem_cons_self
    have names : (slot.name :: (earlier.map Slot.name ++ later.map Slot.name)).Nodup := by
      rw [← List.nodup_middle,← List.map_cons,← List.map_append,← parted]
      exact distinct
    have fresh : slot.name ∉ seen := fun old =>
      (List.nodup_cons.mp names).1 (List.mem_append_left _ (before.known _ old))
    obtain ⟨names,read,all⟩ := ih (earlier ++ [slot]) (parted.trans (List.append_cons ..))
      (slot.name :: seen) (before.present slot)
    refine ⟨names,?_,all⟩
    rw [Draft.fillMembers,find?_slot distinct inside]
    simp only
    rw [if_neg fresh,here]
    exact read
  | missing optional _ ih =>
    exact ih (earlier ++ [_]) (parted.trans (List.append_cons ..)) seen (before.missing optional)

theorem asRecord_of_filled {slots : List (Slot ρ)} {blank record : ρ} {members : List Member}
    (distinct : (slots.map Slot.name).Nodup) (filled : Filled slots blank members record) :
    Draft.asRecord slots blank (.object members none) = .ok record := by
  have none' : FilledBefore ([] : List (Slot ρ)) [] := ⟨nofun,nofun⟩
  obtain ⟨names,read,all⟩ := fillMembers_of_filled filled distinct [] rfl [] none'
  have complete : (slots.any fun slot => slot.required && !names.contains slot.name) = false := by
    rw [List.any_eq_false]
    intro slot inside
    cases required : slot.required with
    | false => simp
    | true => simpa using all.complete slot inside required
  rw [Draft.asRecord,read]
  simp only [bind,Except.bind,Json.checkEnding,complete]
  rfl

theorem Document.read_of_reads {α : Type} {read : Draft → Result α} {draft : Draft} {value : α}
    (reads : read draft = .ok value) : Document.read ⟨draft,false⟩ read = .ok value := by
  simp only [Document.read,reads]
  rfl

-- Texts, lists and tables

theorem asText_draft (content : String) : (Json.text content).draft.asText = .ok content := by
  rw [Json.draft_text,Draft.asText]

theorem asOptional_draft (content : String) :
    Draft.asOptional Draft.asText (Json.text content).draft = .ok (some content) := by
  rw [Json.draft_text]
  rfl

theorem asList_draft {α : Type} {read : Draft → Result α} {write : α → Json} {items : List α}
    (each : ∀ item ∈ items, read (write item).draft = .ok item) :
    Draft.asList read (Json.array (items.map write)).draft = .ok items := by
  have all : ((items.map write).map Json.draft).mapM read = .ok items := by
    rw [List.map_map,mapM_eq_ok_iff,List.forall₂_map_left_iff,List.forall₂_same]
    exact each
  rw [Json.draft_array,Draft.asList,all]
  rfl

theorem insertEntry_last {α : Type} {entries : List (String × α)} {key : String} {value : α}
    (last : ∀ entry ∈ entries, entry.1 < key) :
    insertEntry key value entries = entries ++ [(key,value)] := by
  induction entries with
  | nil => rfl
  | cons entry entries ih =>
    obtain ⟨here,later⟩ := List.forall_mem_cons.mp last
    rw [insertEntry,if_neg (String.lt_asymm here),if_pos here,ih later,List.cons_append]

/-- Entries in increasing order are put behind those that are in the table already. -/
theorem fillTable_entries {α : Type} {read : Draft → Result α} {write : α → Json}
    {later : List (String × α)} (each : ∀ entry ∈ later, read (write entry.2).draft = .ok entry.2)
    (table : Table α) (order : Increasing (table.entries ++ later)) :
    Draft.fillTable read table (later.map fun entry => (some entry.1,(write entry.2).draft)) =
      .ok ⟨table.entries ++ later,order⟩ := by
  induction later generalizing table with
  | nil =>
    rw [List.map_nil,Draft.fillTable]
    simp
  | cons entry later ih =>
    obtain ⟨here,rest⟩ := List.forall_mem_cons.mp each
    have last : ∀ old ∈ table.entries, old.1 < entry.1 := fun old inside =>
      (List.pairwise_append.mp order).2.2 old inside entry List.mem_cons_self
    have grown : (table.insert entry.1 entry.2).entries = table.entries ++ [entry] :=
      insertEntry_last last
    have parted : table.entries ++ entry :: later = (table.insert entry.1 entry.2).entries ++ later := by
      rw [grown,List.append_cons]
    have filled := ih rest (table.insert entry.1 entry.2) (parted ▸ order)
    rw [List.map_cons,Draft.fillTable,here]
    refine filled.trans ?_
    simp only [parted]

theorem asTable_draft {α : Type} {read : Draft → Result α} {write : α → Json} {table : Table α}
    (each : ∀ entry ∈ table.entries, read (write entry.2).draft = .ok entry.2) :
    Draft.asTable read (table.toJson write).draft = .ok table := by
  have filled := fillTable_entries each .empty table.increasing
  rw [Table.toJson,Json.draft_object,List.map_map,Draft.asTable]
  simp only [Function.comp_def]
  rw [filled]
  rfl

-- Fields

def drafts (members : List (String × Json)) : List Member :=
  members.map fun member => (some member.1,member.2.draft)

section Fields

variable {α : Type} {slots : List (Slot ρ)} {record whole : ρ} {name : String} {required : Bool}
  {read : Draft → Result α} {put : ρ → α → ρ} {members : List (String × Json)}

theorem Filled.field {value : α} {json : Json} (reads : read json.draft = .ok value)
    (later : Filled slots (put record value) (drafts members) whole) :
    Filled (.of name required read put :: slots) record (drafts ((name,json) :: members)) whole := by
  refine .present ?_ later
  exact congrArg (Except.map (put record)) reads

/-- A text that may be missing is put into a record that has none in its place yet. -/
theorem Filled.optionalField {put : ρ → Option String → ρ} {content : Option String}
    (none' : put record none = record)
    (later : Filled slots (put record content) (drafts members) whole) :
    Filled (.of name false (Draft.asOptional Draft.asText) put :: slots) record
      (drafts (Json.optionalMember name content ++ members)) whole := by
  cases content with
  | none =>
    rw [none'] at later
    exact .missing rfl later
  | some content => exact Filled.field (asOptional_draft content) later

theorem Filled.optionalLast {put : ρ → Option String → ρ} {content : Option String}
    (none' : put record none = record) :
    Filled [.of name false (Draft.asOptional Draft.asText) put] record
      (drafts (Json.optionalMember name content)) (put record content) := by
  rw [← List.append_nil (Json.optionalMember name content)]
  exact .optionalField none' (.nil _)

end Fields

end Json

-- The records of an atlas

theorem PropertyRecord.ofDraft_toJson (record : PropertyRecord) :
    PropertyRecord.ofDraft record.toJson.draft = .ok record := by
  rw [PropertyRecord.toJson,Json.draft_object]
  refine Json.asRecord_of_filled (by decide) ?_
  refine .field (Json.asText_draft record.name) ?_
  exact .optionalLast rfl

theorem FunctionRecord.ofDraft_toJson (record : FunctionRecord) :
    FunctionRecord.ofDraft record.toJson.draft = .ok record := by
  rw [FunctionRecord.toJson,Json.draft_object]
  refine Json.asRecord_of_filled (by decide) ?_
  refine .field (Json.asText_draft record.name) ?_
  refine .field (Json.asText_draft record.content) ?_
  refine .field (Json.asList_draft fun parameter _ => parameter.ofDraft_toJson) ?_
  refine .field (Json.asText_draft record.returnType) ?_
  exact .optionalLast rfl

theorem EnumMemberRecord.ofDraft_toJson (record : EnumMemberRecord) :
    EnumMemberRecord.ofDraft record.toJson.draft = .ok record := by
  rw [EnumMemberRecord.toJson,Json.draft_object]
  refine Json.asRecord_of_filled (by decide) ?_
  refine .field (Json.asText_draft record.name) ?_
  exact .optionalLast rfl

theorem EnumRecord.ofDraft_toJson (record : EnumRecord) :
    EnumRecord.ofDraft record.toJson.draft = .ok record := by
  rw [EnumRecord.toJson,Json.draft_object]
  refine Json.asRecord_of_filled (by decide) ?_
  refine .field (Json.asText_draft record.name) ?_
  refine .field (Json.asList_draft fun member _ => member.ofDraft_toJson) ?_
  exact .optionalLast rfl

theorem InterfaceRecord.ofDraft_toJson (record : InterfaceRecord) :
    InterfaceRecord.ofDraft record.toJson.draft = .ok record := by
  rw [InterfaceRecord.toJson,Json.draft_object]
  refine Json.asRecord_of_filled (by decide) ?_
  refine .field (Json.asText_draft record.name) ?_
  refine .field (Json.asList_draft fun property _ => property.ofDraft_toJson) ?_
  exact .optionalLast rfl

theorem ClassRecord.ofDraft_toJson (record : ClassRecord) :
    ClassRecord.ofDraft record.toJson.draft = .ok record := by
  rw [ClassRecord.toJson,Json.draft_object]
  refine Json.asRecord_of_filled (by decide) ?_
  refine .optionalField rfl ?_
  refine .field (Json.asList_draft fun function _ => function.ofDraft_toJson) ?_
  refine .field (Json.asList_draft fun property _ => property.ofDraft_toJson) ?_
  refine .field (Json.asList_draft fun interface _ => interface.ofDraft_toJson) ?_
  refine .field (Json.asList_draft fun enumeration _ => enumeration.ofDraft_toJson) ?_
  exact .nil record

theorem ModuleRecord.ofDraft_toJson (record : ModuleRecord) :
    ModuleRecord.ofDraft record.toJson.draft = .ok record := by
  rw [ModuleRecord.toJson,Json.draft_object]
  refine Json.asRecord_of_filled (by decide) ?_
  refine .field (Json.asText_draft record.path) ?_
  refine .field (Json.asList_draft fun item _ => item.ofDraft_toJson) ?_
  refine .field (Json.asList_draft fun function _ => function.ofDraft_toJson) ?_
  refine .field (Json.asList_draft fun interface _ => interface.ofDraft_toJson) ?_
  refine .field (Json.asList_draft fun enumeration _ => enumeration.ofDraft_toJson) ?_
  refine .field (Json.asList_draft fun dependency _ => Json.asText_draft dependency) ?_
  exact .nil record

theorem Project.ofDraft_toJson (project : Project) :
    Project.ofDraft project.toJson.draft = .ok project := by
  rw [Project.toJson,Json.draft_object]
  refine Json.asRecord_of_filled (by decide) ?_
  refine .field (Json.asTable_draft fun entry _ => entry.2.ofDraft_toJson) ?_
  exact .nil project

theorem Atlas.ofDraft_toJson (atlas : Atlas) : Atlas.ofDraft atlas.toJson.draft = .ok atlas := by
  have projects : atlas.toJson.draft.asTable Project.ofDraft = .ok atlas.projects :=
    Json.asTable_draft fun entry _ => entry.2.ofDraft_toJson
  rw [Atlas.ofDraft,projects]
  rfl

theorem Atlas.layout_render (atlas : Atlas) (spread : Bool) : ∃ text : List Char,
    atlas.render spread = String.ofList text ∧
      Json.Layout Json.Blanks Json.Blanks atlas.toJson.spelled.lexemes text := by
  cases spread with
  | false => exact ⟨_,rfl,atlas.toJson.layout_compact⟩
  | true => exact ⟨_,rfl,atlas.toJson.layout_pretty 0⟩

/-- An atlas is read back from each of its text forms. The forms hold the same tokens, and the compact
one has no control characters, line breaks included. -/
theorem Atlas.ofText_render (atlas : Atlas) :
    (∀ spread, Atlas.ofText (atlas.render spread) = .ok atlas) ∧
      Json.tokens (atlas.render true).toList = Json.tokens (atlas.render false).toList ∧
      ∀ c ∈ (atlas.render false).toList, 0x20 ≤ c.toNat := by
  refine ⟨fun spread => ?_,?_,?_⟩
  · obtain ⟨text,rendered,layout⟩ := atlas.layout_render spread
    rw [Atlas.ofText,rendered,Json.Document.ofText_layout layout]
    exact Json.Document.read_of_reads atlas.ofDraft_toJson
  · have tokens (spread : Bool) : Json.tokens (atlas.render spread).toList =
        atlas.toJson.spelled.tokens := by
      obtain ⟨text,rendered,layout⟩ := atlas.layout_render spread
      rw [rendered,String.toList_ofList]
      exact layout.tokens_eq (Json.Spelled.isChain_lexemes _)
    rw [tokens,tokens]
  · have compact : (atlas.render false).toList = atlas.toJson.compact := String.toList_ofList
    rw [compact]
    exact atlas.toJson.compact_visible

end SourceAtlas
