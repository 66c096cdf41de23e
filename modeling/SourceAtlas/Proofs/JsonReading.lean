import SourceAtlas.Json.Draft
import SourceAtlas.Proofs.SpelledJson

/-! Reading a spelled value gives what it says. The reader is a machine with a stack of open containers;
one value moves it from where a value is expected to where that value has its place. -/
namespace SourceAtlas.Json

def Scalar.draft : Scalar → Draft
  | .null => .null
  | .bool value => .bool value
  | .number numeral => .number numeral.text
  | .string pieces => .text pieces.content

namespace Spelled

mutual

def draft : Spelled → Draft
  | .scalar value => value.draft
  | .array items => .array (itemDrafts items) none
  | .object members => .object (memberDrafts members) none

def itemDrafts : List Spelled → List Draft
  | [] => []
  | item :: items => item.draft :: itemDrafts items

def memberDrafts : List (SpelledString × Spelled) → List Member
  | [] => []
  | (key,value) :: members => (key.content,value.draft) :: memberDrafts members

end

theorem itemDrafts_eq_map (items : List Spelled) : itemDrafts items = items.map draft := by
  induction items with
  | nil => rfl
  | cons item items ih => rw [itemDrafts,ih,List.map_cons]

theorem memberDrafts_eq_map (members : List (SpelledString × Spelled)) :
    memberDrafts members = members.map fun member => (member.1.content,member.2.draft) := by
  induction members with
  | nil => rfl
  | cons member members ih => rw [memberDrafts,ih,List.map_cons]

def tokens (value : Spelled) : List Token := value.lexemes.map Lexeme.token

theorem map_token_commaSeparated (part : List Lexeme) (parts : List (List Lexeme)) :
    (commaSeparated (part :: parts)).map Lexeme.token =
      part.map Lexeme.token ++ parts.flatMap fun part => .comma :: part.map Lexeme.token := by
  rw [commaSeparated_cons,List.map_append,List.map_flatMap]
  rfl

theorem tokens_array (item : Spelled) (items : List Spelled) : (array (item :: items)).tokens =
    .openArray :: (item.tokens ++ ((items.flatMap fun item => .comma :: item.tokens) ++
      [.closeArray])) := by
  rw [tokens,lexemes,itemParts_eq_map,List.map_cons,List.map_append,List.map_cons,
    map_token_commaSeparated,List.flatMap_map,List.append_assoc]
  rfl

theorem tokens_object (key : SpelledString) (value : Spelled)
    (members : List (SpelledString × Spelled)) : (object ((key,value) :: members)).tokens =
      .openObject :: .text key.content :: .colon :: (value.tokens ++ ((members.flatMap fun member =>
        .comma :: .text member.1.content :: .colon :: member.2.tokens) ++ [.closeObject])) := by
  rw [tokens,lexemes,memberParts_eq_map,List.map_cons,List.map_append,List.map_cons,
    map_token_commaSeparated,List.flatMap_map,List.append_assoc]
  rfl

end Spelled

-- Steps of the reader

theorem readFrom_of_advance {expected next : Expected} {frames after : List Frame} {token : Token}
    (advanced : advance frames token expected = .ok (next,after)) (rest : List Token) :
    readFrom expected frames (token :: rest) = readFrom next after rest := by
  have unfinished (value : Draft) : expected ≠ .nothing value := by
    rintro rfl
    simp [advance] at advanced
  rw [readFrom.eq_3 _ _ _ _ unfinished,advanced]

def resume (progress : Progress) (rest : List Token) : Document :=
  readFrom progress.1 progress.2 rest

/-- The reader takes the tokens of a value as one step, whatever is around and after it. -/
def ReadAs (tokens : List Token) (draft : Draft) : Prop :=
  ∀ frames rest, readFrom .value frames (tokens ++ rest) = resume (place draft frames) rest

/-- A value starts with a token that may start any value, so it may also be the first item of an array. -/
theorem Spelled.starts (value : Spelled) : ∃ token rest, value.tokens = token :: rest ∧
    token ≠ .closeArray ∧ ∀ frames, ∃ progress, startValue frames token = .ok progress := by
  cases value with
  | array items => exact ⟨_,_,rfl,by decide,fun frames => ⟨_,rfl⟩⟩
  | object members => exact ⟨_,_,rfl,by decide,fun frames => ⟨_,rfl⟩⟩
  | scalar value => cases value <;> exact ⟨_,[],rfl,nofun,fun frames => ⟨_,rfl⟩⟩

theorem readFrom_firstItem (value : Spelled) (frames : List Frame) (rest : List Token) :
    readFrom .firstItem frames (value.tokens ++ rest) =
      readFrom .value (.array [] :: frames) (value.tokens ++ rest) := by
  obtain ⟨token,later,parted,noClose,starts⟩ := value.starts
  obtain ⟨⟨next,after⟩,started⟩ := starts (.array [] :: frames)
  have asItem : advance frames token .firstItem = .ok (next,after) := by
    rw [advance,if_neg noClose,started]
  have asValue : advance (.array [] :: frames) token .value = .ok (next,after) := started
  rw [parted,List.cons_append,readFrom_of_advance asItem,readFrom_of_advance asValue]

theorem readFrom_afterItem {items : List Spelled} (each : ∀ item ∈ items, ReadAs item.tokens item.draft)
    (earlier : List Draft) (frames : List Frame) (rest : List Token) :
    readFrom (.afterItem earlier) frames
        ((items.flatMap fun item => .comma :: item.tokens) ++ .closeArray :: rest) =
      resume (place (.array (earlier.reverse ++ items.map Spelled.draft) none) frames) rest := by
  induction items generalizing earlier with
  | nil =>
    rw [List.flatMap_nil,List.nil_append,List.map_nil,List.append_nil]
    exact readFrom_of_advance rfl rest
  | cons item items ih =>
    obtain ⟨here,later⟩ := List.forall_mem_cons.mp each
    rw [List.flatMap_cons,List.append_assoc,List.cons_append,readFrom_of_advance rfl,here]
    change readFrom (.afterItem (item.draft :: earlier)) frames _ = _
    rw [ih later,List.reverse_cons,List.append_assoc,List.map_cons,List.singleton_append]

theorem readFrom_member {key : SpelledString} {value : Spelled} (reads : ReadAs value.tokens value.draft)
    (earlier : List Member) (frames : List Frame) (rest : List Token) :
    readFrom (.key earlier) frames (.text key.content :: .colon :: (value.tokens ++ rest)) =
      readFrom (.afterMember ((key.content,value.draft) :: earlier)) frames rest := by
  rw [readFrom_of_advance rfl,readFrom_of_advance rfl,reads]
  rfl

theorem readFrom_afterMember {members : List (SpelledString × Spelled)}
    (each : ∀ member ∈ members, ReadAs member.2.tokens member.2.draft)
    (earlier : List Member) (frames : List Frame) (rest : List Token) :
    readFrom (.afterMember earlier) frames ((members.flatMap fun member =>
        .comma :: .text member.1.content :: .colon :: member.2.tokens) ++ .closeObject :: rest) =
      resume (place (.object (earlier.reverse ++
        members.map fun member => (member.1.content,member.2.draft)) none) frames) rest := by
  induction members generalizing earlier with
  | nil =>
    rw [List.flatMap_nil,List.nil_append,List.map_nil,List.append_nil]
    exact readFrom_of_advance rfl rest
  | cons member members ih =>
    obtain ⟨here,later⟩ := List.forall_mem_cons.mp each
    rw [List.flatMap_cons,List.append_assoc,List.cons_append,List.cons_append,List.cons_append,
      readFrom_of_advance rfl,readFrom_member here,ih later,List.reverse_cons,List.append_assoc,
      List.map_cons,List.singleton_append]

-- Values

theorem readAs_array {items : List Spelled} (each : ∀ item ∈ items, ReadAs item.tokens item.draft) :
    ReadAs (Spelled.array items).tokens (Spelled.array items).draft := by
  intro frames rest
  rw [Spelled.draft,Spelled.itemDrafts_eq_map]
  cases items with
  | nil =>
    change readFrom .value frames (.openArray :: .closeArray :: rest) = _
    rw [readFrom_of_advance rfl]
    exact readFrom_of_advance rfl rest
  | cons item items =>
    obtain ⟨here,later⟩ := List.forall_mem_cons.mp each
    rw [Spelled.tokens_array,List.cons_append,readFrom_of_advance rfl,List.append_assoc,
      readFrom_firstItem,here,List.append_assoc]
    exact readFrom_afterItem later [item.draft] frames rest

theorem readAs_object {members : List (SpelledString × Spelled)}
    (each : ∀ member ∈ members, ReadAs member.2.tokens member.2.draft) :
    ReadAs (Spelled.object members).tokens (Spelled.object members).draft := by
  intro frames rest
  rw [Spelled.draft,Spelled.memberDrafts_eq_map]
  cases members with
  | nil =>
    change readFrom .value frames (.openObject :: .closeObject :: rest) = _
    rw [readFrom_of_advance rfl]
    exact readFrom_of_advance rfl rest
  | cons member members =>
    obtain ⟨here,later⟩ := List.forall_mem_cons.mp each
    rw [Spelled.tokens_object,List.cons_append,List.cons_append,List.cons_append,
      readFrom_of_advance rfl,readFrom_of_advance rfl,readFrom_of_advance rfl,List.append_assoc,here,
      List.append_assoc]
    exact readFrom_afterMember later [_] frames rest

theorem Spelled.readAs (value : Spelled) : ReadAs value.tokens value.draft := by
  induction value using Spelled.induction with
  | scalar value =>
    intro frames rest
    cases value <;> exact readFrom_of_advance rfl rest
  | array items ih => exact readAs_array ih
  | object members ih => exact readAs_object ih

/-- A text of a value, with any blanks, is read as what the value says. -/
theorem Document.ofText_layout {value : Spelled} {text : List Char}
    (layout : Layout Blanks Blanks value.lexemes text) :
    Document.ofText (String.ofList text) = ⟨value.draft,false⟩ := by
  have read := value.readAs [] []
  rw [List.append_nil] at read
  rw [Document.ofText,String.toList_ofList,layout.tokens_eq value.isChain_lexemes]
  exact read

end SourceAtlas.Json
