import SourceAtlas.Glob.Set
import SourceAtlas.Proofs.FirstFault
import SourceAtlas.Proofs.GlobText

/-! Reading glob patterns of plain characters and stars, and sets of such patterns. -/
namespace SourceAtlas.Glob

open Utf8 (encode)

-- Plain characters and stars

/-- A character that stands for itself in a pattern, outside of groups. -/
def IsPlain (c : Char) : Prop := c ∉ ['?','*','[','\x7b','\x7d','\\']

instance : DecidablePred IsPlain := fun c =>
  inferInstanceAs (Decidable (c ∉ ['?','*','[','\x7b','\x7d','\\']))

/-- A pattern being read, outside of groups. -/
def Draft.outside (tokens : List Token) (previous : Option Char) : Draft := ⟨tokens,[],[],previous⟩

theorem read_plain {c : Char} (plain : IsPlain c) (tokens : List Token) (previous : Option Char)
    (rest : List Char) : read (.outside tokens previous) .plain (c :: rest) =
      read (.outside (.literal c :: tokens) (some c)) .plain rest := by
  simp only [IsPlain,List.mem_cons,List.not_mem_nil,or_false,not_or] at plain
  obtain ⟨one,star,opened,group,closed,escape⟩ := plain
  by_cases comma : c = ','
  · subst comma
    rfl
  · simp [read,star,opened,Draft.outside,Draft.push,Draft.seen]

theorem getLast?_cons_or (c : Char) (word : List Char) (previous : Option Char) :
    (c :: word).getLast?.or previous = word.getLast?.or (some c) := by
  cases word with
  | nil => rfl
  | cons d word => simp [List.getLast?_cons]

theorem read_plainText {word : List Char} (plain : ∀ c ∈ word, IsPlain c) (tokens : List Token)
    (previous : Option Char) (rest : List Char) :
    read (.outside tokens previous) .plain (word ++ rest) =
      read (.outside ((word.map .literal).reverse ++ tokens) (word.getLast?.or previous)) .plain rest := by
  induction word generalizing tokens previous with
  | nil => rfl
  | cons c word ih =>
    obtain ⟨here,later⟩ := List.forall_mem_cons.mp plain
    rw [List.cons_append,read_plain here,ih later,List.map_cons,List.reverse_cons,List.append_assoc,
      getLast?_cons_or]
    rfl

theorem read_star {rest : List Char} (single : rest.head? ≠ some '*') (tokens : List Token)
    (previous : Option Char) : read (.outside tokens previous) .plain ('*' :: rest) =
      read (.outside (.anyRun :: tokens) (some '*')) .plain rest := by
  have other (more : List Char) : rest ≠ '*' :: more := by
    rintro rfl
    exact single rfl
  simp [read,other,Draft.outside,Draft.push,Draft.seen]

theorem read_treeStart (rest : List Char) : read .empty .plain ('*' :: '*' :: '/' :: rest) =
    read (.outside [.recursivePrefix] (some '/')) .plain rest := rfl

theorem read_treeEnd (tokens : List Token) (previous : Option Char) :
    read (.outside tokens previous) .plain ['/','*','*'] = .ok (tokens.reverse ++ [.recursiveSuffix]) := by
  have slash := read_plain (show IsPlain '/' by decide) tokens previous ['*','*']
  rw [slash,← List.reverse_cons]
  rfl

theorem read_end (tokens : List Token) (previous : Option Char) :
    read (.outside tokens previous) .plain [] = .ok tokens.reverse := rfl

-- Sets of patterns of whole characters

theorem depths_le {token : Token} (whole : token.isWhole = true) (separated : Bool) :
    ∀ depth ∈ token.depths separated, depth ≤ 4 := by
  intro depth inside
  cases token with
  | literal c =>
    obtain ⟨_,_,rfl⟩ := List.mem_map.mp inside
    exact Nat.zero_le 4
  | anyRun => cases separated <;> simp_all [Token.depths]
  | recursivePrefix => simp_all [Token.depths]
  | recursiveSuffix => simp only [Token.depths,List.mem_cons,List.not_mem_nil,or_false] at inside; omega
  | recursiveMiddle => simp_all [Token.depths]
  | anyOne => cases whole
  | characterClass => cases whole
  | alternatives => cases whole

theorem sequenceDepths_eq (separated : Bool) (tokens : List Token) :
    sequenceDepths separated tokens = tokens.flatMap (Token.depths separated) := by
  induction tokens with
  | nil => rfl
  | cons token tokens ih => rw [sequenceDepths,ih,List.flatMap_cons]

theorem isDeep_of_whole {pattern : Pattern} (whole : ∀ token ∈ pattern.tokens, token.isWhole = true) :
    pattern.isDeep = false := by
  have bounded : ∀ depth ∈ sequenceDepths pattern.separated pattern.tokens, depth ≤ 4 := by
    intro depth inside
    rw [sequenceDepths_eq] at inside
    obtain ⟨token,member,here⟩ := List.mem_flatMap.mp inside
    exact depths_le (whole token member) _ depth here
  have greatest : (sequenceDepths pattern.separated pattern.tokens).foldl max 0 ≤ 4 := by
    generalize sequenceDepths pattern.separated pattern.tokens = depths at bounded
    exact List.foldlRecOn depths max (motive := (· ≤ 4)) (Nat.zero_le 4) fun _ least depth inside =>
      Nat.max_le.mpr ⟨least,bounded depth inside⟩
  rw [Pattern.isDeep,Pattern.depth,Pattern.depthLimit]
  exact decide_eq_false (by omega)

/-- Patterns of whole characters are never nested too deeply, so a set of them is read if each of them is. -/
theorem readSet_map {ι : Type} {separated : Bool} {items : List ι} {text : ι → String}
    {tokens : ι → List Token} (reads : ∀ item ∈ items, read .empty .plain (text item).toList = .ok (tokens item))
    (whole : ∀ item ∈ items, ∀ token ∈ tokens item, token.isWhole = true) :
    readSet separated (items.map text) = .ok (items.map fun item => ⟨separated,tokens item⟩) := by
  have parsed : parseAll separated (items.map text) = .ok (items.map fun item => ⟨separated,tokens item⟩) := by
    rw [parseAll,List.mapM_map]
    apply mapM_eq_ok_map
    intro item inside
    simp only [Function.comp_apply,Pattern.parse,reads item inside]
  have shallow : ∀ pattern ∈ items.map fun item => (⟨separated,tokens item⟩ : Pattern),
      pattern.isDeep = false := by
    intro pattern inside
    obtain ⟨item,member,rfl⟩ := List.mem_map.mp inside
    exact isDeep_of_whole (whole item member)
  have checked : checkDepth (items.map fun item => ⟨separated,tokens item⟩) = .ok () := by
    have notFound (looked : Pattern → Bool) : ∀ pattern ∈ (items.map fun item =>
        (⟨separated,tokens item⟩ : Pattern)).filter looked, pattern.isDeep = false :=
      fun pattern inside => shallow pattern (List.mem_filter.mp inside).1
    rw [checkDepth,List.find?_eq_none.mpr fun pattern inside => by simp [notFound _ pattern inside],
      List.findIdx?_eq_none_iff.mpr fun pattern inside => notFound _ pattern inside]
  rw [readSet,parsed]
  exact bind_eq_ok_iff.mpr ⟨_,rfl,bind_eq_ok_iff.mpr ⟨(),checked,rfl⟩⟩

-- Three forms of patterns

/-- A pattern for paths with a given end, for those with a given text in them, or for all that lies below
folders of a given name. -/
inductive Form
  | ending (text : String)
  | within (text : String)
  | below (folder : String)

namespace Form

def word : Form → List Char
  | ending text | within text | below text => text.toList

def pattern : Form → String
  | ending text => "**/*" ++ text
  | within text => "**/*" ++ text ++ "*"
  | below folder => "**/" ++ folder ++ "/**"

def tokens : Form → List Token
  | ending text => .recursivePrefix :: .anyRun :: text.toList.map .literal
  | within text => .recursivePrefix :: .anyRun :: (text.toList.map .literal ++ [.anyRun])
  | below folder => .recursivePrefix :: (folder.toList.map .literal ++ [.recursiveSuffix])

/-- The word of a form has characters, and these stand for themselves. -/
def IsProper (form : Form) : Prop := form.word ≠ [] ∧ ∀ c ∈ form.word, IsPlain c

instance : DecidablePred IsProper := fun form =>
  @instDecidableAnd _ _ inferInstance (List.decidableBAll IsPlain form.word)

theorem read_pattern {form : Form} (proper : form.IsProper) :
    read .empty .plain form.pattern.toList = .ok form.tokens := by
  obtain ⟨full,plain⟩ := proper
  have single (rest : List Char) : (form.word ++ rest).head? ≠ some '*' := by
    obtain ⟨c,word,spelled⟩ := List.exists_cons_of_ne_nil full
    rw [spelled]
    rintro star
    exact absurd (plain c (by simp [spelled])) (by cases star; decide)
  cases form with
  | ending text =>
    have spelled :
        (ending text).pattern.toList = '*' :: '*' :: '/' :: '*' :: ((ending text).word ++ []) := by
      simp [pattern,word]
    rw [spelled,read_treeStart,read_star (single []),read_plainText plain,read_end]
    simp [tokens,word]
  | within text =>
    have spelled :
        (within text).pattern.toList = '*' :: '*' :: '/' :: '*' :: ((within text).word ++ ['*']) := by
      simp [pattern,word]
    rw [spelled,read_treeStart,read_star (single ['*']),read_plainText plain,read_star (by simp),read_end]
    simp [tokens,word]
  | below folder =>
    have spelled :
        (below folder).pattern.toList = '*' :: '*' :: '/' :: ((below folder).word ++ ['/','*','*']) := by
      simp [pattern,word]
    rw [spelled,read_treeStart,read_plainText plain,read_treeEnd]
    simp [tokens,word]

/-- What a form asks of a path. -/
def Covers (form : Form) (text : List Char) : Prop :=
  match form with
  | ending word => word.toList <:+ text
  | within word => word.toList <:+: text
  | below folder => ∃ front rest, text = front ++ folder.toList ++ '/' :: rest ∧
      (front = [] ∨ ∃ before, front = before ++ ['/'])

theorem texts_below (folder : String) : sequenceTexts false (below folder).tokens =
    (1 + everything * {['/']}) * ({folder.toList} * ({['/']} * everything)) := by
  have last : sequenceTexts false [.recursiveSuffix] = {['/']} * everything := mul_one _
  rw [← sequenceTexts_literals false folder.toList,← last,← sequenceTexts_append]
  rfl

theorem mem_tokens_iff (form : Form) (text : List Char) :
    text ∈ sequenceTexts false form.tokens ↔ form.Covers text := by
  cases form with
  | ending word =>
    have shape : sequenceTexts false (ending word).tokens = everything * {word.toList} := by
      rw [← sequenceTexts_literals false word.toList]
      exact folders_mul_everything_mul
    rw [shape,mem_everything_mul]
    constructor
    · rintro ⟨front,_,parted,rfl⟩
      exact ⟨front,parted⟩
    · rintro ⟨front,parted⟩
      exact ⟨front,_,parted,rfl⟩
  | within word =>
    have shape : sequenceTexts false (within word).tokens = everything * ({word.toList} * (everything * 1)) := by
      rw [← sequenceTexts_literals false word.toList]
      rw [tokens,sequenceTexts,sequenceTexts,sequenceTexts_append]
      exact folders_mul_everything_mul
    rw [shape,mul_one,mem_everything_mul]
    constructor
    · rintro ⟨front,_,parted,_,rfl,back,_,rfl⟩
      exact ⟨front,back,(List.append_assoc ..).trans parted⟩
    · rintro ⟨front,back,parted⟩
      exact ⟨front,_,(List.append_assoc ..).symm.trans parted,_,rfl,back,fun _ _ => rfl,rfl⟩
  | below folder =>
    rw [texts_below,Language.mem_mul]
    constructor
    · rintro ⟨front,folders,_,⟨_,rfl,_,⟨_,rfl,rest,_,rfl⟩,rfl⟩,rfl⟩
      refine ⟨front,rest,by simp,?_⟩
      rcases folders with rfl | ⟨before,_,_,rfl,rfl⟩
      · exact .inl rfl
      · exact .inr ⟨before,rfl⟩
    · rintro ⟨front,rest,rfl,folders⟩
      have tail : folder.toList ++ '/' :: rest ∈
          ({folder.toList} * ({['/']} * everything) : Language Char) :=
        Language.append_mem_mul rfl (Language.append_mem_mul (a := ['/']) rfl fun _ _ => rfl)
      refine ⟨front,?_,_,tail,(List.append_assoc ..).symm⟩
      rcases folders with rfl | ⟨before,rfl⟩
      · exact .inl rfl
      · exact .inr (Language.append_mem_mul (fun _ _ => rfl) rfl)

theorem tokens_whole (form : Form) : ∀ token ∈ form.tokens, token.isWhole = true := by
  have literals (word : String) : ∀ token ∈ word.toList.map Token.literal, token.isWhole = true :=
    List.forall_mem_map.mpr fun _ _ => rfl
  cases form with
  | ending word => exact List.forall_mem_cons.mpr ⟨rfl,List.forall_mem_cons.mpr ⟨rfl,literals word⟩⟩
  | within word =>
    have last : ∀ token ∈ word.toList.map Token.literal ++ [.anyRun], token.isWhole = true :=
      List.forall_mem_append.mpr ⟨literals word,List.forall_mem_singleton.mpr rfl⟩
    exact List.forall_mem_cons.mpr ⟨rfl,List.forall_mem_cons.mpr ⟨rfl,last⟩⟩
  | below folder =>
    have last : ∀ token ∈ folder.toList.map Token.literal ++ [.recursiveSuffix], token.isWhole = true :=
      List.forall_mem_append.mpr ⟨literals folder,List.forall_mem_singleton.mpr rfl⟩
    exact List.forall_mem_cons.mpr ⟨rfl,last⟩

/-- The patterns of some forms. -/
def patterns (forms : List Form) : List Pattern := forms.map fun form => ⟨false,form.tokens⟩

theorem readSet_patterns {forms : List Form} (proper : ∀ form ∈ forms, form.IsProper) :
    readSet false (forms.map pattern) = .ok (patterns forms) :=
  readSet_map (fun form inside => read_pattern (proper form inside)) fun form _ => form.tokens_whole

theorem anyMatch_patterns (forms : List Form) (path : String) : anyMatch (patterns forms) path = true ↔
    ∃ form ∈ forms, form.Covers path.toList ∧
      ((⟨false,form.tokens⟩ : Pattern).needsName = true → hasName (encode path.toList) = true) := by
  have matched (form : Form) : (⟨false,form.tokens⟩ : Pattern).isMatch path = true ↔ form.Covers path.toList ∧
      ((⟨false,form.tokens⟩ : Pattern).needsName = true → hasName (encode path.toList) = true) := by
    have several : form.tokens ≠ [.recursivePrefix] := by
      cases form with
      | ending word => exact fun same => nomatch same
      | within word => exact fun same => nomatch same
      | below folder => simp [tokens]
    rw [Pattern.isMatch_iff form.tokens_whole several,mem_tokens_iff]
  rw [anyMatch,patterns,List.any_map,List.any_eq_true]
  simp only [Function.comp_apply,matched]

end Form

end SourceAtlas.Glob
