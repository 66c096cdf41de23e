import SourceAtlas.Proofs.GlobLanguage
import SourceAtlas.Proofs.Utf8

/-! Glob patterns on characters. A pattern of characters, runs and recursive tokens matches a path as if
its tokens stood for characters: a run of bytes can always be moved to end between two characters. -/
namespace SourceAtlas.Glob

open Utf8 (encode encode_append encode_cons)

-- Single characters among bytes

theorem encodeChar_first (c : Char) : ∃ first more, String.utf8EncodeChar c = first :: more ∧
    first.IsUTF8FirstByte ∧ ∀ b ∈ more, ¬b.IsUTF8FirstByte := by
  obtain ⟨first,more,spelled⟩ := List.exists_cons_of_ne_nil (String.utf8EncodeChar_ne_nil (c := c))
  have marked (i : Nat) (b : UInt8) (read : (String.utf8EncodeChar c)[i]? = some b) :
      b.IsUTF8FirstByte ↔ i = 0 := by
    obtain ⟨bound,rfl⟩ := List.getElem?_eq_some_iff.mp read
    exact UInt8.isUTF8FirstByte_getElem_utf8EncodeChar
  refine ⟨first,more,spelled,(marked 0 first (by rw [spelled]; rfl)).mpr rfl,fun b inside starts => ?_⟩
  obtain ⟨i,read⟩ := List.getElem?_of_mem inside
  have later := (marked (i + 1) b (by rw [spelled,List.getElem?_cons_succ,read])).mp starts
  exact Nat.succ_ne_zero i later

theorem encodeChar_append_inj {c d : Char} {after other : Bytes}
    (same : String.utf8EncodeChar c ++ after = String.utf8EncodeChar d ++ other) :
    c = d ∧ after = other := by
  have pieces := congrArg Utf8.pieces same
  rw [Utf8.pieces_encodeChar,Utf8.pieces_encodeChar] at pieces
  obtain rfl := Option.some.inj (List.cons.inj pieces).1
  exact ⟨rfl,List.append_cancel_left same⟩

theorem ascii_mem_encodeChar {c d : Char} {b : UInt8} (spelled : String.utf8EncodeChar d = [b])
    (ascii : b.toNat < 0x80) : b ∈ String.utf8EncodeChar c ↔ c = d := by
  constructor
  · intro inside
    have size := Utf8.utf8Size_of_ascii inside ascii
    rw [String.utf8EncodeChar_eq_singleton size,List.mem_singleton] at inside
    have alone : String.utf8EncodeChar c = String.utf8EncodeChar d := by
      rw [String.utf8EncodeChar_eq_singleton size,spelled,inside]
    exact (encodeChar_append_inj (congrArg (· ++ []) alone)).1
  · rintro rfl
    rw [spelled]
    exact List.mem_singleton_self b

theorem separator_mem_encodeChar {c : Char} : separator ∈ String.utf8EncodeChar c ↔ c = '/' :=
  ascii_mem_encodeChar (by decide) (by decide)

-- Languages of bytes that encode languages of characters

/-- The rest of a character. -/
def Continues (tail : Bytes) : Prop := ∀ b ∈ tail, ¬b.IsUTF8FirstByte

/-- A language of bytes holds the encoded texts of a language of characters. One of its texts that
begins what is left of an encoded text, perhaps within a character, can be replaced by a text of
characters, up to the rest of one character. -/
structure Encodes (L : Language UInt8) (W : Language Char) : Prop where
  holds : ∀ text ∈ W, encode text ∈ L
  cut : ∀ tail text piece after, Continues tail → tail ++ encode text = piece ++ after → piece ∈ L →
    ∃ front rest remainder, text = front ++ rest ∧ front ∈ W ∧ Continues remainder ∧
      after = remainder ++ encode rest

variable {L M : Language UInt8} {W V : Language Char}

theorem Encodes.mem_iff (encodes : Encodes L W) (text : List Char) : encode text ∈ L ↔ text ∈ W := by
  constructor
  · intro inside
    obtain ⟨front,rest,remainder,rfl,member,_,empty⟩ :=
      encodes.cut [] text (encode text) [] (List.forall_mem_nil _) (List.append_nil _).symm inside
    have nothing : encode rest = encode [] := (List.append_eq_nil_iff.mp empty.symm).2
    rwa [Utf8.encode_injective nothing,List.append_nil]
  · exact encodes.holds text

theorem encodes_one : Encodes 1 1 where
  holds := by
    rintro _ rfl
    rfl
  cut := by
    rintro tail text _ after continues parted rfl
    exact ⟨[],text,tail,rfl,rfl,continues,parted.symm⟩

theorem Encodes.add (first : Encodes L W) (second : Encodes M V) : Encodes (L + M) (W + V) where
  holds text := Or.imp (first.holds text) (second.holds text)
  cut tail text piece after continues parted := by
    rintro (inside | inside)
    · obtain ⟨front,rest,remainder,same,member,left⟩ := first.cut _ _ _ _ continues parted inside
      exact ⟨front,rest,remainder,same,.inl member,left⟩
    · obtain ⟨front,rest,remainder,same,member,left⟩ := second.cut _ _ _ _ continues parted inside
      exact ⟨front,rest,remainder,same,.inr member,left⟩

theorem Encodes.mul (first : Encodes L W) (second : Encodes M V) : Encodes (L * M) (W * V) where
  holds := by
    rintro _ ⟨front,here,rest,there,rfl⟩
    have joined := encode_append front rest
    exact joined ▸ Language.append_mem_mul (first.holds front here) (second.holds rest there)
  cut tail text piece after continues parted := by
    rintro ⟨one,here,two,there,rfl⟩
    rw [List.append_assoc] at parted
    obtain ⟨front,rest,remainder,rfl,member,left,same⟩ := first.cut _ _ _ _ continues parted here
    obtain ⟨middle,last,end',rfl,inside,ends,whole⟩ := second.cut _ _ _ _ left same.symm there
    exact ⟨front ++ middle,last,end',(List.append_assoc ..).symm,
      Language.append_mem_mul member inside,ends,whole⟩

theorem encodes_char (c : Char) : Encodes {String.utf8EncodeChar c} {[c]} where
  holds := by
    rintro _ rfl
    exact List.append_nil _
  cut := by
    rintro tail text _ after continues parted rfl
    obtain ⟨first,more,spelled,starts,_⟩ := encodeChar_first c
    cases tail with
    | cons b tail =>
      rw [spelled] at parted
      obtain rfl := (List.cons.inj parted).1
      exact absurd starts (continues b List.mem_cons_self)
    | nil =>
      cases text with
      | nil =>
        rw [spelled] at parted
        exact absurd parted (List.cons_ne_nil _ _).symm
      | cons d text =>
        rw [List.nil_append,encode_cons] at parted
        obtain ⟨rfl,rfl⟩ := encodeChar_append_inj parted
        exact ⟨[d],text,[],rfl,rfl,List.forall_mem_nil _,rfl⟩

/-- A test on bytes that decides a character by its first byte. -/
structure Decides (test : UInt8 → Bool) (testChar : Char → Bool) : Prop where
  all : ∀ c, testChar c = true → ∀ b ∈ String.utf8EncodeChar c, test b = true
  first : ∀ c b more, String.utf8EncodeChar c = b :: more → test b = true → testChar c = true

theorem cut_run {test : UInt8 → Bool} {testChar : Char → Bool} (decides : Decides test testChar)
    {text : List Char} {piece after : Bytes} (parted : encode text = piece ++ after)
    (passed : ∀ b ∈ piece, test b = true) : ∃ front rest remainder, text = front ++ rest ∧
      (∀ c ∈ front, testChar c = true) ∧ Continues remainder ∧ after = remainder ++ encode rest := by
  induction text generalizing piece with
  | nil =>
    obtain ⟨_,rfl⟩ := List.append_eq_nil_iff.mp parted.symm
    exact ⟨[],[],[],rfl,List.forall_mem_nil _,List.forall_mem_nil _,rfl⟩
  | cons c text ih =>
    obtain ⟨first,more,spelled,_,continues⟩ := encodeChar_first c
    rw [encode_cons] at parted
    rcases List.append_eq_append_iff.mp parted with ⟨later,rfl,others⟩ | ⟨remainder,whole,rfl⟩
    · have here : testChar c = true := by
        have inside : first ∈ String.utf8EncodeChar c ++ later := by simp [spelled]
        exact decides.first c first more spelled (passed first inside)
      obtain ⟨front,rest,remainder,rfl,chars,left,same⟩ :=
        ih others fun b inside => passed b (List.mem_append_right _ inside)
      exact ⟨c :: front,rest,remainder,rfl,List.forall_mem_cons.mpr ⟨here,chars⟩,left,same⟩
    · cases piece with
      | nil =>
        obtain rfl : String.utf8EncodeChar c = remainder := whole
        exact ⟨[],c :: text,[],rfl,List.forall_mem_nil _,List.forall_mem_nil _,(encode_cons c text).symm⟩
      | cons b piece =>
        obtain ⟨rfl,rfl⟩ := List.cons.inj (spelled.symm.trans whole)
        have here := decides.first c first _ spelled (passed first List.mem_cons_self)
        refine ⟨[c],text,remainder,rfl,List.forall_mem_singleton.mpr here,fun b inside => ?_,rfl⟩
        exact continues b (List.mem_append_right _ inside)

theorem encodes_runs {test : UInt8 → Bool} {testChar : Char → Bool} (decides : Decides test testChar) :
    Encodes (runs test) (runs testChar) where
  holds text passed b inside := by
    obtain ⟨c,member,spelled⟩ := List.mem_flatMap.mp inside
    exact decides.all c (passed c member) b spelled
  cut tail text piece after continues parted passed := by
    rcases List.append_eq_append_iff.mp parted with ⟨later,rfl,others⟩ | ⟨remainder,rfl,rfl⟩
    · exact cut_run decides others fun b inside => passed b (List.mem_append_right _ inside)
    · refine ⟨[],text,remainder,rfl,List.forall_mem_nil _,fun b inside => ?_,rfl⟩
      exact continues b (List.mem_append_right _ inside)

theorem encodes_everything : Encodes everything everything :=
  encodes_runs ⟨fun _ _ _ _ => rfl,fun _ _ _ _ _ => rfl⟩

theorem decides_spansByte (separated : Bool) :
    Decides (spansByte separated) fun c => !separated || c != '/' where
  all c passed b inside := by
    cases separated with
    | false => rfl
    | true =>
      have other : c ≠ '/' := by simpa using passed
      have apart : b ≠ separator := by
        rintro rfl
        exact other (separator_mem_encodeChar.mp inside)
      simpa [spansByte] using apart
  first c b more spelled passed := by
    cases separated with
    | false => rfl
    | true =>
      have apart : b ≠ separator := by simpa [spansByte] using passed
      have other : c ≠ '/' := by
        rintro rfl
        exact apart (List.cons.inj spelled).1.symm
      simpa using other

-- Tokens on characters

/-- Tokens that stand for characters. The others are about single bytes. -/
def Token.isWhole : Token → Bool
  | .literal _ | .anyRun | .recursivePrefix | .recursiveSuffix | .recursiveMiddle => true
  | .anyOne | .characterClass _ _ | .alternatives _ => false

/-- The texts that a token on characters stands for. -/
def Token.texts (separated : Bool) : Token → Language Char
  | .literal c => {[c]}
  | .anyRun => runs fun c => !separated || c != '/'
  | .recursivePrefix => 1 + everything * {['/']}
  | .recursiveSuffix => {['/']} * everything
  | .recursiveMiddle => {['/']} * (1 + everything * {['/']})
  | .anyOne | .characterClass _ _ | .alternatives _ => 0

def sequenceTexts (separated : Bool) : List Token → Language Char
  | [] => 1
  | token :: tokens => token.texts separated * sequenceTexts separated tokens

theorem encodes_separator : Encodes {[separator]} {['/']} := encodes_char '/'

theorem encodes_folders : Encodes (1 + everything * {[separator]}) (1 + everything * {['/']}) :=
  encodes_one.add (encodes_everything.mul encodes_separator)

theorem Token.encodes {token : Token} (whole : token.isWhole = true) (separated : Bool) :
    Encodes (token.language separated) (token.texts separated) := by
  cases token with
  | literal c => exact encodes_char c
  | anyRun => exact encodes_runs (decides_spansByte separated)
  | recursivePrefix => exact encodes_folders
  | recursiveSuffix => exact encodes_separator.mul encodes_everything
  | recursiveMiddle => exact encodes_separator.mul encodes_folders
  | anyOne => cases whole
  | characterClass => cases whole
  | alternatives => cases whole

theorem encodes_sequence {tokens : List Token} (whole : ∀ token ∈ tokens, token.isWhole = true)
    (separated : Bool) : Encodes (sequenceLanguage separated tokens) (sequenceTexts separated tokens) := by
  induction tokens with
  | nil => exact encodes_one
  | cons token tokens ih =>
    obtain ⟨here,later⟩ := List.forall_mem_cons.mp whole
    exact (token.encodes here separated).mul (ih later)

theorem sequenceTexts_append (separated : Bool) (tokens others : List Token) :
    sequenceTexts separated (tokens ++ others) =
      sequenceTexts separated tokens * sequenceTexts separated others := by
  induction tokens with
  | nil => exact (one_mul _).symm
  | cons token tokens ih => rw [List.cons_append,sequenceTexts,sequenceTexts,ih,mul_assoc]

theorem sequenceTexts_literals (separated : Bool) (word : List Char) :
    sequenceTexts separated (word.map .literal) = {word} := by
  induction word with
  | nil => rfl
  | cons c word ih =>
    rw [List.map_cons,sequenceTexts,ih]
    ext text
    rw [Language.mem_mul]
    constructor
    · rintro ⟨_,rfl,_,rfl,rfl⟩
      rfl
    · rintro rfl
      exact ⟨[c],rfl,word,rfl,rfl⟩

theorem mem_everything_mul {text : List Char} :
    text ∈ everything * W ↔ ∃ front rest, front ++ rest = text ∧ rest ∈ W := by
  rw [Language.mem_mul]
  constructor
  · rintro ⟨front,_,rest,member,parted⟩
    exact ⟨front,rest,parted,member⟩
  · rintro ⟨front,rest,parted,member⟩
    exact ⟨front,fun _ _ => rfl,rest,member,parted⟩

/-- Folders before a run that crosses them add nothing to it. -/
theorem folders_mul_everything_mul :
    (1 + everything * {['/']}) * (everything * W) = everything * W := by
  ext text
  constructor
  · rintro ⟨folders,_,rest,inside,rfl⟩
    obtain ⟨front,rest,rfl,member⟩ := mem_everything_mul.mp inside
    exact mem_everything_mul.mpr ⟨folders ++ front,rest,List.append_assoc ..,member⟩
  · intro inside
    exact ⟨[],.inl rfl,text,inside,rfl⟩

/-- A path has a name if its last character cannot end a step up. -/
theorem hasName_of_last {front : List Char} {c : Char} (solid : c ≠ '.') (named : c ≠ '/') :
    hasName (encode (front ++ [c])) = true := by
  have dot : (0x2E : UInt8) ∉ String.utf8EncodeChar c := fun inside =>
    solid ((ascii_mem_encodeChar (by decide) (by decide)).mp inside)
  have slash : separator ∉ String.utf8EncodeChar c := fun inside =>
    named (separator_mem_encodeChar.mp inside)
  obtain ⟨bytes,b,spelled⟩ :=
    (List.eq_nil_or_concat (String.utf8EncodeChar c)).resolve_left String.utf8EncodeChar_ne_nil
  have whole : encode (front ++ [c]) = (encode front ++ bytes) ++ [b] := by
    rw [encode_append,encode_cons,spelled]
    simp [encode]
  have last : b ∈ String.utf8EncodeChar c := by simp [spelled]
  have apart : b ≠ separator := fun same => slash (same ▸ last)
  have other : b ≠ 0x2E := fun same => dot (same ▸ last)
  simp [hasName,whole,apart,other]

/-- A path has a name if its last part is one. -/
theorem hasName_of_name {front part : List Char} (start : front = [] ∨ ∃ before, front = before ++ ['/'])
    (clean : '/' ∉ part) (full : part ≠ []) (named : part ≠ ['.','.']) :
    hasName (encode (front ++ part)) = true := by
  have passed : ∀ b ∈ (encode part).reverse, (b != separator) = true := by
    intro b inside
    obtain ⟨c,member,spelled⟩ := List.mem_flatMap.mp (List.mem_reverse.mp inside)
    have other : b ≠ separator := by
      rintro rfl
      exact clean (separator_mem_encodeChar.mp spelled ▸ member)
    simpa using other
  have stopped : (encode front).reverse.takeWhile (· != separator) = [] := by
    rcases start with rfl | ⟨before,rfl⟩
    · rfl
    · have last : encode ['/'] = [separator] := rfl
      rw [encode_append,last,List.reverse_append]
      rfl
  have last : (encode (front ++ part)).reverse.takeWhile (· != separator) = (encode part).reverse := by
    rw [encode_append,List.reverse_append,List.takeWhile_append_of_pos passed,stopped,List.append_nil]
  have some : encode (front ++ part) ≠ encode [] := fun same =>
    full (List.append_eq_nil_iff.mp (Utf8.encode_injective same)).2
  have other : (encode part).reverse ≠ [0x2E,0x2E] := by
    intro same
    have up : encode part = encode ['.','.'] := List.reverse_eq_iff.mp same
    exact named (Utf8.encode_injective up)
  rw [hasName,last]
  simp [other,show encode (front ++ part) ≠ [] from some]

theorem Pattern.isMatch_iff {pattern : Pattern} (whole : ∀ token ∈ pattern.tokens, token.isWhole = true)
    (several : pattern.tokens ≠ [.recursivePrefix]) (path : String) : pattern.isMatch path = true ↔
      path.toList ∈ sequenceTexts pattern.separated pattern.tokens ∧
        (pattern.needsName = true → hasName (encode path.toList) = true) := by
  have spans : pattern.spans (encode path.toList) = true ↔
      path.toList ∈ sequenceTexts pattern.separated pattern.tokens := by
    rw [pattern.spans_iff,or_iff_right several]
    exact (encodes_sequence whole pattern.separated).mem_iff path.toList
  rw [isMatch,matchesBytes,Bool.and_eq_true,spans]
  apply and_congr_right
  intro _
  cases pattern.needsName <;> simp

end SourceAtlas.Glob
