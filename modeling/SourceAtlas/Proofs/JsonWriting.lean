import Mathlib.Data.List.Forall2
import SourceAtlas.Json.Value
import SourceAtlas.Proofs.JsonReading

/-! Both text forms of a JSON value spell it: the compact one without any blanks, the other one with line
breaks and indentation between the same lexemes. What they say is the value again. -/
namespace SourceAtlas

open Json

/-- Induction on values, with what is known of all items or all member values at once. -/
theorem Json.induction {motive : Json → Prop} (null : motive .null) (bool : ∀ value, motive (.bool value))
    (number : ∀ value, motive (.number value)) (text : ∀ content, motive (.text content))
    (array : ∀ items, (∀ item ∈ items, motive item) → motive (.array items))
    (object : ∀ members, (∀ member ∈ members, motive member.2) → motive (.object members))
    (json : Json) : motive json := by
  refine @Json.rec motive (fun items => ∀ item ∈ items, motive item)
    (fun members => ∀ member ∈ members, motive member.2) (fun member => motive member.2)
    null bool number text array object ?_ ?_ ?_ ?_ ?_ json
  · exact fun _ absent => absurd absent List.not_mem_nil
  · exact fun _ _ here later => List.forall_mem_cons.mpr ⟨here,later⟩
  · exact fun _ absent => absurd absent List.not_mem_nil
  · exact fun _ _ here later => List.forall_mem_cons.mpr ⟨here,later⟩
  · exact fun _ _ here => here

namespace Json

-- Numerals

theorem head?_toDigits {n : Nat} (positive : 0 < n) : (Nat.toDigits 10 n).head? ≠ some '0' := by
  induction n using Nat.strongRecOn with
  | ind n ih =>
    by_cases small : n < 10
    · have nonzero : ∀ n < 10, 0 < n → n.digitChar ≠ '0' := by decide
      rw [Nat.toDigits_of_lt_base small]
      exact fun same => nonzero n small positive (Option.some.inj same)
    · have shorter := ih (n / 10) (by omega) (by omega)
      rw [Nat.toDigits_of_base_le (by decide) (by omega),
        List.head?_append_of_ne_nil _ Nat.toDigits_ne_nil]
      exact shorter

def Digits.ofNat (n : Nat) : Digits where
  first := (Nat.toDigits 10 n).head Nat.toDigits_ne_nil
  rest := (Nat.toDigits 10 n).tail
  decimal c member := by
    rw [List.cons_head_tail] at member
    exact Nat.isDigit_of_mem_toDigits (by decide) (by decide) member

theorem Digits.text_ofNat (n : Nat) : (Digits.ofNat n).text = (toString n).toList := by
  rw [Digits.text,ofNat,List.cons_head_tail]
  exact Nat.toList_repr.symm

def Numeral.ofNat (n : Nat) : Numeral where
  negative := false
  whole := .ofNat n
  noLeadingZero zero := by
    rcases Nat.eq_zero_or_pos n with rfl | positive
    · rfl
    · refine absurd ?_ (head?_toDigits positive)
      rw [← zero]
      exact (List.head?_eq_some_head Nat.toDigits_ne_nil)
  fraction := none
  exponent := none

theorem Numeral.text_ofNat (n : Nat) : (Numeral.ofNat n).text = (toString n).toList := by
  rw [← Digits.text_ofNat]
  exact List.append_nil _

-- Strings

theorem hexValue4?_control : ∀ n < 0x20,
    hexValue4? '0' '0' (Text.hexDigit (n / 16)) (Text.hexDigit (n % 16)) = some n := by decide

def SpelledPiece.ofChar (c : Char) : SpelledPiece :=
  if quote : c = '"' then .escape '"' c (by rw [quote]; rfl)
  else if backslash : c = '\\' then .escape '\\' c (by rw [backslash]; rfl)
  else if backspace : c = '\x08' then .escape 'b' c (by rw [backspace]; rfl)
  else if formFeed : c = '\x0c' then .escape 'f' c (by rw [formFeed]; rfl)
  else if lineFeed : c = '\n' then .escape 'n' c (by rw [lineFeed]; rfl)
  else if return' : c = '\r' then .escape 'r' c (by rw [return']; rfl)
  else if tab : c = '\t' then .escape 't' c (by rw [tab]; rfl)
  else if control : c.toNat < 0x20 then
    .unit '0' '0' (Text.hexDigit (c.toNat / 16)) (Text.hexDigit (c.toNat % 16)) c.toNat
      (hexValue4?_control c.toNat control)
  else .plain c (Nat.not_lt.mp control) quote backslash

theorem SpelledPiece.text_ofChar (c : Char) : (SpelledPiece.ofChar c).text = escapeChar c := by
  unfold SpelledPiece.ofChar escapeChar
  split_ifs <;> rfl

/-- A written character is a character again, or a unit that is no half of one. -/
theorem SpelledPiece.piece_ofChar (c : Char) : (SpelledPiece.ofChar c).piece = .character c ∨
    c.toNat < 0x20 ∧ (SpelledPiece.ofChar c).piece = .unit c.toNat := by
  unfold SpelledPiece.ofChar
  split_ifs with quote backslash backspace formFeed lineFeed return' tab control
  iterate 7 exact .inl rfl
  · exact .inr ⟨control,rfl⟩
  · exact .inl rfl

theorem joinPieces_unit {unit : Nat} (whole : unit < 0xD800) (rest : List Piece) :
    joinPieces none (.unit unit :: rest) = (joinPieces none rest).map (Char.ofNat unit :: ·) := by
  have noLeading : isLeading unit = false := by simp [isLeading]; omega
  have noTrailing : isTrailing unit = false := by simp [isTrailing]; omega
  cases rest with
  | nil => simp [joinPieces,noLeading,noTrailing,Except.map]
  | cons next rest => cases next <;> simp [joinPieces,noLeading,noTrailing]

def SpelledString.ofText (content : String) : SpelledString := content.toList.map SpelledPiece.ofChar

theorem joinPieces_ofChar (text : List Char) :
    joinPieces none ((text.map SpelledPiece.ofChar).map SpelledPiece.piece) = .ok text := by
  induction text with
  | nil => rfl
  | cons c text ih =>
    rw [List.map_cons,List.map_cons]
    rcases SpelledPiece.piece_ofChar c with plain | ⟨control,unit⟩
    · rw [plain,joinPieces,ih]
      rfl
    · rw [unit,joinPieces_unit (by omega),ih,Char.ofNat_toNat]
      rfl

theorem SpelledString.content_ofText (content : String) : (SpelledString.ofText content).content =
    some content := by
  rw [SpelledString.content,SpelledString.ofText,joinPieces_ofChar]
  exact congrArg some String.ofList_toList

theorem SpelledString.text_ofText (content : String) : (SpelledString.ofText content).text =
    quote content := by
  rw [SpelledString.text,SpelledString.body,SpelledString.ofText,quote,List.flatMap_map,
    List.cons_append]
  simp only [SpelledPiece.text_ofChar]

-- Values

mutual

/-- A value as both text forms spell it. -/
def spelled : Json → Spelled
  | .null => .scalar .null
  | .bool value => .scalar (.bool value)
  | .number value => .scalar (.number (.ofNat value))
  | .text content => .scalar (.string (.ofText content))
  | .array items => .array (spelledItems items)
  | .object members => .object (spelledMembers members)

def spelledItems : List Json → List Spelled
  | [] => []
  | item :: items => item.spelled :: spelledItems items

def spelledMembers : List (String × Json) → List (SpelledString × Spelled)
  | [] => []
  | (key,value) :: members => (.ofText key,value.spelled) :: spelledMembers members

end

theorem spelledItems_eq_map (items : List Json) : spelledItems items = items.map spelled := by
  induction items with
  | nil => rfl
  | cons item items ih => rw [spelledItems,ih,List.map_cons]

theorem spelledMembers_eq_map (members : List (String × Json)) :
    spelledMembers members = members.map fun member => (.ofText member.1,member.2.spelled) := by
  induction members with
  | nil => rfl
  | cons member members ih => rw [spelledMembers,ih,List.map_cons]

def draft (json : Json) : Draft := json.spelled.draft

theorem draft_text (content : String) : (Json.text content).draft = .text (some content) :=
  congrArg Draft.text (SpelledString.content_ofText content)

theorem draft_array (items : List Json) : (Json.array items).draft = .array (items.map draft) none := by
  rw [draft,spelled,Spelled.draft,Spelled.itemDrafts_eq_map,spelledItems_eq_map,List.map_map]
  rfl

theorem draft_object (members : List (String × Json)) : (Json.object members).draft =
    .object (members.map fun member => (some member.1,member.2.draft)) none := by
  rw [draft,spelled,Spelled.draft,Spelled.memberDrafts_eq_map,spelledMembers_eq_map,List.map_map]
  simp only [Function.comp_def,SpelledString.content_ofText]
  rfl

-- The compact form

theorem separated_cons (part : List Char) (parts : List (List Char)) :
    separated (part :: parts) = part ++ parts.flatMap (',' :: ·) := by
  induction parts generalizing part with
  | nil => simp [separated]
  | cons next parts ih => rw [separated,ih,List.flatMap_cons,List.cons_append]; simp

theorem compactItems_eq_map (items : List Json) : compactItems items = items.map compact := by
  induction items with
  | nil => rfl
  | cons item items ih => rw [compactItems,ih,List.map_cons]

theorem compactMembers_eq_map (members : List (String × Json)) :
    compactMembers members = members.map fun member => quote member.1 ++ ':' :: member.2.compact := by
  induction members with
  | nil => rfl
  | cons member members ih => rw [compactMembers,ih,List.map_cons]

theorem flatMap_commaSeparated (parts : List (List Lexeme)) :
    (commaSeparated parts).flatMap Lexeme.text =
      separated (parts.map fun part => part.flatMap Lexeme.text) := by
  cases parts with
  | nil => rfl
  | cons part parts =>
    rw [commaSeparated_cons,List.map_cons,separated_cons,List.flatMap_append,List.flatMap_assoc,
      List.flatMap_map]
    rfl

theorem compact_eq_text (json : Json) : json.compact = json.spelled.text := by
  induction json using Json.induction with
  | null => rfl
  | bool value => cases value <;> rfl
  | number value =>
    rw [compact,← Numeral.text_ofNat]
    exact (List.append_nil _).symm
  | text content =>
    rw [compact,← SpelledString.text_ofText]
    exact (List.append_nil _).symm
  | array items ih =>
    have parts : compactItems items =
        (Spelled.itemParts (spelledItems items)).map fun part => part.flatMap Lexeme.text := by
      rw [compactItems_eq_map,spelledItems_eq_map,Spelled.itemParts_eq_map,List.map_map,List.map_map]
      exact List.map_congr_left ih
    rw [compact,parts,← flatMap_commaSeparated,spelled,Spelled.text,Spelled.lexemes]
    simp [Lexeme.text,Mark.char]
  | object members ih =>
    have parts : compactMembers members =
        (Spelled.memberParts (spelledMembers members)).map fun part => part.flatMap Lexeme.text := by
      rw [compactMembers_eq_map,spelledMembers_eq_map,Spelled.memberParts_eq_map,List.map_map,
        List.map_map]
      refine List.map_congr_left fun member inside => ?_
      rw [ih member inside,← SpelledString.text_ofText]
      rfl
    rw [compact,parts,← flatMap_commaSeparated,spelled,Spelled.text,Spelled.lexemes]
    simp [Lexeme.text,Mark.char]

-- The form with one item per line

theorem Layout.append {first second : List Lexeme} {text more : List Char}
    (left : Layout Blanks Blanks first text) (right : Layout Blanks Blanks second more) :
    Layout Blanks Blanks (first ++ second) (text ++ more) := by
  induction left with
  | nil blank => exact right.blanks_append blank
  | cons start _ ih =>
    rw [List.append_assoc,List.append_assoc]
    exact .cons start ih

theorem Layout.mark (sign : Mark) : Layout Blanks Blanks [.mark sign] [sign.char] :=
  layout_flatMap [.mark sign]

theorem layout_flatMap_comma {parts : List (List Lexeme)} {texts : List (List Char)}
    (each : List.Forall₂ (Layout Blanks Blanks) parts texts) :
    Layout Blanks Blanks (parts.flatMap (.mark .comma :: ·)) (texts.flatMap (',' :: ·)) := by
  induction each with
  | nil => exact layout_flatMap []
  | cons here _ ih => exact ((Layout.mark .comma).append here).append ih

theorem layout_separated {parts : List (List Lexeme)} {texts : List (List Char)}
    (each : List.Forall₂ (Layout Blanks Blanks) parts texts) :
    Layout Blanks Blanks (commaSeparated parts) (separated texts) := by
  cases each with
  | nil => exact layout_flatMap []
  | cons here later =>
    rw [commaSeparated_cons,separated_cons]
    exact here.append (layout_flatMap_comma later)

theorem blanks_breakLine (depth : Nat) : Blanks (breakLine depth) := by
  refine List.forall_mem_cons.mpr ⟨rfl,fun c member => ?_⟩
  rw [List.eq_of_mem_replicate member]
  rfl

theorem layout_spread {opening closing : Mark} {parts : List (List Lexeme)} {texts : List (List Char)}
    (each : List.Forall₂ (Layout Blanks Blanks) parts texts) (depth : Nat) :
    Layout Blanks Blanks (.mark opening :: (commaSeparated parts ++ [.mark closing]))
      (spread depth opening.char closing.char texts) := by
  cases each with
  | nil => exact (Layout.mark opening).append (Layout.mark closing)
  | @cons part text parts texts here later =>
    have broken : List.Forall₂ (Layout Blanks Blanks) (part :: parts)
        ((text :: texts).map (breakLine (depth + 1) ++ ·)) := by
      rw [List.forall₂_map_right_iff]
      exact (List.Forall₂.cons here later).imp fun _ _ layout =>
        layout.blanks_append (blanks_breakLine _)
    have closed := (Layout.mark closing).blanks_append (blanks_breakLine depth)
    have whole := (Layout.mark opening).append ((layout_separated broken).append closed)
    simpa [spread] using whole

theorem prettyItems_eq_map (depth : Nat) (items : List Json) :
    prettyItems depth items = items.map (pretty depth) := by
  induction items with
  | nil => rfl
  | cons item items ih => rw [prettyItems,ih,List.map_cons]

theorem prettyMembers_eq_map (depth : Nat) (members : List (String × Json)) :
    prettyMembers depth members =
      members.map fun member => quote member.1 ++ ':' :: ' ' :: member.2.pretty depth := by
  induction members with
  | nil => rfl
  | cons member members ih => rw [prettyMembers,ih,List.map_cons]

theorem layout_compact (json : Json) : Layout Blanks Blanks json.spelled.lexemes json.compact := by
  rw [compact_eq_text]
  exact layout_flatMap _

theorem layout_pretty (json : Json) (depth : Nat) :
    Layout Blanks Blanks json.spelled.lexemes (json.pretty depth) := by
  induction json using Json.induction generalizing depth with
  | null => exact layout_compact .null
  | bool value => exact layout_compact (.bool value)
  | number value => exact layout_compact (.number value)
  | text content => exact layout_compact (.text content)
  | array items ih =>
    rw [pretty,prettyItems_eq_map,spelled,Spelled.lexemes,spelledItems_eq_map,Spelled.itemParts_eq_map]
    refine layout_spread ?_ depth
    rw [List.forall₂_map_left_iff,List.forall₂_map_left_iff,List.forall₂_map_right_iff,
      List.forall₂_same]
    exact fun item inside => ih item inside (depth + 1)
  | object members ih =>
    rw [pretty,prettyMembers_eq_map,spelled,Spelled.lexemes,spelledMembers_eq_map,
      Spelled.memberParts_eq_map]
    refine layout_spread ?_ depth
    rw [List.forall₂_map_left_iff,List.forall₂_map_left_iff,List.forall₂_map_right_iff,
      List.forall₂_same]
    intro member inside
    have key : Layout Blanks Blanks [.scalar (.string (.ofText member.1))] (quote member.1) := by
      rw [← SpelledString.text_ofText,← List.append_nil (SpelledString.text _)]
      exact layout_flatMap [.scalar (.string (.ofText member.1))]
    have space : Blanks [' '] := List.forall_mem_singleton.mpr rfl
    exact key.append ((Layout.mark .colon).append ((ih member inside (depth + 1)).blanks_append space))

-- The characters of the compact form

/-- A function that knows no control characters knows visible ones only. -/
theorem visible_of_known {α : Type} {known? : Char → Option α}
    (controls : ∀ n < 0x20, (known? (Char.ofNat n)).isSome = false) {c : Char}
    (known : (known? c).isSome = true) : 0x20 ≤ c.toNat := by
  by_contra control
  have unknown := controls c.toNat (by omega)
  rw [Char.ofNat_toNat,known] at unknown
  contradiction

theorem visible_of_hexValue? {c : Char} (known : (Text.hexValue? c).isSome = true) :
    0x20 ≤ c.toNat := visible_of_known (by decide) known

theorem visible_of_simpleEscape? {c : Char} (known : (simpleEscape? c).isSome = true) :
    0x20 ≤ c.toNat := visible_of_known (by decide) known

theorem SpelledPiece.visible (piece : SpelledPiece) : ∀ c ∈ piece.text, 0x20 ≤ c.toNat := by
  cases piece with
  | plain c visible _ _ => simpa [SpelledPiece.text] using visible
  | escape letter c known =>
    have visible := visible_of_simpleEscape? (Option.isSome_of_eq_some known)
    simpa [SpelledPiece.text] using visible
  | unit a b c d value hex =>
    obtain ⟨first,second,third,fourth⟩ := hexDigits_of_hexValue4? hex
    simp [SpelledPiece.text,visible_of_hexValue? first,visible_of_hexValue? second,
      visible_of_hexValue? third,visible_of_hexValue? fourth]

theorem Lexeme.visible (lexeme : Lexeme) : ∀ c ∈ lexeme.text, 0x20 ≤ c.toNat := by
  cases lexeme with
  | mark sign => cases sign <;> simp [Lexeme.text,Mark.char]
  | scalar value =>
    cases value with
    | null => simp [Lexeme.text,Scalar.text]
    | bool value => cases value <;> simp [Lexeme.text,Scalar.text]
    | number numeral =>
      intro c member
      exact Nat.le_trans (by decide) (numeral.inNumeral member).bounds.1
    | string pieces =>
      have quoteMark : ∀ c ∈ ['"'], 0x20 ≤ c.toNat := List.forall_mem_singleton.mpr (by decide)
      refine List.forall_mem_append.mpr ⟨quoteMark,List.forall_mem_append.mpr ⟨?_,quoteMark⟩⟩
      exact List.forall_mem_flatMap.mpr fun piece _ => piece.visible

theorem compact_visible (json : Json) : ∀ c ∈ json.compact, 0x20 ≤ c.toNat := by
  rw [compact_eq_text]
  exact List.forall_mem_flatMap.mpr fun lexeme _ => lexeme.visible

end Json

end SourceAtlas
