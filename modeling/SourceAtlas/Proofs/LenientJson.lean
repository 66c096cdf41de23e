import SourceAtlas.Proofs.CommentedJson

/-! Texts that are near to the commented form of a value. They differ from it by accidents of three kinds,
each of which can be allowed or not: without any they are the commented form itself. -/
namespace SourceAtlas.Json

/-- What a text may have that the commented form of a value has not: a word or numeral with block comments
inside, a last block comment without an end, and a comma directly after an opening bracket. -/
inductive Accident
  | tornScalar
  | openComment
  | bareComma

/-- Block comments side by side. -/
inductive Blocks : List Char → Prop
  | nil : Blocks []
  | block {comment rest : List Char} (closed : ¬['*','/'] <:+: comment) (later : Blocks rest) :
    Blocks ('/' :: '*' :: (comment ++ '*' :: '/' :: rest))

/-- A text, and the same with block comments between its characters. -/
inductive Torn : List Char → List Char → Prop
  | last (c : Char) : Torn [c] [c]
  | cons {c : Char} {text between torn : List Char} (blocks : Blocks between) (later : Torn text torn) :
    Torn (c :: text) (c :: (between ++ torn))

variable {allowed : Accident → Prop} {filler : List Char}

inductive SpelledAs (allowed : Accident → Prop) : Lexeme → List Char → Prop
  | whole (lexeme : Lexeme) : SpelledAs allowed lexeme lexeme.text
  | torn {value : Scalar} {text : List Char} (known : allowed .tornScalar)
    (unquoted : ∀ pieces, value ≠ .string pieces) (torn : Torn value.text text) :
    SpelledAs allowed (.scalar value) text

inductive Ending (allowed : Accident → Prop) : List Char → Prop
  | remarks {text : List Char} (remarks : LastRemarks text) : Ending allowed text
  | openComment {text comment : List Char} (known : allowed .openComment) (remarks : Remarks text)
    (endless : ¬['*','/'] <:+: comment) : Ending allowed (text ++ '/' :: '*' :: comment)

inductive Arranged (allowed : Accident → Prop) : List Lexeme → List Char → Prop
  | nil {after : List Char} (end' : Ending allowed after) : Arranged allowed [] after
  | cons {before spelling text : List Char} {lexeme : Lexeme} {lexemes : List Lexeme}
    (start : Remarks before) (spelled : SpelledAs allowed lexeme spelling)
    (rest : Arranged allowed lexemes text) :
    Arranged allowed (lexeme :: lexemes) (before ++ (spelling ++ text))

/-- Somewhere a comma stands directly after an opening bracket. -/
def BareComma (lexemes : List Lexeme) : Prop :=
  ∃ opening, (opening = Mark.openArray ∨ opening = Mark.openObject) ∧
    [.mark opening,.mark .comma] <:+: lexemes

/-- The lexemes of a value, with commas before closing brackets. -/
inductive Written (allowed : Accident → Prop) (value : Spelled) : List Lexeme → Prop
  | loose {lexemes : List Lexeme} (loose : Loose value lexemes) : Written allowed value lexemes
  | bare {lexemes : List Lexeme} (known : allowed .bareComma) (bare : BareComma lexemes)
    (same : strict lexemes = value.lexemes) : Written allowed value lexemes

def Lenient (allowed : Accident → Prop) (value : Spelled) (text : List Char) : Prop :=
  ∃ lexemes, Written allowed value lexemes ∧ Arranged allowed lexemes text

-- Remarks before a text

theorem Remarks.append {first second : List Char} (remarks : Remarks first) (later : Remarks second) :
    Remarks (first ++ second) := by
  induction remarks with
  | nil => exact later
  | blank space _ ih => exact .blank space ih
  | line oneLine _ ih =>
    rw [List.cons_append,List.cons_append,List.append_assoc]
    exact .line oneLine ih
  | block closed _ ih =>
    rw [List.cons_append,List.cons_append,List.append_assoc]
    exact .block closed ih

theorem Ending.append {gap text : List Char} (remarks : Remarks gap) (end' : Ending allowed text) :
    Ending allowed (gap ++ text) := by
  cases end' with
  | remarks last =>
    cases last with
    | closed closed => exact .remarks (.closed (remarks.append closed))
    | line before oneLine =>
      rw [← List.append_assoc]
      exact .remarks (.line (remarks.append before) oneLine)
  | openComment known before endless =>
    rw [← List.append_assoc]
    exact .openComment known (remarks.append before) endless

theorem Arranged.append {gap text : List Char} (remarks : Remarks gap) {lexemes : List Lexeme}
    (arranged : Arranged allowed lexemes text) :
    Arranged allowed lexemes (gap ++ text) := by
  cases arranged with
  | nil end' => exact .nil (end'.append remarks)
  | cons before spelled rest =>
    rw [← List.append_assoc]
    exact .cons (remarks.append before) spelled rest

-- Texts without accidents

theorem Layout.arranged {lexemes : List Lexeme} {text : List Char}
    (layout : Layout Remarks LastRemarks lexemes text) : Arranged allowed lexemes text := by
  induction layout with
  | nil end' => exact .nil (.remarks end')
  | cons start _ ih => exact .cons start (.whole _) ih

theorem Arranged.layout {lexemes : List Lexeme} {text : List Char}
    (arranged : Arranged (fun _ => False) lexemes text) : Layout Remarks LastRemarks lexemes text := by
  induction arranged with
  | nil end' =>
    cases end' with
    | remarks remarks => exact .nil remarks
    | openComment known => exact known.elim
  | cons start spelled _ ih =>
    cases spelled with
    | whole => exact .cons start ih
    | torn known => exact known.elim

/-- The commented form of a value is a text without accidents. -/
theorem commented_iff_lenient {value : Spelled} {text : List Char} :
    Commented value text ↔ Lenient (fun _ => False) value text := by
  constructor
  · rintro ⟨lexemes,loose,layout⟩
    exact ⟨lexemes,.loose loose,layout.arranged⟩
  · rintro ⟨lexemes,written,arranged⟩
    cases written with
    | loose loose => exact ⟨lexemes,loose,arranged.layout⟩
    | bare known => exact known.elim

-- Reading texts with accidents

theorem Written.strict_eq {value : Spelled} {lexemes : List Lexeme}
    (written : Written allowed value lexemes) : strict lexemes = value.lexemes := by
  cases written with
  | loose loose =>
    have cleaned := loose.cleaned.strict []
    rwa [List.append_nil,strict,List.append_nil] at cleaned
  | bare _ _ same => exact same

theorem Blocks.dropped {text : List Char} (blocks : Blocks text) (rest : List Char) :
    replaceComments [] .plain (text ++ rest) = replaceComments [] .plain rest := by
  induction blocks with
  | nil => rfl
  | block closed _ ih =>
    rw [List.cons_append,List.cons_append,replaceComments,List.nil_append,List.append_assoc,
      List.cons_append,List.cons_append,replaceComments_block closed,ih]

/-- A character of a word or numeral. -/
structure InWord (c : Char) : Prop where
  bare : Bare c
  solid : Text.isBlank c = false
  noArray : c ≠ ']'
  noObject : c ≠ '}'

theorem Scalar.inWord {value : Scalar} (unquoted : ∀ pieces, value ≠ .string pieces) :
    ∀ c ∈ value.text, InWord c := by
  have letter : ∀ c ∈ ['n','u','l','t','r','e','f','a','s'],
      Bare c ∧ Text.isBlank c = false ∧ c ≠ ']' ∧ c ≠ '}' := by simp [Bare,Text.isBlank]
  have word {letters : List Char} (known : letters ⊆ ['n','u','l','t','r','e','f','a','s']) :
      ∀ c ∈ letters, InWord c := by
    intro c inside
    obtain ⟨bare,solid,noArray,noObject⟩ := letter c (known inside)
    exact ⟨bare,solid,noArray,noObject⟩
  cases value with
  | null => exact word (by decide)
  | bool value => cases value <;> exact word (by decide)
  | number numeral =>
    intro c inside
    have known := numeral.inNumeral inside
    have other (d : Char) (noDigit : d.isDigit = false) (absent : d ∉ ['-','+','.','e','E']) : c ≠ d :=
      known.ne noDigit absent
    exact ⟨⟨other _ rfl (by decide),other _ rfl (by decide),other _ rfl (by decide)⟩,known.solid,
      other _ rfl (by decide),other _ rfl (by decide)⟩
  | string pieces => exact absurd rfl (unquoted pieces)

theorem Torn.dropped {text torn : List Char} (pieces : Torn text torn) (word : ∀ c ∈ text, InWord c)
    (rest : List Char) :
    replaceComments [] .plain (torn ++ rest) = text ++ replaceComments [] .plain rest := by
  induction pieces with
  | last c =>
    obtain ⟨noQuote,noSlash,_⟩ := (word c (List.mem_singleton_self c)).bare
    exact replaceComments_copies noQuote noSlash rest
  | @cons c text between torn blocks _ ih =>
    obtain ⟨here,later⟩ := List.forall_mem_cons.mp word
    have first : replaceComments [] .plain (c :: (between ++ (torn ++ rest))) =
        c :: replaceComments [] .plain (between ++ (torn ++ rest)) :=
      replaceComments_copies here.bare.1 here.bare.2.1 _
    rw [List.cons_append,List.append_assoc,first,blocks.dropped,ih later,List.cons_append]

theorem SpelledAs.replaced (tears : allowed .tornScalar → filler = []) {lexeme : Lexeme}
    {spelling : List Char} (spelled : SpelledAs allowed lexeme spelling) (rest : List Char) :
    replaceComments filler .plain (spelling ++ rest) =
      lexeme.text ++ replaceComments filler .plain rest := by
  cases spelled with
  | whole => exact lexeme.replaceComments_copies rest
  | torn known unquoted torn =>
    cases tears known
    exact torn.dropped (Scalar.inWord unquoted) rest

theorem replaceComments_endless {comment : List Char} (endless : ¬['*','/'] <:+: comment) :
    replaceComments filler .blockComment comment = [] := by
  induction comment with
  | nil => rw [replaceComments]
  | cons c comment ih =>
    rw [replaceComments.eq_12,ih fun found => endless (List.infix_cons found)]
    rintro after rfl rfl
    exact endless ⟨[],after,rfl⟩

theorem Ending.replaced (blank : Blanks filler) {text : List Char} (end' : Ending allowed text) :
    Blanks (replaceComments filler .plain text) := by
  cases end' with
  | remarks remarks => exact remarks.replaced blank
  | openComment _ remarks endless =>
    obtain ⟨blanks,known,kept⟩ := remarks.replaced blank
    rw [kept,replaceComments,replaceComments_endless endless,List.append_nil]
    exact List.forall_mem_append.mpr ⟨known,blank⟩

theorem Arranged.replaced (blank : Blanks filler) (tears : allowed .tornScalar → filler = [])
    {lexemes : List Lexeme} {text : List Char} (arranged : Arranged allowed lexemes text) :
    Layout Blanks Blanks lexemes (replaceComments filler .plain text) := by
  induction arranged with
  | nil end' => exact .nil (end'.replaced blank)
  | cons start spelled _ ih =>
    obtain ⟨blanks,known,kept⟩ := start.replaced blank
    rw [kept,spelled.replaced tears]
    exact .cons known ih

/-- With blanks for its comments, and none within a torn word, a text has the lexemes of its value once
its spare commas are dropped. -/
theorem Lenient.layout (blank : Blanks filler) (tears : allowed .tornScalar → filler = [])
    {value : Spelled} {text : List Char} (lenient : Lenient allowed value text) :
    Layout Blanks Blanks value.lexemes
      (dropTrailingCommas false (replaceComments filler .plain text)) := by
  obtain ⟨lexemes,written,arranged⟩ := lenient
  exact written.strict_eq ▸ (arranged.replaced blank tears).dropTrailingCommas

end SourceAtlas.Json
