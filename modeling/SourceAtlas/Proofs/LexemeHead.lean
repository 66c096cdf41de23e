import SourceAtlas.Proofs.LenientJson

/-! What a pass over a text leaves, looked at from its first character: the first lexeme, and strings that
the pass has copied. -/
namespace SourceAtlas.Json

variable {c : Char} {text : List Char} {lexemes : List Lexeme}

-- Layouts from their first character

/-- How a lexeme goes on after its first character. -/
inductive Head : Char → List Char → Lexeme → Prop
  | string (pieces : SpelledString) : Head '"' (pieces.body ++ ['"']) (.scalar (.string pieces))
  | mark (sign : Mark) : Head sign.char [] (.mark sign)
  | word {value : Scalar} {c : Char} {later : List Char} (unquoted : ∀ pieces, value ≠ .string pieces)
    (spelled : value.text = c :: later) : Head c later (.scalar value)

theorem Lexeme.exists_head (lexeme : Lexeme) :
    ∃ c later, lexeme.text = c :: later ∧ isSpace c = false ∧ Head c later lexeme := by
  have ends : Ends [] := fun c absent => absurd absent (by simp)
  have reads : Reads (lexeme.text ++ []) lexeme.token [] := lexeme.reads fun _ _ => ends
  obtain ⟨c,later,spelled,solid,_⟩ := reads
  rw [List.append_nil] at spelled
  refine ⟨c,later,spelled,solid,?_⟩
  cases lexeme with
  | mark sign =>
    cases spelled
    exact .mark sign
  | scalar value =>
    by_cases quoted : ∃ pieces, value = .string pieces
    · obtain ⟨pieces,rfl⟩ := quoted
      cases spelled
      exact .string pieces
    · exact .word (not_exists.mp quoted) spelled

theorem Head.inWord {value : Scalar} {later : List Char} (unquoted : ∀ pieces, value ≠ .string pieces)
    (spelled : value.text = c :: later) : InWord c ∧ ∀ d ∈ later, InWord d :=
  List.forall_mem_cons.mp (spelled ▸ Scalar.inWord unquoted)

theorem Head.comma {later : List Char} {lexeme : Lexeme} (head : Head ',' later lexeme) :
    lexeme = .mark .comma ∧ later = [] := by
  generalize same : ',' = c at head
  cases head with
  | string pieces => exact absurd same (by decide)
  | mark sign =>
    cases sign with
    | comma => exact ⟨rfl,rfl⟩
    | _ => exact absurd same (by decide)
  | word unquoted spelled => exact absurd same.symm (Head.inWord unquoted spelled).1.bare.2.2

theorem Layout.eq_nil (layout : Layout Blanks Blanks lexemes []) : lexemes = [] := by
  generalize whole : [] = text at layout
  cases layout with
  | nil => rfl
  | @cons _ _ lexeme =>
    obtain ⟨c,later,spelled,_⟩ := lexeme.exists_head
    simp [spelled] at whole

theorem Layout.of_space (space : isSpace c = true) (layout : Layout Blanks Blanks lexemes (c :: text)) :
    Layout Blanks Blanks lexemes text := by
  generalize whole : c :: text = spaced at layout
  cases layout with
  | nil blank =>
    cases whole
    exact .nil (List.forall_mem_cons.mp blank).2
  | @cons before _ lexeme _ start rest =>
    cases before with
    | nil =>
      obtain ⟨d,later,spelled,solid,_⟩ := lexeme.exists_head
      rw [List.nil_append,spelled] at whole
      cases whole
      exact absurd (solid.symm.trans space) Bool.false_ne_true
    | cons d before =>
      cases whole
      exact .cons (List.forall_mem_cons.mp start).2 rest

theorem Layout.of_blanks {blanks : List Char} (blank : Blanks blanks)
    (layout : Layout Blanks Blanks lexemes (blanks ++ text)) : Layout Blanks Blanks lexemes text := by
  induction blanks with
  | nil => exact layout
  | cons c blanks ih =>
    obtain ⟨here,later⟩ := List.forall_mem_cons.mp blank
    exact ih later (layout.of_space here)

theorem Layout.exists_first (solid : isSpace c = false)
    (layout : Layout Blanks Blanks lexemes (c :: text)) : ∃ lexeme later rest lexemes',
      lexemes = lexeme :: lexemes' ∧ lexeme.text = c :: later ∧ Head c later lexeme ∧
        text = later ++ rest ∧ Layout Blanks Blanks lexemes' rest := by
  generalize whole : c :: text = parted at layout
  cases layout with
  | nil blank =>
    cases whole
    exact absurd (solid.symm.trans (List.forall_mem_cons.mp blank).1) Bool.false_ne_true
  | @cons before after lexeme lexemes' start rest =>
    cases before with
    | nil =>
      obtain ⟨d,later,spelled,_,head⟩ := lexeme.exists_head
      rw [List.nil_append,spelled] at whole
      cases whole
      exact ⟨lexeme,later,after,lexemes',rfl,spelled,head,rfl,rest⟩
    | cons d before =>
      cases whole
      exact absurd (solid.symm.trans (List.forall_mem_cons.mp start).1) Bool.false_ne_true

-- Strings

/-- A pass that follows strings also keeps the end of a string that has no end. -/
structure KeepsStrings (outside inside : List Char → List Char) : Prop
    extends FollowsStrings outside inside where
  nothing : inside [] = []
  escape : inside ['\\'] = ['\\']

namespace KeepsStrings

variable {outside inside : List Char → List Char} (keeps : KeepsStrings outside inside) {out : List Char}
include keeps

/-- The five ways in which a text inside of a string may go on. -/
theorem inside_cases (text : List Char) :
    text = [] ∧ inside text = [] ∨ text = ['\\'] ∧ inside text = ['\\'] ∨
    (∃ rest, text = '"' :: rest ∧ inside text = '"' :: outside rest) ∨
    (∃ c rest, text = '\\' :: c :: rest ∧ inside text = '\\' :: c :: inside rest) ∨
    ∃ c rest, c ≠ '"' ∧ c ≠ '\\' ∧ text = c :: rest ∧ inside text = c :: inside rest := by
  cases text with
  | nil => exact .inl ⟨rfl,keeps.nothing⟩
  | cons c rest =>
    by_cases quote : c = '"'
    · subst quote
      exact .inr (.inr (.inl ⟨rest,rfl,keeps.closes rest⟩))
    · by_cases escape : c = '\\'
      · subst escape
        cases rest with
        | nil => exact .inr (.inl ⟨rfl,keeps.escape⟩)
        | cons d rest => exact .inr (.inr (.inr (.inl ⟨d,rest,rfl,keeps.escaped d rest⟩)))
      · exact .inr (.inr (.inr (.inr ⟨c,rest,quote,escape,rfl,keeps.within c quote escape rest⟩)))

theorem exists_close (same : inside text = '"' :: out) :
    ∃ rest, text = '"' :: rest ∧ outside rest = out := by
  rcases keeps.inside_cases text with ⟨_,known⟩ | ⟨_,known⟩ | ⟨rest,rfl,known⟩ | ⟨d,rest,_,known⟩ |
    ⟨d,rest,noQuote,_,_,known⟩ <;> cases known.symm.trans same
  · exact ⟨rest,rfl,rfl⟩
  · exact absurd rfl noQuote

theorem exists_plain (noQuote : c ≠ '"') (noEscape : c ≠ '\\') (same : inside text = c :: out) :
    ∃ rest, text = c :: rest ∧ inside rest = out := by
  rcases keeps.inside_cases text with ⟨_,known⟩ | ⟨_,known⟩ | ⟨rest,_,known⟩ | ⟨d,rest,_,known⟩ |
    ⟨d,rest,_,_,rfl,known⟩ <;> cases known.symm.trans same
  · exact absurd rfl noEscape
  · exact absurd rfl noQuote
  · exact absurd rfl noEscape
  · exact ⟨rest,rfl,rfl⟩

theorem exists_escape (same : inside text = '\\' :: c :: out) :
    ∃ rest, text = '\\' :: c :: rest ∧ inside rest = out := by
  rcases keeps.inside_cases text with ⟨_,known⟩ | ⟨_,known⟩ | ⟨rest,_,known⟩ | ⟨d,rest,rfl,known⟩ |
    ⟨d,rest,_,noEscape,_,known⟩
  · cases known.symm.trans same
  · cases known.symm.trans same
  · cases known.symm.trans same
  · cases known.symm.trans same
    exact ⟨rest,rfl,rfl⟩
  · exact absurd (List.cons.inj (known.symm.trans same)).1 noEscape

theorem exists_body {body : List Char} (known : Body body) (same : inside text = body ++ '"' :: out) :
    ∃ rest, text = body ++ '"' :: rest ∧ outside rest = out := by
  induction known generalizing text with
  | nil => exact keeps.exists_close same
  | plain noQuote noEscape _ ih =>
    obtain ⟨rest,rfl,later⟩ := keeps.exists_plain noQuote noEscape same
    obtain ⟨rest,rfl,known⟩ := ih later
    exact ⟨rest,rfl,known⟩
  | escaped c _ ih =>
    obtain ⟨rest,rfl,later⟩ := keeps.exists_escape same
    obtain ⟨rest,rfl,known⟩ := ih later
    exact ⟨rest,rfl,known⟩

end KeepsStrings

theorem keepsStrings_dropTrailingCommas :
    KeepsStrings (dropTrailingCommas false) (dropTrailingCommas true) :=
  { followsStrings_dropTrailingCommas with
    nothing := by rw [dropTrailingCommas]
    escape := rfl }

theorem keepsStrings_replaceComments (filler : List Char) :
    KeepsStrings (replaceComments filler .plain) (replaceComments filler .text) :=
  { followsStrings_replaceComments with
    nothing := by rw [replaceComments]
    escape := rfl }

end SourceAtlas.Json
