import SourceAtlas.Proofs.LexemeHead

/-! Commas before closing brackets, found again from what is left without them. They stand at the end of a
container, or directly after its opening bracket. -/
namespace SourceAtlas.Json

variable {c : Char} {text : List Char} {lexemes : List Lexeme}

-- Dropped commas

theorem exists_closing (closes : closesNext text = true) : ∃ c rest,
    dropTrailingCommas false text = c :: rest ∧ (Text.isBlank c = true ∨ c = ']' ∨ c = '}') := by
  cases text with
  | nil => cases closes
  | cons c rest =>
    have known : Text.isBlank c = true ∨ c = ']' ∨ c = '}' := by
      by_cases blank : Text.isBlank c = true
      · exact .inl blank
      · rw [closesNext_solid (Bool.eq_false_iff.mpr blank),Bool.or_eq_true,beq_iff_eq,beq_iff_eq] at closes
        exact .inr closes
    have noQuote : c ≠ '"' := by rintro rfl; exact absurd known (by decide)
    have noComma : c ≠ ',' := by rintro rfl; exact absurd known (by decide)
    exact ⟨c,_,dropTrailingCommas_copies noQuote noComma rest,known⟩

theorem exists_of_dropTrailingCommas (word : InWord c) {out : List Char}
    (same : dropTrailingCommas false text = c :: out) :
    ∃ rest, text = c :: rest ∧ dropTrailingCommas false rest = out := by
  cases text with
  | nil =>
    rw [dropTrailingCommas] at same
    cases same
  | cons d rest =>
    by_cases quote : d = '"'
    · subst quote
      rw [dropTrailingCommas] at same
      cases same
      exact absurd rfl word.bare.1
    · by_cases comma : d = ','
      · subst comma
        rw [dropTrailingCommas] at same
        split at same
        · next closes =>
          obtain ⟨e,later,known,closing⟩ := exists_closing closes
          cases known.symm.trans same
          rcases closing with blank | rfl | rfl
          · exact absurd (word.solid.symm.trans blank) Bool.false_ne_true
          · exact absurd rfl word.noArray
          · exact absurd rfl word.noObject
        · cases same
          exact absurd rfl word.bare.2.2
      · cases (dropTrailingCommas_copies quote comma rest).symm.trans same
        exact ⟨rest,rfl,rfl⟩

theorem exists_word_of_dropTrailingCommas {letters out : List Char} (word : ∀ c ∈ letters, InWord c)
    (same : dropTrailingCommas false text = letters ++ out) :
    ∃ rest, text = letters ++ rest ∧ dropTrailingCommas false rest = out := by
  induction letters generalizing text with
  | nil => exact ⟨text,rfl,same⟩
  | cons c letters ih =>
    obtain ⟨here,later⟩ := List.forall_mem_cons.mp word
    obtain ⟨rest,rfl,left⟩ := exists_of_dropTrailingCommas here same
    obtain ⟨rest,rfl,known⟩ := ih later left
    exact ⟨rest,rfl,known⟩

theorem dropTrailingCommas_cons (noComma : c ≠ ',') (text : List Char) :
    ∃ rest, dropTrailingCommas false (c :: text) = c :: rest := by
  by_cases quote : c = '"'
  · subst quote
    exact ⟨_,by rw [dropTrailingCommas]⟩
  · exact ⟨_,dropTrailingCommas_copies quote noComma text⟩

theorem exists_lexeme_of_dropTrailingCommas {lexeme : Lexeme} {later out : List Char} (noComma : c ≠ ',')
    (head : Head c later lexeme) (same : dropTrailingCommas false (c :: text) = c :: (later ++ out)) :
    ∃ rest, text = later ++ rest ∧ dropTrailingCommas false rest = out := by
  cases head with
  | string pieces =>
    rw [dropTrailingCommas,List.append_assoc] at same
    obtain ⟨rest,rfl,known⟩ := keepsStrings_dropTrailingCommas.exists_body pieces.inside (List.cons.inj same).2
    exact ⟨rest,by simp,known⟩
  | mark sign =>
    have noQuote : sign.char ≠ '"' := by cases sign <;> decide
    exact ⟨text,rfl,(List.cons.inj ((dropTrailingCommas_copies noQuote noComma text).symm.trans same)).2⟩
  | word unquoted spelled =>
    obtain ⟨here,others⟩ := Head.inWord unquoted spelled
    have copied := (dropTrailingCommas_copies here.bare.1 noComma text).symm.trans same
    exact exists_word_of_dropTrailingCommas others (List.cons.inj copied).2

/-- A text of lexemes without commas before closing marks stood for one with them. -/
theorem exists_loose (layout : Layout Blanks Blanks lexemes (dropTrailingCommas false text)) :
    ∃ loose, strict loose = lexemes ∧ Layout Blanks Blanks loose text := by
  induction length : text.length using Nat.strongRecOn generalizing text lexemes with
  | ind size ih =>
    cases text with
    | nil =>
      rw [dropTrailingCommas] at layout
      exact ⟨[],layout.eq_nil.symm,.nil .nil⟩
    | cons c text =>
      have shorter : text.length < size := length ▸ Nat.lt_succ_self _
      by_cases comma : c = ','
      · subst comma
        rw [dropTrailingCommas] at layout
        split at layout
        · next closes =>
          obtain ⟨loose,known,plain⟩ := ih _ shorter layout rfl
          refine ⟨.mark .comma :: loose,?_,.cons .nil plain⟩
          rw [strict,if_pos (plain.closesNext_eq.symm.trans closes),known]
        · next goesOn =>
          obtain ⟨lexeme,later,rest,others,rfl,_,head,same,left⟩ := layout.exists_first rfl
          obtain ⟨rfl,rfl⟩ := head.comma
          cases same
          obtain ⟨loose,rfl,plain⟩ := ih _ shorter left rfl
          refine ⟨.mark .comma :: loose,strict_comma ?_,.cons .nil plain⟩
          rw [← plain.closesNext_eq]
          exact Bool.eq_false_iff.mpr goesOn
      · obtain ⟨out,known⟩ := dropTrailingCommas_cons comma text
        rw [known] at layout
        by_cases space : isSpace c = true
        · have copied := dropTrailingCommas_blanks (List.forall_mem_singleton.mpr space) text
          cases copied.symm.trans known
          obtain ⟨loose,rfl,plain⟩ := ih _ shorter (layout.of_space space) rfl
          exact ⟨loose,rfl,plain.blanks_append (List.forall_mem_singleton.mpr space)⟩
        · obtain ⟨lexeme,later,left,others,rfl,spelled,head,rfl,rest⟩ :=
            layout.exists_first (Bool.eq_false_iff.mpr space)
          obtain ⟨after,rfl,rfl⟩ := exists_lexeme_of_dropTrailingCommas comma head known
          have shorter : after.length < size :=
            Nat.lt_of_le_of_lt (List.length_append ▸ Nat.le_add_left _ _) shorter
          obtain ⟨loose,rfl,plain⟩ := ih _ shorter rest rfl
          have noComma : lexeme ≠ .mark .comma := by
            rintro rfl
            exact comma (List.cons.inj spelled).1.symm
          refine ⟨lexeme :: loose,strict_of_ne noComma loose,?_⟩
          rw [← List.cons_append,← spelled]
          exact .cons .nil plain

-- Loose forms

variable {allowed : Accident → Prop}

theorem BareComma.mono {part whole : List Lexeme} (bare : BareComma part) (inside : part <:+: whole) :
    BareComma whole := by
  obtain ⟨opening,opens,found⟩ := bare
  exact ⟨opening,opens,found.trans inside⟩

/-- Lexemes start with one that is kept, or with a spare comma and the closing mark after it. -/
theorem strict_cases (lexemes : List Lexeme) : lexemes = [] ∨
    (∃ sign rest, sign.closes = true ∧ lexemes = .mark .comma :: .mark sign :: rest ∧
      strict lexemes = .mark sign :: strict rest) ∨
    ∃ first rest, lexemes = first :: rest ∧ strict lexemes = first :: strict rest := by
  cases lexemes with
  | nil => exact .inl rfl
  | cons first rest =>
    by_cases comma : first = .mark .comma
    · subst comma
      cases closed : closedNext rest with
      | false => exact .inr (.inr ⟨_,rest,rfl,strict_comma closed⟩)
      | true =>
        cases rest with
        | nil => cases closed
        | cons next rest =>
          cases next with
          | scalar value => cases closed
          | mark sign =>
            have noComma : Lexeme.mark sign ≠ .mark .comma := by
              rintro same
              cases same
              cases closed
            refine .inr (.inl ⟨sign,rest,closed,rfl,?_⟩)
            rw [strict,if_pos closed,strict_of_ne noComma]
    · exact .inr (.inr ⟨first,rest,rfl,strict_of_ne comma rest⟩)

theorem eq_nil_of_strict (nothing : strict lexemes = []) : lexemes = [] := by
  rcases strict_cases lexemes with rfl | ⟨sign,rest,_,_,known⟩ | ⟨first,rest,_,known⟩
  · rfl
  · cases known.symm.trans nothing
  · cases known.symm.trans nothing

theorem exists_of_strict {lexeme : Lexeme} (noClose : ∀ rest, closedNext (lexeme :: rest) = false)
    {after : List Lexeme} (same : strict lexemes = lexeme :: after) :
    ∃ rest, lexemes = lexeme :: rest ∧ strict rest = after := by
  rcases strict_cases lexemes with rfl | ⟨sign,rest,closes,_,known⟩ | ⟨first,rest,rfl,known⟩
  · cases same
  · cases known.symm.trans same
    exact absurd ((noClose rest).symm.trans closes) Bool.false_ne_true
  · cases known.symm.trans same
    exact ⟨rest,rfl,rfl⟩

theorem exists_closing_of_strict {closing : Mark} {after : List Lexeme}
    (same : strict lexemes = .mark closing :: after) : ∃ ending rest, lexemes = ending ++ rest ∧
      strict rest = after ∧ (ending = [.mark closing] ∨ ending = [.mark .comma,.mark closing]) := by
  rcases strict_cases lexemes with rfl | ⟨sign,rest,_,rfl,known⟩ | ⟨first,rest,rfl,known⟩
  · cases same
  · cases known.symm.trans same
    exact ⟨_,rest,rfl,rfl,.inr rfl⟩
  · cases known.symm.trans same
    exact ⟨_,rest,rfl,rfl,.inl rfl⟩

/-- Lexemes that are others but for spare commas, and start with some of those others, start with a form
of these. -/
def Peels (plain : List Lexeme) (relates : List Lexeme → Prop) : Prop :=
  ∀ lexemes after, ¬BareComma lexemes → strict lexemes = plain ++ after →
    ∃ own rest, lexemes = own ++ rest ∧ strict rest = after ∧ relates own

section Containers

variable {α : Type} {plain : α → List Lexeme} {relates : α → List Lexeme → Prop} {items : List α}
  {opening closing : Mark}

theorem peels_rest (each : ∀ item ∈ items, Peels (plain item) (relates item))
    {after : List Lexeme} (noBare : ¬BareComma lexemes)
    (same : strict lexemes = (items.flatMap fun item => .mark .comma :: plain item) ++
      .mark closing :: after) :
    ∃ parts ending rest, lexemes = parts.flatMap (.mark .comma :: ·) ++ (ending ++ rest) ∧
      List.Forall₂ relates items parts ∧ strict rest = after ∧
        (ending = [.mark closing] ∨ ending = [.mark .comma,.mark closing]) := by
  induction items generalizing lexemes with
  | nil =>
    obtain ⟨ending,rest,rfl,known,closed⟩ := exists_closing_of_strict same
    exact ⟨[],ending,rest,rfl,.nil,known,closed⟩
  | cons item items ih =>
    obtain ⟨here,others⟩ := List.forall_mem_cons.mp each
    rw [List.flatMap_cons,List.append_assoc,List.cons_append] at same
    obtain ⟨front,rfl,left⟩ := exists_of_strict (fun _ => rfl) same
    have noBareFront : ¬BareComma front := fun bare => noBare (bare.mono (List.suffix_cons _ _).isInfix)
    obtain ⟨own,back,rfl,later,related⟩ := here _ _ noBareFront left
    have noBareBack : ¬BareComma back := fun bare =>
      noBareFront (bare.mono (List.suffix_append _ _).isInfix)
    obtain ⟨parts,ending,rest,rfl,all,known,closed⟩ := ih others noBareBack later
    exact ⟨own :: parts,ending,rest,by simp,.cons related all,known,closed⟩

theorem peels_container (opens : opening = .openArray ∨ opening = .openObject)
    (each : ∀ item ∈ items, Peels (plain item) (relates item)) :
    Peels (.mark opening :: (commaSeparated (items.map plain) ++ [.mark closing])) fun own =>
      ∃ parts ending, own = .mark opening :: (commaSeparated parts ++ ending) ∧
        List.Forall₂ relates items parts ∧ Closing closing parts ending := by
  intro lexemes after noBare same
  have noClose : ∀ rest, closedNext (.mark opening :: rest) = false := by
    rcases opens with rfl | rfl <;> exact fun _ => rfl
  rw [List.cons_append,List.append_assoc] at same
  obtain ⟨front,rfl,left⟩ := exists_of_strict noClose same
  have noBareFront : ¬BareComma front := fun bare => noBare (bare.mono (List.suffix_cons _ _).isInfix)
  cases items with
  | nil =>
    obtain ⟨ending,rest,rfl,known,rfl | rfl⟩ := exists_closing_of_strict left
    · exact ⟨_,rest,rfl,known,[],_,rfl,.nil,.plain⟩
    · exact absurd ⟨opening,opens,[],_,rfl⟩ noBare
  | cons item items =>
    obtain ⟨here,others⟩ := List.forall_mem_cons.mp each
    rw [List.map_cons,commaSeparated_cons,List.flatMap_map,List.append_assoc] at left
    obtain ⟨own,back,rfl,later,related⟩ := here _ _ noBareFront left
    have noBareBack : ¬BareComma back := fun bare =>
      noBareFront (bare.mono (List.suffix_append _ _).isInfix)
    obtain ⟨parts,ending,rest,rfl,all,known,closed⟩ := peels_rest others noBareBack later
    have closing' : Closing closing (own :: parts) ending := by
      rcases closed with rfl | rfl
      · exact .plain
      · exact .comma (by simp)
    refine ⟨_,rest,?_,known,own :: parts,ending,rfl,.cons related all,closing'⟩
    rw [commaSeparated_cons]
    simp

end Containers

theorem peels_member (key : SpelledString) {plain : List Lexeme} {relates : List Lexeme → Prop}
    (value : Peels plain relates) : Peels (memberPart key plain) fun own =>
      ∃ loose, own = memberPart key loose ∧ relates loose := by
  intro lexemes after noBare same
  obtain ⟨front,rfl,left⟩ := exists_of_strict (fun _ => rfl) same
  obtain ⟨back,rfl,later⟩ := exists_of_strict (fun _ => rfl) left
  have inside : back <:+: memberPart key [] ++ back := (List.suffix_append _ back).isInfix
  obtain ⟨own,rest,rfl,known,related⟩ := value _ _ (fun bare => noBare (bare.mono inside)) later
  exact ⟨memberPart key own,rest,rfl,known,own,rfl,related⟩

theorem exists_values {members : List (SpelledString × Spelled)} {parts : List (List Lexeme)}
    (all : List.Forall₂ (fun member own => ∃ loose, own = memberPart member.1 loose ∧ Loose member.2 loose)
      members parts) :
    ∃ values, List.Forall₂ (fun member value => Loose member.2 value) members values ∧
      parts = members.zipWith (fun member value => memberPart member.1 value) values := by
  induction all with
  | nil => exact ⟨[],.nil,rfl⟩
  | cons here _ ih =>
    obtain ⟨loose,rfl,related⟩ := here
    obtain ⟨values,each,rfl⟩ := ih
    exact ⟨loose :: values,.cons related each,rfl⟩

theorem Spelled.peels (value : Spelled) : Peels value.lexemes (Loose value) := by
  induction value using Spelled.induction with
  | scalar value =>
    intro lexemes after _ same
    obtain ⟨rest,rfl,known⟩ := exists_of_strict (fun _ => rfl) same
    exact ⟨[.scalar value],rest,rfl,known,.scalar value⟩
  | array items ih =>
    intro lexemes after noBare same
    rw [Spelled.lexemes,Spelled.itemParts_eq_map] at same
    obtain ⟨_,rest,rfl,known,parts,ending,rfl,all,closed⟩ :=
      peels_container (.inl rfl) ih _ _ noBare same
    exact ⟨_,rest,rfl,known,.array all closed⟩
  | object members ih =>
    intro lexemes after noBare same
    rw [Spelled.lexemes,Spelled.memberParts_eq_map] at same
    obtain ⟨_,rest,rfl,known,parts,ending,rfl,all,closed⟩ := peels_container (.inr rfl)
      (fun member inside => peels_member member.1 (ih member inside)) _ _ noBare same
    obtain ⟨values,each,spelled⟩ := exists_values all
    exact ⟨_,rest,rfl,known,.object each spelled closed⟩

/-- Lexemes that are those of a value but for spare commas are a loose form of it, or have a comma directly
after an opening bracket. -/
theorem written_of_strict {value : Spelled} (bares : allowed .bareComma)
    (same : strict lexemes = value.lexemes) : Written allowed value lexemes := by
  by_cases bare : BareComma lexemes
  · exact .bare bares bare same
  · obtain ⟨own,rest,rfl,nothing,loose⟩ :=
      value.peels lexemes [] bare (same.trans (List.append_nil _).symm)
    rw [eq_nil_of_strict nothing,List.append_nil]
    exact .loose loose

end SourceAtlas.Json
