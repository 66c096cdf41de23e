import Mathlib.Data.List.Chain
import SourceAtlas.Proofs.Lexeme

/-! JSON values with the spelling of their scalars, and the lexemes of such a value. -/
namespace SourceAtlas.Json

inductive Spelled
  | scalar (value : Scalar)
  | array (items : List Spelled)
  | object (members : List (SpelledString × Spelled))

def commaSeparated : List (List Lexeme) → List Lexeme
  | [] => []
  | [part] => part
  | part :: parts => part ++ .mark .comma :: commaSeparated parts

theorem commaSeparated_cons (part : List Lexeme) (parts : List (List Lexeme)) :
    commaSeparated (part :: parts) = part ++ parts.flatMap (.mark .comma :: ·) := by
  induction parts generalizing part with
  | nil => simp [commaSeparated]
  | cons next parts ih => rw [commaSeparated,ih,List.flatMap_cons,List.cons_append]; simp

def memberPart (key : SpelledString) (value : List Lexeme) : List Lexeme :=
  .scalar (.string key) :: .mark .colon :: value

namespace Spelled

mutual

def lexemes : Spelled → List Lexeme
  | .scalar value => [.scalar value]
  | .array items => .mark .openArray :: (commaSeparated (itemParts items) ++ [.mark .closeArray])
  | .object members =>
    .mark .openObject :: (commaSeparated (memberParts members) ++ [.mark .closeObject])

def itemParts : List Spelled → List (List Lexeme)
  | [] => []
  | item :: items => item.lexemes :: itemParts items

def memberParts : List (SpelledString × Spelled) → List (List Lexeme)
  | [] => []
  | (key,value) :: members => memberPart key value.lexemes :: memberParts members

end

def text (value : Spelled) : List Char := value.lexemes.flatMap Lexeme.text

/-- Induction on values, with what is known of all items or all member values at once. -/
theorem induction {motive : Spelled → Prop} (scalar : ∀ value, motive (.scalar value))
    (array : ∀ items, (∀ item ∈ items, motive item) → motive (.array items))
    (object : ∀ members, (∀ member ∈ members, motive member.2) → motive (.object members))
    (value : Spelled) : motive value := by
  refine @Spelled.rec motive (fun items => ∀ item ∈ items, motive item)
    (fun members => ∀ member ∈ members, motive member.2) (fun member => motive member.2)
    scalar array object ?_ ?_ ?_ ?_ ?_ value
  · exact fun _ absent => absurd absent List.not_mem_nil
  · exact fun _ _ here later => List.forall_mem_cons.mpr ⟨here,later⟩
  · exact fun _ absent => absurd absent List.not_mem_nil
  · exact fun _ _ here later => List.forall_mem_cons.mpr ⟨here,later⟩
  · exact fun _ _ here => here

theorem itemParts_eq_map (items : List Spelled) : itemParts items = items.map lexemes := by
  induction items with
  | nil => rfl
  | cons item items ih => rw [itemParts,ih,List.map_cons]

theorem memberParts_eq_map (members : List (SpelledString × Spelled)) :
    memberParts members = members.map fun member => memberPart member.1 member.2.lexemes := by
  induction members with
  | nil => rfl
  | cons member members ih => rw [memberParts,ih,List.map_cons]

end Spelled

-- No two scalars side by side

theorem apart_mark_left (sign : Mark) (lexeme : Lexeme) : Lexeme.Apart (.mark sign) lexeme := trivial

theorem apart_mark_right (lexeme : Lexeme) (sign : Mark) : Lexeme.Apart lexeme (.mark sign) := by
  cases lexeme <;> trivial

theorem isChain_mark {first rest : List Lexeme} {sign : Mark} (left : first.IsChain Lexeme.Apart)
    (right : rest.IsChain Lexeme.Apart) : (first ++ .mark sign :: rest).IsChain Lexeme.Apart := by
  refine List.isChain_append.mpr ⟨left,List.isChain_cons.mpr ⟨fun next _ => apart_mark_left sign next,right⟩,?_⟩
  rintro lexeme _ next same
  cases Option.some.inj same
  exact apart_mark_right lexeme sign

theorem isChain_commaSeparated {parts : List (List Lexeme)}
    (each : ∀ part ∈ parts, part.IsChain Lexeme.Apart) :
    (commaSeparated parts).IsChain Lexeme.Apart := by
  induction parts with
  | nil => exact .nil
  | cons part parts ih =>
    obtain ⟨here,later⟩ := List.forall_mem_cons.mp each
    cases parts with
    | nil => exact here
    | cons next parts => exact isChain_mark here (ih later)

theorem isChain_bracketed {inner : List Lexeme} (opening closing : Mark)
    (chain : inner.IsChain Lexeme.Apart) :
    (.mark opening :: (inner ++ [.mark closing])).IsChain Lexeme.Apart :=
  isChain_mark .nil (isChain_mark chain .nil)

theorem Spelled.isChain_lexemes (value : Spelled) : value.lexemes.IsChain Lexeme.Apart := by
  induction value using Spelled.induction with
  | scalar value => exact .singleton _
  | array items ih =>
    apply isChain_bracketed
    apply isChain_commaSeparated
    rw [Spelled.itemParts_eq_map]
    exact List.forall_mem_map.mpr ih
  | object members ih =>
    apply isChain_bracketed
    apply isChain_commaSeparated
    rw [Spelled.memberParts_eq_map]
    refine List.forall_mem_map.mpr fun member inside => ?_
    exact isChain_mark (.singleton (.scalar (.string member.1))) (ih member inside)

-- Texts of values

theorem Layout.blanks_append {lexemes : List Lexeme} {before text : List Char} (blank : Blanks before)
    (layout : Layout Blanks Blanks lexemes text) : Layout Blanks Blanks lexemes (before ++ text) := by
  cases layout with
  | nil end' => exact .nil (List.forall_mem_append.mpr ⟨blank,end'⟩)
  | cons start rest =>
    rw [← List.append_assoc]
    exact .cons (List.forall_mem_append.mpr ⟨blank,start⟩) rest

theorem layout_flatMap (lexemes : List Lexeme) :
    Layout Blanks Blanks lexemes (lexemes.flatMap Lexeme.text) := by
  induction lexemes with
  | nil => exact .nil .nil
  | cons lexeme lexemes ih =>
    rw [List.flatMap_cons]
    exact .cons .nil ih

end SourceAtlas.Json
