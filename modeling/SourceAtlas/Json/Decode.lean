import SourceAtlas.Json.Draft
import SourceAtlas.Json.Magnitude
import SourceAtlas.Table

/-! Reading JSON values as texts, lists, tables and records. The first fault in the order of the text
is the one reported. A record is an object with its fields in any order, or an array of them in
theirs; other members of the object are passed over. -/
namespace SourceAtlas.Json

abbrev Result := Except Fault

def checkEnding : Option Stop → Result Unit
  | none => .ok ()
  | some stop => .error stop.wanted

mutual

/-- Passes over a value. -/
def Draft.pass : Draft → Result Unit
  | .null | .bool _ | .number _ | .text _ => .ok ()
  | .array items ending => do
    passItems items
    passEnding ending
  | .object members ending => do
    passMembers members
    passEnding ending
  | .broken stop => .error stop.passed

def passItems : List Draft → Result Unit
  | [] => .ok ()
  | item :: items => do
    item.pass
    passItems items

def passMembers : List (Option String × Draft) → Result Unit
  | [] => .ok ()
  | (_, value) :: members => do
    value.pass
    passMembers members

def passEnding : Option Stop → Result Unit
  | none => .ok ()
  | some stop => .error stop.passed

end

namespace Draft

/-- The fault of a value of another kind than the wanted one. Its own faults come first. -/
def mismatch : Draft → Fault
  | number numeral => if (Magnitude.ofText numeral).isFinite then .unfit else .malformed
  | text none => .malformed
  | broken stop => stop.wanted
  | _ => .unfit

def asText : Draft → Result String
  | text (some content) => .ok content
  | other => .error other.mismatch

def asBool : Draft → Result Bool
  | bool value => .ok value
  | other => .error other.mismatch

/-- A natural number without fraction and exponent. -/
def asNatural : Draft → Result Nat
  | number digits =>
    if digits.all Char.isDigit then .ok (Text.Numeral.natOf digits) else .error .unfit
  | other => .error other.mismatch

def asOptional {α : Type} (read : Draft → Result α) : Draft → Result (Option α)
  | null => .ok none
  | other => (read other).map some

def asList {α : Type} (read : Draft → Result α) : Draft → Result (List α)
  | array items ending => do
    let values ← items.mapM read
    checkEnding ending
    return values
  | other => .error other.mismatch

/-- Reads members into a table. The last of several members with one key counts. -/
def fillTable {α : Type} (read : Draft → Result α) (table : Table α) :
    List Member → Result (Table α)
  | [] => .ok table
  | (none, _) :: _ => .error .malformed
  | (some key, value) :: members => do
    let value ← read value
    fillTable read (table.insert key value) members

def asTable {α : Type} (read : Draft → Result α) : Draft → Result (Table α)
  | object members ending => do
    let table ← fillTable read .empty members
    checkEnding ending
    return table
  | other => .error other.mismatch

end Draft

/-- A field of a record: how its value is read and put into the record. -/
structure Slot (ρ : Type) where
  name : String
  required : Bool
  fill : ρ → Draft → Result ρ

def Slot.of {ρ α : Type} (name : String) (required : Bool) (read : Draft → Result α)
    (put : ρ → α → ρ) : Slot ρ :=
  ⟨name, required, fun record value => (read value).map (put record)⟩

namespace Draft

/-- Reads members into a record. `seen` holds the names of the fields that are filled already. -/
def fillMembers {ρ : Type} (slots : List (Slot ρ)) (record : ρ) (seen : List String) :
    List Member → Result (ρ × List String)
  | [] => .ok (record, seen)
  | (none, _) :: _ => .error .malformed
  | (some key, value) :: members =>
    match slots.find? (·.name == key) with
    | none => do
      value.pass
      fillMembers slots record seen members
    | some slot =>
      if key ∈ seen then .error .unfit
      else do
        let record ← slot.fill record value
        fillMembers slots record (key :: seen) members

/-- Reads items into a record, one for each field. -/
def fillItems {ρ : Type} (record : ρ) (ending : Option Stop) :
    List (Slot ρ) → List Draft → Result ρ
  | [], [] => do
    checkEnding ending
    return record
  | [], _ :: _ => .error .malformed
  | slot :: slots, [] => do
    checkEnding ending
    if slot.required then throw .unfit
    fillItems record ending slots []
  | slot :: slots, item :: items => do
    let record ← slot.fill record item
    fillItems record ending slots items

/-- Reads a record, starting from the values of the fields that may be missing. -/
def asRecord {ρ : Type} (slots : List (Slot ρ)) (blank : ρ) : Draft → Result ρ
  | object members ending => do
    let (record, seen) ← fillMembers slots blank [] members
    checkEnding ending
    if slots.any fun slot => slot.required && !seen.contains slot.name then throw .unfit
    return record
  | array items ending => fillItems blank ending slots items
  | other => .error other.mismatch

end Draft

def Document.read {α : Type} (document : Document) (read : Draft → Result α) : Result α := do
  let value ← read document.value
  if document.trailing then throw .malformed
  return value

end SourceAtlas.Json
