import SourceAtlas.Path
import SourceAtlas.Text.Utf8

/-! A disk as a value: folders, files and symbolic links, with the working directory. Locations are lists
of names from the root down; path texts are resolved to locations by following links. -/
namespace SourceAtlas.Disk

inductive Fault
  | notFound
  | alreadyExists
  | notDirectory
  | isDirectory
  | tooManyLinks
  | nameTooLong
  | nulInName
  | notText
  deriving DecidableEq, Repr

def Fault.message : Fault → String
  | notFound => "No such file or directory (os error 2)"
  | alreadyExists => "File exists (os error 17)"
  | notDirectory => "Not a directory (os error 20)"
  | isDirectory => "Is a directory (os error 21)"
  | tooManyLinks => "Too many levels of symbolic links (os error 40)"
  | nameTooLong => "File name too long (os error 36)"
  | nulInName => "file name contained an unexpected NUL byte"
  | notText => "stream did not contain valid UTF-8"

inductive Entry
  | file (name : String) (bytes : List UInt8)
  | link (name : String) (target : String)
  | folder (name : String) (entries : List Entry)
  deriving Repr, Inhabited

namespace Entry

def name : Entry → String
  | file name _ => name
  | link name _ => name
  | folder name _ => name

def isFile : Entry → Bool
  | file .. => true
  | _ => false

def isFolder : Entry → Bool
  | folder .. => true
  | _ => false

def entries : Entry → List Entry
  | folder _ entries => entries
  | _ => []

theorem sizeOf_entry_lt {entry inner : Entry} (inside : inner ∈ entry.entries) :
    sizeOf inner < sizeOf entry := by
  cases entry with
  | folder name entries =>
    have := List.sizeOf_lt_of_mem (show inner ∈ entries from inside)
    simp
    omega
  | file name bytes => simp [entries] at inside
  | link name target => simp [entries] at inside

def find? (entry : Entry) (name : String) : Option Entry :=
  entry.entries.find? (·.name == name)

/-- Puts an entry into a list of entries, in place of one with the same name. -/
def putInto (entry : Entry) : List Entry → List Entry
  | [] => [entry]
  | other :: others =>
    if other.name == entry.name then entry :: others else other :: entry.putInto others

/-- Puts an entry into the folder at a location; elsewhere there is no change. -/
def putAt (new : Entry) : List String → Entry → Entry
  | [], folder name entries => folder name (new.putInto entries)
  | step :: steps, folder name entries =>
    folder name (entries.map fun inner => if inner.name == step then new.putAt steps inner else inner)
  | _, other => other

end Entry

end SourceAtlas.Disk

namespace SourceAtlas

open Disk

/-- `root` is the folder at the top; `workingDirectory` is a location in it. -/
structure Disk where
  root : Entry
  workingDirectory : List String
  deriving Repr, Inhabited

namespace Disk

def pathOf (location : List String) : Path :=
  ⟨"/" ++ "/".intercalate location⟩

/-- A location with what is there. The entry is not a link unless links were not to be followed. -/
structure Found where
  location : List String
  entry : Entry
  deriving Repr

/-- The entries on the way from the root down to a place, innermost first, without the root itself. -/
abbrev Trail := List Entry

def Trail.location (trail : Trail) : List String := (trail.map Entry.name).reverse

def Trail.entry (root : Entry) (trail : Trail) : Entry := trail.head?.getD root

def trailTo? (root : Entry) (location : List String) : Option Trail :=
  location.foldlM (fun trail name => (Entry.find? (Trail.entry root trail) name).map (· :: trail)) []

def linkLimit : Nat := 40

/-- The length in bytes that no path text reaches. -/
def textLimit : Nat := 4096

def nameLimit : Nat := 255

def isLongName (name : String) : Bool := nameLimit < name.utf8ByteSize

def partsOf (text : String) : List String := (Text.splitAt '/' text.toList).map String.ofList

/-- The folder from which a path text is followed that is met on a trail. -/
def startFrom (trail : Trail) (text : String) : Trail :=
  if text.toList.head? = some '/' then [] else trail

/-- Follows the parts of a path from the folder at the end of a trail. Links are followed, except one at
the very end if `follow` is false. `limit` is the number of links that may still be followed. -/
def walkParts (root : Entry) (follow : Bool) (limit : Nat) (trail : Trail) (parts : List String) :
    Except Fault Trail :=
  match parts with
  | [] => .ok trail
  | part :: rest =>
    if part = "" ∨ part = "." then walkParts root follow limit trail rest
    else if part = ".." then walkParts root follow limit trail.tail rest
    else if isLongName part then .error .nameTooLong
    else
      match Entry.find? (trail.entry root) part with
      | none => .error .notFound
      | some (.folder name entries) =>
        walkParts root follow limit (.folder name entries :: trail) rest
      | some (.file name bytes) =>
        if rest = [] then .ok (.file name bytes :: trail) else .error .notDirectory
      | some (.link name target) =>
        if rest = [] ∧ !follow then .ok (.link name target :: trail)
        else
          match limit with
          | 0 => .error .tooManyLinks
          | limit + 1 =>
            walkParts root follow limit (startFrom trail target) (partsOf target ++ rest)
termination_by (limit, parts.length)

/-- A path text with a NUL cannot be looked up, and an empty one leads nowhere. -/
def checkText (path : Path) : Except Fault Unit :=
  if path.text = "" then .error .notFound
  else if path.text.toList.contains '\x00' then .error .nulInName
  else .ok ()

def checkLength (path : Path) : Except Fault Unit :=
  if textLimit ≤ path.text.utf8ByteSize then .error .nameTooLong else .ok ()

def startOf (disk : Disk) (path : Path) : Except Fault Trail :=
  if path.isAbsolute then .ok []
  else (trailTo? disk.root disk.workingDirectory).elim (.error .notFound) .ok

/-- Follows a path text. A link at its very end is followed if `last` is true. -/
def follow (disk : Disk) (last : Bool) (path : Path) : Except Fault Found := do
  let start ← disk.startOf path
  let trail ← walkParts disk.root last linkLimit start (partsOf path.text)
  return ⟨trail.location, trail.entry disk.root⟩

/-- Resolves a path text of allowed length. A link at its very end is followed if `last` is true. -/
def resolve (disk : Disk) (last : Bool) (path : Path) : Except Fault Found := do
  checkText path
  checkLength path
  disk.follow last path

def exists? (disk : Disk) (path : Path) : Bool := (disk.resolve true path).isOk

def isFile (disk : Disk) (path : Path) : Bool :=
  match disk.resolve true path with
  | .ok found => found.entry.isFile
  | .error _ => false

def isFolder (disk : Disk) (path : Path) : Bool :=
  match disk.resolve true path with
  | .ok found => found.entry.isFolder
  | .error _ => false

def read (disk : Disk) (path : Path) : Except Fault (List UInt8) := do
  match (← disk.resolve true path).entry with
  | .file _ bytes => return bytes
  | .folder .. => throw .isDirectory
  | .link .. => throw .notFound

/-- The text of a file, which has to be UTF-8. -/
def readText (disk : Disk) (path : Path) : Except Fault String := do
  match Utf8.decode? (← disk.read path) with
  | some text => return String.ofList text
  | none => throw .notText

def currentPath (disk : Disk) : Path := pathOf disk.workingDirectory

/-- The path of an existing file or folder without links and dots. It is found name by name, so that a
text of any length will do. -/
def canonical? (disk : Disk) (path : Path) : Option Path :=
  match (do checkText path; disk.follow true path) with
  | .ok found => some (pathOf found.location)
  | .error _ => none

end Disk

end SourceAtlas
