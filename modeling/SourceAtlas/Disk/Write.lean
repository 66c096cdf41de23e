import SourceAtlas.Disk.Entry

/-! Making folders and writing files on a disk. A failed operation changes nothing. -/
namespace SourceAtlas

namespace Disk

/-- Splits the parts of a path at its last name: that name, whether a separator follows it, and the
parts before it. -/
def lastPart? (parts : List String) : Option (String × Bool × List String) :=
  match parts.reverse.dropWhile (· == "") with
  | [] => none
  | last :: before => some (last, parts.getLast? == some "", before.reverse)

/-- The trail of the folder in which the last name of a path stands. -/
def folderOf (root : Entry) (limit : Nat) (start : Trail) (before : List String) :
    Except Fault Trail := do
  let trail ← walkParts root true limit start before
  if (trail.entry root).isFolder then return trail else throw .notDirectory

/-- Makes one folder, whose parent has to exist. -/
def makeFolder (disk : Disk) (path : Path) : Except Fault Disk := do
  checkText path
  checkLength path
  match lastPart? (partsOf path.text) with
  | none => throw .alreadyExists
  | some (last, _, before) =>
    let folder ← folderOf disk.root linkLimit (← disk.startOf path) before
    if last = "." ∨ last = ".." then throw .alreadyExists
    else if isLongName last then throw .nameTooLong
    else if (Entry.find? (folder.entry disk.root) last).isSome then throw .alreadyExists
    else return { disk with root := (Entry.folder last []).putAt folder.location disk.root }

/-- Makes a folder and its missing parents, at most `limit` of them. -/
def makeFoldersWithin (disk : Disk) (path : Path) : Nat → Except Fault Disk
  | 0 => .error .notFound
  | limit + 1 =>
    if path.text = "" then .ok disk
    else
      match disk.makeFolder path with
      | .ok disk => .ok disk
      | .error .notFound =>
        match path.parent? with
        | none => .error .notFound
        | some parent =>
          match disk.makeFoldersWithin parent limit with
          | .error fault => .error fault
          | .ok disk => orPresent disk (disk.makeFolder path)
      | .error fault => orPresent disk (.error fault)
where
  orPresent (disk : Disk) : Except Fault Disk → Except Fault Disk
    | .ok disk => .ok disk
    | .error fault => if disk.isFolder path then .ok disk else .error fault

def makeFolders (disk : Disk) (path : Path) : Except Fault Disk :=
  disk.makeFoldersWithin path (path.text.length + 1)

/-- Where a path leads for writing: to a location, or through a link to another path. -/
inductive Lead
  | settled (location : List String)
  | redirected (start : Trail) (parts : List String)

/-- Follows a path for writing up to its last name. -/
def leadOf (root : Entry) (limit : Nat) (start : Trail) (parts : List String) : Except Fault Lead :=
  match lastPart? parts with
  | none => .error .isDirectory
  | some (last, separated, before) => do
    let folder ← folderOf root limit start before
    if separated ∨ last = "." ∨ last = ".." then throw .isDirectory
    else if isLongName last then throw .nameTooLong
    else
      match Entry.find? (folder.entry root) last with
      | some (.folder ..) => throw .isDirectory
      | some (.link _ target) => return .redirected (startFrom folder target) (partsOf target)
      | _ => return .settled (folder.location ++ [last])

/-- The location of the file that a path leads to for writing, which may be missing. `limit` is the
number of links that may still be followed. -/
def writeLocation (root : Entry) (limit : Nat) (start : Trail) (parts : List String) :
    Except Fault (List String) :=
  match leadOf root limit start parts with
  | .error fault => .error fault
  | .ok (.settled location) => .ok location
  | .ok (.redirected start parts) =>
    match limit with
    | 0 => .error .tooManyLinks
    | limit + 1 => writeLocation root limit start parts

/-- Writes a file, in place of what it held. -/
def write (disk : Disk) (path : Path) (bytes : List UInt8) : Except Fault Disk := do
  checkText path
  checkLength path
  let location ← writeLocation disk.root linkLimit (← disk.startOf path) (partsOf path.text)
  let file := Entry.file (location.getLast?.getD "") bytes
  return { disk with root := file.putAt location.dropLast disk.root }

end Disk

end SourceAtlas
