import SourceAtlas.Fault

/-! Walking the files below a folder. Links are followed; a link that leads back to a folder which is
being walked is a fault, and so is one that leads nowhere. -/
namespace SourceAtlas.Disk

/-- A folder that is being walked: its location, and the path by which the walk came to it. -/
structure Visit where
  location : List String
  path : Path
  deriving Repr

/-- The folder that a link leads back to, innermost first. -/
def loopTo? (visits : List Visit) (location : List String) : Option Visit :=
  visits.find? (·.location == location)

/-- The paths of all files below an entry. `enters` chooses folders by name, `visits` are the folders
around the entry, innermost first, and `spare` bounds the number of links to folders that may still be
followed. -/
def walkEntry (disk : Disk) (enters : String → Bool) (spare : Nat) (visits : List Visit)
    (here : Visit) (entry : Entry) : Except WalkFault (List Path) :=
  match entry with
  | .file .. => .ok [here.path]
  | .folder _ inner => do
    let found ← inner.attach.mapM fun child =>
      let there : Visit := ⟨here.location ++ [child.1.name], here.path.join ⟨child.1.name⟩⟩
      if child.1.isFolder && !enters child.1.name then .ok []
      else walkEntry disk enters spare (here :: visits) there child.1
    return found.flatten
  | .link name _ =>
    match disk.resolve true here.path with
    | .error fault => .error (.unreadable here.path fault)
    | .ok found =>
      if found.entry.isFolder then
        match loopTo? visits found.location with
        | some around => .error (.loop here.path around.path)
        | none =>
          match spare with
          | 0 => .error (.unreadable here.path .tooManyLinks)
          | spare + 1 =>
            if !visits.isEmpty && !enters name then .ok []
            else walkEntry disk enters spare visits ⟨found.location, here.path⟩ found.entry
      else .ok [here.path]
termination_by (spare, sizeOf entry)
decreasing_by
  · have := List.sizeOf_lt_of_mem child.2
    apply Prod.Lex.right
    simp
    omega
  · exact Prod.Lex.left _ _ (Nat.lt_succ_self _)

def Entry.folderCount : Entry → Nat
  | .folder _ inner => inner.attach.foldl (fun count child => count + child.1.folderCount) 1
  | _ => 0
decreasing_by
  have := List.sizeOf_lt_of_mem child.2
  simp
  omega

/-- The paths of all files below a path, or the path itself if a file is there. No folder is entered
twice on one way down by a link, so the number of folders bounds the links that are followed. -/
def walk (disk : Disk) (enters : String → Bool) (path : Path) : Except WalkFault (List Path) :=
  match disk.resolve false path with
  | .error fault => .error (.unreadable path fault)
  | .ok found =>
    walkEntry disk enters disk.root.folderCount [] ⟨found.location, path⟩ found.entry

end SourceAtlas.Disk
