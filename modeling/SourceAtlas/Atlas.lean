import SourceAtlas.Record
import SourceAtlas.Table

/-! The atlas of a project: its files by path. An atlas read from a text may hold any number of
projects; the first one by name is the one that is asked and changed. -/
namespace SourceAtlas

structure Project where
  modules : Table ModuleRecord

structure Atlas where
  projects : Table Project

/-- How much an atlas declares. Declarations within classes count, too. -/
structure Totals where
  modules : Nat
  classes : Nat
  functions : Nat
  interfaces : Nat
  enums : Nat
  dependencies : Nat
  deriving DecidableEq, Repr

namespace Totals

def zero : Totals := ⟨0, 0, 0, 0, 0, 0⟩

def add (a b : Totals) : Totals :=
  ⟨a.modules + b.modules, a.classes + b.classes, a.functions + b.functions,
    a.interfaces + b.interfaces, a.enums + b.enums, a.dependencies + b.dependencies⟩

def ofModule (record : ModuleRecord) : Totals :=
  let inClasses (count : ClassRecord → Nat) := record.classes.foldl (fun n item => n + count item) 0
  { modules := 1
    classes := record.classes.length
    functions := record.functions.length + inClasses (·.functions.length)
    interfaces := record.interfaces.length + inClasses (·.interfaces.length)
    enums := record.enums.length + inClasses (·.enums.length)
    dependencies := record.dependencies.length }

end Totals

namespace Atlas

/-- The atlas of a project without files. -/
def new (projectName : String) : Atlas := ⟨Table.empty.insert projectName ⟨.empty⟩⟩

/-- The first project with its name. -/
def project? (atlas : Atlas) : Option (String × Project) := atlas.projects.entries.head?

def projectName (atlas : Atlas) : String := (atlas.project?.map (·.1)).getD ""

def modules (atlas : Atlas) : Table ModuleRecord := (atlas.project?.map (·.2.modules)).getD .empty

def module? (atlas : Atlas) (path : String) : Option ModuleRecord := atlas.modules.get? path

/-- Puts a file into the project under its path, with the file that it replaces. An atlas without a
project stays empty. -/
def insert (atlas : Atlas) (record : ModuleRecord) : Atlas × Option ModuleRecord :=
  match atlas.project? with
  | none => (atlas, none)
  | some (name, project) =>
    (⟨atlas.projects.insert name ⟨project.modules.insert record.path record⟩⟩,
      project.modules.get? record.path)

def totals (atlas : Atlas) : Totals :=
  (atlas.modules.values.map Totals.ofModule).foldl Totals.add .zero

end Atlas

end SourceAtlas
