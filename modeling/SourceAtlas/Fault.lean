import SourceAtlas.Declaration.Defect
import SourceAtlas.Disk.Entry
import SourceAtlas.Glob.Set
import SourceAtlas.Json.Token
import SourceAtlas.Text.Quoted

/-! Everything that can stop the making of an atlas, with the wording of each cause. -/
namespace SourceAtlas

inductive SettingsFault
  | noSourceGlobs
  | noManifestMarkers
  | badGlob (fault : Glob.Fault)
  deriving DecidableEq, Repr

def SettingsFault.message : SettingsFault → String
  | noSourceGlobs => "source_globs must not be empty"
  | noManifestMarkers => "manifest_markers must not be empty"
  | badGlob fault =>
    "invalid glob " ++ String.ofList (Text.quoted fault.pattern.toList) ++ ": " ++ fault.message

/-- Why a configuration file cannot be used. -/
inductive ConfigurationFault
  | unreadable (fault : Disk.Fault)
  | notYaml
  | notJson (fault : Json.Fault)
  | refused (fault : SettingsFault)
  deriving DecidableEq, Repr

def ConfigurationFault.message : ConfigurationFault → String
  | unreadable fault => fault.message
  | notYaml => "not a settings document"
  | notJson fault => fault.message
  | refused fault => fault.message

/-- Why a directory tree cannot be walked: an entry cannot be read, or a link leads back to a folder
that is being walked. -/
inductive WalkFault
  | unreadable (path : Path) (fault : Disk.Fault)
  | loop (path ancestor : Path)
  deriving DecidableEq, Repr

def WalkFault.message : WalkFault → String
  | unreadable path fault => "IO error for operation on " ++ path.text ++ ": " ++ fault.message
  | loop path ancestor =>
    "File system loop found: " ++ path.text ++ " points to an ancestor " ++ ancestor.text

inductive Fault
  | malformedNode (node : MalformedNode)
  | missingSourceFile (path : Path)
  | configuration (path : Path) (fault : ConfigurationFault)
  | walk (fault : WalkFault)
  | glob (fault : Glob.SetFault)
  deriving DecidableEq, Repr

def Fault.message : Fault → String
  | malformedNode node => node.message
  | missingSourceFile path => "no parsed source file for " ++ path.text
  | configuration path fault => "invalid configuration " ++ path.text ++ ": " ++ fault.message
  | walk fault => "walking source tree: " ++ fault.message
  | glob fault => "invalid glob: " ++ fault.message

end SourceAtlas
