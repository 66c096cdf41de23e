import SourceAtlas.Atlas
import SourceAtlas.Atlas.Json
import SourceAtlas.CommandLine.Arguments
import SourceAtlas.CommandLine.Run
import SourceAtlas.CompilerOptions
import SourceAtlas.Declaration.Category
import SourceAtlas.Declaration.Defect
import SourceAtlas.Declaration.Extract
import SourceAtlas.Declaration.Imports
import SourceAtlas.Declaration.Reader
import SourceAtlas.Dialect
import SourceAtlas.Disk.Entry
import SourceAtlas.Disk.Walk
import SourceAtlas.Disk.Write
import SourceAtlas.Fault
import SourceAtlas.Glob.Bytes
import SourceAtlas.Glob.Expression
import SourceAtlas.Glob.Lookup
import SourceAtlas.Glob.Mask
import SourceAtlas.Glob.Match
import SourceAtlas.Glob.Pattern
import SourceAtlas.Glob.Set
import SourceAtlas.Json.Commented
import SourceAtlas.Json.Decode
import SourceAtlas.Json.Draft
import SourceAtlas.Json.Magnitude
import SourceAtlas.Json.Token
import SourceAtlas.Json.Value
import SourceAtlas.Main
import SourceAtlas.Path
import SourceAtlas.Record
import SourceAtlas.Record.Json
import SourceAtlas.Report
import SourceAtlas.Settings
import SourceAtlas.Settings.Json
import SourceAtlas.Settings.Yaml
import SourceAtlas.SourceFilter
import SourceAtlas.Survey
import SourceAtlas.Syntax.CommentRemoval
import SourceAtlas.Syntax.Documentation
import SourceAtlas.Syntax.Listing
import SourceAtlas.Syntax.Node
import SourceAtlas.Syntax.ParsedText
import SourceAtlas.Syntax.Source
import SourceAtlas.Syntax.TypeText
import SourceAtlas.Table
import SourceAtlas.Text.Blank
import SourceAtlas.Text.Hex
import SourceAtlas.Text.Numeral
import SourceAtlas.Text.Parts
import SourceAtlas.Text.Quoted
import SourceAtlas.Text.Utf8
import SourceAtlas.Text.Word
import SourceAtlas.Yaml.BlockScalar
import SourceAtlas.Yaml.Character
import SourceAtlas.Yaml.FlowScalar
import SourceAtlas.Yaml.Implicit
import SourceAtlas.Yaml.Node
import SourceAtlas.Yaml.Property
import SourceAtlas.Yaml.Token
import SourceAtlas.Yaml.Writer
import SourceAtlas.Proofs.Selection
import SourceAtlas.Proofs.Utf8
import SourceAtlas.Proofs.CommentRemoval
import SourceAtlas.Proofs.Parts
import SourceAtlas.Proofs.PathKey
import SourceAtlas.Proofs.Assembly
import SourceAtlas.Proofs.FolderTree
import SourceAtlas.Proofs.PathOrder
import SourceAtlas.Proofs.Collection
import SourceAtlas.Proofs.Lexeme
import SourceAtlas.Proofs.SpelledJson
import SourceAtlas.Proofs.CommentedJson
import SourceAtlas.Proofs.JsonReading
import SourceAtlas.Proofs.JsonWriting
import SourceAtlas.Proofs.RecordRoundTrip
import SourceAtlas.Proofs.Recording
import SourceAtlas.Proofs.Aggregation
import SourceAtlas.Proofs.Classification
import SourceAtlas.Proofs.FirstOffence
import SourceAtlas.Proofs.TypeErasure
import SourceAtlas.Proofs.WrappedDeclaration
import SourceAtlas.Proofs.ExpressionType
import SourceAtlas.Proofs.CommentedTypes
import SourceAtlas.Proofs.TypeLine
import SourceAtlas.Proofs.GlobLanguage
import SourceAtlas.Proofs.GlobText
import SourceAtlas.Proofs.GlobReading
import SourceAtlas.Proofs.GlobSegments
import SourceAtlas.Proofs.DefaultSources
import SourceAtlas.Proofs.SourceDialect
import SourceAtlas.Proofs.FolderPattern
import SourceAtlas.Proofs.CommentMargin
import SourceAtlas.Proofs.CommentGap
import SourceAtlas.Proofs.CommentLines
import SourceAtlas.Proofs.WellFormedRecord
import SourceAtlas.Proofs.YamlText
import SourceAtlas.Proofs.YamlPlain
import SourceAtlas.Proofs.YamlQuoted
import SourceAtlas.Proofs.YamlLiteral
import SourceAtlas.Proofs.YamlValue
import SourceAtlas.Proofs.YamlMembers
import SourceAtlas.Proofs.YamlDocument
import SourceAtlas.Proofs.SettingsRoundTrip
import SourceAtlas.Proofs.ArrayUnion
import SourceAtlas.Proofs.CommentRun
import SourceAtlas.Proofs.LiteralValue
import SourceAtlas.Proofs.Insertion
import SourceAtlas.Proofs.ImportStatements
import SourceAtlas.Proofs.PartNames
import SourceAtlas.Proofs.Way
import SourceAtlas.Proofs.EntryRemoval
import SourceAtlas.Proofs.Walk
import SourceAtlas.Proofs.SourceRemoval
import SourceAtlas.Proofs.ReachableAtlas
import SourceAtlas.Proofs.AcceptedSettings
import SourceAtlas.Proofs.ProjectRoot
import SourceAtlas.Proofs.JsonRecognition
import SourceAtlas.Proofs.LenientJson
import SourceAtlas.Proofs.LexemeHead
import SourceAtlas.Proofs.SpareCommas
import SourceAtlas.Proofs.LenientReading
import SourceAtlas.Proofs.CheckedRemoval
import SourceAtlas.Proofs.PathSpelling
import SourceAtlas.Proofs.OneLine
import SourceAtlas.Proofs.Passages
