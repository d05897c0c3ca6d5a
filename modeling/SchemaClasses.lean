import SchemaClasses.Build.Context
import SchemaClasses.Build.Declare
import SchemaClasses.Build.Keyword
import SchemaClasses.Build.Member
import SchemaClasses.Build.Recorded
import SchemaClasses.Build.Session
import SchemaClasses.Build.Settings
import SchemaClasses.Build.TypeText
import SchemaClasses.Check.Compile
import SchemaClasses.Check.Flaw
import SchemaClasses.Check.Layout
import SchemaClasses.Check.Statement
import SchemaClasses.Command.Generate
import SchemaClasses.Command.Options
import SchemaClasses.Command.Run
import SchemaClasses.Command.Shown
import SchemaClasses.Entries
import SchemaClasses.Files.Load
import SchemaClasses.Files.Path
import SchemaClasses.Files.Tree
import SchemaClasses.Generator
import SchemaClasses.Hook.Basic
import SchemaClasses.Hook.Header
import SchemaClasses.Hook.TypeFilter
import SchemaClasses.Literal
import SchemaClasses.Main
import SchemaClasses.Output.Basic
import SchemaClasses.Output.Render
import SchemaClasses.Naming.Case
import SchemaClasses.Naming.Reserved
import SchemaClasses.Proofs.BuiltModule
import SchemaClasses.Proofs.Compilation
import SchemaClasses.Proofs.CompiledText
import SchemaClasses.Proofs.Descriptions
import SchemaClasses.Proofs.Filtering
import SchemaClasses.Proofs.ImportLine
import SchemaClasses.Proofs.InPlace
import SchemaClasses.Proofs.Joining
import SchemaClasses.Proofs.LineEnds
import SchemaClasses.Proofs.LineLayout
import SchemaClasses.Proofs.Names
import SchemaClasses.Proofs.PhraseCharacters
import SchemaClasses.Proofs.Phrases
import SchemaClasses.Proofs.ReadBack
import SchemaClasses.Proofs.RootTypes
import SchemaClasses.Proofs.SafeWriting
import SchemaClasses.Proofs.SchemaFile
import SchemaClasses.Proofs.Sessions
import SchemaClasses.Proofs.Statements
import SchemaClasses.Proofs.TokenLayout
import SchemaClasses.Proofs.UnifiedTokens
import SchemaClasses.Proofs.UniformRules
import SchemaClasses.Proofs.UniqueReading
import SchemaClasses.Proofs.ValidOutput
import SchemaClasses.Schema.Document
import SchemaClasses.Schema.Name
import SchemaClasses.Schema.TypeExpr
import SchemaClasses.Sdl.BlockText
import SchemaClasses.Sdl.Fault
import SchemaClasses.Sdl.Grammar.Definition
import SchemaClasses.Sdl.Grammar.Executable
import SchemaClasses.Sdl.Grammar.Value
import SchemaClasses.Sdl.Lexeme
import SchemaClasses.Sdl.Numeral
import SchemaClasses.Sdl.Rule
import SchemaClasses.Sdl.Position
import SchemaClasses.Sdl.Quoted
import SchemaClasses.Sdl.Read
import SchemaClasses.Sdl.Tokens
import SchemaClasses.Text.Blank
import SchemaClasses.Text.Letter
import SchemaClasses.Text.Lines
import SchemaClasses.Proofs.ServedNames
import SchemaClasses.Proofs.DistinctAttributes
import SchemaClasses.Proofs.NullCharacters
import SchemaClasses.Proofs.DeclaredFailures
import SchemaClasses.Proofs.FrameworkNames
import SchemaClasses.Proofs.ExplicitNames
import SchemaClasses.Proofs.LiteralValues
import SchemaClasses.Proofs.FolderLoading
import SchemaClasses.Proofs.TypeTexts
import SchemaClasses.Proofs.TypeWalks
import SchemaClasses.Proofs.WiringText
import SchemaClasses.Proofs.KeywordSequence
import SchemaClasses.Proofs.CapitalRuns
import SchemaClasses.Proofs.HeaderLines
import SchemaClasses.Proofs.MovedLines
import SchemaClasses.Proofs.HeaderComments
