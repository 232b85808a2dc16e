import ProtoBind.Disk
import ProtoBind.Main
import ProtoBind.Proofs.AgreeingRequests
import ProtoBind.Proofs.AllOrNothing
import ProtoBind.Proofs.ApiImports
import ProtoBind.Proofs.ApiTexts
import ProtoBind.Proofs.AssemblySteps
import ProtoBind.Proofs.AttachedComments
import ProtoBind.Proofs.BatchRuns
import ProtoBind.Proofs.BuiltGraph
import ProtoBind.Proofs.Characters
import ProtoBind.Proofs.CodeTexts
import ProtoBind.Proofs.CommentLines
import ProtoBind.Proofs.CommentedFiles
import ProtoBind.Proofs.CommentsInert
import ProtoBind.Proofs.Declarations
import ProtoBind.Proofs.DeclaredNames
import ProtoBind.Proofs.DelimitedRecords
import ProtoBind.Proofs.DistinctServices
import ProtoBind.Proofs.DistinctTypes
import ProtoBind.Proofs.ExactArena
import ProtoBind.Proofs.ExactImports
import ProtoBind.Proofs.ExpressionGrammar
import ProtoBind.Proofs.FieldComments
import ProtoBind.Proofs.FieldNames
import ProtoBind.Proofs.FileGrammar
import ProtoBind.Proofs.FileOrder
import ProtoBind.Proofs.GivenNames
import ProtoBind.Proofs.IndexLookup
import ProtoBind.Proofs.ItemGrammar
import ProtoBind.Proofs.JsonStrings
import ProtoBind.Proofs.KeptReferences
import ProtoBind.Proofs.Lexemes
import ProtoBind.Proofs.Lexing
import ProtoBind.Proofs.LineLexemes
import ProtoBind.Proofs.LineWords
import ProtoBind.Proofs.LocalPackages
import ProtoBind.Proofs.ManifestEntries
import ProtoBind.Proofs.ManifestObjects
import ProtoBind.Proofs.MapEntries
import ProtoBind.Proofs.MergedManifests
import ProtoBind.Proofs.ModelImports
import ProtoBind.Proofs.ModelTexts
import ProtoBind.Proofs.MovedStages
import ProtoBind.Proofs.NameBijection
import ProtoBind.Proofs.NameForms
import ProtoBind.Proofs.NoDangling
import ProtoBind.Proofs.OneofMembers
import ProtoBind.Proofs.OutputNames
import ProtoBind.Proofs.ParserRuns
import ProtoBind.Proofs.PathParts
import ProtoBind.Proofs.PatternGrammar
import ProtoBind.Proofs.Pieces
import ProtoBind.Proofs.PreparedGraph
import ProtoBind.Proofs.QuotedText
import ProtoBind.Proofs.References
import ProtoBind.Proofs.RenumberedText
import ProtoBind.Proofs.Renumbering
import ProtoBind.Proofs.ReservedTypes
import ProtoBind.Proofs.ResolvedTypes
import ProtoBind.Proofs.SecondReading
import ProtoBind.Proofs.Sentences
import ProtoBind.Proofs.SettledRuns
import ProtoBind.Proofs.Silence
import ProtoBind.Proofs.SilentApi
import ProtoBind.Proofs.SilentModel
import ProtoBind.Proofs.SilentPool
import ProtoBind.Proofs.SourceElements
import ProtoBind.Proofs.SourcePaths
import ProtoBind.Proofs.Stages
import ProtoBind.Proofs.Tables
import ProtoBind.Proofs.TwoRuns
import ProtoBind.Proofs.TypeGrammar
import ProtoBind.Proofs.TypeNames
import ProtoBind.Proofs.TypePaths
import ProtoBind.Proofs.TypeTexts
import ProtoBind.Proofs.UseItems
import ProtoBind.Proofs.WrittenReferences
import ProtoBind.Schema.Encode
import ProtoBind.Proofs.Layouts
import ProtoBind.Proofs.PrintedExpressions
import ProtoBind.Proofs.PrintedFiles
import ProtoBind.Proofs.ConstantNames
import ProtoBind.Proofs.FieldGroups
import ProtoBind.Proofs.ModuleIdentifiers
import ProtoBind.Proofs.RegisteredRoutes
import ProtoBind.Proofs.FiniteSizes
import ProtoBind.Proofs.FreeFormFields
import ProtoBind.Proofs.DirectiveTokens
import ProtoBind.Proofs.MarkerSearch
import ProtoBind.Proofs.PackagePrecedence
import ProtoBind.Proofs.PublicExports
import ProtoBind.Proofs.LinePhrases
import ProtoBind.Proofs.ModelSentences
import ProtoBind.Proofs.AcceptedTexts
import ProtoBind.Proofs.ParameterEntries
import ProtoBind.Proofs.PackageCalls
import ProtoBind.Proofs.EnumLookup
import ProtoBind.Proofs.QuotedReaders
import ProtoBind.Proofs.SoundTokens
import ProtoBind.Proofs.SpelledTokens
import ProtoBind.Proofs.UseTokens
import ProtoBind.Proofs.ParsedUses
import ProtoBind.Proofs.LeadingImports
import ProtoBind.Proofs.StringLiterals
import ProtoBind.Proofs.PascalCase
import ProtoBind.Proofs.SnakeCase
