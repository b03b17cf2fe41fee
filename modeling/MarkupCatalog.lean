import MarkupCatalog.Main
import MarkupCatalog.Proofs.Configuration
import MarkupCatalog.Proofs.Entries
import MarkupCatalog.Proofs.Sites
import MarkupCatalog.Proofs.Locality
import MarkupCatalog.Proofs.Thinning
import MarkupCatalog.Proofs.Exports
import MarkupCatalog.Proofs.ThinnedReadings
import MarkupCatalog.Proofs.Insertion
import MarkupCatalog.Proofs.Comments
import MarkupCatalog.Proofs.ParsedTrees
import MarkupCatalog.Proofs.Outline
import MarkupCatalog.Proofs.Isolation
import MarkupCatalog.Proofs.Reports
import MarkupCatalog.Proofs.Workers
import MarkupCatalog.Proofs.FileTrees
import MarkupCatalog.Proofs.PathOrder
import MarkupCatalog.Proofs.SelectedFiles
import MarkupCatalog.Proofs.Texts
import MarkupCatalog.Proofs.CommentLayouts
import MarkupCatalog.Proofs.WrittenComments
import MarkupCatalog.Proofs.JsonTexts
import MarkupCatalog.Proofs.DocumentTexts
import MarkupCatalog.Proofs.FileChanges
import MarkupCatalog.Proofs.RunEffects
import MarkupCatalog.Proofs.Layers
import MarkupCatalog.Proofs.CommandLines
import MarkupCatalog.Proofs.WrittenFiles
import MarkupCatalog.Proofs.RunOutcomes
import MarkupCatalog.Proofs.FileShapes
import MarkupCatalog.Proofs.ExitCodes
import MarkupCatalog.Proofs.SourceReadings
import MarkupCatalog.Proofs.Regeneration
import MarkupCatalog.Proofs.SelectorTexts
import MarkupCatalog.Proofs.LiteralPrefixes
import MarkupCatalog.Proofs.TypeExpressions
import MarkupCatalog.Proofs.CommentBodies
import MarkupCatalog.Proofs.StringSpellings
import MarkupCatalog.Proofs.QuotedStrings
import MarkupCatalog.Proofs.SettingsFlags
import MarkupCatalog.Proofs.ConsultedSettings
import MarkupCatalog.Proofs.SelectorParts
import MarkupCatalog.Proofs.ClassBodies
import MarkupCatalog.Proofs.SettingsObjects
import MarkupCatalog.Proofs.MemberAttributes
import MarkupCatalog.Proofs.Positions
import MarkupCatalog.Proofs.Siblings
import MarkupCatalog.Proofs.DocumentingComments
import MarkupCatalog.Proofs.ObjectLiterals
import MarkupCatalog.Proofs.GlobRoots
import MarkupCatalog.Proofs.EntryNames
import MarkupCatalog.Proofs.GlobGrammar
import MarkupCatalog.Proofs.GlobReadings
import MarkupCatalog.Proofs.GlobLines
import MarkupCatalog.Proofs.OfferedFiles
import MarkupCatalog.Proofs.NameGlobs
import MarkupCatalog.Proofs.SelfExclusion
import MarkupCatalog.Proofs.DeclarationFiles
import MarkupCatalog.Proofs.Descriptions
import MarkupCatalog.Proofs.RegularExpressions
import MarkupCatalog.Proofs.ParameterTexts
import MarkupCatalog.Proofs.WalkLoop
