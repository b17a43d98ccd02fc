import AmdKit.Amd.Injection
import AmdKit.Loader.Files
import AmdKit.Loader.Settings
import AmdKit.Options
import AmdKit.Proofs.Layout
import AmdKit.Proofs.Merging
import AmdKit.Proofs.JsonText
import AmdKit.Proofs.NormalForm
import AmdKit.Proofs.Rereading
import AmdKit.Proofs.Persistence
import AmdKit.Proofs.Mark
import AmdKit.Proofs.SecondRun
import AmdKit.Proofs.MergedSections
import AmdKit.Proofs.CallSites
import AmdKit.Proofs.MergedEntries
import AmdKit.Proofs.Repetition
import AmdKit.Proofs.JsonSteps
import AmdKit.Proofs.AcceptedCollections
import AmdKit.Proofs.JsonLocality
import AmdKit.Proofs.SectionLocality
import AmdKit.Proofs.Declarations
import AmdKit.Proofs.SourceOrder
import AmdKit.Proofs.ReadStatements
import AmdKit.Proofs.OverrideForms
import AmdKit.Proofs.AccountedEntries
import AmdKit.Proofs.Parentheses
import AmdKit.Proofs.OverrideScopes
import AmdKit.Proofs.MergeOrder
import AmdKit.Proofs.EffectiveOptions
import AmdKit.Proofs.FilledArrays
import AmdKit.Proofs.Places
import AmdKit.Proofs.ArgumentStarts
