import SelfExtract.Launch
import SelfExtract.Main
import SelfExtract.Proofs.AppendedBlock
import SelfExtract.Proofs.Notes
import SelfExtract.Proofs.ProgramHeaders
import SelfExtract.Proofs.NoteEmbedding
import SelfExtract.Proofs.NoteLocation
import SelfExtract.Proofs.PathResolution
import SelfExtract.Proofs.PathNames
import SelfExtract.Proofs.SystemCalls
import SelfExtract.Proofs.Directories
import SelfExtract.Proofs.AtomicWrites
import SelfExtract.Proofs.CacheEntries
import SelfExtract.Proofs.Extraction
import SelfExtract.Proofs.EntryConfinement
import SelfExtract.Proofs.CanonicalSettings
import SelfExtract.Proofs.NamedFiles
import SelfExtract.Proofs.Steps
import SelfExtract.Proofs.FileWrites
import SelfExtract.Proofs.EntryWrites
import SelfExtract.Proofs.SharedFiles
import SelfExtract.Proofs.ConcurrentStores
import SelfExtract.Proofs.CacheHistory
import SelfExtract.Proofs.Ancestors
import SelfExtract.Proofs.FreshEntries
import SelfExtract.Proofs.Restoring
import SelfExtract.Proofs.WrittenMetadata
import SelfExtract.Proofs.AdmittedSettings
import SelfExtract.Proofs.JsonScalars
import SelfExtract.Proofs.JsonTexts
import SelfExtract.Proofs.JsonValues
import SelfExtract.Proofs.Sidecars
import SelfExtract.Proofs.Rewrites
import SelfExtract.Proofs.SidecarWrites
import SelfExtract.Proofs.SidecarMembers
import SelfExtract.Proofs.UpdateChecks
import SelfExtract.Proofs.LinearSearch
import SelfExtract.Proofs.NoteSearch
import SelfExtract.Proofs.SureCalls
import SelfExtract.Proofs.FailingWrites
import SelfExtract.Proofs.CommandWrites
import SelfExtract.Proofs.VersionOrder
import SelfExtract.Proofs.KnownVersions
import SelfExtract.Proofs.RecordLanguage
import SelfExtract.Proofs.PatternMatching
import SelfExtract.Proofs.TagVersions
import SelfExtract.Proofs.VersionTexts
import SelfExtract.Proofs.ForwardedArguments
import SelfExtract.Proofs.ExactExpansion
import SelfExtract.Proofs.AtomicReplacement
import SelfExtract.Proofs.EntryDirectories
import SelfExtract.Proofs.OtherEntries
import SelfExtract.Proofs.FailingStores
import SelfExtract.Proofs.SparedEntries
import SelfExtract.Proofs.StoredEntries
import SelfExtract.Proofs.StartEnvironment
import SelfExtract.Proofs.ReceivedVariables
import SelfExtract.Proofs.SectionNames
import SelfExtract.Proofs.JsonMembers
import SelfExtract.Proofs.ResolvedSettings
import SelfExtract.Proofs.SidecarRewrites
import SelfExtract.Proofs.NoteRecords
import SelfExtract.Proofs.RememberedPlaces
import SelfExtract.Proofs.ResourceNames
