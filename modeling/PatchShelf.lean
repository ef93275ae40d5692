import PatchShelf.Text.Basic
import PatchShelf.Text.Utf8
import PatchShelf.Text.Printable
import PatchShelf.Text.Blank
import PatchShelf.Text.Lines
import PatchShelf.Text.Quoted
import PatchShelf.Dictionary
import PatchShelf.Path
import PatchShelf.Text.Terminal
import PatchShelf.Failure
import PatchShelf.Effect
import PatchShelf.FileTree.Basic
import PatchShelf.FileTree.Walk
import PatchShelf.FileTree.Access
import PatchShelf.FileTree.Changes
import PatchShelf.Instant
import PatchShelf.Fraction
import PatchShelf.FileTime
import PatchShelf.Log.Vocabulary
import PatchShelf.Log
import PatchShelf.Shelf
import PatchShelf.Listing
import PatchShelf.Arguments
import PatchShelf.Patch
import PatchShelf.Store
import PatchShelf.Store.Memory
import PatchShelf.Machine
import PatchShelf.Store.WorkingCopy
import PatchShelf.DiffStat
import PatchShelf.Session
import PatchShelf.Commands
import PatchShelf.Settings.EnvFile
import PatchShelf.Settings.Homes
import PatchShelf.Settings
import PatchShelf.Text.Folded
import PatchShelf.CommandLine.Options
import PatchShelf.CommandLine.Run
import PatchShelf.Main
import PatchShelf.Proofs.Text.LineEnds
import PatchShelf.Proofs.FileTree.Locate
import PatchShelf.Proofs.Effect
import PatchShelf.Proofs.FileTree.Access
import PatchShelf.Proofs.FileTree.Sound
import PatchShelf.Proofs.Machine.Files
import PatchShelf.Proofs.Machine.Calls
import PatchShelf.Proofs.Store.Client
import PatchShelf.Proofs.Path
import PatchShelf.Proofs.Store.ShelfFiles
import PatchShelf.Proofs.Store.Root
import PatchShelf.Proofs.Store.CreateRun
import PatchShelf.Proofs.Store.Saved
import PatchShelf.Proofs.Store.Fidelity
import PatchShelf.Proofs.Commands.ReservedTargets
import PatchShelf.Proofs.Arguments.PegRevision
import PatchShelf.Proofs.Arguments.AbsoluteTargets
import PatchShelf.Proofs.Store.ShelfNames
import PatchShelf.Proofs.Store.SavedShelves
import PatchShelf.Proofs.Store.ShelfSteps
import PatchShelf.Proofs.Store.Verdicts
import PatchShelf.Proofs.Store.Listing
import PatchShelf.Proofs.Store.ShelfDirectory
import PatchShelf.Proofs.Store.Refinement
import PatchShelf.Proofs.Store.Limits
import PatchShelf.Proofs.FileTree.DeadEnds
import PatchShelf.Proofs.Store.SameEntries
import PatchShelf.Proofs.Store.Rollback
import PatchShelf.Proofs.Store.Removal
import PatchShelf.Proofs.Store.Refusals
import PatchShelf.Proofs.Store.Escapes
import PatchShelf.Proofs.Dealings
import PatchShelf.Proofs.Commands.PrintedShelves
import PatchShelf.Proofs.Store.KeptPatch
import PatchShelf.Proofs.Store.FoundShelf
import PatchShelf.Proofs.Commands.FoundAgain
import PatchShelf.Proofs.Machine.Stretches
import PatchShelf.Proofs.Machine.Trail
import PatchShelf.Proofs.Store.DryRun
import PatchShelf.Proofs.SideBySide
import PatchShelf.Proofs.Store.ListedRecords
import PatchShelf.Proofs.Commands.Quiet
import PatchShelf.Proofs.Commands.PassedOn
import PatchShelf.Proofs.FileTree.LinkFree
import PatchShelf.Proofs.Store.ShelfTouches
import PatchShelf.Proofs.Store.Confinement
import PatchShelf.Proofs.Commands.Conduct
import PatchShelf.Proofs.Commands.CallDiscipline
import PatchShelf.Proofs.Commands.ListedAges
import PatchShelf.Proofs.Commands.LogMessages
import PatchShelf.Proofs.ShelfOrder
import PatchShelf.Proofs.Commands.Youngest
import PatchShelf.Proofs.Store.UntakenNames
import PatchShelf.Proofs.Store.MemoryAgreement
import PatchShelf.Proofs.Store.Wording
import PatchShelf.Proofs.Patch
import PatchShelf.Proofs.Store.CreatedShelf
import PatchShelf.Proofs.Store.PatchedPaths
import PatchShelf.Proofs.Store.ListedMessage
import PatchShelf.Proofs.Commands.TargetsFile
import PatchShelf.Proofs.Commands.CanonicalOrder
import PatchShelf.Proofs.Fraction
import PatchShelf.Proofs.Listing
import PatchShelf.Proofs.Commands.ListedLines
import PatchShelf.Proofs.FileTime
import PatchShelf.Proofs.Store.ExactListing
import PatchShelf.Proofs.Text.Json
import PatchShelf.Proofs.Log
import PatchShelf.Proofs.DiffStat
import PatchShelf.Proofs.Store.ProgramsAside
import PatchShelf.Proofs.Commands.Decoration
import PatchShelf.Proofs.Store.NearestRoot
import PatchShelf.Proofs.Store.Encodable
import PatchShelf.Proofs.Commands.EncodedMessages
