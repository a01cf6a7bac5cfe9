import FormData.CommandLine.ByteSize
import FormData.Main
import FormData.Request
import FormData.Proofs.Body.Search
import FormData.Proofs.Body.Steady
import FormData.Proofs.Body.Reading
import FormData.Proofs.Session.Transcript
import FormData.Proofs.Session.Granularity
import FormData.Proofs.Text.Utf8
import FormData.Proofs.Header.Lines
import FormData.Proofs.Session.Encoding
import FormData.Proofs.Body.Settling
import FormData.Proofs.Session.Consumption
import FormData.Proofs.Body.Overrun
import FormData.Proofs.Session.Latch
import FormData.Proofs.Body.Stalled
import FormData.Proofs.Session.Skipping
import FormData.Proofs.Session.Reads
import FormData.Proofs.Session.FileLimit
import FormData.Proofs.Body.Moves
import FormData.Proofs.Session.Moves
import FormData.Proofs.Body.RequestLimit
import FormData.Proofs.Session.RequestLimit
import FormData.Proofs.Session.Provenance
import FormData.Proofs.Session.Contents
import FormData.Proofs.Depot.Keeping
import FormData.Proofs.Depot.Writing
import FormData.Proofs.Depot.Registry
import FormData.Proofs.Request.AllOrNothing
import FormData.Proofs.Body.Progress
import FormData.Proofs.Session.Progress
import FormData.Proofs.Header.Parameters
import FormData.Proofs.Session.FileSets
import FormData.Proofs.Session.Decoding
import FormData.Proofs.CommandLine.Visits
import FormData.Proofs.CommandLine.Modes
import FormData.Proofs.Files.Paths
import FormData.Proofs.Files.Places
import FormData.Proofs.CommandLine.Saving
import FormData.Proofs.CommandLine.Confinement
import FormData.Proofs.CommandLine.Extraction
import FormData.Proofs.Session.SameBody
import FormData.Proofs.Session.Opening
import FormData.Proofs.Body.Captured
import FormData.Proofs.Header.Boundaries
import FormData.Proofs.CommandLine.AfterBoundary
import FormData.Proofs.CommandLine.Options
import FormData.Proofs.CommandLine.Visitors
import FormData.Proofs.CommandLine.Sniffing
import FormData.Proofs.Body.Runs
import FormData.Proofs.Body.Resuming
import FormData.Proofs.Depot.Refusal
import FormData.Proofs.Files.Contents
import FormData.Proofs.Depot.Shelf
import FormData.Proofs.Body.BlankLine
import FormData.Proofs.Header.Folded
import FormData.Proofs.Header.Trimmed
import FormData.Proofs.Depot.Storing
import FormData.Proofs.Header.Grouped
import FormData.Proofs.Header.ParameterLists
import FormData.Proofs.Header.MediaTypes
import FormData.Proofs.Session.Boundaries
import FormData.Proofs.Session.SetEntry
import FormData.Proofs.Depot.FailedWrites
import FormData.Proofs.CommandLine.Patterns
import FormData.Proofs.CommandLine.OutputNames
import FormData.Proofs.FileName.ExtendedValues
import FormData.Proofs.Depot.Respelled
import FormData.Proofs.Request.Grouping
import FormData.Proofs.Body.ReadAhead
import FormData.Proofs.Session.OnDelimiter
import FormData.Body.Buffer
import FormData.Proofs.Body.Buffer
