import LiveTemplates.Proofs.Watch.Digest
import LiveTemplates.Proofs.Watch.Failure
import LiveTemplates.Proofs.Watch.Memory
import LiveTemplates.Proofs.Watch.Pairing
import LiveTemplates.Registry.Run
import LiveTemplates.Service.Installed
import LiveTemplates.Service.Run
import LiveTemplates.Template.Same
import LiveTemplates.Utf8.Lemmas
import LiveTemplates.Proofs.Watch.Freshness
import LiveTemplates.Proofs.Watch.Moments
import LiveTemplates.Proofs.Watch.Modified
import LiveTemplates.Proofs.Watch.Overwritten
import LiveTemplates.Proofs.Writing.Grammar
import LiveTemplates.Proofs.Writing.Stripping
import LiveTemplates.Proofs.Writing.Texts
import LiveTemplates.Proofs.Writing.Scanning
import LiveTemplates.Proofs.Writing.Reading
import LiveTemplates.Proofs.Writing.Compiling
import LiveTemplates.Proofs.Template.Building
import LiveTemplates.Proofs.Template.Violation
import LiveTemplates.Proofs.Template.Acceptance
import LiveTemplates.Proofs.Template.Decompiling
import LiveTemplates.Proofs.Template.NormalForm
import LiveTemplates.Proofs.Registry.Contents
import LiveTemplates.Proofs.Registry.Keeping
import LiveTemplates.Proofs.Watch.Straight
import LiveTemplates.Proofs.Watch.Unnumbered
import LiveTemplates.Proofs.Registry.Separation
import LiveTemplates.Proofs.Registry.Standing
import LiveTemplates.Proofs.Registry.Faithful
import LiveTemplates.Proofs.Service.Hosts
import LiveTemplates.Proofs.Service.Requests
import LiveTemplates.Proofs.Service.Observing
import LiveTemplates.Proofs.Files.Refusals
import LiveTemplates.Proofs.Registry.Outlook
import LiveTemplates.Proofs.Service.Responses
import LiveTemplates.Proofs.Service.Predicting
import LiveTemplates.Proofs.Files.Decoding
import LiveTemplates.Proofs.Files.Listed
import LiveTemplates.Proofs.Files.Listing
import LiveTemplates.Proofs.Registry.Naming
import LiveTemplates.Proofs.Comments.Segments
import LiveTemplates.Proofs.Comments.Places
import LiveTemplates.Proofs.Reading.Texts
import LiveTemplates.Proofs.Reading.Steps
import LiveTemplates.Proofs.Reading.Stops
import LiveTemplates.Proofs.Comments.Lexemes
import LiveTemplates.Proofs.Template.Outcomes
import LiveTemplates.Proofs.Comments.Faults
import LiveTemplates.Proofs.Template.Scalars
import LiveTemplates.Proofs.Reading.Scalars
import LiveTemplates.Proofs.Number.Overflow
import LiveTemplates.Proofs.Reading.Numerals
import LiveTemplates.Proofs.Reading.Origins
import LiveTemplates.Proofs.Template.Strictness
import LiveTemplates.Proofs.Registry.Provenance
import LiveTemplates.Proofs.Service.Serving
import LiveTemplates.Proofs.Reading.Limits
import LiveTemplates.Proofs.Watch.Documented
import LiveTemplates.Proofs.Template.Messages
import LiveTemplates.Proofs.Registry.Failing
import LiveTemplates.Proofs.Service.Failing
import LiveTemplates.Proofs.Files.Normal
import LiveTemplates.Proofs.Files.Overlong
import LiveTemplates.Proofs.Registry.Resolving
import LiveTemplates.Proofs.Watch.Effects
import LiveTemplates.Proofs.Watch.Foretelling
import LiveTemplates.Proofs.Service.Lookups
import LiveTemplates.Proofs.Comments.Unique
import LiveTemplates.Proofs.Template.Reads
import LiveTemplates.Proofs.Template.Issued
import LiveTemplates.Proofs.Number.Value
import LiveTemplates.Proofs.Template.Canonical
import LiveTemplates.Proofs.Template.Sameness
import LiveTemplates.Proofs.Reading.Repeats
import LiveTemplates.Proofs.Reading.Nesting
import LiveTemplates.Proofs.Reading.Verbatim
import LiveTemplates.Proofs.Writing.Respelling
import LiveTemplates.Proofs.Template.Discarded
import LiveTemplates.Proofs.Template.Room
import LiveTemplates.Proofs.Comments.Uncommented
import LiveTemplates.Proofs.Watch.Counting
