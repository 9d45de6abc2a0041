import LiveTemplates.Proofs.Registry.Failing
import LiveTemplates.Proofs.Service.Serving
import LiveTemplates.Proofs.Template.Messages
import LiveTemplates.Proofs.Template.Room
import LiveTemplates.Proofs.Watch.Documented

/-!
# What is told of failures

A template that cannot be read or does not compile is reported, and its request is answered. But
contents that exceed a limit of the reader, or for whose tree there is no room on the stack, are
neither rejected nor compiled. Their load fails without a report, and its failure is what the
request ends in.
-/

namespace LiveTemplates

namespace Service

variable {host : Host}

variable {site : Site Root} {get : Step} {name : Text} {path : Path}

def unreadable : Script Int :=
  { key := Text.ofString "a", cue := .answer 1, later := [], contents := [],
    readFault := some (Text.ofString "broken pipe") }

end Service

end LiveTemplates
