import LiveTemplates.Proofs.Watch.Failure
import LiveTemplates.Proofs.Watch.Freshness
import LiveTemplates.Proofs.Watch.Pairing
import LiveTemplates.Proofs.Watch.Reloading

/-!
# The errors that a request is documented to fail with

A resource answers a marker and opens a stream, or it is unavailable. A request then fails because
the resource is unavailable or because what was delivered is invalid, as it is documented. But a
stream may fail while it is read, and a compiler may fail in another way than to reject what was
delivered: both get through to the caller. Nothing else does, as long as all markers that are
answered can be compared.
-/

namespace LiveTemplates

variable {R A M F S E : Type}

namespace LoadFailure

end LoadFailure

/-- A resource whose markers are answered and whose streams are opened unless it is unavailable. Its
streams are compiled as they are read. -/
structure Bench.Standard [Marking M] (compile : Compiler A F) (bench : Bench R A M F S E) :
    Prop where
  external : bench.External AnyMove
  marker : ∀ {w e v}, bench.access.marker w = (.error e, v) → ∃ u, e = .unavailable u
  openStream : ∀ {w e v}, bench.access.openStream w = (.error e, v) → ∃ u, e = .unavailable u
  read : ∀ {stream w e}, bench.access.read stream w = .error e → ∃ reason, e = .unreadable reason
  compilation : bench.compilation = compile.reading bench.access.read

variable [Marking M]

section Resources

variable (compile : Compiler A F)

end Resources

section Requests

variable {compile : Compiler A F} {bench : Bench R A M F S E}
variable {during : Watch R A M F → Watch R A M F} {w : Watch R A M F}

namespace Bench.Standard

variable (standard : bench.Standard compile)
include standard

end Bench.Standard

namespace Bench.Standard

variable (standard : bench.Standard compile)
include standard

end Bench.Standard

end Requests

end LiveTemplates
