import LiveTemplates.Watch.Cache

/-!
# Sources

A source describes the resources of one kind: how the marker of a state is read, which may change
the state, and how a stream is opened and read. Its failures are reasons, to which the identity of
the resource is added.
-/

namespace LiveTemplates

structure Source (R M S : Type) where
  identity : R → Text
  marker : R → Except Text M × R
  openStream : R → Except Text S
  read : S → R → Except Text Bytes

namespace Source

variable {R A M F S : Type}

def unavailable (source : Source R M S) (resource : R) (reason : Text) : LoadFailure M F :=
  .unavailable ⟨source.identity resource, reason⟩

def access (source : Source R M S) : Access R A M F S where
  marker w :=
    match source.marker w.resource with
    | (.ok m, resource) => (.ok m, { w with resource })
    | (.error reason, resource) =>
      (.error (source.unavailable resource reason), { w with resource })
  openStream w :=
    match source.openStream w.resource with
    | .ok stream => (.ok stream, w)
    | .error reason => (.error (source.unavailable w.resource reason), w)
  read stream w :=
    match source.read stream w.resource with
    | .ok contents => .ok contents
    | .error reason => .error (.unreadable reason)

end Source

end LiveTemplates
