import LiveTemplates.Proofs.Watch.Reloading

/-!
# The straight way of a request

If a second look at a source shows what the first one has shown, a request that nothing disturbs
needs one look: it serves what is held if that is fresh, and otherwise compiles the resource as it
is. Apart from the events it is a function of the resource and the cache.
-/

namespace LiveTemplates

variable {R A M F S : Type}

namespace Source

def Settled (source : Source R M S) : Prop :=
  ∀ r, source.marker (source.marker r).2 = source.marker r

variable (source : Source R M S) (compile : Compiler A F)

def recompiling (live : M) (w : Watch R A M F) :
    Except (LoadFailure M F) (Artifact A) × Watch R A M F :=
  match source.recompiled compile w.resource with
  | .error e => (.error e, w)
  | .ok value =>
    (.ok ⟨w.compiled, value⟩, { w with
      cache := ⟨some ⟨⟨w.compiled, value⟩, live⟩, w.cache.compiles + 1⟩
      compiled := w.compiled + 1 })

/-- A request with one look at the marker. -/
def straight [Marking M] (w : Watch R A M F) :
    Except (LoadFailure M F) (Artifact A) × Watch R A M F :=
  match source.marker w.resource with
  | (.error reason, r) => (.error (source.unavailable r reason), { w with resource := r })
  | (.ok live, r) => { w with resource := r }.freshOr live (source.recompiling compile live)

variable {source compile} {w : Watch R A M F} {live : M} {r : R} {reason : Text}

variable (compile) in
/-- A reload tries to open a stream, and compiles the resource as it is at that time. -/
theorem reload_eq (live : M) (w : Watch R A M F) :
    ∃ log, .streamAsked ∈ log ∧
      reload source.access (compile.reading source.access.read) live w =
        ((source.recompiling compile live w).1,
          { (source.recompiling compile live w).2 with events := w.events ++ log }) := by
  unfold reload recompiling recompiled
  rw [Source.access_openStream]
  cases hopen : source.openStream w.resource with
  | error reason => exact ⟨[.streamAsked], by simp, by simp [Watch.note, hopen, Except.mapError]⟩
  | ok stream =>
    cases hread : source.read stream w.resource with
    | error reason =>
      exact ⟨[.streamAsked, .compilerCalled, .streamRead, .streamClosed], by simp, by
        simp [Watch.note, hopen, hread, Except.mapError, compileStream, Compiler.reading,
          Source.access]⟩
    | ok contents =>
      cases hcompile : compile contents with
      | error e =>
        exact ⟨[.streamAsked, .compilerCalled, .streamRead, .streamClosed], by simp, by
          simp [Watch.note, hopen, hread, hcompile, Except.mapError, compileStream,
            Compiler.reading, Source.access]⟩
      | ok value =>
        exact ⟨[.streamAsked, .compilerCalled, .streamRead, .compiled ⟨w.compiled, value⟩,
          .streamClosed, .held ⟨⟨w.compiled, value⟩, live⟩], by simp, by
            simp [Watch.note, Watch.register, Watch.hold, hopen, hread, hcompile, Except.mapError,
              compileStream, Compiler.reading, Source.access]⟩

/-- A compile finds a resource unavailable only when it opens it. -/
theorem recompiled_unavailable {e : Unavailable}
    (h : (source.recompiled compile r : Except (LoadFailure M F) A) = .error (.unavailable e)) :
    ∃ reason, source.openStream r = .error reason ∧ e = ⟨source.identity r, reason⟩ := by
  unfold recompiled at h
  split at h
  · rename_i reason hopen
    cases h
    exact ⟨reason, hopen, rfl⟩
  · split at h
    · cases h
    · rename_i contents _
      rcases hcompile : compile contents with (invalid | other) | value <;> rw [hcompile] at h <;>
        cases h

variable [Marking M]

theorem isOutdated_of_refusal (h : source.marker w.resource = (.error reason, r)) :
    isOutdated source.access w = (.error (source.unavailable r reason), { w with
      resource := r
      events := w.events ++ [.markerAsked] }) := by
  rw [isOutdated, liveMarker_of_refusal h, andThen_error]

theorem isOutdated_of_marker (h : source.marker w.resource = (.ok live, r)) :
    isOutdated source.access w =
      ((Snapshot.freshAt w.cache.held live).map Option.isNone, { w with
        resource := r
        events := w.events ++ [.markerAsked, .markerAnswered live] }) := by
  rw [isOutdated, Source.liveMarker_of_marker h, andThen_ok]
  cases Snapshot.freshAt (F := F) w.cache.held live <;> rfl

variable (source) in
/-- A check for staleness looks at the marker, and neither opens nor compiles anything. -/
theorem isOutdated_snd_eq (w : Watch R A M F) :
    ∃ log : List (Event A M F), .streamAsked ∉ log ∧ .compilerCalled ∉ log ∧
      (isOutdated source.access w).2 = { w with
        resource := (source.marker w.resource).2
        events := w.events ++ log } := by
  rcases hmarker : source.marker w.resource with ⟨reason | live, r⟩
  · exact ⟨[.markerAsked], by simp, by simp, by rw [isOutdated_of_refusal hmarker]⟩
  · exact ⟨[.markerAsked, .markerAnswered live], by simp, by simp, by
      rw [isOutdated_of_marker hmarker]⟩

/-- A request that finds what is held fresh looks at the marker once, and does nothing else. -/
theorem serve_of_fresh {compilation : Compilation R A M F S} {a : Artifact A}
    (h : source.marker w.resource = (.ok live, r))
    (hfresh : Snapshot.freshAt (F := F) w.cache.held live = .ok (some a)) :
    serve source.access compilation w = (.ok a, { w with
      resource := r
      events := w.events ++ [.markerAsked, .markerAnswered live] }) := by
  simp only [serve, Source.liveMarker_of_marker h, andThen_ok, Watch.freshOr, hfresh]

variable (compile) in
/-- A request that finds what is held stale, and the lock free, reloads. -/
theorem serve_of_stale (settled : source.Settled) (free : w.reloading = false)
    (h : source.marker w.resource = (.ok live, r))
    (hstale : Snapshot.freshAt (F := F) w.cache.held live = .ok none) :
    ∃ log, .streamAsked ∈ log ∧
      serve source.access (compile.reading source.access.read) w =
        ((source.recompiling compile live { w with resource := r }).1,
          { (source.recompiling compile live { w with resource := r }).2 with
            events := w.events ++ log }) := by
  have hsecond : source.marker r = (.ok live, r) := by
    have hsame := settled w.resource
    rwa [h] at hsame
  have hwanting : Wanting source.access w _ := ⟨live, Source.liveMarker_of_marker h, hstale⟩
  have hconfirmed : Confirmed source.access w live _ :=
    ⟨_, hwanting, free, Source.liveMarker_of_marker hsecond, hstale⟩
  rw [serve_of_confirmed hconfirmed]
  obtain ⟨log, hasked, hreload⟩ := reload_eq compile live _
  rw [hreload]
  refine ⟨[.markerAsked, .markerAnswered live, .markerAsked, .markerAnswered live] ++ log,
    List.mem_append_right _ hasked, ?_⟩
  cases hvalue : (source.recompiled compile r : Except (LoadFailure M F) A) <;>
    simp [recompiling, hvalue, Watch.unlocked, Watch.locked, free]

variable (compile) in
/-- A request that nothing disturbs goes the straight way. -/
theorem serve_eq_straight (settled : source.Settled) (free : w.reloading = false) :
    ∃ log, serve source.access (compile.reading source.access.read) w =
      ((source.straight compile w).1,
        { (source.straight compile w).2 with events := w.events ++ log }) := by
  rcases hmarker : source.marker w.resource with ⟨reason | live, r⟩
  · refine ⟨[.markerAsked], ?_⟩
    simp only [serve, straight, hmarker, liveMarker_of_refusal hmarker, andThen_error]
  · cases hfresh : Snapshot.freshAt (F := F) w.cache.held live with
    | error e =>
      refine ⟨[.markerAsked, .markerAnswered live], ?_⟩
      simp only [serve, straight, hmarker, Source.liveMarker_of_marker hmarker, andThen_ok,
        Watch.freshOr, hfresh]
    | ok fresh =>
      cases fresh with
      | some a =>
        refine ⟨[.markerAsked, .markerAnswered live], ?_⟩
        simp only [serve_of_fresh hmarker hfresh, straight, hmarker, Watch.freshOr, hfresh]
      | none =>
        obtain ⟨log, -, hserve⟩ := serve_of_stale compile settled free hmarker hfresh
        refine ⟨log, ?_⟩
        simp only [hserve, straight, hmarker, Watch.freshOr, hfresh]

/-- A request finds a resource unavailable when it looks at the marker or when it opens it. -/
theorem straight_unavailable {e : Unavailable}
    (h : (source.straight compile w).1 = .error (.unavailable e)) :
    ∃ reason, e = ⟨source.identity (source.marker w.resource).2, reason⟩ ∧
      ((source.marker w.resource).1 = .error reason ∨
        source.openStream (source.marker w.resource).2 = .error reason) := by
  unfold straight at h
  rcases hmarker : source.marker w.resource with ⟨reason | live, r⟩
  · rw [hmarker] at h
    cases h
    exact ⟨reason, rfl, .inl rfl⟩
  · rw [hmarker] at h
    simp only [Watch.freshOr] at h
    split at h
    · rename_i hfresh
      obtain ⟨s, -, -, rfl⟩ := Snapshot.freshAt_eq_error hfresh
      cases h
    · cases h
    · simp only [recompiling] at h
      split at h
      · rename_i hrecompiled
        cases h
        obtain ⟨reason, hopen, he⟩ := recompiled_unavailable hrecompiled
        exact ⟨reason, he, .inr hopen⟩
      · cases h

end Source

end LiveTemplates
