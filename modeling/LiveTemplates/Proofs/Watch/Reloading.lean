import LiveTemplates.Proofs.Watch.External

/-!
# Requests to sources

A source is reached through the operations of its cache alone. A reload thus reads the marker
twice, and compiles what its stream holds after all that happens meanwhile. A request that nothing
disturbs serves what is held if it is fresh, and otherwise what the compiler makes of the resource.
-/

namespace LiveTemplates

variable {R A M F S : Type} {moves : R → R → Prop}

section Requests

variable {access : Access R A M F S} {compilation : Compilation R A M F S}
variable (hm : OnlyMoves moves access.marker)

include hm

theorem marker_idle {outcome : Except (LoadFailure M F) M} {w w' : Watch R A M F}
    (h : access.marker (w.note .markerAsked) = (outcome, w')) :
    Idle moves w w' [.markerAsked] := by
  obtain ⟨r, hr, heq⟩ := hm (w.note .markerAsked)
  rw [h] at heq
  subst heq
  exact (Idle.note w .markerAsked rfl rfl).trans (.moved _ hr)

theorem liveMarker_idle (w : Watch R A M F) : ∃ log, Idle moves w (liveMarker access w).2 log := by
  rcases hlive : liveMarker access w with ⟨e | live, v⟩
  · exact ⟨_, marker_idle hm (liveMarker_eq_error hlive)⟩
  · obtain ⟨u, hu, rfl⟩ := liveMarker_eq_ok hlive
    exact ⟨_, (marker_idle hm hu).trans (.note u (.markerAnswered live) rfl rfl)⟩

omit hm in
theorem readContents_idle (ho : OnlyMoves moves access.openStream) (w : Watch R A M F) :
    ∃ log, Idle moves w (readContents access w).2 log := by
  have hasked : Idle moves w (w.note .streamAsked) [.streamAsked] := .note w .streamAsked rfl rfl
  obtain ⟨r, hr, heq⟩ := ho (w.note .streamAsked)
  have hopened := hasked.trans (.moved _ hr)
  rw [← heq] at hopened
  rcases readContents_snd access w with hread | hread <;> rw [hread]
  · exact ⟨_, hopened⟩
  · exact ⟨_, (hopened.trans (.note _ .streamRead rfl rfl)).trans (.note _ .streamClosed rfl rfl)⟩

variable [Marking M]

theorem OnlyMoves.extends (w : Watch R A M F) : ∃ log, Extends moves w (access.marker w).2 log := by
  obtain ⟨r, hr, heq⟩ := hm w
  rw [heq]
  exact (Meanwhile.moved hr (.refl w)).extends

/-- If nobody else is served while markers are read, a request holds something only by a reload of
its own. -/
theorem serve_idle_or_compiled (ho : OnlyMoves moves access.openStream)
    (hc : ∀ stream v, ∃ log, Extends moves v (compilation stream v).2 log) (w : Watch R A M F) :
    (∃ log, Idle moves w (serve access compilation w).2 log) ∨
      ∃ live value u, Compiled access compilation w live value u ∧
        (serve access compilation w).2 = u.swap live value := by
  have hext := OnlyMoves.extends hm
  have first := marker_idle hm (w := w) rfl
  rcases hserve : serve access compilation w with ⟨outcome, w'⟩
  have hcourse := serve_course access compilation w
  rw [hserve] at hcourse
  cases hcourse with
  | failed h =>
    obtain ⟨own, hown, -⟩ := h.idle hext ho hc
    exact .inl ⟨_, first.trans hown⟩
  | busy h locked =>
    obtain ⟨live, hlive, -⟩ := h
    have hidle := liveMarker_idle hm w
    rw [hlive] at hidle
    exact .inl hidle
  | fresh hlive hfresh =>
    have hidle := liveMarker_idle hm w
    rw [hlive] at hidle
    exact .inl hidle
  | overtaken h free hlive hfresh =>
    obtain ⟨second, -, hidle⟩ := locked_liveMarker_idle hext hlive
    obtain ⟨own, hown, -⟩ := h.idle free hidle
    exact .inl ⟨_, first.trans hown⟩
  | reloaded h => exact .inr ⟨_, _, _, h, rfl⟩

end Requests

theorem mapError_eq_ok {α ε ε' : Type} {x : Except ε α} {f : ε → ε'} {a : α} :
    x.mapError f = .ok a ↔ x = .ok a := by
  cases x <;> simp [Except.mapError]

theorem toOption_eq_some {α ε : Type} {x : Except ε α} {a : α} :
    x.toOption = some a ↔ x = .ok a := by
  cases x <;> simp [Except.toOption]

section Sources

variable {source : Source R M S} {compile : Compiler A F}

/-- A reload that looks at `r` under the lock finds the marker `live` and leaves the resource at
`r'`, where it has read its stream and compiled `value`. -/
def Source.Reloads (source : Source R M S) (compile : Compiler A F) (moves : R → R → Prop) (r : R)
    (live : M) (value : A) (r' : R) : Prop :=
  ∃ opened stream contents, source.marker r = (.ok live, opened) ∧
    source.openStream opened = .ok stream ∧ Relation.ReflTransGen moves opened r' ∧
    source.read stream r' = .ok contents ∧ compile contents = .ok value

def Source.recompiled (source : Source R M S) (compile : Compiler A F) (r : R) :
    Except (LoadFailure M F) A :=
  match source.openStream r with
  | .error reason => .error (source.unavailable r reason)
  | .ok stream =>
    match source.read stream r with
    | .error reason => .error (.unreadable reason)
    | .ok contents => (compile contents).mapError CompileFailure.toLoad

theorem Source.recompiled_eq_ok {r : R} {value : A}
    (h : (source.recompiled compile r : Except (LoadFailure M F) A) = .ok value) :
    ∃ stream contents, source.openStream r = .ok stream ∧ source.read stream r = .ok contents ∧
      compile contents = .ok value := by
  unfold Source.recompiled at h
  split at h
  · cases h
  · rename_i stream hopen
    split at h
    · cases h
    · rename_i contents hread
      exact ⟨stream, contents, hopen, hread, mapError_eq_ok.1 h⟩

theorem Source.marker_onlyMoves (hmarker : ∀ r, Relation.ReflTransGen moves r (source.marker r).2) :
    OnlyMoves moves (source.access (A := A) (F := F)).marker := by
  intro w
  exact ⟨_, hmarker w.resource, by rw [Source.access_marker]⟩

theorem Source.openStream_onlyMoves :
    OnlyMoves moves (source.access (A := A) (F := F)).openStream := by
  intro w
  exact ⟨w.resource, .refl, by rw [Source.access_openStream]⟩

theorem Source.access_marker_eq_ok {w v : Watch R A M F} {live : M}
    (h : source.access.marker w = (.ok live, v)) :
    ∃ r, source.marker w.resource = (.ok live, r) ∧ v = { w with resource := r } := by
  rw [Source.access_marker, Prod.mk.injEq, mapError_eq_ok] at h
  obtain ⟨hlive, rfl⟩ := h
  exact ⟨_, Prod.ext hlive rfl, rfl⟩

theorem Source.liveMarker_eq_ok {w v : Watch R A M F} {live : M}
    (h : liveMarker source.access w = (.ok live, v)) :
    source.marker w.resource = (.ok live, v.resource) := by
  obtain ⟨u, hu, rfl⟩ := LiveTemplates.liveMarker_eq_ok h
  obtain ⟨r, hr, rfl⟩ := Source.access_marker_eq_ok hu
  exact hr

theorem Source.access_openStream_eq_ok {w v : Watch R A M F} {stream : S}
    (h : source.access.openStream w = (.ok stream, v)) :
    source.openStream w.resource = .ok stream ∧ v = w := by
  rw [Source.access_openStream, Prod.mk.injEq, mapError_eq_ok] at h
  exact ⟨h.1, h.2.symm⟩

theorem Source.reading_eq_ok {w v : Watch R A M F} {stream : S} {value : A}
    (h : compile.reading source.access.read stream w = (.ok value, v)) :
    ∃ contents, source.read stream w.resource = .ok contents ∧ compile contents = .ok value ∧
      v.resource = w.resource := by
  have hv : (compile.reading source.access.read stream w).2 = v := congrArg Prod.snd h
  rw [Compiler.reading_snd] at hv
  have hvalue := congrArg Prod.fst h
  simp only [Compiler.reading, Source.access, Watch.note] at hvalue
  cases hread : source.read stream w.resource with
  | error reason => simp [hread] at hvalue
  | ok contents =>
    simp only [hread, mapError_eq_ok] at hvalue
    exact ⟨contents, rfl, hvalue, by rw [← hv]; rfl⟩

theorem Source.liveMarker_of_refusal {w : Watch R A M F} {reason : Text} {r : R}
    (h : source.marker w.resource = (.error reason, r)) :
    liveMarker source.access w = (.error (source.unavailable r reason), { w with
      resource := r
      events := w.events ++ [.markerAsked] }) := by
  simp [liveMarker, Source.access_marker, Except.mapError, Watch.note, h]

theorem Source.liveMarker_of_marker {w : Watch R A M F} {live : M} {r : R}
    (h : source.marker w.resource = (.ok live, r)) :
    liveMarker source.access w = (.ok live, { w with
      resource := r
      events := w.events ++ [.markerAsked, .markerAnswered live] }) := by
  simp [liveMarker, Source.access_marker, Except.mapError, Watch.note, h]

/-- A reload gives what the compiler makes of the resource as it is when the stream is opened. -/
theorem Source.reload_fst (live : M) (w : Watch R A M F) :
    (reload source.access (compile.reading source.access.read) live w).1.map (·.value) =
      source.recompiled compile w.resource := by
  unfold reload Source.recompiled
  rw [Source.access_openStream]
  cases hopen : source.openStream w.resource with
  | error reason => simp [Watch.note, hopen, Except.mapError, Except.map]
  | ok stream =>
    cases hread : source.read stream w.resource with
    | error reason =>
      simp [Watch.note, hopen, hread, Except.mapError, Except.map, compileStream,
        Compiler.reading, Source.access]
    | ok contents =>
      cases hcompile : compile contents <;>
        simp [Watch.note, Watch.register, hopen, hread, hcompile, Except.mapError, Except.map,
          compileStream, Compiler.reading, Source.access]

variable [Marking M]

/-- A reload compiles what its stream holds after all that happens while the compiler waits. -/
theorem Compiled.of_stream {during : Watch R A M F → Watch R A M F} {w u : Watch R A M F}
    {live : M} {value : A}
    (h : Compiled source.access ((compile.reading source.access.read).after during)
      w live value u) :
    ∃ stream v contents, Opened source.access w live stream v ∧
      source.marker (source.marker w.resource).2 = (.ok live, v.resource) ∧
      source.openStream v.resource = .ok stream ∧
      source.read stream (during (v.note .compilerCalled)).resource = .ok contents ∧
      compile contents = .ok value ∧ u.resource = (during (v.note .compilerCalled)).resource := by
  obtain ⟨stream, v, hopened, hcompile⟩ := h
  obtain ⟨w₂, ⟨w₁, ⟨first, hfirst, -⟩, -, hlive, -⟩, hopen⟩ := id hopened
  obtain ⟨hstream, rfl⟩ := Source.access_openStream_eq_ok hopen
  obtain ⟨contents, hread, hvalue, hu⟩ := Source.reading_eq_ok hcompile
  have hsecond := Source.liveMarker_eq_ok hlive
  rw [Source.liveMarker_eq_ok hfirst]
  exact ⟨stream, _, contents, hopened, hsecond, hstream, hread, hvalue, hu⟩

theorem Compiled.reloads {during : Watch R A M F → Watch R A M F}
    (hduring : ∀ w, Meanwhile moves w (during w)) {w u : Watch R A M F} {live : M} {value : A}
    (h : Compiled source.access ((compile.reading source.access.read).after during)
      w live value u) :
    source.Reloads compile moves (source.marker w.resource).2 live value u.resource := by
  obtain ⟨stream, v, contents, -, hmarker, hstream, hread, hvalue, hu⟩ := h.of_stream
  obtain ⟨log, hlog⟩ := (hduring (v.note .compilerCalled)).extends
  rw [hu]
  exact ⟨v.resource, stream, contents, hmarker, hstream, hlog.resource, hread, hvalue⟩

/-- A request that finds its source settled, and the lock free, serves what is held if it is fresh,
and recompiles else. -/
theorem Source.serve_settled {w : Watch R A M F} {live : M} {r : R} (free : w.reloading = false)
    (hfirst : source.marker w.resource = (.ok live, r))
    (hsecond : source.marker r = (.ok live, r)) :
    (serve source.access (compile.reading source.access.read) w).1.map (·.value) =
      match Snapshot.freshAt w.cache.held live with
      | .error e => .error e
      | .ok (some a) => .ok a.value
      | .ok none => source.recompiled compile r := by
  have hlive := Source.liveMarker_of_marker hfirst
  cases hfresh : Snapshot.freshAt (F := F) w.cache.held live with
  | error e => simp only [serve, hlive, andThen_ok, Watch.freshOr, hfresh, Except.map]
  | ok held =>
    cases held with
    | some a => simp only [serve, hlive, andThen_ok, Watch.freshOr, hfresh, Except.map]
    | none =>
      have hwanting : Wanting source.access w _ := ⟨live, hlive, hfresh⟩
      have hconfirmed : Confirmed source.access w live _ :=
        ⟨_, hwanting, free, Source.liveMarker_of_marker hsecond, hfresh⟩
      rw [serve_of_confirmed hconfirmed]
      exact Source.reload_fst live _

theorem Source.serve_of_refusal {compilation : Compilation R A M F S} {w : Watch R A M F}
    {reason : Text} {r : R} (h : source.marker w.resource = (.error reason, r)) :
    serve source.access compilation w = (.error (source.unavailable r reason), { w with
      resource := r
      events := w.events ++ [.markerAsked] }) := by
  simp only [serve, liveMarker_of_refusal h, andThen_error]

end Sources

end LiveTemplates
