import LiveTemplates.Proofs.Watch.InPlace

/-!
# Requests that nothing disturbs

If nothing happens while a request is at work, it leaves its file where it is and as it is watched.
A request that fails leaves what is held, and one that holds nothing before either fails for want
of its file or has found it.
-/

namespace LiveTemplates

variable {A F : Type}

def FileMark.strategy : FileMark → Strategy
  | .modified => .modified
  | .generation _ => .digest

namespace Cache

variable {M : Type} {c c' : Cache A M}

def Advances (c c' : Cache A M) : Prop := c' = c ∨ c'.held.isSome ∧ c'.compiles = c.compiles + 1

theorem Advances.held (h : c.Advances c') (held : c.held.isSome) : c'.held.isSome := by
  rcases h with rfl | ⟨hheld, -⟩
  · exact held
  · exact hheld

def Counted (c : Cache A M) : Prop := c.held.isSome ↔ 0 < c.compiles

theorem Advances.counted (h : c.Advances c') (counted : c.Counted) : c'.Counted := by
  rcases h with rfl | ⟨hheld, hcompiles⟩
  · exact counted
  · exact iff_of_true hheld (by omega)

theorem Counted.eq_empty (h : c.Counted) (unheld : ¬ c.held.isSome) : c = {} := by
  have hcompiles : ¬ 0 < c.compiles := fun hcompiles => unheld (h.2 hcompiles)
  obtain ⟨held, compiles⟩ := c
  obtain rfl : held = none := Option.not_isSome_iff_eq_none.1 unheld
  obtain rfl : compiles = 0 := Nat.eq_zero_of_not_pos hcompiles
  rfl

end Cache

namespace WatchedFile

structure Stays (w w' : WatchedFile) : Prop where
  files : w'.files = w.files
  path : w'.file.path = w.file.path
  strategy : w'.file.mark.strategy = w.file.mark.strategy

theorem Stays.refl (w : WatchedFile) : w.Stays w := ⟨rfl, rfl, rfl⟩

theorem Stays.trans {w w' w'' : WatchedFile} (h : w.Stays w') (h' : w'.Stays w'') : w.Stays w'' :=
  ⟨h'.files.trans h.files, h'.path.trans h.path, h'.strategy.trans h.strategy⟩

theorem Stays.of_star {w w' : WatchedFile} (h : Relation.ReflTransGen Stays w w') : w.Stays w' := by
  induction h with
  | refl => exact .refl w
  | tail _ hstep ih => exact ih.trans hstep

theorem source_marker_stays (w : WatchedFile) : w.Stays (source.marker w).2 := by
  refine ⟨source_marker_files w, source_marker_path w, ?_⟩
  simp only [source, marker]
  split <;> split <;> simp_all [FileMark.strategy]

theorem access_marker_onlyMoves :
    OnlyMoves Stays (source.access : Access WatchedFile A Int F Nat).marker :=
  Source.marker_onlyMoves fun w => .single (source_marker_stays w)

theorem reading_extends (compile : Compiler A F) (stream : Nat) (w : Watch WatchedFile A Int F) :
    ∃ log, Extends Stays w (compile.reading source.access.read stream w).2 log :=
  (compile.reading_meanwhile source.access.read stream w).extends

section Requests

variable (compile : Compiler A F) (w : Watch WatchedFile A Int F)

/-- A request for what a compiler makes of a file. -/
abbrev request : Except (LoadFailure Int F) (Artifact A) × Watch WatchedFile A Int F :=
  serve source.access (compile.reading source.access.read) w

theorem request_stays : w.resource.Stays (request compile w).2.resource := by
  have hcourse := serve_course source.access (compile.reading source.access.read) w
  obtain ⟨log, hlog⟩ := hcourse.extends access_marker_onlyMoves.extends
    Source.openStream_onlyMoves (reading_extends compile)
  exact .of_star hlog.resource

variable {w} in
theorem liveMarker_cache {live : Int} {v : Watch WatchedFile A Int F}
    (h : liveMarker source.access w = (.ok live, v)) :
    v.cache = w.cache ∧ v.reloading = w.reloading := by
  obtain ⟨log, hidle⟩ := liveMarker_idle access_marker_onlyMoves w
  rw [h] at hidle
  exact ⟨hidle.cache, hidle.reloading⟩

theorem request_idle_or_held :
    (∃ log, Idle Stays w (request compile w).2 log) ∨
      ∃ snapshot, (request compile w).1 = .ok snapshot.artifact ∧
        (request compile w).2.cache = ⟨some snapshot, w.cache.compiles + 1⟩ := by
  have hserve := serve_idle_or_compiled access_marker_onlyMoves Source.openStream_onlyMoves
    (reading_extends compile) w
  rcases hserve with hidle | ⟨live, value, u, hcompiled, -⟩
  · exact .inl hidle
  · rw [request, serve_of_compiled hcompiled]
    obtain ⟨stream, w₃, hopened, hvalue⟩ := hcompiled
    obtain ⟨w₁, second, during, ⟨⟨first, hfirst, -⟩, -, -, -⟩, -, hidle⟩ :=
      compilation_idle access_marker_onlyMoves.extends Source.openStream_onlyMoves
        (reading_extends compile) hopened hvalue
    have hcache : u.cache = w.cache := hidle.cache.trans (liveMarker_cache hfirst).1
    exact .inr ⟨⟨⟨u.compiled, value⟩, live⟩, rfl, by rw [Watch.swap, hcache]⟩

theorem isOutdated_idle : ∃ log, Idle Stays w (isOutdated source.access w).2 log := by
  rw [isOutdated_snd]
  exact liveMarker_idle access_marker_onlyMoves w

variable {compile w}

theorem request_advances : w.cache.Advances (request compile w).2.cache := by
  rcases request_idle_or_held compile w with ⟨log, hidle⟩ | ⟨snapshot, -, hcache⟩
  · exact .inl hidle.cache
  · rw [hcache]
    exact .inr ⟨rfl, rfl⟩

theorem request_cache_of_error {e : LoadFailure Int F} (h : (request compile w).1 = .error e) :
    (request compile w).2.cache = w.cache := by
  rcases request_idle_or_held compile w with ⟨log, hidle⟩ | ⟨snapshot, hok, -⟩
  · exact hidle.cache
  · rw [hok] at h
    cases h

theorem access_marker_eq_error {v : Watch WatchedFile A Int F} {e : LoadFailure Int F}
    (h : source.access.marker w = (.error e, v)) : ∃ u, e = .unavailable u := by
  rw [Source.access_marker, Prod.mk.injEq] at h
  cases hmarker : (source.marker w.resource).1 with
  | error reason =>
    rw [hmarker] at h
    exact ⟨_, (Except.error.inj h.1).symm⟩
  | ok live =>
    rw [hmarker] at h
    cases h.1

theorem access_openStream_eq_error {v : Watch WatchedFile A Int F} {e : LoadFailure Int F}
    (h : source.access.openStream w = (.error e, v)) : ∃ u, e = .unavailable u := by
  rw [Source.access_openStream, Prod.mk.injEq] at h
  cases hopen : source.openStream w.resource with
  | error reason =>
    rw [hopen] at h
    exact ⟨_, (Except.error.inj h.1).symm⟩
  | ok stream =>
    rw [hopen] at h
    cases h.1

theorem isFile_of_opened {live : Int} {stream : Nat} {v : Watch WatchedFile A Int F}
    (h : Opened source.access w live stream v) :
    w.resource.files.isFile w.resource.file.path = .ok true := by
  obtain ⟨w₂, ⟨w₁, ⟨first, hfirst, -⟩, -, hlive, -⟩, hopen⟩ := h
  have hstays : w.resource.Stays w₂.resource := by
    have h₁ := source_marker_stays w.resource
    have h₂ := source_marker_stays w₁.resource
    rw [Source.liveMarker_eq_ok hfirst] at h₁
    have hsecond : source.marker w₁.resource = (.ok live, w₂.resource) :=
      Source.liveMarker_eq_ok (w := w₁.locked) hlive
    rw [hsecond] at h₂
    exact h₁.trans h₂
  have hlookup := lookup_of_openStream (Source.access_openStream_eq_ok hopen).1
  rw [Watch.note, hstays.files, hstays.path] at hlookup
  simp only [FileSystem.isFile, FileSystem.find?, hlookup]

/-- Where nothing is held, a request that does not fail for want of its file has found it. -/
theorem unavailable_or_isFile (unheld : w.cache.held = none) (free : w.reloading = false) :
    (∃ e, (request compile w).1 = .error (.unavailable e)) ∨
      w.resource.files.isFile w.resource.file.path = .ok true := by
  have hcourse : Course source.access (compile.reading source.access.read) w (request compile w) :=
    serve_course _ _ w
  have comparable (held : Option (Snapshot A Int)) (live : Int) (e : LoadFailure Int F) :
      Snapshot.freshAt held live ≠ .error e := by
    intro h
    obtain ⟨s, -, hold, -⟩ := Snapshot.freshAt_eq_error h
    cases hold
  rcases hrequest : request compile w with ⟨outcome, w'⟩
  rw [hrequest] at hcourse
  cases hcourse with
  | failed h =>
    cases h with
    | firstMarker hm => exact .inl ((access_marker_eq_error hm).imp fun _ => congrArg _)
    | firstComparison _ hs => exact (comparable _ _ _ hs).elim
    | secondMarker _ _ hm => exact .inl ((access_marker_eq_error hm).imp fun _ => congrArg _)
    | secondComparison _ _ _ hs => exact (comparable _ _ _ hs).elim
    | opening _ ho => exact .inl ((access_openStream_eq_error ho).imp fun _ => congrArg _)
    | compilation hopened _ => exact .inr (isFile_of_opened hopened)
  | busy h locked =>
    obtain ⟨live, hlive, -⟩ := h
    rw [(liveMarker_cache hlive).2, free] at locked
    cases locked
  | fresh hlive hfresh =>
    obtain ⟨s, hheld, -⟩ := Snapshot.freshAt_eq_some hfresh
    rw [(liveMarker_cache hlive).1, unheld] at hheld
    cases hheld
  | overtaken h _ hlive hfresh =>
    obtain ⟨first, hfirst, -⟩ := h
    obtain ⟨s, hheld, -⟩ := Snapshot.freshAt_eq_some hfresh
    rw [(liveMarker_cache hlive).1, Watch.locked, (liveMarker_cache hfirst).1, unheld] at hheld
    cases hheld
  | reloaded h =>
    obtain ⟨stream, w₃, hopened, -⟩ := h
    exact .inr (isFile_of_opened hopened)

end Requests

end WatchedFile

end LiveTemplates
