import LiveTemplates.Proofs.Watch.Digest
import LiveTemplates.Proofs.Watch.Undisturbed

/-!
# Caches in step

Two caches watch one file, and one of them may have looked at it before. Once both have seen the
same contents, their generations differ by an offset that does not change any more, and so do the
markers of what they hold. No comparison tells them apart, so they answer alike.
-/

namespace LiveTemplates

variable {A F : Type}

inductive InStep {ε α β σ τ : Type} (agree : α → β → Prop) (related : σ → τ → Prop) :
    Except ε α × σ → Except ε β × τ → Prop
  | ok {a : α} {b : β} {s : σ} {t : τ} :
    agree a b → related s t → InStep agree related (.ok a, s) (.ok b, t)
  | error {e : ε} {s : σ} {t : τ} :
    related s t → InStep agree related (.error e, s) (.error e, t)

section Steps

variable {ε α β γ δ σ τ : Type} {agree : α → β → Prop} {agree' : γ → δ → Prop}
variable {related : σ → τ → Prop} {x : Except ε α × σ} {y : Except ε β × τ}

theorem InStep.andThen {next : α → σ → Except ε γ × σ} {next' : β → τ → Except ε δ × τ}
    (h : InStep agree related x y)
    (hnext : ∀ a b s t, agree a b → related s t → InStep agree' related (next a s) (next' b t)) :
    InStep agree' related (LiveTemplates.andThen x next) (LiveTemplates.andThen y next') := by
  cases h with
  | ok hagree hrelated => exact hnext _ _ _ _ hagree hrelated
  | error hrelated => exact .error hrelated

theorem InStep.state (h : InStep agree related x y) : related x.2 y.2 := by
  cases h with
  | ok _ hrelated => exact hrelated
  | error hrelated => exact hrelated

theorem InStep.answer {x : Except ε α × σ} {y : Except ε α × τ} (h : InStep Eq related x y) :
    x.1 = y.1 := by
  cases h with
  | ok hagree _ => rw [hagree]
  | error _ => rfl

end Steps

/-- Marks that differ by an offset and have seen the same contents last. -/
def FileMark.Offset (d : Int) : FileMark → FileMark → Prop
  | .modified, .modified => d = 0
  | .generation g, .generation g' => g'.last = g.last ∧ (g'.count : Int) = g.count + d
  | _, _ => False

theorem FileMark.Offset.eq_zero {d : Int} {m m' : FileMark} (h : m.Offset d m')
    (hm : m.strategy = .modified) : d = 0 := by
  cases m with
  | generation => cases hm
  | modified =>
    cases m' with
    | generation => exact h.elim
    | modified => exact h

def Cache.offset (d : Int) (c : Cache A Int) : Cache A Int :=
  ⟨c.held.map fun s => ⟨s.artifact, s.marker + d⟩, c.compiles⟩

theorem Generation.see_offset {g g' : Generation} {d : Int} (bytes : Bytes)
    (hlast : g'.last = g.last) (hcount : (g'.count : Int) = g.count + d) :
    (FileMark.generation (g.see bytes)).Offset d (.generation (g'.see bytes)) := by
  unfold Generation.see
  dsimp only
  rw [hlast]
  split
  · exact ⟨hlast, hcount⟩
  · exact ⟨rfl, by push_cast; omega⟩

namespace WatchedFile

structure Offset (d : Int) (w w' : WatchedFile) : Prop where
  files : w'.files = w.files
  path : w'.file.path = w.file.path
  mark : w.file.mark.Offset d w'.file.mark

def Shifted (d m m' : Int) : Prop := m' = m + d

theorem marker_inStep {d : Int} {w w' : WatchedFile} (h : w.Offset d w') :
    InStep (Shifted d) (Offset d) (source.marker w) (source.marker w') := by
  obtain ⟨⟨path, mark⟩, files⟩ := w
  obtain ⟨⟨path', mark'⟩, files'⟩ := w'
  obtain ⟨rfl, rfl, hmark⟩ := h
  dsimp only at hmark
  cases mark with
  | modified =>
    cases mark' with
    | generation => exact hmark.elim
    | modified =>
      obtain rfl : d = 0 := hmark
      simp only [source, marker]
      split
      · exact .error ⟨rfl, rfl, rfl⟩
      · exact .ok (Int.add_zero _).symm ⟨rfl, rfl, rfl⟩
  | generation g =>
    cases mark' with
    | modified => exact hmark.elim
    | generation g' =>
      simp only [source, marker]
      split
      · exact .error ⟨rfl, rfl, hmark⟩
      · rename_i bytes _
        have hsee := Generation.see_offset bytes hmark.1 hmark.2
        exact .ok hsee.2 ⟨rfl, rfl, hsee⟩

/-- The first contents that both caches see settle the offset. -/
theorem marker_settles {w w' : WatchedFile} (h : w.Stays w') :
    (∃ reason, source.marker w = (.error reason, w) ∧ source.marker w' = (.error reason, w')) ∨
      ∃ d, InStep (Shifted d) (Offset d) (source.marker w) (source.marker w') := by
  obtain ⟨⟨path, mark⟩, files⟩ := w
  obtain ⟨⟨path', mark'⟩, files'⟩ := w'
  obtain ⟨rfl, rfl, hstrategy⟩ := h
  dsimp only at hstrategy
  cases mark with
  | modified =>
    cases mark' with
    | generation => cases hstrategy
    | modified => exact .inr ⟨0, marker_inStep ⟨rfl, rfl, rfl⟩⟩
  | generation g =>
    cases mark' with
    | modified => cases hstrategy
    | generation g' =>
      cases hcontents : files'.contents path' with
      | error refusal => exact .inl ⟨refusal.reason, by simp [source, marker, hcontents]⟩
      | ok bytes =>
        refine .inr ⟨(g'.see bytes).count - (g.see bytes).count, ?_⟩
        simp only [source, marker, hcontents]
        have hlast : (g'.see bytes).last = (g.see bytes).last := by
          rw [Generation.see_last, Generation.see_last]
        have hcount : ((g'.see bytes).count : Int) =
            (g.see bytes).count + ((g'.see bytes).count - (g.see bytes).count) := by omega
        exact .ok hcount ⟨rfl, rfl, hlast, hcount⟩

end WatchedFile

structure Watch.Offset (d : Int) (w w' : Watch WatchedFile A Int F) : Prop where
  resource : w.resource.Offset d w'.resource
  cache : w'.cache = w.cache.offset d
  reloading : w'.reloading = w.reloading
  compiled : w'.compiled = w.compiled

namespace WatchedFile

variable {compile : Compiler A F} {d m m' : Int} {w w' : Watch WatchedFile A Int F}

theorem note_offset (h : w.Offset d w') (e e' : Event A Int F) : (w.note e).Offset d (w'.note e') :=
  ⟨h.resource, h.cache, h.reloading, h.compiled⟩

theorem freshAt_offset (c : Cache A Int) (d live : Int) :
    Snapshot.freshAt (F := F) (c.offset d).held (live + d) = Snapshot.freshAt c.held live := by
  cases hheld : c.held with
  | none => simp [Cache.offset, Snapshot.freshAt, hheld]
  | some s => by_cases hold : s.marker < live <;> simp [Cache.offset, Snapshot.freshAt, hheld, hold]

theorem unavailable_offset {r r' : WatchedFile} (h : r'.file.path = r.file.path) (reason : Text) :
    source.unavailable r' reason = (source.unavailable r reason : LoadFailure Int F) := by
  simp only [Source.unavailable, source, h]

theorem liveMarker_inStep
    (hmarker : InStep (Shifted d) (Offset d) (source.marker w.resource)
      (source.marker w'.resource))
    (hcache : w'.cache = w.cache.offset d) (hreloading : w'.reloading = w.reloading)
    (hcompiled : w'.compiled = w.compiled) :
    InStep (Shifted d) (Watch.Offset d) (liveMarker source.access w)
      (liveMarker source.access w') := by
  simp only [liveMarker, Source.access_marker, Watch.note]
  generalize source.marker w.resource = x at hmarker ⊢
  generalize source.marker w'.resource = y at hmarker ⊢
  cases hmarker with
  | ok hshifted hr => exact .ok hshifted ⟨hr, hcache, hreloading, hcompiled⟩
  | error hr =>
    simp only [Except.mapError, andThen_error, unavailable_offset hr.path]
    exact .error ⟨hr, hcache, hreloading, hcompiled⟩

theorem openStream_inStep (h : w.Offset d w') :
    InStep Eq (Watch.Offset d) (source.access.openStream w) (source.access.openStream w') := by
  have hopen : source.openStream w'.resource = source.openStream w.resource := by
    simp only [source, openStream, h.resource.files, h.resource.path]
  rw [Source.access_openStream, Source.access_openStream, hopen]
  cases source.openStream w.resource with
  | ok stream => exact .ok rfl h
  | error reason =>
    simp only [Except.mapError, unavailable_offset h.resource.path]
    exact .error h

theorem reading_inStep (h : w.Offset d w') (stream : Nat) :
    InStep Eq (Watch.Offset d) (compile.reading source.access.read stream w)
      (compile.reading source.access.read stream w') := by
  simp only [Compiler.reading, Source.access, source, Watch.note, h.resource.files]
  cases compile (w.resource.files.storedAt stream).contents with
  | error e => exact .error (note_offset h _ _)
  | ok value => exact .ok rfl (note_offset h _ _)

variable (compile) in
theorem compileStream_inStep (h : w.Offset d w') (stream : Nat) :
    InStep Eq (Watch.Offset d) (compileStream (compile.reading source.access.read) stream w)
      (compileStream (compile.reading source.access.read) stream w') := by
  refine (reading_inStep (note_offset h _ _) stream).andThen fun value _ v v' hvalue hv => ?_
  subst hvalue
  simp only [Watch.register, hv.compiled]
  exact .ok rfl ⟨hv.resource, hv.cache, hv.reloading, rfl⟩

theorem hold_offset (h : w.Offset d w') (hm : Shifted d m m') (artifact : Artifact A) :
    (w.hold ⟨artifact, m⟩).Offset d (w'.hold ⟨artifact, m'⟩) := by
  refine ⟨h.resource, ?_, h.reloading, h.compiled⟩
  have hcompiles : w'.cache.compiles = w.cache.compiles := by rw [h.cache, Cache.offset]
  simp only [Watch.hold, Cache.offset, hcompiles, Option.map_some]
  rw [hm]

theorem reload_inStep (h : w.Offset d w') (hm : Shifted d m m') :
    InStep Eq (Watch.Offset d) (reload source.access (compile.reading source.access.read) m w)
      (reload source.access (compile.reading source.access.read) m' w') := by
  refine (openStream_inStep (note_offset h _ _)).andThen fun stream _ v v' hstream hv => ?_
  subst hstream
  have hcompiled := compileStream_inStep compile hv stream
  dsimp only
  generalize compileStream (compile.reading source.access.read) stream v = x at hcompiled ⊢
  generalize compileStream (compile.reading source.access.read) stream v' = y at hcompiled ⊢
  cases hcompiled with
  | error hu => exact .error (note_offset hu _ _)
  | ok hartifact hu =>
    subst hartifact
    exact .ok rfl (hold_offset (note_offset hu _ _) hm _)

theorem freshOr_inStep (h : w.Offset d w') (hm : Shifted d m m')
    {next next' : Watch WatchedFile A Int F →
      Except (LoadFailure Int F) (Artifact A) × Watch WatchedFile A Int F}
    (hnext : InStep Eq (Watch.Offset d) (next w) (next' w')) :
    InStep Eq (Watch.Offset d) (w.freshOr m next) (w'.freshOr m' next') := by
  have hfresh : Snapshot.freshAt (F := F) w'.cache.held m' = Snapshot.freshAt w.cache.held m := by
    rw [h.cache, hm, freshAt_offset]
  simp only [Watch.freshOr, hfresh]
  split
  · exact .error h
  · exact .ok rfl h
  · exact hnext

theorem exclusively_inStep {α : Type} (h : w.Offset d w')
    {step : Watch WatchedFile A Int F → Except (LoadFailure Int F) α × Watch WatchedFile A Int F}
    (hstep : InStep Eq (Watch.Offset d) (step w.locked) (step w'.locked)) :
    InStep Eq (Watch.Offset d) (w.exclusively step) (w'.exclusively step) := by
  cases free : w.reloading with
  | true =>
    have free' : w'.reloading = true := h.reloading.trans free
    simp only [Watch.exclusively, free, free', ↓reduceIte]
    exact .error h
  | false =>
    rw [Watch.exclusively_of_free free, Watch.exclusively_of_free (h.reloading.trans free)]
    generalize step w.locked = x at hstep ⊢
    generalize step w'.locked = y at hstep ⊢
    cases hstep with
    | ok hagree hv => exact .ok hagree ⟨hv.resource, hv.cache, rfl, hv.compiled⟩
    | error hv => exact .error ⟨hv.resource, hv.cache, rfl, hv.compiled⟩

theorem request_inStep
    (hmarker : InStep (Shifted d) (Watch.Offset d) (liveMarker source.access w)
      (liveMarker source.access w')) :
    InStep Eq (Watch.Offset d) (request compile w) (request compile w') := by
  refine hmarker.andThen fun m m' v v' hm hv => ?_
  refine freshOr_inStep hv hm (exclusively_inStep hv ?_)
  have hsecond : InStep (Shifted d) (Watch.Offset d) (liveMarker source.access v.locked)
      (liveMarker source.access v'.locked) :=
    liveMarker_inStep (marker_inStep hv.resource) hv.cache rfl hv.compiled
  exact hsecond.andThen fun _ _ _ _ hm hv => freshOr_inStep hv hm (reload_inStep hv hm)

theorem isOutdated_inStep
    (hmarker : InStep (Shifted d) (Watch.Offset d) (liveMarker source.access w)
      (liveMarker source.access w')) (hcache : w'.cache = w.cache.offset d) :
    InStep Eq (Watch.Offset d) (isOutdated source.access w) (isOutdated source.access w') := by
  refine hmarker.andThen fun m m' v v' hm hv => ?_
  have hfresh : Snapshot.freshAt (F := F) w'.cache.held m' = Snapshot.freshAt w.cache.held m := by
    rw [hcache, hm, freshAt_offset]
  simp only [hfresh]
  split
  · exact .error hv
  · exact .ok rfl hv

end WatchedFile

structure Watch.Unused (w w' : Watch WatchedFile A Int F) : Prop where
  resource : w.resource.Stays w'.resource
  cache : w.cache = {}
  cache' : w'.cache = {}
  reloading : w'.reloading = w.reloading
  compiled : w'.compiled = w.compiled

namespace WatchedFile

variable {compile : Compiler A F} {w w' : Watch WatchedFile A Int F}

/-- The first marker that both caches read settles the offset. -/
theorem liveMarker_settles (h : w.Unused w') :
    InStep (fun _ _ => False) Watch.Unused (liveMarker source.access w)
        (liveMarker source.access w') ∨
      ∃ d, InStep (Shifted d) (Watch.Offset d) (liveMarker source.access w)
        (liveMarker source.access w') := by
  rcases marker_settles h.resource with ⟨reason, hr, hr'⟩ | ⟨d, hmarker⟩
  · simp only [liveMarker, Source.access_marker, Watch.note, hr, hr', Except.mapError,
      andThen_error, unavailable_offset h.resource.path]
    exact .inl (.error ⟨h.resource, h.cache, h.cache', h.reloading, h.compiled⟩)
  · have hcache : w'.cache = w.cache.offset d := by
      rw [h.cache, h.cache']
      rfl
    exact .inr ⟨d, liveMarker_inStep hmarker hcache h.reloading h.compiled⟩

end WatchedFile

/-- A step that goes the same way for caches whose markers differ by an offset, and leaves such
caches if it is the first to read a marker. -/
structure Unbiased {α : Type} (step : Watch WatchedFile A Int F →
    Except (LoadFailure Int F) α × Watch WatchedFile A Int F) : Prop where
  offset : ∀ {d w w'}, Watch.Offset d w w' → InStep Eq (Watch.Offset d) (step w) (step w')
  unused : ∀ {w w'}, Watch.Unused w w' → InStep Eq Watch.Unused (step w) (step w') ∨
    ∃ d, InStep Eq (Watch.Offset d) (step w) (step w')
  advances : ∀ w : Watch WatchedFile A Int F, w.cache.Advances (step w).2.cache

namespace WatchedFile

theorem request_unbiased (compile : Compiler A F) : Unbiased (request compile) where
  offset h := request_inStep
    (liveMarker_inStep (marker_inStep h.resource) h.cache h.reloading h.compiled)
  unused h := by
    rcases liveMarker_settles h with hmarker | ⟨d, hmarker⟩
    · exact .inl (hmarker.andThen fun _ _ _ _ hfalse => hfalse.elim)
    · exact .inr ⟨d, request_inStep hmarker⟩
  advances _ := request_advances

theorem isOutdated_unbiased :
    Unbiased (isOutdated (source.access : Access WatchedFile A Int F Nat)) where
  offset h := isOutdated_inStep
    (liveMarker_inStep (marker_inStep h.resource) h.cache h.reloading h.compiled) h.cache
  unused {w w'} h := by
    rcases liveMarker_settles h with hmarker | ⟨d, hmarker⟩
    · exact .inl (hmarker.andThen fun _ _ _ _ hfalse => hfalse.elim)
    · have hcache : w'.cache = w.cache.offset d := by
        rw [h.cache, h.cache']
        rfl
      exact .inr ⟨d, isOutdated_inStep hmarker hcache⟩
  advances w := by
    obtain ⟨log, hidle⟩ := isOutdated_idle w
    exact .inl hidle.cache

end WatchedFile

end LiveTemplates
