import LiveTemplates.Proofs.Watch.Effects
import LiveTemplates.Proofs.Watch.Memory
import LiveTemplates.Proofs.Watch.Unnumbered

/-!
# What a check for staleness foretells

A check for staleness looks at the marker once, and a request behind it looks again. If the
resource is settled, and nothing else happens to it, the second look shows what the first one has
shown. So the check fails as the request does before it opens anything, tells that it will open a
stream, or tells that it will serve what is held. What a request has served stays fresh as long as
nothing changes the resource.
-/

namespace LiveTemplates

variable {R A M F S E : Type} [Marking M]

/-- A compiler that reaches the cache from outside only. The resource shows the same marker when
it has ended. -/
structure Compilation.Undisturbing (source : Source R M S) (compilation : Compilation R A M F S) :
    Prop where
  meanwhile : ∀ stream w, Meanwhile AnyMove w (compilation stream w).2
  marker : ∀ stream w, source.marker (compilation stream w).2.resource = source.marker w.resource

theorem Compiler.reading_undisturbing (compile : Compiler A F) (source : Source R M S) :
    (compile.reading source.access.read).Undisturbing source where
  meanwhile := compile.reading_meanwhile source.access.read
  marker stream w := by rw [Compiler.reading_snd, Watch.note]

def Source.benchWith (source : Source R M S) (change : E → R → R)
    (compilation : Compilation R A M F S) : Bench R A M F S E :=
  ⟨source.access, source.identity, change, compilation⟩

/-- What a check of `w` foretells of the request behind it, which logs `log` and finds a stream
if `opens`. -/
structure Foretells (w : Watch R A M F) (check : Except (LoadFailure M F) Bool × Watch R A M F)
    (request : Except (LoadFailure M F) (Artifact A) × Watch R A M F) (opens : Prop)
    (log : List (Event A M F)) : Prop where
  checked : check.2.cache = w.cache
  events : request.2.events = check.2.events ++ log
  failed : ∀ e, check.1 = .error e ↔ request.1 = .error e ∧ .streamAsked ∉ log
  outdated : check.1 = .ok true ↔ .streamAsked ∈ log
  compiler : .compilerCalled ∈ log ↔ .streamAsked ∈ log ∧ opens
  fresh : check.1 = .ok false ↔ ∃ s, w.cache.held = some s ∧ request.1 = .ok s.artifact ∧
    .streamAsked ∉ log ∧ .compilerCalled ∉ log
  kept : .streamAsked ∉ log → request.2.cache = w.cache

structure Rests (w w' : Watch R A M F) : Prop where
  cache : w'.cache = w.cache
  log : ∃ log, w'.events = w.events ++ log ∧ .compilerCalled ∉ log

omit [Marking M] in
theorem Rests.refl (w : Watch R A M F) : Rests w w := ⟨rfl, [], by simp⟩

omit [Marking M] in
theorem Rests.trans {w w' w'' : Watch R A M F} (h : Rests w w') (h' : Rests w' w'') :
    Rests w w'' := by
  obtain ⟨log, hlog, hcalled⟩ := h.log
  obtain ⟨log', hlog', hcalled'⟩ := h'.log
  refine ⟨h'.cache.trans h.cache, log ++ log', by rw [hlog', hlog, List.append_assoc], ?_⟩
  exact fun hmem => (List.mem_append.1 hmem).elim hcalled hcalled'

/-- A check finds the artifact `a` fresh. Every request serves it, whatever its compiler, and opens
and compiles nothing. -/
structure Lasts (access : Access R A M F S) (w : Watch R A M F) (a : Artifact A) : Prop where
  check : (isOutdated access w).1 = .ok false
  request : ∀ compilation : Compilation R A M F S, ∃ log,
    (serve access compilation w).1 = .ok a ∧ (serve access compilation w).2.cache = w.cache ∧
    (serve access compilation w).2.events = w.events ++ log ∧
    .streamAsked ∉ log ∧ .compilerCalled ∉ log

namespace Source

section Checks

variable {source : Source R M S} {compilation : Compilation R A M F S}
variable {w : Watch R A M F} {live : M} {r : R} {reason : Text}

theorem serve_of_incomparable {e : LoadFailure M F}
    (h : source.marker w.resource = (.ok live, r))
    (hfresh : Snapshot.freshAt w.cache.held live = .error e) :
    serve source.access compilation w = (.error e, { w with
      resource := r
      events := w.events ++ [.markerAsked, .markerAnswered live] }) := by
  simp only [serve, Source.liveMarker_of_marker h, andThen_ok, Watch.freshOr, hfresh]

theorem serve_log_of_stale (settled : source.Settled) (free : w.reloading = false)
    (hcompile : ∀ stream v, Meanwhile AnyMove v (compilation stream v).2)
    (h : source.marker w.resource = (.ok live, r))
    (hstale : Snapshot.freshAt (F := F) w.cache.held live = .ok none) :
    ∃ log, (serve source.access compilation w).2.events = w.events ++ log ∧ .streamAsked ∈ log ∧
      (.compilerCalled ∈ log ↔ ∃ stream, source.openStream r = .ok stream) := by
  have hsecond : source.marker r = (.ok live, r) := by
    have hsame := settled w.resource
    rwa [h] at hsame
  have hwanting : Wanting source.access w _ := ⟨live, Source.liveMarker_of_marker h, hstale⟩
  have hconfirmed : Confirmed source.access w live _ :=
    ⟨_, hwanting, free, Source.liveMarker_of_marker hsecond, hstale⟩
  have hevents : ∀ stream v, ∃ during, (compilation stream v).2.events = v.events ++ during := by
    intro stream v
    obtain ⟨during, hduring⟩ := (hcompile stream v).extends
    exact ⟨during, hduring.events⟩
  have hopen : OnlyMoves AnyMove (source.access (A := A) (F := F)).openStream :=
    Source.openStream_onlyMoves
  obtain ⟨log, hlog, hserve⟩ := hconfirmed.reloadLog hopen hevents
  obtain ⟨hasked, hcalled⟩ := hlog.calls
  refine ⟨[.markerAsked, .markerAnswered live, .markerAsked, .markerAnswered live] ++ log,
    by simp [hserve, Watch.locked], List.mem_append_right _ hasked, ?_⟩
  simpa [Source.access_openStream, mapError_eq_ok, Watch.note, Watch.locked] using hcalled

variable (source compilation) in
/-- A check for staleness tells what an undisturbed request behind it will do. -/
theorem check_foretells (settled : source.Settled) (free : w.reloading = false)
    (hcompile : ∀ stream v, Meanwhile AnyMove v (compilation stream v).2) :
    let check := isOutdated source.access w
    ∃ log, Foretells w check (serve source.access compilation check.2)
      (∃ stream, (source.access.openStream check.2).1 = .ok stream) log := by
  intro check
  have hsame := settled w.resource
  rcases hmarker : source.marker w.resource with ⟨reason | live, r⟩
  · rw [hmarker] at hsame
    let w' : Watch R A M F := { w with resource := r, events := w.events ++ [.markerAsked] }
    have hcheck : check = (.error (source.unavailable r reason), w') :=
      isOutdated_of_refusal hmarker
    have hrequest : serve source.access compilation w' = _ := serve_of_refusal hsame
    rw [hcheck, hrequest]
    exact ⟨[.markerAsked], rfl, by simp, by simp, by simp, by simp, by simp, fun _ => rfl⟩
  · rw [hmarker] at hsame
    let w' : Watch R A M F :=
      { w with resource := r, events := w.events ++ [.markerAsked, .markerAnswered live] }
    have hcheck : check = ((Snapshot.freshAt w.cache.held live).map Option.isNone, w') :=
      isOutdated_of_marker hmarker
    cases hfresh : Snapshot.freshAt (F := F) w.cache.held live with
    | error e =>
      have hrequest : serve source.access compilation w' = _ := serve_of_incomparable hsame hfresh
      rw [hcheck, hfresh, hrequest]
      exact ⟨[.markerAsked, .markerAnswered live], rfl, by simp, by simp [Except.map],
        by simp [Except.map], by simp, by simp [Except.map], fun _ => rfl⟩
    | ok held =>
      cases held with
      | some a =>
        have hrequest : serve source.access compilation w' = _ := serve_of_fresh hsame hfresh
        obtain ⟨s, hheld, -, rfl⟩ := Snapshot.freshAt_eq_some hfresh
        rw [hcheck, hfresh, hrequest]
        exact ⟨[.markerAsked, .markerAnswered live], rfl, by simp, by simp [Except.map],
          by simp [Except.map], by simp, by simp [Except.map, hheld], fun _ => rfl⟩
      | none =>
        obtain ⟨log, hlog, hasked, hcalled⟩ :=
          serve_log_of_stale (w := w') settled free hcompile hsame hfresh
        rw [hcheck, hfresh]
        refine ⟨log, rfl, hlog, by simp [Except.map, hasked], by simp [Except.map, hasked], ?_,
          by simp [Except.map, hasked], fun unasked => (unasked hasked).elim⟩
        simp only [hcalled, hasked, true_and, Source.access_openStream, mapError_eq_ok, w']

end Checks

section Lasting

variable {source : Source R M S} {compilation : Compilation R A M F S} {w w' : Watch R A M F}
variable {a : Artifact A} {live : M} {r : R}

def Current (source : Source R M S) (w : Watch R A M F) (a : Artifact A) : Prop :=
  ∃ live r, source.marker w.resource = (.ok live, r) ∧
    Snapshot.freshAt (F := F) w.cache.held live = .ok (some a)

theorem Current.lasts (h : source.Current w a) : Lasts source.access w a := by
  obtain ⟨live, r, hmarker, hfresh⟩ := h
  refine ⟨?_, fun compilation => ⟨[.markerAsked, .markerAnswered live], ?_⟩⟩
  · rw [isOutdated_of_marker hmarker, hfresh]
    rfl
  · rw [serve_of_fresh hmarker hfresh]
    exact ⟨rfl, rfl, rfl, by simp, by simp⟩

/-- A look at the marker leaves what is held current. -/
theorem Current.looked (settled : source.Settled) (h : source.Current w a)
    (hresource : w'.resource = (source.marker w.resource).2) (hcache : w'.cache = w.cache) :
    source.Current w' a := by
  obtain ⟨live, r, hmarker, hfresh⟩ := h
  refine ⟨live, r, ?_, by rwa [hcache]⟩
  rw [hresource, settled, hmarker]

omit [Marking M] in
theorem readContents_log (source : Source R M S) (w : Watch R A M F) :
    ∃ log, (readContents source.access w).2 = { w with events := w.events ++ log } ∧
      .compilerCalled ∉ log := by
  have hopened : (source.access.openStream (w.note .streamAsked)).2 = w.note .streamAsked := by
    rw [Source.access_openStream]
  rcases readContents_snd source.access w with h | h <;> rw [h, hopened]
  · exact ⟨[.streamAsked], rfl, by simp⟩
  · exact ⟨[.streamAsked, .streamRead, .streamClosed], by simp [Watch.note], by simp⟩

/-- No step but a change makes what is held stale, and none of them compiles anything. -/
theorem Current.run {change : E → R → R} (settled : source.Settled) (h : source.Current w a)
    (step : Step E) (unchanged : ∀ e, step ≠ .change e) :
    let v := (Step.run (source.benchWith change compilation) w step).2
    Rests w v ∧ source.Current v a := by
  obtain ⟨live, r, hmarker, hfresh⟩ := id h
  let seen : Watch R A M F :=
    { w with resource := r, events := w.events ++ [.markerAsked, .markerAnswered live] }
  have hseen : Rests w seen ∧ source.Current seen a :=
    ⟨⟨rfl, [.markerAsked, .markerAnswered live], rfl, by simp⟩,
      h.looked settled (by rw [hmarker]) rfl⟩
  have served : ∀ compilation : Compilation R A M F S,
      Rests w (serve source.access compilation w).2 ∧
        source.Current (serve source.access compilation w).2 a := by
    intro compilation
    rw [serve_of_fresh hmarker hfresh]
    exact hseen
  have looked : Rests w (liveMarker source.access w).2 ∧
      source.Current (liveMarker source.access w).2 a := by
    rw [Source.liveMarker_of_marker hmarker]
    exact hseen
  cases step with
  | request => exact served compilation
  | staleness =>
    simp only [Step.run, answering, isOutdated_snd]
    exact looked
  | marker => exact looked
  | contents =>
    obtain ⟨log, hread, hcalled⟩ := readContents_log source w
    simp only [Step.run, answering, benchWith, hread]
    exact ⟨⟨rfl, log, rfl, hcalled⟩, h⟩
  | identity => exact ⟨.refl w, h⟩
  | description => exact ⟨.refl w, h⟩
  | change e => exact (unchanged e rfl).elim
  | requestDuring steps =>
    simp only [Step.run, answering]
    exact served _

theorem Current.runAll {change : E → R → R} (settled : source.Settled) (h : source.Current w a)
    (steps : List (Step E)) (unchanged : ∀ e, .change e ∉ steps) :
    let v := Step.runAll (source.benchWith change compilation) w steps
    Rests w v ∧ source.Current v a := by
  induction steps generalizing w with
  | nil => exact ⟨.refl w, h⟩
  | cons step rest ih =>
    let v := (Step.run (source.benchWith change compilation) w step).2
    have hfirst : Rests w v ∧ source.Current v a :=
      h.run settled step fun e he => unchanged e (he ▸ List.mem_cons_self)
    obtain ⟨hrests, hcurrent⟩ := hfirst
    obtain ⟨hrests', hcurrent'⟩ := ih hcurrent fun e he => unchanged e (List.mem_cons_of_mem _ he)
    exact ⟨hrests.trans hrests', hcurrent'⟩

/-- What a request has served is current after it. -/
theorem current_of_served (settled : source.Settled)
    (same : ∀ m : M, Marking.older? m m = some false) (hc : compilation.Undisturbing source)
    (h : serve source.access compilation w = (.ok a, w')) : source.Current w' a := by
  have shown : ∀ {r r' live}, source.marker r = (.ok live, r') →
      source.marker r' = (.ok live, r') := by
    intro r r' live hmarker
    have hsame := settled r
    rwa [hmarker] at hsame
  have hcourse := serve_course source.access compilation w
  rw [h] at hcourse
  cases hcourse with
  | fresh hlive hfresh => exact ⟨_, _, shown (Source.liveMarker_eq_ok hlive), hfresh⟩
  | overtaken _ _ hlive hfresh =>
    have hmarker := Source.liveMarker_eq_ok hlive
    exact ⟨_, _, shown hmarker, hfresh⟩
  | @reloaded live value u hcompiled =>
    obtain ⟨stream, w₃, ⟨w₂, ⟨w₁, -, -, hlive, -⟩, hopen⟩, hcompile⟩ := hcompiled
    obtain ⟨-, rfl⟩ := Source.access_openStream_eq_ok hopen
    have hmarker : source.marker u.resource = source.marker w₂.resource := by
      have hkept := hc.marker stream ((w₂.note .streamAsked).note .compilerCalled)
      rwa [hcompile] at hkept
    refine ⟨live, w₂.resource, hmarker.trans (shown (Source.liveMarker_eq_ok hlive)), ?_⟩
    simp [Watch.swap, Snapshot.freshAt, same]

end Lasting

theorem benchWith_external {source : Source R M S} {change : E → R → R}
    {compilation : Compilation R A M F S} (hc : compilation.Undisturbing source) :
    (source.benchWith change compilation).External AnyMove :=
  source.external (fun _ => .single trivial) hc.meanwhile fun _ _ => trivial

end Source

/-- A check in the state `w` tells what a request behind it will do. What a request from `w` serves
lasts as long as no step changes the resource. -/
structure Foretold (bench : Bench R A M F S E) (w : Watch R A M F) : Prop where
  next : ∃ log, Foretells w (isOutdated bench.access w)
    (serve bench.access bench.compilation (isOutdated bench.access w).2)
    (∃ stream, (bench.access.openStream (isOutdated bench.access w).2).1 = .ok stream) log
  later : ∀ a w', serve bench.access bench.compilation w = (.ok a, w') →
    ∀ steps, (∀ e, .change e ∉ steps) →
      Rests w' (Step.runAll bench w' steps) ∧ Lasts bench.access (Step.runAll bench w' steps) a

theorem Source.foretold {source : Source R M S} {compilation : Compilation R A M F S}
    (settled : source.Settled) (same : ∀ m : M, Marking.older? m m = some false)
    (hc : compilation.Undisturbing source) (change : E → R → R) (start : R)
    (steps : List (Step E)) :
    let bench := source.benchWith change compilation
    Foretold bench (Step.runAll bench { resource := start } steps) := by
  intro bench
  have hexternal : bench.External AnyMove := Source.benchWith_external hc
  obtain ⟨log, hlog⟩ := (hexternal.runAll_meanwhile { resource := start } steps).extends
  refine ⟨source.check_foretells compilation settled hlog.reloading hc.meanwhile, ?_⟩
  intro a w' hserve later unchanged
  have hcurrent := Source.current_of_served settled same hc hserve
  obtain ⟨hrests, hlater⟩ := hcurrent.runAll settled later unchanged
  exact ⟨hrests, hlater.lasts⟩

theorem Memory.source_settled : Memory.source.Settled := by
  intro m
  rw [Memory.source_marker_snd]

/-- Whatever has happened before, changes during reloads included, checks of resources in memory
and of files foretell requests, and what a request has served lasts while nothing changes. -/
theorem checks_foretell_requests :
    (∀ compilation : Compilation Memory A Int F Bytes, compilation.Undisturbing Memory.source →
      ∀ start steps, let bench := Memory.source.benchWith Memory.change compilation
        Foretold bench (Step.runAll bench { resource := start } steps)) ∧
    ∀ compilation : Compilation WatchedFile A Int F Nat,
      compilation.Undisturbing WatchedFile.source →
      ∀ start steps, let bench := WatchedFile.source.benchWith WatchedFile.change compilation
        Foretold bench (Step.runAll bench { resource := start } steps) := by
  have same : ∀ m : Int, Marking.older? m m = some false := by simp
  constructor
  · exact fun compilation hc => Source.foretold Memory.source_settled same hc Memory.change
  · exact fun compilation hc =>
      Source.foretold WatchedFile.source_settled same hc WatchedFile.change

def picky : Compiler Bytes Empty := fun bytes =>
  if bytes = [66] then .error (.invalid ⟨[], none⟩) else .ok bytes

def failedOver : List (Step FileSystem.Edit) :=
  let file : Path := ⟨.relative, ["t"]⟩
  [.change (.write file [65] 5), .request, .change (.write file [66] 5), .request,
    .change (.write file [65] 5)]

/-- The contents are those that were compiled, and a check foretells a reload all the same. -/
theorem checks_foretell_requests_failedOver :
    let compilation := picky.reading WatchedFile.source.access.read
    let bench := WatchedFile.source.benchWith WatchedFile.change compilation
    let start : WatchedFile := ⟨.watching ⟨.relative, ["t"]⟩ .digest, {}⟩
    let w := Step.runAll bench { resource := start } failedOver
    compilation.Undisturbing WatchedFile.source ∧ w.cache.artifact?.map (·.value) = some [65] ∧
      (isOutdated bench.access w).1 = .ok true ∧
      (∃ log, Foretells w (isOutdated bench.access w)
        (serve bench.access bench.compilation (isOutdated bench.access w).2)
        (∃ stream, (bench.access.openStream (isOutdated bench.access w).2).1 = .ok stream) log) ∧
      ∃ a, (serve bench.access bench.compilation w).1 = .ok a ∧ a.value = [65] := by
  intro compilation bench start w
  have hc : compilation.Undisturbing WatchedFile.source := picky.reading_undisturbing _
  have foretold : Foretold bench w := checks_foretell_requests.2 compilation hc start failedOver
  have hheld : w.cache.artifact?.map (·.value) = some [65] := by decide +kernel
  have hcheck : (isOutdated bench.access w).1 = .ok true := toOption_eq_some.1 (by decide +kernel)
  have hserved : ((serve bench.access bench.compilation w).1.map (·.value)).toOption =
      some [65] := by
    decide +kernel
  refine ⟨hc, hheld, hcheck, foretold.next, ?_⟩
  cases hrequest : (serve bench.access bench.compilation w).1 with
  | error e =>
    rw [hrequest] at hserved
    cases hserved
  | ok a =>
    rw [hrequest] at hserved
    exact ⟨a, rfl, Option.some.inj hserved⟩

end LiveTemplates
