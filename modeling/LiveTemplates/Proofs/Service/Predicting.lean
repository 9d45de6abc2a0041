import LiveTemplates.Proofs.Service.Observing
import LiveTemplates.Proofs.Service.Responses
import LiveTemplates.Proofs.Service.Routes

/-!
# What a status predicts

A status shows whether there is a file and whether what is held of it is stale. As long as no file
changes, this tells what becomes of the next request for the template, whatever is asked about it
and about others in between.
-/

namespace LiveTemplates

namespace Service

variable {host : Host} {site site' site'' : Site Root} {step status get : Step}
variable {name : Text} {path : Path} {s : Status}

/-- A request for something else than this template itself. -/
def Step.spares (host : Host) (name : Text) (step : Step) : Bool :=
  match step with
  | .edit _ => false
  | .request _ _ => step.route? host ≠ some (.template name)

structure Spared (name : Text) (path : Path) (site site' : Site Root) : Prop where
  files : site'.files = site.files
  wellKept : site'.registry.WellKept
  pathOf : site'.registry.pathOf name = .ok path
  outlook : Registry.SameOutlook site.files path site.registry site'.registry

namespace Spared

theorem refl (h : site.registry.WellKept) (hpath : site.registry.pathOf name = .ok path) :
    Spared name path site site := ⟨rfl, h, hpath, .refl _⟩

theorem trans (h : Spared name path site site') (h' : Spared name path site' site'') :
    Spared name path site site'' where
  files := h'.files.trans h.files
  wellKept := h'.wellKept
  pathOf := h'.pathOf
  outlook := h.outlook.trans (by simpa only [h.files] using h'.outlook)

end Spared

/-- Requests for a status and those for other templates spare a template. -/
theorem run_spared (h : site.registry.WellKept) (hpath : site.registry.pathOf name = .ok path)
    (spares : step.spares host name) : Spared name path site (run host site step).2 := by
  have hwellKept : (run host site step).2.registry.WellKept := run_wellKept h step
  have hpath' : (run host site step).2.registry.pathOf name = .ok path :=
    (Registry.pathOf_of_base (run_base h step) name).trans hpath
  by_cases observes : step.observes host
  · obtain ⟨hfiles, hregistry⟩ := run_observing h observes
    refine ⟨hfiles, hwellKept, hpath', ?_⟩
    rcases hregistry with hsame | ⟨other, hsame⟩
    · rw [hsame]
      exact .refl _
    · rw [hsame]
      exact h.sameOutlook_staleness site.files path other
  · rcases cases_of_not_observes observes with ⟨e, rfl⟩ | ⟨outcome, hrun⟩ | ⟨other, hroute⟩
    · cases spares
    · rw [hrun]
      exact .refl h hpath
    · -- Another name leads to another path.
      have hne : site.registry.pathOf other ≠ .ok path := by
        intro hother
        obtain rfl := Registry.pathOf_injective hpath hother
        obtain ⟨method, p, rfl, -⟩ := request_of_route hroute
        simp [Step.spares, hroute] at spares
      refine ⟨by rw [run_template hroute], hwellKept, hpath', ?_⟩
      rw [run_template hroute]
      exact Registry.sameOutlook_load hne

theorem runAll_spared (h : site.registry.WellKept) (hpath : site.registry.pathOf name = .ok path)
    {steps : List Step} (spare : ∀ step ∈ steps, step.spares host name) :
    Spared name path site (runAll host site steps) := by
  induction steps generalizing site with
  | nil => exact .refl h hpath
  | cons step rest ih =>
    have hfirst := run_spared h hpath (spare step List.mem_cons_self)
    exact hfirst.trans (ih hfirst.wellKept hfirst.pathOf
      fun step' hstep' => spare step' (List.mem_cons_of_mem _ hstep'))

theorem spares_of_status (h : status.route? host = some (.status name)) :
    status.spares host name := by
  obtain ⟨method, p, rfl, -⟩ := request_of_route h
  simp [Step.spares, h]

def Status.response (s : Status) : Response := ⟨200, some s.body⟩

/-- The answer to a request for a status is what is shown, if its texts are valid. -/
theorem run_status_eq_ok_iff (sound : host.Sound)
    (hpath : site.registry.pathOf name = .ok path)
    (hstatus : status.route? host = some (.status name)) :
    (run host site status).1 = .ok (some s.response) ↔ ¬ name.hasLone ∧ ¬ path.text.hasLone ∧
      shown site.files site.registry name path = .ok s := by
  rw [run_status hstatus, showStatus_eq hpath]
  cases hshown : shown site.files site.registry name path with
  | error e => simp [Except.map]
  | ok s' =>
    obtain ⟨hname, hidentity⟩ := shown_texts hshown
    rw [Except.ok.injEq, ← hname, ← hidentity, ← Status.respond_eq_ok_iff sound, Status.response]
    dsimp only
    cases respond (F := Excess) host 200 s'.body <;> simp [Except.map]

def work (host : Host) (site : Site Root) (path : Path) :
    Except (LoadFailure Int Excess) (Artifact Root) × Watch WatchedFile Root Int Excess :=
  site.registry.served (Root.compiler host.room) site.files path

section Next

variable (h : site.registry.WellKept) (hpath : site.registry.pathOf name = .ok path)
variable (hget : get.route? host = some (.template name))

section Answers

include hpath hget

theorem run_get_fst : (run host site get).1 =
    (render host (((work host site path).1.mapError .load).map (·.value))).map some := by
  rw [run_template hget, Registry.load_eq hpath, work]

theorem run_get_fst_of_ok {a : Artifact Root} (hwork : (work host site path).1 = .ok a) :
    (run host site get).1 = (respond host 200 a.value.outline).map some := by
  rw [run_get_fst hpath hget, hwork]
  rfl

theorem run_get_fst_of_error {e : LoadFailure Int Excess}
    (hwork : (work host site path).1 = .error e) :
    (run host site get).1 = (render host (.error (.load e))).map some := by
  rw [run_get_fst hpath hget, hwork]
  rfl

/-- After a request that has succeeded, the template is shown with the marker of the last look. -/
theorem shown_of_get_ok {a : Artifact Root} (hwork : (work host site path).1 = .ok a)
    (hresource : (work host site path).2.resource = (site.registry.look site.files path).2) :
    shown (run host site get).2.files (run host site get).2.registry name path =
      .ok (.expected name path
        ((site.registry.look site.files path).1, (work host site path).2.cache)) := by
  obtain ⟨held, houtlook⟩ := Registry.load_of_ok hpath hwork hresource
  rw [run_template hget, shown, if_pos (.inl held), houtlook]
  rfl

end Answers

include h hpath hget

/-- A template that is unavailable is not found, unless the fault that is told is no valid text. -/
theorem run_get_unavailable (sound : host.Sound) (valid : ¬ path.text.hasLone) {e : Unavailable}
    (hwork : (work host site path).1 = .error (.unavailable e)) :
    (∃ body, (run host site get).1 = .ok (some ⟨404, some body⟩)) ∨
      (run host site get).1 = .error (.unsent .loneSurrogate) ∧ ∃ operation message,
        site.files.faults.find? (path.text, operation) = some (.told message) ∧
          message.hasLone := by
  obtain ⟨refusal, rfl, hrefuses⟩ := h.served_unavailable hwork
  have hrender : (run host site get).1 =
      (detail host 404 (Unavailable.message ⟨path.text, refusal.reason⟩)).map some :=
    run_get_fst_of_error hpath hget hwork
  have hmessage : (Unavailable.message ⟨path.text, refusal.reason⟩).hasLone =
      refusal.reason.hasLone := by
    simp [Unavailable.message, valid]
  rw [detail_eq sound, hmessage] at hrender
  by_cases lone : refusal.reason.hasLone
  · rw [if_pos lone] at hrender
    exact .inr ⟨hrender, hrefuses.told_of_hasLone lone⟩
  · rw [if_neg lone] at hrender
    exact .inl ⟨_, hrender⟩

/-- After a request that has failed, the same is shown of what is held. -/
theorem shown_of_get_error {e : LoadFailure Int Excess} {isFile : Bool}
    (hwork : (work host site path).1 = .error e) (hisFile : site.files.isFile path = .ok isFile)
    (hshown : shown site.files site.registry name path = .ok s) :
    ∃ s' : Status,
      shown (run host site get).2.files (run host site get).2.registry name path = .ok s' ∧
      s'.compiled = s.compiled ∧ s'.marker = s.marker ∧ s'.compiles = s.compiles := by
  rw [run_template hget]
  obtain ⟨s', hshown'⟩ : ∃ s', shown site.files
      (site.registry.load (Root.compiler host.room) site.files name).2 name path = .ok s' :=
    shown_of_isFile hisFile
  obtain ⟨hcompiled, hmarker, hcompiles⟩ := shown_cache hshown
  obtain ⟨hcompiled', hmarker', hcompiles'⟩ := shown_cache hshown'
  rw [h.cache_load_of_error hpath hwork] at hcompiled' hmarker' hcompiles'
  exact ⟨s', hshown', hcompiled'.trans hcompiled.symm, hmarker'.trans hmarker.symm,
    hcompiles'.trans hcompiles.symm⟩

end Next

/-- What a status foretells of the next request for the template and of its status after that. -/
structure Foretells (host : Host) (s : Status) (site : Site Root) (path : Path)
    (answer afterwards : Except (ServiceFailure Excess) (Option Response)) : Prop where
  /-- The template is not found, unless the file was made to fail with a text that is not valid. -/
  unavailable : s.available = false → (∃ body, answer = .ok (some ⟨404, some body⟩)) ∨
    answer = .error (.unsent .loneSurrogate) ∧ ∃ operation message,
      site.files.faults.find? (path.text, operation) = some (.told message) ∧ message.hasLone
  /-- What is held is served, and nothing else is done. -/
  fresh : s.available → ¬ s.stale → s.compiled ∧ ∃ a,
    (site.registry.entryAt path).cache.artifact? = some a ∧ (work host site path).1 = .ok a ∧
      answer = (respond host 200 a.value.outline).map some ∧
      .streamAsked ∉ (work host site path).2.events ∧
      .compilerCalled ∉ (work host site path).2.events ∧
      afterwards = .ok (some s.response)
  /-- The file is asked for. It is compiled once, or what is held stays. -/
  stale : s.available → s.stale → .streamAsked ∈ (work host site path).2.events ∧
    ((∃ a marker, (work host site path).1 = .ok a ∧
        answer = (respond host 200 a.value.outline).map some ∧
        afterwards = .ok (some (Status.response { s with
          compiled := true
          stale := false
          marker := some marker
          compiles := s.compiles + 1 }))) ∨
      ∃ (e : LoadFailure Int Excess) (s' : Status), (work host site path).1 = .error e ∧
        answer = (render host (.error (.load e))).map some ∧ afterwards = .ok (some s'.response) ∧
        s'.compiled = s.compiled ∧ s'.marker = s.marker ∧ s'.compiles = s.compiles)

section Foretelling

variable (h : site.registry.WellKept) (hpath : site.registry.pathOf name = .ok path)
include h hpath

/-- What is shown after a step is shown still after others that spare the template. -/
theorem status_afterwards (sound : host.Sound) {later : List Step}
    (spare : ∀ step ∈ later, step.spares host name)
    (hstatus : status.route? host = some (.status name)) (validName : ¬ name.hasLone)
    (valid : ¬ path.text.hasLone)
    (hshown :
      shown (run host site step).2.files (run host site step).2.registry name path = .ok s) :
    (run host (runAll host (run host site step).2 later) status).1 = .ok (some s.response) := by
  have hpath' : (run host site step).2.registry.pathOf name = .ok path :=
    (Registry.pathOf_of_base (run_base h step) name).trans hpath
  have hspared := runAll_spared (run_wellKept h step) hpath' spare
  refine (run_status_eq_ok_iff sound hspared.pathOf hstatus).2 ⟨validName, valid, ?_⟩
  rw [hspared.files, shown_of_sameOutlook hspared.outlook, hshown]

theorem foretells (sound : host.Sound) (hget : get.route? host = some (.template name))
    {later : List Step} (spare : ∀ step ∈ later, step.spares host name)
    (hstatus : status.route? host = some (.status name)) (validName : ¬ name.hasLone)
    (valid : ¬ path.text.hasLone)
    (hshown : shown site.files site.registry name path = .ok s) :
    Foretells host s site path (run host site get).1
      (run host (runAll host (run host site get).2 later) status).1 where
  unavailable unavailable := by
    rcases shown_unavailable hshown unavailable with absent | ⟨reason, c, houtlook⟩
    · obtain ⟨e, hwork⟩ := Registry.served_of_absent (Root.compiler host.room) h absent
      exact run_get_unavailable h hpath hget sound valid hwork
    · exact run_get_unavailable h hpath hget sound valid
        (h.served_of_refusal (congrArg Prod.fst houtlook))
  fresh available fresh := by
    obtain ⟨live, c, houtlook, rfl⟩ := shown_available hshown available
    obtain ⟨snapshot, hheld, -⟩ := Cache.held_of_fresh fresh
    obtain ⟨hwork, unasked, uncalled, hresource, hcache⟩ :=
      Registry.served_of_fresh (Root.compiler host.room) houtlook hheld fresh
    obtain ⟨hlook, hentry⟩ := Registry.outlook_eq houtlook
    refine ⟨by simp [Status.ofEntry, hheld], snapshot.artifact,
      by rw [hentry, Cache.artifact?, hheld, Option.map_some], hwork,
      run_get_fst_of_ok hpath hget hwork, unasked, uncalled, ?_⟩
    refine status_afterwards h hpath sound spare hstatus validName valid ?_
    rw [shown_of_get_ok hpath hget hwork hresource, hlook, work, hcache]
    rfl
  stale available stale := by
    obtain ⟨live, c, houtlook, rfl⟩ := shown_available hshown available
    obtain ⟨hasked, hresource, ⟨a, hwork, hcache⟩ | ⟨e, hwork, -⟩⟩ :=
      Registry.served_of_stale (Root.compiler host.room) houtlook stale
    · refine ⟨hasked, .inl ⟨a, live, hwork, run_get_fst_of_ok hpath hget hwork, ?_⟩⟩
      refine status_afterwards h hpath sound spare hstatus validName valid ?_
      rw [shown_of_get_ok hpath hget hwork hresource, (Registry.outlook_eq houtlook).1, work,
        hcache]
      simp [Status.expected, Status.ofEntry, Cache.outdatedAt, Cache.marker?]
    · -- The cache may be forgotten, but its marker was answered, so its status is still shown.
      obtain ⟨isFile, hisFile⟩ := WatchedFile.isFile_of_marker (Registry.outlook_eq houtlook).1
      rw [h.entryAt_path] at hisFile
      obtain ⟨s', hshown', hkept⟩ := shown_of_get_error h hpath hget hwork hisFile hshown
      exact ⟨hasked, .inr ⟨e, s', hwork, run_get_fst_of_error hpath hget hwork,
        status_afterwards h hpath sound spare hstatus validName valid hshown', hkept⟩⟩

end Foretelling

/-- In every state that a service reaches, an answer to a request for a status tells what becomes of
the next request for the template, whatever else is asked in between and afterwards, as long as
there are no edits. It identifies the template by its path. -/
theorem status_predicts_next_request (host : Host) (sound : host.Sound) (settings : Settings)
    (files : FileSystem) (before between later : List Step) (status get : Step) (name : Text)
    (s : Status) (accepted : isTemplateName name)
    (hstatus : status.route? host = some (.status name))
    (hget : get.route? host = some (.template name))
    (spare : ∀ step ∈ between ++ later, step.spares host name) :
    let path := (host.home.join settings.base).child (name ++ suffix)
    let reached := runAll host ⟨start host settings, files⟩ before
    let asked := runAll host (run host reached status).2 between
    let afterwards := runAll host (run host asked get).2 later
    (run host reached status).1 = .ok (some s.response) →
      s.name = name ∧ s.identity = path.text ∧
        Foretells host s asked path (run host asked get).1 (run host afterwards status).1 := by
  intro path reached asked afterwards hanswer
  have hstart : (⟨start host settings, files⟩ : Site Root).registry.WellKept :=
    start_wellKept host settings
  have hreached : reached.registry.WellKept := runAll_wellKept hstart before
  have hbase : reached.registry.base = host.home.join settings.base := runAll_base hstart before
  have hpath : reached.registry.pathOf name = .ok path := by
    rw [Registry.pathOf, if_pos accepted, hbase]
  obtain ⟨validName, valid, hshown⟩ := (run_status_eq_ok_iff sound hpath hstatus).1 hanswer
  have hspared : Spared name path reached asked :=
    runAll_spared hreached hpath (List.forall_mem_cons.2 ⟨spares_of_status hstatus,
      fun step hstep => spare step (List.mem_append_left _ hstep)⟩)
  have hshownAsked : shown asked.files asked.registry name path = .ok s := by
    rw [hspared.files, shown_of_sameOutlook hspared.outlook, hshown]
  have hforetells :
      Foretells host s asked path (run host asked get).1 (run host afterwards status).1 :=
    foretells hspared.wellKept hspared.pathOf sound hget
      (fun step hstep => spare step (List.mem_append_right _ hstep)) hstatus validName valid
      hshownAsked
  obtain ⟨hname, hidentity⟩ := shown_texts hshown
  exact ⟨hname, hidentity, hforetells⟩

/-- A template that was written anew is shown as stale, so the next request opens its file. -/
theorem status_predicts_next_request_rewritten :
    let host := Host.standard
    let settings : Settings := ⟨⟨.relative, []⟩, .modified⟩
    let name := Text.ofString "t"
    let path := settings.base.child (name ++ suffix)
    let before : List Step := [.edit (.write path [123, 125] 5), .ofTemplate name,
      .edit (.write path [91, 93] 9)]
    let reached := runAll host ⟨start host settings, {}⟩ before
    let asked := runAll host (run host reached (.ofStatus name)).2 [.ofStatus name]
    let s : Status := ⟨name, path.text, true, true, true, some 5, 1⟩
    (run host reached (.ofStatus name)).1 = .ok (some s.response) ∧
      .streamAsked ∈ (work host asked path).2.events := by
  intro host settings name path before reached asked s
  have sound : host.Sound := Host.standard_sound
  have accepted : isTemplateName name := by decide
  have hstatus := route?_ofStatus sound accepted
  have hpath : reached.registry.pathOf name = .ok path := by decide +kernel
  have hshown : shown reached.files reached.registry name path = .ok s := by decide +kernel
  have hanswer : (run host reached (.ofStatus name)).1 = .ok (some s.response) :=
    (run_status_eq_ok_iff sound hpath hstatus).2 ⟨by decide, by decide, hshown⟩
  have spare : ∀ step ∈ [Step.ofStatus name] ++ [], step.spares host name := by
    intro step hstep
    obtain rfl := List.mem_singleton.1 hstep
    exact spares_of_status hstatus
  have hforetells : Foretells host s asked path (run host asked (.ofTemplate name)).1
      (run host (run host asked (.ofTemplate name)).2 (.ofStatus name)).1 :=
    (status_predicts_next_request host sound settings {} before [.ofStatus name] []
      (.ofStatus name) (.ofTemplate name) name s accepted hstatus (route?_ofTemplate sound accepted)
      spare hanswer).2.2
  exact ⟨hanswer, (hforetells.stale rfl rfl).1⟩

/-- A template whose file was made to fail with a lone surrogate is shown as unavailable, but the
next request for it is not answered at all. -/
theorem unavailable_status_then_no_answer :
    let host := Host.standard
    let name := Text.ofString "t"
    let path : Path := ⟨.relative, [name ++ suffix]⟩
    let before : List Step := [.edit (.write path [123, 125] 5),
      .edit (.fault path.text .stat (some (.told [.lone 0])))]
    let reached := runAll host ⟨start host ⟨⟨.relative, []⟩, .modified⟩, {}⟩ before
    let asked := (run host reached (.ofStatus name)).2
    let s : Status := ⟨name, path.text, false, false, true, none, 0⟩
    (run host reached (.ofStatus name)).1 = .ok (some s.response) ∧
      (run host asked (.ofTemplate name)).1 = .error (.unsent .loneSurrogate) := by
  intro host name path before reached asked s
  have sound : host.Sound := Host.standard_sound
  have accepted : isTemplateName name := by decide
  have hstatus := route?_ofStatus sound accepted
  have hreached : reached.registry.WellKept := runAll_wellKept (start_wellKept host _) before
  have hpath : reached.registry.pathOf name = .ok path := by decide +kernel
  have hshown : shown reached.files reached.registry name path = .ok s := by decide +kernel
  have hspared : Spared name path reached asked :=
    run_spared hreached hpath (spares_of_status hstatus)
  have hstatusAnswer : (run host reached (.ofStatus name)).1 = .ok (some s.response) :=
    (run_status_eq_ok_iff sound hpath hstatus).2 ⟨by decide, by decide, hshown⟩
  have hlook : (asked.registry.look asked.files path).1 = .error [.lone 0] := by decide +kernel
  have hanswer : (run host asked (.ofTemplate name)).1 =
      (detail host 404 (Unavailable.message ⟨path.text, [.lone 0]⟩)).map some :=
    run_get_fst_of_error hspared.pathOf (route?_ofTemplate sound accepted)
      (hspared.wellKept.served_of_refusal hlook)
  rw [detail_eq sound, if_pos (by decide)] at hanswer
  exact ⟨hstatusAnswer, hanswer⟩

end Service

end LiveTemplates
