import LiveTemplates.Proofs.Registry.Provenance
import LiveTemplates.Proofs.Service.Predicting
import LiveTemplates.Proofs.Template.Room

/-!
# Which templates are served

A template that was obtained is served if its outline is strict JSON. The compiler does not see to
that: infinite numbers and lone surrogates compile, and where one is shown there is no answer.
-/

namespace LiveTemplates

namespace Service

section Responses

variable {F : Type} {host : Host}

theorem respond_of_infinite (sound : host.Sound) {status : Nat} {body : Json}
    (h : (body.withoutNames host.setAside).anyScalar Scalar.isInfinite = true) :
    respond (F := F) host status body = .error (.unsent .infiniteNumber) := by
  rw [respond, sound.infinite status body h]
  rfl

theorem respond_of_lone (sound : host.Sound) {status : Nat} {body : Json}
    (finite : (body.withoutNames host.setAside).anyScalar Scalar.isInfinite = false)
    (h : (body.withoutNames host.setAside).anyScalar Scalar.hasLone = true) :
    respond (F := F) host status body = .error (.unsent .loneSurrogate) := by
  rw [respond, sound.lone status body finite h]
  rfl

/-- A body is sent if it is strict without what is set aside. -/
theorem respond_cases (sound : host.Sound) (status : Nat) (body : Json) :
    let shown := body.withoutNames host.setAside
    (respond (F := F) host status body = .ok ⟨status, some shown⟩ ∧ shown.Strict) ∨
      (respond (F := F) host status body = .error (.unsent .infiniteNumber) ∧
        shown.anyScalar Scalar.isInfinite = true) ∨
      (respond (F := F) host status body = .error (.unsent .loneSurrogate) ∧
        shown.anyScalar Scalar.hasLone = true) := by
  intro shown
  by_cases infinite : shown.anyScalar Scalar.isInfinite = true
  · exact .inr (.inl ⟨respond_of_infinite sound infinite, infinite⟩)
  have finite : shown.anyScalar Scalar.isInfinite = false := Bool.eq_false_iff.2 infinite
  by_cases lone : shown.anyScalar Scalar.hasLone = true
  · exact .inr (.inr ⟨respond_of_lone sound finite lone, lone⟩)
  have strict : shown.Strict := ⟨finite, Bool.eq_false_iff.2 lone⟩
  refine .inl ⟨?_, strict⟩
  rw [respond, sound.sends status body strict]
  rfl

theorem ofBytes_of_gives {room : Nat} {root : Root} (h : (Root.compiler room).Gives root) :
    ∃ contents, Root.ofBytes contents = .ok root := by
  obtain ⟨contents, hcompile⟩ := h
  unfold Root.compiler at hcompile
  split at hcompile
  · rename_i root' hroot
    cases hcompile
    exact ⟨contents, Root.ofBytes_of_room_ok hroot⟩
  · cases hcompile
  · cases hcompile

end Responses

section Requests

variable {host : Host} {site : Site Root} {get : Step} {name : Text} {path : Path}

theorem runAll_sourced (h : site.registry.WellKept)
    (sourced : site.registry.Sourced (Root.compiler host.room)) (steps : List Step) :
    (runAll host site steps).registry.Sourced (Root.compiler host.room) := by
  rw [runAll_onSite h]
  exact Site.runAll_sourced h sourced _

theorem run_get_of_load {a : Artifact Root} (hget : get.route? host = some (.template name))
    (hload : (site.registry.load (Root.compiler host.room) site.files name).1 = .ok a) :
    (run host site get).1 = (respond host 200 a.value.outline).map some := by
  rw [run_template hget, hload]
  rfl

end Requests

section Single

/-- A service in the standard host with one template, which nothing has asked for. -/
def single (contents : Bytes) : Site Root :=
  runAll Host.standard ⟨start Host.standard ⟨⟨.relative, []⟩, .modified⟩, {}⟩
    [.edit (.write ⟨.relative, [Text.ofString "a" ++ suffix]⟩ contents 5)]

def getSingle : Step := .ofTemplate (Text.ofString "a")

variable {contents : Bytes}

theorem single_wellKept (contents : Bytes) : (single contents).registry.WellKept :=
  start_wellKept Host.standard ⟨⟨.relative, []⟩, .modified⟩

theorem route?_getSingle :
    getSingle.route? Host.standard = some (.template (Text.ofString "a")) :=
  route?_ofTemplate Host.standard_sound (by decide)

theorem load_single (compile : Compiler Root Excess) (contents : Bytes) :
    ((single contents).registry.load compile (single contents).files
      (Text.ofString "a")).1.map (·.value) =
      ((compile contents).mapError CompileFailure.toLoad).mapError .load := by
  let path : Path := ⟨.relative, [Text.ofString "a" ++ suffix]⟩
  have hpath : (single contents).registry.pathOf (Text.ofString "a") = .ok path := rfl
  have houtlook : (single contents).registry.outlook (single contents).files path = (.ok 5, {}) :=
    rfl
  have hbytes : (single contents).files.contents path = .ok contents := rfl
  have hopen : (single contents).files.openStream path = .ok 0 := rfl
  exact (single_wellKept contents).load_outdated compile hpath houtlook rfl hbytes hopen

theorem run_getSingle (contents : Bytes) : (run Host.standard (single contents) getSingle).1 =
    (render Host.standard (((Root.compiler Host.standard.room contents).mapError
      CompileFailure.toLoad).mapError .load)).map some := by
  rw [run_template route?_getSingle, load_single]

theorem compiler_of_flat {room : Nat} {root : Root}
    (h : Root.ofBytes contents (some 0) = .ok root) : Root.compiler room contents = .ok root := by
  rw [Root.compiler, Root.ofBytes_of_more_room (Nat.zero_le room) h]

theorem run_getSingle_of_ok {root : Root}
    (h : Root.compiler Host.standard.room contents = .ok root) :
    (run Host.standard (single contents) getSingle).1 =
      (respond Host.standard 200 root.outline).map some := by
  rw [run_getSingle, h]
  rfl

theorem exists_load_single {room : Nat} {root : Root}
    (h : Root.compiler room contents = .ok root) :
    ∃ a, ((single contents).registry.load (Root.compiler room) (single contents).files
      (Text.ofString "a")).1 = .ok a ∧ a.value = root := by
  have hload := load_single (Root.compiler room) contents
  rw [h] at hload
  exact map_eq_ok.1 hload

end Single

/-- Whatever compiles shows what it was read as, so it is strict unless its document, without the
comments, holds a decimal beyond all finite numbers or escapes a surrogate. In every state that a
service reaches, a template that is obtained was compiled from some contents. A request for it is
answered if what is shown of it is strict, and only then. -/
theorem strict_templates_are_served (host : Host) (sound : host.Sound) (settings : Settings)
    (files : FileSystem) (steps : List Step) :
    let site := runAll host ⟨start host settings, files⟩ steps
    (∀ contents root, Root.ofBytes contents = .ok root →
      ∃ stripped v, Root.ReadAs contents stripped v ∧ Root.ofJson v.distinct = .ok root ∧
        (root.outline.Strict ↔ v.distinct.Strict) ∧
        (¬ root.outline.Strict → Json.Overflows stripped ∨ Json.EscapesSurrogate stripped)) ∧
    ∀ (get : Step) (name : Text) (a : Artifact Root),
      let shown := a.value.outline.withoutNames host.setAside
      get.route? host = some (.template name) →
      (site.registry.load (Root.compiler host.room) site.files name).1 = .ok a →
        (∃ contents, Root.ofBytes contents = .ok a.value) ∧
        (a.value.outline.Strict → shown.Strict) ∧
        (((run host site get).1 = .ok (some ⟨200, some shown⟩) ∧ shown.Strict) ∨
          ((run host site get).1 = .error (.unsent .infiniteNumber) ∧
            shown.anyScalar Scalar.isInfinite = true) ∨
          ((run host site get).1 = .error (.unsent .loneSurrogate) ∧
            shown.anyScalar Scalar.hasLone = true)) := by
  intro site
  constructor
  · intro contents root hcompile
    obtain ⟨stripped, v, hread, hbuild⟩ := Root.ofBytes_eq_ok_iff_readAs.1 hcompile
    have hstrict := Root.strict_outline_iff hbuild
    refine ⟨stripped, v, hread, hbuild, hstrict, fun unstrict => ?_⟩
    exact hread.overflows_or_escapes (mt hstrict.2 unstrict)
  · intro get name a shown hget hload
    have hsourced : site.registry.Sourced (Root.compiler host.room) :=
      runAll_sourced (start_wellKept host settings) (.empty _ _) steps
    refine ⟨ofBytes_of_gives (hsourced.gives_of_load hload), Json.Strict.withoutNames, ?_⟩
    rw [run_get_of_load hget hload]
    rcases respond_cases (F := Excess) sound 200 a.value.outline with
      ⟨hsent, hshown⟩ | ⟨hfailed, hshown⟩ | ⟨hfailed, hshown⟩
    · exact .inl ⟨by rw [hsent]; rfl, hshown⟩
    · exact .inr (.inl ⟨by rw [hfailed]; rfl, hshown⟩)
    · exact .inr (.inr ⟨by rw [hfailed]; rfl, hshown⟩)

def showing (s : Scalar) : Root :=
  ⟨Json.null.freeze, none, [.static (some (Text.ofString "a")) s]⟩

theorem strict_templates_are_served_escaped :
    let host := Host.standard
    let contents := Utf8.encode "\x7b\"a\": \"\\u00e9\"\x7d".toList
    let root := showing (.text [.char 'é'])
    Root.ofBytes contents = .ok root ∧ root.outline.Strict ∧ ∃ a : Artifact Root,
      ((single contents).registry.load (Root.compiler host.room) (single contents).files
        (Text.ofString "a")).1 = .ok a ∧ a.value = root ∧
      (run host (single contents) getSingle).1 =
        .ok (some ⟨200, some (a.value.outline.withoutNames host.setAside)⟩) := by
  intro host contents root
  have hread : Root.ReadAs contents _ (.object [(Text.ofString "a", .text [.char 'é'])]) :=
    Root.readAs_encode ⟨_, _, rfl, by decide⟩ rfl rfl
  have hbuild : Root.ofBytes contents (some 0) = .ok root :=
    hread.ofBytes_room_eq (by decide)
  obtain ⟨hserves, hserved⟩ := strict_templates_are_served host Host.standard_sound
    ⟨⟨.relative, []⟩, .modified⟩ {}
    [.edit (.write ⟨.relative, [Text.ofString "a" ++ suffix]⟩ contents 5)]
  have hcompile : Root.ofBytes contents = .ok root := Root.ofBytes_of_room_ok hbuild
  obtain ⟨stripped, v, -, -, hstrict, -⟩ := hserves contents root hcompile
  have strict : root.outline.Strict := ⟨by decide, by decide⟩
  obtain ⟨a, ha, hvalue⟩ := exists_load_single (compiler_of_flat hbuild)
  obtain ⟨-, hshown, hanswer⟩ := hserved getSingle (Text.ofString "a") a route?_getSingle ha
  refine ⟨hcompile, strict, a, ha, hvalue, ?_⟩
  obtain ⟨finite, encodable⟩ := hshown (hvalue ▸ strict)
  rcases hanswer with ⟨hsent, -⟩ | ⟨-, infinite⟩ | ⟨-, lone⟩
  · exact hsent
  · exact absurd infinite (Bool.eq_false_iff.1 finite)
  · exact absurd lone (Bool.eq_false_iff.1 encodable)

/-- An infinite number and a lone surrogate compile, and the templates that show them are obtained
but not served. -/
theorem unstrict_templates_are_not_served :
    let host := Host.standard
    let infinite := Utf8.encode "\x7b\"a\": 1e999\x7d".toList
    let lone := Utf8.encode "\x7b\"a\": \"\\ud800\"\x7d".toList
    (∃ root, Root.ofBytes infinite = .ok root ∧ ¬ root.outline.Strict) ∧
      (∃ root, Root.ofBytes lone = .ok root ∧ ¬ root.outline.Strict) ∧
      (∀ contents ∈ [infinite, lone], ∃ a, ((single contents).registry.load
        (Root.compiler host.room) (single contents).files (Text.ofString "a")).1 = .ok a) ∧
      (run host (single infinite) getSingle).1 = .error (.unsent .infiniteNumber) ∧
      (run host (single lone) getSingle).1 = .error (.unsent .loneSurrogate) := by
  intro host infinite lone
  have hreadInfinite : Root.ReadAs infinite _
      (.object [(Text.ofString "a", .scalar (.number (.float (.infinite false))))]) :=
    Root.readAs_encode ⟨_, _, rfl, by decide⟩ rfl rfl
  have hreadLone : Root.ReadAs lone _ (.object [(Text.ofString "a", .text [.lone 0])]) :=
    Root.readAs_encode ⟨_, _, rfl, by decide⟩ rfl rfl
  have hinfinite : Root.ofBytes infinite (some 0) =
      .ok (showing (.number (.float (.infinite false)))) :=
    hreadInfinite.ofBytes_room_eq (by decide)
  have hlone : Root.ofBytes lone (some 0) = .ok (showing (.text [.lone 0])) :=
    hreadLone.ofBytes_room_eq (by decide)
  refine ⟨⟨_, Root.ofBytes_of_room_ok hinfinite, fun h => absurd h.finite (by decide)⟩,
    ⟨_, Root.ofBytes_of_room_ok hlone, fun h => absurd h.encodable (by decide)⟩, ?_, ?_, ?_⟩
  · simp only [List.mem_cons, List.not_mem_nil, or_false, forall_eq_or_imp, forall_eq]
    exact ⟨(exists_load_single (compiler_of_flat hinfinite)).imp fun _ => And.left,
      (exists_load_single (compiler_of_flat hlone)).imp fun _ => And.left⟩
  · rw [run_getSingle_of_ok (compiler_of_flat hinfinite),
      respond_of_infinite Host.standard_sound (by decide)]
    rfl
  · rw [run_getSingle_of_ok (compiler_of_flat hlone),
      respond_of_lone Host.standard_sound (by decide) (by decide)]
    rfl

end Service

end LiveTemplates
