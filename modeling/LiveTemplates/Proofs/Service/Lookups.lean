import LiveTemplates.Proofs.Files.Overlong
import LiveTemplates.Proofs.Registry.Resolving
import LiveTemplates.Proofs.Service.Predicting

/-!
# Where a template cannot be looked up

To find a template, its file is asked for, and where the file system does not tell whether there is
one, finding fails. A load takes the same answer to say that the file is unavailable. The two part
only where a barrier keeps a path from being looked up or where it is too long: elsewhere a template
is found or not, and its status is shown.
-/

namespace LiveTemplates

variable {A F : Type} {files : FileSystem} {name : Text} {path : Path} {refused : SystemError}

namespace Registry

variable {r : Registry A} {e : RegistryFailure F}

/-- The template is not watched, and for this error it is not told whether there is a file. -/
def Lost (r : Registry A) (files : FileSystem) (path : Path) (refused : SystemError) : Prop :=
  ¬ r.Holds path ∧ files.Undecided path refused

instance : Decidable (r.Lost files path refused) :=
  inferInstanceAs (Decidable (¬ r.Holds path ∧ files.Undecided path refused))

theorem Lost.absent (h : r.Lost files path refused) :
    ¬ (r.Holds path ∨ files.isFile path = .ok true) := by
  rintro (held | hisFile)
  · exact h.1 held
  · rw [FileSystem.isFile_eq_error_iff.2 h.2] at hisFile
    cases hisFile

/-- Finding a name that is accepted fails where the template is lost, and nowhere else. -/
theorem find_eq_error_iff (hpath : r.pathOf name = .ok path) :
    (r.find files name).1 = .error e ↔
      ∃ refused, e = .lookup refused path ∧ r.Lost files path refused := by
  by_cases present : r.Holds path ∨ files.isFile path = .ok true
  · rw [find_of_present hpath present]
    constructor
    · rintro ⟨⟩
    · rintro ⟨refused, -, lost⟩
      exact (lost.absent present).elim
  · obtain ⟨unheld, -⟩ := not_or.1 present
    rw [find_eq_of_absent hpath present]
    cases hisFile : files.isFile path with
    | ok isFile =>
      constructor
      · rintro ⟨⟩
      · rintro ⟨refused, -, -, undecided⟩
        rw [FileSystem.isFile_eq_error_iff.2 undecided] at hisFile
        cases hisFile
    | error refused =>
      constructor
      · rintro ⟨⟩
        exact ⟨refused, rfl, unheld, FileSystem.isFile_eq_error_iff.1 hisFile⟩
      · rintro ⟨refused', rfl, -, undecided⟩
        rw [FileSystem.isFile_eq_error_iff.2 undecided] at hisFile
        cases hisFile
        rfl

/-- What the next load of a name is told if it is told that the file is unavailable. -/
theorem load_of_unavailable {compile : Compiler A F} {u : Unavailable}
    (hpath : r.pathOf name = .ok path)
    (hserved : (r.served compile files path).1 = .error (.unavailable u)) :
    (r.load compile files name).1 = .error (.load (.unavailable u)) := by
  rw [load_eq hpath, hserved]
  rfl

end Registry

namespace Service

variable {host : Host} {compile : Compiler Root Excess} {site : Site Root}

/-- What it comes to that a name is looked up: by finding it, by a request for its status and by
the next load. -/
structure LooksUp (host : Host) (compile : Compiler Root Excess) (site : Site Root) (name : Text)
    (path : Path) : Prop where
  /-- To find the name fails where it is lost, and nowhere else. -/
  find : ∀ e : RegistryFailure Excess, (site.registry.find site.files name).1 = .error e ↔
    ∃ refused, e = .lookup refused path ∧ site.registry.Lost site.files path refused
  /-- Where it is lost, there is no answer, though a load takes it as unavailable. -/
  lost : ∀ refused, site.registry.Lost site.files path refused →
    (site.files.Barred path refused ∨ refused = .nameTooLong ∧ path.Overlong) ∧
    (run host site (.ofStatus name)).1 = .error (.registry (.lookup refused path)) ∧
    ∃ u, (site.registry.load compile site.files name).1 = .error (.load (.unavailable u))
  /-- Elsewhere a status is shown, if its texts are valid. What it shows as unavailable is so to a
  load, and a path that cannot be looked up is shown so. -/
  shown : (∀ refused, ¬ site.registry.Lost site.files path refused) →
    ∃ s : Status, s.name = name ∧ s.identity = path.text ∧
    (run host site (.ofStatus name)).1 =
      (if name.hasLone || path.text.hasLone then .error (.unsent .loneSurrogate)
      else .ok (some s.response)) ∧
    (s.available = false →
      ∃ u, (site.registry.load compile site.files name).1 = .error (.load (.unavailable u))) ∧
    ∀ refusal, site.files.lookup path = .error refusal → s.available = false

section

variable (h : site.registry.WellKept) (hpath : site.registry.pathOf name = .ok path)
include h hpath

theorem load_of_absent (compile : Compiler Root Excess)
    (absent : ¬ (site.registry.Holds path ∨ site.files.isFile path = .ok true)) :
    ∃ u, (site.registry.load compile site.files name).1 = .error (.load (.unavailable u)) := by
  obtain ⟨u, hserved⟩ := Registry.served_of_absent compile h absent
  exact ⟨u, Registry.load_of_unavailable hpath hserved⟩

/-- What is shown as unavailable is unavailable to the next load. -/
theorem load_of_shown_unavailable (compile : Compiler Root Excess) {s : Status}
    (hshown : Service.shown site.files site.registry name path = .ok s)
    (unavailable : s.available = false) :
    ∃ u, (site.registry.load compile site.files name).1 = .error (.load (.unavailable u)) := by
  rcases shown_unavailable hshown unavailable with absent | ⟨reason, c, houtlook⟩
  · exact load_of_absent h hpath compile absent
  · exact ⟨_, Registry.load_of_unavailable hpath
      (h.served_of_refusal (congrArg Prod.fst houtlook))⟩

omit hpath in
/-- A path that cannot be looked up is shown as unavailable. -/
theorem shown_of_lookup_refused {s : Status} {refusal : Refusal}
    (hshown : Service.shown site.files site.registry name path = .ok s)
    (refused : site.files.lookup path = .error refusal) : s.available = false := by
  rcases Bool.eq_false_or_eq_true s.available with available | unavailable
  · obtain ⟨live, c, houtlook, -⟩ := shown_available hshown available
    obtain ⟨reason, hlook⟩ := h.look_of_refused refused
    rw [(Registry.outlook_eq houtlook).1] at hlook
    cases hlook
  · exact unavailable

omit h hpath in
/-- A status is shown where the template is not lost. -/
theorem exists_shown (present : ∀ refused, ¬ site.registry.Lost site.files path refused) :
    ∃ s, Service.shown site.files site.registry name path = .ok s := by
  cases hisFile : site.files.isFile path with
  | ok isFile => exact shown_of_isFile hisFile
  | error refused =>
    have held : site.registry.Holds path := by
      by_contra unheld
      exact present refused ⟨unheld, FileSystem.isFile_eq_error_iff.1 hisFile⟩
    exact ⟨_, if_pos (.inl held)⟩

theorem looksUp (sound : host.Sound) (accepted : isTemplateName name) :
    LooksUp host compile site name path where
  find e := Registry.find_eq_error_iff hpath
  lost refused lost := by
    have hshown : Service.shown site.files site.registry name path = .error refused := by
      rw [Service.shown, if_neg lost.absent, FileSystem.isFile_eq_error_iff.2 lost.2]
      rfl
    refine ⟨?_, ?_, load_of_absent h hpath compile lost.absent⟩
    · exact (FileSystem.undecided_iff.1 lost.2).imp_right (And.imp_right (·.overlong))
    · rw [run_status (route?_ofStatus sound accepted), showStatus_eq hpath, hshown]
      rfl
  shown present := by
    obtain ⟨s, hshown⟩ : ∃ s, Service.shown site.files site.registry name path = .ok s :=
      exists_shown present
    obtain ⟨hname, hidentity⟩ := shown_texts hshown
    refine ⟨s, hname, hidentity, ?_, load_of_shown_unavailable h hpath compile hshown,
      fun refusal => shown_of_lookup_refused h hshown⟩
    rw [run_status (route?_ofStatus sound accepted), showStatus_eq hpath, hshown]
    dsimp only
    rw [Status.respond_eq sound, hname, hidentity]
    split <;> rfl

end

/-- In every state that a registry reaches, finding a name that is accepted and showing its status
fail only where the file system cannot tell whether there is a file, or where an answer would repeat
a text that is not valid. Where the base directory exists, the former is so for all paths at which a
barrier stands and for all that are too long, unless the template is watched. -/
theorem lookups_fail_only_beyond_limits (host : Host) (sound : host.Sound)
    (compile : Compiler Root Excess) (base : Path) (strategy : Strategy) (files : FileSystem)
    (steps : List Site.Step) (name : Text) (accepted : isTemplateName name) :
    let path := base.child (name ++ suffix)
    let site := Site.runAll compile ⟨{ base, strategy }, files⟩ steps
    LooksUp host compile site name path ∧ (site.files.isDirectory base = .ok true →
      ∀ refused, site.files.Undecided path refused ↔ site.files.Barred path refused ∨
        refused = .nameTooLong ∧ (∀ other, ¬ site.files.Barred path other) ∧
          (path.text.Beyond pathLimit ∨ (name ++ suffix).Beyond nameLimit)) := by
  intro path site
  have hstart : (⟨{ base, strategy }, files⟩ : Site Root).registry.WellKept := .empty base strategy
  have hpath : site.registry.pathOf name = .ok path := by
    have hbase : site.registry.base = base := Site.runAll_base compile hstart steps
    rw [Registry.pathOf, if_pos accepted, hbase]
  refine ⟨looksUp (Site.runAll_wellKept compile hstart steps) hpath sound accepted, ?_⟩
  intro hdirectory refused
  have hnul : .char '\x00' ∉ name ++ suffix := by
    have usable := isTemplateName_iff.1 accepted
    have hsuffix : .char '\x00' ∉ suffix := by decide
    exact fun hmem => (List.mem_append.1 hmem).elim
      (fun hname => usable (.inr (.inr (.inr (.inr (.inr hname)))))) hsuffix
  exact FileSystem.undecided_child_iff hdirectory (suffixed_ne (by decide)) hnul

/-- In a base directory that is missing, the status of a name that is too long is shown. -/
theorem lookups_fail_only_beyond_limits_without_base :
    let host := Host.standard
    let name : Text := List.replicate 251 (.char 'a')
    let base : Path := ⟨.relative, [Text.ofString "t"]⟩
    let compile := Root.compiler host.room
    let site := Site.runAll compile ⟨{ base, strategy := .digest }, {}⟩ [.find name]
    isTemplateName name ∧ (∃ s : Status, s.available = false ∧
        (run host site (.ofStatus name)).1 = .ok (some s.response)) ∧
      ∃ u, (site.registry.load compile site.files name).1 = .error (.load (.unavailable u)) := by
  intro host name base compile site
  have accepted : isTemplateName name := by decide +kernel
  have hlooks := (lookups_fail_only_beyond_limits host Host.standard_sound compile base .digest {}
    [.find name] name accepted).1
  have hlookup : site.files.lookup (base.child (name ++ suffix)) = .error (.system .notFound) := by
    decide +kernel
  have found : ∀ refused,
      ¬ site.registry.Lost site.files (base.child (name ++ suffix)) refused := by
    rintro refused ⟨-, hrefused, present⟩
    cases hlookup.symm.trans hrefused
    cases present
  obtain ⟨s, -, -, hanswer, hload, hlost⟩ := hlooks.shown found
  have unavailable := hlost _ hlookup
  rw [if_neg (by decide +kernel)] at hanswer
  exact ⟨accepted, ⟨s, unavailable, hanswer⟩, hload unavailable⟩

/-- A name that is too long for a directory that exists is unavailable to a load, and so is one that
nobody may look up. But the request for the status of either is not answered, as it is not told
whether there is a file. -/
theorem unavailable_template_is_not_shown :
    let host := Host.standard
    let compile := Root.compiler host.room
    let long : Text := List.replicate 251 (.char 'a')
    let base : Path := ⟨.relative, [Text.ofString "t"]⟩
    let barred := base.child (Text.ofString "a" ++ suffix)
    let site := Site.runAll compile ⟨{ base, strategy := .modified }, {}⟩
      [.edit (.makeDirectory base 1), .edit (.bar barred.text (some ⟨.denied, rfl⟩))]
    ∀ name refused reason, (name, refused, reason) ∈
        [(long, SystemError.nameTooLong, Text.ofString "File name too long"),
          (Text.ofString "a", .denied, Text.ofString "permission denied")] →
      let path := base.child (name ++ suffix)
      isTemplateName name ∧
        (site.registry.load compile site.files name).1 =
          .error (.load (.unavailable ⟨path.text, reason⟩)) ∧
        (site.registry.find site.files name).1 =
          .error (.lookup refused path : RegistryFailure Excess) ∧
        (run host site (.ofStatus name)).1 = .error (.registry (.lookup refused path)) := by
  intro host compile long base barred site name refused reason hcase path
  have hstart : (⟨{ base, strategy := .modified }, {}⟩ : Site Root).registry.WellKept :=
    .empty base .modified
  have wellKept : site.registry.WellKept := Site.runAll_wellKept compile hstart _
  obtain ⟨accepted, hpath, lost, hlook⟩ : isTemplateName name ∧
      site.registry.pathOf name = .ok path ∧ site.registry.Lost site.files path refused ∧
      (site.registry.look site.files path).1 = .error reason := by
    simp only [List.mem_cons, List.not_mem_nil, or_false, Prod.mk.injEq] at hcase
    rcases hcase with ⟨rfl, rfl, rfl⟩ | ⟨rfl, rfl, rfl⟩
    · decide +kernel
    · decide +kernel
  have hlooks : LooksUp host compile site name path :=
    looksUp wellKept hpath Host.standard_sound accepted
  exact ⟨accepted, Registry.load_of_unavailable hpath (wellKept.served_of_refusal hlook),
    (hlooks.find _).2 ⟨_, rfl, lost⟩, (hlooks.lost _ lost).2.1⟩

end Service

end LiveTemplates
