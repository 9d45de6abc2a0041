import LiveTemplates.Proofs.Files.Normal
import LiveTemplates.Proofs.Registry.Contents
import LiveTemplates.Proofs.Registry.Separation

/-!
# Where names lead

A name is refused only for what it is: empty, `.`, `..`, or with a character that divides or ends
names. Any other name leads to one more name behind those of the base directory, however the base
is written. So it does not lead out of the base directory, and different names lead to different
paths, which are also written differently.
-/

namespace LiveTemplates

variable {A F : Type} {name name' : Text} {path path' : Path}

/-- A name that denotes no template in any base directory. -/
def Unusable (name : Text) : Prop :=
  name = [] ∨ name = Path.here ∨ name = Path.parent ∨
    .char '/' ∈ name ∨ .char '\\' ∈ name ∨ .char '\x00' ∈ name

theorem isTemplateName_iff : isTemplateName name ↔ ¬ Unusable name := by
  have hany : (name.any fun p => p = .char '/' || p = .char '\\' || p = .char '\x00') = true ↔
      .char '/' ∈ name ∨ .char '\\' ∈ name ∨ .char '\x00' ∈ name := by
    simp only [List.any_eq_true, Bool.or_eq_true, decide_eq_true_eq, or_assoc]
    constructor
    · rintro ⟨p, hp, rfl | rfl | rfl⟩
      · exact .inl hp
      · exact .inr (.inl hp)
      · exact .inr (.inr hp)
    · rintro (hp | hp | hp)
      · exact ⟨_, hp, .inl rfl⟩
      · exact ⟨_, hp, .inr (.inl rfl)⟩
      · exact ⟨_, hp, .inr (.inr rfl)⟩
  simp only [isTemplateName, Unusable, Bool.and_eq_true, Bool.not_eq_true', ← Bool.not_eq_true,
    hany, decide_eq_true_eq, not_or, ne_eq, and_assoc]

theorem suffixed_ne {t : Text} (ht : t.length < suffix.length) : name ++ suffix ≠ t := by
  intro h
  have hlength := congrArg List.length h
  rw [List.length_append] at hlength
  omega

theorem component_suffixed (h : ¬ Unusable name) : Path.Component (name ++ suffix) where
  nonempty := suffixed_ne (by decide)
  ne_here := suffixed_ne (by decide)
  undivided := by
    have hname : Path.slash ∉ name := fun hmem => h (.inr (.inr (.inr (.inl hmem))))
    have hsuffix : Path.slash ∉ suffix := by decide
    exact fun hmem => (List.mem_append.1 hmem).elim hname hsuffix

namespace Registry

/-- The path of a name below a base directory that is written as a text. -/
structure DirectlyBelow (base name : Text) (path : Path) : Prop where
  /-- It is what the text of the base is read as with the file's name behind it. -/
  joined : path = Path.parse (Path.joined base (name ++ suffix))
  anchor : path.anchor = (Path.parse base).anchor
  names : path.names = (Path.parse base).names ++ [name ++ suffix]
  /-- The last name stands for itself, and is not one that leads back or elsewhere. -/
  component : Path.Component (name ++ suffix)
  ne_parent : name ++ suffix ≠ Path.parent
  /-- Neither writing the path and reading it again nor undoing names by `..` reaches this name. -/
  reread : Path.parse path.text = path
  collapsed : path.collapsed = (Path.parse base).collapsed.child (name ++ suffix)
  /-- In any file system, what is found at the path is found in the base directory. -/
  place : ∀ (files : FileSystem) (place : List Bytes), files.place path = .ok place →
    ∃ names octets, files.place (Path.parse base) = .ok names ∧
      (name ++ suffix).octets = .ok octets ∧ place = names ++ [octets]

theorem directlyBelow (base : Text) (h : ¬ Unusable name) :
    DirectlyBelow base name ((Path.parse base).child (name ++ suffix)) where
  joined := (Path.parse_joined base (component_suffixed h)).symm
  anchor := rfl
  names := rfl
  component := component_suffixed h
  ne_parent := suffixed_ne (by decide)
  reread := Path.parse_text ((Path.normal_parse base).child (component_suffixed h))
  collapsed := Path.collapsed_child _ (suffixed_ne (by decide))
  place := fun _ _ hplace => FileSystem.place_below hplace (suffixed_ne (by decide))

theorem DirectlyBelow.normal {base : Text} (h : DirectlyBelow base name path) : path.Normal := by
  rw [← h.reread]
  exact Path.normal_parse path.text

variable {r : Registry A} {entry : CacheEntry A}

theorem pathOf_eq_error_iff : r.pathOf name = .error ⟨name⟩ ↔ Unusable name := by
  unfold pathOf
  split
  · rename_i h
    simpa using isTemplateName_iff.1 h
  · rename_i h
    simpa using mt isTemplateName_iff.2 h

theorem pathOf_of_usable (h : ¬ Unusable name) :
    r.pathOf name = .ok (r.base.child (name ++ suffix)) :=
  if_pos (isTemplateName_iff.2 h)

theorem usable_of_pathOf (h : r.pathOf name = .ok path) : ¬ Unusable name := by
  intro unusable
  rw [pathOf_eq_error_iff.2 unusable] at h
  cases h

def identity (files : FileSystem) (entry : CacheEntry A) : Text :=
  WatchedFile.source.identity ⟨entry.file, files⟩

theorem cacheOf_eq_ok (h : (r.cacheOf (F := F) name).1 = .ok entry) :
    ∃ path, r.pathOf name = .ok path ∧ entry = r.entryAt path := by
  unfold cacheOf at h
  split at h
  · cases h
  · rename_i path hpath
    cases h
    exact ⟨path, hpath, cacheAt_fst⟩

/-- Whatever happened to a registry, a name is refused exactly if it is unusable, and any other
leads directly below the base directory. Different names lead to different paths, to caches of
different files and to different identities. -/
theorem names_lead_directly_below (compile : Compiler A F) (base : Text) (strategy : Strategy)
    (files : FileSystem) (steps : List Site.Step) :
    let site := Site.runAll compile ⟨{ base := Path.parse base, strategy }, files⟩ steps
    let r := site.registry
    (∀ name, r.pathOf name = .error ⟨name⟩ ↔ Unusable name) ∧
    (∀ name, ¬ Unusable name → ∃ path entry, r.pathOf name = .ok path ∧
      DirectlyBelow base name path ∧ (r.cacheOf (F := F) name).1 = .ok entry ∧
      entry.file.path = path ∧ identity site.files entry = path.text) ∧
    (∀ name name' path path', r.pathOf name = .ok path → r.pathOf name' = .ok path' →
      name ≠ name' → path ≠ path') ∧
    ∀ name name' entry entry', (r.cacheOf (F := F) name).1 = .ok entry →
      (r.cacheOf (F := F) name').1 = .ok entry' → name ≠ name' →
      entry.file.path ≠ entry'.file.path ∧
      ∀ files files', identity files entry ≠ identity files' entry' := by
  intro site r
  have hempty := WellKept.empty (A := A) (Path.parse base) strategy
  have hbase : r.base = Path.parse base := Site.runAll_base compile hempty steps
  have wellKept : r.WellKept := Site.runAll_wellKept compile hempty steps
  have below : ∀ {name path}, r.pathOf name = .ok path → DirectlyBelow base name path := by
    intro name path h
    have usable := usable_of_pathOf h
    rw [pathOf_of_usable usable, hbase] at h
    cases h
    exact directlyBelow base usable
  refine ⟨fun name => pathOf_eq_error_iff, fun name usable => ?_, ?_, ?_⟩
  · have hpath := pathOf_of_usable (r := r) usable
    refine ⟨_, r.entryAt _, hpath, below hpath, ?_, wellKept.entryAt_path, ?_⟩
    · rw [cacheOf, hpath]
      exact congrArg Except.ok cacheAt_fst
    · exact congrArg Path.text wellKept.entryAt_path
  · rintro name name' path path' h h' hne rfl
    exact hne (pathOf_injective h h')
  · intro name name' entry entry' h h' hne
    obtain ⟨path, hpath, rfl⟩ := cacheOf_eq_ok h
    obtain ⟨path', hpath', rfl⟩ := cacheOf_eq_ok h'
    have hpaths : path ≠ path' := by
      rintro rfl
      exact hne (pathOf_injective hpath hpath')
    have hfiles : (r.entryAt path).file.path ≠ (r.entryAt path').file.path := by
      rwa [wellKept.entryAt_path, wellKept.entryAt_path]
    refine ⟨hfiles, fun files files' heq => hfiles ?_⟩
    refine Path.text_injective ?_ ?_ heq
    · rw [wellKept.entryAt_path]
      exact (below hpath).normal
    · rw [wellKept.entryAt_path]
      exact (below hpath').normal

/-- Two names of nothing but dots and blanks, in a base directory that is written untidily. -/
theorem names_lead_directly_below_untidy :
    let base := Text.ofString ".//a/./../b//"
    let r : Registry Bytes := { base := Path.parse base, strategy := .digest }
    ¬ Unusable "..." ∧ ¬ Unusable " " ∧ ∃ path entry entry',
      r.pathOf "..." = .ok path ∧ DirectlyBelow base "..." path ∧
      (r.cacheOf (F := Empty) "...").1 = .ok entry ∧ (r.cacheOf (F := Empty) " ").1 = .ok entry' ∧
      identity {} entry = "a/../b/....json" ∧ identity {} entry ≠ identity {} entry' := by
  intro base r
  have dots : ¬ Unusable "..." := isTemplateName_iff.1 (by decide)
  have blank : ¬ Unusable " " := isTemplateName_iff.1 (by decide)
  obtain ⟨-, hleads, -, hdistinct⟩ :=
    names_lead_directly_below (F := Empty) (Except.ok : Compiler Bytes Empty) base .digest {} []
  obtain ⟨path, entry, hpath, hbelow, hentry, -, hidentity⟩ := hleads "..." dots
  obtain ⟨path', entry', -, -, hentry', -, -⟩ := hleads " " blank
  have htext : path.text = "a/../b/....json" := by
    rw [hbelow.joined]
    decide +kernel
  refine ⟨dots, blank, path, entry, entry', hpath, hbelow, hentry, hentry', ?_, ?_⟩
  · rw [← htext]
    exact hidentity
  · exact (hdistinct "..." " " entry entry' hentry hentry' (by decide)).2 {} {}

end Registry

end LiveTemplates
