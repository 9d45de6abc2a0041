import LiveTemplates.Proofs.Files.Listing
import LiveTemplates.Registry.Basic
import Mathlib.Data.List.Lex
import Mathlib.Order.Lattice

/-!
# Which names are listed

A registry lists the names of all files in its base directory that end in the suffix, in order. It
does not ask whether such a name is accepted, and it takes the file whose name is the bare suffix
for a template of that name. Apart from this, what is listed are the accepted names with a file.
-/

namespace LiveTemplates

section Order

theorem CodePoint.value_injective : Function.Injective CodePoint.value := by
  intro p q h
  cases p with
  | char c =>
    cases q with
    | char d =>
      have heq : c.toNat = d.toNat := h
      rw [← Char.ofNat_toNat c, heq, Char.ofNat_toNat]
    | lone offset =>
      have heq : c.toNat = 0xD800 + offset.val := h
      have hvalid : c.toNat < 0xD800 ∨ (0xDFFF < c.toNat ∧ c.toNat < 0x110000) := c.valid
      omega
  | lone offset =>
    cases q with
    | char d =>
      have heq : 0xD800 + offset.val = d.toNat := h
      have hvalid : d.toNat < 0xD800 ∨ (0xDFFF < d.toNat ∧ d.toNat < 0x110000) := d.valid
      omega
    | lone offset' =>
      have heq : 0xD800 + offset.val = 0xD800 + offset'.val := h
      rw [Fin.ext (Nat.add_left_cancel heq)]

namespace Text

/-- The order by code points is the lexicographic order of their values. -/
theorem precedes_iff (s t : Text) :
    s.precedes t ↔ s.map CodePoint.value < t.map CodePoint.value := by
  induction s generalizing t with
  | nil => cases t <;> simp [precedes]
  | cons p rest ih =>
    cases t with
    | nil => simp [precedes]
    | cons q rest' =>
      rw [precedes, List.map_cons, List.map_cons, List.cons_lt_cons_iff]
      split
      · simp [*]
      · split
        · simp [*]
          omega
        · rw [ih]
          have heq : p.value = q.value := by omega
          simp [heq]

theorem precedes_trans {s t u : Text} (h : s.precedes t) (h' : t.precedes u) : s.precedes u := by
  rw [precedes_iff] at *
  exact h.trans h'

theorem precedes_irrefl (t : Text) : ¬ t.precedes t := by
  rw [precedes_iff]
  exact lt_irrefl _

theorem precedes_or_eq_of_not {s t : Text} (h : ¬ t.precedes s) : s.precedes t ∨ s = t := by
  rw [precedes_iff] at *
  rcases lt_or_eq_of_le (not_lt.1 h) with hlt | heq
  · exact .inl hlt
  · exact .inr (List.map_injective_iff.2 CodePoint.value_injective heq)

end Text

/-- Putting in order neither adds nor loses anything. -/
theorem insertInOrder_perm (t : Text) (ts : List Text) : (insertInOrder t ts).Perm (t :: ts) := by
  induction ts with
  | nil => exact .refl _
  | cons u rest ih =>
    rw [insertInOrder]
    split
    · exact .refl _
    · exact (ih.cons u).trans (.swap t u rest)

theorem inOrder_perm (ts : List Text) : (inOrder ts).Perm ts := by
  have hfold : ∀ (ts sorted : List Text),
      (ts.foldl (fun sorted t => insertInOrder t sorted) sorted).Perm (ts ++ sorted) := by
    intro ts
    induction ts with
    | nil => exact fun sorted => .refl _
    | cons t rest ih =>
      intro sorted
      exact (ih _).trans (((insertInOrder_perm t sorted).append_left rest).trans
        List.perm_middle)
  simpa [inOrder] using hfold ts []

def Ordered (ts : List Text) : Prop := ts.Pairwise fun s t => ¬ t.precedes s

theorem ordered_insertInOrder {t : Text} {ts : List Text} (h : Ordered ts) :
    Ordered (insertInOrder t ts) := by
  induction ts with
  | nil => exact List.pairwise_singleton _ _
  | cons u rest ih =>
    obtain ⟨hu, hrest⟩ := List.pairwise_cons.1 h
    rw [insertInOrder]
    split
    · rename_i hbefore
      refine List.pairwise_cons.2 ⟨fun v hv hvt => ?_, h⟩
      rcases List.mem_cons.1 hv with rfl | hv
      · exact Text.precedes_irrefl _ (Text.precedes_trans hvt hbefore)
      · exact hu v hv (Text.precedes_trans hvt hbefore)
    · rename_i hbehind
      refine List.pairwise_cons.2 ⟨fun v hv => ?_, ih hrest⟩
      rcases List.mem_cons.1 ((insertInOrder_perm t rest).mem_iff.1 hv) with rfl | hv
      · exact hbehind
      · exact hu v hv

theorem ordered_inOrder (ts : List Text) : Ordered (inOrder ts) := by
  have hfold : ∀ (ts sorted : List Text), Ordered sorted →
      Ordered (ts.foldl (fun sorted t => insertInOrder t sorted) sorted) := by
    intro ts
    induction ts with
    | nil => exact fun _ h => h
    | cons t rest ih => exact fun sorted h => ih _ (ordered_insertInOrder h)
  exact hfold ts [] List.Pairwise.nil

end Order

section TemplateNames

/-- The file under the bare suffix has the suffix for its name, and others have what stands before
the suffix. -/
theorem templateName_eq_iff {t name : Text} (h : suffix.isSuffixOf t) :
    templateName t = name ↔
      (t = suffix ∧ name = suffix) ∨ (t = name ++ suffix ∧ name ≠ []) := by
  obtain ⟨front, rfl⟩ := List.isSuffixOf_iff_suffix.1 h
  have hbare : front ++ suffix = suffix ↔ front = [] := by simp
  unfold templateName
  by_cases hfront : front = []
  · subst hfront
    simp [eq_comm]
  · rw [if_neg (mt hbare.1 hfront), List.length_append, Nat.add_sub_cancel, List.take_left]
    simp only [hbare, hfront, false_and, false_or, List.append_cancel_right_eq]
    constructor
    · rintro rfl
      exact ⟨rfl, hfront⟩
    · exact fun heq => heq.1

/-- Two files have one name only if they are those of the bare and of the doubled suffix. -/
theorem eq_or_suffix_of_templateName {t u : Text} (ht : suffix.isSuffixOf t)
    (hu : suffix.isSuffixOf u) (h : templateName t = templateName u) (hne : t ≠ u) :
    templateName t = suffix ∧ ((t = suffix ∧ u = suffix ++ suffix) ∨
      (t = suffix ++ suffix ∧ u = suffix)) := by
  rcases (templateName_eq_iff ht).1 rfl with ⟨rfl, hname⟩ | ⟨hfile, -⟩
  · rcases (templateName_eq_iff hu).1 h.symm with ⟨rfl, -⟩ | ⟨hfile', -⟩
    · exact (hne rfl).elim
    · rw [hname] at hfile'
      exact ⟨hname, .inl ⟨rfl, hfile'⟩⟩
  · rcases (templateName_eq_iff hu).1 h.symm with ⟨rfl, hname'⟩ | ⟨hfile', -⟩
    · rw [hname'] at hfile
      exact ⟨hname', .inr ⟨hfile, rfl⟩⟩
    · exact (hne (hfile.trans hfile'.symm)).elim

end TemplateNames

namespace Registry

variable {A F : Type} {files : FileSystem} {r : Registry A} {ns listed found : List Text}
variable {name : Text} {path : Path}

def HasFile (files : FileSystem) (r : Registry A) (t : Text) : Prop :=
  files.isFile (r.base.child t) = .ok true

instance (files : FileSystem) (r : Registry A) (t : Text) : Decidable (r.HasFile files t) :=
  inferInstanceAs (Decidable (_ = _))

theorem filesAmong_eq_ok (h : r.filesAmong (F := F) files listed = .ok found) :
    found = listed.filter fun t => r.HasFile files t := by
  induction listed generalizing found with
  | nil =>
    cases h
    rfl
  | cons t rest ih =>
    rw [filesAmong] at h
    split at h
    · cases h
    · rename_i hisFile
      have hfile : r.HasFile files t := hisFile
      obtain ⟨found', hrest, rfl⟩ := map_eq_ok.1 h
      rw [List.filter_cons_of_pos (by simpa using hfile), ← ih hrest]
    · rename_i hfile
      rw [List.filter_cons_of_neg (by simp [HasFile, hfile]), ← ih h]

theorem filesAmong_eq_error {e : RegistryFailure F} (h : r.filesAmong files listed = .error e) :
    ∃ path refused, e = .lookup refused path ∧ files.Undecided path refused := by
  induction listed with
  | nil => cases h
  | cons t rest ih =>
    rw [filesAmong] at h
    split at h
    · rename_i hfile
      cases h
      exact ⟨_, _, rfl, FileSystem.isFile_eq_error_iff.1 hfile⟩
    · exact ih (map_eq_error.1 h)
    · exact ih h

theorem names_eq_error {e : RegistryFailure F} (h : r.names files = .error e) :
    ∃ path refused, e = .lookup refused path ∧ files.Undecided path refused := by
  unfold names at h
  split at h
  · rename_i hdirectory
    cases h
    exact ⟨_, _, rfl, FileSystem.isDirectory_eq_error_iff.1 hdirectory⟩
  · cases h
  · exact filesAmong_eq_error (map_eq_error.1 h)

def templateFiles (files : FileSystem) (r : Registry A) : List Text :=
  ((files.listing r.base).filter fun t => suffix.isSuffixOf t).filter fun t => r.HasFile files t

theorem mem_templateFiles {t : Text} : t ∈ r.templateFiles files ↔
    suffix.isSuffixOf t ∧ t.Listable ∧ r.HasFile files t := by
  have hmem : t ∈ r.templateFiles files ↔
      (t ∈ files.listing r.base ∧ suffix.isSuffixOf t) ∧ r.HasFile files t := by
    rw [templateFiles, List.mem_filter, List.mem_filter, decide_eq_true_iff]
  rw [hmem]
  constructor
  · rintro ⟨⟨hlisted, hsuffix⟩, hfile⟩
    obtain ⟨names, octets, -, -, rfl⟩ := FileSystem.mem_listing.1 hlisted
    exact ⟨hsuffix, Text.listable_ofOctets octets, hfile⟩
  · rintro ⟨hsuffix, listable, hfile⟩
    have hparent : t ≠ Path.parent := by
      rintro rfl
      exact absurd hsuffix (by decide)
    exact ⟨⟨FileSystem.listed_of_child hfile hparent listable, hsuffix⟩, hfile⟩

/-- Where names are listed, they are those of all template files, in order. -/
theorem names_eq_ok (h : r.names (F := F) files = .ok ns) :
    ns = inOrder ((r.templateFiles files).map templateName) := by
  unfold names at h
  split at h
  · cases h
  · rename_i hdirectory
    cases h
    have hnone : r.templateFiles files = [] := by
      refine List.eq_nil_iff_forall_not_mem.2 fun t ht => ?_
      have hfile := (mem_templateFiles.1 ht).2.2
      exact FileSystem.isDirectory_of_child hfile hdirectory
    rw [hnone]
    rfl
  · obtain ⟨found, hfound, rfl⟩ := map_eq_ok.1 h
    rw [filesAmong_eq_ok hfound]
    rfl

/-- A name is listed for the file that its suffix is added to, and that of the bare suffix for the
file under it. -/
theorem mem_names (h : r.names (F := F) files = .ok ns) : name ∈ ns ↔
    (name = suffix ∧ r.HasFile files suffix) ∨
      (name ≠ [] ∧ (name ++ suffix).Listable ∧ r.HasFile files (name ++ suffix)) := by
  rw [names_eq_ok h, (inOrder_perm _).mem_iff, List.mem_map]
  constructor
  · rintro ⟨t, ht, hname⟩
    obtain ⟨hsuffix, listable, hfile⟩ := mem_templateFiles.1 ht
    rcases (templateName_eq_iff hsuffix).1 hname with ⟨rfl, rfl⟩ | ⟨rfl, hne⟩
    · exact .inl ⟨rfl, hfile⟩
    · exact .inr ⟨hne, listable, hfile⟩
  · rintro (⟨rfl, hfile⟩ | ⟨hne, listable, hfile⟩)
    · have listable : Text.Listable suffix := Text.listable_of_not_hasLone (by decide)
      exact ⟨suffix, mem_templateFiles.2 ⟨by decide, listable, hfile⟩, rfl⟩
    · have hsuffix : suffix.isSuffixOf (name ++ suffix) :=
        List.isSuffixOf_iff_suffix.2 (List.suffix_append name suffix)
      exact ⟨name ++ suffix, mem_templateFiles.2 ⟨hsuffix, listable, hfile⟩,
        (templateName_eq_iff hsuffix).2 (.inr ⟨rfl, hne⟩)⟩

theorem mem_names_of_accepted (h : r.names (F := F) files = .ok ns)
    (hpath : r.pathOf name = .ok path) : name ∈ ns ↔
      (files.isFile path = .ok true ∧ (name ++ suffix).Listable) ∨
        (name = suffix ∧ r.HasFile files suffix) := by
  unfold pathOf at hpath
  split at hpath
  · rename_i accepted
    cases hpath
    have hne : name ≠ [] := by
      rintro rfl
      exact absurd accepted (by decide)
    rw [mem_names h, or_comm]
    exact or_congr_left ⟨fun ⟨_, listable, hfile⟩ => ⟨hfile, listable⟩,
      fun ⟨hfile, listable⟩ => ⟨hne, listable, hfile⟩⟩
  · cases hpath

theorem mem_names_of_rejected (h : r.names (F := F) files = .ok ns) {e : NoSuchTemplate}
    (hpath : r.pathOf name = .error e) : name ∈ ns ↔
      name ≠ [] ∧ (name ++ suffix).Listable ∧ r.HasFile files (name ++ suffix) := by
  have hne : name ≠ suffix := by
    rintro rfl
    have accepted : isTemplateName suffix := by decide
    simp [pathOf, accepted] at hpath
  rw [mem_names h]
  exact ⟨fun hmem => hmem.resolve_left fun ⟨heq, _⟩ => hne heq, .inr⟩

/-- Two listed names differ, or they are of the files of the bare and of the doubled suffix. -/
def Apart (files : FileSystem) (r : Registry A) (s t : Text) : Prop :=
  s ≠ t ∨ (s = suffix ∧ t = suffix ∧ r.HasFile files suffix ∧ r.HasFile files (suffix ++ suffix))

theorem Apart.symm {s t : Text} (h : r.Apart files s t) : r.Apart files t s := by
  rcases h with hne | ⟨hs, ht, hfiles⟩
  · exact .inl hne.symm
  · exact .inr ⟨ht, hs, hfiles⟩

theorem templateNames_apart (tidy : files.entries.keys.Nodup) (r : Registry A) :
    ((r.templateFiles files).map templateName).Pairwise (r.Apart files) := by
  have hfiles : (r.templateFiles files).Nodup :=
    ((FileSystem.nodup_listing tidy r.base).filter _).filter _
  refine List.pairwise_map.2 (hfiles.imp_of_mem fun {t u} ht hu hne => ?_)
  obtain ⟨htsuffix, -, htfile⟩ := mem_templateFiles.1 ht
  obtain ⟨husuffix, -, hufile⟩ := mem_templateFiles.1 hu
  by_cases hsame : templateName t = templateName u
  · obtain ⟨hname, hpair⟩ := eq_or_suffix_of_templateName htsuffix husuffix hsame hne
    refine .inr ⟨hname, hsame ▸ hname, ?_⟩
    rcases hpair with ⟨rfl, rfl⟩ | ⟨rfl, rfl⟩
    · exact ⟨htfile, hufile⟩
    · exact ⟨hufile, htfile⟩
  · exact .inl hsame

/-- The names are in strict order, but for the suffix, which may be there twice. -/
theorem ordered_names (tidy : files.entries.keys.Nodup) (h : r.names (F := F) files = .ok ns) :
    ns.Pairwise fun s t => s.precedes t ∨ (s = suffix ∧ t = suffix ∧ r.HasFile files suffix ∧
      r.HasFile files (suffix ++ suffix)) := by
  rw [names_eq_ok h]
  -- Sorting keeps who is apart from whom, since that does not depend on the order.
  have hapart := ((inOrder_perm _).pairwise_iff Apart.symm).2 (templateNames_apart tidy r)
  refine ((ordered_inOrder _).and hapart).imp fun {s t} ⟨hnotAfter, hst⟩ => ?_
  rcases hst with hne | hdouble
  · exact .inl ((Text.precedes_or_eq_of_not hnotAfter).resolve_right hne)
  · exact .inr hdouble

def directoryOf (names : List String) : FileSystem :=
  let writes := names.map fun name =>
    FileSystem.Edit.write ⟨.relative, ["t", Text.ofString name]⟩ [123, 125] 5
  (FileSystem.Edit.makeDirectory ⟨.relative, ["t"]⟩ 1 :: writes).foldl (fun fs e => fs.edit e) {}

/-- Listing fails only where a path is too long or a barrier stands at it. What is listed are the
accepted names with a file, as far as the file is listed under the same text, the bare suffix for a
file under it, and the names of all other files with the suffix, which are not accepted. No name but
the suffix is listed twice, and the names are in strict order. Permissions are left out: a directory
that can be searched can be listed as well. -/
theorem names_describe_template_files (files : FileSystem) (tidy : files.entries.keys.Nodup)
    (r : Registry A) :
    (∀ e, r.names (F := F) files = .error e → ∃ path refused, e = .lookup refused path ∧
      (refused = .nameTooLong ∨ files.Barred path refused)) ∧
    ∀ ns, r.names (F := F) files = .ok ns →
      (ns.Pairwise fun s t => s.precedes t ∨ (s = suffix ∧ t = suffix ∧ r.HasFile files suffix ∧
        r.HasFile files (suffix ++ suffix))) ∧
      (∀ name path, r.pathOf name = .ok path →
        (name ∈ ns ↔ (files.isFile path = .ok true ∧ (name ++ suffix).Listable) ∨
          (name = suffix ∧ r.HasFile files suffix))) ∧
      ∀ name e, r.pathOf name = .error e →
        (name ∈ ns ↔ name ≠ [] ∧ (name ++ suffix).Listable ∧ r.HasFile files (name ++ suffix)) := by
  refine ⟨fun e h => ?_, fun ns h => ⟨ordered_names tidy h, ?_, ?_⟩⟩
  · obtain ⟨path, refused, heq, undecided⟩ := names_eq_error h
    rcases FileSystem.undecided_iff.1 undecided with barred | ⟨hlong, -⟩
    · exact ⟨path, refused, heq, .inr barred⟩
    · exact ⟨path, refused, heq, .inl hlong⟩
  · exact fun name path => mem_names_of_accepted h
  · exact fun name e => mem_names_of_rejected h

/-- What is listed of a directory with one template has a file. -/
theorem names_describe_template_files_single :
    let files := directoryOf ["a.json"]
    let r : Registry Unit := { base := ⟨.relative, ["t"]⟩, strategy := .modified }
    files.entries.keys.Nodup ∧ (r.names (F := Unit) files).toOption = some [Text.ofString "a"] ∧
      files.isFile ⟨.relative, ["t", "a.json"]⟩ = .ok true := by
  intro files r
  have hempty : ({} : FileSystem).entries.keys.Nodup := List.nodup_nil
  have tidy : files.entries.keys.Nodup := FileSystem.nodup_edits hempty _
  have hlisted : (r.names (F := Unit) files).toOption = some [Text.ofString "a"] := by
    decide +kernel
  refine ⟨tidy, hlisted, ?_⟩
  cases hnames : r.names (F := Unit) files with
  | error e =>
    rw [hnames] at hlisted
    cases hlisted
  | ok ns =>
    rw [hnames] at hlisted
    cases hlisted
    obtain ⟨-, hdescribe⟩ := names_describe_template_files (F := Unit) files tidy r
    obtain ⟨-, haccepted, -⟩ := hdescribe _ hnames
    have hmem := (haccepted "a" ⟨.relative, ["t", "a.json"]⟩ (by decide)).1 List.mem_cons_self
    exact (hmem.resolve_right fun ⟨hsuffix, _⟩ => absurd hsuffix (by decide)).1

/-- A name that is not accepted is listed, and another one is listed twice. -/
theorem names_not_accepted_are_listed :
    let files := directoryOf ["..json", ".json", ".json.json"]
    let r : Registry Unit := { base := ⟨.relative, ["t"]⟩, strategy := .modified }
    (r.names (F := Unit) files).toOption = some ([".", ".json", ".json"].map Text.ofString) ∧
      r.pathOf "." = .error ⟨"."⟩ := by
  decide +kernel

end Registry

end LiveTemplates
