import LiveTemplates.Proofs.Files.Listed
import Mathlib.Data.List.Nodup

/-!
# What a directory lists

A directory lists the text of each name in it once. A file is found below a directory under every
text that is written as the octets of its name, so it is found under the text that is listed. No two
entries of a file system have the same names, and edits keep it so.
-/

namespace LiveTemplates

namespace Text

/-- A beginning of a text that can be encoded can be encoded. -/
theorem octetsFrom_append {s t : Text} {position : Nat} {bytes : Bytes}
    (h : octetsFrom position (s ++ t) = .ok bytes) :
    ∃ front, octetsFrom position s = .ok front ∧ front.length ≤ bytes.length := by
  induction s generalizing position bytes with
  | nil => exact ⟨[], rfl, Nat.zero_le _⟩
  | cons p rest ih =>
    cases p with
    | char c =>
      obtain ⟨more, hrest, rfl⟩ := map_eq_ok.1 h
      obtain ⟨front, hfront, hshorter⟩ := ih hrest
      exact ⟨Utf8.encodeChar c ++ front, by simp only [octetsFrom, hfront]; rfl,
        by simpa using hshorter⟩
    | lone offset =>
      rw [List.cons_append, octetsFrom] at h
      split at h
      · rename_i hoffset
        obtain ⟨more, hrest, rfl⟩ := map_eq_ok.1 h
        obtain ⟨front, hfront, hshorter⟩ := ih hrest
        exact ⟨_ :: front, by simp only [octetsFrom, hfront, if_pos hoffset]; rfl,
          by simpa using hshorter⟩
      · cases h

theorem intercalate_append (separator last : Text) {ts : List Text} (h : ts ≠ []) :
    intercalate separator (ts ++ [last]) = intercalate separator ts ++ separator ++ last := by
  induction ts with
  | nil => exact (h rfl).elim
  | cons t rest ih =>
    cases rest with
    | nil => rfl
    | cons u more =>
      have hrest := ih (by simp)
      simp only [List.cons_append, intercalate] at hrest ⊢
      rw [hrest]
      simp

end Text

namespace Path

/-- The text of a path below another one is the text of that, and the name behind it. -/
theorem text_child (path : Path) (name : Text) (h : path ≠ ⟨.relative, []⟩) :
    ∃ separator, (separator = [] ∨ separator = [slash]) ∧
      (path.child name).text = path.text ++ separator ++ name := by
  obtain ⟨anchor, names⟩ := path
  cases names with
  | nil =>
    cases anchor with
    | relative => exact (h rfl).elim
    | absolute => exact ⟨[], .inl rfl, rfl⟩
    | doubled => exact ⟨[], .inl rfl, rfl⟩
  | cons first more =>
    have hchild : (Path.child ⟨anchor, first :: more⟩ name).text =
        Anchor.text anchor ++ Text.intercalate [slash] ((first :: more) ++ [name]) := by
      cases anchor <;> rfl
    have htext : Path.text ⟨anchor, first :: more⟩ =
        Anchor.text anchor ++ Text.intercalate [slash] (first :: more) := by
      cases anchor <;> rfl
    refine ⟨[slash], .inr rfl, ?_⟩
    rw [hchild, htext, Text.intercalate_append _ _ (by simp)]
    simp only [List.append_assoc]

theorem check_eq_ok {path : Path} : path.check = .ok () ↔
    ∃ octets, path.text.octets = .ok octets ∧ .char '\x00' ∉ path.text ∧
      octets.length ≤ pathLimit := by
  unfold check
  cases path.text.octets with
  | error u => simp
  | ok octets =>
    by_cases hnul : .char '\x00' ∈ path.text
    · simp [hnul]
    · by_cases hlong : pathLimit < octets.length
      · simp [hnul, hlong]
      · simp [hnul, hlong, Nat.not_lt.1 hlong]

/-- A path that leads below another one can only be handed over if that can. -/
theorem check_of_child {path : Path} {name : Text} (h : (path.child name).check = .ok ()) :
    path.check = .ok () := by
  by_cases hempty : path = ⟨.relative, []⟩
  · rw [hempty]
    decide
  obtain ⟨separator, -, htext⟩ := text_child path name hempty
  obtain ⟨octets, hoctets, hnul, hlimit⟩ := check_eq_ok.1 h
  rw [htext, List.append_assoc] at hoctets hnul
  obtain ⟨front, hfront, hshorter⟩ := Text.octetsFrom_append hoctets
  exact check_eq_ok.2 ⟨front, hfront, fun hmem => hnul (List.mem_append_left _ hmem), by omega⟩

end Path

namespace FileSystem

variable {fs : FileSystem} {path : Path} {t : Text} {e : SystemError}

section Errors

theorem enter_error {names : List Bytes} (h : fs.enter names t = .error e) :
    e = .nameTooLong ∨ e.meansAbsent := by
  unfold enter at h
  split at h
  · split at h
    · cases h
    · split at h
      · cases h; exact .inr rfl
      · split at h
        · cases h; exact .inl rfl
        · cases h
  · cases h; exact .inr rfl
  · cases h; exact .inr rfl

theorem follow_error {names : List Bytes} {ts : List Text} (h : fs.follow names ts = .error e) :
    e = .nameTooLong ∨ e.meansAbsent := by
  induction ts generalizing names with
  | nil => cases h
  | cons name rest ih =>
    rw [follow] at h
    split at h
    · rename_i henter
      cases h
      exact enter_error henter
    · exact ih h

/-- A barrier stands at the path, which could be handed over. -/
def Barred (fs : FileSystem) (path : Path) (e : SystemError) : Prop :=
  path.check = .ok () ∧ (fs.barriers.find? path.text).map Barrier.error = some e

/-- The path or a name on it is too long, and no barrier stands in front of that. -/
def TooLong (fs : FileSystem) (path : Path) : Prop :=
  path.check = .error (.system .nameTooLong) ∨
    fs.reach path = .ok () ∧ fs.place path = .error .nameTooLong

/-- The file system does not tell whether there is anything at the path, for this error. -/
def Undecided (fs : FileSystem) (path : Path) (e : SystemError) : Prop :=
  fs.lookup path = .error (.system e) ∧ e.meansAbsent = false

instance : Decidable (fs.Undecided path e) := inferInstanceAs (Decidable (_ ∧ _))

theorem reach_error (h : fs.reach path = .error (.system e)) :
    fs.Barred path e ∨ path.check = .error (.system .nameTooLong) ∧ e = .nameTooLong := by
  unfold reach at h
  split at h
  · rename_i hcheck
    cases h
    refine .inr ?_
    unfold Path.check at hcheck ⊢
    split at hcheck
    · cases hcheck
    · split at hcheck
      · cases hcheck
      · split at hcheck
        · cases hcheck
          exact ⟨by simp [*], rfl⟩
        · cases hcheck
  · rename_i hcheck
    split at h
    · rename_i barrier hbarrier
      cases h
      exact .inl ⟨hcheck, by rw [hbarrier]; rfl⟩
    · cases h

/-- There are two reasons for which a file system does not tell whether there is anything. -/
theorem undecided_iff :
    fs.Undecided path e ↔ fs.Barred path e ∨ e = .nameTooLong ∧ fs.TooLong path := by
  constructor
  · rintro ⟨hlookup, present⟩
    unfold lookup at hlookup
    split at hlookup
    · rename_i hreach
      cases hlookup
      rcases reach_error hreach with hbarred | ⟨hcheck, rfl⟩
      · exact .inl hbarred
      · exact .inr ⟨rfl, .inl hcheck⟩
    · rename_i hreach
      split at hlookup
      · rename_i hplace
        cases hlookup
        rcases follow_error hplace with rfl | absent
        · exact .inr ⟨rfl, .inr ⟨hreach, hplace⟩⟩
        · exact absurd absent (Bool.eq_false_iff.1 present)
      · split at hlookup
        · cases hlookup
          cases present
        · cases hlookup
  · rintro (⟨hcheck, hbarrier⟩ | ⟨rfl, hcheck | ⟨hreach, hplace⟩⟩)
    · obtain ⟨barrier, hfound, rfl⟩ := Option.map_eq_some_iff.1 hbarrier
      exact ⟨by simp only [lookup, reach, hcheck, hfound], barrier.leavesOpen⟩
    · exact ⟨by simp only [lookup, reach, hcheck], rfl⟩
    · exact ⟨by simp only [lookup, hreach, hplace], rfl⟩

theorem find?_eq_error_iff : fs.find? path = .error e ↔ fs.Undecided path e := by
  unfold find? Undecided
  cases fs.lookup path with
  | ok entry => simp
  | error refusal =>
    cases refusal with
    | system e' =>
      by_cases heq : e' = e
      · subst heq
        cases hmeans : e'.meansAbsent <;> simp [hmeans]
      · cases hmeans : e'.meansAbsent <;> simp [hmeans, heq]
    | _ => simp

theorem isFile_eq_error_iff : fs.isFile path = .error e ↔ fs.Undecided path e := by
  rw [← find?_eq_error_iff, isFile]
  cases fs.find? path with
  | error e' => simp
  | ok entry => cases entry with
    | none => simp
    | some entry => cases entry <;> simp

theorem isDirectory_eq_error_iff : fs.isDirectory path = .error e ↔ fs.Undecided path e := by
  rw [← find?_eq_error_iff, isDirectory]
  cases fs.find? path with
  | error e' => simp
  | ok entry => cases entry with
    | none => simp
    | some entry => cases entry <;> simp

end Errors

section Children

theorem isFile_eq_ok_true : fs.isFile path = .ok true ↔ ∃ id, fs.lookup path = .ok (.file id) := by
  unfold isFile find?
  cases hlookup : fs.lookup path with
  | ok entry => cases entry <;> simp
  | error refusal =>
    cases refusal with
    | system e => cases hmeans : e.meansAbsent <;> simp [hmeans]
    | _ => simp

theorem follow_append {names : List Bytes} {ts : List Text} :
    fs.follow names (ts ++ [t]) =
      match fs.follow names ts with
      | .error e => .error e
      | .ok names' => fs.enter names' t := by
  induction ts generalizing names with
  | nil =>
    simp only [List.nil_append, follow]
    cases fs.enter names t <;> rfl
  | cons name rest ih =>
    simp only [List.cons_append, follow]
    cases fs.enter names name with
    | error e => rfl
    | ok names' => exact ih

theorem place_child : fs.place (path.child t) =
    match fs.place path with
    | .error e => .error e
    | .ok names => fs.enter names t :=
  follow_append

theorem place_child_eq_ok {below : List Bytes} (h : fs.place (path.child t) = .ok below) :
    ∃ names, fs.place path = .ok names ∧ fs.enter names t = .ok below := by
  rw [place_child] at h
  split at h
  · cases h
  · rename_i names hnames
    exact ⟨names, hnames, h⟩

/-- Only a directory can be entered. -/
theorem directory_of_enter {names below : List Bytes} (h : fs.enter names t = .ok below) :
    ∃ modified, fs.entryAt names = some (.directory modified) := by
  unfold enter at h
  split at h
  · exact ⟨_, ‹_›⟩
  · cases h
  · cases h

/-- A name other than that of the parent directory leads to an entry of a directory. -/
theorem enter_eq_ok {names below : List Bytes} (h : fs.enter names t = .ok below)
    (hparent : t ≠ Path.parent) : ∃ octets, t.octets = .ok octets ∧ below = names ++ [octets] := by
  unfold enter at h
  split at h
  · rw [if_neg hparent] at h
    split at h
    · cases h
    · rename_i octets hoctets
      split at h
      · cases h
      · cases h
        exact ⟨octets, hoctets, rfl⟩
  · cases h
  · cases h

/-- What is placed below a directory has the octets of its name there. -/
theorem place_below {below : List Bytes} (h : fs.place (path.child t) = .ok below)
    (hparent : t ≠ Path.parent) :
    ∃ names octets, fs.place path = .ok names ∧ t.octets = .ok octets ∧
      below = names ++ [octets] := by
  obtain ⟨names, hnames, henter⟩ := place_child_eq_ok h
  obtain ⟨octets, hoctets, hbelow⟩ := enter_eq_ok henter hparent
  exact ⟨names, octets, hnames, hoctets, hbelow⟩

/-- A file that is found below a directory is an entry there, under its octets. -/
theorem entry_of_child {id : Nat} (h : fs.lookup (path.child t) = .ok (.file id))
    (hparent : t ≠ Path.parent) :
    ∃ names octets, fs.place path = .ok names ∧ t.octets = .ok octets ∧
      fs.entries.find? (names ++ [octets]) = some (.file id) := by
  obtain ⟨-, below, hplace, hentry⟩ := lookup_eq_ok.1 h
  obtain ⟨names, octets, hnames, hoctets, rfl⟩ := place_below hplace hparent
  have hfound : fs.entryAt (names ++ [octets]) = fs.entries.find? (names ++ [octets]) := by
    cases names <;> rfl
  exact ⟨names, octets, hnames, hoctets, hfound.symm.trans hentry⟩

def listedIn? (names key : List Bytes) : Option Text :=
  match key.getLast? with
  | some octets => if key.dropLast = names then some (Text.ofOctets octets) else none
  | none => none

theorem listing_eq {names : List Bytes} (h : fs.place path = .ok names) :
    fs.listing path = fs.entries.keys.filterMap (listedIn? names) := by
  unfold listing
  rw [h]
  rfl

theorem listedIn?_eq_some {names key : List Bytes} :
    listedIn? names key = some t ↔
      ∃ octets, key = names ++ [octets] ∧ Text.ofOctets octets = t := by
  unfold listedIn?
  constructor
  · intro h
    split at h
    · rename_i octets hlast
      split at h
      · rename_i hnames
        subst hnames
        exact ⟨octets, (List.dropLast_append_getLast? octets hlast).symm, Option.some.inj h⟩
      · cases h
    · cases h
  · rintro ⟨octets, rfl, rfl⟩
    simp

theorem mem_listing : t ∈ fs.listing path ↔
    ∃ names octets, fs.place path = .ok names ∧ names ++ [octets] ∈ fs.entries.keys ∧
      Text.ofOctets octets = t := by
  constructor
  · intro h
    unfold listing at h
    split at h
    · rename_i names hplace
      obtain ⟨key, hkey, hlisted⟩ := List.mem_filterMap.1 h
      obtain ⟨octets, rfl, rfl⟩ := listedIn?_eq_some.1 hlisted
      exact ⟨names, octets, hplace, hkey, rfl⟩
    · cases h
  · rintro ⟨names, octets, hplace, hkey, rfl⟩
    rw [listing_eq hplace]
    exact List.mem_filterMap.2 ⟨_, hkey, listedIn?_eq_some.2 ⟨octets, rfl, rfl⟩⟩

/-- No text is listed twice. -/
theorem nodup_listing (tidy : fs.entries.keys.Nodup) (path : Path) : (fs.listing path).Nodup := by
  unfold listing
  split
  · refine tidy.filterMap fun key key' t ht ht' => ?_
    obtain ⟨octets, rfl, rfl⟩ := listedIn?_eq_some.1 ht
    obtain ⟨octets', rfl, heq⟩ := listedIn?_eq_some.1 ht'
    rw [Text.ofOctets_injective heq]
  · exact List.nodup_nil

/-- Below what a file is found, there is a directory, even if it cannot be looked up itself. -/
theorem isDirectory_of_child (h : fs.isFile (path.child t) = .ok true) :
    fs.isDirectory path ≠ .ok false := by
  obtain ⟨id, hlookup⟩ := isFile_eq_ok_true.1 h
  obtain ⟨hreach, below, hplace, -⟩ := lookup_eq_ok.1 hlookup
  obtain ⟨names, hnames, henter⟩ := place_child_eq_ok hplace
  obtain ⟨modified, hdirectory⟩ := directory_of_enter henter
  have hcheck : path.check = .ok () := Path.check_of_child (reach_eq_ok.1 hreach).1
  cases hbarrier : fs.barriers.find? path.text with
  | none =>
    have hfound : fs.lookup path = .ok (.directory modified) :=
      lookup_eq_ok.2 ⟨reach_eq_ok.2 ⟨hcheck, hbarrier⟩, names, hnames, hdirectory⟩
    simp [isDirectory, find?, hfound]
  | some barrier =>
    have hundecided : fs.Undecided path barrier.error :=
      undecided_iff.2 (.inl ⟨hcheck, by rw [hbarrier]; rfl⟩)
    rw [isDirectory_eq_error_iff.2 hundecided]
    simp

/-- A file that is found below a directory under the text of its octets is listed there. -/
theorem listed_of_child (h : fs.isFile (path.child t) = .ok true) (hparent : t ≠ Path.parent)
    (listable : t.Listable) : t ∈ fs.listing path := by
  obtain ⟨id, hlookup⟩ := isFile_eq_ok_true.1 h
  obtain ⟨names, octets, hplace, hoctets, hfound⟩ := entry_of_child hlookup hparent
  obtain ⟨octets', hoctets', hlisted⟩ := listable
  rw [hoctets, Except.ok.injEq] at hoctets'
  subst hoctets'
  exact mem_listing.2 ⟨names, octets, hplace,
    List.mem_map_of_mem (Keyed.mem_of_find? hfound), hlisted⟩

end Children

section Edits

def moved (old new key : List Bytes) : List Bytes :=
  if old.isPrefixOf key then new ++ key.drop old.length else key

/-- Entries outside of the new place are moved to different names. -/
theorem moved_injOn {old new key key' : List Bytes} (hkey : ¬ new <+: key) (hkey' : ¬ new <+: key')
    (h : moved old new key = moved old new key') : key = key' := by
  unfold moved at h
  split at h
  · rename_i hold
    obtain ⟨below, rfl⟩ := List.isPrefixOf_iff_prefix.1 hold
    split at h
    · rename_i hold'
      obtain ⟨below', rfl⟩ := List.isPrefixOf_iff_prefix.1 hold'
      simpa using h
    · exact (hkey' ⟨_, h⟩).elim
  · split at h
    · exact (hkey ⟨_, h.symm⟩).elim
    · exact h

theorem nodup_rename (tidy : fs.entries.keys.Nodup) {source destination : Path} {fs' : FileSystem}
    (h : fs.rename source destination = .ok fs') : fs'.entries.keys.Nodup := by
  unfold rename at h
  split at h
  · cases h
  · cases h
  · rename_i old new _ _
    split at h
    · cases h
    · split at h
      · cases h
        exact tidy
      · cases h
        let kept := fs.entries.filter fun entry => !new.isPrefixOf entry.1
        have hkept : (Keyed.keys kept).Nodup := tidy.sublist (List.filter_sublist.map Prod.fst)
        have houtside : ∀ key ∈ Keyed.keys kept, ¬ new <+: key := by
          intro key hkey hbelow
          obtain ⟨entry, hentry, rfl⟩ := List.mem_map.1 hkey
          have houtside : (!new.isPrefixOf entry.1) = true := (List.mem_filter.1 hentry).2
          rw [List.isPrefixOf_iff_prefix.2 hbelow] at houtside
          cases houtside
        have hkeys : Keyed.keys (kept.map fun entry =>
            if old.isPrefixOf entry.1 then (new ++ entry.1.drop old.length, entry.2) else entry) =
              (Keyed.keys kept).map (moved old new) := by
          simp only [Keyed.keys, List.map_map]
          refine List.map_congr_left fun entry _ => ?_
          dsimp only [Function.comp_apply, moved]
          split <;> rfl
        have hmoved : ((Keyed.keys kept).map (moved old new)).Nodup :=
          hkept.map_on fun key hkey key' hkey' =>
            moved_injOn (houtside key hkey) (houtside key' hkey')
        rw [← hkeys] at hmoved
        exact hmoved

/-- Edits keep the names of entries apart. -/
theorem nodup_edit (tidy : fs.entries.keys.Nodup) (e : Edit) : (fs.edit e).entries.keys.Nodup := by
  unfold edit
  dsimp only
  split
  · rename_i fs' hfs'
    cases e with
    | write path contents modified =>
      simp only [write] at hfs'
      split at hfs'
      · cases hfs'
      · split at hfs' <;> cases hfs'
        · exact tidy
        · exact Keyed.nodup_keys_put tidy _ _
    | touch path modified =>
      simp only [touch] at hfs'
      split at hfs'
      · cases hfs'
      · split at hfs' <;> cases hfs'
        · exact Keyed.nodup_keys_put tidy _ _
        · exact tidy
    | makeDirectory path modified =>
      simp only [makeDirectory] at hfs'
      split at hfs'
      · cases hfs'
      · split at hfs' <;> cases hfs'
        exact Keyed.nodup_keys_put tidy _ _
    | remove path =>
      simp only [remove] at hfs'
      split at hfs'
      · cases hfs'
      · split at hfs'
        · cases hfs'
        · cases hfs'
          exact Keyed.nodup_keys_drop tidy _
        · split at hfs' <;> cases hfs'
          exact Keyed.nodup_keys_drop tidy _
    | rename source destination => exact nodup_rename tidy hfs'
    | fault path operation fault =>
      cases hfs'
      cases fault <;> exact tidy
    | bar path barrier =>
      cases hfs'
      cases barrier <;> exact tidy
  · exact tidy

theorem nodup_edits (tidy : fs.entries.keys.Nodup) (edits : List Edit) :
    (edits.foldl (fun fs e => fs.edit e) fs).entries.keys.Nodup := by
  induction edits generalizing fs with
  | nil => exact tidy
  | cons e rest ih => exact ih (nodup_edit tidy e)

end Edits

end FileSystem

end LiveTemplates
