import LiveTemplates.Proofs.Files.Listing

/-!
# Paths that are too long

A file system refuses a path that is too long, or that has a name too long for a directory, without
telling whether there is anything. Below a directory these are the only such paths, apart from those
with a barrier.
-/

namespace LiveTemplates

namespace Text

def Beyond (limit : Nat) (t : Text) : Prop :=
  ∃ octets, t.octets = .ok octets ∧ limit < octets.length

theorem octetsFrom_position {position : Nat} {t : Text} {bytes : Bytes}
    (h : octetsFrom position t = .ok bytes) (position' : Nat) :
    octetsFrom position' t = .ok bytes := by
  induction t generalizing position position' bytes with
  | nil => exact h
  | cons p rest ih =>
    cases p with
    | char c =>
      obtain ⟨more, hrest, rfl⟩ := map_eq_ok.1 h
      exact map_eq_ok.2 ⟨more, ih hrest (position' + 1), rfl⟩
    | lone offset =>
      rw [octetsFrom] at h ⊢
      split at h
      · rename_i hoffset
        obtain ⟨more, hrest, rfl⟩ := map_eq_ok.1 h
        rw [if_pos hoffset]
        exact map_eq_ok.2 ⟨more, ih hrest (position' + 1), rfl⟩
      · cases h

theorem octets_append {s t : Text} {front back : Bytes} (hs : s.octets = .ok front)
    (ht : t.octets = .ok back) : (s ++ t).octets = .ok (front ++ back) := by
  suffices h : ∀ position, octetsFrom position s = .ok front →
      octetsFrom position (s ++ t) = .ok (front ++ back) from h 0 hs
  clear hs
  induction s generalizing front with
  | nil =>
    intro position hnil
    cases hnil
    exact octetsFrom_position ht position
  | cons p rest ih =>
    intro position hs
    cases p with
    | char c =>
      obtain ⟨more, hrest, rfl⟩ := map_eq_ok.1 hs
      exact map_eq_ok.2 ⟨more ++ back, ih _ hrest, (List.append_assoc _ _ _).symm⟩
    | lone offset =>
      rw [octetsFrom] at hs
      split at hs
      · rename_i hoffset
        obtain ⟨more, hrest, rfl⟩ := map_eq_ok.1 hs
        rw [List.cons_append, octetsFrom, if_pos hoffset]
        exact map_eq_ok.2 ⟨more ++ back, ih _ hrest, rfl⟩
      · cases hs

end Text

namespace Path

variable {path : Path} {t : Text}

def Overlong (p : Path) : Prop :=
  p.text.Beyond pathLimit ∨ ∃ name ∈ p.names, name.Beyond nameLimit

theorem check_eq_tooLong_iff : path.check = .error (.system .nameTooLong) ↔
    path.text.Beyond pathLimit ∧ .char '\x00' ∉ path.text := by
  unfold check Text.Beyond
  cases path.text.octets with
  | error u => simp
  | ok octets =>
    by_cases hnul : .char '\x00' ∈ path.text
    · simp [hnul]
    · by_cases hlong : pathLimit < octets.length <;> simp [hnul, hlong]

theorem nul_text_child (hpath : .char '\x00' ∉ path.text) (ht : .char '\x00' ∉ t) :
    .char '\x00' ∉ (path.child t).text := by
  by_cases hempty : path = ⟨.relative, []⟩
  · rw [hempty]
    exact ht
  · obtain ⟨separator, hseparator, htext⟩ := text_child path t hempty
    rw [htext]
    rcases hseparator with rfl | rfl <;> simp [hpath, ht, slash]

theorem octets_text_child {front back : Bytes} (hpath : path.text.octets = .ok front)
    (ht : t.octets = .ok back) : ∃ octets, (path.child t).text.octets = .ok octets := by
  by_cases hempty : path = ⟨.relative, []⟩
  · rw [hempty]
    exact ⟨back, ht⟩
  · obtain ⟨separator, hseparator, htext⟩ := text_child path t hempty
    have hbetween : ∃ between, Text.octets separator = .ok between := by
      rcases hseparator with rfl | rfl
      · exact ⟨[], rfl⟩
      · exact ⟨[47], by decide⟩
    obtain ⟨between, hbetween⟩ := hbetween
    rw [htext]
    exact ⟨_, Text.octets_append (Text.octets_append hpath hbetween) ht⟩

end Path

namespace FileSystem

variable {fs : FileSystem} {path : Path} {t : Text} {e : SystemError} {names : List Bytes}

theorem enter_eq_tooLong_iff {modified : Int}
    (hentry : fs.entryAt names = some (.directory modified)) (hparent : t ≠ Path.parent) :
    fs.enter names t = .error .nameTooLong ↔ t.Beyond nameLimit := by
  unfold enter Text.Beyond
  simp only [hentry, if_neg hparent]
  cases t.octets with
  | error u => simp
  | ok octets => by_cases hlong : nameLimit < octets.length <;> simp [hlong]

theorem beyond_of_enter (h : fs.enter names t = .error .nameTooLong) : t.Beyond nameLimit := by
  have hparent : t ≠ Path.parent := by
    rintro rfl
    unfold enter at h
    split at h <;> cases h
  cases hentry : fs.entryAt names with
  | none => simp [enter, hentry] at h
  | some entry =>
    cases entry with
    | file id => simp [enter, hentry] at h
    | directory modified => exact (enter_eq_tooLong_iff hentry hparent).1 h

theorem beyond_of_follow {ts : List Text} (h : fs.follow names ts = .error .nameTooLong) :
    ∃ t ∈ ts, t.Beyond nameLimit := by
  induction ts generalizing names with
  | nil => cases h
  | cons t rest ih =>
    rw [follow] at h
    split at h
    · rename_i henter
      cases h
      exact ⟨t, List.mem_cons_self, beyond_of_enter henter⟩
    · obtain ⟨u, hu, hbeyond⟩ := ih h
      exact ⟨u, List.mem_cons_of_mem _ hu, hbeyond⟩

theorem TooLong.overlong (h : fs.TooLong path) : path.Overlong := by
  rcases h with hcheck | ⟨-, hplace⟩
  · exact .inl (Path.check_eq_tooLong_iff.1 hcheck).1
  · exact .inr (beyond_of_follow hplace)

theorem isDirectory_eq_ok_true :
    fs.isDirectory path = .ok true ↔ ∃ modified, fs.lookup path = .ok (.directory modified) := by
  unfold isDirectory find?
  cases hlookup : fs.lookup path with
  | ok entry => cases entry <;> simp
  | error refusal =>
    cases refusal with
    | system e => cases hmeans : e.meansAbsent <;> simp [hmeans]
    | _ => simp

/-- Below a directory, a path is too long or not by the lengths of the path and of the last name. -/
theorem tooLong_child_iff (h : fs.isDirectory path = .ok true) (hparent : t ≠ Path.parent)
    (hnul : .char '\x00' ∉ t) (unbarred : ∀ e, ¬ fs.Barred (path.child t) e) :
    fs.TooLong (path.child t) ↔
      (path.child t).text.Beyond pathLimit ∨ t.Beyond nameLimit := by
  obtain ⟨modified, hlookup⟩ := isDirectory_eq_ok_true.1 h
  obtain ⟨hreach, names, hplace, hentry⟩ := lookup_eq_ok.1 hlookup
  obtain ⟨front, hfront, hclean, -⟩ := Path.check_eq_ok.1 (reach_eq_ok.1 hreach).1
  have hchild : fs.place (path.child t) = fs.enter names t := by
    rw [place_child, hplace]
  rw [TooLong, hchild, Path.check_eq_tooLong_iff, enter_eq_tooLong_iff hentry hparent]
  constructor
  · rintro (⟨hlong, -⟩ | ⟨-, hlong⟩)
    · exact .inl hlong
    · exact .inr hlong
  · rintro (hlong | hlong)
    · exact .inl ⟨hlong, Path.nul_text_child hclean hnul⟩
    · obtain ⟨back, hback, -⟩ := id hlong
      obtain ⟨octets, hoctets⟩ := Path.octets_text_child hfront hback
      by_cases hlimit : pathLimit < octets.length
      · exact .inl ⟨⟨octets, hoctets, hlimit⟩, Path.nul_text_child hclean hnul⟩
      · have hcheck : (path.child t).check = .ok () := Path.check_eq_ok.2
          ⟨octets, hoctets, Path.nul_text_child hclean hnul, Nat.not_lt.1 hlimit⟩
        refine .inr ⟨reach_eq_ok.2 ⟨hcheck, ?_⟩, hlong⟩
        cases hbarrier : fs.barriers.find? (path.child t).text with
        | none => rfl
        | some barrier => exact absurd ⟨hcheck, by rw [hbarrier]; rfl⟩ (unbarred barrier.error)

/-- Below a directory, a barrier decides, and without one all paths that are too long are undecided,
and no others. -/
theorem undecided_child_iff (h : fs.isDirectory path = .ok true) (hparent : t ≠ Path.parent)
    (hnul : .char '\x00' ∉ t) : fs.Undecided (path.child t) e ↔ fs.Barred (path.child t) e ∨
      e = .nameTooLong ∧ (∀ e', ¬ fs.Barred (path.child t) e') ∧
        ((path.child t).text.Beyond pathLimit ∨ t.Beyond nameLimit) := by
  rw [undecided_iff]
  by_cases barred : ∃ e', fs.Barred (path.child t) e'
  · obtain ⟨e', hcheck, hbarrier⟩ := barred
    have hshort : ¬ fs.TooLong (path.child t) := by
      rintro (hlong | ⟨hreach, -⟩)
      · cases hcheck.symm.trans hlong
      · rw [(reach_eq_ok.1 hreach).2] at hbarrier
        cases hbarrier
    refine or_congr_right (iff_of_false (fun hlong => hshort hlong.2) fun hfree => ?_)
    exact hfree.2.1 e' ⟨hcheck, hbarrier⟩
  · have unbarred : ∀ e', ¬ fs.Barred (path.child t) e' := not_exists.1 barred
    rw [tooLong_child_iff h hparent hnul unbarred]
    exact or_congr_right (and_congr_right fun _ => (and_iff_right unbarred).symm)

end FileSystem

end LiveTemplates
