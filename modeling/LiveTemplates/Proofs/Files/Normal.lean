import LiveTemplates.Proofs.Files.Listing
import Mathlib.Data.List.TakeWhile

/-!
# Normal paths

A path that was read from a text is normal: none of its names is empty or `.`, and none holds a
slash. A normal path is written as a text that is read as the path again, so different normal
paths have different texts. A text that is joined with a name is read as the path of the text with
this one name behind its own, however many slashes the text ends with.
-/

namespace LiveTemplates

namespace Path

structure Component (name : Text) : Prop where
  nonempty : name ≠ []
  ne_here : name ≠ here
  undivided : slash ∉ name

def Normal (p : Path) : Prop := ∀ name ∈ p.names, Component name

variable {p q : Path} {s t name : Text} {ts : List Text}

section Pieces

theorem pieces_ne_nil (t : Text) : pieces t ≠ [] := by
  cases t with
  | nil => simp [pieces]
  | cons c rest =>
    rw [pieces]
    split
    · simp
    · split <;> simp

/-- A character other than the slash belongs to the first piece of what follows. -/
theorem pieces_cons {c : CodePoint} (hc : c ≠ slash) (t : Text) :
    ∃ piece more, pieces t = piece :: more ∧ pieces (c :: t) = (c :: piece) :: more := by
  obtain ⟨piece, more, hpieces⟩ := List.exists_cons_of_ne_nil (pieces_ne_nil t)
  exact ⟨piece, more, hpieces, by rw [pieces, if_neg hc, hpieces]⟩

theorem pieces_append_slash (s t : Text) : pieces (s ++ slash :: t) = pieces s ++ pieces t := by
  induction s with
  | nil => simp [pieces]
  | cons c rest ih =>
    by_cases hc : c = slash
    · rw [List.cons_append, pieces, pieces, if_pos hc, if_pos hc, ih, List.cons_append]
    · obtain ⟨piece, more, hrest, hpieces⟩ := pieces_cons hc rest
      rw [hpieces, List.cons_append, pieces, if_neg hc, ih, hrest]
      rfl

theorem pieces_of_undivided (h : slash ∉ t) : pieces t = [t] := by
  induction t with
  | nil => rfl
  | cons c rest ih =>
    obtain ⟨hc, hrest⟩ := List.ne_and_not_mem_of_not_mem_cons h
    rw [pieces, if_neg (Ne.symm hc), ih hrest]

theorem undivided_of_mem_pieces (h : name ∈ pieces t) : slash ∉ name := by
  induction t generalizing name with
  | nil =>
    rw [List.mem_singleton.1 h]
    exact List.not_mem_nil
  | cons c rest ih =>
    by_cases hc : c = slash
    · rw [pieces, if_pos hc] at h
      rcases List.mem_cons.1 h with rfl | h
      · exact List.not_mem_nil
      · exact ih h
    · obtain ⟨piece, more, hrest, hpieces⟩ := pieces_cons hc rest
      rw [hpieces] at h
      rw [hrest] at ih
      rcases List.mem_cons.1 h with rfl | h
      · exact List.not_mem_cons_of_ne_of_not_mem (Ne.symm hc) (ih List.mem_cons_self)
      · exact ih (List.mem_cons_of_mem _ h)

theorem pieces_intercalate (hts : ts ≠ []) (h : ∀ t ∈ ts, slash ∉ t) :
    pieces (Text.intercalate [slash] ts) = ts := by
  induction ts with
  | nil => exact (hts rfl).elim
  | cons t rest ih =>
    have ht : pieces t = [t] := pieces_of_undivided (h t List.mem_cons_self)
    cases rest with
    | nil => exact ht
    | cons u more =>
      have hmore := ih (List.cons_ne_nil u more) fun v hv => h v (List.mem_cons_of_mem _ hv)
      calc pieces (t ++ [slash] ++ Text.intercalate [slash] (u :: more))
          = pieces (t ++ slash :: Text.intercalate [slash] (u :: more)) := by
            rw [List.append_assoc, List.singleton_append]
        _ = pieces t ++ pieces (Text.intercalate [slash] (u :: more)) := pieces_append_slash _ _
        _ = t :: u :: more := by rw [ht, hmore, List.singleton_append]

end Pieces

section Anchors

def Inward (t : Text) : Prop := t.takeWhile (· = slash) = []

theorem Component.inward (h : Component t) : Inward t := by
  cases t with
  | nil => rfl
  | cons c rest =>
    have hc : c ≠ slash := fun heq => h.undivided (heq ▸ List.mem_cons_self)
    simp [Inward, hc]

theorem anchorOf_append (h : Inward t) : anchorOf (s ++ t) = anchorOf s := by
  have hslashes : (s ++ t).takeWhile (· = slash) = s.takeWhile (· = slash) := by
    rw [List.takeWhile_append, h, List.append_nil]
    exact ite_eq_right_iff.2 fun hall => ((List.takeWhile_prefix _).eq_of_length hall).symm
  rw [anchorOf, hslashes]
  rfl

/-- Slashes behind any other character say nothing about the start. -/
theorem anchorOf_append_of_getLast (hs : s ≠ []) (hlast : s.getLast? ≠ some slash) (t : Text) :
    anchorOf (s ++ t) = anchorOf s := by
  unfold anchorOf
  rw [List.takeWhile_append, if_neg]
  intro hall
  have hslashes : s.takeWhile (· = slash) = s :=
    (List.takeWhile_prefix _).eq_of_length hall
  have hmem : s.getLast hs ∈ s.takeWhile (· = slash) := by
    rw [hslashes]
    exact List.getLast_mem hs
  have heq : s.getLast hs = slash := by simpa using List.mem_takeWhile_imp hmem
  exact hlast (by rw [List.getLast?_eq_getLast_of_ne_nil hs, heq])

theorem anchorOf_text (anchor : Anchor) (h : Inward t) :
    anchorOf (Anchor.text anchor ++ t) = anchor := by
  rw [anchorOf_append h]
  cases anchor <;> decide

end Anchors

section Reading

def kept (pieces : List Text) : List Text :=
  pieces.filter fun piece => piece ≠ [] ∧ piece ≠ here

theorem parse_eq (t : Text) : parse t = ⟨anchorOf t, kept (pieces t)⟩ := rfl

theorem kept_append (ps qs : List Text) : kept (ps ++ qs) = kept ps ++ kept qs :=
  List.filter_append ps qs

theorem kept_of_components (h : ∀ t ∈ ts, Component t) : kept ts = ts := by
  refine List.filter_eq_self.2 fun t ht => ?_
  simp [(h t ht).nonempty, (h t ht).ne_here]

theorem kept_of_component (h : Component t) : kept (pieces t) = [t] := by
  rw [pieces_of_undivided h.undivided]
  exact kept_of_components fun u hu => List.mem_singleton.1 hu ▸ h

theorem kept_anchor (anchor : Anchor) (t : Text) :
    kept (pieces (Anchor.text anchor ++ t)) = kept (pieces t) := by
  cases anchor <;> rfl

/-- Every path that is read from a text is normal. -/
theorem normal_parse (t : Text) : (parse t).Normal := by
  intro name hname
  obtain ⟨hpiece, hkept⟩ := List.mem_filter.1 hname
  have hnames : name ≠ [] ∧ name ≠ here := by simpa using hkept
  exact ⟨hnames.1, hnames.2, undivided_of_mem_pieces hpiece⟩

theorem Normal.child (h : p.Normal) (hname : Component name) : (p.child name).Normal := by
  intro u hu
  rcases List.mem_append.1 hu with hu | hu
  · exact h u hu
  · exact List.mem_singleton.1 hu ▸ hname

theorem inward_intercalate (h : ∀ t ∈ ts, Component t) : Inward (Text.intercalate [slash] ts) := by
  cases ts with
  | nil => rfl
  | cons t rest =>
    have ht := h t List.mem_cons_self
    obtain ⟨c, more, rfl⟩ := List.exists_cons_of_ne_nil ht.nonempty
    have hc : c ≠ slash := fun heq => ht.undivided (heq ▸ List.mem_cons_self)
    cases rest <;> simp [Inward, Text.intercalate, hc]

theorem text_eq (h : p ≠ ⟨.relative, []⟩) :
    p.text = Anchor.text p.anchor ++ Text.intercalate [slash] p.names := by
  obtain ⟨anchor, names⟩ := p
  unfold text
  split
  · rename_i hanchor hnames
    exact (h (by rw [show anchor = _ from hanchor, show names = _ from hnames])).elim
  · rfl

/-- The text of a normal path is read as the path. -/
theorem parse_text (h : p.Normal) : parse p.text = p := by
  by_cases hempty : p = ⟨.relative, []⟩
  · rw [hempty]
    decide
  · have hanchor : anchorOf p.text = p.anchor := by
      rw [text_eq hempty]
      exact anchorOf_text p.anchor (inward_intercalate h)
    have hnames : kept (pieces p.text) = p.names := by
      rw [text_eq hempty, kept_anchor]
      by_cases hnames : p.names = []
      · rw [hnames]
        rfl
      · rw [pieces_intercalate hnames fun t ht => (h t ht).undivided, kept_of_components h]
    rw [parse_eq, hanchor, hnames]

theorem text_injective (hp : p.Normal) (hq : q.Normal) (h : p.text = q.text) : p = q := by
  rw [← parse_text hp, h, parse_text hq]

end Reading

section Joining

/-- One text behind another, with a slash between them where there is none yet. A text that starts
with a slash stands alone. -/
def joined (s t : Text) : Text :=
  if t.head? = some slash then t
  else if s = [] ∨ s.getLast? = some slash then s ++ t
  else s ++ slash :: t

theorem parse_joined (s : Text) (h : Component t) : parse (joined s t) = (parse s).child t := by
  have hhead : t.head? ≠ some slash := by
    intro heq
    exact h.undivided (List.mem_of_head? heq)
  rw [joined, if_neg hhead]
  split
  · rename_i hend
    have hnames : kept (pieces (s ++ t)) = kept (pieces s) ++ [t] := by
      rcases hend with rfl | hlast
      · exact kept_of_component h
      · -- the slash at the end is the one that parts the name from those of the text
        obtain ⟨front, rfl⟩ := List.getLast?_eq_some_iff.1 hlast
        rw [List.append_assoc, List.singleton_append, pieces_append_slash, pieces_append_slash,
          kept_append, kept_append, kept_of_component h]
        simp [pieces, kept]
    rw [parse_eq, parse_eq, anchorOf_append h.inward, hnames]
    rfl
  · rename_i hend
    obtain ⟨hs, hlast⟩ := not_or.1 hend
    rw [parse_eq, parse_eq, anchorOf_append_of_getLast hs hlast, pieces_append_slash, kept_append,
      kept_of_component h]
    rfl

end Joining

section Collapsing

/-- Adds a name to those of a path, where `..` takes the last of them away. At the root it stays
there, and behind nothing or behind another `..` it is kept. -/
def collapse (rooted : Bool) (names : List Text) (name : Text) : List Text :=
  if name ≠ parent ∨ (¬ rooted ∧ names = []) ∨ names.getLast? = some parent then names ++ [name]
  else names.dropLast

def collapsed (p : Path) : Path := ⟨p.anchor, p.names.foldl (collapse p.isAbsolute) []⟩

theorem collapsed_child (p : Path) (h : name ≠ parent) :
    (p.child name).collapsed = p.collapsed.child name := by
  have hnames : (p.names ++ [name]).foldl (collapse p.isAbsolute) [] =
      p.names.foldl (collapse p.isAbsolute) [] ++ [name] := by
    rw [List.foldl_append]
    exact if_pos (.inl h)
  exact congrArg (Path.mk p.anchor) hnames

example : (parse "/a/../../b/./c/..").collapsed = parse "/b" := by decide +kernel
example : (parse "../a/../..").collapsed = parse "../.." := by decide +kernel

end Collapsing

end Path

end LiveTemplates
