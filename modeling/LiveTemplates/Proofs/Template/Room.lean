import LiveTemplates.Proofs.Reading.Limits
import LiveTemplates.Proofs.Writing.Respelling

/-!
# Compiling with little room

A stack on which there is room for few containers in each other changes nothing but that some
documents are given up. Their values nest deeper than there is room for, and unless the reader stops
before, there are such documents.
-/

namespace LiveTemplates

namespace Node

mutual

theorem depth_of_exhausts : (room : Nat) → (v : Json) → exhausts room v → room < v.depth
  | _, .scalar _ => fun h => absurd h Bool.false_ne_true
  | 0, .array _ | 0, .object _ => fun _ => Nat.succ_pos _
  | room + 1, .array items => fun h => Nat.succ_lt_succ (itemsDepth_of_exhausts room items h)
  | room + 1, .object members => fun h =>
    Nat.succ_lt_succ (membersDepth_of_exhausts _ room members (Bool.and_eq_true_iff.1 h).2)

theorem itemsDepth_of_exhausts : (room : Nat) → (items : List Json) →
    exhaustsItems room items → room < Json.itemsDepth items
  | _, [] => fun h => absurd h Bool.false_ne_true
  | room, item :: rest => by
    intro h
    rw [exhaustsItems, Bool.or_eq_true, Bool.and_eq_true] at h
    rw [Json.itemsDepth, lt_max_iff]
    exact h.imp (depth_of_exhausts room item) fun hrest =>
      itemsDepth_of_exhausts room rest hrest.2

theorem membersDepth_of_exhausts (special : List Text) : (room : Nat) →
    (members : List (Text × Json)) → exhaustsMembers special room members →
      room < Json.membersDepth members
  | _, [] => fun h => absurd h Bool.false_ne_true
  | room, (name, value) :: rest => by
    intro h
    rw [exhaustsMembers] at h
    rw [Json.membersDepth, lt_max_iff]
    split at h
    · exact .inr (membersDepth_of_exhausts special room rest h)
    · rw [Bool.or_eq_true, Bool.and_eq_true] at h
      exact h.imp (depth_of_exhausts room value) fun hrest =>
        membersDepth_of_exhausts special room rest hrest.2

end

mutual

/-- With less room, no less is given up. -/
theorem exhausts_of_le : {room room' : Nat} → room ≤ room' → (v : Json) → exhausts room' v →
    exhausts room v
  | _, _, _, .scalar _ => fun h => absurd h Bool.false_ne_true
  | 0, _, _, .array _ | 0, _, _, .object _ => fun _ => rfl
  | _ + 1, _ + 1, hle, .array items => exhaustsItems_of_le (Nat.le_of_succ_le_succ hle) items
  | _ + 1, _ + 1, hle, .object members => by
    intro h
    rw [exhausts, Bool.and_eq_true] at h ⊢
    exact ⟨h.1, exhaustsMembers_of_le _ (Nat.le_of_succ_le_succ hle) members h.2⟩

theorem exhaustsItems_of_le : {room room' : Nat} → room ≤ room' → (items : List Json) →
    exhaustsItems room' items → exhaustsItems room items
  | _, _, _, [] => fun h => absurd h Bool.false_ne_true
  | _, _, hle, item :: rest => by
    intro h
    rw [exhaustsItems, Bool.or_eq_true, Bool.and_eq_true] at h ⊢
    exact h.imp (exhausts_of_le hle item) (And.imp_right (exhaustsItems_of_le hle rest))

theorem exhaustsMembers_of_le (special : List Text) : {room room' : Nat} → room ≤ room' →
    (members : List (Text × Json)) → exhaustsMembers special room' members →
      exhaustsMembers special room members
  | _, _, _, [] => fun h => absurd h Bool.false_ne_true
  | _, _, hle, (name, value) :: rest => by
    intro h
    rw [exhaustsMembers] at h ⊢
    split at h
    · rename_i hspecial
      rw [if_pos hspecial]
      exact exhaustsMembers_of_le special hle rest h
    · rename_i hspecial
      rw [Bool.or_eq_true, Bool.and_eq_true] at h
      rw [if_neg hspecial, Bool.or_eq_true, Bool.and_eq_true]
      exact h.imp (exhausts_of_le hle value)
        (And.imp_right (exhaustsMembers_of_le special hle rest))

end

end Node

namespace Root

variable {contents : Bytes} {room room' : Nat} {root : Root} {failure : TemplateFailure}
variable {e : Excess}

/-- Only a value that nests deeper than there is room for, below the object that is the root, is
given up. -/
theorem depth_of_exhausts {v : Json} (h : exhausts room v) : room + 1 < v.depth := by
  cases v with
  | scalar | array => exact absurd h Bool.false_ne_true
  | object members =>
    apply Nat.succ_lt_succ
    rw [exhausts, Bool.or_eq_true, decide_eq_true_eq, Bool.and_eq_true] at h
    rcases h with hcontext | ⟨-, hmembers⟩
    · cases hfound : Keyed.find? members contextName with
      | none =>
        rw [hfound] at hcontext
        exact absurd hcontext (Nat.not_lt_zero room)
      | some context =>
        rw [hfound] at hcontext
        exact Nat.lt_of_lt_of_le hcontext
          (Json.membersDepth_le_iff.1 (Nat.le_refl _) _ (Keyed.mem_of_find? hfound))
    · exact Node.membersDepth_of_exhausts _ room members hmembers

theorem exhausts_of_le (hle : room ≤ room') {v : Json} (h : exhausts room' v) :
    exhausts room v := by
  cases v with
  | scalar | array => exact h
  | object members =>
    rw [exhausts, Bool.or_eq_true, decide_eq_true_eq, Bool.and_eq_true] at h ⊢
    exact h.imp (Nat.lt_of_le_of_lt hle)
      (And.imp_right (Node.exhaustsMembers_of_le _ hle members))

/-- Contents exceed a limit of the reader, or their value is one that the stack has no room for. -/
inductive Exceeds (room : Nat) (contents : Bytes) : Excess → Prop
  | reader {document stripped : List Char} {e : Excess}
    (decode : Utf8.decodeDocument contents = .ok document)
    (strip : Comments.strip document = .ok stripped) (h : Json.Exceeds stripped e) :
    Exceeds room contents e
  | stack {stripped : List Char} {v : Json} (read : ReadAs contents stripped v)
    (deep : room + 1 < v.depth) : Exceeds room contents .stack

/-- With little room, contents compile to the same, or they are given up. -/
theorem ofBytes_room (contents : Bytes) (room : Nat) :
    ofBytes contents (some room) = ofBytes contents ∨
      ofBytes contents (some room) = .error (.exceeded .stack) ∧
        ∃ stripped v, ReadAs contents stripped v ∧ exhausts room v.distinct := by
  unfold ofBytes
  cases hdecode : Utf8.decodeDocument contents with
  | error octets => exact .inl rfl
  | ok document =>
    dsimp only
    unfold ofDocument
    cases hstrip : Comments.strip document with
    | error comment => exact .inl rfl
    | ok stripped =>
      dsimp only
      cases hread : Json.ofDocument stripped with
      | error stop => exact .inl rfl
      | ok v =>
        dsimp only [Option.any]
        cases deep : exhausts room v.distinct with
        | true => exact .inr ⟨rfl, stripped, v, ⟨document, hdecode, hstrip, hread⟩, deep⟩
        | false => exact .inl rfl

theorem ofBytes_of_room_ok (h : ofBytes contents (some room) = .ok root) :
    ofBytes contents = .ok root := by
  rcases ofBytes_room contents room with hsame | ⟨hgiven, -⟩
  · exact hsame.symm.trans h
  · cases hgiven.symm.trans h

/-- What compiles goes on compiling with more room. -/
theorem ofBytes_of_more_room (hle : room ≤ room')
    (h : ofBytes contents (some room) = .ok root) :
    ofBytes contents (some room') = .ok root := by
  rcases ofBytes_room contents room' with hsame | ⟨-, stripped, v, hread, deep⟩
  · exact hsame.trans (ofBytes_of_room_ok h)
  · obtain ⟨document, hdecode, hstrip, hdocument⟩ := hread
    have hless : exhausts room v.distinct := exhausts_of_le hle deep
    have hgiven : ofBytes contents (some room) = .error (.exceeded .stack) := by
      simp only [ofBytes, hdecode, ofDocument, hstrip, hdocument, Option.any, hless, cond_true]
    cases hgiven.symm.trans h

/-- Where there is room for all containers, it makes no difference how much there is. -/
theorem ReadAs.ofBytes_room_eq {stripped : List Char} {v : Json}
    (h : ReadAs contents stripped v) (shallow : v.depth ≤ room + 1) :
    ofBytes contents (some room) = (Root.ofJson v.distinct).mapError .rejected := by
  rcases ofBytes_room contents room with hsame | ⟨-, stripped', v', h', deep⟩
  · exact hsame.trans h.ofBytes_eq
  · obtain rfl := h.value_unique h'
    have hdepth := Nat.lt_of_lt_of_le (depth_of_exhausts deep) (Json.depth_distinct_le v)
    exact absurd hdepth (Nat.not_lt.2 shallow)

section GivenUp

def nested : Nat → Json
  | 0 => .null
  | n + 1 => .array [nested n]

def nesting (n : Nat) : Json := .object [(Text.ofString "a", nested n)]

end GivenUp

end Root

end LiveTemplates
