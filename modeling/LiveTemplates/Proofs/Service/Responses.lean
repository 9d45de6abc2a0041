import LiveTemplates.Proofs.Registry.Outlook
import LiveTemplates.Proofs.Service.Hosts
import LiveTemplates.Service.Basic

/-!
# What the service responds

An object of scalars is sent as it is, unless it holds an infinite number or a lone surrogate. So is
a message, and so is a status, which shows the outlook of a template.
-/

namespace LiveTemplates

namespace Scalar

@[simp] theorem isInfinite_null : Scalar.null.isInfinite = false := rfl

@[simp] theorem isInfinite_text (t : Text) : (Scalar.text t).isInfinite = false := rfl

@[simp] theorem isInfinite_bool (b : Bool) : (Scalar.bool b).isInfinite = false := rfl

@[simp] theorem isInfinite_int (i : Int) : (Scalar.number (.int i)).isInfinite = false := rfl

@[simp] theorem hasLone_null : Scalar.null.hasLone = false := rfl

@[simp] theorem hasLone_text (t : Text) : (Scalar.text t).hasLone = t.hasLone := rfl

@[simp] theorem hasLone_bool (b : Bool) : (Scalar.bool b).hasLone = false := rfl

@[simp] theorem hasLone_int (i : Int) : (Scalar.number (.int i)).hasLone = false := rfl

end Scalar

namespace Service

variable {F : Type} {host : Host} {files : FileSystem} {r : Registry Root} {name : Text}
variable {path : Path}

section Flat

def flat (members : List (String × Scalar)) : List (Text × Json) :=
  members.map fun m => field m.1 (.scalar m.2)

variable {members : List (String × Scalar)}

theorem membersWithoutNames_flat {setAside : Text → Bool}
    (keeps : ∀ m ∈ members, setAside (Text.ofString m.1) = false) :
    Json.membersWithoutNames setAside (flat members) = flat members := by
  induction members with
  | nil => rfl
  | cons m rest ih =>
    have hrest : Json.membersWithoutNames setAside (flat rest) = flat rest :=
      ih fun m' hm' => keeps m' (List.mem_cons_of_mem _ hm')
    show (if setAside (Text.ofString m.1) then _ else _) = _
    rw [if_neg (Bool.eq_false_iff.1 (keeps m List.mem_cons_self)), Json.withoutNames]
    exact congrArg (_ :: ·) hrest

theorem anyScalarMembers_flat {p : Scalar → Bool}
    (h : ∀ m ∈ members, ¬ p (.text (Text.ofString m.1))) :
    Json.anyScalarMembers p (flat members) = members.any fun m => p m.2 := by
  induction members with
  | nil => rfl
  | cons m rest ih =>
    have hname : p (.text (Text.ofString m.1)) = false := by simpa using h m List.mem_cons_self
    have hrest : Json.anyScalarMembers p (flat rest) = rest.any fun m => p m.2 :=
      ih fun m' hm' => h m' (List.mem_cons_of_mem _ hm')
    show (p (.text (Text.ofString m.1)) || p m.2 || Json.anyScalarMembers p (flat rest)) = _
    rw [hname, hrest, Bool.false_or, List.any_cons]

/-- An object of finite scalars with names of the service is sent if its texts are valid. -/
theorem respond_flat (sound : host.Sound) (status : Nat)
    (names : ∀ m ∈ members, m.1 ∈ memberNames) (finite : ∀ m ∈ members, ¬ m.2.isInfinite) :
    respond (F := F) host status (.object (flat members)) =
      if members.any fun m => m.2.hasLone then .error (.unsent .loneSurrogate)
      else .ok ⟨status, some (.object (flat members))⟩ := by
  have hkept : (Json.object (flat members)).withoutNames host.setAside = .object (flat members) :=
    congrArg Json.object (membersWithoutNames_flat fun m hm => sound.keeps m.1 (names m hm))
  have hfinite : (Json.object (flat members)).anyScalar Scalar.isInfinite = false := by
    rw [Json.anyScalar, anyScalarMembers_flat fun _ _ => Bool.false_ne_true]
    simpa using finite
  have hlone : (Json.object (flat members)).anyScalar Scalar.hasLone =
      members.any fun m => m.2.hasLone := by
    refine anyScalarMembers_flat fun m _ => ?_
    rw [Scalar.hasLone_text, Text.hasLone_ofString]
    exact Bool.false_ne_true
  rw [respond]
  by_cases lone : members.any fun m => m.2.hasLone
  · rw [if_pos lone, sound.lone status _ (by rw [hkept, hfinite]) (by rw [hkept, hlone, lone])]
    rfl
  · have encodable : (members.any fun m => m.2.hasLone) = false := Bool.eq_false_iff.2 lone
    have strict : ((Json.object (flat members)).withoutNames host.setAside).Strict := by
      rw [hkept]
      exact ⟨hfinite, hlone.trans encodable⟩
    rw [if_neg lone, sound.sends status _ strict, hkept]
    rfl

end Flat

/-- A message is sent if it is a valid text. -/
theorem detail_eq (sound : host.Sound) (status : Nat) (message : Text) :
    detail (F := F) host status message =
      if message.hasLone then .error (.unsent .loneSurrogate)
      else .ok ⟨status, some (.object [field "detail" (.text message)])⟩ := by
  let members : List (String × Scalar) := [("detail", .text message)]
  have names : ∀ m ∈ members, m.1 ∈ memberNames := by simp [members, memberNames]
  have hdetail : detail (F := F) host status message = _ :=
    respond_flat sound status names (by simp [members])
  rw [hdetail]
  simp [members, flat]

namespace Status

def members (s : Status) : List (String × Scalar) :=
  [("name", .text s.name), ("identity", .text s.identity), ("available", .bool s.available),
    ("compiled", .bool s.compiled), ("stale", .bool s.stale),
    ("marker", s.marker.elim .null fun m => .number (.int m)),
    ("compile_count", .number (.int s.compiles))]

theorem body_eq (s : Status) : s.body = .object (flat s.members) := by
  unfold body members
  cases s.marker <;> rfl

theorem body_injective : Function.Injective body := by
  rintro ⟨name, identity, available, compiled, stale, marker, compiles⟩
    ⟨name', identity', available', compiled', stale', marker', compiles'⟩ h
  simp only [body, field, Json.object.injEq, List.cons.injEq, Prod.mk.injEq, true_and, and_true,
    Json.scalar.injEq, Scalar.text.injEq, Scalar.bool.injEq, Scalar.number.injEq,
    Number.int.injEq] at h
  obtain ⟨rfl, rfl, rfl, rfl, rfl, hmarker, hcompiles⟩ := h
  obtain rfl := Int.ofNat.inj hcompiles
  cases marker <;> cases marker' <;> simp_all

theorem names_members (s : Status) : ∀ m ∈ s.members, m.1 ∈ memberNames := by
  have hnames : ∀ n ∈ ["name", "identity", "available", "compiled", "stale", "marker",
      "compile_count"], n ∈ memberNames := by decide
  intro m hm
  exact hnames m.1 (List.mem_map_of_mem (f := Prod.fst) hm)

theorem finite_members (s : Status) : ∀ m ∈ s.members, ¬ m.2.isInfinite := by
  cases hmarker : s.marker <;> simp [members, hmarker]

/-- A status is sent if its texts are valid. -/
theorem respond_eq (sound : host.Sound) (s : Status) :
    respond (F := F) host 200 s.body =
      if s.name.hasLone || s.identity.hasLone then .error (.unsent .loneSurrogate)
      else .ok ⟨200, some s.body⟩ := by
  rw [body_eq, respond_flat sound 200 s.names_members s.finite_members]
  cases hmarker : s.marker <;> simp [members, hmarker]

theorem respond_eq_ok_iff (sound : host.Sound) {s s' : Status} :
    respond (F := F) host 200 s.body = .ok ⟨200, some s'.body⟩ ↔
      ¬ s.name.hasLone ∧ ¬ s.identity.hasLone ∧ s = s' := by
  rw [respond_eq sound]
  by_cases lone : s.name.hasLone ∨ s.identity.hasLone
  · rw [if_pos (by simpa using lone)]
    simp only [reduceCtorEq, false_iff]
    exact fun h => lone.elim h.1 h.2.1
  · rw [if_neg (by simpa using lone)]
    obtain ⟨hname, hidentity⟩ := not_or.1 lone
    simp [hname, hidentity, body_injective.eq_iff]

def expected (name : Text) (path : Path) : Except Text Int × Cache Root Int → Status
  | (.ok live, c) => .ofEntry name path c (c.outdatedAt live) true
  | (.error _, c) => .ofEntry name path c true false

end Status

section Showing

/-- The status that is shown of a template, where the file system tells whether there is a file. -/
def shown (files : FileSystem) (r : Registry Root) (name : Text) (path : Path) :
    Except SystemError Status :=
  if r.Holds path ∨ files.isFile path = .ok true then
    .ok (.expected name path (r.outlook files path))
  else (files.isFile path).map fun _ => .missing name path

theorem shown_texts {s : Status} (h : shown files r name path = .ok s) :
    s.name = name ∧ s.identity = path.text := by
  unfold shown at h
  split at h
  · cases h
    rcases r.outlook files path with ⟨_ | _, _⟩ <;> exact ⟨rfl, rfl⟩
  · cases hisFile : files.isFile path with
    | error e => rw [hisFile] at h; cases h
    | ok isFile => rw [hisFile] at h; cases h; exact ⟨rfl, rfl⟩

/-- What is shown as unavailable is missing, or no marker is answered. -/
theorem shown_unavailable {s : Status} (h : shown files r name path = .ok s)
    (unavailable : s.available = false) : ¬ (r.Holds path ∨ files.isFile path = .ok true) ∨
      ∃ reason c, r.outlook files path = (.error reason, c) := by
  unfold shown at h
  split at h
  · cases h
    rcases houtlook : r.outlook files path with ⟨reason | live, c⟩
    · exact .inr ⟨reason, c, rfl⟩
    · rw [houtlook] at unavailable
      cases unavailable
  · exact .inl ‹_›

/-- What is shown as available answers a marker, by which it is stale or not. -/
theorem shown_available {s : Status} (h : shown files r name path = .ok s)
    (available : s.available) : ∃ live c, r.outlook files path = (.ok live, c) ∧
      s = .ofEntry name path c (c.outdatedAt live) true := by
  unfold shown at h
  split at h
  · cases h
    rcases houtlook : r.outlook files path with ⟨reason | live, c⟩
    · rw [houtlook] at available
      cases available
    · exact ⟨live, c, rfl, rfl⟩
  · cases hisFile : files.isFile path with
    | error e => rw [hisFile] at h; cases h
    | ok isFile => rw [hisFile] at h; cases h; cases available

/-- What is shown of a cache is what stands at its path, held or not. -/
theorem shown_cache {s : Status} (h : shown files r name path = .ok s) :
    s.compiled = (r.entryAt path).cache.held.isSome ∧ s.marker = (r.entryAt path).cache.marker? ∧
      s.compiles = (r.entryAt path).cache.compiles := by
  unfold shown at h
  split at h
  · cases h
    rw [Registry.outlook]
    rcases r.look files path with ⟨_ | _, _⟩ <;> exact ⟨rfl, rfl, rfl⟩
  · rename_i absent
    have hentry : r.entries.find? path = none := by
      simpa [Registry.Holds] using (not_or.1 absent).1
    rw [Registry.entryAt_of_none hentry]
    cases hisFile : files.isFile path with
    | error e => rw [hisFile] at h; cases h
    | ok isFile => rw [hisFile] at h; cases h; exact ⟨rfl, rfl, rfl⟩

theorem shown_of_isFile {isFile : Bool} (h : files.isFile path = .ok isFile) :
    ∃ s, shown files r name path = .ok s := by
  unfold shown
  split
  · exact ⟨_, rfl⟩
  · exact ⟨_, by rw [h]; rfl⟩

theorem shown_of_sameOutlook {r' : Registry Root}
    (h : Registry.SameOutlook files path r r') :
    shown files r' name path = shown files r name path := by
  simp only [shown, h.present_iff, h.outlook]

variable (hpath : r.pathOf name = .ok path)
include hpath

theorem showStatus_of_present (present : r.Holds path ∨ files.isFile path = .ok true) :
    (showStatus (F := F) host files r name).1 =
      respond host 200 (Status.expected name path (r.outlook files path)).body := by
  simp only [showStatus, hpath, Registry.find_of_present hpath present, Registry.onCache_eq,
    Registry.atWork_cacheAt]
  rcases hlook : r.look files path with ⟨reason | live, w⟩
  · have hmarker : WatchedFile.source.marker
        (r.atWork (F := F) files (r.entryAt path)).resource = (.error reason, w) := hlook
    rw [Source.isOutdated_of_refusal hmarker, Registry.outlook, hlook]
    rfl
  · have hmarker : WatchedFile.source.marker
        (r.atWork (F := F) files (r.entryAt path)).resource = (.ok live, w) := hlook
    have hcheck : (Snapshot.freshAt (F := F) (r.entryAt path).cache.held live).map Option.isNone =
        .ok ((r.entryAt path).cache.outdatedAt live) := Cache.freshAt_isNone _ live
    rw [Source.isOutdated_of_marker hmarker, Registry.outlook, hlook, Registry.atWork, hcheck]
    rfl

theorem showStatus_eq : (showStatus (F := F) host files r name).1 =
    match shown files r name path with
    | .error e => .error (.registry (.lookup e path))
    | .ok s => respond host 200 s.body := by
  by_cases present : r.Holds path ∨ files.isFile path = .ok true
  · rw [showStatus_of_present hpath present, shown, if_pos present]
  · simp only [showStatus, hpath, Registry.find_eq_of_absent hpath present, shown, if_neg present]
    cases files.isFile path <;> rfl

end Showing

end Service

end LiveTemplates
