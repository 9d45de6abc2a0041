import LiveTemplates.Proofs.Template.Acceptance
import LiveTemplates.Proofs.Template.Strictness
import LiveTemplates.Proofs.Writing.Compiling

/-!
# What contents that are read compile to

Contents that are read as a value compile, or fail, by what is left of the value where names repeat.
It is a template or not, and if not, its first violation is the failure.
-/

namespace LiveTemplates

namespace Root

variable {contents contents' : Bytes} {stripped stripped' : List Char} {v v' : Json}

theorem readAs_encode {document : List Char}
    (head : ∃ c rest, document = c :: rest ∧ c.toNat < 0x80)
    (strip : Comments.strip document = .ok stripped) (read : Json.ofDocument stripped = .ok v) :
    ReadAs (Utf8.encode document) stripped v :=
  ⟨document, Utf8.decodeDocument_encode head (.inl rfl), strip, read⟩

theorem ReadAs.value_unique (h : ReadAs contents stripped v)
    (h' : ReadAs contents stripped' v') : v = v' := by
  obtain ⟨document, hdecode, hstrip, hread⟩ := h
  obtain ⟨document', hdecode', hstrip', hread'⟩ := h'
  obtain rfl := Except.ok.inj (hdecode.symm.trans hdecode')
  obtain rfl := Except.ok.inj (hstrip.symm.trans hstrip')
  exact Except.ok.inj (hread.symm.trans hread')

/-- What contents compile to is told by what is kept of the value that they are read as. -/
theorem ReadAs.ofBytes_eq (h : ReadAs contents stripped v) :
    ofBytes contents = (Root.ofJson v.distinct).mapError .rejected := by
  obtain ⟨document, hdecode, hstrip, hread⟩ := h
  rw [ofBytes_of_decode hdecode, ofDocument_unlimited, hstrip]
  dsimp only
  rw [hread]
  dsimp only
  cases Root.ofJson v.distinct <;> rfl

theorem ReadAs.ofBytes_congr (h : ReadAs contents stripped v) (h' : ReadAs contents' stripped' v')
    (same : v'.distinct = v.distinct) : ofBytes contents' = ofBytes contents := by
  rw [h.ofBytes_eq, h'.ofBytes_eq, same]

theorem ReadAs.compiles_iff (h : ReadAs contents stripped v) :
    (∃ root, ofBytes contents = .ok root) ↔
      ∃ members, v.distinct = .object members ∧ TemplateMembers members := by
  have hbuild : (∃ root, ofBytes contents = .ok root) ↔
      ∃ root, Root.ofJson v.distinct = .ok root := by
    rw [h.ofBytes_eq]
    cases Root.ofJson v.distinct <;> simp [Except.mapError]
  have noRepeats := Json.noRepeats_distinct v
  rw [hbuild, (Root.reports_ofJson v.distinct).exists_ok_iff]
  generalize v.distinct = w at noRepeats ⊢
  cases w with
  | object members => simp [passes_rootChecks_iff noRepeats]
  | scalar | array =>
    refine ⟨fun passes => ?_, fun ⟨_, hobject, _⟩ => nomatch hobject⟩
    exact absurd (.root fun _ hobject => nomatch hobject) (passes _ List.mem_cons_self _)

theorem ReadAs.fails_iff (h : ReadAs contents stripped v) {failure : TemplateFailure} :
    ofBytes contents = .error failure ↔
      ∃ r, failure = .rejected r ∧ FirstViolation (Root.checks v.distinct) r := by
  rw [h.ofBytes_eq]
  have hreports := Root.reports_ofJson v.distinct
  cases hbuild : Root.ofJson v.distinct with
  | ok root =>
    have hnone : ∀ r, ¬ FirstViolation (Root.checks v.distinct) r := fun r hr => by
      have herror := (hreports r).2 hr
      rw [hbuild] at herror
      cases herror
    simp [Except.mapError, hnone]
  | error r =>
    have hfirst : ∀ r', FirstViolation (Root.checks v.distinct) r' ↔ r = r' := fun r' => by
      rw [← hreports r', hbuild, Except.error.injEq]
    simp [Except.mapError, hfirst, eq_comm]

end Root

end LiveTemplates
