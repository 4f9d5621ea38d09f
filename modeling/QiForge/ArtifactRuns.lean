import QiForge.Artifacts

/-!
# Revoked artefacts stay revoked

A copy in R2 belongs to a row that is there and not revoked, and an uploaded
row that is not revoked has its copy unless a call is taking it down.  Both
hold along every run whose uploads land while the row they were read from
stands, and whose withdrawals change the rows of the copies they deleted.
-/

namespace QiForge

/-- Some call of `calls` has deleted the copy and is about to change the
row. -/
def heldBy (calls : OrderedMap ℕ ArtifactCall) (artifactId : String) : Bool :=
  calls.entries.any fun entry => entry.2.holds artifactId

theorem heldBy_iff {calls : OrderedMap ℕ ArtifactCall} {id : String} :
    heldBy calls id = true ↔
      ∃ n call, calls.get? n = some call ∧ call.holds id = true := by
  unfold heldBy
  rw [List.any_eq_true]
  constructor
  · rintro ⟨⟨n, call⟩, hmem, hholds⟩
    exact ⟨n, call, OrderedMap.mem_entries_iff.mp hmem, hholds⟩
  · rintro ⟨n, call, hget, hholds⟩
    exact ⟨(n, call), OrderedMap.mem_entries_iff.mpr hget, hholds⟩

namespace ArtifactLedger

/-- The row is uploaded and not revoked. -/
def shared (l : ArtifactLedger) (id : String) : Bool :=
  (l.rows.get? id).any fun row => row.uploaded && row.revokedAt.isNone

/-- The row is gone or revoked. -/
def takenBack (l : ArtifactLedger) (id : String) : Bool :=
  (l.rows.get? id).all fun row => row.revokedAt.isSome

/-- The row with this body is there and not revoked. -/
def stands (l : ArtifactLedger) (id : String) (body : ArtifactBody) : Bool :=
  (l.rows.get? id).any fun row =>
    decide (row.body = body) && row.revokedAt.isNone

/-- Rows, copies and promises agree; `held` are the artefacts that calls are
taking down. -/
structure Sound (l : ArtifactLedger) (held : String → Prop) : Prop where
  copies : ∀ id copy, l.objects.get? id = some copy →
    ∃ row, l.rows.get? id = some row ∧ row.revokedAt = none ∧
      copy = sealArtifact row.body
  withheld : ∀ id, held id → l.objects.get? id = none
  uploaded : ∀ id row, l.rows.get? id = some row → row.uploaded = true →
    row.revokedAt = none → held id ∨ (l.objects.get? id).isSome
  links : ∀ id body, (id, body) ∈ l.links → ∀ row,
    l.rows.get? id = some row → row.body = body → row.revokedAt = none →
      row.uploaded = true
  withdrawn : ∀ id ∈ l.withdrawn, ∀ row, l.rows.get? id = some row →
    row.revokedAt.isSome

variable {l : ArtifactLedger}

theorem takenBack_iff {id : String} : l.takenBack id = true ↔
      ∀ row, l.rows.get? id = some row → row.revokedAt.isSome := by
  unfold takenBack
  cases l.rows.get? id <;> simp

theorem shared_iff {id : String} :
    l.shared id = true ↔ ∃ row, l.rows.get? id = some row ∧
      row.uploaded = true ∧ row.revokedAt = none := by
  unfold shared
  cases l.rows.get? id <;> simp

theorem stands_iff {id : String} {body : ArtifactBody} :
    l.stands id body = true ↔ ∃ row, l.rows.get? id = some row ∧
      row.body = body ∧ row.revokedAt = none := by
  unfold stands
  cases l.rows.get? id <;> simp

namespace Sound

variable {l : ArtifactLedger} {held held' : String → Prop} {id : String}

theorem empty (held : String → Prop) : ArtifactLedger.empty.Sound held := by
  constructor <;> simp [ArtifactLedger.empty]

/-- A row that is gone or revoked has no copy. -/
theorem no_copy (h : l.Sound held) (hback : l.takenBack id = true) :
    l.objects.get? id = none := by
  cases hcopy : l.objects.get? id with
  | none => rfl
  | some copy =>
      rcases h.copies id copy hcopy with ⟨row, hrow, hrevoked, -⟩
      have hsome := takenBack_iff.mp hback row hrow
      rw [hrevoked] at hsome
      cases hsome

/-- Artefacts are let go of only when they are not shared. -/
theorem release (h : l.Sound held) (hle : ∀ id, held' id → held id)
    (hgone : ∀ id, held id → ¬ held' id → l.shared id = false) :
    l.Sound held' := by
  refine ⟨h.copies, fun id hheld => h.withheld id (hle id hheld), ?_, h.links,
    h.withdrawn⟩
  intro id row hrow huploaded hrevoked
  rcases h.uploaded id row hrow huploaded hrevoked with hheld | hcopy
  · by_cases hstill : held' id
    · exact .inl hstill
    · have hshared : l.shared id = true :=
        shared_iff.mpr ⟨row, hrow, huploaded, hrevoked⟩
      rw [hgone id hheld hstill] at hshared
      cases hshared
  · exact .inr hcopy

theorem mono (h : l.Sound held) (hiff : ∀ id, held' id ↔ held id) :
    l.Sound held' := by
  apply h.release (fun id => (hiff id).mp)
  intro id hheld hnot
  exact absurd ((hiff id).mpr hheld) hnot

theorem insertRow (h : l.Sound held) (ttlMs now : ℕ) (shareKey : String)
    (input : ArtifactInput) :
    (l.insertRow ttlMs now shareKey input).Sound held := by
  unfold ArtifactLedger.insertRow
  by_cases hhas : l.rows.has input.artifactId = true
  · rw [if_pos hhas]
    exact h
  · rw [if_neg hhas]
    have hnone : l.rows.get? input.artifactId = none := by
      simpa [OrderedMap.has] using hhas
    have hcopy : l.objects.get? input.artifactId = none := by
      apply h.no_copy
      unfold takenBack
      rw [hnone]
      rfl
    constructor
    · intro id copy hget
      rcases h.copies id copy hget with ⟨row, hrow, hrest⟩
      refine ⟨row, ?_, hrest⟩
      have hne : id ≠ input.artifactId := by
        rintro rfl
        rw [hnone] at hrow
        cases hrow
      simp [hne, hrow]
    · exact h.withheld
    · intro id row hrow huploaded hrevoked
      simp only [OrderedMap.get?_push] at hrow
      split at hrow
      · cases hrow
        cases huploaded
      · exact h.uploaded id row hrow huploaded hrevoked
    · intro id body hlink row hrow hbody hrevoked
      rcases List.mem_filter.mp hlink with ⟨hmem, hne⟩
      have hne : id ≠ input.artifactId := by simpa using hne
      simp only [OrderedMap.get?_push, if_neg hne] at hrow
      exact h.links id body hmem row hrow hbody hrevoked
    · intro id hmem row hrow
      rcases List.mem_filter.mp hmem with ⟨hmem, hne⟩
      have hne : id ≠ input.artifactId := by simpa using hne
      simp only [OrderedMap.get?_push, if_neg hne] at hrow
      exact h.withdrawn id hmem row hrow

theorem putCopy {row : ArtifactRow} (h : l.Sound held)
    (hstands : l.stands id row.body = true) (hfree : ¬ held id) :
    ({ l with objects := l.objects.set id (sealArtifact row.body) } :
      ArtifactLedger).Sound held := by
  rcases stands_iff.mp hstands with ⟨current, hcurrent, hbody, hrevoked⟩
  refine ⟨?_, ?_, ?_, h.links, h.withdrawn⟩
  · intro other copy hget
    simp only [OrderedMap.get?_set] at hget
    split at hget
    · next heq =>
        subst heq
        cases hget
        exact ⟨current, hcurrent, hrevoked, by rw [hbody]⟩
    · exact h.copies other copy hget
  · intro other hheld
    have hne : other ≠ id := by
      rintro rfl
      exact hfree hheld
    simp [hne, h.withheld other hheld]
  · intro other current' hrow huploaded hnone
    rcases h.uploaded other current' hrow huploaded hnone with hheld | hcopy
    · exact .inl hheld
    · refine .inr ?_
      simp only [OrderedMap.get?_set]
      split
      · rfl
      · exact hcopy

theorem get?_updateRow {f : ArtifactRow → ArtifactRow} {other : String}
    {row : ArtifactRow}
    (h : (l.updateRow id f).rows.get? other = some row) :
    ∃ old, l.rows.get? other = some old ∧
      row = if other = id then f old else old := by
  simp only [ArtifactLedger.updateRow, OrderedMap.get?_mapValues,
    Option.map_eq_some_iff] at h
  rcases h with ⟨old, hold, rfl⟩
  exact ⟨old, hold, rfl⟩

theorem markUploaded (h : l.Sound held)
    (hcopy : l.takenBack id = true ∨ held id ∨ (l.objects.get? id).isSome) :
    (l.updateRow id fun row => { row with uploaded := true }).Sound held := by
  constructor
  · intro other copy hget
    rcases h.copies other copy hget with ⟨row, hrow, hrevoked, hsealed⟩
    refine ⟨if other = id then { row with uploaded := true } else row,
      ?_, ?_, ?_⟩
    · simp [ArtifactLedger.updateRow, hrow]
    · split <;> exact hrevoked
    · split <;> exact hsealed
  · exact h.withheld
  · intro other row hrow huploaded hrevoked
    rcases get?_updateRow hrow with ⟨old, hold, rfl⟩
    by_cases heq : other = id
    · subst heq
      rw [if_pos rfl] at hrevoked
      rcases hcopy with hback | hheld | hcopy
      · have hsome := takenBack_iff.mp hback old hold
        dsimp only at hrevoked
        rw [hrevoked] at hsome
        cases hsome
      · exact .inl hheld
      · exact .inr hcopy
    · rw [if_neg heq] at huploaded hrevoked
      exact h.uploaded other old hold huploaded hrevoked
  · intro other body hlink row hrow hbody hrevoked
    rcases get?_updateRow hrow with ⟨old, hold, rfl⟩
    by_cases heq : other = id
    · rw [if_pos heq]
    · rw [if_neg heq] at hbody hrevoked ⊢
      exact h.links other body hlink old hold hbody hrevoked
  · intro other hmem row hrow
    rcases get?_updateRow hrow with ⟨old, hold, rfl⟩
    have hsome := h.withdrawn other hmem old hold
    split <;> exact hsome

theorem markRevoked (h : l.Sound held) (hheld : held id) (now : ℕ) :
    (l.updateRow id fun row => { row with revokedAt := some now }).Sound
      held := by
  have hnone := h.withheld id hheld
  constructor
  · intro other copy hget
    have hne : other ≠ id := by
      rintro rfl
      have hget' : l.objects.get? other = some copy := hget
      rw [hnone] at hget'
      cases hget'
    rcases h.copies other copy hget with ⟨row, hrow, hrest⟩
    refine ⟨row, ?_, hrest⟩
    simp [ArtifactLedger.updateRow, hrow, hne]
  · exact h.withheld
  · intro other row hrow huploaded hrevoked
    rcases get?_updateRow hrow with ⟨old, hold, rfl⟩
    by_cases heq : other = id
    · rw [if_pos heq] at hrevoked
      cases hrevoked
    · rw [if_neg heq] at huploaded hrevoked
      exact h.uploaded other old hold huploaded hrevoked
  · intro other body hlink row hrow hbody hrevoked
    rcases get?_updateRow hrow with ⟨old, hold, rfl⟩
    by_cases heq : other = id
    · rw [if_pos heq] at hrevoked
      cases hrevoked
    · rw [if_neg heq] at hbody hrevoked ⊢
      exact h.links other body hlink old hold hbody hrevoked
  · intro other hmem row hrow
    rcases get?_updateRow hrow with ⟨old, hold, rfl⟩
    split
    · rfl
    · exact h.withdrawn other hmem old hold

/-- Deleted copies are held from then on. -/
theorem deleteCopies (h : l.Sound held) (ids : List String) :
    (l.deleteCopies ids).Sound fun id => held id ∨ id ∈ ids := by
  constructor
  · intro id copy hget
    simp only [ArtifactLedger.deleteCopies, OrderedMap.get?_filter,
      Option.filter_eq_some_iff] at hget
    exact h.copies id copy hget.1
  · rintro id (hheld | hmem)
    · simp [ArtifactLedger.deleteCopies, h.withheld id hheld]
    · cases hcopy : l.objects.get? id <;>
        simp [ArtifactLedger.deleteCopies, hcopy, hmem]
  · intro id row hrow huploaded hrevoked
    by_cases hmem : id ∈ ids
    · exact .inl (.inr hmem)
    · rcases h.uploaded id row hrow huploaded hrevoked with hheld | hcopy
      · exact .inl (.inl hheld)
      · rcases Option.isSome_iff_exists.mp hcopy with ⟨copy, hcopy⟩
        refine .inr ?_
        simp [ArtifactLedger.deleteCopies, hcopy, hmem]
  · exact h.links
  · exact h.withdrawn

theorem get?_deleteRows {sessionId : String} {row : ArtifactRow}
    (h : (l.deleteRows sessionId).rows.get? id = some row) :
    l.rows.get? id = some row ∧ row.body.sessionId ≠ sessionId := by
  simpa [ArtifactLedger.deleteRows, Option.filter_eq_some_iff] using h

theorem deleteRows {sessionId : String} (h : l.Sound held)
    (hcopies : ∀ id row, l.rows.get? id = some row →
      row.body.sessionId = sessionId → l.objects.get? id = none) :
    (l.deleteRows sessionId).Sound held := by
  constructor
  · intro id copy hget
    rcases h.copies id copy hget with ⟨row, hrow, hrest⟩
    refine ⟨row, ?_, hrest⟩
    have hother : row.body.sessionId ≠ sessionId := by
      intro heq
      have hget' : l.objects.get? id = some copy := hget
      rw [hcopies id row hrow heq] at hget'
      cases hget'
    simp [ArtifactLedger.deleteRows, hrow, hother]
  · exact h.withheld
  · intro id row hrow huploaded hrevoked
    exact h.uploaded id row (get?_deleteRows hrow).1 huploaded hrevoked
  · intro id body hlink row hrow hbody hrevoked
    exact h.links id body hlink row (get?_deleteRows hrow).1 hbody hrevoked
  · intro id hmem row hrow
    exact h.withdrawn id hmem row (get?_deleteRows hrow).1

theorem link (h : l.Sound held) {body : ArtifactBody}
    (huploaded : ∀ row, l.rows.get? id = some row → row.revokedAt = none →
      row.uploaded = true) :
    ({ l with links := (id, body) :: l.links } : ArtifactLedger).Sound
      held := by
  refine ⟨h.copies, h.withheld, h.uploaded, ?_, h.withdrawn⟩
  intro other body' hlink row hrow hbody hrevoked
  rcases List.mem_cons.mp hlink with heq | hmem
  · obtain ⟨rfl, rfl⟩ := Prod.mk.inj heq
    exact huploaded row hrow hrevoked
  · exact h.links other body' hmem row hrow hbody hrevoked

theorem withdraw (h : l.Sound held) (ids : List String)
    (hback : ∀ id ∈ ids, l.takenBack id = true) :
    ({ l with withdrawn := ids ++ l.withdrawn } : ArtifactLedger).Sound
      held := by
  refine ⟨h.copies, h.withheld, h.uploaded, h.links, ?_⟩
  intro id hmem row hrow
  rcases List.mem_append.mp hmem with hnew | hold
  · exact takenBack_iff.mp (hback id hnew) row hrow
  · exact h.withdrawn id hold row hrow

end Sound

/-- Artefacts let go of are not shared unless others hold them. -/
theorem Sound.drop {held : String → Prop}
    {others : String → Bool} {ids : List String}
    (h : l.Sound held) (hheld : ∀ id, held id ↔ others id = true ∨ id ∈ ids)
    (hids : ∀ id ∈ ids, others id = true ∨ l.shared id = false) :
    l.Sound fun id => others id = true := by
  apply h.release (fun id hother => (hheld id).mpr (.inl hother))
  intro id hid hnot
  rcases (hheld id).mp hid with hother | hmem
  · exact absurd hother hnot
  · exact (hids id hmem).resolve_left hnot

end ArtifactLedger

namespace ArtifactCall

/-- When a request keeps the ledger in step, `others` being the artefacts that
other calls are taking down.  An upload lands while the row it was read from
stands; a withdrawal that deleted copies changes their rows. -/
def inTurn (l : ArtifactLedger) (others : String → Bool)
    (landing : Landing) : ArtifactCall → Bool
  | .putCopy id row =>
      landing == .failsBefore || (l.stands id row.body && !others id)
  | .markUploaded id _ =>
      landing == .failsBefore || l.takenBack id || others id ||
        (l.objects.get? id).isSome
  | .deleteCopy id row =>
      match landing with
      | .failsBefore => true
      | .failsAfter => others id || !l.shared id
      | .lands => row.revokedAt.isNone || l.takenBack id
  | .markRevoked id =>
      landing != .failsBefore || others id || !l.shared id
  | .deleteCopies _ ids =>
      landing != .failsAfter || decide (r2MaxBatch < ids.length) ||
        ids.all fun id => others id || !l.shared id
  | .deleteRows sessionId ids =>
      match landing with
      | .failsBefore => ids.all fun id => others id || !l.shared id
      | _ =>
          (l.rowsOf sessionId).all (fun id =>
              ids.contains id || (l.objects.get? id).isNone) &&
            ids.all fun id => (l.rowsOf sessionId).contains id ||
              others id || !l.shared id
  | _ => true

section Keeps

variable {l : ArtifactLedger} {others : String → Bool} {call : ArtifactCall}
  {ttlMs now : ℕ} {shareKey : String}

variable {sessionId id : String}

theorem mem_rowsOf : id ∈ l.rowsOf sessionId ↔
      ∃ row, l.rows.get? id = some row ∧ row.body.sessionId = sessionId := by
  unfold ArtifactLedger.rowsOf
  rw [OrderedMap.mem_keys_iff]
  simp [Option.filter_eq_some_iff]

/-- The artefacts a call holds. -/
def heldIds : ArtifactCall → List String
  | .markRevoked id => [id]
  | .deleteRows _ ids => ids
  | _ => []

theorem mem_heldIds {id : String} :
    id ∈ call.heldIds ↔ call.holds id = true := by
  cases call with
  | markRevoked held =>
      rw [heldIds, holds, List.mem_singleton, beq_iff_eq]
      exact eq_comm
  | _ => simp [heldIds, holds]

theorem sound_failsBefore
    (h : l.Sound fun id => others id = true ∨ id ∈ call.heldIds)
    (hturn : call.inTurn l others .failsBefore = true) :
    l.Sound fun id => others id = true := by
  apply h.drop fun _ => Iff.rfl
  cases call with
  | markRevoked id => simpa [inTurn, heldIds] using hturn
  | deleteRows sessionId ids => simpa [inTurn, heldIds] using hturn
  | _ => simp [heldIds]

/-- The artefacts whose copies are deleted once the request took effect. -/
def takenIds : ArtifactCall → List String
  | .deleteCopy id _ => [id]
  | .markRevoked id => [id]
  | .deleteCopies _ ids => if r2MaxBatch < ids.length then [] else ids
  | .deleteRows _ ids => ids
  | _ => []

theorem sound_effect (ttlMs now : ℕ) (shareKey : String) {landing : Landing}
    (h : l.Sound fun id => others id = true ∨ id ∈ call.heldIds)
    (hturn : call.inTurn l others landing = true)
    (hlanding : landing ≠ .failsBefore) :
    (call.effect ttlMs now shareKey l).Sound
      fun id => others id = true ∨ id ∈ call.takenIds := by
  cases call with
  | insertRow input => exact h.insertRow ttlMs now shareKey input
  | readRow id => exact h
  | lookUp id => exact h
  | listRows sessionId => exact h
  | putCopy id row =>
      have hturn : l.stands id row.body = true ∧ others id = false := by
        simpa [inTurn, hlanding] using hturn
      exact h.putCopy hturn.1 (by simp [hturn.2, heldIds])
  | markUploaded id row =>
      apply h.markUploaded
      have hturn : (l.takenBack id = true ∨ others id = true) ∨
          (l.objects.get? id).isSome = true := by
        simpa [inTurn, hlanding] using hturn
      rcases hturn with (hback | hother) | hcopy
      · exact .inl hback
      · exact .inr (.inl (.inl hother))
      · exact .inr (.inr hcopy)
  | deleteCopy id row =>
      apply (h.deleteCopies [id]).mono
      intro other
      simp [takenIds, heldIds]
  | markRevoked id => exact h.markRevoked (.inr List.mem_cons_self) now
  | deleteCopies sessionId ids =>
      unfold effect takenIds
      dsimp only
      split
      · exact h
      · apply (h.deleteCopies ids).mono
        intro other
        simp [heldIds]
  | deleteRows sessionId ids =>
      apply h.deleteRows
      intro id row hrow hsession
      have hmem : id ∈ l.rowsOf sessionId := mem_rowsOf.mpr ⟨row, hrow, hsession⟩
      have hlisted : id ∈ ids ∨ l.objects.get? id = none := by
        cases landing with
        | failsBefore => exact absurd rfl hlanding
        | _ =>
            simp only [inTurn, Bool.and_eq_true, List.all_eq_true] at hturn
            simpa using hturn.1 id hmem
      rcases hlisted with hids | hnone
      · exact h.withheld id (.inr hids)
      · exact hnone

theorem shared_updateRow_revoked {id : String} :
    (l.updateRow id fun row => { row with revokedAt := some now }).shared
      id = false := by
  unfold ArtifactLedger.shared ArtifactLedger.updateRow
  cases hrow : l.rows.get? id <;> simp [hrow]

theorem shared_deleteRows (h : id ∈ l.rowsOf sessionId ∨ l.shared id = false) :
    (l.deleteRows sessionId).shared id = false := by
  rw [Bool.eq_false_iff]
  intro hshared
  rcases ArtifactLedger.shared_iff.mp hshared with ⟨row, hrow, hrest⟩
  rcases ArtifactLedger.Sound.get?_deleteRows hrow with ⟨hold, hother⟩
  rcases h with hmem | hnot
  · rcases mem_rowsOf.mp hmem with ⟨row', hrow', hsession⟩
    rw [hold] at hrow'
    cases hrow'
    exact hother hsession
  · rw [ArtifactLedger.shared_iff.mpr ⟨row, hold, hrest⟩] at hnot
    cases hnot

theorem deleteRows_ids {ids : List String}
    {landing : Landing} (hlanding : landing ≠ .failsBefore)
    (hturn : (ArtifactCall.deleteRows sessionId ids).inTurn l others
      landing = true) (hmem : id ∈ ids) :
    others id = true ∨ (l.deleteRows sessionId).shared id = false := by
  have hthree : (id ∈ l.rowsOf sessionId ∨ others id = true) ∨
      l.shared id = false := by
    cases landing with
    | failsBefore => exact absurd rfl hlanding
    | _ =>
        simp only [inTurn, Bool.and_eq_true, List.all_eq_true] at hturn
        simpa using hturn.2 id hmem
  rcases hthree with (hrow | hother) | hnot
  · exact .inr (shared_deleteRows (.inl hrow))
  · exact .inl hother
  · exact .inr (shared_deleteRows (.inr hnot))

theorem sound_failsAfter (ttlMs now : ℕ) (shareKey : String)
    (h : l.Sound fun id => others id = true ∨ id ∈ call.heldIds)
    (hturn : call.inTurn l others .failsAfter = true) :
    (call.effect ttlMs now shareKey l).Sound
      fun id => others id = true := by
  have heffect := sound_effect ttlMs now shareKey h hturn (by decide)
  apply heffect.drop fun _ => Iff.rfl
  cases call with
  | deleteCopy id row =>
      have hturn : others id = true ∨ l.shared id = false := by
        simpa [inTurn] using hturn
      intro other hother
      rw [List.mem_singleton.mp hother]
      exact hturn
  | markRevoked id =>
      intro other hother
      rw [List.mem_singleton.mp hother]
      exact .inr shared_updateRow_revoked
  | deleteCopies sessionId ids =>
      unfold effect takenIds
      dsimp only
      split
      · simp
      · next hsize =>
          have hturn : ∀ id ∈ ids, others id = true ∨ l.shared id = false := by
            simpa [inTurn, hsize] using hturn
          exact hturn
  | deleteRows sessionId ids =>
      exact fun id hmem => deleteRows_ids (by decide) hturn hmem
  | _ => simp [takenIds]

/-- The ledger after an answer, with what the call promises by it. -/
def promised (l : ArtifactLedger) : ArtifactProgress → ArtifactLedger
  | .linked artifactId body => { l with links := (artifactId, body) :: l.links }
  | .withdrawn ids => { l with withdrawn := ids ++ l.withdrawn }
  | _ => l

/-- The artefacts a call holds after an answer. -/
def heldNext : ArtifactProgress → List String
  | .next call => call.heldIds
  | _ => []

theorem takenBack_deleteRows (h : id ∈ l.rowsOf sessionId) :
    (l.deleteRows sessionId).takenBack id = true := by
  rw [ArtifactLedger.takenBack_iff]
  intro row hrow
  rcases ArtifactLedger.Sound.get?_deleteRows hrow with ⟨hold, hother⟩
  rcases mem_rowsOf.mp h with ⟨row', hrow', hsession⟩
  rw [hold] at hrow'
  cases hrow'
  exact absurd hsession hother

theorem takenBack_markRevoked {id : String} :
    (l.updateRow id fun row => { row with revokedAt := some now }).takenBack
      id = true := by
  rw [ArtifactLedger.takenBack_iff]
  intro row hrow
  rcases ArtifactLedger.Sound.get?_updateRow hrow with ⟨old, -, rfl⟩
  rw [if_pos rfl]
  rfl

theorem sound_lands (ttlMs now : ℕ) (shareKey : String)
    (h : l.Sound fun id => others id = true ∨ id ∈ call.heldIds)
    (hturn : call.inTurn l others .lands = true) :
    (promised (call.effect ttlMs now shareKey l) (call.answered l)).Sound
      fun id => others id = true ∨ id ∈ heldNext (call.answered l) := by
  have heffect := sound_effect ttlMs now shareKey h hturn (by decide)
  cases call with
  | insertRow input => exact heffect
  | putCopy id row => exact heffect
  | readRow id =>
      unfold answered
      dsimp only
      cases hrow : l.rows.get? id with
      | none => exact heffect
      | some row =>
          dsimp only
          split
          · exact heffect
          · next hdone =>
              apply heffect.link
              intro current hcurrent hrevoked
              have hsame : some row = some current := hrow.symm.trans hcurrent
              cases hsame
              simpa [hrevoked] using hdone
  | lookUp id =>
      unfold answered
      dsimp only
      cases hrow : l.rows.get? id with
      | none => exact heffect
      | some row => exact heffect
  | listRows sessionId =>
      unfold answered
      dsimp only
      split <;> exact heffect
  | markUploaded id row =>
      apply heffect.link
      intro current hcurrent _
      rcases ArtifactLedger.Sound.get?_updateRow hcurrent with ⟨old, -, rfl⟩
      rw [if_pos rfl]
  | deleteCopy id row =>
      unfold answered
      dsimp only
      split
      · exact heffect
      · next hrevoked =>
          have hback : l.takenBack id = true := by
            simpa [inTurn, hrevoked] using hturn
          have hdrop := heffect.drop (fun _ => Iff.rfl) (by
            intro other hother
            rw [List.mem_singleton.mp hother]
            refine .inr (Bool.eq_false_iff.mpr fun hshared => ?_)
            rcases ArtifactLedger.shared_iff.mp hshared with
              ⟨current, hcurrent, -, hnone⟩
            have hsome := ArtifactLedger.takenBack_iff.mp hback current
              hcurrent
            rw [hnone] at hsome
            cases hsome)
          have hwithdrawn := hdrop.withdraw [id] (by
            intro other hother
            rw [List.mem_singleton.mp hother]
            exact hback)
          exact hwithdrawn.mono fun _ => by simp [heldNext]
  | markRevoked id =>
      have hdrop := sound_failsAfter ttlMs now shareKey h (by simp [inTurn])
      have hwithdrawn := hdrop.withdraw [id] (by
        intro other hother
        rw [List.mem_singleton.mp hother]
        exact takenBack_markRevoked)
      exact hwithdrawn.mono fun _ => by simp [heldNext, answered]
  | deleteCopies sessionId ids =>
      unfold answered
      dsimp only
      split
      · next hsize =>
          apply heffect.mono
          intro other
          simp [heldNext, takenIds, hsize]
      · next hsize =>
          apply heffect.mono
          intro other
          simp [heldNext, takenIds, heldIds, hsize]
  | deleteRows sessionId ids =>
      have hdrop := heffect.drop (fun _ => Iff.rfl) fun id hmem =>
        deleteRows_ids (by decide) hturn hmem
      have hwithdrawn := hdrop.withdraw (l.rowsOf sessionId)
        fun id hmem => takenBack_deleteRows hmem
      exact hwithdrawn.mono fun _ => by simp [heldNext, answered]

end Keeps

end ArtifactCall

namespace ArtifactState

variable {ttlMs : ℕ} {s s' : ArtifactState}

/-- When an event keeps the ledger in step: a request in its turn, and no stop
between the delete of a shared artefact's copy and the change of its row. -/
def inTurn (s : ArtifactState) : ArtifactEvent → Bool
  | .start _ _ => true
  | .advance n landing _ _ =>
      (s.calls.get? n).all fun call =>
        call.inTurn s.ledger (heldBy (s.calls.delete n)) landing
  | .stop => s.calls.entries.all fun entry =>
      entry.2.heldIds.all fun id => !s.ledger.shared id

def Sound (s : ArtifactState) : Prop :=
  s.ledger.Sound fun id => heldBy s.calls id = true

theorem heldBy_of_get {calls : OrderedMap ℕ ArtifactCall} {n : ℕ}
    {call : ArtifactCall} {id : String} (h : calls.get? n = some call) :
    heldBy calls id = true ↔
      heldBy (calls.delete n) id = true ∨ id ∈ call.heldIds := by
  rw [heldBy_iff, heldBy_iff, ArtifactCall.mem_heldIds]
  constructor
  · rintro ⟨m, other, hget, hholds⟩
    by_cases hm : m = n
    · subst hm
      rw [h] at hget
      cases hget
      exact .inr hholds
    · exact .inl ⟨m, other, by simp [hm, hget], hholds⟩
  · rintro (⟨m, other, hget, hholds⟩ | hholds)
    · rw [OrderedMap.get?_delete] at hget
      split at hget
      · cases hget
      · exact ⟨m, other, hget, hholds⟩
    · exact ⟨n, call, h, hholds⟩

theorem heldBy_set {calls : OrderedMap ℕ ArtifactCall} {n : ℕ}
    {call : ArtifactCall} {id : String} :
    heldBy (calls.set n call) id = true ↔
      heldBy (calls.delete n) id = true ∨ id ∈ call.heldIds := by
  have hget : (calls.set n call).get? n = some call := by
    simp
  rw [heldBy_of_get hget, heldBy_iff, heldBy_iff]
  constructor <;> rintro (⟨m, other, hget, hholds⟩ | hmem)
  · rw [OrderedMap.get?_delete, OrderedMap.get?_set] at hget
    refine .inl ⟨m, other, ?_, hholds⟩
    rw [OrderedMap.get?_delete]
    split at hget
    · cases hget
    · next hm =>
        rw [if_neg hm]
        exact hget
  · exact .inr hmem
  · rw [OrderedMap.get?_delete] at hget
    refine .inl ⟨m, other, ?_, hholds⟩
    rw [OrderedMap.get?_delete, OrderedMap.get?_set]
    split at hget
    · cases hget
    · next hm => rwa [if_neg hm, if_neg hm]
  · exact .inr hmem

theorem Sound.proceed {n : ℕ} {l : ArtifactLedger}
    {progress : ArtifactProgress}
    (h : (ArtifactCall.promised l progress).Sound fun id =>
      heldBy (s.calls.delete n) id = true ∨
        id ∈ ArtifactCall.heldNext progress) :
    (s.proceed n l progress).Sound := by
  cases progress with
  | next call => exact h.mono fun id => heldBy_set
  | _ => exact h.mono fun id => by simp [ArtifactCall.heldNext, ArtifactState.proceed]

theorem Sound.step (h : s.Sound) {event : ArtifactEvent}
    (hturn : s.inTurn event = true) (hstep : s.step ttlMs event = some s') :
    s'.Sound := by
  cases event with
  | start n request =>
      rw [ArtifactState.step, Option.ite_none_left_eq_some] at hstep
      rcases hstep with ⟨hnew, hs⟩
      cases hs
      have hnone : s.calls.get? n = none := by
        simpa [OrderedMap.has] using hnew
      apply h.mono
      intro id
      have hfirst : request.first.holds id = false := by
        cases request <;> rfl
      rw [heldBy_iff, heldBy_iff]
      constructor <;> rintro ⟨m, call, hget, hholds⟩
      · rw [OrderedMap.get?_push] at hget
        split at hget
        · cases hget
          rw [hfirst] at hholds
          cases hholds
        · exact ⟨m, call, hget, hholds⟩
      · have hm : m ≠ n := by
          rintro rfl
          rw [hnone] at hget
          cases hget
        exact ⟨m, call, by simp [hm, hget], hholds⟩
  | advance n landing now shareKey =>
      rw [ArtifactState.step, Option.map_eq_some_iff] at hstep
      rcases hstep with ⟨call, hcall, rfl⟩
      have hheld : s.ledger.Sound fun id =>
          heldBy (s.calls.delete n) id = true ∨ id ∈ call.heldIds :=
        h.mono fun id => (heldBy_of_get hcall).symm
      have hturn : call.inTurn s.ledger (heldBy (s.calls.delete n))
          landing = true := by
        simpa [inTurn, hcall] using hturn
      cases landing with
      | lands => exact Sound.proceed (call.sound_lands ttlMs now shareKey hheld hturn)
      | failsBefore =>
          apply Sound.proceed
          exact (call.sound_failsBefore hheld hturn).mono fun id => by
            simp [ArtifactCall.heldNext]
      | failsAfter =>
          apply Sound.proceed
          exact (call.sound_failsAfter ttlMs now shareKey hheld hturn).mono
            fun id => by simp [ArtifactCall.heldNext]
  | stop =>
      rw [ArtifactState.step] at hstep
      cases hstep
      apply h.release
      · intro id hheld
        simp [heldBy, OrderedMap.empty] at hheld
      · intro id hheld _
        rcases heldBy_iff.mp hheld with ⟨n, call, hget, hholds⟩
        have hall := List.all_eq_true.mp hturn (n, call)
          (OrderedMap.mem_entries_iff.mpr hget)
        have hid := List.all_eq_true.mp hall id
          (ArtifactCall.mem_heldIds.mpr hholds)
        simpa using hid

/-- What the calls have promised holds: a withdrawn artefact has no copy, a
copy has its row, and a link that stands has the copy it was made for. -/
structure StaysRevoked (s : ArtifactState) : Prop where
  withdrawn : ∀ id ∈ s.ledger.withdrawn, s.ledger.objects.get? id = none
  copies : ∀ id copy, s.ledger.objects.get? id = some copy →
    ∃ row, s.ledger.rows.get? id = some row ∧ row.revokedAt = none ∧
      copy = sealArtifact row.body
  links : ∀ id body, (id, body) ∈ s.ledger.links →
    s.ledger.stands id body = true → heldBy s.calls id = false →
      s.ledger.objects.get? id = some (sealArtifact body)

theorem Sound.staysRevoked (h : s.Sound) : s.StaysRevoked := by
  refine ⟨?_, h.copies, ?_⟩
  · intro id hmem
    apply ArtifactLedger.Sound.no_copy h
    exact ArtifactLedger.takenBack_iff.mpr (h.withdrawn id hmem)
  · intro id body hlink hstands hfree
    rcases ArtifactLedger.stands_iff.mp hstands with
      ⟨row, hrow, hbody, hrevoked⟩
    have huploaded := h.links id body hlink row hrow hbody hrevoked
    rcases h.uploaded id row hrow huploaded hrevoked with hheld | hcopy
    · rw [hfree] at hheld
      cases hheld
    · rcases Option.isSome_iff_exists.mp hcopy with ⟨copy, hcopy⟩
      rcases h.copies id copy hcopy with ⟨row', hrow', -, hsealed⟩
      rw [hrow] at hrow'
      cases hrow'
      rw [hcopy, hsealed, hbody]

variable {row row' : ArtifactRow}

theorem effect_body {l : ArtifactLedger} {call : ArtifactCall}
    {now : ℕ} {shareKey id : String}
    (h : l.rows.get? id = some row)
    (h' : (call.effect ttlMs now shareKey l).rows.get? id = some row') :
    row'.body = row.body := by
  have hsame : l.rows.get? id = some row' → row'.body = row.body := by
    intro heq
    rw [h] at heq
    cases heq
    rfl
  cases call with
  | insertRow input =>
      unfold ArtifactCall.effect ArtifactLedger.insertRow at h'
      dsimp only at h'
      split at h'
      · exact hsame h'
      · next hhas =>
          apply hsame
          have hne : id ≠ input.artifactId := by
            rintro rfl
            exact hhas (OrderedMap.has_iff.mpr ⟨row, h⟩)
          simpa [hne] using h'
  | markUploaded artifactId old =>
      rcases ArtifactLedger.Sound.get?_updateRow h' with ⟨before, hbefore, rfl⟩
      rw [h] at hbefore
      cases hbefore
      split <;> rfl
  | markRevoked artifactId =>
      rcases ArtifactLedger.Sound.get?_updateRow h' with ⟨before, hbefore, rfl⟩
      rw [h] at hbefore
      cases hbefore
      split <;> rfl
  | deleteRows sessionId ids =>
      exact hsame (ArtifactLedger.Sound.get?_deleteRows h').1
  | deleteCopies sessionId ids =>
      apply hsame
      unfold ArtifactCall.effect at h'
      dsimp only at h'
      split at h' <;> exact h'
  | _ => exact hsame h'

theorem proceed_rows {n : ℕ} {l : ArtifactLedger}
    {progress : ArtifactProgress} :
    (s.proceed n l progress).ledger.rows = l.rows := by
  cases progress <;> rfl

/-- A row keeps its session, content, share key and expiry. -/
theorem step_body {event : ArtifactEvent} {id : String}
    (hstep : s.step ttlMs event = some s')
    (h : s.ledger.rows.get? id = some row)
    (h' : s'.ledger.rows.get? id = some row') : row'.body = row.body := by
  have hsame : s.ledger.rows.get? id = some row' → row'.body = row.body := by
    intro heq
    rw [h] at heq
    cases heq
    rfl
  cases event with
  | start n request =>
      rw [ArtifactState.step, Option.ite_none_left_eq_some] at hstep
      obtain rfl := Option.some.inj hstep.2
      exact hsame h'
  | advance n landing now shareKey =>
      rw [ArtifactState.step, Option.map_eq_some_iff] at hstep
      rcases hstep with ⟨call, -, rfl⟩
      cases landing with
      | failsBefore => exact hsame h'
      | failsAfter => exact effect_body h h'
      | lands =>
          dsimp only at h'
          rw [proceed_rows] at h'
          exact effect_body h h'
  | stop =>
      rw [ArtifactState.step] at hstep
      cases hstep
      exact hsame h'

/-- The row is there in every state the events pass. -/
def RowStays (ttlMs : ℕ) (id : String) (s : ArtifactState)
    (events : List ArtifactEvent) : Prop :=
  ∀ k mid, Transition.run (step ttlMs) s (events.take k) = some mid →
    (mid.ledger.rows.get? id).isSome

theorem run_body {events : List ArtifactEvent} {id : String}
    (hstays : RowStays ttlMs id s events)
    (hrun : Transition.run (step ttlMs) s events = some s')
    (h : s.ledger.rows.get? id = some row)
    (h' : s'.ledger.rows.get? id = some row') : row'.body = row.body := by
  induction events generalizing s row with
  | nil =>
      cases hrun
      rw [h] at h'
      cases h'
      rfl
  | cons event events ih =>
      rcases Transition.run_cons_eq_some.mp hrun with ⟨mid, hmid, hrest⟩
      have hthere : (mid.ledger.rows.get? id).isSome := by
        apply hstays 1 mid
        simp [Transition.run, hmid]
      rcases Option.isSome_iff_exists.mp hthere with ⟨between, hbetween⟩
      have htail : RowStays ttlMs id mid events := by
        intro k later hlater
        apply hstays (k + 1) later
        rw [List.take_succ_cons, Transition.run_cons, hmid]
        exact hlater
      exact (ih htail hrest hbetween).trans (step_body hmid h hbetween)

/-- A session is deleted whole exactly when its copies fit one delete. -/
theorem deleteForSession_alone (ttlMs now : ℕ) (shareKey sessionId : String)
    (l : ArtifactLedger) :
    (∀ id ∈ l.rowsOf sessionId,
      let after := ArtifactCall.finish ttlMs now shareKey 3 l
        (ArtifactRequest.deleteForSession sessionId).first
      after.rows.get? id = none ∧ after.objects.get? id = none) ↔
      (l.rowsOf sessionId).length ≤ r2MaxBatch := by
  by_cases hempty : l.rowsOf sessionId = []
  · simp [hempty]
  · by_cases hsize : r2MaxBatch < (l.rowsOf sessionId).length
    · have hkept : ArtifactCall.finish ttlMs now shareKey 3 l
          (ArtifactRequest.deleteForSession sessionId).first = l := by
        simp [ArtifactCall.finish, ArtifactRequest.first,
          ArtifactCall.answered, ArtifactCall.effect, hempty, hsize]
      rw [hkept]
      refine ⟨fun hgone => ?_, fun hfits => absurd hsize (not_lt.mpr hfits)⟩
      rcases List.exists_mem_of_ne_nil _ hempty with ⟨id, hmem⟩
      rcases ArtifactCall.mem_rowsOf.mp hmem with ⟨row, hrow, -⟩
      have hnone := (hgone id hmem).1
      rw [hrow] at hnone
      cases hnone
    · have hdone : ArtifactCall.finish ttlMs now shareKey 3 l
          (ArtifactRequest.deleteForSession sessionId).first =
          (l.deleteCopies (l.rowsOf sessionId)).deleteRows sessionId := by
        simp [ArtifactCall.finish, ArtifactRequest.first,
          ArtifactCall.answered, ArtifactCall.effect, hempty, hsize]
      rw [hdone]
      refine ⟨fun _ => not_lt.mp hsize, fun _ id hmem => ⟨?_, ?_⟩⟩
      · rcases ArtifactCall.mem_rowsOf.mp hmem with ⟨row, hrow, hsession⟩
        simp [ArtifactLedger.deleteRows, ArtifactLedger.deleteCopies, hrow,
          hsession]
      · cases hcopy : l.objects.get? id <;>
          simp [ArtifactLedger.deleteRows, ArtifactLedger.deleteCopies, hcopy,
            hmem]

/-- In a run of requests in their turn: withdrawn artefacts stay withdrawn,
links that stand work, a session of at most a batch is deleted whole, and a
row keeps its body whatever runs next. -/
theorem revoked_stays_revoked (ttlMs : ℕ) (events : List ArtifactEvent)
    (s : ArtifactState)
    (hturn : Transition.Meets (step ttlMs) (fun s e => s.inTurn e = true)
      empty events)
    (hrun : Transition.run (step ttlMs) empty events = some s) :
    s.StaysRevoked ∧
    (∀ now shareKey sessionId, (∀ id ∈ s.ledger.rowsOf sessionId,
        let after := ArtifactCall.finish ttlMs now shareKey 3 s.ledger
          (ArtifactRequest.deleteForSession sessionId).first
        after.rows.get? id = none ∧ after.objects.get? id = none) ↔
        (s.ledger.rowsOf sessionId).length ≤ r2MaxBatch) ∧
    ∀ later s' id row row', RowStays ttlMs id s later →
      Transition.run (step ttlMs) s later = some s' →
      s.ledger.rows.get? id = some row →
      s'.ledger.rows.get? id = some row' → row'.body = row.body := by
  have hsound : s.Sound := Transition.run_preserves_of_meets
      (fun s s' e hs hturn hstep => Sound.step hs hturn hstep) hturn
      (ArtifactLedger.Sound.empty _) hrun
  refine ⟨hsound.staysRevoked, ?_, ?_⟩
  · exact fun now shareKey sessionId =>
      deleteForSession_alone ttlMs now shareKey sessionId s.ledger
  · exact fun later s' id row row' hstays hlater h h' =>
      run_body hstays hlater h h'

/-- An artefact created, opened to others and revoked. -/
def createdThenRevoked : List ArtifactEvent :=
  [.start 0 (.create ⟨"a", "session", "title", "text"⟩),
    .advance 0 .lands 1 "key", .advance 0 .lands 2 "", .advance 0 .lands 3 "",
    .advance 0 .lands 4 "",
    .start 1 (.revoke "a"),
    .advance 1 .lands 5 "", .advance 1 .lands 6 "", .advance 1 .lands 7 ""]

theorem revoked_stays_revoked_created :
    ∃ s, Transition.run (step 100) empty createdThenRevoked = some s ∧
      s.StaysRevoked := by
  have hturn : Transition.Meets (step 100) (fun s e => s.inTurn e = true)
      empty createdThenRevoked := by
    decide +kernel
  cases hrun : Transition.run (step 100) empty createdThenRevoked with
  | none =>
      have hruns : (Transition.run (step 100) empty
          createdThenRevoked).isSome = true := by
        decide +kernel
      simp [hrun] at hruns
  | some s =>
      exact ⟨s, rfl, (revoked_stays_revoked 100 _ s hturn hrun).1⟩

/-- The upload of a row that was revoked while it was sealed. -/
def revokedWhileSealing : List ArtifactEvent :=
  [.start 0 (.create ⟨"a", "session", "title", "text"⟩),
    .advance 0 .lands 1 "key", .advance 0 .lands 2 "",
    .start 1 (.revoke "a"),
    .advance 1 .lands 3 "", .advance 1 .lands 4 "", .advance 1 .lands 5 "",
    .advance 0 .lands 6 ""]

theorem revoked_copy_lands_later :
    ¬ ∀ (ttlMs : ℕ) (events : List ArtifactEvent) (s : ArtifactState),
      Transition.run (step ttlMs) empty events = some s → s.StaysRevoked := by
  intro hall
  have hreaches : ((Transition.run (step 100) empty
      revokedWhileSealing).map fun s =>
        (s.ledger.withdrawn.contains "a",
          (s.ledger.objects.get? "a").isSome)) = some (true, true) := by
    decide +kernel
  rcases Option.map_eq_some_iff.mp hreaches with ⟨s, hrun, hfound⟩
  obtain ⟨hmem, hcopy⟩ := Prod.mk.inj hfound
  have hnone := (hall 100 _ s hrun).withdrawn "a" (by simpa using hmem)
  rw [hnone] at hcopy
  cases hcopy

end ArtifactState

end QiForge
