import QiForge.ActionInteractions
import QiForge.Transition

/-!
# No duplicate submission

The facts of a run are what its operations answered.  `Permitted` says what an
answer promises about the ones before it: a card passes the dispatch check only
when every card that passed it before was released, the ordinary form only when
in addition no outcome of the key is observed, and no card is prepared or passes
once the form did.  The store keeps this through the records that still count:
a consumed operation stays on a record that is not cancelled, and that record is
the owner's.
-/

namespace QiForge

variable {J : Type}

namespace OwnerKey

def isFlow : OwnerKey → Bool
  | .flowClaim _ | .flowClaimBlock _ _ | .flowBid _ _ _ => true
  | .approval _ _ _ | .inSession _ _ => false

end OwnerKey

theorem InteractionOwner.storageKey_isFlow (owner : InteractionOwner)
    (sessionId : String) :
    (owner.storageKey sessionId).isFlow = owner.isFlow := by
  cases owner <;> rfl

/-- An executable owner has one key for all sessions. -/
theorem InteractionOwner.storageKey_session (owner : InteractionOwner)
    (hdispatchable : owner.isDispatchable = true) (left right : String) :
    owner.storageKey left = owner.storageKey right := by
  cases owner <;> first | rfl | cases hdispatchable

namespace InteractionFact

/-- The operation was reported as not submitted. -/
def releases (operationKey : String) : InteractionFact → Bool
  | .observed _ _ op status =>
      decide (op = operationKey) && decide (status = .cancelled)
  | .prepared _ | .cardAllowed _ _ | .formAllowed _ => false

/-- The record's outcome as it was reported last. -/
def lastOutcome (facts : List InteractionFact) (id : String) :
    Option (OwnerKey × InteractionStatus) :=
  facts.foldl (fun last fact =>
    match fact with
    | .observed key i _ status => if i = id then some (key, status) else last
    | .prepared _ | .cardAllowed _ _ | .formAllowed _ => last) none

/-- Every card of the key that passed the check was released afterwards. -/
def AllReleased (facts : List InteractionFact) (key : OwnerKey) : Prop :=
  ∀ pre op post, facts = pre ++ .cardAllowed key op :: post →
    ∃ fact ∈ post, fact.releases op = true

/-- What an answer promises about the ones before it. -/
def Permitted (before : List InteractionFact) : InteractionFact → Prop
  | .prepared key => .formAllowed key ∉ before
  | .cardAllowed key _ =>
      AllReleased before key ∧ .formAllowed key ∉ before
  | .formAllowed key =>
      AllReleased before key ∧
        ∀ id status, lastOutcome before id = some (key, status) →
          status ≠ .observed ∧ status ≠ .partially
  | .observed _ _ _ _ => True

/-- No answer of the log contradicts the ones before it. -/
def NoDuplicateSubmission (facts : List InteractionFact) : Prop :=
  ∀ pre fact post, facts = pre ++ fact :: post → Permitted pre fact

theorem split_concat {facts pre post : List InteractionFact}
    {new fact : InteractionFact}
    (hsplit : facts ++ [new] = pre ++ fact :: post) :
    (∃ rest, facts = pre ++ fact :: rest ∧ post = rest ++ [new]) ∨
      (fact = new ∧ pre = facts ∧ post = []) := by
  rcases List.eq_nil_or_concat post with rfl | ⟨rest, last, rfl⟩
  · right
    have heq := List.append_inj' hsplit rfl
    simp only [List.cons.injEq, and_true] at heq
    exact ⟨heq.2.symm, heq.1.symm, rfl⟩
  · left
    have hassoc : facts ++ [new] = (pre ++ fact :: rest) ++ [last] := by
      simpa using hsplit
    have heq := List.append_inj' hassoc rfl
    simp only [List.cons.injEq, and_true] at heq
    exact ⟨rest, heq.1, by rw [heq.2]; simp⟩

theorem NoDuplicateSubmission.concat {facts : List InteractionFact}
    {new : InteractionFact} (hsafe : NoDuplicateSubmission facts)
    (hnew : Permitted facts new) :
    NoDuplicateSubmission (facts ++ [new]) := by
  intro pre fact post hsplit
  rcases split_concat hsplit with ⟨rest, hfacts, -⟩ | ⟨rfl, rfl, -⟩
  · exact hsafe pre fact rest hfacts
  · exact hnew

theorem lastOutcome_concat (facts : List InteractionFact)
    (new : InteractionFact) (id : String) :
    lastOutcome (facts ++ [new]) id =
      match new with
      | .observed key i _ status =>
          if i = id then some (key, status) else lastOutcome facts id
      | .prepared _ | .cardAllowed _ _ | .formAllowed _ =>
          lastOutcome facts id := by
  simp only [lastOutcome, List.foldl_append, List.foldl_cons, List.foldl_nil]

end InteractionFact

/-- The operation the record reserves. -/
def Interaction.operation (r : Interaction J) : Option String :=
  r.reservation.map Reservation.operationKey

/-- The record's outcome counts as a submission. -/
def Interaction.Submitted (r : Interaction J) : Prop :=
  r.status = .observed ∨ r.status = .partially

namespace InteractionStore

variable {r : Interaction J}

theorem dispatched_eq_true {s : InteractionStore J} : s.dispatched r = true ↔
      ∃ op, r.operation = some op ∧ s.dispatch op = some .consumed := by
  unfold dispatched Interaction.operation
  cases r.reservation <;> simp

variable {now : ℕ}

theorem ownerState_eq_blocked {s : InteractionStore J} :
    s.ownerState now r = .blocked ↔ r.Submitted ∨ s.dispatched r = true := by
  unfold ownerState Interaction.Submitted
  split_ifs <;> simp_all

/-- Each record comes from one of the same key; a cancelled one stays. -/
structure Derives (s s' : InteractionStore J) : Prop where
  records : ∀ id r', s'.records id = some r' →
    ∃ r, s.records id = some r ∧ r'.id = r.id ∧ r'.ownerKey = r.ownerKey ∧
      (r.status = .cancelled → r'.status = .cancelled) ∧
      ((r.status = .draft → r.reservation = none) →
        r'.status = .draft → r'.reservation = none)
  owners : ∀ id r', s'.records id = some r' →
    s.owners r'.ownerKey = some id → s'.owners r'.ownerKey = some id
  manual : s'.manual = s.manual

/-- A consumed operation stays on its record. -/
structure KeepsConsumed (s s' : InteractionStore J) : Prop where
  dispatch : ∀ op mark, s.dispatch op = some mark → s'.dispatch op = some mark
  records : ∀ id r op, s.records id = some r → r.status ≠ .cancelled →
    r.operation = some op → s.dispatch op = some .consumed →
    ∃ r', s'.records id = some r' ∧ r'.ownerKey = r.ownerKey ∧
      r'.status ≠ .cancelled ∧ r'.operation = some op

/-- A record with a submission stays, with its outcome. -/
def KeepsSubmitted (s s' : InteractionStore J) : Prop :=
  ∀ id r, s.records id = some r → r.Submitted →
    ∃ r', s'.records id = some r' ∧ r'.ownerKey = r.ownerKey ∧
      r'.status = r.status

/-- What the operations other than a new card and an outcome do. -/
structure Keeps (s s' : InteractionStore J) : Prop where
  derives : s.Derives s'
  consumed : s.KeepsConsumed s'
  submitted : s.KeepsSubmitted s'

theorem Derives.refl (s : InteractionStore J) : s.Derives s := by
  constructor
  · intro id r hr
    exact ⟨r, hr, rfl, rfl, fun h => h, fun h => h⟩
  · intro id r _ howner
    exact howner
  · rfl

theorem Derives.trans {s mid s' : InteractionStore J}
    (hleft : s.Derives mid) (hright : mid.Derives s') : s.Derives s' := by
  constructor
  · intro id r' hr'
    rcases hright.records id r' hr' with ⟨m, hm, hid, hkey, hend, hdraft⟩
    rcases hleft.records id m hm with ⟨r, hr, hid', hkey', hend', hdraft'⟩
    exact ⟨r, hr, hid.trans hid', hkey.trans hkey', fun h => hend (hend' h),
      fun h => hdraft (hdraft' h)⟩
  · intro id r' hr' howner
    rcases hright.records id r' hr' with ⟨m, hm, -, hkey, -, -⟩
    refine hright.owners id r' hr' ?_
    rw [hkey] at howner ⊢
    exact hleft.owners id m hm howner
  · exact hright.manual.trans hleft.manual

theorem Keeps.refl (s : InteractionStore J) : s.Keeps s := by
  constructor
  · exact Derives.refl s
  · constructor
    · intro op mark hmark
      exact hmark
    · intro id r op hr hstatus hop _
      exact ⟨r, hr, rfl, hstatus, hop⟩
  · intro id r hr _
    exact ⟨r, hr, rfl, rfl⟩

theorem Keeps.trans {s mid s' : InteractionStore J}
    (hleft : s.Keeps mid) (hright : mid.Keeps s') : s.Keeps s' := by
  constructor
  · exact hleft.derives.trans hright.derives
  · constructor
    · intro op mark hmark
      exact hright.consumed.dispatch op mark
        (hleft.consumed.dispatch op mark hmark)
    · intro id r op hr hstatus hop hmark
      rcases hleft.consumed.records id r op hr hstatus hop hmark with
        ⟨m, hm, hkey, hm_status, hm_op⟩
      have hmark' := hleft.consumed.dispatch op _ hmark
      rcases hright.consumed.records id m op hm hm_status hm_op hmark' with
        ⟨r', hr', hkey', hstatus', hop'⟩
      exact ⟨r', hr', hkey'.trans hkey, hstatus', hop'⟩
  · intro id r hr hsub
    rcases hleft.submitted id r hr hsub with ⟨m, hm, hkey, hm_status⟩
    have hm_sub : m.Submitted := by
      unfold Interaction.Submitted at hsub ⊢
      rw [hm_status]
      exact hsub
    rcases hright.submitted id m hm hm_sub with ⟨r', hr', hkey', hstatus'⟩
    exact ⟨r', hr', hkey'.trans hkey, hstatus'.trans hm_status⟩

/-- One record is rewritten and the other keys stay. -/
structure Rewrites (s s' : InteractionStore J) (id : String)
    (r r' : Interaction J) : Prop where
  old : s.records id = some r
  records : s'.records = Function.update s.records id (some r')
  owners : s'.owners = s.owners
  manual : s'.manual = s.manual
  sameId : r'.id = r.id
  sameKey : r'.ownerKey = r.ownerKey

variable {s s' : InteractionStore J} {id : String}

theorem Rewrites.new {r r' : Interaction J} (h : s.Rewrites s' id r r') :
    s'.records id = some r' := by
  rw [h.records, Function.update_self]

theorem Rewrites.other
    {r r' : Interaction J} (h : s.Rewrites s' id r r') {i : String}
    (hne : i ≠ id) : s'.records i = s.records i := by
  rw [h.records, Function.update_of_ne hne]

theorem Rewrites.derives {r r' : Interaction J} (h : s.Rewrites s' id r r')
    (hend : r.status = .cancelled → r'.status = .cancelled)
    (hdraft : (r.status = .draft → r.reservation = none) →
      r'.status = .draft → r'.reservation = none) : s.Derives s' := by
  constructor
  · intro i q hq
    by_cases hi : i = id
    · subst hi
      rw [h.new] at hq
      cases hq
      exact ⟨r, h.old, h.sameId, h.sameKey, hend, hdraft⟩
    · rw [h.other hi] at hq
      exact ⟨q, hq, rfl, rfl, fun hc => hc, fun hd => hd⟩
  · intro i q _ howner
    rw [h.owners]
    exact howner
  · exact h.manual

theorem Rewrites.keeps {r r' : Interaction J} (h : s.Rewrites s' id r r')
    (hdispatch : s'.dispatch = s.dispatch)
    (hend : r.status = .cancelled → r'.status = .cancelled)
    (hdraft : (r.status = .draft → r.reservation = none) →
      r'.status = .draft → r'.reservation = none)
    (hconsumed : r.status ≠ .cancelled → s.dispatched r = true →
      r'.status ≠ .cancelled ∧ r'.operation = r.operation)
    (hsubmitted : r.Submitted → r'.status = r.status) : s.Keeps s' := by
  constructor
  · exact h.derives hend hdraft
  · constructor
    · intro op mark hmark
      rw [hdispatch]
      exact hmark
    · intro i q op hq hstatus hop hmark
      by_cases hi : i = id
      · subst hi
        rw [h.old] at hq
        cases hq
        rcases hconsumed hstatus
          (dispatched_eq_true.mpr ⟨op, hop, hmark⟩) with ⟨hlive, hsame⟩
        exact ⟨r', h.new, h.sameKey, hlive, hsame.trans hop⟩
      · rw [← h.other hi] at hq
        exact ⟨q, hq, rfl, hstatus, hop⟩
  · intro i q hq hsub
    by_cases hi : i = id
    · subst hi
      rw [h.old] at hq
      cases hq
      exact ⟨r', h.new, h.sameKey, hsubmitted hsub⟩
    · rw [← h.other hi] at hq
      exact ⟨q, hq, rfl, rfl⟩

theorem supersede_rewrites {s : InteractionStore J}
    (hr : s.records id = some r) (hid : r.id = id)
    (hstatus : r.status ≠ .cancelled) :
    s.Rewrites (s.supersede r) id r { r with
        status := .cancelled
        cancelReason := some .superseded
        revision := r.revision + 1 } := by
  constructor
  · exact hr
  · simp [supersede, hstatus, putRecord, hid]
  · simp [supersede, hstatus, putRecord]
  · simp [supersede, hstatus, putRecord]
  · rfl
  · rfl

@[simp] theorem supersede_dispatch (s : InteractionStore J)
    (r : Interaction J) : (s.supersede r).dispatch = s.dispatch := by
  unfold supersede
  split_ifs <;> rfl

@[simp] theorem supersede_manual (s : InteractionStore J)
    (r : Interaction J) : (s.supersede r).manual = s.manual := by
  unfold supersede
  split_ifs <;> rfl

@[simp] theorem supersede_owners (s : InteractionStore J)
    (r : Interaction J) : (s.supersede r).owners = s.owners := by
  unfold supersede
  split_ifs <;> rfl

/-- A record that is not blocked gives way. -/
theorem supersede_keeps {s : InteractionStore J}
    (hr : s.records id = some r) (hid : r.id = id)
    (hfree : s.ownerState now r ≠ .blocked) : s.Keeps (s.supersede r) := by
  by_cases hstatus : r.status = .cancelled
  · rw [supersede, if_pos hstatus]
    exact Keeps.refl s
  · rw [Ne, ownerState_eq_blocked, not_or] at hfree
    apply (supersede_rewrites hr hid hstatus).keeps
    · exact supersede_dispatch s r
    · intro _
      rfl
    · intro _ hdraft
      cases hdraft
    · intro _ hdisp
      exact absurd hdisp hfree.2
    · intro hsub
      exact absurd hsub hfree.1

theorem supersede_cancels {s : InteractionStore J}
    (hr : s.records id = some r) (hid : r.id = id) :
    ∃ r', (s.supersede r).records id = some r' ∧ r'.status = .cancelled := by
  by_cases hstatus : r.status = .cancelled
  · rw [supersede, if_pos hstatus]
    exact ⟨r, hr, hstatus⟩
  · exact ⟨_, (supersede_rewrites hr hid hstatus).new, rfl⟩

theorem Keeps.of_eq
    (hrecords : s'.records = s.records) (howners : s'.owners = s.owners)
    (hdispatch : s'.dispatch = s.dispatch)
    (hmanual : s'.manual = s.manual) : s.Keeps s' := by
  constructor
  · constructor
    · intro id r hr
      rw [hrecords] at hr
      exact ⟨r, hr, rfl, rfl, fun h => h, fun h => h⟩
    · intro id r _ howner
      rw [howners]
      exact howner
    · exact hmanual
  · constructor
    · intro op mark hmark
      rw [hdispatch]
      exact hmark
    · intro id r op hr hstatus hop _
      exact ⟨r, hrecords ▸ hr, rfl, hstatus, hop⟩
  · intro id r hr _
    exact ⟨r, hrecords ▸ hr, rfl, rfl⟩

/-- A record that is not blocked may go, with its owner key. -/
theorem Keeps.delete (hr : s.records id = some r)
    (hfree : s.ownerState now r ≠ .blocked)
    (hrecords : s'.records = Function.update s.records id none)
    (howners : ∀ key i, i ≠ id → s.owners key = some i →
      s'.owners key = some i)
    (hdispatch : s'.dispatch = s.dispatch)
    (hmanual : s'.manual = s.manual) : s.Keeps s' := by
  rw [Ne, ownerState_eq_blocked, not_or] at hfree
  have hkept : ∀ i q, s'.records i = some q →
      i ≠ id ∧ s.records i = some q := by
    intro i q hq
    by_cases hi : i = id
    · subst hi
      simp [hrecords] at hq
    · rw [hrecords, Function.update_of_ne hi] at hq
      exact ⟨hi, hq⟩
  have hstays : ∀ i q, s.records i = some q → q ≠ r →
      s'.records i = some q := by
    intro i q hq hne
    have hi : i ≠ id := by
      intro hi
      subst hi
      rw [hr] at hq
      exact hne (Option.some.inj hq).symm
    rw [hrecords, Function.update_of_ne hi]
    exact hq
  constructor
  · constructor
    · intro i q hq
      exact ⟨q, (hkept i q hq).2, rfl, rfl, fun h => h, fun h => h⟩
    · intro i q hq howner
      exact howners q.ownerKey i (hkept i q hq).1 howner
    · exact hmanual
  · constructor
    · intro op mark hmark
      rw [hdispatch]
      exact hmark
    · intro i q op hq hstatus hop hmark
      have hne : q ≠ r := by
        rintro rfl
        exact hfree.2 (dispatched_eq_true.mpr ⟨op, hop, hmark⟩)
      exact ⟨q, hstays i q hq hne, rfl, hstatus, hop⟩
  · intro i q hq hsub
    have hne : q ≠ r := by
      rintro rfl
      exact hfree.1 hsub
    exact ⟨q, hstays i q hq hne, rfl, rfl⟩

theorem forget_keeps (s : InteractionStore J) (now : ℕ) (id : String)
    (expiryEntry : Option ExpiryEntry) :
    s.Keeps (s.forget now id expiryEntry) := by
  unfold forget
  dsimp only
  split
  next hr => exact Keeps.of_eq rfl rfl rfl rfl
  next r hr =>
    split
    next hblocked =>
      split
      next => exact Keeps.of_eq rfl rfl rfl rfl
      next =>
        have hrewrites : s.Rewrites { s with
            records := Function.update s.records id (some { r with
              values := []
              updatedByUser := []
              revision := r.revision + 1 }) } id r
            { r with
              values := []
              updatedByUser := []
              revision := r.revision + 1 } :=
          ⟨hr, rfl, rfl, rfl, rfl, rfl⟩
        have hkeeps := hrewrites.keeps rfl (fun h => h) (fun h => h)
          (fun h _ => ⟨h, rfl⟩) (fun _ => rfl)
        exact hkeeps.trans (Keeps.of_eq rfl rfl rfl rfl)
    next hfree =>
      apply Keeps.delete hr hfree
      · rfl
      · intro key i hi howner
        dsimp only
        split
        next hcurrent =>
          by_cases hkey : key = r.ownerKey
          · subst hkey
            rw [hcurrent] at howner
            exact absurd (Option.some.inj howner).symm hi
          · rw [Function.update_of_ne hkey]
            exact howner
        next => exact howner
      · rfl
      · rfl

theorem forgetDue_keeps (s : InteractionStore J) (now : ℕ)
    (entries : List ExpiryEntry) : s.Keeps (s.forgetDue now entries) := by
  unfold forgetDue
  induction entries generalizing s with
  | nil => exact Keeps.refl s
  | cons entry entries ih =>
      rw [List.foldl_cons]
      exact (forget_keeps s now entry.id (some entry)).trans (ih _)

theorem forgetOfSession_keeps (s : InteractionStore J) (now : ℕ)
    (entries : List SessionEntry) :
    s.Keeps (s.forgetOfSession now entries) := by
  unfold forgetOfSession
  induction entries generalizing s with
  | nil => exact Keeps.refl s
  | cons entry entries ih =>
      rw [List.foldl_cons]
      have hone := forget_keeps s now entry.id
        ((s.records entry.id).map fun r => ⟨r.expiresAt, r.id⟩)
      have hlisting : ∀ t : InteractionStore J, t.Keeps { t with
          sessions := t.sessions.filter fun e => !decide (e = entry) } :=
        fun t => Keeps.of_eq rfl rfl rfl rfl
      have htwo := hone.trans (hlisting _)
      exact htwo.trans (ih _)

theorem save_eq_ok {host : InteractionHost J}
    {q : Interaction J} (hsave : s.save host q = .ok s') :
    ∃ saved, (saved = q ∨ saved = { q with values := [] }) ∧
      s'.records = Function.update s.records q.id (some saved) ∧
      s'.owners = s.owners ∧ s'.dispatch = s.dispatch ∧
      s'.manual = s.manual := by
  unfold save at hsave
  dsimp only at hsave
  generalize (if q.owner.isDomainWrite = true then 2 * 1024 * 1024
    else 96 * 1024) = total at hsave
  split_ifs at hsave with htotal hsize
  · cases hsave
    exact ⟨q, .inl rfl, rfl, rfl, rfl, rfl⟩
  · cases hsave
    exact ⟨{ q with values := [] }, .inr rfl, rfl, rfl, rfl, rfl⟩

theorem rewrites_of_save {host : InteractionHost J} {r q : Interaction J}
    (hr : s.records id = some r) (hid : q.id = r.id) (hnamed : r.id = id)
    (hkey : q.ownerKey = r.ownerKey) (hsave : s.save host q = .ok s') :
    s'.dispatch = s.dispatch ∧
      ∃ saved, s.Rewrites s' id r saved ∧ saved.status = q.status ∧
        saved.reservation = q.reservation := by
  have hq : q.id = id := hid.trans hnamed
  rcases save_eq_ok hsave with
    ⟨saved, hsaved, hrecords, howners, hdispatch, hmanual⟩
  rw [hq] at hrecords
  constructor
  · exact hdispatch
  · rcases hsaved with rfl | rfl
    · exact ⟨saved, ⟨hr, hrecords, howners, hmanual, hid, hkey⟩, rfl, rfl⟩
    · exact ⟨_, ⟨hr, hrecords, howners, hmanual, hid, hkey⟩, rfl, rfl⟩

/-- A record the chat reads is the stored one, apart from its values. -/
theorem readFrom_eq_ok {s : InteractionStore J} {id sessionId : String}
    (hread : s.readFrom id sessionId = .ok r) :
    ∃ stored, s.records id = some stored ∧ r.id = stored.id ∧
      r.ownerKey = stored.ownerKey ∧ r.status = stored.status ∧
      r.reservation = stored.reservation := by
  unfold readFrom at hread
  cases hload : s.load id with
  | none => simp [hload] at hread
  | some loaded =>
      simp only [hload] at hread
      split_ifs at hread
      cases hread
      rcases Option.map_eq_some_iff.mp hload with ⟨stored, hstored, rfl⟩
      exact ⟨stored, hstored, rfl, rfl, rfl, rfl⟩

variable {host : InteractionHost J}

theorem applyUpdate_eq_ok {s : InteractionStore J} {r q : Interaction J}
    {kind : UpdateKind J} (hupdate : s.applyUpdate host r kind = .ok q) :
    q.id = r.id ∧ q.ownerKey = r.ownerKey ∧
      (r.status = .draft ∧ q.status = .draft ∧ q.reservation = r.reservation ∨
        q.status = .cancelled ∧ (r.status = .draft ∨
            r.status = .reserved ∧ s.dispatched r = false)) := by
  cases kind with
  | cancel =>
      simp only [applyUpdate] at hupdate
      split_ifs at hupdate with hopen
      cases hupdate
      exact ⟨rfl, rfl, .inr ⟨rfl, hopen⟩⟩
  | update patch remove source =>
      simp only [applyUpdate] at hupdate
      split_ifs at hupdate with hdraft happroval
      cases hsize : assertRecordSize host (patched r patch remove source).1
          (patched r patch remove source).2 r.owner with
      | error e => simp [hsize, Except.map] at hupdate
      | ok _ =>
          simp only [hsize, Except.map, Except.ok.injEq] at hupdate
          subst hupdate
          rw [Ne, not_not] at hdraft
          exact ⟨rfl, rfl, .inl ⟨hdraft, hdraft, rfl⟩⟩

theorem applyReserve_eq_ok {r q : Interaction J} {valuesDigest newKey : String}
    (hreserve : applyReserve host r valuesDigest newKey = .ok q) :
    q.id = r.id ∧ q.ownerKey = r.ownerKey ∧ r.status = .draft ∧
      q.status = .reserved := by
  unfold applyReserve at hreserve
  split_ifs at hreserve with hopen hdigest
  cases hreserve
  rw [not_or, Ne, not_not] at hopen
  exact ⟨rfl, rfl, hopen.2, rfl⟩

theorem applyObserve_eq_ok {r q : Interaction J} {operationKey : String}
    {outcome : ObservedOutcome J}
    (hobserve : s.applyObserve host r operationKey outcome = .ok (q, s')) :
    q = observedRecord r outcome ∧ r.operation = some operationKey ∧
      r.status ≠ .draft ∧ r.status ≠ .cancelled ∧
      (outcome = .notSubmitted ∧ s' = s.putDispatch operationKey .released ∨
        outcome ≠ .notSubmitted ∧ s' = s) := by
  unfold applyObserve at hobserve
  split_ifs at hobserve with hreceipt hsize hawaits
  simp only [Except.ok.injEq, Prod.mk.injEq] at hobserve
  rw [Bool.not_eq_false] at hawaits
  unfold awaits at hawaits
  rw [Bool.and_eq_true] at hawaits
  have hop : r.operation = some operationKey := by
    unfold Interaction.operation
    cases hres : r.reservation with
    | none => simp [hres] at hawaits
    | some res => simpa [hres] using hawaits.1
  cases outcome with
  | notSubmitted =>
      have hstatus : r.status = .reserved := by simpa using hawaits.2
      exact ⟨hobserve.1.symm, hop, by simp [hstatus], by simp [hstatus],
        .inl ⟨rfl, hobserve.2.symm⟩⟩
  | unknown _ | reported _ _ | partially _ _ =>
      have hstatus : r.status = .reserved ∨ r.status = .outcomeUnknown ∨
          r.status = .partially := by simpa using hawaits.2
      refine ⟨hobserve.1.symm, hop, ?_, ?_, .inr ⟨nofun, hobserve.2.symm⟩⟩
      · rcases hstatus with h | h | h <;> simp [h]
      · rcases hstatus with h | h | h <;> simp [h]

variable {result : InteractionResult J}

/-- A new edit applies to the record its chat reads. -/
theorem edit_eq_ok {newKey : String} {input : EditInteraction J}
    (hedit : s.edit host now newKey input = .ok (result, s')) :
    (result.replayed = true ∧ s' = s ∧
        s.readFrom input.id input.sessionId = .ok result.interaction) ∨
      (result.replayed = false ∧ ∃ r q mid saved,
        s.readFrom input.id input.sessionId = .ok r ∧
        s.applyEdit host r newKey input.kind = .ok (q, mid) ∧
        mid.save host { q with revision := q.revision + 1 } = .ok saved ∧
        s' = saved.rememberEdit host input ∧
        result.interaction = { q with revision := q.revision + 1 }) := by
  unfold edit at hedit
  split at hedit
  next previous _ =>
    split_ifs at hedit
    cases hread : s.readFrom input.id input.sessionId with
    | error e => simp [hread, Except.map] at hedit
    | ok r =>
        simp only [hread, Except.map, Except.ok.injEq, Prod.mk.injEq] at hedit
        rcases hedit with ⟨rfl, rfl⟩
        exact .inl ⟨rfl, rfl, rfl⟩
  next =>
    right
    cases hread : s.readFrom input.id input.sessionId with
    | error e => simp [hread] at hedit
    | ok r =>
        simp only [hread] at hedit
        cases hcheck : checkEdit now input r with
        | error e => simp [hcheck] at hedit
        | ok _ =>
            simp only [hcheck] at hedit
            cases happly : s.applyEdit host r newKey input.kind with
            | error e => simp [happly] at hedit
            | ok pair =>
                rcases pair with ⟨q, mid⟩
                simp only [happly] at hedit
                cases hsave : mid.save host
                    { q with revision := q.revision + 1 } with
                | error e => simp [hsave, Except.map] at hedit
                | ok saved =>
                    simp only [hsave, Except.map, Except.ok.injEq,
                      Prod.mk.injEq] at hedit
                    rcases hedit with ⟨rfl, rfl⟩
                    exact ⟨rfl, r, q, mid, saved, rfl, happly, hsave, rfl,
                      rfl⟩

/-- What a new card writes. -/
structure Creates (s s' : InteractionStore J) (key : OwnerKey)
    (newId : String) (card : Interaction J) : Prop where
  records : s'.records = Function.update s.records newId (some card)
  owners : s'.owners = Function.update s.owners key (some newId)
  dispatch : s'.dispatch = s.dispatch
  manual : s'.manual = s.manual
  named : card.id = newId
  key : card.ownerKey = key
  draft : card.status = .draft
  unreserved : card.reservation = none

variable {input : PrepareInteraction J}

theorem create_eq_ok {newId : String}
    (hcreate : s.create host now newId input = .ok (result, s')) :
    result = ⟨newCard now newId input, false⟩ ∧
      ∃ card, s.Creates s' (input.owner.storageKey input.sessionId) newId
        card := by
  unfold create at hcreate
  dsimp only at hcreate
  split_ifs at hcreate
  cases hsave : (s.addKeys (newCard now newId input)).save host
      (newCard now newId input) with
  | error e => simp [hsave, Except.map] at hcreate
  | ok saved =>
      simp only [hsave, Except.map, Except.ok.injEq, Prod.mk.injEq] at hcreate
      rcases hcreate with ⟨rfl, rfl⟩
      constructor
      · rfl
      · rcases save_eq_ok hsave with
          ⟨card, hcard, hrecords, howners, hdispatch, hmanual⟩
        rcases hcard with rfl | rfl
        · exact ⟨newCard now newId input,
            ⟨hrecords, howners, hdispatch, hmanual, rfl, rfl, rfl, rfl⟩⟩
        · exact ⟨{ newCard now newId input with values := [] },
            ⟨hrecords, howners, hdispatch, hmanual, rfl, rfl, rfl, rfl⟩⟩

theorem not_blocked_of_standing {s : InteractionStore J}
    {existing : Interaction J}
    (hstanding : s.standing host now input existing = .ok false) :
    s.ownerState now existing ≠ .blocked := by
  intro hblocked
  unfold standing at hstanding
  dsimp only at hstanding
  rw [hblocked] at hstanding
  split_ifs at hstanding <;> simp_all

/-- The ordinary form passes where nothing is blocked, and ends the draft. -/
theorem checkForm_eq_ok
    {input : CheckDispatch} (hcheck : s.checkForm now input = .ok s') :
    input.owner.isApproval = false ∧
      ∃ base, (base = s ∧ s.ownedRecord (input.owner.storageKey "") = none ∨
          ∃ existing,
            s.ownedRecord (input.owner.storageKey "") = some existing ∧
            s.ownerState now existing ≠ .blocked ∧
            base = s.supersede existing) ∧
        s' = { base with
          manual := Function.update s.manual (input.owner.storageKey "")
            (some now) } := by
  unfold checkForm at hcheck
  dsimp only at hcheck
  split_ifs at hcheck with happroval
  rw [Bool.not_eq_true] at happroval
  constructor
  · exact happroval
  · split at hcheck
    next => cases hcheck
    next hnone =>
      cases hcheck
      refine ⟨s, .inl ⟨rfl, ?_⟩, rfl⟩
      simp [ownedRecord, hnone]
    next r _ hexisting =>
      split_ifs at hcheck with hblocked
      cases hcheck
      refine ⟨s.supersede r, .inr ⟨r, hexisting, hblocked, rfl⟩, ?_⟩
      rw [supersede_manual]

/-- A card passes with the operation its owner's record reserves. -/
theorem checkCard_eq_ok {input : CheckDispatch} {op : String}
    (hcheck : s.checkCard now input = .ok (op, s')) :
    ∃ r, s.ownedRecord (input.owner.storageKey "") = some r ∧
      r.owner = input.owner ∧ r.status = .reserved ∧
      r.operation = some op ∧ s.dispatch op = none ∧
      s' = s.putDispatch op .consumed := by
  unfold checkCard at hcheck
  dsimp only at hcheck
  split at hcheck
  next => cases hcheck
  next r hr =>
    split_ifs at hcheck with hmanual hreviewed
    rw [Bool.not_eq_false] at hreviewed
    unfold isReviewed at hreviewed
    simp only [Bool.and_eq_true, decide_eq_true_eq] at hreviewed
    split at hcheck
    next => cases hcheck
    next res hres =>
      split_ifs at hcheck with hmark
      simp only [Except.ok.injEq, Prod.mk.injEq] at hcheck
      rcases hcheck with ⟨rfl, rfl⟩
      refine ⟨r, hr, hreviewed.1.1.1.1, hreviewed.1.1.1.2, ?_, ?_, rfl⟩
      · simp [Interaction.operation, hres]
      · simpa using hmark

/-- A prepare is a replay, finds a record that stands, or makes a card. -/
theorem prepare_cases {newId : String}
    (hprepare : s.prepare host now newId input = .ok (result, s')) :
    (∃ mark r, s.requests input.requestId = some mark ∧
        s.readFrom mark.id input.sessionId = .ok r ∧
        result = ⟨r, true⟩ ∧ s' = s) ∨
      (s.requests input.requestId = none ∧ (input.owner.isFlow = true →
          s.manual (input.owner.storageKey input.sessionId) = none) ∧
        ((∃ existing, s.ownedRecord (input.owner.storageKey input.sessionId) =
              some existing ∧
            s.standing host now input existing = .ok true ∧
            result = ⟨existing, true⟩ ∧
            s' = s.rememberPrepare host input existing.id) ∨
          ∃ base, (base = s ∧
                s.ownedRecord (input.owner.storageKey input.sessionId) = none ∨
              ∃ existing,
                s.ownedRecord (input.owner.storageKey input.sessionId) =
                  some existing ∧
                s.standing host now input existing = .ok false ∧
                base = s.supersede existing) ∧
            base.create host now newId input = .ok (result, s'))) := by
  unfold prepare at hprepare
  split at hprepare
  next mark hmark =>
    split_ifs at hprepare
    cases hread : s.readFrom mark.id input.sessionId with
    | error e => simp [hread, Except.map] at hprepare
    | ok r =>
        simp only [hread, Except.map, Except.ok.injEq, Prod.mk.injEq]
          at hprepare
        exact .inl ⟨mark, r, hmark, hread, hprepare.1.symm, hprepare.2.symm⟩
  next hnone =>
    right
    cases hcheck : checkPrepare host input with
    | error e => simp [hcheck] at hprepare
    | ok _ =>
        simp only [hcheck] at hprepare
        split_ifs at hprepare with hmanual
        have hopen : input.owner.isFlow = true →
            s.manual (input.owner.storageKey input.sessionId) = none := by
          intro hflow
          simpa [hflow] using hmanual
        refine ⟨hnone, hopen, ?_⟩
        split at hprepare
        next hfree => exact .inr ⟨s, .inl ⟨rfl, hfree⟩, hprepare⟩
        next existing hexisting =>
          cases hstanding : s.standing host now input existing with
          | error e => simp [hstanding] at hprepare
          | ok stands =>
              cases stands with
              | true =>
                  simp only [hstanding, Except.ok.injEq, Prod.mk.injEq]
                    at hprepare
                  exact .inl ⟨existing, hexisting, hstanding,
                    hprepare.1.symm, hprepare.2.symm⟩
              | false =>
                  simp only [hstanding] at hprepare
                  exact .inr ⟨s.supersede existing,
                    .inr ⟨existing, hexisting, hstanding, rfl⟩, hprepare⟩

/-- A prepare that is not a replay makes a card once nothing stands in its
way. -/
theorem prepare_eq_ok {newId : String}
    (hprepare : s.prepare host now newId input = .ok (result, s')) :
    (result.replayed = true ∧ s.Keeps s') ∨ (result.replayed = false ∧
        (input.owner.isFlow = true →
          s.manual (input.owner.storageKey input.sessionId) = none) ∧
        ∃ base, (base = s ∧
              s.ownedRecord (input.owner.storageKey input.sessionId) = none ∨
            ∃ existing,
              s.ownedRecord (input.owner.storageKey input.sessionId) =
                some existing ∧
              s.ownerState now existing ≠ .blocked ∧
              base = s.supersede existing) ∧
          ∃ card, base.Creates s'
            (input.owner.storageKey input.sessionId) newId card) := by
  rcases prepare_cases hprepare with ⟨mark, r, -, -, rfl, rfl⟩ |
    ⟨-, hopen, ⟨existing, -, -, rfl, rfl⟩ | ⟨base, hbase, hcreate⟩⟩
  · exact .inl ⟨rfl, Keeps.refl s'⟩
  · exact .inl ⟨rfl, Keeps.of_eq rfl rfl rfl rfl⟩
  · rcases create_eq_ok hcreate with ⟨rfl, hcreates⟩
    refine .inr ⟨rfl, hopen, base, ?_, hcreates⟩
    rcases hbase with hfree | ⟨existing, hexisting, hstanding, hsupersede⟩
    · exact .inl hfree
    · exact .inr ⟨existing, hexisting, not_blocked_of_standing hstanding,
        hsupersede⟩

end InteractionStore

namespace InteractionSystem

open InteractionStore InteractionFact

/-- Only the owner's record still counts, and none once the form passed. -/
structure StoreSound (s : InteractionStore J) (uuids : List String) :
    Prop where
  named : ∀ id r, s.records id = some r → r.id = id ∧ id ∈ uuids
  unreserved : ∀ id r, s.records id = some r → r.status = .draft →
    r.reservation = none
  current : ∀ id r, s.records id = some r → r.status ≠ .cancelled →
    s.owners r.ownerKey = some id
  closed : ∀ key, s.manual key ≠ none → key.isFlow = true ∧
    ∀ id r, s.records id = some r → r.ownerKey = key → r.status = .cancelled

/-- A record of the key still has the consumed operation. -/
def Consumed (s : InteractionStore J) (key : OwnerKey) (op : String) :
    Prop :=
  s.dispatch op = some .consumed ∧
    ∃ id r, s.records id = some r ∧ r.ownerKey = key ∧
      r.status ≠ .cancelled ∧ r.operation = some op

/-- What the answers so far left in the store. -/
structure LogSound (s : InteractionStore J) (facts : List InteractionFact) :
    Prop where
  form : ∀ key, .formAllowed key ∈ facts → s.manual key ≠ none
  card : ∀ pre key op post, facts = pre ++ .cardAllowed key op :: post →
    Consumed s key op ∨ s.dispatch op = some .released ∧
        ∃ fact ∈ post, fact.releases op = true
  outcome : ∀ id key status, lastOutcome facts id = some (key, status) →
    status = .observed ∨ status = .partially →
    ∃ r, s.records id = some r ∧ r.ownerKey = key ∧ r.status = status
  permitted : NoDuplicateSubmission facts

structure Sound (s : InteractionSystem J) : Prop where
  store : StoreSound s.store s.uuids
  log : LogSound s.store s.facts

theorem StoreSound.mono {s : InteractionStore J} {uuids more : List String}
    (h : StoreSound s uuids) (hsub : uuids ⊆ more) : StoreSound s more := by
  refine { h with named := ?_ }
  · intro id r hr
    exact ⟨(h.named id r hr).1, hsub (h.named id r hr).2⟩

variable {uuids : List String}

theorem StoreSound.derives {s s' : InteractionStore J} (h : StoreSound s uuids)
    (hderives : s.Derives s') : StoreSound s' uuids := by
  constructor
  · intro id r' hr'
    rcases hderives.records id r' hr' with ⟨r, hr, hid, -, -, -⟩
    rw [hid]
    exact h.named id r hr
  · intro id r' hr'
    rcases hderives.records id r' hr' with ⟨r, hr, -, -, -, hdraft⟩
    exact hdraft (h.unreserved id r hr)
  · intro id r' hr' hstatus
    rcases hderives.records id r' hr' with ⟨r, hr, -, hkey, hend, -⟩
    apply hderives.owners id r' hr'
    rw [hkey]
    exact h.current id r hr fun hc => hstatus (hend hc)
  · intro key hmanual
    rw [hderives.manual] at hmanual
    constructor
    · exact (h.closed key hmanual).1
    · intro id r' hr' hkey'
      rcases hderives.records id r' hr' with ⟨r, hr, -, hkey, hend, -⟩
      exact hend ((h.closed key hmanual).2 id r hr (hkey ▸ hkey'))

variable {key : OwnerKey}

theorem Consumed.keeps {s s' : InteractionStore J}
    {op : String} (h : Consumed s key op) (hkeeps : s.KeepsConsumed s') :
    Consumed s' key op := by
  rcases h with ⟨hmark, id, r, hr, rfl, hstatus, hop⟩
  rcases hkeeps.records id r op hr hstatus hop hmark with
    ⟨r', hr', hkey, hstatus', hop'⟩
  exact ⟨hkeeps.dispatch op _ hmark, id, r', hr', hkey, hstatus', hop'⟩

theorem LogSound.keeps {s s' : InteractionStore J}
    {facts : List InteractionFact} (h : LogSound s facts)
    (hconsumed : s.KeepsConsumed s') (hsubmitted : s.KeepsSubmitted s')
    (hmanual : ∀ key, s.manual key ≠ none → s'.manual key ≠ none) :
    LogSound s' facts := by
  constructor
  · intro key hform
    exact hmanual key (h.form key hform)
  · intro pre key op post hsplit
    rcases h.card pre key op post hsplit with hcon | ⟨hmark, hrel⟩
    · exact .inl (hcon.keeps hconsumed)
    · exact .inr ⟨hconsumed.dispatch op _ hmark, hrel⟩
  · intro id key status hlast hsub
    rcases h.outcome id key status hlast hsub with ⟨r, hr, rfl, rfl⟩
    rcases hsubmitted id r hr hsub with ⟨r', hr', hkey, hstatus⟩
    exact ⟨r', hr', hkey, hstatus⟩
  · exact h.permitted

/-- An answer other than an outcome joins the log. -/
theorem LogSound.concat {s : InteractionStore J}
    {facts : List InteractionFact} {new : InteractionFact}
    (h : LogSound s facts)
    (hform : ∀ key, new = .formAllowed key → s.manual key ≠ none)
    (hcard : ∀ key op, new = .cardAllowed key op → Consumed s key op)
    (hlast : ∀ id, lastOutcome (facts ++ [new]) id = lastOutcome facts id)
    (hnew : Permitted facts new) : LogSound s (facts ++ [new]) := by
  constructor
  · intro key hmem
    rcases List.mem_append.mp hmem with hold | hold
    · exact h.form key hold
    · exact hform key (List.mem_singleton.mp hold).symm
  · intro pre key op post hsplit
    rcases split_concat hsplit with ⟨rest, hfacts, rfl⟩ | ⟨heq, -, -⟩
    · rcases h.card pre key op rest hfacts with hcon | ⟨hmark, fact, hmem, hrel⟩
      · exact .inl hcon
      · exact .inr ⟨hmark, fact, List.mem_append_left _ hmem, hrel⟩
    · exact .inl (hcard key op heq.symm)
  · intro id key status hout
    rw [hlast] at hout
    exact h.outcome id key status hout
  · exact h.permitted.concat hnew

theorem Sound.empty : Sound (empty : InteractionSystem J) := by
  constructor
  · constructor
    · intro id r hr
      cases hr
    · intro id r hr
      cases hr
    · intro id r hr
      cases hr
    · intro key hmanual
      exact absurd rfl hmanual
  · constructor
    · intro key hmem
      cases hmem
    · intro pre key op post hsplit
      cases pre <;> cases hsplit
    · intro id key status hlast
      cases hlast
    · intro pre fact post hsplit
      cases pre <;> cases hsplit

/-- The record that still counts for a key is the owner's record. -/
theorem StoreSound.ownedRecord {s : InteractionStore J}
    (h : StoreSound s uuids) {id : String}
    {r : Interaction J} (hr : s.records id = some r)
    (hstatus : r.status ≠ .cancelled) :
    s.ownedRecord r.ownerKey = some r := by
  unfold InteractionStore.ownedRecord
  rw [h.current id r hr hstatus, Option.bind_some, hr]

variable {s : InteractionSystem J}

/-- Unless an earlier card is released, the owner's record is blocked. -/
theorem Sound.released_of_free (h : Sound s)
    (hfree : ∀ r op, s.store.ownedRecord key = some r →
      r.status ≠ .cancelled → r.operation = some op →
      s.store.dispatch op ≠ some .consumed) :
    AllReleased s.facts key := by
  intro pre op post hsplit
  rcases h.log.card pre key op post hsplit with hcon | ⟨-, hrel⟩
  · rcases hcon with ⟨hmark, id, r, hr, rfl, hstatus, hop⟩
    exact absurd hmark
      (hfree r op (h.store.ownedRecord hr hstatus) hstatus hop)
  · exact hrel

theorem Sound.keeps {s s' : InteractionSystem J} (h : Sound s)
    (hkeeps : s.store.Keeps s'.store) (huuids : s.uuids ⊆ s'.uuids)
    (hfacts : s'.facts = s.facts) : Sound s' := by
  constructor
  · exact (h.store.derives hkeeps.derives).mono huuids
  · rw [hfacts]
    apply h.log.keeps hkeeps.consumed hkeeps.submitted
    intro key hmanual
    rw [hkeeps.derives.manual]
    exact hmanual

theorem StoreSound.creates {s s' : InteractionStore J}
    {newId : String} {card : Interaction J}
    (h : StoreSound s uuids) (hcreates : s.Creates s' key newId card)
    (hfree : ∀ id r, s.records id = some r → r.ownerKey = key →
      r.status = .cancelled)
    (hopen : s.manual key = none ∨ key.isFlow = false) :
    StoreSound s' (uuids ++ [newId]) := by
  have hcases : ∀ id r, s'.records id = some r →
      (id = newId ∧ r = card) ∨ (id ≠ newId ∧ s.records id = some r) := by
    intro id r hr
    rw [hcreates.records] at hr
    by_cases hid : id = newId
    · subst hid
      rw [Function.update_self] at hr
      exact .inl ⟨rfl, (Option.some.inj hr).symm⟩
    · rw [Function.update_of_ne hid] at hr
      exact .inr ⟨hid, hr⟩
  constructor
  · intro id r hr
    rcases hcases id r hr with ⟨rfl, rfl⟩ | ⟨-, hold⟩
    · exact ⟨hcreates.named, by simp⟩
    · exact ⟨(h.named id r hold).1,
        List.mem_append_left _ (h.named id r hold).2⟩
  · intro id r hr hdraft
    rcases hcases id r hr with ⟨rfl, rfl⟩ | ⟨-, hold⟩
    · exact hcreates.unreserved
    · exact h.unreserved id r hold hdraft
  · intro id r hr hstatus
    rw [hcreates.owners]
    rcases hcases id r hr with ⟨rfl, rfl⟩ | ⟨-, hold⟩
    · rw [hcreates.key, Function.update_self]
    · have hkey : r.ownerKey ≠ key := by
        intro hkey
        exact hstatus (hfree id r hold hkey)
      rw [Function.update_of_ne hkey]
      exact h.current id r hold hstatus
  · intro k hmanual
    rw [hcreates.manual] at hmanual
    constructor
    · exact (h.closed k hmanual).1
    · intro id r hr hkey
      rcases hcases id r hr with ⟨rfl, rfl⟩ | ⟨-, hold⟩
      · rw [hcreates.key] at hkey
        subst hkey
        rcases hopen with hnone | hflow
        · exact absurd hnone hmanual
        · rw [(h.closed key hmanual).1] at hflow
          cases hflow
      · exact (h.closed k hmanual).2 id r hold hkey

theorem LogSound.creates {s s' : InteractionStore J}
    {newId : String} {card : Interaction J} {facts : List InteractionFact}
    (h : LogSound s facts) (hcreates : s.Creates s' key newId card)
    (hnew : s.records newId = none) : LogSound s' facts := by
  have hstays : ∀ id r, s.records id = some r → s'.records id = some r := by
    intro id r hr
    have hid : id ≠ newId := by
      rintro rfl
      rw [hnew] at hr
      cases hr
    rw [hcreates.records, Function.update_of_ne hid]
    exact hr
  apply h.keeps
  · constructor
    · intro op mark hmark
      rw [hcreates.dispatch]
      exact hmark
    · intro id r op hr hstatus hop _
      exact ⟨r, hstays id r hr, rfl, hstatus, hop⟩
  · intro id r hr _
    exact ⟨r, hstays id r hr, rfl, rfl⟩
  · intro k hmanual
    rw [hcreates.manual]
    exact hmanual

/-- Where a new card goes every other record of its key is cancelled. -/
theorem StoreSound.free_of_base {s base : InteractionStore J} {now : ℕ}
    (h : StoreSound s uuids)
    (hbase : base = s ∧ s.ownedRecord key = none ∨
      ∃ existing, s.ownedRecord key = some existing ∧
        s.ownerState now existing ≠ .blocked ∧
        base = s.supersede existing) :
    s.Keeps base ∧ ∀ id r, base.records id = some r → r.ownerKey = key →
      r.status = .cancelled := by
  rcases hbase with ⟨rfl, hnone⟩ | ⟨existing, hexisting, hfree, rfl⟩
  · constructor
    · exact Keeps.refl base
    · intro id r hr hkey
      by_contra hstatus
      subst hkey
      rw [h.ownedRecord hr hstatus] at hnone
      cases hnone
  · rcases Option.bind_eq_some_iff.mp hexisting with
      ⟨current, howner, hcurrent⟩
    have hid := (h.named current existing hcurrent).1
    have hkeeps := supersede_keeps hcurrent hid hfree
    constructor
    · exact hkeeps
    · intro id r hr hkey
      by_contra hstatus
      have howned := (h.derives hkeeps.derives).current id r hr hstatus
      rw [supersede_owners, hkey, howner] at howned
      cases howned
      rcases supersede_cancels hcurrent hid with ⟨ended, hended, hcancel⟩
      rw [hr] at hended
      cases hended
      exact hstatus hcancel

variable {host : InteractionHost J}

theorem Sound.prepare
    (h : Sound s) (now : ℕ) (newId : String) (input : PrepareInteraction J)
    (hfresh : newId ∉ s.uuids) : Sound (s.prepare host now newId input) := by
  have hmore : s.uuids ⊆ s.uuids ++ [newId] := List.subset_append_left _ _
  unfold InteractionSystem.prepare
  dsimp only
  split
  next e _ => exact h.keeps (Keeps.refl s.store) hmore rfl
  next result store hprepare =>
    rcases prepare_eq_ok hprepare with
      ⟨hreplayed, hkeeps⟩ | ⟨hnew, hopen, base, hbase, card, hcreates⟩
    · apply h.keeps hkeeps hmore
      simp [hreplayed]
    · rcases h.store.free_of_base hbase with ⟨hkeeps, hfree⟩
      have hbaseSound : Sound { s with store := base } :=
        h.keeps hkeeps (List.Subset.refl _) rfl
      have hunused : base.records newId = none := by
        cases hrecord : base.records newId with
        | none => rfl
        | some r =>
            exact absurd (hbaseSound.store.named newId r hrecord).2 hfresh
      have hkeyOpen : s.store.manual
            (input.owner.storageKey input.sessionId) = none ∨
          (input.owner.storageKey input.sessionId).isFlow = false := by
        cases hflow : input.owner.isFlow with
        | true => exact .inl (hopen hflow)
        | false =>
            rw [InteractionOwner.storageKey_isFlow]
            exact .inr hflow
      constructor
      · apply hbaseSound.store.creates hcreates hfree
        rw [hkeeps.derives.manual]
        exact hkeyOpen
      · simp only [hnew, Bool.false_eq_true, if_false]
        apply (hbaseSound.log.creates hcreates hunused).concat
        · intro key heq
          cases heq
        · intro key op heq
          cases heq
        · intro id
          exact lastOutcome_concat _ _ _
        · intro hform
          have hmanual := h.log.form _ hform
          rcases hkeyOpen with hnone | hflow
          · exact hmanual hnone
          · rw [(h.store.closed _ hmanual).1] at hflow
            cases hflow

/-- A record that reserves an operation takes its outcome. -/
theorem LogSound.observes {s s' : InteractionStore J}
    {facts : List InteractionFact} {id op : String}
    {r saved : Interaction J} (h : LogSound s facts)
    (hr : s.records id = some r) (hop : r.operation = some op)
    (hkey : saved.ownerKey = r.ownerKey)
    (hsaved : saved.operation = r.operation)
    (hrecords : s'.records = Function.update s.records id (some saved))
    (hmanual : s'.manual = s.manual)
    (hdispatch : s'.dispatch = if saved.status = .cancelled then
        Function.update s.dispatch op (some .released) else s.dispatch) :
    LogSound s' (facts ++ [.observed r.ownerKey id op saved.status]) := by
  have hnew : s'.records id = some saved := by
    rw [hrecords, Function.update_self]
  have hother : ∀ i, i ≠ id → s'.records i = s.records i := by
    intro i hi
    rw [hrecords, Function.update_of_ne hi]
  constructor
  · intro key hmem
    rw [hmanual]
    apply h.form key
    simpa using hmem
  · intro pre key other post hsplit
    rcases split_concat hsplit with ⟨rest, hfacts, rfl⟩ | ⟨heq, -, -⟩
    · rcases h.card pre key other rest hfacts with
        ⟨hmark, i, q, hq, rfl, hstatus, hqop⟩ | ⟨hmark, fact, hmem, hrel⟩
      · by_cases hrelease : saved.status = .cancelled ∧ other = op
        · right
          constructor
          · rw [hdispatch, if_pos hrelease.1, hrelease.2, Function.update_self]
          · exact ⟨.observed r.ownerKey id op saved.status, by simp, by
              simp [releases, hrelease.1, hrelease.2]⟩
        · left
          constructor
          · rw [hdispatch]
            split
            next hend =>
              have hne : other ≠ op := fun heq => hrelease ⟨hend, heq⟩
              rw [Function.update_of_ne hne]
              exact hmark
            next => exact hmark
          · by_cases hi : i = id
            · subst hi
              rw [hr] at hq
              cases hq
              have hsame : other = op := by
                rw [hop] at hqop
                exact (Option.some.inj hqop).symm
              exact ⟨i, saved, hnew, hkey,
                fun hend => hrelease ⟨hend, hsame⟩, hsaved.trans hqop⟩
            · exact ⟨i, q, (hother i hi).trans hq, rfl, hstatus, hqop⟩
      · right
        constructor
        · rw [hdispatch]
          split
          next =>
            by_cases hsame : other = op
            · rw [hsame, Function.update_self]
            · rw [Function.update_of_ne hsame]
              exact hmark
          next => exact hmark
        · exact ⟨fact, List.mem_append_left _ hmem, hrel⟩
    · cases heq
  · intro i key status hlast hsub
    rw [lastOutcome_concat] at hlast
    dsimp only at hlast
    split at hlast
    next hi =>
      cases hlast
      subst hi
      exact ⟨saved, hnew, hkey, rfl⟩
    next hi =>
      rw [hother i (Ne.symm hi)]
      exact h.outcome i key status hlast hsub
  · exact h.permitted.concat trivial

theorem operation_congr {r q : Interaction J}
    (h : q.reservation = r.reservation) : q.operation = r.operation := by
  unfold Interaction.operation
  rw [h]

theorem dispatched_of_unreserved {s : InteractionStore J}
    {r : Interaction J} (h : r.reservation = none) :
    s.dispatched r = false := by
  simp [dispatched, h]

variable {store : InteractionStore J}

/-- An edit that is not an outcome leaves a record that reached the executor
alone. -/
theorem Sound.edits (h : Sound s) {id : String}
    {r q : Interaction J} (hr : s.store.records id = some r)
    (hid : q.id = r.id) (hkey : q.ownerKey = r.ownerKey)
    (hsave : s.store.save host q = .ok store)
    (hstatus : r.status = .draft ∧
        (q.status = .draft → q.reservation = r.reservation) ∨
      r.status = .reserved ∧ s.store.dispatched r = false ∧
        q.status = .cancelled) : s.store.Keeps store := by
  rcases rewrites_of_save hr hid (h.store.named id r hr).1 hkey hsave with
    ⟨hdispatch, saved, hrewrites, hsaved, hres⟩
  have hfree : s.store.dispatched r = false := by
    rcases hstatus with ⟨hdraft, -⟩ | ⟨-, hfree, -⟩
    · exact dispatched_of_unreserved (h.store.unreserved id r hr hdraft)
    · exact hfree
  apply hrewrites.keeps hdispatch
  · intro hend
    rcases hstatus with ⟨hdraft, -⟩ | ⟨hreserved, -, -⟩
    · rw [hend] at hdraft
      cases hdraft
    · rw [hend] at hreserved
      cases hreserved
  · intro hunreserved hdraft
    rw [hsaved] at hdraft
    rcases hstatus with ⟨hold, hsame⟩ | ⟨-, -, hend⟩
    · rw [hres, hsame hdraft]
      exact hunreserved hold
    · rw [hend] at hdraft
      cases hdraft
  · intro _ hdisp
    rw [hfree] at hdisp
    cases hdisp
  · intro hsub
    unfold Interaction.Submitted at hsub
    rcases hstatus with ⟨hold, -⟩ | ⟨hold, -⟩ <;> simp [hold] at hsub

theorem observedRecord_same (r : Interaction J) (outcome : ObservedOutcome J) :
    (observedRecord r outcome).id = r.id ∧
      (observedRecord r outcome).ownerKey = r.ownerKey ∧
      (observedRecord r outcome).reservation = r.reservation ∧
      (observedRecord r outcome).status ≠ .draft := by
  cases outcome <;> exact ⟨rfl, rfl, rfl, nofun⟩

theorem observedRecord_status {r : Interaction J}
    (outcome : ObservedOutcome J) :
    (observedRecord r outcome).status = .cancelled ↔
      outcome = .notSubmitted := by
  cases outcome <;> simp [observedRecord]

theorem Sound.edit
    (h : Sound s) (now : ℕ) (newKey : String) (input : EditInteraction J) :
    Sound (s.edit host now newKey input) := by
  have hmore : s.uuids ⊆ s.uuids ++ [newKey] := List.subset_append_left _ _
  unfold InteractionSystem.edit
  dsimp only
  split
  next e _ => exact h.keeps (Keeps.refl s.store) hmore rfl
  next result store hedit =>
    rcases edit_eq_ok hedit with ⟨hreplayed, rfl, -⟩ |
      ⟨hnew, r, q, mid, saved, hread, happly, hsave, rfl, hresult⟩
    · have hnone : editFacts input result = [] := by
        unfold editFacts
        cases input.kind <;> simp [hreplayed]
      rw [hnone, List.append_nil]
      exact h.keeps (Keeps.refl s.store) hmore rfl
    · rcases readFrom_eq_ok hread with
        ⟨stored, hstored, hid, hkey, hstatus, hres⟩
      have hremember : saved.Keeps (saved.rememberEdit host input) :=
        Keeps.of_eq rfl rfl rfl rfl
      cases hkind : input.kind with
      | update kind =>
          simp only [hkind, applyEdit] at happly
          cases hupdate : s.store.applyUpdate host r kind with
          | error e => simp [hupdate, Except.map] at happly
          | ok updated =>
              simp only [hupdate, Except.map, Except.ok.injEq,
                Prod.mk.injEq] at happly
              rcases happly with ⟨rfl, rfl⟩
              rcases applyUpdate_eq_ok hupdate with ⟨hid', hkey', hcase⟩
              have hdisp : s.store.dispatched stored =
                  s.store.dispatched r := by
                unfold dispatched
                rw [hres]
              have hkeeps := h.edits hstored
                (q := { updated with revision := updated.revision + 1 })
                (hid'.trans hid) (hkey'.trans hkey) hsave (by
                  rw [hstatus] at hcase
                  rcases hcase with ⟨hdraft, -, hsame⟩ |
                    ⟨hend, hdraft | ⟨hreserved, hfree⟩⟩
                  · exact .inl ⟨hdraft, fun _ => hsame.trans hres⟩
                  · exact .inl ⟨hdraft, fun hd => by
                      simp [hend] at hd⟩
                  · exact .inr ⟨hreserved, hdisp.trans hfree, hend⟩)
              apply h.keeps (hkeeps.trans hremember) hmore
              simp [editFacts, hkind]
      | reserve valuesDigest =>
          simp only [hkind, applyEdit] at happly
          cases hreserve : applyReserve host r valuesDigest newKey with
          | error e => simp [hreserve, Except.map] at happly
          | ok reserved =>
              simp only [hreserve, Except.map, Except.ok.injEq,
                Prod.mk.injEq] at happly
              rcases happly with ⟨rfl, rfl⟩
              rcases applyReserve_eq_ok hreserve with
                ⟨hid', hkey', hdraft, hreserved⟩
              have hkeeps := h.edits hstored
                (q := { reserved with revision := reserved.revision + 1 })
                (hid'.trans hid) (hkey'.trans hkey) hsave (by
                  exact .inl ⟨hstatus ▸ hdraft, fun hd => by
                    simp [hreserved] at hd⟩)
              apply h.keeps (hkeeps.trans hremember) hmore
              simp [editFacts, hkind]
      | observe operationKey outcome =>
          simp only [hkind, applyEdit] at happly
          rcases applyObserve_eq_ok happly with
            ⟨rfl, hop, hnodraft, hlive, hmid⟩
          have hmidSound : StoreSound mid (s.uuids ++ [newKey]) := by
            have hsound := h.store.mono hmore
            rcases hmid with ⟨-, rfl⟩ | ⟨-, rfl⟩
            · exact { hsound with }
            · exact hsound
          have hmidRecord : mid.records input.id = some stored := by
            rcases hmid with ⟨-, rfl⟩ | ⟨-, rfl⟩ <;> exact hstored
          rcases observedRecord_same r outcome with
            ⟨hid', hkey', hres', hstatus'⟩
          rcases rewrites_of_save hmidRecord
            (q := { observedRecord r outcome with
              revision := (observedRecord r outcome).revision + 1 })
            (hid'.trans hid) (h.store.named input.id stored hstored).1
            (hkey'.trans hkey) hsave with
            ⟨hdispatch, written, hrewrites, hwritten, hreservation⟩
          dsimp only at hwritten hreservation
          have hderives : mid.Derives saved := by
            apply hrewrites.derives
            · intro hend
              exact absurd (hstatus.trans hend) hlive
            · intro _ hdraft
              exact absurd (hwritten.symm.trans hdraft) hstatus'
          have hfacts : editFacts input result =
              [.observed stored.ownerKey input.id operationKey
                written.status] := by
            have hidEq : (observedRecord r outcome).id = input.id :=
              (hid'.trans hid).trans (h.store.named input.id stored hstored).1
            have hkeyEq : result.interaction.ownerKey = stored.ownerKey := by
              rw [hresult]
              exact hkey'.trans hkey
            simp only [editFacts, hkind, hnew, Bool.false_eq_true, if_false,
              hkeyEq]
            rw [hresult]
            simp only [hidEq, hwritten]
          constructor
          · exact (hmidSound.derives hderives).derives hremember.derives
          · rw [hfacts]
            apply h.log.observes hstored
            · rw [← hop]
              exact operation_congr hres.symm
            · exact hrewrites.sameKey
            · exact operation_congr (hreservation.trans (hres'.trans hres))
            · change saved.records = _
              rw [hrewrites.records]
              rcases hmid with ⟨-, rfl⟩ | ⟨-, rfl⟩ <;> rfl
            · change saved.manual = _
              rw [hrewrites.manual]
              rcases hmid with ⟨-, rfl⟩ | ⟨-, rfl⟩ <;> rfl
            · change saved.dispatch = _
              rw [hdispatch, hwritten]
              rcases hmid with ⟨hout, rfl⟩ | ⟨hout, rfl⟩
              · rw [if_pos ((observedRecord_status outcome).mpr hout)]
                rfl
              · rw [if_neg fun hend =>
                  hout ((observedRecord_status outcome).mp hend)]

theorem Sound.checkForm (h : Sound s) {now : ℕ} {input : CheckDispatch}
    (hdispatchable : input.owner.isDispatchable = true)
    (hcheck : s.store.checkForm now input = .ok store) :
    Sound { s with
      store := store
      facts := s.facts ++ [.formAllowed (input.owner.storageKey "")] } := by
  rcases checkForm_eq_ok hcheck with ⟨happroval, base, hbase, rfl⟩
  rcases h.store.free_of_base hbase with ⟨hkeeps, hfree⟩
  have hbaseSound : Sound { s with store := base } :=
    h.keeps hkeeps (List.Subset.refl _) rfl
  have howned : ∀ r, s.store.ownedRecord (input.owner.storageKey "") = some r →
      s.store.ownerState now r ≠ .blocked := by
    intro r hr
    rcases hbase with ⟨-, hnone⟩ | ⟨existing, hexisting, hopen, -⟩
    · rw [hr] at hnone
      cases hnone
    · rw [hr] at hexisting
      cases hexisting
      exact hopen
  constructor
  · refine { hbaseSound.store with closed := ?_ }
    · intro key hmanual
      dsimp only at hmanual ⊢
      by_cases hkey : key = input.owner.storageKey ""
      · subst hkey
        constructor
        · rw [InteractionOwner.storageKey_isFlow]
          simpa [InteractionOwner.isDispatchable, happroval]
            using hdispatchable
        · exact hfree
      · rw [Function.update_of_ne hkey, ← hkeeps.derives.manual] at hmanual
        exact hbaseSound.store.closed key hmanual
  · have hlog : LogSound { base with
        manual := Function.update s.store.manual
          (input.owner.storageKey "") (some now) } s.facts := by
      apply h.log.keeps
      · exact ⟨hkeeps.consumed.dispatch, hkeeps.consumed.records⟩
      · exact hkeeps.submitted
      intro key hmanual
      dsimp only
      by_cases hkey : key = input.owner.storageKey ""
      · simp [hkey]
      · rw [Function.update_of_ne hkey]
        exact hmanual
    apply hlog.concat
    · intro key heq
      cases heq
      simp
    · intro key op heq
      cases heq
    · intro id
      exact lastOutcome_concat _ _ _
    · constructor
      · apply h.released_of_free
        intro r op hr _ hop hmark
        exact howned r hr (ownerState_eq_blocked.mpr
          (.inr (dispatched_eq_true.mpr ⟨op, hop, hmark⟩)))
      · intro id status hlast
        by_contra hboth
        have hsub : status = .observed ∨ status = .partially := by
          by_contra hneither
          rw [not_or] at hneither
          exact hboth hneither
        rcases h.log.outcome id _ status hlast hsub with
          ⟨r, hr, hkey, rfl⟩
        have hlive : r.status ≠ .cancelled := by
          rcases hsub with hstatus | hstatus <;> simp [hstatus]
        have hrecord := h.store.ownedRecord hr hlive
        rw [hkey] at hrecord
        exact howned r hrecord (ownerState_eq_blocked.mpr (.inl hsub))

theorem Sound.checkCard (h : Sound s) {now : ℕ}
    {input : CheckDispatch} {op : String}
    (hdispatchable : input.owner.isDispatchable = true)
    (hcheck : s.store.checkCard now input = .ok (op, store)) :
    Sound { s with
      store := store
      facts := s.facts ++ [.cardAllowed (input.owner.storageKey "") op] } := by
  rcases checkCard_eq_ok hcheck with
    ⟨r, howned, howner, hstatus, hop, hnone, rfl⟩
  rcases Option.bind_eq_some_iff.mp howned with ⟨id, -, hr⟩
  have hkey : r.ownerKey = input.owner.storageKey "" := by
    unfold Interaction.ownerKey
    rw [howner]
    exact input.owner.storageKey_session hdispatchable _ _
  have hlive : r.status ≠ .cancelled := by simp [hstatus]
  constructor
  · exact { h.store with }
  · have hlog : LogSound (s.store.putDispatch op .consumed) s.facts := by
      apply h.log.keeps
      · constructor
        · intro other mark hmark
          have hne : other ≠ op := by
            rintro rfl
            rw [hnone] at hmark
            cases hmark
          simp only [putDispatch, Function.update_of_ne hne]
          exact hmark
        · intro i q other hq hqstatus hqop _
          exact ⟨q, hq, rfl, hqstatus, hqop⟩
      · intro i q hq _
        exact ⟨q, hq, rfl, rfl⟩
      · intro key hmanual
        exact hmanual
    apply hlog.concat
    · intro key heq
      cases heq
    · intro key other heq
      cases heq
      constructor
      · simp [putDispatch]
      · exact ⟨id, r, hr, hkey, hlive, hop⟩
    · intro i
      exact lastOutcome_concat _ _ _
    · constructor
      · apply h.released_of_free
        intro q other hq _ hqop
        rw [howned] at hq
        cases hq
        rw [hop] at hqop
        cases hqop
        simp [hnone]
      · intro hform
        exact hlive ((h.store.closed _ (h.log.form _ hform)).2 id r hr hkey)

theorem Sound.checkDispatch (h : Sound s) (now : ℕ)
    (input : CheckDispatch) : Sound (s.checkDispatch host now input) := by
  unfold InteractionSystem.checkDispatch
  split
  next => exact h
  next hopen =>
    rw [not_or, Bool.not_eq_false] at hopen
    split
    next =>
      split
      next => exact h
      next store hcheck => exact h.checkForm hopen.1 hcheck
    next =>
      split
      next => exact h
      next op store hcheck => exact h.checkCard hopen.1 hcheck

theorem Sound.forgets {s s' : InteractionSystem J} (h : Sound s)
    {pass now : ℕ} (hforgets : s.forgets pass now = some s') :
    Sound s' := by
  unfold InteractionSystem.forgets at hforgets
  split at hforgets
  next => cases hforgets
  next entries _ =>
    cases hforgets
    exact h.keeps (forgetDue_keeps s.store now entries)
      (List.Subset.refl _) rfl
  next entries _ =>
    cases hforgets
    exact h.keeps (forgetOfSession_keeps s.store now entries)
      (List.Subset.refl _) rfl

theorem Sound.step {s s' : InteractionSystem J}
    {event : InteractionEvent J} (h : Sound s)
    (hstep : step host s event = some s') : Sound s' := by
  cases event with
  | prepare now newId input =>
      dsimp only [InteractionSystem.step] at hstep
      split_ifs at hstep with hused
      cases hstep
      exact h.prepare now newId input hused
  | edit now newKey input =>
      dsimp only [InteractionSystem.step] at hstep
      split_ifs at hstep
      cases hstep
      exact h.edit now newKey input
  | checkDispatch now input =>
      cases hstep
      exact h.checkDispatch now input
  | pruneReads now =>
      cases hstep
      exact ⟨h.store, h.log⟩
  | sessionReads sessionId =>
      cases hstep
      exact ⟨h.store, h.log⟩
  | forgets pass now => exact h.forgets hstep

/-- No sequence of operations from an empty storage submits an operation of an
owner key twice. -/
theorem no_duplicate_submission (host : InteractionHost J)
    (events : List (InteractionEvent J)) (s : InteractionSystem J)
    (hrun : Transition.run (step host) empty events = some s) :
    NoDuplicateSubmission s.facts :=
  (Transition.run_preserves (fun _ _ _ h hstep => h.step hstep)
    Sound.empty hrun).log.permitted

section Runs

def smallHost : InteractionHost ℕ where
  userDid := "did:user"
  valuesBytes := fun values => 8 * values.length
  namesBytes := fun names => 8 * names.length
  recordBytes := fun r => 256 + 8 * r.values.length
  receiptBytes := fun receipt => 8 * receipt.length
  valuesDigest := fun values => String.join (values.map Prod.fst)
  sameValues := fun left right => decide (left = right)
  isObject := fun _ => true
  extendsReceipt := fun old new => old.all fun field => decide (field ∈ new)
  prepareFingerprint := fun input => input.requestId ++ input.sessionId
  editFingerprint := fun input => input.requestId ++ input.id

def claimOwner : InteractionOwner :=
  .flowClaim ⟨"flow", "run", "step", "mainnet", "did:user"⟩ "collection"
    "schema"

/-- A card is dispatched and reported as not submitted, a second one from
another chat is dispatched, and then both the form and retention try. -/
def resubmission : List (InteractionEvent ℕ) :=
  [.prepare 0 "card-1" ⟨"request-1", "chat-1", claimOwner, [("amount", 5)]⟩,
    .edit 1 "op-1" ⟨"card-1", "request-2", "chat-1", 1, .reserve "amount"⟩,
    .checkDispatch 2 ⟨claimOwner, some "card-1", some "op-1", some "amount"⟩,
    .checkDispatch 3 ⟨claimOwner, none, none, none⟩,
    .edit 4 "op-2" ⟨"card-1", "request-3", "chat-1", 2,
      .observe "op-1" .notSubmitted⟩,
    .prepare 5 "card-2" ⟨"request-4", "chat-2", claimOwner, [("amount", 6)]⟩,
    .edit 6 "op-3" ⟨"card-2", "request-5", "chat-2", 1, .reserve "amount"⟩,
    .checkDispatch 7 ⟨claimOwner, some "card-2", some "op-3", some "amount"⟩,
    .sessionReads "chat-2", .forgets 0 8,
    .checkDispatch 9 ⟨claimOwner, none, none, none⟩]

theorem no_duplicate_resubmission :
    ∃ s, Transition.run (step smallHost) empty resubmission = some s ∧
      NoDuplicateSubmission s.facts := by
  cases hrun : Transition.run (step smallHost) empty resubmission with
  | none =>
      have hruns : (Transition.run (step smallHost) empty
          resubmission).isSome = true := by decide +kernel
      simp [hrun] at hruns
  | some s =>
      exact ⟨s, rfl, no_duplicate_submission smallHost resubmission s hrun⟩

/-- The log of the run: the form never passes. -/
example : (Transition.run (step smallHost) empty resubmission).map facts =
      some [.prepared (claimOwner.storageKey ""),
        .cardAllowed (claimOwner.storageKey "") "op-1",
        .observed (claimOwner.storageKey "") "card-1" "op-1" .cancelled,
        .prepared (claimOwner.storageKey ""),
        .cardAllowed (claimOwner.storageKey "") "op-3"] := by
  decide +kernel

end Runs

end InteractionSystem

end QiForge
