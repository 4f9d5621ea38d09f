import QiForge.HubActions

/-!
# One reviewed action for each request key

A POST matches the row its key is reserved with, a returned reference is the
one recorded, and the accepted outcomes are the stored ones, none of which is
older than a delivered one of the same action.
-/

namespace QiForge

namespace HubActionStore

variable {store store' : HubActionStore} {origin : HubActionOrigin}
  {reference recorded : HubReference} {outcome other : HubOutcome}

/-- The outcome is of a recorded action, and its revision descends from the
reference. -/
def Matches (store : HubActionStore) (outcome : HubOutcome) : Prop :=
  ∃ row ∈ store.actions, row.reference = outcome.reference ∧
    row.origin.ownerDid = outcome.ownerDid ∧
    (outcome.reference.revision < outcome.authorizedRevision ∨
      outcome.reference.revision = outcome.authorizedRevision ∧
        outcome.authorizedDigest = outcome.reference.digest)

structure Sound (store : HubActionStore) : Prop where
  requests : (store.requests.map HubRequestRow.key).Nodup
  actionKeys : (store.actions.map HubActionRow.key).Nodup
  actionIds : (store.actions.map HubActionRow.id).Nodup
  events : (store.outcomes.map HubOutcome.eventId).Nodup
  sequences : (store.outcomes.map fun outcome =>
    (outcome.actionId, outcome.sequence)).Nodup
  outcomes : ∀ outcome ∈ store.outcomes, store.Matches outcome

theorem sound_empty : Sound empty where
  requests := List.nodup_nil
  actionKeys := List.nodup_nil
  actionIds := List.nodup_nil
  events := List.nodup_nil
  sequences := List.nodup_nil
  outcomes := fun _ houtcome => by cases houtcome

/-- The rows and the outcomes stay. -/
structure Extends (store store' : HubActionStore) : Prop where
  requests : store.requests ⊆ store'.requests
  actions : store.actions ⊆ store'.actions
  outcomes : store.outcomes ⊆ store'.outcomes

theorem Extends.refl (store : HubActionStore) : Extends store store :=
  ⟨fun _ h => h, fun _ h => h, fun _ h => h⟩

theorem Matches.mono (h : store.Matches outcome)
    (hextends : Extends store store') : store'.Matches outcome := by
  obtain ⟨row, hrow, hmatches⟩ := h
  exact ⟨row, hextends.actions hrow, hmatches⟩

/-! ## The transactions -/

/-- The key is reserved with the origin, the operation and the expiry. -/
def Reserved (store : HubActionStore) (origin : HubActionOrigin)
    (operation : String) (expiresAt : ℤ) : Prop :=
  ⟨origin, operation, expiresAt⟩ ∈ store.requests

theorem Sound.reserve {encoded : String} {proposedExpiry expiresAt : ℤ}
    (h : Sound store)
    (hreserve : store.reserve origin encoded proposedExpiry =
      .ok (store', expiresAt)) :
    Sound store' ∧ Extends store store' ∧
      store'.Reserved origin encoded expiresAt ∧
      store'.outcomes = store.outcomes := by
  simp only [HubActionStore.reserve] at hreserve
  cases hget : KeyedRows.get HubRequestRow.key origin.requestKey
      store.requests with
  | some previous =>
      rw [hget] at hreserve
      dsimp only at hreserve
      split at hreserve
      · cases hreserve
      · next hsame =>
        cases hreserve
        simp only [not_or, not_not] at hsame
        refine ⟨h, Extends.refl store, ?_, rfl⟩
        have hmem := (KeyedRows.get_eq_some hget).1
        rw [Reserved, ← hsame.1, ← hsame.2]
        exact hmem
  | none =>
      rw [hget] at hreserve
      cases hreserve
      refine ⟨⟨?_, h.actionKeys, h.actionIds, h.events, h.sequences,
        h.outcomes⟩, ⟨?_, fun _ h => h, fun _ h => h⟩, ?_, rfl⟩
      · exact KeyedRows.nodup_append h.requests (KeyedRows.get_eq_none hget)
      · exact List.subset_append_left _ _
      · exact List.mem_append_right _ (List.mem_singleton.mpr rfl)

theorem Sound.record (h : Sound store)
    (hrecord : store.record origin reference = .ok (store', recorded)) :
    Sound store' ∧ Extends store store' ∧
      (∃ row ∈ store'.actions, row.key = origin.requestKey ∧
        row.reference = recorded) ∧
      store'.outcomes = store.outcomes := by
  simp only [HubActionStore.record] at hrecord
  split at hrecord
  · cases hrecord
  · cases hget : KeyedRows.get HubActionRow.key origin.requestKey
        store.actions with
    | some previous =>
        rw [hget] at hrecord
        dsimp only at hrecord
        split at hrecord
        · cases hrecord
        · cases hrecord
          obtain ⟨hmem, hkey⟩ := KeyedRows.get_eq_some hget
          exact ⟨h, Extends.refl store, ⟨previous, hmem, hkey, rfl⟩, rfl⟩
    | none =>
        rw [hget] at hrecord
        dsimp only at hrecord
        cases hid : KeyedRows.get HubActionRow.id reference.id
            store.actions with
        | some other =>
            rw [hid] at hrecord
            cases hrecord
        | none =>
            rw [hid] at hrecord
            cases hrecord
            have hextends : Extends store { store with
                actions := store.actions ++ [⟨origin, reference⟩] } :=
              ⟨fun _ h => h, List.subset_append_left _ _, fun _ h => h⟩
            refine ⟨⟨h.requests, ?_, ?_, h.events, h.sequences, ?_⟩,
              hextends, ?_, rfl⟩
            · exact KeyedRows.nodup_append h.actionKeys
                (KeyedRows.get_eq_none hget)
            · exact KeyedRows.nodup_append h.actionIds
                (KeyedRows.get_eq_none hid)
            · exact fun outcome houtcome =>
                (h.outcomes outcome houtcome).mono hextends
            · exact ⟨⟨origin, reference⟩, List.mem_append_right _
                (List.mem_singleton.mpr rfl), rfl, rfl⟩

theorem matches_of_checkOutcome
    (hcheck : store.checkOutcome outcome = .ok ()) :
    store.Matches outcome := by
  simp only [checkOutcome] at hcheck
  split at hcheck
  · cases hcheck
  · next held hheld =>
    have hrow := List.find?_some hheld
    simp only [decide_eq_true_iff] at hrow
    split at hcheck
    · cases hcheck
    · next hsame =>
      split at hcheck
      · cases hcheck
      · next hdescends =>
        have hsame := not_not.mp hsame
        simp only [not_or, not_lt, not_and, not_not] at hdescends
        rw [hsame] at hdescends
        refine ⟨held, List.mem_of_find?_eq_some hheld, hsame, hrow.1, ?_⟩
        rcases hdescends.1.lt_or_eq with hlt | heq
        · exact .inl hlt
        · exact .inr ⟨heq, hdescends.2 heq.symm⟩

/-! ## The latest outcome -/

/-- The outcome is the one of the highest sequence of its action. -/
def Highest (outcomes : List HubOutcome) (actionId : String) :
    Option HubOutcome → Prop
  | none => ∀ outcome ∈ outcomes, outcome.actionId ≠ actionId
  | some latest => latest ∈ outcomes ∧ latest.actionId = actionId ∧
      ∀ outcome ∈ outcomes, outcome.actionId = actionId →
        outcome.sequence ≤ latest.sequence

theorem latest_highest (store : HubActionStore) (actionId : String) :
    Highest store.outcomes actionId (store.latest actionId) := by
  unfold latest
  induction store.outcomes using List.reverseRecOn with
  | nil => exact fun _ houtcome => by cases houtcome
  | append_singleton outcomes outcome ih =>
      rw [List.foldl_append, List.foldl_cons, List.foldl_nil]
      generalize outcomes.foldl _ _ = latest at ih ⊢
      have hsplit : ∀ other ∈ outcomes ++ [outcome],
          other ∈ outcomes ∨ other = outcome := by
        intro other hother
        simpa using hother
      have hlast : outcome ∈ outcomes ++ [outcome] := by simp
      split
      · next hne =>
        cases latest with
        | none =>
            intro other hother
            rcases hsplit other hother with hmem | rfl
            · exact ih other hmem
            · exact hne
        | some latest =>
            obtain ⟨hmem, hid, hmax⟩ := ih
            refine ⟨List.mem_append_left _ hmem, hid, ?_⟩
            intro other hother hotherId
            rcases hsplit other hother with hmem | rfl
            · exact hmax other hmem hotherId
            · exact absurd hotherId hne
      · next heq =>
        have heq := not_not.mp heq
        cases latest with
        | none =>
            refine ⟨hlast, heq, fun other hother hotherId => ?_⟩
            rcases hsplit other hother with hmem | rfl
            · exact absurd hotherId (ih other hmem)
            · exact le_rfl
        | some latest =>
            obtain ⟨hmem, hid, hmax⟩ := ih
            dsimp only
            split
            · next hlt =>
              refine ⟨hlast, heq, fun other hother hotherId => ?_⟩
              rcases hsplit other hother with hmem | rfl
              · exact (hmax other hmem hotherId).trans hlt.le
              · exact le_rfl
            · next hle =>
              refine ⟨List.mem_append_left _ hmem, hid,
                fun other hother hotherId => ?_⟩
              rcases hsplit other hother with hmem | rfl
              · exact hmax other hmem hotherId
              · exact not_lt.mp hle

theorem Sound.storeOutcome {new : Bool} (h : Sound store)
    (hmatches : store.Matches outcome)
    (hstore : store.storeOutcome outcome = .ok (store', new)) :
    Sound store' ∧ Extends store store' ∧
      (∃ stored ∈ store'.outcomes, stored.actionId = outcome.actionId ∧
        outcome.sequence ≤ stored.sequence) ∧
      ∀ other, other ∈ store'.outcomes ↔
        other ∈ store.outcomes ∨ new = true ∧ other = outcome := by
  simp only [HubActionStore.storeOutcome] at hstore
  cases hget : KeyedRows.get HubOutcome.eventId outcome.eventId
      store.outcomes with
  | some existing =>
      rw [hget] at hstore
      dsimp only at hstore
      split at hstore
      · cases hstore
      · next hsame =>
        cases hstore
        have hmem := (KeyedRows.get_eq_some hget).1
        rw [not_not.mp hsame] at hmem
        exact ⟨h, Extends.refl store, ⟨outcome, hmem, rfl, le_rfl⟩,
          fun other => by simp⟩
  | none =>
      rw [hget] at hstore
      dsimp only at hstore
      split at hstore
      · next holder =>
        cases hstore
        rw [Option.any_eq_true] at holder
        obtain ⟨latest, hlatest, hlt⟩ := holder
        have hhighest := latest_highest store outcome.actionId
        rw [hlatest] at hhighest
        exact ⟨h, Extends.refl store, ⟨latest, hhighest.1, hhighest.2.1,
          (of_decide_eq_true hlt).le⟩, fun other => by simp⟩
      · split at hstore
        · cases hstore
        · next hfree =>
          cases hstore
          have hextends : Extends store { store with
              outcomes := store.outcomes ++ [outcome] } :=
            ⟨fun _ h => h, fun _ h => h, List.subset_append_left _ _⟩
          have hlast : outcome ∈ store.outcomes ++ [outcome] := by simp
          refine ⟨⟨h.requests, h.actionKeys, h.actionIds, ?_, ?_, ?_⟩,
            hextends, ⟨outcome, hlast, rfl, le_rfl⟩, fun other => by simp⟩
          · exact KeyedRows.nodup_append h.events (KeyedRows.get_eq_none hget)
          · apply KeyedRows.nodup_append h.sequences
            intro hmem
            obtain ⟨other, hother, hsame⟩ := List.mem_map.mp hmem
            obtain ⟨hid, hsequence⟩ := Prod.mk.inj hsame
            apply hfree
            exact List.any_eq_true.mpr
              ⟨other, hother, decide_eq_true ⟨hid, hsequence⟩⟩
          · intro other hother
            rcases List.mem_append.mp hother with hold | hnew
            · exact (h.outcomes other hold).mono hextends
            · rw [List.mem_singleton.mp hnew]
              exact hmatches.mono hextends

theorem Matches.prune {keys actionIds : List String}
    (h : store.Matches outcome) (hkept : outcome.actionId ∉ actionIds) :
    (store.prune keys actionIds).Matches outcome := by
  obtain ⟨row, hrow, hsame, hrest⟩ := h
  refine ⟨row, List.mem_filter.mpr ⟨hrow, ?_⟩, hsame, hrest⟩
  have hid : row.id = outcome.actionId := congrArg HubReference.id hsame
  rw [hid]
  exact decide_eq_true hkept

theorem Sound.prune (h : Sound store) (keys actionIds : List String) :
    Sound (store.prune keys actionIds) where
  requests := h.requests.sublist (List.filter_sublist.map _)
  actionKeys := h.actionKeys.sublist (List.filter_sublist.map _)
  actionIds := h.actionIds.sublist (List.filter_sublist.map _)
  events := h.events.sublist (List.filter_sublist.map _)
  sequences := h.sequences.sublist (List.filter_sublist.map _)
  outcomes := by
    intro outcome houtcome
    obtain ⟨hmem, hkept⟩ := List.mem_filter.mp houtcome
    exact (h.outcomes outcome hmem).prune (of_decide_eq_true hkept)

end HubActionStore

namespace HubSystem

open HubActionStore

variable {P : HubProtocol} {s s' : HubSystem P} {call : ℕ}
  {input : PrepareInput P}

/-- The reservation of the call's key, not expired by its clock. -/
def Holds (P : HubProtocol) (store : HubActionStore)
    (origin : HubActionOrigin) (operation : P.Operation)
    (expiresAt nowMs : ℤ) : Prop :=
  store.Reserved origin (P.canonicalJson operation) expiresAt ∧
    seconds nowMs < expiresAt

def Waits (store : HubActionStore) (call : PrepareCall P) : Prop :=
  ∀ capabilities expiresAt, call.phase = .post capabilities expiresAt →
    Holds P store call.input.origin call.input.operation expiresAt
      call.input.nowMs

def Posted (store : HubActionStore) (post : HubPost P) : Prop :=
  Holds P store post.origin post.operation post.expiresAt post.nowMs

/-- The reference is the one recorded for the key. -/
def Returned (store : HubActionStore) (entry : String × HubReference) :
    Prop :=
  ∃ row ∈ store.actions, row.key = entry.1 ∧ row.reference = entry.2

structure Sound (s : HubSystem P) : Prop where
  store : s.store.Sound
  posts : ∀ post ∈ s.posts, Posted s.store post
  prepares : ∀ entry ∈ s.prepares, Waits s.store entry.2
  resolved : ∀ entry ∈ s.resolved, Returned s.store entry
  deliveries : ∀ entry ∈ s.deliveries, s.store.Matches entry.2
  accepted : ∀ outcome, outcome ∈ s.store.outcomes ↔
    (outcome, true) ∈ s.delivered
  newest : ∀ entry ∈ s.delivered, ∃ stored ∈ s.store.outcomes,
    stored.actionId = entry.1.actionId ∧ entry.1.sequence ≤ stored.sequence

theorem sound_start : (start : HubSystem P).Sound where
  store := sound_empty
  posts := fun _ hpost => by cases hpost
  prepares := fun _ hentry => by cases hentry
  resolved := fun _ hentry => by cases hentry
  deliveries := fun _ hentry => by cases hentry
  accepted := fun _ => by simp [start, empty]
  newest := fun _ hentry => by cases hentry

theorem Holds.mono {store store' : HubActionStore} {origin : HubActionOrigin}
    {operation : P.Operation} {expiresAt nowMs : ℤ}
    (h : Holds P store origin operation expiresAt nowMs)
    (hextends : Extends store store') :
    Holds P store' origin operation expiresAt nowMs :=
  ⟨hextends.requests h.1, h.2⟩

/-- A step that stores no outcome: what is new fits the store, and the rest
is as before. -/
theorem Sound.next (h : s.Sound) (hstore : s'.store.Sound)
    (hextends : Extends s.store s'.store)
    (hposts : ∀ post ∈ s'.posts, post ∈ s.posts ∨ Posted s'.store post)
    (hprepares : ∀ entry ∈ s'.prepares,
      entry ∈ s.prepares ∨ Waits s'.store entry.2)
    (hresolved : ∀ entry ∈ s'.resolved,
      entry ∈ s.resolved ∨ Returned s'.store entry)
    (hdeliveries : ∀ entry ∈ s'.deliveries,
      entry ∈ s.deliveries ∨ s'.store.Matches entry.2)
    (houtcomes : s'.store.outcomes = s.store.outcomes)
    (hdelivered : s'.delivered = s.delivered) : s'.Sound where
  store := hstore
  posts := by
    intro post hpost
    rcases hposts post hpost with hold | hnew
    · exact (h.posts post hold).mono hextends
    · exact hnew
  prepares := by
    intro entry hentry
    rcases hprepares entry hentry with hold | hnew
    · exact fun capabilities expiresAt hphase =>
        (h.prepares entry hold capabilities expiresAt hphase).mono hextends
    · exact hnew
  resolved := by
    intro entry hentry
    rcases hresolved entry hentry with hold | hnew
    · obtain ⟨row, hrow, hsame⟩ := h.resolved entry hold
      exact ⟨row, hextends.actions hrow, hsame⟩
    · exact hnew
  deliveries := by
    intro entry hentry
    rcases hdeliveries entry hentry with hold | hnew
    · exact (h.deliveries entry hold).mono hextends
    · exact hnew
  accepted := by
    rw [houtcomes, hdelivered]
    exact h.accepted
  newest := by
    rw [houtcomes, hdelivered]
    exact h.newest

theorem mem_drop {α : Type} {calls : List (ℕ × α)} {entry : ℕ × α}
    (hentry : entry ∈ drop calls call) : entry ∈ calls :=
  (List.mem_filter.mp hentry).1

theorem mem_goes {phase : PreparePhase P} {entry : ℕ × PrepareCall P}
    (hentry : entry ∈ (s.goes call input phase).prepares) :
    entry = (call, ⟨input, phase⟩) ∨ entry ∈ s.prepares := by
  rcases List.mem_cons.mp hentry with rfl | hold
  · exact .inl rfl
  · exact .inr (mem_drop hold)

theorem callOf_mem {α : Type} {calls : List (ℕ × α)} {found : α}
    (hcall : callOf calls call = some found) : (call, found) ∈ calls := by
  obtain ⟨entry, hget, rfl⟩ := Option.map_eq_some_iff.mp hcall
  obtain ⟨hmem, rfl⟩ := KeyedRows.get_eq_some hget
  exact hmem

theorem Sound.ended (h : s.Sound) (call : ℕ) : (s.ended call).Sound :=
  h.next h.store (Extends.refl _) (fun _ => .inl)
    (fun _ hentry => .inl (mem_drop hentry)) (fun _ => .inl)
    (fun _ => .inl) rfl rfl

theorem Sound.goes {phase : PreparePhase P} (h : s.Sound)
    (hwaits : Waits s.store (⟨input, phase⟩ : PrepareCall P)) :
    (s.goes call input phase).Sound := by
  refine h.next h.store (Extends.refl _) (fun _ => .inl) ?_ (fun _ => .inl)
    (fun _ => .inl) rfl rfl
  intro entry hentry
  rcases mem_goes hentry with rfl | hold
  · exact .inr hwaits
  · exact .inl hold

theorem Sound.reserveNow {capabilities : P.Capabilities} (h : s.Sound) :
    (s.reserveNow call input capabilities).Sound := by
  unfold HubSystem.reserveNow
  split
  · exact h.ended call
  · next store expiresAt hreserve =>
    obtain ⟨hstore, hextends, hreserved, houtcomes⟩ := h.store.reserve hreserve
    have hnext : Sound { s with store := store } :=
      h.next hstore hextends (fun _ => .inl) (fun _ => .inl)
        (fun _ => .inl) (fun _ => .inl) houtcomes rfl
    apply hnext.goes
    intro capabilities expires hphase
    dsimp only at hphase
    split at hphase
    · cases hphase
    · next hnow =>
      cases hphase
      exact ⟨hreserved, not_le.mp hnow⟩

variable {reference : HubReference}

theorem Sound.resolve {key : String}
    (h : s.Sound) (hreturned : Returned s.store (key, reference)) :
    (s.resolve call key reference).Sound := by
  refine h.next h.store (Extends.refl _) (fun _ => .inl)
    (fun _ hentry => .inl (mem_drop hentry)) ?_ (fun _ => .inl) rfl rfl
  intro entry hentry
  rcases List.mem_cons.mp hentry with rfl | hold
  · exact .inr hreturned
  · exact .inl hold

theorem returned_of_byRequestKey {store : HubActionStore} {key : String}
    (hlookup : store.byRequestKey key = some reference) :
    Returned store (key, reference) := by
  obtain ⟨row, hget, hsame⟩ := Option.map_eq_some_iff.mp hlookup
  obtain ⟨hmem, hkey⟩ := KeyedRows.get_eq_some hget
  exact ⟨row, hmem, hkey, hsame⟩

theorem Sound.recordNow (h : s.Sound) :
    (s.recordNow call input reference).Sound := by
  unfold HubSystem.recordNow
  split
  · exact h.ended call
  · next store recorded hrecord =>
    obtain ⟨hstore, hextends, hreturned, houtcomes⟩ := h.store.record hrecord
    have hnext : Sound { s with store := store } :=
      h.next hstore hextends (fun _ => .inl) (fun _ => .inl)
        (fun _ => .inl) (fun _ => .inl) houtcomes rfl
    exact hnext.resolve hreturned

theorem Sound.posted {capabilities : P.Capabilities} {expiresAt : ℤ}
    (h : s.Sound)
    (hcall : callOf s.prepares call =
      some ⟨input, .post capabilities expiresAt⟩) :
    Sound { s.goes call input (.answer capabilities) with
      posts := ⟨input.origin, input.operation, expiresAt,
        input.nowMs⟩ :: s.posts } := by
  have hwaits := h.prepares _ (callOf_mem hcall) capabilities expiresAt rfl
  refine h.next h.store (Extends.refl _) ?_ ?_ (fun _ => .inl)
    (fun _ => .inl) rfl rfl
  · intro post hpost
    rcases List.mem_cons.mp hpost with rfl | hold
    · exact .inr hwaits
    · exact .inl hold
  · intro entry hentry
    rcases mem_goes hentry with rfl | hold
    · exact .inr fun _ _ hphase => by cases hphase
    · exact .inl hold

theorem Sound.delivery {outcome : HubOutcome} (h : s.Sound)
    (hcheck : s.store.checkOutcome outcome = .ok ()) :
    Sound { s with deliveries := (call, outcome) :: s.deliveries } := by
  refine h.next h.store (Extends.refl _) (fun _ => .inl) (fun _ => .inl)
    (fun _ => .inl) ?_ rfl rfl
  intro entry hentry
  rcases List.mem_cons.mp hentry with rfl | hold
  · exact .inr (matches_of_checkOutcome hcheck)
  · exact .inl hold

theorem Sound.storeOutcomeNow {outcome : HubOutcome} (h : s.Sound)
    (hcall : callOf s.deliveries call = some outcome) :
    (s.storeOutcomeNow call outcome).Sound := by
  have hdropped : Sound { s with deliveries := drop s.deliveries call } :=
    h.next h.store (Extends.refl _) (fun _ => .inl) (fun _ => .inl)
      (fun _ => .inl) (fun _ hentry => .inl (mem_drop hentry)) rfl rfl
  unfold HubSystem.storeOutcomeNow
  dsimp only
  split
  · exact hdropped
  · next store new hstored =>
    obtain ⟨hstore, hextends, hnewest, hmem⟩ :=
      h.store.storeOutcome (h.deliveries _ (callOf_mem hcall)) hstored
    exact
      { store := hstore
        posts := fun post hpost => (h.posts post hpost).mono hextends
        prepares := fun entry hentry capabilities expiresAt hphase =>
          (h.prepares entry hentry capabilities expiresAt hphase).mono hextends
        resolved := by
          intro entry hentry
          obtain ⟨row, hrow, hsame⟩ := h.resolved entry hentry
          exact ⟨row, hextends.actions hrow, hsame⟩
        deliveries := fun entry hentry =>
          (h.deliveries entry (mem_drop hentry)).mono hextends
        accepted := by
          intro other
          rw [hmem other, h.accepted other, List.mem_cons, Prod.mk.injEq]
          tauto
        newest := by
          intro entry hentry
          rcases List.mem_cons.mp hentry with rfl | hold
          · exact hnewest
          · obtain ⟨stored, hstored, hsame⟩ := h.newest entry hold
            exact ⟨stored, hextends.outcomes hstored, hsame⟩ }

theorem Holds.prune {store : HubActionStore} {origin : HubActionOrigin}
    {operation : P.Operation} {expiresAt nowMs : ℤ}
    {keys actionIds : List String}
    (h : Holds P store origin operation expiresAt nowMs)
    (hkept : origin.requestKey ∉ keys) :
    Holds P (store.prune keys actionIds) origin operation expiresAt nowMs :=
  ⟨List.mem_filter.mpr ⟨h.1, decide_eq_true hkept⟩, h.2⟩

theorem Sound.pruneNow {keys actionIds : List String} (h : s.Sound)
    (hidle : s.idle keys actionIds = true) :
    (s.pruneNow keys actionIds).Sound := by
  rw [idle, Bool.and_eq_true, List.all_eq_true, List.all_eq_true] at hidle
  refine
    { store := h.store.prune keys actionIds
      posts := ?_
      prepares := ?_
      resolved := ?_
      deliveries := ?_
      accepted := ?_
      newest := ?_ }
  · intro post hpost
    obtain ⟨hmem, hkept⟩ := List.mem_filter.mp hpost
    exact Holds.prune (h.posts post hmem) (of_decide_eq_true hkept)
  · intro entry hentry capabilities expiresAt hphase
    exact (h.prepares entry hentry capabilities expiresAt hphase).prune
      (of_decide_eq_true (hidle.1 entry hentry))
  · intro entry hentry
    obtain ⟨hmem, hkept⟩ := List.mem_filter.mp hentry
    obtain ⟨row, hrow, hkey, hsame⟩ := h.resolved entry hmem
    refine ⟨row, List.mem_filter.mpr ⟨hrow, ?_⟩, hkey, hsame⟩
    rw [HubActionRow.id, hsame]
    exact hkept
  · intro entry hentry
    exact (h.deliveries entry hentry).prune
      (of_decide_eq_true (hidle.2 entry hentry))
  · intro outcome
    change outcome ∈ List.filter _ _ ↔ (outcome, true) ∈ List.filter _ _
    rw [List.mem_filter, List.mem_filter, h.accepted outcome]
  · intro entry hentry
    obtain ⟨hmem, hkept⟩ := List.mem_filter.mp hentry
    obtain ⟨stored, hstored, hid, hle⟩ := h.newest entry hmem
    refine ⟨stored, List.mem_filter.mpr ⟨hstored, ?_⟩, hid, hle⟩
    rw [hid]
    exact hkept

/-! ## Runs -/

theorem Sound.step {event : HubEvent P} (h : s.Sound)
    (hstep : s.step event = some s') : s'.Sound := by
  cases event with
  | prepare call input =>
      simp only [HubSystem.step] at hstep
      split at hstep
      · cases hstep
      · cases hstep
        exact h.goes fun _ _ hphase => by cases hphase
  | capabilities call capabilities =>
      simp only [HubSystem.step] at hstep
      split at hstep
      · split at hstep
        · cases hstep
          exact h.ended call
        · cases hstep
          exact h.goes fun _ _ hphase => by cases hphase
      · cases hstep
  | reserve call =>
      simp only [HubSystem.step] at hstep
      split at hstep
      · cases hstep
        exact h.reserveNow
      · cases hstep
  | lookup call =>
      simp only [HubSystem.step] at hstep
      split at hstep
      · split at hstep
        · next hlookup =>
          cases hstep
          exact h.resolve (returned_of_byRequestKey hlookup)
        · cases hstep
          exact h.ended call
      · cases hstep
  | post call =>
      simp only [HubSystem.step] at hstep
      split at hstep
      · next hcall =>
        cases hstep
        exact h.posted hcall
      · cases hstep
  | answer call reference =>
      simp only [HubSystem.step] at hstep
      split at hstep
      · cases hstep
        unfold answerNow
        split
        · exact h.ended call
        · exact h.goes fun _ _ hphase => by cases hphase
      · cases hstep
  | record call =>
      simp only [HubSystem.step] at hstep
      split at hstep
      · cases hstep
        exact h.recordNow
      · cases hstep
  | lose call =>
      cases hstep
      exact h.ended call
  | recordOutcome call outcome =>
      simp only [HubSystem.step] at hstep
      split at hstep
      · cases hstep
      · split at hstep
        · cases hstep
          exact h
        · next hcheck =>
          cases hstep
          exact h.delivery hcheck
  | storeOutcome call =>
      simp only [HubSystem.step] at hstep
      split at hstep
      · next hcall =>
        cases hstep
        exact h.storeOutcomeNow hcall
      · cases hstep
  | prune keys actionIds =>
      simp only [HubSystem.step] at hstep
      split at hstep
      · next hidle =>
        cases hstep
        exact h.pruneNow hidle
      · cases hstep

theorem sound_of_run {events : List (HubEvent P)}
    (hrun : Transition.run HubSystem.step start events = some s) :
    s.Sound :=
  Transition.run_preserves (fun _ _ _ hs hstep => hs.step hstep)
    sound_start hrun

/-- The last outcome shown for an action: of the delivered ones, the accepted
one of the highest sequence. -/
def Shown (delivered : List (HubOutcome × Bool)) (actionId : String) :
    Option HubOutcome → Prop
  | none => ∀ entry ∈ delivered, entry.1.actionId ≠ actionId
  | some latest => (latest, true) ∈ delivered ∧
      latest.actionId = actionId ∧
      ∀ entry ∈ delivered, entry.1.actionId = actionId →
        entry.1.sequence ≤ latest.sequence

theorem Sound.shown (h : s.Sound) (actionId : String) :
    Shown s.delivered actionId (s.store.latest actionId) := by
  have hhighest := latest_highest s.store actionId
  cases hlatest : s.store.latest actionId with
  | none =>
      rw [hlatest] at hhighest
      intro entry hentry hid
      obtain ⟨stored, hstored, hsame, -⟩ := h.newest entry hentry
      exact hhighest stored hstored (hsame.trans hid)
  | some latest =>
      rw [hlatest] at hhighest
      obtain ⟨hmem, hid, hmax⟩ := hhighest
      refine ⟨(h.accepted latest).mp hmem, hid, ?_⟩
      intro entry hentry hentryId
      obtain ⟨stored, hstored, hsame, hle⟩ := h.newest entry hentry
      exact hle.trans (hmax stored hstored (hsame.trans hentryId))

/-- Two POSTs of a key are the same, and no call sends anything for a key
that is reserved with another origin or operation. -/
structure OneReview (s : HubSystem P) : Prop where
  reserved : ∀ post ∈ s.posts, ∀ row ∈ s.store.requests,
    row.key = post.origin.requestKey →
    post.origin = row.origin ∧ P.canonicalJson post.operation = row.operation ∧
      post.expiresAt = row.expiresAt
  same : ∀ post ∈ s.posts, ∀ other ∈ s.posts,
    post.origin.requestKey = other.origin.requestKey →
    post.origin = other.origin ∧
      P.canonicalJson post.operation = P.canonicalJson other.operation ∧
      post.expiresAt = other.expiresAt
  fresh : ∀ post ∈ s.posts, seconds post.nowMs < post.expiresAt

theorem Posted.reserved {post : HubPost P} {row : HubRequestRow}
    (h : Posted s.store post) (hsound : s.Sound)
    (hrow : row ∈ s.store.requests)
    (hkey : row.key = post.origin.requestKey) :
    row = ⟨post.origin, P.canonicalJson post.operation, post.expiresAt⟩ :=
  List.inj_on_of_nodup_map hsound.store.requests hrow h.1 hkey

theorem Sound.oneReview (h : s.Sound) : s.OneReview where
  reserved := by
    intro post hpost row hrow hkey
    rw [(h.posts post hpost).reserved h hrow hkey]
    exact ⟨rfl, rfl, rfl⟩
  same := by
    intro post hpost other hother hkey
    have hsame := (h.posts post hpost).reserved h (h.posts other hother).1
      hkey.symm
    simp only [HubRequestRow.mk.injEq] at hsame
    exact ⟨hsame.1.symm, hsame.2.1.symm, hsame.2.2.symm⟩
  fresh := fun post hpost => (h.posts post hpost).2

/-- The recorded references and the stored outcomes. -/
structure OneAction (s : HubSystem P) : Prop where
  keys : (s.store.actions.map HubActionRow.key).Nodup
  ids : (s.store.actions.map HubActionRow.id).Nodup
  returned : ∀ entry ∈ s.resolved, Returned s.store entry
  stored : ∀ outcome ∈ s.store.outcomes, s.store.Matches outcome
  events : (s.store.outcomes.map HubOutcome.eventId).Nodup
  sequences : (s.store.outcomes.map fun outcome =>
    (outcome.actionId, outcome.sequence)).Nodup

theorem hub_actions_reviewed_once (P : HubProtocol)
    (events : List (HubEvent P)) (s : HubSystem P)
    (hrun : Transition.run HubSystem.step start events = some s) :
    s.OneReview ∧ s.OneAction ∧ ∀ ownerDid sessionId runId,
        ∀ shown ∈ s.store.runState ownerDid sessionId runId,
          Shown s.delivered shown.1.id shown.2 := by
  have h := sound_of_run hrun
  refine ⟨h.oneReview, ⟨h.store.actionKeys, h.store.actionIds, h.resolved,
    h.store.outcomes, h.store.events, h.store.sequences⟩, ?_⟩
  intro ownerDid sessionId runId shown hshown
  obtain ⟨row, -, rfl⟩ := List.mem_map.mp hshown
  exact h.shown row.id

/-- The first answer is lost, the retry is answered, another operation is
refused, and the outcomes come in the wrong order. -/
theorem hub_actions_reviewed_once_retry :
    ∃ s : HubSystem ⟨String, Unit, id, fun _ => "account",
        fun _ _ _ => .ok ()⟩,
      s.posts.length = 2 ∧ s.resolved.length = 1 ∧
      (s.store.runState "owner" "session" "run").map
        (fun shown => shown.2.map HubOutcome.sequence) = [some 2] ∧
      s.OneReview ∧ s.OneAction := by
  let P : HubProtocol :=
    ⟨String, Unit, id, fun _ => "account", fun _ _ _ => .ok ()⟩
  let origin : HubActionOrigin :=
    ⟨"owner", "session", "run", "request", "binding", 1, "key"⟩
  let reference : HubReference :=
    ⟨"action", "account", "binding", 1, 1, "digest", 900, ""⟩
  let call (n : ℕ) (operation : String) (nowMs : ℤ) : List (HubEvent P) :=
    [.prepare n ⟨origin, operation, nowMs⟩, .capabilities n (), .reserve n]
  let outcome (event : String) (sequence : ℤ) : HubOutcome :=
    ⟨event, "owner", reference, 1, "digest", sequence, ""⟩
  have hrun : (Transition.run HubSystem.step (start : HubSystem P)
      (call 0 "send" 0 ++ [.post 0, .lose 0] ++ call 1 "send" 60000 ++
        [.post 1, .answer 1 reference, .record 1] ++ call 2 "other" 60000 ++
        [.recordOutcome 0 (outcome "late" 1),
          .recordOutcome 1 (outcome "early" 2),
          .storeOutcome 1, .storeOutcome 0])).any
      (fun s => decide (s.posts.length = 2 ∧ s.resolved.length = 1 ∧
        (s.store.runState "owner" "session" "run").map
          (fun shown => shown.2.map HubOutcome.sequence) = [some 2]))
      = true := by decide +kernel
  rw [Option.any_eq_true] at hrun
  obtain ⟨s, hs, hshown⟩ := hrun
  obtain ⟨hposts, hresolved, hlatest⟩ := of_decide_eq_true hshown
  obtain ⟨hreview, haction, -⟩ := hub_actions_reviewed_once P _ s hs
  exact ⟨s, hposts, hresolved, hlatest, hreview, haction⟩

end HubSystem

end QiForge
