import QiForge.InteractionSafety

/-!
# What a load returns

A record's values are in its chunks or in the record itself.  Only records of
one owner kind come into chunks, and no edit changes the values of these, so
that chunks left by an earlier save still hold them.  A load then returns the
record as it was saved last.
-/

namespace QiForge

variable {J : Type}

theorem InteractionOwner.isApproval_of_isDomainWrite
    {owner : InteractionOwner} (h : owner.isDomainWrite = true) :
    owner.isApproval = true := by
  cases owner <;> first | rfl | cases h

namespace Interaction

/-- The record once it gave way. -/
def superseded (r : Interaction J) : Interaction J :=
  if r.status = .cancelled then r
  else
    { r with
      status := .cancelled
      cancelReason := some .superseded
      revision := r.revision + 1 }

/-- What retention leaves of the record. -/
def forgotten (blocked chunked : Bool) (r : Interaction J) :
    Option (Interaction J) :=
  if blocked then
    if r.values.isEmpty && r.updatedByUser.isEmpty && !chunked then some r
    else
      some { r with
        values := []
        updatedByUser := []
        revision := r.revision + 1 }
  else none

theorem forgotten_id {blocked chunked : Bool} {r q : Interaction J}
    (h : r.forgotten blocked chunked = some q) : q.id = r.id := by
  unfold forgotten at h
  split_ifs at h <;> cases h <;> rfl

/-- Values in chunks do not matter to what is left. -/
theorem forgotten_values (r : Interaction J) (blocked : Bool)
    (chunk : Option (JsonFields J)) :
    ({ r with values := chunk.getD r.values } : Interaction J).forgotten
        blocked chunk.isSome =
      r.forgotten blocked chunk.isSome := by
  cases chunk with
  | none => rfl
  | some values => simp [forgotten]

end Interaction

namespace InteractionStore

/-- Chunks hold the values of a record that does not change them. -/
structure Whole (s : InteractionStore J) (uuids : List String) : Prop where
  named : ∀ id r, s.records id = some r → r.id = id ∧ id ∈ uuids
  chunks : ∀ id values, s.chunks id = some values →
    ∃ r, s.records id = some r ∧ r.owner.isDomainWrite = true ∧
      (r.values = [] ∨ r.values = values)

theorem Whole.empty : Whole (empty : InteractionStore J) [] := by
  constructor
  · intro id r hr
    cases hr
  · intro id values hvalues
    cases hvalues

variable {s : InteractionStore J}

theorem Whole.mono {uuids more : List String}
    (h : s.Whole uuids) (hmore : uuids ⊆ more) : s.Whole more :=
  ⟨fun id r hr => ⟨(h.named id r hr).1, hmore (h.named id r hr).2⟩, h.chunks⟩

variable {uuids : List String}

theorem Whole.congr {s s' : InteractionStore J}
    (h : s.Whole uuids) (hrecords : s'.records = s.records)
    (hchunks : s'.chunks = s.chunks) : s'.Whole uuids := by
  constructor
  · rw [hrecords]
    exact h.named
  · rw [hchunks, hrecords]
    exact h.chunks

theorem load_congr {s s' : InteractionStore J}
    (hrecords : s'.records = s.records) (hchunks : s'.chunks = s.chunks) :
    s'.load = s.load := by
  funext id
  unfold load
  rw [hrecords, hchunks]

variable {r : Interaction J} {id : String}

theorem load_eq_some :
    s.load id = some r ↔ ∃ stored, s.records id = some stored ∧
      { stored with values := (s.chunks id).getD stored.values } = r := by
  unfold load
  exact Option.map_eq_some_iff

variable {host : InteractionHost J}

/-- One record is written, and with it its chunks. -/
theorem Whole.write (h : s.Whole uuids) (s' : InteractionStore J)
    (q : Interaction J) (chunk : Option (JsonFields J))
    (hrecords : s'.records = Function.update s.records id (some q))
    (hchunks : s'.chunks = Function.update s.chunks id chunk)
    (hnamed : q.id = id ∧ id ∈ uuids)
    (hvalues : ∀ values, chunk = some values →
      q.owner.isDomainWrite = true ∧ (q.values = [] ∨ q.values = values)) :
    s'.Whole uuids ∧ s'.load = Function.update s.load id
        (some { q with values := chunk.getD q.values }) := by
  constructor
  · constructor
    · intro i r hr
      rw [hrecords] at hr
      by_cases hi : i = id
      · subst hi
        rw [Function.update_self] at hr
        cases hr
        exact hnamed
      · rw [Function.update_of_ne hi] at hr
        exact h.named i r hr
    · intro i values hchunk
      rw [hchunks] at hchunk
      rw [hrecords]
      by_cases hi : i = id
      · subst hi
        rw [Function.update_self] at hchunk
        exact ⟨q, Function.update_self _ _ _, hvalues values hchunk⟩
      · rw [Function.update_of_ne hi] at hchunk
        rcases h.chunks i values hchunk with ⟨r, hr, hrest⟩
        exact ⟨r, (Function.update_of_ne hi _ _).trans hr, hrest⟩
  · funext i
    by_cases hi : i = id
    · subst hi
      simp [load, hrecords, hchunks]
    · simp [load, hrecords, hchunks, hi]

theorem save_cases {s s' : InteractionStore J}
    (hsave : s.save host r = .ok s') :
    s' = s.putRecord r ∨ r.owner.isDomainWrite = true ∧
        s' = { s.putRecord { r with values := [] } with
          chunks := Function.update s.chunks r.id (some r.values) } := by
  unfold save at hsave
  dsimp only at hsave
  cases hdomain : r.owner.isDomainWrite with
  | false =>
      simp only [hdomain, Bool.false_eq_true, if_false] at hsave
      split_ifs at hsave with htotal hsize
      · cases hsave
        exact .inl rfl
      · exact absurd (not_lt.mp htotal) hsize
  | true =>
      simp only [hdomain, if_true] at hsave
      split_ifs at hsave with htotal hsize
      · cases hsave
        exact .inl rfl
      · cases hsave
        exact .inr ⟨rfl, rfl⟩

/-- A save is loaded back where it keeps the values that are in chunks. -/
theorem Whole.save {s s' : InteractionStore J}
    (h : s.Whole uuids) (hid : r.id ∈ uuids)
    (hsame : ∀ values, s.chunks r.id = some values →
      r.owner.isDomainWrite = true ∧ r.values = values)
    (hsave : s.save host r = .ok s') :
    s'.Whole uuids ∧ s'.load = Function.update s.load r.id (some r) := by
  rcases save_cases hsave with rfl | ⟨hdomain, rfl⟩
  · have hwrite := h.write (s.putRecord r) r (s.chunks r.id) rfl
      (Function.update_eq_self r.id s.chunks).symm ⟨rfl, hid⟩
      fun values hvalues =>
        ⟨(hsame values hvalues).1, .inr (hsame values hvalues).2⟩
    have hvalues : (s.chunks r.id).getD r.values = r.values := by
      cases hchunk : s.chunks r.id with
      | none => rfl
      | some values => exact (hsame values hchunk).2.symm
    rw [hvalues] at hwrite
    exact hwrite
  · exact h.write _ { r with values := [] } (some r.values) rfl rfl
      ⟨rfl, hid⟩ fun values _ => ⟨hdomain, .inl rfl⟩

theorem Whole.supersede (h : s.Whole uuids) (hr : s.records id = some r) :
    (s.supersede r).Whole uuids ∧ (s.supersede r).load =
        Function.update s.load id ((s.load id).map (·.superseded)) := by
  have hnamed := h.named id r hr
  by_cases hstatus : r.status = .cancelled
  · rw [InteractionStore.supersede, if_pos hstatus]
    refine ⟨h, ?_⟩
    rw [eq_comm, Function.update_eq_self_iff]
    simp [load, hr, Interaction.superseded, hstatus]
  · have hchunks : (s.supersede r).chunks = s.chunks := by
      simp [InteractionStore.supersede, hstatus, putRecord]
    have hwrite := h.write (s.supersede r) _ (s.chunks id)
      (supersede_rewrites hr hnamed.1 hstatus).records
      (hchunks.trans (Function.update_eq_self id s.chunks).symm) hnamed
      fun values hvalues => by
        rcases h.chunks id values hvalues with ⟨q, hq, hrest⟩
        rw [hr] at hq
        cases hq
        exact hrest
    refine ⟨hwrite.1, hwrite.2.trans ?_⟩
    congr 1
    simp [load, hr, Interaction.superseded, hstatus]

/-! ## Reading from a chat -/

theorem readFrom_eq_ok_iff {id sessionId : String} :
    s.readFrom id sessionId = .ok r ↔
      s.load id = some r ∧ r.sessionId = sessionId := by
  unfold readFrom
  cases hload : s.load id with
  | none => simp
  | some loaded =>
      by_cases hsession : loaded.sessionId = sessionId
      · simp only [hsession, if_true, Except.ok.injEq, Option.some.injEq]
        constructor
        · rintro rfl
          exact ⟨rfl, hsession⟩
        · rintro ⟨rfl, -⟩
          rfl
      · simp only [hsession, if_false, Option.some.injEq]
        constructor
        · rintro ⟨⟩
        · rintro ⟨rfl, hsame⟩
          exact absurd hsame hsession

theorem Whole.load_named (h : s.Whole uuids)
    (hload : s.load id = some r) : r.id = id ∧ id ∈ uuids := by
  rcases load_eq_some.mp hload with ⟨stored, hstored, rfl⟩
  exact h.named id stored hstored

theorem Whole.owned (h : s.Whole uuids) {key : OwnerKey}
    (hr : s.ownedRecord key = some r) : s.records r.id = some r := by
  rcases Option.bind_eq_some_iff.mp hr with ⟨id, -, hid⟩
  rw [(h.named id r hid).1]
  exact hid

/-! ## New cards -/

/-- The owner's record gives way among the saved ones. -/
def endOwned (s : InteractionStore J) (key : OwnerKey)
    (saved : String → Option (Interaction J)) :
    String → Option (Interaction J) :=
  match s.ownedRecord key with
  | none => saved
  | some existing =>
      Function.update saved existing.id
        ((saved existing.id).map (·.superseded))

theorem Whole.fresh
    (h : s.Whole uuids) {newId : String} (hfresh : newId ∉ uuids) :
    s.chunks newId = none := by
  cases hchunk : s.chunks newId with
  | none => rfl
  | some values =>
      rcases h.chunks newId values hchunk with ⟨r, hr, -⟩
      exact absurd (h.named newId r hr).2 hfresh

variable {result : InteractionResult J}

theorem Whole.create {s s' : InteractionStore J}
    (h : s.Whole uuids) {now : ℕ} {newId : String}
    {input : PrepareInteraction J}
    (hfresh : newId ∉ uuids)
    (hcreate : s.create host now newId input = .ok (result, s')) :
    s'.Whole (uuids ++ [newId]) ∧ result = ⟨newCard now newId input, false⟩ ∧
      s'.load = Function.update s.load newId (some result.interaction) := by
  unfold InteractionStore.create at hcreate
  dsimp only at hcreate
  split_ifs at hcreate
  cases hsave : (s.addKeys (newCard now newId input)).save host
      (newCard now newId input) with
  | error e => simp [hsave, Except.map] at hcreate
  | ok saved =>
      simp only [hsave, Except.map, Except.ok.injEq, Prod.mk.injEq] at hcreate
      rcases hcreate with ⟨rfl, rfl⟩
      have hkeys : (s.addKeys (newCard now newId input)).Whole
          (uuids ++ [newId]) :=
        (h.mono (List.subset_append_left _ _)).congr rfl rfl
      have hnone : (s.addKeys (newCard now newId input)).chunks
          (newCard now newId input).id = none := h.fresh hfresh
      rcases hkeys.save (r := newCard now newId input)
        (List.mem_append_right _ (List.mem_singleton_self newId))
        (fun values hvalues => by
          rw [hnone] at hvalues
          cases hvalues) hsave with ⟨hwhole, hload⟩
      exact ⟨hwhole.congr rfl rfl, rfl, hload⟩

theorem Whole.prepare {s s' : InteractionStore J}
    (h : s.Whole uuids) {now : ℕ} {newId : String}
    {input : PrepareInteraction J}
    (hfresh : newId ∉ uuids)
    (hprepare : s.prepare host now newId input = .ok (result, s')) :
    s'.Whole (uuids ++ [newId]) ∧ s'.load =
        if result.replayed then s.load
        else
          Function.update
            (s.endOwned (input.owner.storageKey input.sessionId) s.load)
            result.interaction.id (some result.interaction) := by
  have hmore := h.mono (List.subset_append_left uuids [newId])
  rcases prepare_cases hprepare with ⟨mark, r, -, -, rfl, rfl⟩ |
    ⟨-, -, ⟨existing, -, -, rfl, rfl⟩ | ⟨base, hbase, hcreate⟩⟩
  · exact ⟨hmore, rfl⟩
  · exact ⟨hmore.congr rfl rfl, load_congr rfl rfl⟩
  · have hwhole : base.Whole uuids ∧ base.load =
        s.endOwned (input.owner.storageKey input.sessionId) s.load := by
      unfold endOwned
      rcases hbase with ⟨rfl, hnone⟩ | ⟨existing, hexisting, -, rfl⟩
      · rw [hnone]
        exact ⟨h, rfl⟩
      · rw [hexisting]
        exact h.supersede (h.owned hexisting)
    rcases hwhole.1.create hfresh hcreate with ⟨hafter, rfl, hload⟩
    refine ⟨hafter, ?_⟩
    rw [hload, hwhole.2]
    rfl

theorem Whole.checkForm {s s' : InteractionStore J}
    (h : s.Whole uuids) {now : ℕ} {input : CheckDispatch}
    (hcheck : s.checkForm now input = .ok s') :
    s'.Whole uuids ∧
      s'.load = s.endOwned (input.owner.storageKey "") s.load := by
  rcases checkForm_eq_ok hcheck with ⟨-, base, hbase, rfl⟩
  unfold endOwned
  rcases hbase with ⟨rfl, hnone⟩ | ⟨existing, hexisting, -, rfl⟩
  · rw [hnone]
    exact ⟨h.congr rfl rfl, load_congr rfl rfl⟩
  · rw [hexisting]
    rcases h.supersede (h.owned hexisting) with ⟨hwhole, hload⟩
    exact ⟨hwhole.congr rfl rfl, (load_congr rfl rfl).trans hload⟩

/-! ## Edits -/

/-- No edit changes whose record it is, or the values of an approval. -/
theorem applyEdit_same {s mid : InteractionStore J} {r q : Interaction J}
    {newKey : String} {kind : EditKind J}
    (happly : s.applyEdit host r newKey kind = .ok (q, mid)) :
    (q.id = r.id ∧ q.sessionId = r.sessionId ∧ q.owner = r.owner ∧
        (r.owner.isApproval = true → q.values = r.values)) ∧
      mid.records = s.records ∧ mid.chunks = s.chunks := by
  cases kind with
  | update kind =>
      cases hupdate : s.applyUpdate host r kind with
      | error e => simp [applyEdit, hupdate, Except.map] at happly
      | ok updated =>
          simp only [applyEdit, hupdate, Except.map, Except.ok.injEq,
            Prod.mk.injEq] at happly
          rcases happly with ⟨rfl, rfl⟩
          refine ⟨?_, rfl, rfl⟩
          cases kind with
          | cancel =>
              simp only [applyUpdate] at hupdate
              split_ifs at hupdate
              cases hupdate
              exact ⟨rfl, rfl, rfl, fun _ => rfl⟩
          | update patch remove source =>
              simp only [applyUpdate] at hupdate
              split_ifs at hupdate with hdraft happroval
              cases hsize : assertRecordSize host
                  (patched r patch remove source).1
                  (patched r patch remove source).2 r.owner with
              | error e => simp [hsize, Except.map] at hupdate
              | ok _ =>
                  simp only [hsize, Except.map, Except.ok.injEq] at hupdate
                  subst hupdate
                  exact ⟨rfl, rfl, rfl, fun h => absurd h happroval⟩
  | reserve valuesDigest =>
      cases hreserve : applyReserve host r valuesDigest newKey with
      | error e => simp [applyEdit, hreserve, Except.map] at happly
      | ok reserved =>
          simp only [applyEdit, hreserve, Except.map, Except.ok.injEq,
            Prod.mk.injEq] at happly
          rcases happly with ⟨rfl, rfl⟩
          refine ⟨?_, rfl, rfl⟩
          unfold applyReserve at hreserve
          split_ifs at hreserve
          cases hreserve
          exact ⟨rfl, rfl, rfl, fun _ => rfl⟩
  | observe operationKey outcome =>
      rcases applyObserve_eq_ok happly with ⟨rfl, -, -, -, hmid⟩
      constructor
      · cases outcome <;> exact ⟨rfl, rfl, rfl, fun _ => rfl⟩
      · rcases hmid with ⟨-, rfl⟩ | ⟨-, rfl⟩ <;> exact ⟨rfl, rfl⟩

theorem Whole.edit {s s' : InteractionStore J}
    (h : s.Whole uuids) {now : ℕ} {newKey : String}
    {input : EditInteraction J}
    (hedit : s.edit host now newKey input = .ok (result, s')) :
    s'.Whole uuids ∧
      s'.load = Function.update s.load input.id (some result.interaction) ∧
      s'.readFrom input.id input.sessionId = .ok result.interaction := by
  rcases edit_eq_ok hedit with ⟨-, rfl, hread⟩ |
    ⟨-, r, q, mid, saved, hread, happly, hsave, rfl, hresult⟩
  · refine ⟨h, ?_, hread⟩
    rw [eq_comm, Function.update_eq_self_iff]
    exact (readFrom_eq_ok_iff.mp hread).1.symm
  · rcases readFrom_eq_ok_iff.mp hread with ⟨hload, hsession⟩
    rcases applyEdit_same happly with ⟨hsame, hrecords, hchunks⟩
    rcases load_eq_some.mp hload with ⟨stored, hstored, hr⟩
    have hnamed := h.load_named hload
    have hcard : result.interaction.id = input.id ∧
        result.interaction.sessionId = input.sessionId ∧
        result.interaction.owner = r.owner ∧
        (r.owner.isApproval = true →
          result.interaction.values = r.values) := by
      rw [hresult]
      exact ⟨hsame.1.trans hnamed.1, hsame.2.1.trans hsession, hsame.2.2⟩
    rcases hcard with ⟨hid, hchat, howner, hvalues⟩
    rw [← hresult] at hsave
    have hsaved := (h.congr hrecords hchunks).save (hid ▸ hnamed.2)
      (fun values hchunk => by
        rw [hid, hchunks] at hchunk
        rcases h.chunks _ values hchunk with ⟨owner, hq, hdomain, -⟩
        rw [hstored] at hq
        cases hq
        have hkind : r.owner.isDomainWrite = true := by
          rw [← hr]
          exact hdomain
        refine ⟨howner ▸ hkind, ?_⟩
        rw [hvalues (InteractionOwner.isApproval_of_isDomainWrite hkind),
          ← hr, hchunk]
        rfl) hsave
    rw [hid, load_congr hrecords hchunks] at hsaved
    refine ⟨hsaved.1.congr rfl rfl, hsaved.2, ?_⟩
    rw [readFrom_eq_ok_iff]
    constructor
    · rw [show (saved.rememberEdit host input).load = saved.load from
        load_congr rfl rfl, hsaved.2, Function.update_self]
    · exact hchat

/-! ## Retention -/

/-- What retention leaves of the saved record. -/
def forgetSaved (s : InteractionStore J) (now : ℕ) (id : String)
    (saved : Option (Interaction J)) : Option (Interaction J) :=
  saved.bind fun r =>
    r.forgotten (decide (s.ownerState now r = .blocked)) (s.chunks id).isSome

theorem Whole.remove {s s' : InteractionStore J} (h : s.Whole uuids)
    (hrecords : s'.records = Function.update s.records id none)
    (hchunks : s'.chunks = Function.update s.chunks id none) :
    s'.Whole uuids ∧ s'.load = Function.update s.load id none := by
  constructor
  · constructor
    · intro i r hr
      rw [hrecords] at hr
      by_cases hi : i = id
      · subst hi
        simp at hr
      · rw [Function.update_of_ne hi] at hr
        exact h.named i r hr
    · intro i values hchunk
      rw [hchunks] at hchunk
      by_cases hi : i = id
      · subst hi
        simp at hchunk
      · rw [Function.update_of_ne hi] at hchunk
        rw [hrecords, Function.update_of_ne hi]
        exact h.chunks i values hchunk
  · funext i
    by_cases hi : i = id
    · subst hi
      simp [load, hrecords]
    · simp [load, hrecords, hchunks, hi]

theorem forget_writes (hr : s.records id = some r) (now : ℕ)
    (expiryEntry : Option ExpiryEntry) :
    (s.forget now id expiryEntry).records = Function.update s.records id
          (r.forgotten (decide (s.ownerState now r = .blocked))
            (s.chunks id).isSome) ∧
      (s.forget now id expiryEntry).chunks =
        Function.update s.chunks id none := by
  unfold InteractionStore.forget
  dsimp only
  split
  next hnone =>
    rw [hr] at hnone
    cases hnone
  next stored hstored =>
    rw [hr] at hstored
    cases hstored
    split
    next hblocked =>
      have hstate : s.ownerState now r = .blocked := hblocked
      split
      next hclear =>
        have hstays : r.forgotten true (s.chunks id).isSome = some r := by
          simp only [Interaction.forgotten, hclear, if_true]
        refine ⟨?_, rfl⟩
        rw [decide_eq_true hstate, hstays, ← hr, Function.update_eq_self]
      next hclear =>
        refine ⟨?_, rfl⟩
        rw [decide_eq_true hstate, Interaction.forgotten, if_pos rfl,
          if_neg hclear]
    next hfree =>
      have hstate : s.ownerState now r ≠ .blocked := hfree
      refine ⟨?_, rfl⟩
      rw [decide_eq_false hstate]
      rfl

theorem Whole.forget (h : s.Whole uuids) (now : ℕ) (id : String)
    (expiryEntry : Option ExpiryEntry) :
    (s.forget now id expiryEntry).Whole uuids ∧
      (s.forget now id expiryEntry).load =
        Function.update s.load id (s.forgetSaved now id (s.load id)) := by
  cases hr : s.records id with
  | none =>
      have hstays : (s.forget now id expiryEntry).records = s.records ∧
          (s.forget now id expiryEntry).chunks = s.chunks := by
        simp [InteractionStore.forget, hr]
      refine ⟨h.congr hstays.1 hstays.2, ?_⟩
      rw [load_congr hstays.1 hstays.2, eq_comm, Function.update_eq_self_iff]
      simp [forgetSaved, load, hr]
  | some r =>
      rcases forget_writes hr now expiryEntry with ⟨hrecords, hchunks⟩
      have hleft : s.forgetSaved now id (s.load id) =
          r.forgotten (decide (s.ownerState now r = .blocked))
            (s.chunks id).isSome := by
        rw [forgetSaved, load_eq_some.mpr ⟨r, hr, rfl⟩]
        exact r.forgotten_values _ (s.chunks id)
      rw [← hleft] at hrecords
      cases hkept : s.forgetSaved now id (s.load id) with
      | none =>
          rw [hkept] at hrecords
          exact h.remove hrecords hchunks
      | some q =>
          rw [hkept] at hrecords
          have hid : q.id = r.id :=
            Interaction.forgotten_id (hleft.symm.trans hkept)
          exact h.write _ q none hrecords hchunks
            (by rw [hid]; exact h.named id r hr) nofun

end InteractionStore

end QiForge
