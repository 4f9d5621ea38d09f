import QiForge.ActionInteractionChunks
import QiForge.InteractionLoads
import Mathlib.Logic.Equiv.List

/-!
# Answers and reads

The runs of the storage with records in chunks.  Beside the storage they keep
each record as it was saved last: by a command, by giving way to another card,
or by retention.  A load returns that record.  A command answers what a read
returns right after it, except a prepare that finds a record standing: it
answers with the main key alone.
-/

namespace QiForge

variable {J : Type}

theorem InteractionStore.session_of_standing {host : InteractionHost J}
    {s : InteractionStore J} {now : ℕ} {input : PrepareInteraction J}
    {existing : Interaction J}
    (hstanding : s.standing host now input existing = .ok true) :
    existing.sessionId = input.sessionId := by
  by_contra hother
  unfold standing at hstanding
  dsimp only at hstanding
  rw [decide_eq_false hother] at hstanding
  split_ifs at hstanding <;> simp_all

/-- A prepare is answered with a record that stands, whose main key has other
values than its chunks. -/
def KeyStore.AnswersInPart (s : KeyStore J) (text : ValueText J)
    (host : InteractionHost J) (now : ℕ) (input : PrepareInteraction J) :
    Prop :=
  s.base.requests input.requestId = none ∧ ∃ existing,
      s.base.ownedRecord (input.owner.storageKey input.sessionId) =
        some existing ∧
      s.standing text host now input existing = .ok true ∧
      s.chunkIndexes existing.id ≠ [] ∧
      s.decode text existing.id ≠ some existing.values

structure KeySystem (J : Type) where
  store : KeyStore J
  uuids : List String
  passes : List ForgetPass
  saved : String → Option (Interaction J)

namespace KeySystem

variable (text : ValueText J) (host : InteractionHost J)

def empty : KeySystem J := ⟨.empty, [], [], fun _ => none⟩

def prepare (s : KeySystem J) (now : ℕ) (newId : String)
    (input : PrepareInteraction J) : KeySystem J :=
  let s := { s with uuids := s.uuids ++ [newId] }
  match s.store.prepare text host now newId input with
  | .error _ => s
  | .ok (result, store) =>
      let key := input.owner.storageKey input.sessionId
      { s with
        store := store
        saved := if result.replayed then s.saved
          else
            Function.update (s.store.base.endOwned key s.saved)
              result.interaction.id (some result.interaction) }

def edit (s : KeySystem J) (now : ℕ) (newKey : String)
    (input : EditInteraction J) : KeySystem J :=
  let s := { s with uuids := s.uuids ++ [newKey] }
  match s.store.edit text host now newKey input with
  | .error _ => s
  | .ok (result, store) =>
      { s with
        store := store
        saved := if result.replayed then s.saved
          else Function.update s.saved input.id (some result.interaction) }

def checkDispatch (s : KeySystem J) (now : ℕ) (input : CheckDispatch) :
    KeySystem J :=
  let key := input.owner.storageKey ""
  if input.owner.isDispatchable = false ∨
      input.owner.accountDid ≠ some host.userDid then s
  else if input.cardRef = none then
    match s.store.checkForm now input with
    | .error _ => s
    | .ok store =>
        { s with
          store := store
          saved := s.store.base.endOwned key s.saved }
  else
    match s.store.checkCard now input with
    | .error _ => s
    | .ok (_, store) => { s with store := store }

def forget (s : KeySystem J) (now : ℕ) (id : String)
    (expiryEntry : Option ExpiryEntry) : KeySystem J :=
  { s with
    store := s.store.forget now id expiryEntry
    saved := Function.update s.saved id
      ((s.store.decoded text).forgetSaved now id (s.saved id)) }

def forgetDue (s : KeySystem J) (now : ℕ) (entries : List ExpiryEntry) :
    KeySystem J :=
  entries.foldl (fun s entry => s.forget text now entry.id (some entry)) s

def forgetOfSession (s : KeySystem J) (now : ℕ)
    (entries : List SessionEntry) : KeySystem J :=
  entries.foldl (fun s entry =>
    let expiryEntry := (s.store.base.records entry.id).map fun r =>
      (⟨r.expiresAt, r.id⟩ : ExpiryEntry)
    let s := s.forget text now entry.id expiryEntry
    { s with store := s.store.unlist entry }) s

def forgets (s : KeySystem J) (pass : ℕ) (now : ℕ) : Option (KeySystem J) :=
  match s.passes[pass]? with
  | none => none
  | some (.due entries) =>
      some { s.forgetDue text now entries with
        passes := s.passes.eraseIdx pass }
  | some (.session entries) =>
      some { s.forgetOfSession text now entries with
        passes := s.passes.eraseIdx pass }

def step (s : KeySystem J) : InteractionEvent J → Option (KeySystem J)
  | .prepare now newId input =>
      if newId ∈ s.uuids then none
      else some (s.prepare text host now newId input)
  | .edit now newKey input =>
      if newKey ∈ s.uuids then none
      else some (s.edit text host now newKey input)
  | .checkDispatch now input => some (s.checkDispatch host now input)
  | .pruneReads now =>
      some { s with passes := s.passes ++ [.due (s.store.base.due now)] }
  | .sessionReads sessionId =>
      some { s with
        passes := s.passes ++ [.session (s.store.base.ofSession sessionId)] }
  | .forgets pass now => s.forgets text pass now

/-! ## A load returns what was saved last -/

/-- The chunks can be read, and every load is the last save. -/
structure Kept (s : KeySystem J) : Prop where
  readable : s.store.Readable text
  whole : (s.store.decoded text).Whole s.uuids
  load : (s.store.decoded text).load = s.saved

variable {text host}

theorem Kept.empty : Kept text (empty : KeySystem J) := by
  have hdecoded : (KeyStore.empty : KeyStore J).decoded text = .empty := rfl
  constructor
  · exact KeyStore.Readable.empty
  · exact hdecoded ▸ InteractionStore.Whole.empty
  · rfl

variable {s : KeySystem J}

theorem Kept.prepare (h : Kept text s) (now : ℕ)
    {newId : String} (input : PrepareInteraction J)
    (hfresh : newId ∉ s.uuids) :
    Kept text (s.prepare text host now newId input) := by
  unfold KeySystem.prepare
  dsimp only
  have hagrees := KeyStore.prepare_agrees host h.readable now newId input
  cases hprepare : s.store.prepare text host now newId input with
  | error e =>
      exact ⟨h.readable, h.whole.mono (List.subset_append_left _ _), h.load⟩
  | ok answer =>
      rcases answer with ⟨result, store⟩
      have hstore := hagrees.seen.symm
      rw [hprepare] at hstore
      rcases h.whole.prepare hfresh hstore with ⟨hwhole, hload⟩
      constructor
      · exact hagrees.readable result store hprepare
      · exact hwhole
      · rw [hload, h.load]
        rfl

theorem Kept.edit (h : Kept text s) (now : ℕ)
    (newKey : String) (input : EditInteraction J) :
    Kept text (s.edit text host now newKey input) := by
  unfold KeySystem.edit
  dsimp only
  have hagrees := KeyStore.edit_agrees host h.readable now newKey input
  have hmore := h.whole.mono (List.subset_append_left s.uuids [newKey])
  cases hedit : s.store.edit text host now newKey input with
  | error e => exact ⟨h.readable, hmore, h.load⟩
  | ok answer =>
      rcases answer with ⟨result, store⟩
      have hstore := hagrees.seen.symm
      rw [hedit] at hstore
      rcases hmore.edit hstore with ⟨hwhole, hload, hread⟩
      constructor
      · exact hagrees.readable result store hedit
      · exact hwhole
      · dsimp only
        rw [hload, h.load]
        cases hreplayed : result.replayed with
        | false => rfl
        | true =>
            rw [if_pos rfl, Function.update_eq_self_iff]
            rcases InteractionStore.edit_eq_ok hstore with
              ⟨-, -, hbefore⟩ | ⟨hnew, -⟩
            · rw [← h.load]
              exact (InteractionStore.readFrom_eq_ok_iff.mp hbefore).1.symm
            · rw [hreplayed] at hnew
              cases hnew

theorem Kept.checkDispatch (h : Kept text s) (now : ℕ)
    (input : CheckDispatch) : Kept text (s.checkDispatch host now input) := by
  unfold KeySystem.checkDispatch
  split_ifs with hopen hform
  · exact h
  · rcases KeyStore.checkForm_agrees h.readable now input with
      ⟨hseen, hreadable⟩
    cases hcheck : s.store.checkForm now input with
    | error e => exact h
    | ok store =>
        have hstore := hseen.symm
        rw [hcheck] at hstore
        rcases h.whole.checkForm hstore with ⟨hwhole, hload⟩
        constructor
        · exact hreadable store hcheck
        · exact hwhole
        · rw [hload, h.load]
          rfl
  · have hagrees := KeyStore.checkCard_agrees h.readable now input
    cases hcheck : s.store.checkCard now input with
    | error e => exact h
    | ok checked =>
        rcases checked with ⟨operationKey, store⟩
        have hstore := hagrees.seen.symm
        rw [hcheck] at hstore
        rcases InteractionStore.checkCard_eq_ok hstore with
          ⟨-, -, -, -, -, -, hput⟩
        constructor
        · exact hagrees.readable operationKey store hcheck
        · rw [hput]
          exact h.whole.congr rfl rfl
        · rw [hput, ← h.load]
          exact InteractionStore.load_congr rfl rfl

theorem Kept.forget (h : Kept text s) (now : ℕ)
    (id : String) (expiryEntry : Option ExpiryEntry) :
    Kept text (s.forget text now id expiryEntry) := by
  rcases h.whole.forget now id expiryEntry with ⟨hwhole, hload⟩
  rw [← KeyStore.forget_decoded] at hwhole hload
  constructor
  · exact h.readable.forget now id expiryEntry
  · exact hwhole
  · rw [h.load] at hload
    exact hload

theorem Kept.unlist (h : Kept text s) (entry : SessionEntry) :
    Kept text { s with store := s.store.unlist entry } :=
  ⟨h.readable, h.whole.congr rfl rfl,
    (InteractionStore.load_congr rfl rfl).trans h.load⟩

theorem Kept.forgetDue (h : Kept text s) (now : ℕ)
    (entries : List ExpiryEntry) :
    Kept text (s.forgetDue text now entries) := by
  unfold KeySystem.forgetDue
  induction entries generalizing s with
  | nil => exact h
  | cons entry entries ih => exact ih (h.forget now entry.id (some entry))

theorem Kept.forgetOfSession (h : Kept text s) (now : ℕ)
    (entries : List SessionEntry) :
    Kept text (s.forgetOfSession text now entries) := by
  unfold KeySystem.forgetOfSession
  induction entries generalizing s with
  | nil => exact h
  | cons entry entries ih =>
      exact ih ((h.forget now entry.id _).unlist entry)

theorem Kept.step {s s' : KeySystem J} {event : InteractionEvent J}
    (h : Kept text s) (hstep : step text host s event = some s') :
    Kept text s' := by
  cases event with
  | prepare now newId input =>
      dsimp only [KeySystem.step] at hstep
      split_ifs at hstep with hused
      cases hstep
      exact h.prepare now input hused
  | edit now newKey input =>
      dsimp only [KeySystem.step] at hstep
      split_ifs at hstep
      cases hstep
      exact h.edit now newKey input
  | checkDispatch now input =>
      cases hstep
      exact h.checkDispatch now input
  | pruneReads now =>
      cases hstep
      exact { h with }
  | sessionReads sessionId =>
      cases hstep
      exact { h with }
  | forgets pass now =>
      dsimp only [KeySystem.step, KeySystem.forgets] at hstep
      split at hstep
      next => cases hstep
      next entries _ =>
        cases hstep
        have hdue := h.forgetDue now entries
        exact { hdue with }
      next entries _ =>
        cases hstep
        have hsession := h.forgetOfSession now entries
        exact { hsession with }

theorem Kept.run {events : List (InteractionEvent J)}
    (hrun : Transition.run (KeySystem.step text host) KeySystem.empty
      events = some s) : Kept text s :=
  Transition.run_preserves (fun _ _ _ h hstep => h.step hstep) Kept.empty hrun

/-! ## Answers -/

/-- A record that stands is read as its main key has it, unless its chunks
have other values. -/
theorem Kept.load_standing (h : Kept text s)
    {key : OwnerKey} {existing : Interaction J}
    (hexisting : s.store.base.ownedRecord key = some existing) :
    (s.store.decoded text).load existing.id = some existing ↔
      ¬ (s.store.chunkIndexes existing.id ≠ [] ∧
        s.store.decode text existing.id ≠ some existing.values) := by
  have hrecord : (s.store.decoded text).records existing.id =
      some existing := h.whole.owned hexisting
  have hload := InteractionStore.load_eq_some.mpr ⟨existing, hrecord, rfl⟩
  rw [hload]
  by_cases hchunks : s.store.chunkIndexes existing.id = []
  · simp [KeyStore.decoded, hchunks]
  · rcases h.readable existing.id hchunks with ⟨values, hvalues⟩
    simp only [KeyStore.decoded, hchunks, if_false, hvalues,
      Option.getD_some, Option.some.injEq, ne_eq, not_false_eq_true,
      true_and, not_not]
    constructor
    · intro heq
      exact congrArg Interaction.values heq
    · rintro rfl
      rfl

/-- A prepare answers what is read right after it, or in part. -/
theorem Kept.prepare_answers (h : Kept text s) {now : ℕ}
    {newId : String} {input : PrepareInteraction J}
    {result : InteractionResult J} {after : KeyStore J}
    (hfresh : newId ∉ s.uuids)
    (hprepare : s.store.prepare text host now newId input =
      .ok (result, after)) :
    after.readFrom text result.interaction.id input.sessionId =
        .ok result.interaction ↔
      ¬ s.store.AnswersInPart text host now input := by
  have hagrees := KeyStore.prepare_agrees host h.readable now newId input
  have hstore := hagrees.seen.symm
  rw [hprepare] at hstore
  rw [KeyStore.readFrom_eq (hagrees.readable result after hprepare),
    InteractionStore.readFrom_eq_ok_iff]
  rcases InteractionStore.prepare_cases hstore with
    ⟨mark, r, hmark, hread, rfl, hafter⟩ |
    ⟨hnone, -, ⟨existing, hexisting, hstanding, rfl, hafter⟩ |
      ⟨base, hbase, hcreate⟩⟩
  · apply iff_of_true
    · rcases InteractionStore.readFrom_eq_ok_iff.mp hread with
        ⟨hload, hsession⟩
      dsimp only at hafter ⊢
      rw [hafter, (h.whole.load_named hload).1]
      exact ⟨hload, hsession⟩
    · rintro ⟨hnone, -⟩
      rw [show s.store.base.requests input.requestId = some mark
        from hmark] at hnone
      cases hnone
  · have hload : (after.decoded text).load = (s.store.decoded text).load :=
      (congrArg InteractionStore.load hafter).trans
        (InteractionStore.load_congr rfl rfl)
    rw [hload, h.load_standing hexisting]
    constructor
    · rintro ⟨hwhole, -⟩ ⟨-, other, hother, -, hpart⟩
      rw [show s.store.base.ownedRecord _ = some existing
        from hexisting] at hother
      cases hother
      exact hwhole hpart
    · intro hwhole
      refine ⟨fun hpart => hwhole ⟨hnone, existing, hexisting, ?_, hpart⟩,
        InteractionStore.session_of_standing hstanding⟩
      rw [KeyStore.standing_seen h.readable]
      exact hstanding
  · apply iff_of_true
    · rcases h.whole.prepare hfresh hstore with ⟨-, hload⟩
      rcases InteractionStore.create_eq_ok hcreate with ⟨rfl, -⟩
      dsimp only at hload ⊢
      rw [hload, if_neg (by decide), Function.update_self]
      exact ⟨rfl, rfl⟩
    · rintro ⟨-, existing, hexisting, hstanding, -⟩
      rw [KeyStore.standing_seen h.readable] at hstanding
      rcases hbase with ⟨-, hfree⟩ | ⟨other, hother, hgives, -⟩
      · rw [show s.store.base.ownedRecord _ = none from hfree] at hexisting
        cases hexisting
      · rw [show s.store.base.ownedRecord _ = some other
          from hother] at hexisting
        cases hexisting
        rw [hgives] at hstanding
        cases hstanding

theorem Kept.edit_answers (h : Kept text s) {now : ℕ}
    {newKey : String} {input : EditInteraction J}
    {result : InteractionResult J} {after : KeyStore J}
    (hedit : s.store.edit text host now newKey input = .ok (result, after)) :
    after.readFrom text result.interaction.id input.sessionId =
      .ok result.interaction := by
  have hagrees := KeyStore.edit_agrees host h.readable now newKey input
  have hstore := hagrees.seen.symm
  rw [hedit] at hstore
  rcases h.whole.edit hstore with ⟨hwhole, -, hread⟩
  rw [KeyStore.readFrom_eq (hagrees.readable result after hedit)]
  have hload := (InteractionStore.readFrom_eq_ok_iff.mp hread).1
  rw [(hwhole.load_named hload).1]
  exact hread

/-- In every state a run reaches, a load returns the record as it was saved
last, and a command answers what a read returns right after it, except a
prepare that is answered in part. -/
theorem answers_are_read (text : ValueText J) (host : InteractionHost J)
    (events : List (InteractionEvent J)) (s : KeySystem J)
    (hrun : Transition.run (step text host) empty events = some s) :
    (∀ id, s.store.load text id = .ok (s.saved id)) ∧
      (∀ now newId input result after, newId ∉ s.uuids →
        s.store.prepare text host now newId input = .ok (result, after) →
        (after.readFrom text result.interaction.id input.sessionId =
            .ok result.interaction ↔
          ¬ s.store.AnswersInPart text host now input)) ∧
      ∀ now newKey input result after,
        s.store.edit text host now newKey input = .ok (result, after) →
        after.readFrom text result.interaction.id input.sessionId =
          .ok result.interaction := by
  have h := Kept.run hrun
  refine ⟨fun id => ?_, fun now newId input result after hfresh hprepare =>
    h.prepare_answers hfresh hprepare, ?_⟩
  · rw [KeyStore.load_eq h.readable, h.load]
  · intro now newKey input result after hedit
    exact h.edit_answers hedit

section Runs

instance : Encodable String :=
  Encodable.ofLeftInverse (fun name => name.toList.map Char.toNat)
    (fun codes => String.ofList (codes.map Char.ofNat)) (by
      intro name
      simp [Function.comp_def])

def memoStart : JsString := utf16 "\x7b\"request\":\x7b\"text\":\"".toList

def memoEnd : JsString := utf16 "\"\x7d\x7d".toList

/-- The text of a request object, whose one text has so many letters; other
fields have a code. -/
def memoText : ValueText ℕ where
  stringify := fun values =>
    match values with
    | [("request", letters)] =>
        memoStart ++ List.replicate letters 97 ++ memoEnd
    | values => List.replicate (Encodable.encode values + 1) 0
  parse := fun text =>
    if text.head? = some 0 then Encodable.decode (text.length - 1)
    else some [("request", text.length - 23)]
  parse_stringify := by
    intro values
    split
    next letters =>
      have hhead : (memoStart ++ List.replicate letters 97 ++
          memoEnd).head? ≠ some 0 := by
        have hstart : memoStart = 123 :: memoStart.tail := by decide
        rw [hstart]
        intro hzero
        exact absurd (Option.some.inj hzero) (by decide)
      have hlength : (memoStart ++ List.replicate letters 97 ++
          memoEnd).length = letters + 23 := by
        have hstart : memoStart.length = 20 := by decide
        have hend : memoEnd.length = 3 := by decide
        simp only [List.length_append, List.length_replicate, hstart, hend]
        omega
      rw [if_neg hhead, hlength, Nat.add_sub_cancel]
    next =>
      simp [List.replicate_succ]
  stringify_ne_nil := by
    intro values
    split
    next letters =>
      have hstart : memoStart ≠ [] := by decide
      simp [hstart]
    next => simp

-- the equality test of the membership below
local instance : LawfulBEq (String × ℕ) := inferInstance

/-- The sizes of such records, some 400 bytes beside their values. -/
def memoHost : InteractionHost ℕ where
  userDid := "did:user"
  valuesBytes := fun values =>
    (values.map fun field => field.1.length + field.2 + 15).sum + 1
  namesBytes := fun names => (names.map fun name => name.length + 3).sum + 1
  recordBytes := fun r =>
    (r.values.map fun field => field.1.length + field.2 + 15).sum + 401
  receiptBytes := fun receipt =>
    (receipt.map fun field => field.1.length + field.2 + 15).sum + 1
  valuesDigest := fun values => String.join (values.map Prod.fst)
  sameValues := fun left right => decide (left = right)
  isObject := fun _ => true
  extendsReceipt := fun old new => old.all fun field => decide (field ∈ new)
  prepareFingerprint := fun input => input.requestId ++ input.sessionId
  editFingerprint := fun input => input.requestId ++ input.id

/-- A domain write of some 100 KB. -/
def largeDraft : PrepareInteraction ℕ :=
  ⟨"request-1", "chat-1", .approval .domainWrite "write-1" "did:user",
    [("request", 100000)]⟩

/-- The same draft under a new request id. -/
def largeRetry : PrepareInteraction ℕ :=
  { largeDraft with requestId := "request-2" }

theorem answers_are_read_largeDraft :
    ∃ s, Transition.run (step memoText memoHost) empty
        [.prepare 0 "card-1" largeDraft] = some s ∧
      s.store.load memoText "card-1" = .ok (s.saved "card-1") ∧
      ∀ result after, s.store.prepare memoText memoHost 1 "card-2" largeRetry =
          .ok (result, after) →
        (after.readFrom memoText result.interaction.id "chat-1" =
            .ok result.interaction ↔
          ¬ s.store.AnswersInPart memoText memoHost 1 largeRetry) := by
  have hrun : Transition.run (step memoText memoHost) empty
      [.prepare 0 "card-1" largeDraft] =
        some (prepare memoText memoHost empty 0 "card-1" largeDraft) := rfl
  have h := answers_are_read memoText memoHost _ _ hrun
  refine ⟨_, hrun, h.1 "card-1", fun result after hprepare =>
    h.2.1 1 "card-2" largeRetry result after ?_ hprepare⟩
  decide +kernel

def largeCard : Interaction ℕ := InteractionStore.newCard 0 "card-1" largeDraft

/-- The store with the draft in chunks. -/
def storedDraft : InteractionStore ℕ :=
  { ((InteractionStore.empty.addKeys largeCard).putRecord
        { largeCard with values := [] }).rememberPrepare memoHost largeDraft
      "card-1" with
    chunks := Function.update (fun _ => none) "card-1"
      (some largeDraft.values) }

/-- The retry of a large draft is answered without its values. -/
theorem largeRetry_answered_in_part :
    ∃ s result after, Transition.run (step memoText memoHost) empty
        [.prepare 0 "card-1" largeDraft] = some s ∧
      s.store.prepare memoText memoHost 1 "card-2" largeRetry =
        .ok (result, after) ∧
      result.interaction = { largeCard with values := [] } ∧
      after.readFrom memoText result.interaction.id "chat-1" = .ok largeCard ∧
      after.readFrom memoText result.interaction.id "chat-1" ≠
        .ok result.interaction := by
  have hcreated : (InteractionStore.empty : InteractionStore ℕ).prepare
      memoHost 0 "card-1" largeDraft =
        .ok (⟨largeCard, false⟩, storedDraft) := by
    rfl
  have hretried : storedDraft.prepare memoHost 1 "card-2" largeRetry =
      .ok (⟨{ largeCard with values := [] }, true⟩,
        storedDraft.rememberPrepare memoHost largeRetry "card-1") := by
    rfl
  have hread : (storedDraft.rememberPrepare memoHost largeRetry
      "card-1").readFrom "card-1" "chat-1" = .ok largeCard := by
    rfl
  rcases (KeyStore.prepare_agrees memoHost
    (KeyStore.Readable.empty : KeyStore.Readable memoText KeyStore.empty)
    0 "card-1" largeDraft).of_ok hcreated with
    ⟨first, hfirst, hdecoded, hreadable⟩
  have hsecond := KeyStore.prepare_agrees memoHost hreadable 1 "card-2"
    largeRetry
  rw [hdecoded] at hsecond
  rcases hsecond.of_ok hretried with ⟨after, hafter, hseen, hlast⟩
  have hwhole : after.readFrom memoText "card-1" "chat-1" = .ok largeCard := by
    rw [KeyStore.readFrom_eq hlast, hseen]
    exact hread
  have hstate : (prepare memoText memoHost empty 0 "card-1"
      largeDraft).store = first := by
    unfold prepare
    simp only [empty, hfirst]
  refine ⟨_, _, after, rfl, hstate ▸ hafter, rfl, hwhole, ?_⟩
  rw [show largeCard.id = "card-1" from rfl, hwhole]
  simp [largeCard, InteractionStore.newCard, largeDraft]

end Runs

end KeySystem

end QiForge
