import QiForge.ActionInteractions
import QiForge.JsonText

/-!
# Records in chunks

A record too large for one storage value keeps its values under keys of their
own: a count, and one slice of their text for each index.  Reading joins the
slices again.  Only saving and forgetting touch these keys; every other write
goes to the record's main key.  Read through its chunks, this storage does
what the store with one value for the chunks does.
-/

namespace QiForge

/-! ## Slices of a text -/

section Slices

variable {α : Type}

/-- `text.slice(index * size, (index + 1) * size)`. -/
def sliceOf (size : ℕ) (text : List α) (index : ℕ) : List α :=
  (text.drop (index * size)).take size

/-- `Math.ceil(text.length / size)`. -/
def sliceCount (size : ℕ) (text : List α) : ℕ :=
  (text.length + size - 1) / size

theorem slices_take (size : ℕ) (text : List α) (count : ℕ) :
    ((List.range count).map (sliceOf size text)).flatten =
      text.take (count * size) := by
  induction count with
  | zero => rw [Nat.zero_mul, List.take_zero]; rfl
  | succ count ih =>
      rw [List.range_succ, List.map_append, List.flatten_append, ih,
        Nat.succ_mul, List.take_add, List.map_singleton,
        List.flatten_singleton, sliceOf]

/-- The slices make up the text. -/
theorem slices_flatten {size : ℕ} (hsize : 0 < size) (text : List α) :
    ((List.range (sliceCount size text)).map (sliceOf size text)).flatten =
      text := by
  rw [slices_take, List.take_of_length_le]
  have hdiv := Nat.div_add_mod (text.length + size - 1) size
  have hmod := Nat.mod_lt (text.length + size - 1) hsize
  rw [sliceCount, Nat.mul_comm]
  omega

theorem sliceCount_pos
    {size : ℕ} (hsize : 0 < size) {text : List α} (htext : text ≠ []) :
    0 < sliceCount size text := by
  have hlength := List.length_pos_of_ne_nil htext
  exact Nat.div_pos (by omega) hsize

end Slices

/-! ## The keys of a record in chunks -/

/-- `JSON.stringify` and `JSON.parse` of a record's values. -/
structure ValueText (J : Type) where
  stringify : JsonFields J → JsString
  parse : JsString → Option (JsonFields J)
  parse_stringify : ∀ values, parse (stringify values) = some values
  stringify_ne_nil : ∀ values, stringify values ≠ []

def chunkUnits : ℕ := 24 * 1024

/-- The storage.  `base` holds all keys but those of chunks; its own field for
chunks is not used. -/
structure KeyStore (J : Type) where
  base : InteractionStore J
  counts : String → Option ℕ
  parts : String → ℕ → Option JsString

def unreadableRecord : InteractionError := ⟨409, "record_unreadable",
    "This Companion draft cannot be read; " ++
      "check the claims list before submitting"⟩

namespace KeyStore

variable {J : Type}

def empty : KeyStore J := ⟨.empty, fun _ => none, fun _ _ => none⟩

def onBase (s : KeyStore J)
    (f : InteractionStore J → InteractionStore J) : KeyStore J :=
  { s with base := f s.base }

/-- The indexes of a record's chunk keys. -/
def chunkIndexes (s : KeyStore J) (id : String) : List ℕ :=
  List.range ((s.counts id).getD 0)

def putChunks (s : KeyStore J) (id : String) (payload : JsString) :
    KeyStore J :=
  let count := sliceCount chunkUnits payload
  { s with
    counts := Function.update s.counts id (some count)
    parts := Function.update s.parts id fun index =>
      if index < count then some (sliceOf chunkUnits payload index)
      else s.parts id index }

def deleteChunks (s : KeyStore J) (id : String) : KeyStore J := { s with
    counts := Function.update s.counts id none
    parts := Function.update s.parts id fun index =>
      if index ∈ s.chunkIndexes id then none else s.parts id index }

variable (text : ValueText J) (host : InteractionHost J)

/-- The values in a record's chunks. -/
def decode (s : KeyStore J) (id : String) : Option (JsonFields J) :=
  ((s.chunkIndexes id).mapM (s.parts id)).bind fun parts =>
    text.parse parts.flatten

/-- The record with its values, reassembled when `save` split them. -/
def load (s : KeyStore J) (id : String) :
    Except InteractionError (Option (Interaction J)) :=
  match s.base.records id with
  | none => .ok none
  | some r =>
      if s.chunkIndexes id = [] then .ok (some r)
      else
        match s.decode text id with
        | some values => .ok (some { r with values := values })
        | none => .error unreadableRecord

def readFrom (s : KeyStore J) (id sessionId : String) :
    Except InteractionError (Interaction J) :=
  match s.load text id with
  | .error e => .error e
  | .ok (some r) =>
      if r.sessionId = sessionId then .ok r
      else .error ⟨404, "not_found", "Interaction not found"⟩
  | .ok none => .error ⟨404, "not_found", "Interaction not found"⟩

def save (s : KeyStore J) (r : Interaction J) :
    Except InteractionError (KeyStore J) :=
  let total := if r.owner.isDomainWrite then 2 * 1024 * 1024 else 96 * 1024
  if total < host.recordBytes r then
    .error ⟨413, "too_large", "Interaction exceeds the owner record limit"⟩
  else if host.recordBytes r ≤ 96 * 1024 then
    .ok (s.onBase fun base => base.putRecord r)
  else
    .ok ((s.putChunks r.id (text.stringify r.values)).onBase fun base =>
      base.putRecord { r with values := [] })

/-- The store with the values of each record's chunks in one piece. -/
def decoded (s : KeyStore J) : InteractionStore J := { s.base with
    chunks := fun id =>
      if s.chunkIndexes id = [] then none
      else some ((s.decode text id).getD []) }

/-! ## Commands -/

def create (s : KeyStore J) (now : ℕ) (newId : String)
    (input : PrepareInteraction J) :
    Except InteractionError (InteractionResult J × KeyStore J) :=
  if sessionDraftLimit ≤ s.base.recentCards now input.sessionId then
    .error ⟨409, "too_many_drafts",
      "This chat created 200 Agent cards in the last week; " ++
        "start a new chat"⟩
  else
    let r := InteractionStore.newCard now newId input
    ((s.onBase fun base => base.addKeys r).save text host r).map fun s =>
      (⟨r, false⟩, s.onBase fun base => base.rememberPrepare host input r.id)

/-- An approval's values are compared with those of the whole record. -/
def standing (s : KeyStore J) (now : ℕ) (input : PrepareInteraction J)
    (existing : Interaction J) : Except InteractionError Bool :=
  if input.owner.isApproval && decide (existing.owner = input.owner) then
    (s.load text existing.id).bind fun _ =>
      (s.decoded text).standing host now input existing
  else (s.decoded text).standing host now input existing

def prepare (s : KeyStore J) (now : ℕ) (newId : String)
    (input : PrepareInteraction J) :
    Except InteractionError (InteractionResult J × KeyStore J) :=
  match s.base.requests input.requestId with
  | some mark =>
      if mark.fingerprint = host.prepareFingerprint input then
        (s.readFrom text mark.id input.sessionId).map fun r => (⟨r, true⟩, s)
      else .error InteractionStore.requestConflict
  | none =>
      let key := input.owner.storageKey input.sessionId
      match InteractionStore.checkPrepare host input with
      | .error e => .error e
      | .ok () =>
          if input.owner.isFlow ∧ (s.base.manual key).isSome then
            .error ⟨409, "dispatch_consumed",
              "This claim step was submitted from the form; " ++
                "check the claims list before preparing another"⟩
          else
            match s.base.ownedRecord key with
            | none => s.create text host now newId input
            | some existing =>
                match s.standing text host now input existing with
                | .error e => .error e
                | .ok true =>
                    .ok (⟨existing, true⟩, s.onBase fun base =>
                      base.rememberPrepare host input existing.id)
                | .ok false =>
                    (s.onBase fun base => base.supersede existing).create
                      text host now newId input

def edit (s : KeyStore J) (now : ℕ) (newKey : String)
    (input : EditInteraction J) :
    Except InteractionError (InteractionResult J × KeyStore J) :=
  match (s.base.recent input.id).find? fun recent =>
      decide (recent.requestId = input.requestId) with
  | some previous =>
      if previous.fingerprint = host.editFingerprint input then
        (s.readFrom text input.id input.sessionId).map fun r => (⟨r, true⟩, s)
      else .error InteractionStore.requestConflict
  | none =>
      match s.readFrom text input.id input.sessionId with
      | .error e => .error e
      | .ok r =>
          match InteractionStore.checkEdit now input r with
          | .error e => .error e
          | .ok () =>
              match s.base.applyEdit host r newKey input.kind with
              | .error e => .error e
              | .ok (r, base) =>
                  let r := { r with revision := r.revision + 1 }
                  (({ s with base := base } : KeyStore J).save text host
                    r).map fun s =>
                      (⟨r, false⟩, s.onBase fun base =>
                        base.rememberEdit host input)

/-- The dispatch checks read and write main keys only. -/
def checkForm (s : KeyStore J) (now : ℕ) (input : CheckDispatch) :
    Except InteractionError (KeyStore J) :=
  (s.base.checkForm now input).map fun base => { s with base := base }

def checkCard (s : KeyStore J) (now : ℕ) (input : CheckDispatch) :
    Except InteractionError (String × KeyStore J) :=
  (s.base.checkCard now input).map fun checked =>
    (checked.1, { s with base := checked.2 })

/-- The store with a mark for each record in chunks. -/
def marked (s : KeyStore J) : InteractionStore J := { s.base with
    chunks := fun id => if s.chunkIndexes id = [] then none else some [] }

/-- A forgotten record's chunk keys go with it. -/
def forget (s : KeyStore J) (now : ℕ) (id : String)
    (expiryEntry : Option ExpiryEntry) : KeyStore J :=
  let forgotten := s.marked.forget now id expiryEntry
  let left := s.onBase fun base => { forgotten with chunks := base.chunks }
  if (s.base.records id).isSome then left.deleteChunks id else left

/-- An entry of a chat's listing goes. -/
def unlist (s : KeyStore J) (entry : SessionEntry) : KeyStore J :=
  s.onBase fun base =>
    { base with
      sessions := base.sessions.filter fun e => !decide (e = entry) }

/-! ## Read through its chunks -/

/-- The chunks of each record join to a text of values. -/
def Readable (s : KeyStore J) : Prop :=
  ∀ id, s.chunkIndexes id ≠ [] → ∃ values, s.decode text id = some values

variable {text host}

theorem Readable.empty : Readable text (empty : KeyStore J) := by
  intro id hchunks
  exact absurd rfl hchunks

variable {s : KeyStore J}

theorem load_eq (h : s.Readable text) (id : String) :
    s.load text id = .ok ((s.decoded text).load id) := by
  unfold load InteractionStore.load decoded
  cases hr : s.base.records id with
  | none => rfl
  | some r =>
      by_cases hchunks : s.chunkIndexes id = []
      · simp [hchunks]
      · rcases h id hchunks with ⟨values, hvalues⟩
        simp [hchunks, hvalues]

theorem readFrom_eq (h : s.Readable text) (id sessionId : String) :
    s.readFrom text id sessionId = (s.decoded text).readFrom id sessionId := by
  unfold readFrom InteractionStore.readFrom
  rw [load_eq h]
  cases (s.decoded text).load id <;> rfl

/-- A write that is not of chunks, and does not depend on them. -/
def ChunkFree (f : InteractionStore J → InteractionStore J) : Prop :=
  ∀ base chunks, f { base with chunks := chunks } =
    { f base with chunks := chunks }

theorem decoded_onBase (s : KeyStore J)
    {f : InteractionStore J → InteractionStore J} (hf : ChunkFree f) :
    (s.onBase f).decoded text = f (s.decoded text) := by
  unfold decoded
  rw [hf]
  rfl

theorem ChunkFree.putRecord (r : Interaction J) :
    ChunkFree fun base => base.putRecord r := fun _ _ => rfl

theorem ChunkFree.addKeys (r : Interaction J) :
    ChunkFree fun base => base.addKeys r := fun _ _ => rfl

theorem ChunkFree.rememberPrepare (input : PrepareInteraction J)
    (id : String) :
    ChunkFree fun base => base.rememberPrepare host input id :=
  fun _ _ => rfl

theorem ChunkFree.rememberEdit (input : EditInteraction J) :
    ChunkFree fun base => base.rememberEdit host input := fun _ _ => rfl

theorem ChunkFree.supersede (r : Interaction J) :
    ChunkFree fun base => base.supersede r := by
  intro base chunks
  unfold InteractionStore.supersede
  split_ifs <;> rfl

theorem Readable.onBase (h : s.Readable text)
    (f : InteractionStore J → InteractionStore J) :
    (s.onBase f).Readable text := h

theorem mapM_eq_some {f : ℕ → Option JsString} {g : ℕ → JsString}
    {indexes : List ℕ} (h : ∀ index ∈ indexes, f index = some (g index)) :
    indexes.mapM f = some (indexes.map g) := by
  induction indexes with
  | nil => rfl
  | cons index indexes ih =>
      rw [List.mapM_cons, h index List.mem_cons_self,
        ih fun other hother => h other (List.mem_cons_of_mem _ hother)]
      rfl

theorem chunkIndexes_putChunks (s : KeyStore J) (id : String)
    (payload : JsString) :
    (s.putChunks id payload).chunkIndexes id =
      List.range (sliceCount chunkUnits payload) := by
  simp [putChunks, chunkIndexes]

theorem chunkIndexes_putChunks_ne_nil (s : KeyStore J) (id : String)
    (values : JsonFields J) :
    (s.putChunks id (text.stringify values)).chunkIndexes id ≠ [] := by
  have hpos : 0 < sliceCount chunkUnits (text.stringify values) :=
    sliceCount_pos (by decide) (text.stringify_ne_nil values)
  rw [chunkIndexes_putChunks, Ne, List.range_eq_nil]
  omega

theorem decode_putChunks (s : KeyStore J) (id : String)
    (values : JsonFields J) :
    (s.putChunks id (text.stringify values)).decode text id = some values := by
  unfold decode
  rw [chunkIndexes_putChunks,
    @mapM_eq_some _ (sliceOf chunkUnits (text.stringify values))]
  · rw [Option.bind_some, slices_flatten (by decide)]
    exact text.parse_stringify values
  · intro index hindex
    simp [putChunks, List.mem_range.mp hindex]

theorem chunkIndexes_deleteChunks (s : KeyStore J) (id : String) :
    (s.deleteChunks id).chunkIndexes id = [] := by
  simp [deleteChunks, chunkIndexes]

/-- Only the keys of one record's chunks change. -/
structure ChangesChunks (s s' : KeyStore J) (id : String) : Prop where
  base : s'.base = s.base
  counts : ∀ i, i ≠ id → s'.counts i = s.counts i
  parts : ∀ i, i ≠ id → s'.parts i = s.parts i

theorem putChunks_changes (s : KeyStore J) (id : String)
    (payload : JsString) : s.ChangesChunks (s.putChunks id payload) id := by
  constructor
  · rfl
  · intro i hi
    exact Function.update_of_ne hi _ _
  · intro i hi
    exact Function.update_of_ne hi _ _

theorem deleteChunks_changes (s : KeyStore J) (id : String) :
    s.ChangesChunks (s.deleteChunks id) id := by
  constructor
  · rfl
  · intro i hi
    exact Function.update_of_ne hi _ _
  · intro i hi
    exact Function.update_of_ne hi _ _

theorem ChangesChunks.chunkIndexes {s s' : KeyStore J} {id : String}
    (h : s.ChangesChunks s' id) {i : String} (hi : i ≠ id) :
    s'.chunkIndexes i = s.chunkIndexes i := by
  unfold KeyStore.chunkIndexes
  rw [h.counts i hi]

theorem ChangesChunks.decode {s s' : KeyStore J} {id : String}
    (h : s.ChangesChunks s' id) {i : String} (hi : i ≠ id) :
    s'.decode text i = s.decode text i := by
  unfold KeyStore.decode
  rw [h.chunkIndexes hi, h.parts i hi]

theorem Readable.changes {s s' : KeyStore J} {id : String}
    (h : s.Readable text) (hchanges : s.ChangesChunks s' id)
    (hid : s'.chunkIndexes id ≠ [] →
      ∃ values, s'.decode text id = some values) : s'.Readable text := by
  intro i hchunks
  by_cases hi : i = id
  · subst hi
    exact hid hchunks
  · rw [hchanges.chunkIndexes hi] at hchunks
    rw [hchanges.decode hi]
    exact h i hchunks

theorem ChangesChunks.decoded {s s' : KeyStore J} {id : String}
    (h : s.ChangesChunks s' id) {chunk : Option (JsonFields J)}
    (hchunk : (s'.decoded text).chunks id = chunk) :
    s'.decoded text = { s.decoded text with
        chunks := Function.update (s.decoded text).chunks id chunk } := by
  have hchunks : (s'.decoded text).chunks =
      Function.update (s.decoded text).chunks id chunk := by
    funext i
    by_cases hi : i = id
    · subst hi
      rw [hchunk, Function.update_self]
    · rw [Function.update_of_ne hi]
      simp only [KeyStore.decoded, h.chunkIndexes hi, h.decode hi]
  calc s'.decoded text =
      { s'.base with chunks := (s'.decoded text).chunks } := rfl
    _ = _ := by rw [h.base, hchunks]; rfl

theorem decoded_putChunks (s : KeyStore J) (id : String)
    (values : JsonFields J) :
    (s.putChunks id (text.stringify values)).decoded text =
      { s.decoded text with
        chunks := Function.update (s.decoded text).chunks id
          (some values) } := by
  apply (putChunks_changes s id _).decoded
  simp [decoded, chunkIndexes_putChunks_ne_nil, decode_putChunks]

theorem decoded_deleteChunks (s : KeyStore J) (id : String) :
    (s.deleteChunks id).decoded text = { s.decoded text with
        chunks := Function.update (s.decoded text).chunks id none } := by
  apply (deleteChunks_changes s id).decoded
  simp [decoded, chunkIndexes_deleteChunks]

/-! ## The operations through the chunks -/

/-- The outcome is the store's, and leaves chunks that can be read. -/
structure Agrees (text : ValueText J) {β : Type}
    (left : Except InteractionError (β × KeyStore J))
    (right : Except InteractionError (β × InteractionStore J)) : Prop where
  seen : (left.map fun o => (o.1, o.2.decoded text)) = right
  readable : ∀ o s', left = .ok (o, s') → s'.Readable text

theorem Agrees.error {β : Type} (e : InteractionError) :
    Agrees (β := β) text (.error e) (.error e) := by
  constructor
  · rfl
  · intro o s' hok
    cases hok

theorem Agrees.ok {β : Type} (o : β)
    {store : InteractionStore J} (h : s.Readable text)
    (hseen : s.decoded text = store) :
    Agrees text (.ok (o, s)) (.ok (o, store)) := by
  constructor
  · rw [← hseen]
    rfl
  · intro o' s' hok
    cases hok
    exact h

theorem Agrees.of_ok {β : Type} {o : β}
    {left : Except InteractionError (β × KeyStore J)}
    {right : Except InteractionError (β × InteractionStore J)}
    {store : InteractionStore J} (h : Agrees text left right)
    (hright : right = .ok (o, store)) :
    ∃ s, left = .ok (o, s) ∧ s.decoded text = store ∧ s.Readable text := by
  cases left with
  | error e =>
      have hseen := h.seen.trans hright
      cases hseen
  | ok answer =>
      rcases answer with ⟨o', s⟩
      have hseen := h.seen.trans hright
      simp only [Except.map, Except.ok.injEq, Prod.mk.injEq] at hseen
      rcases hseen with ⟨rfl, hstore⟩
      exact ⟨s, rfl, hstore, h.readable o' s rfl⟩

theorem save_agrees (host : InteractionHost J)
    (h : s.Readable text) (r : Interaction J) :
    ((s.save text host r).map fun s => s.decoded text) =
        (s.decoded text).save host r ∧
      ∀ s', s.save text host r = .ok s' → s'.Readable text := by
  unfold save InteractionStore.save
  dsimp only
  generalize (if r.owner.isDomainWrite = true then 2 * 1024 * 1024
    else 96 * 1024) = total
  split_ifs with htotal hsize
  · constructor
    · rfl
    · intro s' hok
      cases hok
  · constructor
    · exact congrArg Except.ok (decoded_onBase s (.putRecord r))
    · intro s' hok
      cases hok
      exact h.onBase _
  · have hreadable : (s.putChunks r.id (text.stringify r.values)).Readable
        text := by
      apply h.changes (putChunks_changes s r.id _)
      intro _
      exact ⟨r.values, decode_putChunks s r.id r.values⟩
    constructor
    · apply congrArg Except.ok
      dsimp only
      rw [decoded_onBase _ (.putRecord _), decoded_putChunks]
      rfl
    · intro s' hok
      cases hok
      exact hreadable.onBase _

theorem Agrees.of_save {β : Type} (h : s.Readable text)
    (r : Interaction J) (o : β)
    {f : InteractionStore J → InteractionStore J} (hf : ChunkFree f) :
    Agrees text ((s.save text host r).map fun s => (o, s.onBase f))
      (((s.decoded text).save host r).map fun store => (o, f store)) := by
  rcases save_agrees host h r with ⟨hseen, hreadable⟩
  rw [← hseen]
  cases hsave : s.save text host r with
  | error e => exact Agrees.error e
  | ok saved =>
      exact Agrees.ok o ((hreadable saved hsave).onBase f)
        (decoded_onBase saved hf)

theorem create_agrees (h : s.Readable text) (now : ℕ)
    (newId : String) (input : PrepareInteraction J) :
    Agrees text (s.create text host now newId input)
      ((s.decoded text).create host now newId input) := by
  unfold create InteractionStore.create
  dsimp only
  rw [show (s.decoded text).recentCards now input.sessionId =
    s.base.recentCards now input.sessionId from rfl]
  split_ifs with hcards
  · exact Agrees.error _
  · rw [← decoded_onBase s (.addKeys _)]
    exact Agrees.of_save (h.onBase _) _ _ (.rememberPrepare _ _)

theorem standing_seen (h : s.Readable text) (now : ℕ)
    (input : PrepareInteraction J) (existing : Interaction J) :
    s.standing text host now input existing =
      (s.decoded text).standing host now input existing := by
  unfold standing
  rw [load_eq h]
  split_ifs <;> rfl

theorem prepare_agrees (host : InteractionHost J)
    (h : s.Readable text) (now : ℕ) (newId : String) (input : PrepareInteraction J) :
    Agrees text (s.prepare text host now newId input)
      ((s.decoded text).prepare host now newId input) := by
  unfold prepare InteractionStore.prepare
  rw [show (s.decoded text).requests = s.base.requests from rfl]
  cases s.base.requests input.requestId with
  | some mark =>
      dsimp only
      split_ifs with hfingerprint
      · rw [readFrom_eq h]
        cases (s.decoded text).readFrom mark.id input.sessionId with
        | error e => exact Agrees.error e
        | ok r => exact Agrees.ok _ h rfl
      · exact Agrees.error _
  | none =>
      cases InteractionStore.checkPrepare host input with
      | error e => exact Agrees.error e
      | ok _ =>
          dsimp only
          rw [show (s.decoded text).manual = s.base.manual from rfl]
          split_ifs with hmanual
          · exact Agrees.error _
          · rw [show (s.decoded text).ownedRecord = s.base.ownedRecord
              from rfl]
            cases s.base.ownedRecord
                (input.owner.storageKey input.sessionId) with
            | none => exact create_agrees h now newId input
            | some existing =>
                dsimp only
                rw [standing_seen h]
                cases (s.decoded text).standing host now input existing with
                | error e => exact Agrees.error e
                | ok stands =>
                    cases stands with
                    | true =>
                        exact Agrees.ok _ (h.onBase _)
                          (decoded_onBase s (.rememberPrepare _ _))
                    | false =>
                        dsimp only
                        rw [← decoded_onBase s (.supersede existing)]
                        exact create_agrees (h.onBase _) now newId input

theorem applyEdit_chunks (host : InteractionHost J) (base : InteractionStore J)
    (chunks : String → Option (JsonFields J)) (r : Interaction J)
    (newKey : String) (kind : EditKind J) :
    ({ base with chunks := chunks } : InteractionStore J).applyEdit host r
        newKey kind =
      (base.applyEdit host r newKey kind).map fun o =>
        (o.1, { o.2 with chunks := chunks }) := by
  cases kind with
  | update kind =>
      have hupdate : ({ base with chunks := chunks } :
          InteractionStore J).applyUpdate host r kind =
          base.applyUpdate host r kind := by
        cases kind <;> rfl
      simp only [InteractionStore.applyEdit, hupdate]
      cases base.applyUpdate host r kind <;> rfl
  | reserve valuesDigest =>
      simp only [InteractionStore.applyEdit]
      cases InteractionStore.applyReserve host r valuesDigest newKey <;> rfl
  | observe operationKey outcome =>
      simp only [InteractionStore.applyEdit, InteractionStore.applyObserve]
      split_ifs
      · rfl
      · rfl
      · rfl
      · cases outcome <;> rfl

theorem edit_agrees (host : InteractionHost J)
    (h : s.Readable text) (now : ℕ) (newKey : String) (input : EditInteraction J) :
    Agrees text (s.edit text host now newKey input)
      ((s.decoded text).edit host now newKey input) := by
  unfold edit InteractionStore.edit
  rw [show (s.decoded text).recent = s.base.recent from rfl, readFrom_eq h]
  cases (s.base.recent input.id).find? fun recent =>
      decide (recent.requestId = input.requestId) with
  | some previous =>
      dsimp only
      split_ifs with hfingerprint
      · cases (s.decoded text).readFrom input.id input.sessionId with
        | error e => exact Agrees.error e
        | ok r => exact Agrees.ok _ h rfl
      · exact Agrees.error _
  | none =>
      cases (s.decoded text).readFrom input.id input.sessionId with
      | error e => exact Agrees.error e
      | ok r =>
          dsimp only
          cases InteractionStore.checkEdit now input r with
          | error e => exact Agrees.error e
          | ok _ =>
              have happly := applyEdit_chunks host s.base
                (s.decoded text).chunks r newKey input.kind
              rw [show (s.decoded text).applyEdit host r newKey input.kind =
                _ from happly]
              cases s.base.applyEdit host r newKey input.kind with
              | error e => exact Agrees.error e
              | ok edited =>
                  exact Agrees.of_save (s := { s with base := edited.2 }) h _ _
                    (.rememberEdit input)

theorem checkForm_agrees (h : s.Readable text) (now : ℕ)
    (input : CheckDispatch) :
    ((s.checkForm now input).map fun s => s.decoded text) =
        (s.decoded text).checkForm now input ∧
      ∀ s', s.checkForm now input = .ok s' → s'.Readable text := by
  constructor
  · unfold checkForm InteractionStore.checkForm
    rw [show (s.decoded text).owners = s.base.owners from rfl,
      show (s.decoded text).ownedRecord = s.base.ownedRecord from rfl]
    dsimp only
    split_ifs with happroval
    · rfl
    · cases s.base.owners (input.owner.storageKey "") with
      | none => rfl
      | some id =>
          cases s.base.ownedRecord (input.owner.storageKey "") with
          | none => rfl
          | some r =>
              dsimp only
              rw [show (s.decoded text).ownerState now r =
                s.base.ownerState now r from rfl]
              split_ifs with hblocked
              · rfl
              · have hsupersede := ChunkFree.supersede r s.base
                  (s.decoded text).chunks
                rw [show (s.decoded text).supersede r = _ from hsupersede]
                rfl
  · intro s' hok
    unfold checkForm at hok
    cases hcheck : s.base.checkForm now input with
    | error e => simp [hcheck, Except.map] at hok
    | ok base =>
        simp only [hcheck, Except.map, Except.ok.injEq] at hok
        subst hok
        exact h

theorem checkCard_agrees (h : s.Readable text) (now : ℕ)
    (input : CheckDispatch) :
    Agrees text (s.checkCard now input)
      ((s.decoded text).checkCard now input) := by
  unfold checkCard InteractionStore.checkCard
  rw [show (s.decoded text).ownedRecord = s.base.ownedRecord from rfl]
  dsimp only
  cases s.base.ownedRecord (input.owner.storageKey "") with
  | none => exact Agrees.error _
  | some r =>
      dsimp only
      rw [show (s.decoded text).manual = s.base.manual from rfl,
        show (s.decoded text).dispatch = s.base.dispatch from rfl]
      split_ifs with hmanual hreviewed
      · exact Agrees.error _
      · exact Agrees.error _
      · cases r.reservation with
        | none => exact Agrees.error _
        | some res =>
            dsimp only
            split_ifs with hmark
            · exact Agrees.error _
            · exact Agrees.ok _ h rfl

/-- Forgetting asks of a record's chunks only whether there are any. -/
theorem forget_chunks (base : InteractionStore J)
    {chunks marks : String → Option (JsonFields J)}
    (hmarks : ∀ id, (chunks id).isSome = (marks id).isSome) (now : ℕ)
    (id : String) (expiryEntry : Option ExpiryEntry) :
    ({ base with chunks := chunks } : InteractionStore J).forget now id
        expiryEntry =
      { ({ base with chunks := marks } : InteractionStore J).forget now id
          expiryEntry with
        chunks := if (base.records id).isSome then
          Function.update chunks id none else chunks } := by
  unfold InteractionStore.forget
  dsimp only
  cases hr : base.records id with
  | none => rfl
  | some r =>
      have hstate : ∃ state, ∀ t : InteractionStore J,
          t.dispatch = base.dispatch → t.ownerState now r = state := by
        refine ⟨base.ownerState now r, fun t ht => ?_⟩
        unfold InteractionStore.ownerState InteractionStore.dispatched
        rw [ht]
      rcases hstate with ⟨state, hstate⟩
      simp (disch := rfl) only [hmarks id, hstate, Option.isSome_some, if_true]
      split_ifs <;> rfl

theorem forget_decoded (s : KeyStore J) (now : ℕ) (id : String)
    (expiryEntry : Option ExpiryEntry) :
    (s.forget now id expiryEntry).decoded text =
      (s.decoded text).forget now id expiryEntry := by
  have hmarks : ∀ i, ((s.decoded text).chunks i).isSome =
      (s.marked.chunks i).isSome := by
    intro i
    by_cases hchunks : s.chunkIndexes i = [] <;>
      simp [decoded, marked, hchunks]
  have hstore := forget_chunks s.base hmarks now id expiryEntry
  rw [show (s.decoded text).forget now id expiryEntry = _ from hstore]
  unfold forget
  split_ifs with hrecord
  · rw [decoded_deleteChunks]
    rfl
  · rfl

theorem Readable.forget (h : s.Readable text) (now : ℕ)
    (id : String) (expiryEntry : Option ExpiryEntry) :
    (s.forget now id expiryEntry).Readable text := by
  unfold KeyStore.forget
  split_ifs with hrecord
  · apply (h.onBase _).changes (deleteChunks_changes _ id)
    intro hchunks
    exact absurd (chunkIndexes_deleteChunks _ id) hchunks
  · exact h

end KeyStore

end QiForge
