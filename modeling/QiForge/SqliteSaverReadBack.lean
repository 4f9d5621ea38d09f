import QiForge.SqliteSaver

/-!
# What a checkpoint reads back

The rows of a checkpoint come back in array order whatever was stored before:
rows that stay lie in the order of their rowids, and from the first one that
does not every row is new.  What they hold is another matter: a message found
unchanged is not written when its row stays, and the row holds what was last
stored under the message's id, which need not have come from this object.
-/

namespace QiForge

section Loop

variable {new : MessageRowid} {t0 : MessageTable}
variable {id : CheckpointId} {w : RowWriter} {r : EncodedMessageRow}
variable {rest : List EncodedMessageRow}

def rowidOf (table : MessageTable) (key : String) : Option ℤ :=
  (table.find key).map TableRow.rowid

/-- The messages whose rows stay where they are. -/
def keptIds (table : MessageTable) (last : ℤ) : List String → List String
  | [] => []
  | key :: rest =>
      match rowidOf table key with
      | none => []
      | some rowid =>
          if last < rowid then key :: keptIds table rowid rest else []

theorem find_of_mem_keptIds {table : MessageTable} {last : ℤ}
    {keys : List String} {key : String}
    (h : key ∈ keptIds table last keys) :
    ∃ row, table.find key = some row := by
  induction keys generalizing last with
  | nil => exact absurd h List.not_mem_nil
  | cons first rest ih =>
      unfold keptIds at h
      cases hrowid : rowidOf table first with
      | none => simp [hrowid] at h
      | some rowid =>
          rw [hrowid] at h
          dsimp only at h
          split_ifs at h
          · rcases List.mem_cons.mp h with rfl | hrest
            · unfold rowidOf at hrowid
              rcases Option.map_eq_some_iff.mp hrowid with ⟨row, hrow, -⟩
              exact ⟨row, hrow⟩
            · exact ih hrest
          · exact absurd h List.not_mem_nil

/-- The row is the checkpoint's, or will be once the unchanged rows are
re-keyed. -/
def RowWriter.claims (w : RowWriter) (id : CheckpointId)
    (row : TableRow String StoredMessage) : Bool :=
  decide (row.value.checkpointId = id) || decide (row.key ∈ w.rekey)

def RowWriter.reading (w : RowWriter) (id : CheckpointId) : List Blob :=
  (w.table.rows.filter (w.claims id)).map fun row => row.value.message

theorem reading_rekeyRows :
    (((rekeyRows w.table w.rekey id).rows.filter fun row =>
        decide (row.value.checkpointId = id)).map fun row =>
          row.value.message) = w.reading id := by
  unfold RowWriter.reading rekeyRows RowidTable.mapValues
  rw [List.filter_map, List.map_map]
  congr 1
  · funext row
    simp only [Function.comp_apply]
    split_ifs <;> rfl
  · apply List.filter_congr
    intro row _
    simp only [Function.comp_apply, RowWriter.claims]
    split_ifs with hrekey <;> simp [hrekey]

/-- What the row of a message holds in the end. -/
def landed (table : MessageTable) (kept : List String)
    (r : EncodedMessageRow) : Blob :=
  if r.unchanged && decide (r.messageId ∈ kept) then
    match table.find r.messageId with
    | some row => row.value.message
    | none => r.message
  else r.message

def RowWriter.kept (w : RowWriter) (table : MessageTable)
    (todo : List EncodedMessageRow) : List String :=
  if w.appending then []
  else keptIds table w.lastRowid (todo.map EncodedMessageRow.messageId)

/-- The loop has still to write `todo`. -/
structure Writing (t0 : MessageTable) (id : CheckpointId) (w : RowWriter)
    (todo : List EncodedMessageRow) : Prop where
  nodup : (todo.map EncodedMessageRow.messageId).Nodup
  untouched : w.appending = false → ∀ r ∈ todo,
    w.table.find r.messageId = t0.find r.messageId
  ordered : w.appending = false → ∀ row ∈ w.table.rows,
    w.claims id row = true → row.rowid ≤ w.lastRowid
  unclaimed : ∀ r ∈ todo, ∀ row ∈ w.table.rows,
    row.key = r.messageId → w.claims id row = false

theorem Writing.ne_of_mem (h : Writing t0 id w (r :: rest))
    {later : EncodedMessageRow} (hmem : later ∈ rest) :
    later.messageId ≠ r.messageId := by
  intro hsame
  have hcons := h.nodup
  rw [List.map_cons, List.nodup_cons] at hcons
  exact hcons.1 (hsame ▸ List.mem_map_of_mem hmem)

theorem Writing.nodup_rest (h : Writing t0 id w (r :: rest)) :
    (rest.map EncodedMessageRow.messageId).Nodup := by
  have hcons := h.nodup
  rw [List.map_cons, List.nodup_cons] at hcons
  exact hcons.2

section Keeping

variable {row : TableRow String StoredMessage}

/-- The row a kept message has in the table being written. -/
theorem Writing.mem_of_find (h : Writing t0 id w (r :: rest))
    (happending : w.appending = false)
    (hfind : t0.find r.messageId = some row) :
    row ∈ w.table.rows ∧ row.key = r.messageId := by
  rw [← h.untouched happending r List.mem_cons_self] at hfind
  exact RowidTable.find_eq_some_iff.mp hfind

theorem Writing.filter_kept (h : Writing t0 id w (r :: rest))
    (happending : w.appending = false)
    (hfind : t0.find r.messageId = some row)
    (hlast : w.lastRowid < row.rowid)
    {q : TableRow String StoredMessage → Bool}
    (hq : ∀ other ∈ w.table.rows, q other =
      (w.claims id other || decide (other.key = r.messageId))) :
    w.table.rows.filter q = w.table.rows.filter (w.claims id) ++ [row] := by
  rcases h.mem_of_find happending hfind with ⟨hmem, hkey⟩
  apply RowidTable.filter_concat hmem
  · intro other hother hclaims
    exact (h.ordered happending other hother hclaims).trans_lt hlast
  · rw [hkey]
    exact hq

theorem claims_rekey (other : TableRow String StoredMessage) : ({ w with
        lastRowid := row.rowid
        rekey := w.rekey ++ [r.messageId] } : RowWriter).claims id other =
      (w.claims id other || decide (other.key = r.messageId)) := by
  unfold RowWriter.claims
  rw [Bool.or_assoc]
  congr 1
  simp

theorem Writing.rekeyed (h : Writing t0 id w (r :: rest))
    (happending : w.appending = false)
    (hfind : t0.find r.messageId = some row)
    (hlast : w.lastRowid < row.rowid) :
    Writing t0 id { w with
          lastRowid := row.rowid
          rekey := w.rekey ++ [r.messageId] } rest ∧
      ({ w with
          lastRowid := row.rowid
          rekey := w.rekey ++ [r.messageId] } : RowWriter).reading id =
        w.reading id ++ [row.value.message] := by
  constructor
  · constructor
    · exact h.nodup_rest
    · intro _ later hlater
      exact h.untouched happending later (List.mem_cons_of_mem _ hlater)
    · intro _ other hother hclaims
      rw [claims_rekey, Bool.or_eq_true, decide_eq_true_eq] at hclaims
      rcases hclaims with hold | hkey
      · exact (h.ordered happending other hother hold).trans hlast.le
      · rcases h.mem_of_find happending hfind with ⟨hmem, hrow⟩
        rw [List.inj_on_of_nodup_map w.table.nodup hother hmem
          (hkey.trans hrow.symm)]
    · intro later hlater other hother hkey
      rw [claims_rekey, h.unclaimed later (List.mem_cons_of_mem _ hlater)
        other hother hkey, hkey]
      simpa using h.ne_of_mem hlater
  · unfold RowWriter.reading
    rw [h.filter_kept happending hfind hlast fun other _ =>
      claims_rekey other, List.map_append]
    rfl

/-- The row a kept message has after the update. -/
def updatedRow (id : CheckpointId) (r : EncodedMessageRow)
    (other : TableRow String StoredMessage) :
    TableRow String StoredMessage :=
  { other with
    value := if other.key = r.messageId then ⟨id, r.message⟩
      else other.value }

theorem claims_updatedRow (other : TableRow String StoredMessage) :
    w.claims id (updatedRow id r other) =
      (w.claims id other || decide (other.key = r.messageId)) := by
  unfold RowWriter.claims updatedRow
  by_cases hkey : other.key = r.messageId
  · simp [hkey]
  · simp [hkey]

theorem Writing.updated (h : Writing t0 id w (r :: rest))
    (happending : w.appending = false)
    (hfind : t0.find r.messageId = some row)
    (hlast : w.lastRowid < row.rowid) :
    Writing t0 id { w with
          lastRowid := row.rowid
          table := w.table.update r.messageId ⟨id, r.message⟩ } rest ∧
      ({ w with
          lastRowid := row.rowid
          table := w.table.update r.messageId ⟨id, r.message⟩ } :
            RowWriter).reading id = w.reading id ++ [r.message] := by
  constructor
  · constructor
    · exact h.nodup_rest
    · intro _ later hlater
      rw [RowidTable.find_update_of_ne (h.ne_of_mem hlater)]
      exact h.untouched happending later (List.mem_cons_of_mem _ hlater)
    · intro _ other hother hclaims
      rcases List.mem_map.mp hother with ⟨old, hold, rfl⟩
      change w.claims id (updatedRow id r old) = true at hclaims
      change old.rowid ≤ row.rowid
      rw [claims_updatedRow, Bool.or_eq_true, decide_eq_true_eq] at hclaims
      rcases hclaims with hclaimed | hkey
      · exact (h.ordered happending old hold hclaimed).trans hlast.le
      · rcases h.mem_of_find happending hfind with ⟨hmem, hrow⟩
        rw [List.inj_on_of_nodup_map w.table.nodup hold hmem
          (hkey.trans hrow.symm)]
    · intro later hlater other hother hkey
      rcases List.mem_map.mp hother with ⟨old, hold, rfl⟩
      change w.claims id (updatedRow id r old) = false
      change old.key = later.messageId at hkey
      rw [claims_updatedRow, h.unclaimed later
        (List.mem_cons_of_mem _ hlater) old hold hkey, hkey]
      simpa using h.ne_of_mem hlater
  · change (((w.table.rows.map (updatedRow id r)).filter
      (w.claims id)).map fun row => row.value.message) =
        (w.table.rows.filter (w.claims id)).map
          (fun row => row.value.message) ++ [r.message]
    have hfilter : w.table.rows.filter (w.claims id ∘ updatedRow id r) =
        w.table.rows.filter (w.claims id) ++ [row] :=
      h.filter_kept happending hfind hlast fun other _ =>
        claims_updatedRow other
    rw [List.filter_map, hfilter, List.map_append, List.map_append]
    congr 1
    · rw [List.map_map]
      apply List.map_congr_left
      intro other hother
      rcases List.mem_filter.mp hother with ⟨hmem, hclaims⟩
      have hne : other.key ≠ r.messageId := by
        intro hkey
        rw [h.unclaimed r List.mem_cons_self other hmem hkey] at hclaims
        exact Bool.noConfusion hclaims
      simp [updatedRow, hne]
    · have hkey := (h.mem_of_find happending hfind).2
      simp [updatedRow, hkey]

end Keeping

theorem Writing.appended (h : Writing t0 id w (r :: rest)) : Writing t0 id
        { w with
          appending := true
          table := w.table.replace new r.messageId ⟨id, r.message⟩ } rest ∧
      ({ w with
          appending := true
          table := w.table.replace new r.messageId ⟨id, r.message⟩ } :
            RowWriter).reading id = w.reading id ++ [r.message] := by
  constructor
  · constructor
    · exact h.nodup_rest
    · exact fun happending => absurd happending (by simp)
    · exact fun happending => absurd happending (by simp)
    · intro later hlater other hother hkey
      rcases RowidTable.mem_replace hother with ⟨hold, -⟩ | ⟨hnew, -⟩
      · exact h.unclaimed later (List.mem_cons_of_mem _ hlater) other hold hkey
      · exact absurd (hkey.symm.trans hnew) (h.ne_of_mem hlater)
  · change (((w.table.replace new r.messageId ⟨id, r.message⟩).rows.filter
      (w.claims id)).map fun row => row.value.message) = _
    rw [RowidTable.filter_replace fun other hmem hkey =>
      h.unclaimed r List.mem_cons_self other hmem hkey, List.map_append]
    unfold RowWriter.reading
    congr 1
    simp [RowWriter.claims]

theorem landed_nil (r : EncodedMessageRow) : landed t0 [] r = r.message := by
  simp [landed]

theorem landed_cons_of_ne {kept : List String} {later : EncodedMessageRow}
    (hne : later.messageId ≠ r.messageId) :
    landed t0 (r.messageId :: kept) later = landed t0 kept later := by
  simp [landed, hne]

theorem RowWriter.kept_cons {row : TableRow String StoredMessage}
    (happending : w.appending = false)
    (hfind : t0.find r.messageId = some row)
    (hlast : w.lastRowid < row.rowid) :
    w.kept t0 (r :: rest) = r.messageId :: keptIds t0 row.rowid
        (rest.map EncodedMessageRow.messageId) := by
  have hrowid : rowidOf t0 r.messageId = some row.rowid := by
    simp [rowidOf, hfind]
  simp [RowWriter.kept, happending, keptIds, hrowid, hlast]

theorem RowWriter.kept_eq_nil (h : ∀ row, t0.find r.messageId = some row →
      w.appending = true ∨ ¬w.lastRowid < row.rowid) :
    w.kept t0 (r :: rest) = [] := by
  unfold RowWriter.kept
  cases happending : w.appending with
  | true => simp
  | false =>
      cases hfind : t0.find r.messageId with
      | none => simp [keptIds, rowidOf, hfind]
      | some row =>
          have hle : ¬w.lastRowid < row.rowid := by
            simpa [happending] using h row hfind
          simp [keptIds, rowidOf, hfind, hle]

theorem Writing.writeRow_kept {row : TableRow String StoredMessage}
    (h : Writing t0 id w (r :: rest)) (happending : w.appending = false)
    (hfind : t0.find r.messageId = some row)
    (hlast : w.lastRowid < row.rowid) :
    writeRow new (rowidOf t0) id w r =
      if r.unchanged then
        { w with
          lastRowid := row.rowid
          rekey := w.rekey ++ [r.messageId] }
      else
        { w with
          lastRowid := row.rowid
          table := w.table.update r.messageId ⟨id, r.message⟩ } := by
  have hrowid : rowidOf t0 r.messageId = some row.rowid := by
    simp [rowidOf, hfind]
  have hsome : (w.table.find r.messageId).isSome = true := by
    rw [h.untouched happending r List.mem_cons_self, hfind]
    rfl
  simp [writeRow, hrowid, happending, hlast, RowidTable.upsert, hsome,
    Option.filter]

theorem writeRow_appended (h : ∀ row, t0.find r.messageId = some row →
      w.appending = true ∨ ¬w.lastRowid < row.rowid) :
    writeRow new (rowidOf t0) id w r = { w with
        appending := true
        table := w.table.replace new r.messageId ⟨id, r.message⟩ } := by
  unfold writeRow
  cases hfind : t0.find r.messageId with
  | none => simp [rowidOf, hfind]
  | some row =>
      have hnot : (!w.appending && decide (w.lastRowid < row.rowid)) =
          false := by
        rcases h row hfind with happending | hle
        · simp [happending]
        · simp [hle]
      simp [rowidOf, hfind, Option.filter, hnot]

/-- One round of the loop appends what the message's row holds to the
reading. -/
theorem Writing.writeRow (h : Writing t0 id w (r :: rest)) :
    Writing t0 id (writeRow new (rowidOf t0) id w r) rest ∧
      (QiForge.writeRow new (rowidOf t0) id w r).reading id =
        w.reading id ++ [landed t0 (w.kept t0 (r :: rest)) r] ∧
      ∀ later ∈ rest, landed t0
            ((QiForge.writeRow new (rowidOf t0) id w r).kept t0 rest)
            later =
          landed t0 (w.kept t0 (r :: rest)) later := by
  by_cases hkeeps : ∃ row, t0.find r.messageId = some row ∧
      w.appending = false ∧ w.lastRowid < row.rowid
  · rcases hkeeps with ⟨row, hfind, happending, hlast⟩
    rw [RowWriter.kept_cons happending hfind hlast,
      h.writeRow_kept happending hfind hlast]
    cases hunchanged : r.unchanged with
    | true =>
        rcases h.rekeyed happending hfind hlast with ⟨hwriting, hreading⟩
        refine ⟨hwriting, ?_, ?_⟩
        · rw [if_pos rfl, hreading]
          simp [landed, hunchanged, hfind]
        · intro later hlater
          rw [landed_cons_of_ne (h.ne_of_mem hlater)]
          simp [RowWriter.kept, happending]
    | false =>
        rcases h.updated happending hfind hlast with ⟨hwriting, hreading⟩
        refine ⟨hwriting, ?_, ?_⟩
        · rw [if_neg Bool.false_ne_true, hreading]
          simp [landed, hunchanged]
        · intro later hlater
          rw [landed_cons_of_ne (h.ne_of_mem hlater)]
          simp [RowWriter.kept, happending]
  · have happends : ∀ row, t0.find r.messageId = some row →
        w.appending = true ∨ ¬w.lastRowid < row.rowid := by
      intro row hfind
      by_contra hneither
      rw [not_or, not_not, Bool.not_eq_true] at hneither
      exact hkeeps ⟨row, hfind, hneither⟩
    rcases @Writing.appended new t0 id w r rest h with
      ⟨hwriting, hreading⟩
    rw [RowWriter.kept_eq_nil happends, writeRow_appended happends]
    refine ⟨hwriting, ?_, ?_⟩
    · rw [hreading, landed_nil]
    · intro later _
      simp [RowWriter.kept]

theorem Writing.foldl {todo : List EncodedMessageRow}
    (h : Writing t0 id w todo) :
    (todo.foldl (QiForge.writeRow new (rowidOf t0) id) w).reading id =
      w.reading id ++ todo.map (landed t0 (w.kept t0 todo)) := by
  induction todo generalizing w with
  | nil => simp
  | cons r rest ih =>
      rcases @Writing.writeRow new t0 id w r rest h with
        ⟨hwriting, hreading, hlater⟩
      rw [List.foldl_cons, ih hwriting, hreading, List.append_assoc,
        List.map_congr_left hlater]
      rfl

end Loop

namespace SqliteSaver

/-- A call of `put` that succeeds. -/
structure Put where
  id : CheckpointId
  messages : List MessageState

variable {new : MessageRowid} {s : SqliteSaver}

/-- The messages of the array whose rows stay where they are. -/
def keptMessages (s : SqliteSaver) (messages : List MessageState) :
    List String :=
  keptIds s.table (-1) (messages.map MessageState.id)

/-- The `put` an event carries out. -/
def putOf (s : SqliteSaver) : SaverEvent → Option Put
  | .put id messages => some ⟨id, messages⟩
  | .appendTurnMessages id messages =>
      if s.checkpoints.max?.isNone then some ⟨id, messages⟩ else none
  | _ => none

/-- A `put` has its own checkpoint id and messages with distinct ids. -/
def Admissible (s : SqliteSaver) (e : SaverEvent) : Prop :=
  ∀ call ∈ s.putOf e, call.id ∉ s.checkpoints ∧
    (call.messages.map MessageState.id).Nodup

/-- After a `put` its checkpoint reads back the encodings its messages had at
the call. -/
def ReadsBack (new : MessageRowid) (s : SqliteSaver) (e : SaverEvent) :
    Prop :=
  ∀ call ∈ s.putOf e, ∀ s' ∈ s.step new e, s'.loadCheckpointMessages call.id =
      call.messages.map MessageState.encoding

/-- What is stored or remembered for a message found unchanged is its
encoding: stored, if its row stays, and remembered, if it is written. -/
def EncodingHolds (s : SqliteSaver) (messages : List MessageState)
    (m : MessageState) : Prop :=
  ∀ blob ∈ s.encoded.matching m,
    if m.id ∈ s.keptMessages messages then
      ∀ row ∈ s.table.find m.id, row.value.message = m.encoding
    else blob = m.encoding

def EncodingsHold (s : SqliteSaver) (e : SaverEvent) : Prop :=
  ∀ call ∈ s.putOf e, ∀ m ∈ call.messages, s.EncodingHolds call.messages m

theorem messageId_encodeMessageRow (encoded : EncodedMessages)
    (m : MessageState) : (encodeMessageRow encoded m).messageId = m.id := by
  unfold encodeMessageRow
  cases encoded.matching m <;> rfl

theorem map_messageId (encoded : EncodedMessages)
    (messages : List MessageState) :
    (messages.map (encodeMessageRow encoded)).map EncodedMessageRow.messageId =
      messages.map MessageState.id := by
  rw [List.map_map]
  apply List.map_congr_left
  intro m _
  exact messageId_encodeMessageRow encoded m

theorem claims_fresh {id : CheckpointId} (hfresh : id ∉ s.checkpoints)
    {row : TableRow String StoredMessage} (hmem : row ∈ s.table.rows) :
    RowWriter.claims ⟨s.table, -1, false, []⟩ id row = false := by
  have hne : row.value.checkpointId ≠ id := by
    intro hsame
    exact hfresh (hsame ▸ s.known row hmem)
  simp [RowWriter.claims, hne]

variable {messages : List MessageState}

theorem writing_put {id : CheckpointId} (hfresh : id ∉ s.checkpoints)
    (hnodup : (messages.map MessageState.id).Nodup) :
    Writing s.table id ⟨s.table, -1, false, []⟩
      (messages.map (encodeMessageRow s.encoded)) := by
  constructor
  · rw [map_messageId]
    exact hnodup
  · exact fun _ r _ => rfl
  · intro _ row hmem hclaims
    rw [claims_fresh hfresh hmem] at hclaims
    exact Bool.noConfusion hclaims
  · intro r _ row hmem _
    exact claims_fresh hfresh hmem

/-- A checkpoint reads back one blob per message, in order. -/
theorem loadCheckpointMessages_put {id : CheckpointId}
    (hfresh : id ∉ s.checkpoints)
    (hnodup : (messages.map MessageState.id).Nodup) :
    (s.put new id messages).loadCheckpointMessages id = messages.map fun m =>
        landed s.table (s.keptMessages messages)
          (encodeMessageRow s.encoded m) := by
  have hwriting := writing_put hfresh hnodup
  have hempty : RowWriter.reading ⟨s.table, -1, false, []⟩ id = [] := by
    unfold RowWriter.reading
    rw [List.map_eq_nil_iff, List.filter_eq_nil_iff]
    intro row hmem
    simp [claims_fresh hfresh hmem]
  have hkept : RowWriter.kept ⟨s.table, -1, false, []⟩ s.table
      (messages.map (encodeMessageRow s.encoded)) =
        s.keptMessages messages := by
    unfold RowWriter.kept keptMessages
    rw [map_messageId]
    rfl
  calc
    (s.put new id messages).loadCheckpointMessages id =
        ((messages.map (encodeMessageRow s.encoded)).foldl
          (writeRow new (rowidOf s.table) id)
          ⟨s.table, -1, false, []⟩).reading id := reading_rekeyRows
    _ = _ := by
        rw [hwriting.foldl, hempty, List.nil_append, hkept, List.map_map]
        rfl

theorem landed_eq_encoding_iff {m : MessageState} :
    landed s.table (s.keptMessages messages)
        (encodeMessageRow s.encoded m) = m.encoding ↔
      s.EncodingHolds messages m := by
  unfold landed EncodingHolds encodeMessageRow
  cases hmatching : s.encoded.matching m with
  | none => simp
  | some blob =>
      by_cases hkept : m.id ∈ s.keptMessages messages
      · rcases find_of_mem_keptIds hkept with ⟨row, hrow⟩
        simp [hkept, hrow]
      · simp [hkept]

theorem step_of_putOf {e : SaverEvent} {call : Put}
    (h : s.putOf e = some call) :
    s.step new e = some (s.put new call.id call.messages) := by
  cases e with
  | put id messages =>
      cases h
      rfl
  | appendTurnMessages id messages =>
      unfold putOf at h
      dsimp only at h
      split_ifs at h with hnone
      cases h
      unfold step appendTurnMessages
      dsimp only
      split
      · rfl
      · rename_i existing hsome
        rw [hsome] at hnone
        exact absurd hnone (by simp)
  | _ => exact absurd h (by simp [putOf])

theorem readsBack_iff {e : SaverEvent} (hadmissible : s.Admissible e) :
    s.ReadsBack new e ↔ s.EncodingsHold e := by
  unfold ReadsBack EncodingsHold
  apply forall_congr'
  intro call
  apply forall_congr'
  intro hcall
  rcases hadmissible call hcall with ⟨hfresh, hnodup⟩
  rw [step_of_putOf hcall]
  have hread := @loadCheckpointMessages_put new s _ _ hfresh hnodup
  constructor
  · intro h m hmem
    rw [← landed_eq_encoding_iff]
    have hsame := hread.symm.trans (h _ rfl)
    exact List.map_inj_left.mp hsame m hmem
  · intro h s' hs'
    cases hs'
    rw [hread]
    apply List.map_congr_left
    intro m hmem
    exact landed_eq_encoding_iff.mpr (h m hmem)

section Runs

instance (e : SaverEvent) : Decidable (s.Admissible e) :=
  inferInstanceAs (Decidable (∀ call ∈ s.putOf e,
    call.id ∉ s.checkpoints ∧ (call.messages.map MessageState.id).Nodup))

instance (e : SaverEvent) : Decidable (s.ReadsBack new e) :=
  inferInstanceAs (Decidable (∀ call ∈ s.putOf e, ∀ s' ∈ s.step new e,
    s'.loadCheckpointMessages call.id =
      call.messages.map MessageState.encoding))

instance (messages : List MessageState) (m : MessageState) :
    Decidable (s.EncodingHolds messages m) :=
  inferInstanceAs (Decidable (∀ blob ∈ s.encoded.matching m,
    if m.id ∈ s.keptMessages messages then
      ∀ row ∈ s.table.find m.id, row.value.message = m.encoding
    else blob = m.encoding))

instance (e : SaverEvent) : Decidable (s.EncodingsHold e) :=
  inferInstanceAs (Decidable (∀ call ∈ s.putOf e,
    ∀ m ∈ call.messages, s.EncodingHolds call.messages m))

/-- A human message whose content is the value `content`. -/
def humanMessage (object : Ref) (id : String) (content : UInt8) :
    MessageState where
  object := object
  id := id
  fingerprint :=
    { id := some id
      type := "human"
      content := content.toNat
      toolCalls := 0
      invalidToolCalls := 0
      artifact := 0
      responseMetadata := 0
      usageMetadata := 0
      name := none
      toolCallId := none
      status := none
      kwargs := "" }
  encoding := [content]

/-- A summary goes before the history and its last message is another
object. -/
def summarized : List SaverEvent :=
  [.put 1 [humanMessage 0 "a" 1, humanMessage 1 "b" 2],
    .putFails [humanMessage 2 "b" 3],
    .put 2 [humanMessage 3 "s" 4, humanMessage 0 "a" 1, humanMessage 2 "b" 3]]

/-- An object comes back after another one with its id was stored. -/
def objectComesBack : List SaverEvent :=
  [.put 1 [humanMessage 0 "a" 1], .put 2 [humanMessage 1 "a" 2],
    .put 3 [humanMessage 0 "a" 1]]

/-- A message is appended under an id that is taken and then put. -/
def appendedIdTaken : List SaverEvent := [.put 1 [humanMessage 0 "a" 1],
    .appendTurnMessages 9 [humanMessage 1 "a" 2],
    .put 2 [humanMessage 1 "a" 2]]

end Runs

end SqliteSaver
end QiForge
