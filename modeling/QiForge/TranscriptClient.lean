import QiForge.Transition
import QiForge.TranscriptPages

/-!
# A client's transcript of a growing thread

The client loads the newest page, walks back with `before`, and folds what it
missed in with `after`, while the thread grows.  As long as no message that
starts a turn stands between a tool result and its call, the loaded pages are
the transcript of the rows they span.
-/

namespace QiForge

section Pages

variable {J : Type}

/-- The loaded pages, newest first, as one transcript. -/
def flattenPages (pages : List (TranscriptPage J)) : List (MessageDto J) :=
  pages.reverse.flatMap TranscriptPage.messages

/-- The page without the messages that are sent again. -/
def TranscriptPage.without (page : TranscriptPage J) (resent : List String) :
    TranscriptPage J :=
  { page with
    messages := page.messages.filter fun m => decide (m.id ∉ resent) }

/-- A page of the tail: what it sends again replaces the loaded copies. -/
def appendTail (pages : List (TranscriptPage J)) (tail : TranscriptPage J) :
    List (TranscriptPage J) :=
  let resent := tail.messages.map MessageDto.id
  match pages.map fun page => page.without resent with
  | [] => [tail]
  | newest :: rest =>
      { newest with
        messages := newest.messages ++ tail.messages
        nextCursor := tail.nextCursor.or newest.nextCursor
        hasNewer := tail.hasNewer } :: rest

end Pages

structure TranscriptClient (J : Type) where
  thread : Thread J
  asOf : Thread J
  pages : List (TranscriptPage J)

inductive ClientEvent (J : Type) where
  | grow (thread : Thread J)
  | newest (limit : ℕ)
  | older (limit : ℕ)
  | newer (limit : ℕ)

namespace TranscriptClient

variable {J : Type} (text : TranscriptText J)

def opened (thread : Thread J) : TranscriptClient J := ⟨thread, thread, []⟩

def newest (s : TranscriptClient J) (limit : ℕ) :
    Option (TranscriptClient J) :=
  (s.thread.pageThreadTranscript text limit none none).toOption.map
    fun page => { s with pages := [page], asOf := s.thread }

/-- From the oldest page's cursor on. -/
def older (s : TranscriptClient J) (limit : ℕ) : Option (TranscriptClient J) :=
  (s.pages.getLast?.bind TranscriptPage.prevCursor).bind fun cursor =>
    (s.thread.pageThreadTranscript text limit (some cursor) none).toOption.map
      fun page => { s with pages := s.pages ++ [page] }

/-- From the newest page's cursor on. -/
def newer (s : TranscriptClient J) (limit : ℕ) : Option (TranscriptClient J) :=
  (s.pages.head?.bind TranscriptPage.nextCursor).bind fun cursor =>
    (s.thread.pageThreadTranscript text limit none (some cursor)).toOption.map
      fun tail =>
        { s with pages := appendTail s.pages tail, asOf := s.thread }

def step [DecidableEq J] (s : TranscriptClient J) :
    ClientEvent J → Option (TranscriptClient J)
  | .grow thread =>
      if s.thread.messages <+: thread.messages then
        some { s with thread := thread }
      else none
  | .newest limit => s.newest text limit
  | .older limit => s.older text limit
  | .newer limit => s.newer text limit

end TranscriptClient

namespace Thread

variable {J : Type} (text : TranscriptText J)

/-- The pages from the cursor back to the first message. -/
def pagesBack (thread : Thread J) (limit : ℕ) :
    ℕ → Option String → List (TranscriptPage J)
  | 0, _ => []
  | rounds + 1, before =>
      match thread.pageThreadTranscript text limit before none with
      | .error _ => []
      | .ok page =>
          match page.prevCursor with
          | none => [page]
          | some cursor =>
              page :: pagesBack thread limit rounds (some cursor)

end Thread

namespace TranscriptText

variable {J : Type} (text : TranscriptText J)

/-- The tool message is the result of a call the listed message makes. -/
def Answers (result call : ThreadMessage J) : Prop :=
  result.type = .tool ∧ call.isSummarization = false ∧
    text.Makes call (text.resultId result)

/-- The `j`th message parts no result at `k` from its call at `i`. -/
def PartsNone (p : ThreadMessage J → Bool) (messages : List (ThreadMessage J))
    (i j k : ℕ) : Prop :=
  ∀ call ∈ messages[i]?, ∀ m ∈ messages[j]?, ∀ result ∈ messages[k]?,
    text.Answers result call → p m = false

/-- A result stands in the turn of its call, when a turn starts at what `p`
says it does. -/
def KeepsTurns (p : ThreadMessage J → Bool)
    (messages : List (ThreadMessage J)) : Prop :=
  ∀ k < messages.length, ∀ j < k, ∀ i < j, text.PartsNone p messages i j k

instance (m : ThreadMessage J) (id : String) : Decidable (text.Makes m id) :=
  inferInstanceAs (Decidable (m.visibleToUser = true ∧
    id ∈ m.toolCalls.map text.callId))

instance (result call : ThreadMessage J) :
    Decidable (text.Answers result call) :=
  inferInstanceAs (Decidable (result.type = .tool ∧
    call.isSummarization = false ∧ text.Makes call (text.resultId result)))

instance (p : ThreadMessage J → Bool) (messages : List (ThreadMessage J))
    (i j k : ℕ) : Decidable (text.PartsNone p messages i j k) :=
  inferInstanceAs (Decidable (∀ call ∈ messages[i]?, ∀ m ∈ messages[j]?,
    ∀ result ∈ messages[k]?, text.Answers result call → p m = false))

instance (p : ThreadMessage J → Bool) (messages : List (ThreadMessage J)) :
    Decidable (text.KeepsTurns p messages) :=
  inferInstanceAs (Decidable (∀ k < messages.length, ∀ j < k, ∀ i < j,
    text.PartsNone p messages i j k))

/-- No message that starts a turn stands between a result and its call. -/
def Unsplit (messages : List (ThreadMessage J)) : Prop :=
  text.KeepsTurns ThreadMessage.startsTurn messages

end TranscriptText

instance {J : Type} (text : TranscriptText J)
    (messages : List (ThreadMessage J)) : Decidable (text.Unsplit messages) :=
  inferInstanceAs
    (Decidable (text.KeepsTurns ThreadMessage.startsTurn messages))

/-- What a person wrote; a re-attached file is no turn of theirs. -/
def ThreadMessage.startsUserTurn {J : Type} (m : ThreadMessage J) : Bool :=
  m.startsTurn && !m.isAttachmentView

section Turns

variable {J : Type} {text : TranscriptText J}

/-- The messages begin with one that starts a turn. -/
def OpensTurn (messages : List (ThreadMessage J)) : Prop :=
  ∃ m ∈ messages.head?, m.startsTurn = true

theorem OpensTurn.append {front : List (ThreadMessage J)}
    (h : OpensTurn front) (back : List (ThreadMessage J)) :
    OpensTurn (front ++ back) := by
  rcases h with ⟨m, hm, hstarts⟩
  refine ⟨m, ?_, hstarts⟩
  cases front with
  | nil => cases hm
  | cons first front => exact hm

variable {pre front back post : List (ThreadMessage J)}

/-- A turn start parts the results after it from the calls before it. -/
theorem TranscriptText.Unsplit.parts
    (h : text.Unsplit (pre ++ (front ++ back) ++ post))
    (hopens : OpensTurn back) :
    ∀ result ∈ back, result.type = .tool → ∀ call ∈ front,
      call.isSummarization = false →
      ¬ text.Makes call (text.resultId result) := by
  intro result hresult htool call hcall hlisted hmakes
  rcases hopens with ⟨m, hm, hstarts⟩
  cases back with
  | nil => cases hm
  | cons first rest =>
      obtain rfl : first = m := Option.some.inj hm
      rcases List.mem_cons.mp hresult with rfl | hrest
      · unfold ThreadMessage.startsTurn at hstarts
        rw [htool] at hstarts
        simp at hstarts
      · rcases List.mem_iff_getElem.mp hcall with ⟨i, hi, rfl⟩
        rcases List.mem_iff_getElem.mp hrest with ⟨k, hk, rfl⟩
        have hshape : pre ++ (front ++ first :: rest) ++ post =
            (pre ++ front) ++ first :: (rest ++ post) := by simp
        rw [hshape] at h
        have hno := h (pre.length + front.length + 1 + k)
          (by simp only [List.length_append, List.length_cons]; omega)
          (pre.length + front.length) (by omega)
          (pre.length + i) (by omega) front[i]
          (by
            rw [List.getElem?_append_left (by rw [List.length_append]; omega),
              List.getElem?_append_right (by omega),
              Nat.add_sub_cancel_left, List.getElem?_eq_getElem hi]
            rfl)
          first
          (by
            rw [List.getElem?_append_right
              (by rw [List.length_append]), List.length_append]
            simp)
          rest[k]
          (by
            rw [List.getElem?_append_right
              (by rw [List.length_append]; omega), List.length_append]
            have hindex : pre.length + front.length + 1 + k -
                (pre.length + front.length) = k + 1 := by omega
            rw [hindex, List.getElem?_cons_succ,
              List.getElem?_append_left hk, List.getElem?_eq_getElem hk]
            rfl)
          ⟨htool, hlisted, hmakes⟩
        rw [hstarts] at hno
        cases hno

/-- The transcript of two stretches, cut at a turn start. -/
theorem TranscriptText.Unsplit.toPage_append
    (h : text.Unsplit (pre ++ (front ++ back) ++ post))
    (hcut : front = [] ∨ OpensTurn back) :
    text.toPage (front ++ back) = text.toPage front ++ text.toPage back := by
  unfold TranscriptText.toPage
  rcases hcut with rfl | hopens
  · rfl
  · rw [List.filter_append]
    apply text.transform_append
    intro result hresult htool call hcall
    rcases List.mem_filter.mp hcall with ⟨hmem, hlisted⟩
    exact h.parts hopens result (List.mem_of_mem_filter hresult) htool call
      hmem (by simpa using hlisted)

theorem toPage_ids (messages : List (ThreadMessage J)) :
    (text.toPage messages).map MessageDto.id =
      ((messages.filter fun m => !m.isSummarization).filter
        ThreadMessage.visibleToUser).map
        fun m => text.uuidFromString m.id :=
  text.transform_ids _

theorem toPage_ids_append (front back : List (ThreadMessage J)) :
    (text.toPage (front ++ back)).map MessageDto.id =
      (text.toPage front).map MessageDto.id ++
        (text.toPage back).map MessageDto.id := by
  simp [toPage_ids]

/-- The digest of a name is a new name, and is not a UUID. -/
def TranscriptText.Digests (text : TranscriptText J) : Prop :=
  Function.Injective text.digest ∧ ∀ s, isUuid (text.digest s) = false

theorem uuidFromString_injective (h : text.Digests) :
    Function.Injective text.uuidFromString := by
  intro a b hab
  unfold TranscriptText.uuidFromString at hab
  split_ifs at hab with ha hb hb
  · exact hab
  · rw [hab, h.2] at ha
    cases ha
  · rw [← hab, h.2] at hb
    cases hb
  · exact h.1 hab

/-- No id is listed twice. -/
theorem toPage_nodup (h : text.Digests) {messages : List (ThreadMessage J)}
    (hids : (messages.map ThreadMessage.id).Nodup) :
    ((text.toPage messages).map MessageDto.id).Nodup := by
  rw [toPage_ids]
  have hsub : (((messages.filter fun m => !m.isSummarization).filter
      ThreadMessage.visibleToUser).map ThreadMessage.id).Nodup :=
    hids.sublist ((List.filter_sublist.trans List.filter_sublist).map _)
  have hmap := hsub.map (uuidFromString_injective h)
  rwa [List.map_map] at hmap

end Turns

namespace Thread

variable {J : Type} {text : TranscriptText J} {thread : Thread J}

theorem messages_nodup (thread : Thread J) :
    (thread.messages.map ThreadMessage.id).Nodup := by
  unfold messages
  rw [List.map_map]
  exact thread.ids

def idOf (messages : Option (ThreadMessage J)) : Option String :=
  messages.map ThreadMessage.id

variable {limit : ℕ} {front suffix : List (ThreadMessage J)}

/-- Where a page may begin. -/
def Cut (past loaded : List (ThreadMessage J)) : Prop :=
  past = [] ∨ OpensTurn loaded

theorem opensTurn_map {rows : List (ThreadRow J)}
    (h : ∃ row ∈ rows.head?, row.startsTurn = true) :
    OpensTurn (rows.map ThreadRow.message) := by
  rcases h with ⟨row, hrow, hstarts⟩
  refine ⟨row.message, ?_, hstarts⟩
  rw [List.head?_map, Option.mem_def.mp hrow]
  rfl

/-- A page of `pageOlder`: a stretch of the messages that ends where the
cursor stands. -/
theorem pageOlder_spec (text : TranscriptText J) (hlimit : 0 < limit)
    (hmessages : thread.messages = front ++ suffix)
    (before : Option String) (hbefore : before = idOf suffix.head?) :
    ∃ past loaded, front = past ++ loaded ∧ Cut past loaded ∧
      (front ≠ [] → loaded ≠ []) ∧
      thread.pageOlder text before limit = .ok
        { messages := text.toPage loaded
          prevCursor := if past = [] then none else idOf loaded.head?
          nextCursor := idOf loaded.getLast?
          hasOlder := !past.isEmpty
          hasNewer := before.isSome } := by
  unfold messages at hmessages
  rcases List.map_eq_append_iff.mp hmessages with
    ⟨rowsFront, rowsSuffix, hrows, rfl, rfl⟩
  have hanchor : ∃ anchor : Option ThreadAnchor,
      thread.pageOlder text before limit =
        .ok (thread.olderPage text anchor limit) ∧
      anchor.isSome = before.isSome ∧
      thread.Reads .older anchor false rowsFront.reverse := by
    unfold pageOlder
    cases rowsSuffix with
    | nil =>
        rw [hbefore]
        refine ⟨none, rfl, rfl, ?_⟩
        have hreads := reads_newest thread
        rw [hrows, List.append_nil] at hreads
        exact hreads
    | cons row rest =>
        have hid : idOf ((row :: rest).map ThreadRow.message).head? =
            some row.message.id := rfl
        rw [hbefore, hid]
        refine ⟨some row.anchor, ?_, rfl, reads_older hrows⟩
        have hfind := find_anchor hrows
        dsimp only
        rw [hfind]
  rcases hanchor with ⟨anchor, hok, hsome, hreads⟩
  have hrows' : thread.rows = rowsFront.reverse.reverse ++ rowsSuffix := by
    rw [List.reverse_reverse]
    exact hrows
  have hrounds : rowsFront.reverse.length < thread.rounds := by
    unfold rounds
    rw [hrows, List.length_reverse, List.length_append]
    omega
  have hcollect := collectOlder_spec thread.rounds hlimit hrows' hreads hrounds
  rw [Nat.sub_zero] at hcollect
  set page := upToTurn limit rowsFront.reverse with hpage
  rcases upToTurn_prefix limit rowsFront.reverse with ⟨rest, hrest⟩
  rw [← hpage] at hrest
  have hsplit : rowsFront = rest.reverse ++ page.reverse := by
    rw [← List.reverse_append, hrest, List.reverse_reverse]
  have holder : decide (page.length < rowsFront.reverse.length) =
      !rest.isEmpty := by
    rw [← hrest, List.length_append]
    cases rest <;> simp
  refine ⟨rest.reverse.map ThreadRow.message,
    page.reverse.map ThreadRow.message, ?_, ?_, ?_, ?_⟩
  · rw [hsplit, List.map_append]
  · by_cases hnone : rest = []
    · left
      rw [hnone]
      rfl
    · right
      apply opensTurn_map
      rw [List.head?_reverse, hpage]
      apply upToTurn_last
      rw [← hpage, ← hrest, List.length_append]
      have hpos := List.length_pos_iff.mpr hnone
      omega
  · intro hfront hloaded
    rw [List.map_eq_nil_iff, List.reverse_eq_nil_iff] at hloaded
    apply upToTurn_ne_nil limit _ (hpage ▸ hloaded)
    intro hnil
    rw [List.reverse_eq_nil_iff] at hnil
    rw [hnil] at hfront
    exact hfront rfl
  · have hpast : (rest.reverse.map ThreadRow.message = []) ↔ rest = [] := by
      simp
    have hempty : (rest.reverse.map ThreadRow.message).isEmpty =
        rest.isEmpty := by
      cases rest <;> simp
    rw [hok]
    unfold olderPage
    simp only [hcollect, holder, hempty, hsome]
    unfold pageOf idOf
    cases rest with
    | nil =>
        simp
        rfl
    | cons row rest =>
        simp
        exact ⟨rfl, rfl⟩

/-- Nothing follows the cursor. -/
theorem pageNewer_end {m : ThreadMessage J}
    (hmessages : thread.messages = front ++ [m]) :
    thread.pageNewer text m.id limit = .ok ⟨[], none, some m.id, false, false⟩
    := by
  unfold messages at hmessages
  rcases List.map_eq_append_iff.mp hmessages with
    ⟨rowsFront, rowsRow, hrows, rfl, hrow⟩
  rcases List.map_eq_singleton_iff.mp hrow with ⟨row, rfl, rfl⟩
  have hrounds : ([] : List (ThreadRow J)).length < thread.rounds := by
    unfold rounds
    simp
  have hcollect := @collectNewer_spec J thread limit 0 (some row.anchor) []
    (rowsFront ++ [row]) thread.rounds (Nat.zero_le _) (by simpa using hrows)
    (reads_newer hrows) hrounds
  unfold pageNewer
  rw [find_anchor hrows]
  dsimp only
  rw [hcollect]
  rfl

/-- A page of `pageNewer`: the turn the cursor split, when it split one, and
what follows. -/
theorem pageNewer_spec (text : TranscriptText J) (hlimit : 0 < limit)
    {m : ThreadMessage J} {back : List (ThreadMessage J)}
    (hmessages : thread.messages = front ++ m :: back) (hback : back ≠ []) :
    ∃ past turn fresh later, front ++ [m] = past ++ turn ∧
      back = fresh ++ later ∧ fresh ≠ [] ∧ Cut past (turn ++ fresh) ∧
      (∀ x ∈ turn.tail, x.startsTurn = false) ∧
      (turn = [] ∨ Cut past turn) ∧
      thread.pageNewer text m.id limit = .ok
        { messages := text.toPage (turn ++ fresh)
          prevCursor := none
          nextCursor := idOf (turn ++ fresh).getLast?
          hasOlder := false
          hasNewer := !later.isEmpty } := by
  unfold messages at hmessages
  rcases List.map_eq_append_iff.mp hmessages with
    ⟨rowsFront, rowsRest, hrows, rfl, hrest⟩
  rcases List.map_eq_cons_iff.mp hrest with
    ⟨row, rowsBack, rfl, rfl, rfl⟩
  have hrowsBack : rowsBack ≠ [] := by
    rintro rfl
    exact hback rfl
  have hseen : thread.rows = (rowsFront ++ [row]) ++ rowsBack := by
    simpa using hrows
  have hcollect := collectNewer_spec thread.rounds (Nat.zero_le limit) hseen
    (reads_newer hrows) (by
      unfold rounds
      rw [hrows, List.length_append, List.length_cons]
      omega)
  have hrowsHead : thread.rows =
      (row :: rowsFront.reverse).reverse ++ rowsBack := by
    simpa using hrows
  have hhead := collectHead_spec thread.rounds hrowsHead
    (reads_older_inclusive hrows) (by
      unfold rounds
      rw [hrows, List.length_append, List.length_cons, List.length_cons,
        List.length_reverse]
      omega)
  rw [Nat.sub_zero] at hcollect
  set fresh := beforeTurn limit rowsBack with hfresh
  rcases beforeTurn_prefix limit rowsBack with ⟨later, hlater⟩
  rw [← hfresh] at hlater
  have hnewer : decide (fresh.length < rowsBack.length) = !later.isEmpty := by
    rw [← hlater, List.length_append]
    cases later <;> simp
  have hempty : (later.map ThreadRow.message).isEmpty = later.isEmpty := by
    cases later <;> rfl
  have hpage : ∀ turn : List (ThreadRow J),
      thread.pageNewer text row.message.id limit = .ok
        { messages := pageOf text (turn ++ fresh)
          prevCursor := none
          nextCursor := (turn ++ fresh).getLast?.map
            fun row => row.message.id
          hasOlder := false
          hasNewer := !later.isEmpty } →
      thread.pageNewer text row.message.id limit = .ok
        { messages := text.toPage
            (turn.map ThreadRow.message ++ fresh.map ThreadRow.message)
          prevCursor := none
          nextCursor := idOf (turn.map ThreadRow.message ++
            fresh.map ThreadRow.message).getLast?
          hasOlder := false
          hasNewer := !(later.map ThreadRow.message).isEmpty } := by
    intro turn hok
    rw [hok, hempty, ← List.map_append, List.getLast?_map]
    unfold pageOf idOf
    rw [Option.map_map]
    rfl
  have hback' : rowsBack.map ThreadRow.message =
      fresh.map ThreadRow.message ++ later.map ThreadRow.message := by
    rw [← List.map_append, hlater]
  cases hcases : fresh with
  | nil =>
      exact absurd (hfresh ▸ hcases) (beforeTurn_ne_nil hlimit hrowsBack)
  | cons first rest =>
      rw [hcases] at hcollect hnewer hpage hback'
      by_cases hstarts : first.startsTurn = true
      · refine ⟨rowsFront.map ThreadRow.message ++ [row.message], [],
          (first :: rest).map ThreadRow.message,
          later.map ThreadRow.message, by simp, hback', by simp, ?_,
          by simp, Or.inl rfl, ?_⟩
        · exact Or.inr (opensTurn_map ⟨first, rfl, hstarts⟩)
        · apply hpage []
          unfold pageNewer
          rw [find_anchor hrows]
          dsimp only
          rw [hcollect]
          dsimp only
          rw [if_pos hstarts, hnewer]
          rfl
      · set head := upToTurn 1 (row :: rowsFront.reverse) with hheadSet
        rcases upToTurn_prefix 1 (row :: rowsFront.reverse) with
          ⟨older, holder⟩
        rw [← hheadSet] at holder
        have hsplit : rowsFront ++ [row] = older.reverse ++ head.reverse := by
          rw [← List.reverse_append, holder, List.reverse_cons,
            List.reverse_reverse]
        have hcut : Cut (older.reverse.map ThreadRow.message)
            (head.reverse.map ThreadRow.message) := by
          by_cases hnone : older = []
          · left
            rw [hnone]
            rfl
          · right
            apply opensTurn_map
            rw [List.head?_reverse, hheadSet]
            apply upToTurn_last
            rw [← hheadSet, ← holder, List.length_append]
            have hpos := List.length_pos_iff.mpr hnone
            omega
        refine ⟨older.reverse.map ThreadRow.message,
          head.reverse.map ThreadRow.message,
          (first :: rest).map ThreadRow.message,
          later.map ThreadRow.message, ?_, hback', by simp, ?_, ?_,
          Or.inr hcut, ?_⟩
        · rw [← List.map_append, ← hsplit, List.map_append]
          rfl
        · rcases hcut with hnone | hopens
          · exact Or.inl hnone
          · exact Or.inr (hopens.append _)
        · rw [← List.map_tail]
          intro x hx
          rcases List.mem_map.mp hx with ⟨r, hr, rfl⟩
          exact upToTurn_one_tail _ r (hheadSet ▸ hr)
        · apply hpage head.reverse
          unfold pageNewer
          rw [find_anchor hrows]
          dsimp only
          rw [hcollect]
          dsimp only
          rw [if_neg hstarts, hhead, hnewer]

end Thread

section Folding

variable {J : Type}

theorem flattenPages_append (pages : List (TranscriptPage J))
    (page : TranscriptPage J) :
    flattenPages (pages ++ [page]) = page.messages ++ flattenPages pages := by
  simp [flattenPages]

theorem flattenPages_cons (page : TranscriptPage J)
    (pages : List (TranscriptPage J)) :
    flattenPages (page :: pages) = flattenPages pages ++ page.messages := by
  simp [flattenPages]

variable {pages : List (TranscriptPage J)}

/-- The loaded messages that are not sent again, then the tail. -/
theorem flattenPages_appendTail
    (hpages : pages ≠ []) (tail : TranscriptPage J) :
    flattenPages (appendTail pages tail) = (flattenPages pages).filter
        (fun m => decide (m.id ∉ tail.messages.map MessageDto.id)) ++
        tail.messages := by
  set resent := tail.messages.map MessageDto.id with hresent
  cases pages with
  | nil => exact absurd rfl hpages
  | cons newest rest =>
      have hrest : flattenPages (rest.map fun page => page.without resent) =
          (flattenPages rest).filter fun m => decide (m.id ∉ resent) := by
        unfold flattenPages
        rw [← List.map_reverse, List.flatMap_map, List.filter_flatMap]
        rfl
      calc
        flattenPages (appendTail (newest :: rest) tail)
            = flattenPages (rest.map fun page => page.without resent) ++
                ((newest.without resent).messages ++ tail.messages) :=
          flattenPages_cons _ _
        _ = _ := by
          rw [hrest, flattenPages_cons, List.filter_append, List.append_assoc]
          rfl

theorem appendTail_prevCursor (hpages : pages ≠ []) (tail : TranscriptPage J) :
    (appendTail pages tail).getLast?.bind TranscriptPage.prevCursor =
      pages.getLast?.bind TranscriptPage.prevCursor := by
  have hsame : (appendTail pages tail).map TranscriptPage.prevCursor =
      pages.map TranscriptPage.prevCursor := by
    cases pages with
    | nil => exact absurd rfl hpages
    | cons newest rest => simp [appendTail, TranscriptPage.without]
  have hlast : ∀ ps : List (TranscriptPage J),
      ps.getLast?.bind TranscriptPage.prevCursor =
        ((ps.map TranscriptPage.prevCursor).getLast?).join := by
    intro ps
    rw [List.getLast?_map]
    cases ps.getLast? <;> rfl
  rw [hlast, hlast, hsame]

theorem appendTail_head
    {newest : TranscriptPage J} (hpages : pages.head? = some newest)
    (tail : TranscriptPage J) :
    ∃ page, (appendTail pages tail).head? = some page ∧
      page.nextCursor = tail.nextCursor.or newest.nextCursor ∧
      page.hasNewer = tail.hasNewer := by
  cases pages with
  | nil => cases hpages
  | cons first rest =>
      cases hpages
      exact ⟨_, rfl, rfl, rfl⟩

end Folding

namespace TranscriptClient

variable {J : Type} {text : TranscriptText J}
variable {s s' : TranscriptClient J}

/-- The loaded pages are the transcript of a stretch of the thread as it
stood, and their cursors name its ends. -/
structure Spans (text : TranscriptText J) (s : TranscriptClient J)
    (past loaded later : List (ThreadMessage J)) : Prop where
  split : s.asOf.messages = past ++ loaded ++ later
  cut : Thread.Cut past loaded
  flat : flattenPages s.pages = text.toPage loaded
  prev : s.pages.getLast?.bind TranscriptPage.prevCursor =
    if past = [] then none else Thread.idOf loaded.head?
  next : s.pages.head?.bind TranscriptPage.nextCursor =
    Thread.idOf loaded.getLast?
  newer : s.pages.head?.any TranscriptPage.hasNewer = false → later = []

structure Kept (text : TranscriptText J) (s : TranscriptClient J) :
    Prop where
  grown : s.asOf.messages <+: s.thread.messages
  unsplit : text.Unsplit s.thread.messages
  spans : s.pages ≠ [] → ∃ past loaded later, s.Spans text past loaded later

theorem pageThread_none (thread : Thread J) (limit : ℕ)
    (before : Option String) :
    thread.pageThreadTranscript text limit before none =
      thread.pageOlder text before (max 1 (min limit transcriptPageMax)) :=
  rfl

theorem limit_pos (limit : ℕ) : 0 < max 1 (min limit transcriptPageMax) :=
  Nat.lt_of_lt_of_le Nat.zero_lt_one (Nat.le_max_left 1 _)

theorem newest_kept (h : s.Kept text) {limit : ℕ}
    (hstep : s.newest text limit = some s') : s'.Kept text := by
  unfold TranscriptClient.newest at hstep
  rcases Option.map_eq_some_iff.mp hstep with ⟨page, hpage, rfl⟩
  rcases Thread.pageOlder_spec text (limit_pos limit)
    (List.append_nil s.thread.messages).symm none rfl with
    ⟨past, loaded, hsplit, hcut, -, hok⟩
  rw [pageThread_none, hok] at hpage
  cases hpage
  constructor
  · exact List.prefix_refl _
  · exact h.unsplit
  · intro _
    refine ⟨past, loaded, [], ?_, hcut, ?_, rfl, rfl, fun _ => rfl⟩
    · rw [List.append_nil]
      exact hsplit
    · simp [flattenPages]

theorem idOf_head_append {loaded : List (ThreadMessage J)}
    (hloaded : loaded ≠ []) (rest : List (ThreadMessage J)) :
    Thread.idOf (loaded ++ rest).head? = Thread.idOf loaded.head? := by
  cases loaded with
  | nil => exact absurd rfl hloaded
  | cons m loaded => rfl

theorem older_kept (h : s.Kept text) {limit : ℕ}
    (hstep : s.older text limit = some s') : s'.Kept text := by
  unfold TranscriptClient.older at hstep
  rcases Option.bind_eq_some_iff.mp hstep with ⟨cursor, hcursor, hmap⟩
  rcases Option.map_eq_some_iff.mp hmap with ⟨page, hpage, rfl⟩
  have hpages : s.pages ≠ [] := by
    rintro hnil
    rw [hnil] at hcursor
    cases hcursor
  rcases h.spans hpages with ⟨past, loaded, later, hs⟩
  rw [hs.prev] at hcursor
  have hpast : past ≠ [] := by
    rintro rfl
    simp at hcursor
  rw [if_neg hpast] at hcursor
  have hloaded : loaded ≠ [] := by
    rintro rfl
    cases hcursor
  rcases h.grown with ⟨new, hnew⟩
  have hthread : s.thread.messages = past ++ (loaded ++ (later ++ new)) := by
    rw [← hnew, hs.split]
    simp
  rcases Thread.pageOlder_spec text (limit_pos limit) hthread
    (some cursor) (by rw [idOf_head_append hloaded]; exact hcursor.symm) with
    ⟨past', loaded', hsplit, hcut, hsome, hok⟩
  rw [pageThread_none, hok] at hpage
  cases hpage
  have hopens : OpensTurn loaded := by
    rcases hs.cut with hnil | hopens
    · exact absurd hnil hpast
    · exact hopens
  have hloaded' := hsome hpast
  refine { h with spans := ?_ }
  · intro _
    refine ⟨past', loaded' ++ loaded, later, ?_, ?_, ?_, ?_, ?_, ?_⟩
    · rw [hs.split, hsplit]
      simp
    · rcases hcut with hnil | hopens'
      · exact Or.inl hnil
      · exact Or.inr (hopens'.append loaded)
    · dsimp only
      rw [flattenPages_append, hs.flat]
      have hunsplit := h.unsplit
      rw [hthread, hsplit] at hunsplit
      have hshape : past' ++ loaded' ++ (loaded ++ (later ++ new)) =
          past' ++ (loaded' ++ loaded) ++ (later ++ new) := by simp
      rw [hshape] at hunsplit
      exact (hunsplit.toPage_append (Or.inr hopens)).symm
    · dsimp only
      rw [List.getLast?_concat, idOf_head_append hloaded']
      rfl
    · dsimp only
      rw [List.head?_append_of_ne_nil _ hpages, hs.next,
        List.getLast?_append_of_ne_nil _ hloaded]
    · dsimp only
      rw [List.head?_append_of_ne_nil _ hpages]
      exact hs.newer

/-- The split turn ends the loaded stretch. -/
theorem split_turn {past loaded older turn : List (ThreadMessage J)}
    (hsame : past ++ loaded = older ++ turn) (hcut : Thread.Cut past loaded)
    (hloaded : loaded ≠ [])
    (htail : ∀ x ∈ turn.tail, x.startsTurn = false) :
    ∃ kept, loaded = kept ++ turn ∧ older = past ++ kept := by
  rcases List.append_eq_append_iff.mp hsame with
    ⟨kept, hold, hload⟩ | ⟨extra, hpast, hturn⟩
  · exact ⟨kept, hload, hold⟩
  · cases extra with
    | nil =>
        refine ⟨[], ?_, ?_⟩
        · simpa using hturn.symm
        · simpa using hpast.symm
    | cons m extra =>
        rcases hcut with hnil | ⟨first, hfirst, hstarts⟩
        · rw [hnil] at hpast
          simp at hpast
        · cases loaded with
          | nil => exact absurd rfl hloaded
          | cons x rest =>
              obtain rfl : x = first := Option.some.inj hfirst
              have hmem : x ∈ turn.tail := by
                rw [hturn]
                simp
              rw [htail x hmem] at hstarts
              cases hstarts

/-- What the tail sends again are the loaded messages of the split turn. -/
theorem filter_resent (hdigests : text.Digests)
    {kept turn fresh : List (ThreadMessage J)}
    (hids : ((kept ++ (turn ++ fresh)).map ThreadMessage.id).Nodup) :
    ((text.toPage kept ++ text.toPage turn).filter fun m =>
        decide (m.id ∉ (text.toPage (turn ++ fresh)).map MessageDto.id)) =
      text.toPage kept := by
  have hnodup := toPage_nodup hdigests hids
  rw [toPage_ids_append, List.nodup_append] at hnodup
  rw [List.filter_append, List.filter_eq_self.mpr, List.filter_eq_nil_iff.mpr,
    List.append_nil]
  · intro m hm hnot
    apply of_decide_eq_true hnot
    rw [toPage_ids_append]
    exact List.mem_append_left _ (List.mem_map_of_mem hm)
  · intro m hm
    apply decide_eq_true
    intro hmem
    exact hnodup.2.2 _ (List.mem_map_of_mem hm) _ hmem rfl

theorem getLast?_idOf {loaded : List (ThreadMessage J)} {cursor : String}
    (h : Thread.idOf loaded.getLast? = some cursor) :
    ∃ init m, loaded = init ++ [m] ∧ m.id = cursor := by
  unfold Thread.idOf at h
  rcases Option.map_eq_some_iff.mp h with ⟨m, hm, hid⟩
  rcases List.getLast?_eq_some_iff.mp hm with ⟨init, hinit⟩
  exact ⟨init, m, hinit, hid⟩

theorem newer_kept (hdigests : text.Digests) (h : s.Kept text) {limit : ℕ}
    (hstep : s.newer text limit = some s') : s'.Kept text := by
  unfold TranscriptClient.newer at hstep
  rcases Option.bind_eq_some_iff.mp hstep with ⟨cursor, hcursor, hmap⟩
  rcases Option.map_eq_some_iff.mp hmap with ⟨tail, htail, rfl⟩
  have hpages : s.pages ≠ [] := by
    intro hnil
    rw [hnil] at hcursor
    cases hcursor
  rcases Option.bind_eq_some_iff.mp hcursor with ⟨newest, hnewest, hnext⟩
  rcases h.spans hpages with ⟨past, loaded, later, hs⟩
  rw [hs.next] at hcursor
  rcases getLast?_idOf hcursor with ⟨init, m, hload, rfl⟩
  have hloaded : loaded ≠ [] := by
    rw [hload]
    simp
  rcases h.grown with ⟨new, hnew⟩
  have hthread : s.thread.messages =
      (past ++ init) ++ m :: (later ++ new) := by
    rw [← hnew, hs.split, hload]
    simp
  change (s.thread.pageNewer text m.id
    (max 1 (min limit transcriptPageMax))).toOption = some tail at htail
  rcases appendTail_head hnewest tail with ⟨page, hpage, hpageNext, hpageNewer⟩
  constructor
  · exact List.prefix_refl _
  · exact h.unsplit
  · intro _
    by_cases hback : later ++ new = []
    · have hend : s.thread.messages = (past ++ init) ++ [m] := by
        rw [hthread, hback]
      rw [Thread.pageNewer_end hend] at htail
      cases htail
      refine ⟨past, loaded, [], ?_, hs.cut, ?_, ?_, ?_, fun _ => rfl⟩
      · dsimp only
        rw [hend, hload]
        simp
      · dsimp only
        rw [flattenPages_appendTail hpages]
        simpa using hs.flat
      · dsimp only
        rw [appendTail_prevCursor hpages]
        exact hs.prev
      · dsimp only
        rw [hpage, Option.bind_some, hpageNext, Option.some_or]
        exact hcursor.symm
    · rcases Thread.pageNewer_spec text (limit_pos limit) hthread
        hback with ⟨older, turn, fresh, later', hsplit, hfresh, hsome, hcut,
          hturn, hturnCut, hok⟩
      rw [hok] at htail
      cases htail
      have hsame : past ++ loaded = older ++ turn := by
        rw [← hsplit, hload, List.append_assoc]
      rcases split_turn hsame hs.cut hloaded hturn with
        ⟨kept, hkept, holder⟩
      have hunsplit := h.unsplit
      have hwhole : s.thread.messages =
          past ++ (kept ++ (turn ++ fresh)) ++ later' := by
        rw [hthread]
        calc
          (past ++ init) ++ m :: (later ++ new)
              = ((past ++ init) ++ [m]) ++ (later ++ new) := by simp
          _ = (older ++ turn) ++ (fresh ++ later') := by
            rw [hsplit, hfresh]
          _ = _ := by
            rw [holder]
            simp
      have hnewCut : kept = [] ∨ OpensTurn (turn ++ fresh) := by
        rcases hcut with hnil | hopens
        · rw [holder] at hnil
          exact Or.inl (List.append_eq_nil_iff.mp hnil).2
        · exact Or.inr hopens
      have hflat : text.toPage loaded =
          text.toPage kept ++ text.toPage turn := by
        rw [hkept]
        rcases hturnCut with rfl | hnil | hopens
        · rw [List.append_nil]
          exact (List.append_nil _).symm
        · rw [holder] at hnil
          rw [(List.append_eq_nil_iff.mp hnil).2]
          rfl
        · have hshape : s.thread.messages =
              past ++ (kept ++ turn) ++ (fresh ++ later') := by
            rw [hwhole]
            simp
          rw [hshape] at hunsplit
          exact hunsplit.toPage_append (Or.inr hopens)
      have hids := s.thread.messages_nodup
      rw [hwhole] at hids hunsplit
      rw [List.map_append, List.map_append] at hids
      have hids' := (List.nodup_append.mp (List.nodup_append.mp hids).1).2.1
      refine ⟨past, kept ++ (turn ++ fresh), later', hwhole, ?_, ?_, ?_, ?_,
        ?_⟩
      · rcases hs.cut with hnil | hopens
        · exact Or.inl hnil
        · rw [hkept] at hopens
          right
          have hlonger := hopens.append fresh
          rwa [List.append_assoc] at hlonger
      · dsimp only
        rw [flattenPages_appendTail hpages, hs.flat, hflat,
          filter_resent hdigests hids']
        exact (hunsplit.toPage_append hnewCut).symm
      · dsimp only
        rw [appendTail_prevCursor hpages, hs.prev, hkept]
        by_cases hpast : past = []
        · rw [if_pos hpast, if_pos hpast]
        · rw [if_neg hpast, if_neg hpast, ← List.append_assoc, ← hkept,
            idOf_head_append hloaded]
      · dsimp only
        rw [hpage, Option.bind_some, hpageNext]
        have hlast : (kept ++ (turn ++ fresh)).getLast? =
            (turn ++ fresh).getLast? := by
          apply List.getLast?_append_of_ne_nil
          simp [hsome]
        rw [hlast]
        cases hfinal : Thread.idOf (turn ++ fresh).getLast? with
        | none =>
            unfold Thread.idOf at hfinal
            rw [Option.map_eq_none_iff, List.getLast?_eq_none_iff] at hfinal
            exact absurd (List.append_eq_nil_iff.mp hfinal).2 hsome
        | some last => rfl
      · dsimp only
        rw [hpage, Option.any_some, hpageNewer]
        intro hnone
        cases later' with
        | nil => rfl
        | cons x later' => cases hnone

/-- The thread grows only so that no turn start parts a result from its
call. -/
def GrowsUnsplit (text : TranscriptText J) (_ : TranscriptClient J) :
    ClientEvent J → Prop
  | .grow thread => text.Unsplit thread.messages
  | .newest _ | .older _ | .newer _ => True

/-- The loaded messages are the transcript of a stretch of the thread as it
stood at the last page, none twice, and of all of it once both ends are
reached. -/
structure Faithful (text : TranscriptText J) (s : TranscriptClient J) :
    Prop where
  stretch : s.pages ≠ [] → ∃ past loaded later,
    s.asOf.messages = past ++ loaded ++ later ∧
      flattenPages s.pages = text.toPage loaded
  once : ((flattenPages s.pages).map MessageDto.id).Nodup
  whole : s.pages ≠ [] →
    s.pages.getLast?.bind TranscriptPage.prevCursor = none →
    s.pages.head?.any TranscriptPage.hasNewer = false →
    flattenPages s.pages = text.toPage s.asOf.messages

theorem step_kept [DecidableEq J] (hdigests : text.Digests)
    (h : s.Kept text) {e : ClientEvent J} (hgrows : s.GrowsUnsplit text e)
    (hstep : s.step text e = some s') : s'.Kept text := by
  cases e with
  | grow thread =>
      rcases Option.ite_none_right_eq_some.mp hstep with ⟨hlonger, hsome⟩
      cases hsome
      constructor
      · exact h.grown.trans hlonger
      · exact hgrows
      · intro hpages
        rcases h.spans hpages with ⟨past, loaded, later, hs⟩
        exact ⟨past, loaded, later, hs.split, hs.cut, hs.flat, hs.prev,
          hs.next, hs.newer⟩
  | newest limit => exact newest_kept h hstep
  | older limit => exact older_kept h hstep
  | newer limit => exact newer_kept hdigests h hstep

theorem Kept.faithful (hdigests : text.Digests) (h : s.Kept text) :
    s.Faithful text := by
  constructor
  · intro hpages
    rcases h.spans hpages with ⟨past, loaded, later, hs⟩
    exact ⟨past, loaded, later, hs.split, hs.flat⟩
  · by_cases hpages : s.pages = []
    · rw [hpages]
      exact List.nodup_nil
    · rcases h.spans hpages with ⟨past, loaded, later, hs⟩
      rw [hs.flat]
      apply toPage_nodup hdigests
      have hids := s.asOf.messages_nodup
      rw [hs.split] at hids
      simp only [List.map_append] at hids
      exact (List.nodup_append.mp (List.nodup_append.mp hids).1).2.1
  · intro hpages hprev hnewer
    rcases h.spans hpages with ⟨past, loaded, later, hs⟩
    have hlater := hs.newer hnewer
    have hpast : past = [] := by
      by_contra hsome
      rw [hs.prev, if_neg hsome] at hprev
      rcases hs.cut with hnil | ⟨m, hm, -⟩
      · exact hsome hnil
      · unfold Thread.idOf at hprev
        rw [Option.mem_def.mp hm] at hprev
        cases hprev
    rw [hs.flat, hs.split, hpast, hlater]
    simp

end TranscriptClient

namespace Thread

variable {J : Type} (text : TranscriptText J)

/-- Following `before` from the newest page ends at the first message, and the
pages are the whole transcript, no message twice. -/
structure TilesBack (thread : Thread J) (limit : ℕ) : Prop where
  ends : thread.pagesBack text limit thread.rounds none ≠ [] ∧
    (thread.pagesBack text limit thread.rounds none).getLast?.bind
      TranscriptPage.prevCursor = none
  whole : flattenPages (thread.pagesBack text limit thread.rounds none) =
    text.toPage thread.messages
  once : ((flattenPages (thread.pagesBack text limit thread.rounds
    none)).map MessageDto.id).Nodup

variable {text}
variable {thread : Thread J}

/-- The pages from a cursor on are the transcript of what is older. -/
theorem pagesBack_spec (hunsplit : text.Unsplit thread.messages) (limit : ℕ)
    (rounds : ℕ) {front suffix : List (ThreadMessage J)}
    (hmessages : thread.messages = front ++ suffix)
    (before : Option String) (hbefore : before = idOf suffix.head?)
    (hrounds : front.length < rounds) :
    thread.pagesBack text limit rounds before ≠ [] ∧
      (thread.pagesBack text limit rounds before).getLast?.bind
        TranscriptPage.prevCursor = none ∧
      flattenPages (thread.pagesBack text limit rounds before) =
        text.toPage front := by
  induction rounds generalizing front suffix before with
  | zero => omega
  | succ rounds ih =>
      rcases pageOlder_spec text (TranscriptClient.limit_pos limit)
        hmessages before hbefore with
        ⟨past, loaded, hsplit, hcut, hsome, hok⟩
      unfold pagesBack
      rw [TranscriptClient.pageThread_none, hok]
      by_cases hpast : past = []
      · rw [if_pos hpast]
        rw [hpast, List.nil_append] at hsplit
        refine ⟨by simp, rfl, ?_⟩
        simp [flattenPages, hsplit]
      · have hopens : OpensTurn loaded := by
          rcases hcut with hnil | hopens
          · exact absurd hnil hpast
          · exact hopens
        rcases hopens with ⟨m, hm, hstarts⟩
        have hhead : idOf loaded.head? = some m.id := by
          unfold idOf
          rw [Option.mem_def.mp hm]
          rfl
        have hloaded : loaded ≠ [] := by
          rintro rfl
          cases hm
        rw [if_neg hpast, hhead]
        have hmessages' : thread.messages = past ++ (loaded ++ suffix) := by
          rw [hmessages, hsplit, List.append_assoc]
        have hshort : past.length < rounds := by
          have hpos := List.length_pos_iff.mpr hloaded
          rw [hsplit, List.length_append] at hrounds
          omega
        rcases ih hmessages' (some m.id)
          (by rw [TranscriptClient.idOf_head_append hloaded, hhead])
          hshort with ⟨hpages, hprev, hflat⟩
        refine ⟨by simp, ?_, ?_⟩
        · rw [List.getLast?_cons_of_ne_nil hpages]
          exact hprev
        · rw [flattenPages_cons, hflat, hsplit]
          have hshape : thread.messages = [] ++ (past ++ loaded) ++ suffix := by
            rw [hmessages', List.nil_append, List.append_assoc]
          rw [hshape] at hunsplit
          exact (hunsplit.toPage_append (Or.inr ⟨m, hm, hstarts⟩)).symm

theorem tilesBack (hdigests : text.Digests)
    (hunsplit : text.Unsplit thread.messages) (limit : ℕ) :
    thread.TilesBack text limit := by
  have hrounds : thread.messages.length < thread.rounds := by
    unfold rounds messages
    rw [List.length_map]
    omega
  rcases pagesBack_spec hunsplit limit thread.rounds
    (List.append_nil thread.messages).symm none rfl hrounds with
    ⟨hpages, hprev, hflat⟩
  constructor
  · exact ⟨hpages, hprev⟩
  · exact hflat
  · rw [hflat]
    exact toPage_nodup hdigests thread.messages_nodup

end Thread

namespace TranscriptClient

variable {J : Type} [DecidableEq J]

instance GrowsUnsplit.decidable (text : TranscriptText J)
    (s : TranscriptClient J) :
    (e : ClientEvent J) → Decidable (s.GrowsUnsplit text e)
  | .grow thread =>
      inferInstanceAs (Decidable
        (text.KeepsTurns ThreadMessage.startsTurn thread.messages))
  | .newest _ | .older _ | .newer _ => isTrue trivial

/-- Texts as they are; names that are UUIDs need no digest. -/
def plainText : TranscriptText String where
  stringify := id
  contentJson := fun content => "\"" ++ contentToText content ++ "\""
  digest := fun s => String.ofList ('#' :: s.toList)
  artifactText := fun _ result => result
  sentFileText := some

theorem plainText_digests : plainText.Digests := by
  constructor
  · intro a b hab
    have hlists := congrArg String.toList hab
    simpa [plainText, String.toList_inj] using hlists
  · intro s
    simp [plainText, isUuid, isHexDigit]

def uuidOf (digit : Char) : String :=
  String.ofList ("00000000-0000-4000-8000-00000000000".toList ++ [digit])

def asked (digit : Char) : ThreadMessage String :=
  { type := .human, id := uuidOf digit, content := .text "see" }

def replied (digit : Char) (calls : List String) : ThreadMessage String :=
  { type := .ai, id := uuidOf digit, content := .text ""
    toolCalls := calls.map fun c => ⟨"search", c, some c⟩ }

def found (digit : Char) (call : String) : ThreadMessage String :=
  { type := .tool, id := uuidOf digit, content := .text "found"
    toolCallId := some call }

def viewed (digit : Char) : ThreadMessage String :=
  { type := .human, id := uuidOf digit, content := .text "Re-attached"
    kwargs := { lcSource := some attachmentViewSource } }

def askedThread : Thread String where
  rows := [⟨asked '1', ⟨"1", 1⟩⟩, ⟨replied '2' ["a"], ⟨"2", 2⟩⟩]
  sorted := by decide +kernel
  ids := by decide +kernel

/-- The call is answered, and another message comes. -/
def answeredThread : Thread String where
  rows := [⟨asked '1', ⟨"1", 7⟩⟩, ⟨replied '2' ["a"], ⟨"2", 8⟩⟩,
    ⟨found '3' "a", ⟨"2", 9⟩⟩, ⟨asked '4', ⟨"3", 10⟩⟩]
  sorted := by decide +kernel
  ids := by decide +kernel

def answeredLater : List (ClientEvent String) :=
  [.newest 1, .grow answeredThread, .newer 1]

/-- One of two calls looks at a file again, so a re-attached file stands
between the other call and its result. -/
def viewedThread : Thread String where
  rows := [⟨asked '1', ⟨"1", 1⟩⟩, ⟨replied '2' ["a", "b"], ⟨"2", 2⟩⟩,
    ⟨found '3' "a", ⟨"2", 3⟩⟩, ⟨viewed '4', ⟨"2", 4⟩⟩,
    ⟨found '5' "b", ⟨"2", 5⟩⟩]
  sorted := by decide +kernel
  ids := by decide +kernel

end TranscriptClient

end QiForge
