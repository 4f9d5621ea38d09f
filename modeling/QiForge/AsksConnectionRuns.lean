import QiForge.AsksConnection

/-!
# A connection stays whole

The invariant of a run in which a sign-in removes the link it has read and is
sent before that expires, and a put of the uploads lands on what was read.
-/

namespace QiForge

namespace AsksAct

/-- The refresh tokens a new pair has come for. -/
def spent (history : List AsksAct) : List String := history.filterMap fun
    | .paired refresh => some refresh
    | _ => none

def issuedStates (history : List AsksAct) : List String :=
  history.filterMap fun
    | .issued pending => some pending.state
    | _ => none

def takenStates (history : List AsksAct) : List String := history.filterMap fun
    | .taken state => some state
    | _ => none

def exchangedStates (history : List AsksAct) : List String :=
  history.filterMap fun
    | .exchanged pending _ _ => some pending.state
    | _ => none

/-- The access tokens asks has refused. -/
def deniedTokens (history : List AsksAct) : List String :=
  history.filterMap fun
    | .denied access => some access
    | _ => none

/-- What has to have happened before, or not to have. -/
def After : AsksAct → List AsksAct → Prop
  | .exchanged pending _ now, older =>
      now < pending.expiresAt ∧ pending.state ∉ exchangedStates older
  | .sent refresh, older => refresh ∉ spent older
  | .handed access stored, _ =>
      ∃ held, stored = some held ∧ held.tokens.access = access
  | .dropping (.refused access) stored, older =>
      access ∈ deniedTokens older ∧
        ∃ held, stored = some held ∧ held.tokens.access = access
  | _, _ => True

def Lawful (history : List AsksAct) : Prop :=
  ∀ newer act older, history = newer ++ act :: older → After act older

/-- The newest link that was issued, until it is taken. -/
def openLink : List AsksAct → Option AsksPending
  | [] => none
  | .issued pending :: _ => some pending
  | .taken state :: older =>
      (openLink older).filter fun pending => decide (pending.state ≠ state)
  | _ :: older => openLink older

/-- Whose sign-in the tokens come from. -/
def signIn : List AsksAct → Option String
  | [] => none
  | .signedIn did :: _ => some did
  | _ :: older => signIn older

/-- The upload last kept for a draft, until a drop begins. -/
def keptUpload (draft : String) : List AsksAct → Option AsksUpload
  | [] => none
  | .kept other upload :: older =>
      if other = draft then some upload else keptUpload draft older
  | .dropping _ _ :: _ => none
  | _ :: older => keptUpload draft older

/-- A `keepUpload` of it has begun since the connection last ended. -/
def Begun (draft : String) (upload : AsksUpload) : List AsksAct → Prop
  | [] => False
  | .keeping other one :: older =>
      other = draft ∧ one = upload ∨ Begun draft upload older
  | .ended :: _ => False
  | _ :: older => Begun draft upload older

theorem mem_spent {refresh : String} {history : List AsksAct}
    (hspent : refresh ∈ spent history) : .paired refresh ∈ history := by
  obtain ⟨act, hact, hrefresh⟩ := List.mem_filterMap.mp hspent
  cases act with
  | paired other =>
      cases hrefresh
      exact hact
  | _ => cases hrefresh

theorem lawful_nil : Lawful [] := by
  intro newer act older heq
  cases newer <;> cases heq

theorem Lawful.cons {act : AsksAct} {history : List AsksAct}
    (h : Lawful history) (hafter : After act history) :
    Lawful (act :: history) := by
  intro newer act' older heq
  cases newer with
  | nil =>
      obtain ⟨rfl, rfl⟩ := List.cons.inj heq
      exact hafter
  | cons first newer => exact h newer act' older (List.cons.inj heq).2

end AsksAct

namespace AsksConnection

open AsksAct

variable {actsFor : AsksTokens → String} {s s' : AsksConnection}
  {now : AsksWork}

/-- The put keeps the addresses that are there, and its call overlaps no
drop. -/
def InPlace (s : AsksConnection) (keep : AsksKeep) : Prop :=
  keep.stale = false ∧
    (∀ tokens uploads, s.work ≠ some (.drop tokens uploads)) ∧
    ∀ draft upload, draft ≠ keep.draft → s.now < upload.expiresAt →
      s.uploads.get? draft = some upload → keep.read.get? draft = some upload

/-- The steps at which nothing beside the queue has come between. -/
def Orderly (s : AsksConnection) : AsksEvent → Prop
  | .land =>
      match s.work with
      | some (.forgetting pending _) => s.pending = some pending
      | some (.exchange pending _) => s.now < pending.expiresAt
      | _ => True
  | .putUpload call => ∀ keep, s.keepOf call = some keep → s.InPlace keep
  | _ => True

/-- The tokens act for the account of whoever began their sign-in. -/
def Owned (actsFor : AsksTokens → String) (history : List AsksAct)
    (held : AsksStored) : Prop :=
  ∃ did, signIn history = some did ∧ held.account = addressOfDid did ∧
    addressOfDid did = some (actsFor held.tokens)

structure Whole (actsFor : AsksTokens → String) (s : AsksConnection) :
    Prop where
  lawful : Lawful s.history
  owned : ∀ held, s.tokens = some held → Owned actsFor s.history held
  link : ∀ pending, openLink s.history = some pending →
    s.now < pending.expiresAt →
      pendingFor s.pending s.now pending.state = .ok pending
  readable : ∀ draft upload, keptUpload draft s.history = some upload →
    s.now < upload.expiresAt → s.uploadOf draft = some upload.address
  survivors : ∀ draft address, s.uploadOf draft = some address →
    ∃ upload, upload.address = address ∧ Begun draft upload s.history

/-! ## The invariant -/

/-- What a call in the queue has read is what is stored. -/
def Fits (actsFor : AsksTokens → String) (s : AsksConnection) : AsksWork → Prop
  | .exchange pending _ => pending.state ∈ takenStates s.history ∧
      pending.state ∉ exchangedStates s.history
  | .account _ tokens => tokens.refresh ∉ spent s.history
  | .keeping pending tokens account => tokens.refresh ∉ spent s.history ∧
      addressOfDid pending.did = some account ∧ actsFor tokens = account
  | .tokensRead read | .refusedRead _ read | .disconnectRead read =>
      s.tokens = read
  | .refresh held _ | .refreshing held _ | .checking held =>
      s.tokens = some held
  | .rotating held tokens => s.tokens = some held ∧
      tokens.refresh ∉ spent s.history ∧
      actsFor tokens = actsFor held.tokens
  | .ending reason held => s.tokens = some held ∧
      ∀ access, reason = .refused access →
        access ∈ deniedTokens s.history ∧ held.tokens.access = access
  | .drop _ uploads => (∀ draft, keptUpload draft s.history = none) ∧
      (uploads = false → s.uploads = .empty)
  | _ => True

/-- The pair of the stored refresh token has come and is not stored yet. -/
def Rotating (s : AsksConnection) : Prop :=
  ∃ held tokens, s.work = some (.rotating held tokens)

structure Sound (actsFor : AsksTokens → String) (s : AsksConnection) :
    Prop where
  lawful : Lawful s.history
  owned : ∀ held, s.tokens = some held → Owned actsFor s.history held
  unspent : ¬ s.Rotating → ∀ held, s.tokens = some held →
    held.tokens.refresh ∉ spent s.history
  fits : ∀ work, s.work = some work → Fits actsFor s work
  link : ∀ pending, openLink s.history = some pending →
    s.pending = some pending
  pending : ∀ pending, s.pending = some pending →
    pending.state ∈ issuedStates s.history ∧
      pending.state ∉ takenStates s.history
  takes : takenStates s.history ⊆ issuedStates s.history
  exchanges : exchangedStates s.history ⊆ takenStates s.history
  readable : ∀ draft upload, keptUpload draft s.history = some upload →
    s.now < upload.expiresAt → s.uploads.get? draft = some upload
  begun : ∀ draft upload, s.uploads.get? draft = some upload →
    Begun draft upload s.history
  keeps : ∀ entry ∈ s.keeps, entry.2.now ≤ s.now ∧
    (entry.2.stale = false → Begun entry.2.draft entry.2.upload s.history ∧
      ∀ draft upload, entry.2.read.get? draft = some upload →
        Begun draft upload s.history)

theorem sound_start (now : ℤ) : (start now).Sound actsFor where
  lawful := lawful_nil
  owned := fun _ hheld => by cases hheld
  unspent := fun _ _ hheld => by cases hheld
  fits := fun _ hwork => by cases hwork
  link := fun _ hlink => by cases hlink
  pending := fun _ hpending => by cases hpending
  takes := fun _ htaken => by cases htaken
  exchanges := fun _ hexchanged => by cases hexchanged
  readable := fun _ _ hkept => by cases hkept
  begun := fun _ _ hget => by simp [start] at hget
  keeps := fun _ hentry => by cases hentry

theorem Sound.whole (h : s.Sound actsFor) : s.Whole actsFor where
  lawful := h.lawful
  owned := h.owned
  link := by
    intro pending hlink hnow
    rw [h.link pending hlink, pendingFor, if_neg (not_not.mpr rfl),
      if_pos hnow]
  readable := by
    intro draft upload hkept hnow
    rw [uploadOf, h.readable draft upload hkept hnow]
    exact if_pos hnow
  survivors := by
    intro draft address hread
    unfold uploadOf at hread
    cases hget : s.uploads.get? draft with
    | none =>
        rw [hget] at hread
        cases hread
    | some upload =>
        rw [hget] at hread
        dsimp only at hread
        split at hread
        · exact ⟨upload, Option.some.inj hread, h.begun draft upload hget⟩
        · cases hread

/-! ## The queue -/

/-- The call is not one that has a new pair in hand. -/
def Plain : AsksWork → Prop
  | .rotating _ _ => False
  | _ => True

theorem Sound.unspent_of_plain (h : s.Sound actsFor)
    (hwork : s.work = some now) (hplain : Plain now) :
    ∀ held, s.tokens = some held → held.tokens.refresh ∉ spent s.history := by
  apply h.unspent
  rintro ⟨held, tokens, heq⟩
  obtain rfl := Option.some.inj (hwork.symm.trans heq)
  exact hplain

/-- The call goes on or returns, and nothing else changes. -/
theorem Sound.goes {work : Option AsksWork} (h : s.Sound actsFor)
    (hwork : s.work = some now) (hplain : Plain now)
    (hfits : ∀ next, work = some next → Fits actsFor s next) :
    Sound actsFor { s with work := work } :=
  { h with
    unspent := fun _ => h.unspent_of_plain hwork hplain
    fits := hfits }

theorem Sound.done (h : s.Sound actsFor) (hwork : s.work = some now)
    (hplain : Plain now) : s.done.Sound actsFor :=
  h.goes hwork hplain fun _ hnext => by cases hnext

theorem Sound.waits {next : AsksWork} (h : s.Sound actsFor)
    (hwork : s.work = some now) (hplain : Plain now)
    (hfits : Fits actsFor s next) : (s.wait next).Sound actsFor :=
  h.goes hwork hplain fun _ hnext => by
    cases hnext
    exact hfits

theorem Sound.handOut {held : AsksStored} (h : s.Sound actsFor)
    (hwork : s.work = some now) (hplain : Plain now)
    (hheld : s.tokens = some held) :
    (s.handOut held.tokens.access).Sound actsFor :=
  { h with
    lawful := h.lawful.cons ⟨held, hheld, rfl⟩
    unspent := fun _ => h.unspent_of_plain hwork hplain
    fits := fun _ hnext => by cases hnext }

theorem Sound.startDrop {reason : AsksEnd} (h : s.Sound actsFor)
    (hwork : s.work = some now) (hplain : Plain now)
    (hafter : After (.dropping reason s.tokens) s.history) :
    (s.startDrop reason).Sound actsFor :=
  { h with
    lawful := h.lawful.cons hafter
    unspent := fun _ => h.unspent_of_plain hwork hplain
    fits := fun _ hnext => by
      cases hnext
      exact ⟨fun _ => rfl, by simp⟩
    readable := fun _ _ hkept => by cases hkept }

variable {pending : AsksPending}

/-- The link that was read is the one that is removed. -/
theorem Sound.forgets {code : String}
    (h : s.Sound actsFor) (hwork : s.work = some (.forgetting pending code))
    (hpending : s.pending = some pending) :
    Sound actsFor (({ s with pending := none }.log
      (.taken pending.state)).wait (.exchange pending code)) := by
  obtain ⟨hissued, htaken⟩ := h.pending pending hpending
  refine { h with
      lawful := h.lawful.cons trivial
      unspent := fun _ => h.unspent_of_plain hwork trivial
      fits := ?_
      link := ?_
      pending := fun _ hnone => by cases hnone
      takes := List.cons_subset.mpr ⟨hissued, h.takes⟩
      exchanges := fun _ hmem => List.mem_cons_of_mem _ (h.exchanges hmem) }
  · intro next hnext
    cases hnext
    exact ⟨List.mem_cons_self, fun hmem => htaken (h.exchanges hmem)⟩
  · intro other hlink
    obtain ⟨hopen, hother⟩ := Option.filter_eq_some_iff.mp hlink
    rw [h.link other hopen] at hpending
    cases hpending
    exact absurd rfl (of_decide_eq_true hother)

theorem Sound.sends {code : String}
    (h : s.Sound actsFor) (hwork : s.work = some (.exchange pending code))
    (hnow : s.now < pending.expiresAt) :
    Sound actsFor ((s.log (.exchanged pending code s.now)).wait
      (.exchanging pending)) := by
  obtain ⟨htaken, hexchanged⟩ := h.fits _ hwork
  exact { h with
      lawful := h.lawful.cons ⟨hnow, hexchanged⟩
      unspent := fun _ => h.unspent_of_plain hwork trivial
      fits := fun _ hnext => by
        cases hnext
        trivial
      exchanges := List.cons_subset.mpr ⟨htaken, h.exchanges⟩ }

theorem Sound.signsIn {tokens : AsksTokens}
    {account : String} (h : s.Sound actsFor)
    (hwork : s.work = some (.keeping pending tokens account)) :
    Sound actsFor ({ s with tokens := some ⟨tokens, some account⟩ }.log
      (.signedIn pending.did)).done := by
  obtain ⟨hspent, haddress, hacts⟩ := h.fits _ hwork
  refine { h with
      lawful := h.lawful.cons trivial
      owned := ?_
      unspent := ?_
      fits := fun _ hnext => by cases hnext }
  · intro held hheld
    cases hheld
    exact ⟨pending.did, rfl, haddress.symm,
      haddress.trans (congrArg some hacts.symm)⟩
  · intro _ held hheld
    cases hheld
    exact hspent

theorem Sound.rotates {held : AsksStored} {tokens : AsksTokens}
    (h : s.Sound actsFor) (hwork : s.work = some (.rotating held tokens)) :
    Sound actsFor ({ s with tokens := some ⟨tokens, held.account⟩ }.handOut
      tokens.access) := by
  obtain ⟨hheld, hspent, hacts⟩ := h.fits _ hwork
  refine { h with
      lawful := h.lawful.cons ⟨_, rfl, rfl⟩
      owned := ?_
      unspent := ?_
      fits := fun _ hnext => by cases hnext }
  · intro next hnext
    cases hnext
    obtain ⟨did, hdid, haccount, haddress⟩ := h.owned held hheld
    exact ⟨did, hdid, haccount, haddress.trans (congrArg some hacts.symm)⟩
  · intro _ next hnext
    cases hnext
    exact hspent

theorem Sound.land (h : s.Sound actsFor) (hwork : s.work = some now)
    (horderly : s.Orderly .land) (hland : s.land now = some s') :
    s'.Sound actsFor := by
  have hfits := h.fits now hwork
  rw [Orderly, hwork] at horderly
  cases now with
  | complete state code =>
      cases hland
      exact h.waits hwork trivial trivial
  | pendingRead state code read =>
      simp only [AsksConnection.land] at hland
      split at hland
      · cases hland
        exact h.done hwork trivial
      · cases hland
        exact h.waits hwork trivial trivial
  | forgetting pending code =>
      cases hland
      exact h.forgets hwork horderly
  | exchange pending code =>
      cases hland
      exact h.sends hwork horderly
  | revoking =>
      cases hland
      exact h.done hwork trivial
  | keeping pending tokens account =>
      cases hland
      exact h.signsIn hwork
  | token =>
      cases hland
      exact h.waits hwork trivial rfl
  | tokensRead read =>
      cases read with
      | none =>
          cases hland
          exact h.done hwork trivial
      | some held =>
          simp only [AsksConnection.land] at hland
          split at hland
          · cases hland
            exact h.handOut hwork trivial hfits
          · cases hland
            exact h.waits hwork trivial hfits
  | refresh held retry =>
      cases hland
      exact { h with
          lawful := h.lawful.cons (h.unspent_of_plain hwork trivial held hfits)
          unspent := fun _ => h.unspent_of_plain hwork trivial
          fits := fun _ hnext => by
            cases hnext
            exact hfits }
  | rotating held tokens =>
      cases hland
      exact h.rotates hwork
  | refused access =>
      cases hland
      exact h.waits hwork trivial rfl
  | refusedRead access read =>
      cases read with
      | none =>
          cases hland
          exact h.done hwork trivial
      | some held =>
          simp only [AsksConnection.land] at hland
          split at hland
          · cases hland
            exact h.done hwork trivial
          · cases hland
            exact h.waits hwork trivial hfits
  | disconnect =>
      cases hland
      exact h.waits hwork trivial rfl
  | disconnectRead read =>
      cases read with
      | none =>
          cases hland
          exact h.startDrop hwork trivial trivial
      | some held =>
          cases hland
          exact h.waits hwork trivial ⟨hfits, nofun⟩
  | ending reason held =>
      cases hland
      apply h.startDrop hwork trivial
      cases reason with
      | refused access =>
          obtain ⟨hdenied, haccess⟩ := hfits.2 access rfl
          exact ⟨hdenied, held, hfits.1, haccess⟩
      | refresh => trivial
      | disconnect => trivial
  | exchanging _ | account _ _ | refreshing _ _ | checking _ | drop _ _ =>
      cases hland

theorem Sound.answered {answer : TokenAnswer} (h : s.Sound actsFor)
    (hwork : s.work = some now)
    (hanswer : s.answered actsFor answer now = some s') :
    s'.Sound actsFor := by
  have hfits := h.fits now hwork
  cases now with
  | exchanging pending =>
      cases answer with
      | ok tokens =>
          simp only [AsksConnection.answered] at hanswer
          split at hanswer
          · cases hanswer
          · next hspent =>
            cases hanswer
            exact h.waits hwork trivial fun hmem => hspent (mem_spent hmem)
      | ended | lost =>
          cases hanswer
          exact h.done hwork trivial
  | refreshing held retry =>
      cases answer with
      | ok tokens =>
          simp only [AsksConnection.answered] at hanswer
          split at hanswer
          · cases hanswer
          · next hnew =>
            cases hanswer
            rw [not_or, not_not] at hnew
            exact { h with
                lawful := h.lawful.cons trivial
                unspent := fun hplain => absurd ⟨held, tokens, rfl⟩ hplain
                fits := fun _ hnext => by
                  cases hnext
                  exact ⟨hfits, fun hmem => hnew.1 (mem_spent hmem), hnew.2⟩ }
      | ended =>
          cases hanswer
          exact h.startDrop hwork trivial trivial
      | lost =>
          simp only [AsksConnection.answered] at hanswer
          split at hanswer
          · cases hanswer
            exact h.waits hwork trivial hfits
          · split at hanswer
            · cases hanswer
              exact h.handOut hwork trivial hfits
            · cases hanswer
              exact h.done hwork trivial
  | _ => cases hanswer

theorem Sound.accountRead {read : AccountRead} (h : s.Sound actsFor)
    (hwork : s.work = some now)
    (hread : s.accountRead actsFor read now = some s') :
    s'.Sound actsFor := by
  have hfits := h.fits now hwork
  cases now with
  | account pending tokens =>
      cases read with
      | ok address =>
          simp only [AsksConnection.accountRead] at hread
          split at hread
          · cases hread
          · next hacts =>
            split at hread
            · cases hread
              exact h.waits hwork trivial trivial
            · next haddress =>
              cases hread
              exact h.waits hwork trivial ⟨hfits, not_not.mp haddress,
                (not_not.mp hacts).symm⟩
      | refused | unreachable =>
          cases hread
          exact h.waits hwork trivial trivial
  | checking held =>
      cases read with
      | refused =>
          cases hread
          exact { h with
              lawful := h.lawful.cons trivial
              unspent := fun _ => h.unspent_of_plain hwork trivial
              fits := fun _ hnext => by
                cases hnext
                refine ⟨hfits, fun access heq => ?_⟩
                obtain rfl := AsksEnd.refused.inj heq
                exact ⟨List.mem_cons_self, rfl⟩ }
      | ok _ | unreachable =>
          cases hread
          exact h.done hwork trivial
  | _ => cases hread

/-! ## The deletes of a drop -/

theorem Sound.forgetsTokens {uploads : Bool} (h : s.Sound actsFor)
    (hwork : s.work = some (.drop true uploads)) :
    Sound actsFor { s with tokens := none } :=
  { h with
    owned := fun _ hheld => by cases hheld
    unspent := fun _ _ hheld => by cases hheld
    fits := fun _ hnext => by
      obtain rfl := Option.some.inj (hwork.symm.trans hnext)
      exact h.fits _ hwork }

theorem Sound.forgetsUploads {tokens : Bool} (h : s.Sound actsFor)
    (hwork : s.work = some (.drop tokens true)) :
    Sound actsFor { s with uploads := .empty } := by
  have hkept := (h.fits _ hwork).1
  exact { h with
      fits := fun _ hnext => by
        obtain rfl := Option.some.inj (hwork.symm.trans hnext)
        exact ⟨hkept, by simp⟩
      readable := fun draft upload hupload => by
        change AsksAct.keptUpload draft s.history = some upload at hupload
        rw [hkept draft] at hupload
        cases hupload
      begun := fun _ _ hget => by simp at hget }

theorem Sound.dropped {tokens uploads : Bool} (h : s.Sound actsFor)
    (hwork : s.work = some (.drop tokens uploads))
    (huploads : s.uploads = .empty) : s.dropped.Sound actsFor := by
  refine { h with
      lawful := h.lawful.cons trivial
      unspent := fun _ => h.unspent_of_plain hwork trivial
      fits := fun _ hnext => by cases hnext
      begun := ?_
      keeps := ?_ }
  · intro draft upload hget
    change s.uploads.get? draft = some upload at hget
    simp [huploads] at hget
  · intro entry hentry
    obtain ⟨call, hcall, rfl⟩ := List.mem_map.mp hentry
    exact ⟨(h.keeps call hcall).1, fun hstale => by cases hstale⟩

theorem Sound.dropTokens (h : s.Sound actsFor)
    (hstep : s.step actsFor .dropTokens = some s') : s'.Sound actsFor := by
  simp only [AsksConnection.step] at hstep
  split at hstep
  · next uploads hwork =>
    cases hstep
    have hnext := h.forgetsTokens hwork
    obtain ⟨hkept, huploads⟩ := h.fits _ hwork
    cases uploads with
    | true => exact hnext.waits hwork trivial ⟨hkept, by simp⟩
    | false => exact hnext.dropped hwork (huploads rfl)
  · cases hstep

theorem Sound.dropUploads (h : s.Sound actsFor)
    (hstep : s.step actsFor .dropUploads = some s') :
    s'.Sound actsFor := by
  simp only [AsksConnection.step] at hstep
  split at hstep
  · next tokens hwork =>
    cases hstep
    have hnext := h.forgetsUploads hwork
    have hkept := (h.fits _ hwork).1
    cases tokens with
    | true => exact hnext.waits hwork trivial ⟨hkept, fun _ => rfl⟩
    | false => exact hnext.dropped hwork rfl
  · cases hstep

/-! ## Beside the queue -/

theorem Sound.begin (h : s.Sound actsFor)
    (hnew : pending.state ∉ issuedStates s.history) :
    Sound actsFor ({ s with pending := some pending }.log
      (.issued pending)) := by
  refine { h with
      lawful := h.lawful.cons trivial
      fits := ?_
      link := fun _ hlink => hlink
      pending := ?_
      takes := fun _ hmem => List.mem_cons_of_mem _ (h.takes hmem) }
  · intro work hwork
    have hfits := h.fits work hwork
    cases work <;> exact hfits
  · intro other hother
    cases hother
    exact ⟨List.mem_cons_self, fun hmem => hnew (h.takes hmem)⟩

theorem Sound.keepUpload {call : ℕ} {draft : String} {upload : AsksUpload}
    {now : ℤ} (h : s.Sound actsFor) (hnow : now ≤ s.now) :
    Sound actsFor ({ s with keeps := (call, ⟨draft, upload, now, s.uploads,
      false⟩) :: s.keeps }.log (.keeping draft upload)) := by
  refine { h with
      lawful := h.lawful.cons trivial
      fits := ?_
      begun := fun draft upload hget => .inr (h.begun draft upload hget)
      keeps := ?_ }
  · intro work hwork
    have hfits := h.fits work hwork
    cases work <;> exact hfits
  · intro entry hentry
    rcases List.mem_cons.mp hentry with rfl | hentry
    · exact ⟨hnow, fun _ => ⟨.inl ⟨rfl, rfl⟩, fun draft upload hget =>
        .inr (h.begun draft upload hget)⟩⟩
    · obtain ⟨hbefore, hkeep⟩ := h.keeps entry hentry
      refine ⟨hbefore, fun hstale => ?_⟩
      obtain ⟨hown, hread⟩ := hkeep hstale
      exact ⟨.inr hown, fun draft upload hget =>
        .inr (hread draft upload hget)⟩

theorem keepOf_mem {call : ℕ} {keep : AsksKeep}
    (hkeep : s.keepOf call = some keep) : (call, keep) ∈ s.keeps := by
  obtain ⟨entry, hfind, rfl⟩ := Option.map_eq_some_iff.mp hkeep
  have hcall := List.find?_some hfind
  obtain rfl := of_decide_eq_true hcall
  exact List.mem_of_find?_eq_some hfind

theorem Sound.putUpload {call : ℕ} {keep : AsksKeep} (h : s.Sound actsFor)
    (hkeep : s.keepOf call = some keep) (hplace : s.InPlace keep) :
    Sound actsFor ({ s with
      uploads := keep.written
      keeps := s.keeps.filter fun entry => decide (entry.1 ≠ call)
      }.log (.kept keep.draft keep.upload)) := by
  obtain ⟨hstale, hdrop, hread⟩ := hplace
  obtain ⟨hbefore, hbegun⟩ := h.keeps _ (keepOf_mem hkeep)
  obtain ⟨hown, hsnapshot⟩ := hbegun hstale
  refine { h with
      lawful := h.lawful.cons trivial
      fits := ?_
      readable := ?_
      begun := ?_
      keeps := fun entry hentry =>
        h.keeps entry (List.mem_filter.mp hentry).1 }
  · intro work hwork
    have hfits := h.fits work hwork
    cases work with
    | drop tokens uploads => exact absurd hwork (hdrop tokens uploads)
    | _ => exact hfits
  · intro draft upload hkept hnow
    change (if keep.draft = draft then some keep.upload
      else AsksAct.keptUpload draft s.history) = some upload at hkept
    change keep.written.get? draft = some upload
    rw [AsksKeep.written, OrderedMap.get?_set]
    split at hkept
    · next heq =>
      rw [if_pos heq.symm]
      exact hkept
    · next hne =>
      rw [if_neg (Ne.symm hne), OrderedMap.get?_filter,
        hread draft upload (Ne.symm hne) hnow
          (h.readable draft upload hkept hnow)]
      exact Option.filter_eq_some_iff.mpr
        ⟨rfl, decide_eq_true (hbefore.trans_lt hnow)⟩
  · intro draft upload hget
    change keep.written.get? draft = some upload at hget
    rw [AsksKeep.written, OrderedMap.get?_set] at hget
    split at hget
    · next heq =>
      cases hget
      rw [heq]
      exact hown
    · rw [OrderedMap.get?_filter] at hget
      exact hsnapshot draft upload (Option.filter_eq_some_iff.mp hget).1

theorem Sound.tick {now : ℤ} (h : s.Sound actsFor) (hnow : s.now ≤ now) :
    Sound actsFor { s with now := now } := by
  refine { h with
      fits := ?_
      readable := fun draft upload hkept hlive =>
        h.readable draft upload hkept (hnow.trans_lt hlive)
      keeps := fun entry hentry =>
        ⟨(h.keeps entry hentry).1.trans hnow, (h.keeps entry hentry).2⟩ }
  intro work hwork
  have hfits := h.fits work hwork
  cases work <;> exact hfits

/-! ## Runs -/

theorem Sound.enter {next : AsksWork} (h : s.Sound actsFor)
    (hfits : Fits actsFor s next) (henter : s.enter next = some s') :
    s'.Sound actsFor := by
  unfold AsksConnection.enter at henter
  split at henter
  · next hwork =>
    cases henter
    have hold : ¬ s.Rotating := by
      rintro ⟨held, tokens, heq⟩
      rw [hwork] at heq
      cases heq
    exact { h with
        unspent := fun _ => h.unspent hold
        fits := fun _ hnext => by
          cases hnext
          exact hfits }
  · cases henter

theorem Sound.step {event : AsksEvent} (h : s.Sound actsFor)
    (horderly : s.Orderly event)
    (hstep : s.step actsFor event = some s') : s'.Sound actsFor := by
  cases event with
  | tick now =>
      obtain ⟨hnow, hnext⟩ := Option.ite_none_right_eq_some.mp hstep
      cases hnext
      exact h.tick hnow
  | begin pending =>
      obtain ⟨hnew, hnext⟩ := Option.ite_none_left_eq_some.mp hstep
      cases hnext
      apply h.begin
      intro hmem
      obtain ⟨act, hact, hstate⟩ := List.mem_filterMap.mp hmem
      apply hnew
      rw [List.any_eq_true]
      refine ⟨act, hact, ?_⟩
      cases act with
      | issued other => exact decide_eq_true (Option.some.inj hstate)
      | _ => cases hstate
  | complete state code =>
      have hfits : Fits actsFor s (.complete state code) := trivial
      exact h.enter hfits hstep
  | token =>
      have hfits : Fits actsFor s .token := trivial
      exact h.enter hfits hstep
  | refused access =>
      have hfits : Fits actsFor s (.refused access) := trivial
      exact h.enter hfits hstep
  | disconnect =>
      have hfits : Fits actsFor s .disconnect := trivial
      exact h.enter hfits hstep
  | land =>
      obtain ⟨now, hwork, hland⟩ := Option.bind_eq_some_iff.mp hstep
      exact h.land hwork horderly hland
  | answer answer =>
      obtain ⟨now, hwork, hanswer⟩ := Option.bind_eq_some_iff.mp hstep
      exact h.answered hwork hanswer
  | account read =>
      obtain ⟨now, hwork, hread⟩ := Option.bind_eq_some_iff.mp hstep
      exact h.accountRead hwork hread
  | dropTokens => exact h.dropTokens hstep
  | dropUploads => exact h.dropUploads hstep
  | keepUpload call draft upload now =>
      obtain ⟨hnow, hnext⟩ := Option.ite_none_left_eq_some.mp hstep
      cases hnext
      exact h.keepUpload (not_lt.mp fun hlt => hnow (.inl hlt))
  | putUpload call =>
      simp only [AsksConnection.step] at hstep
      split at hstep
      · cases hstep
      · next keep hkeep =>
        cases hstep
        exact h.putUpload hkeep (horderly keep hkeep)

theorem asks_connection_whole (actsFor : AsksTokens → String) (now : ℤ)
    (events : List AsksEvent) (s : AsksConnection)
    (hmeets : Transition.Meets (step actsFor) Orderly (start now) events)
    (hrun : Transition.run (step actsFor) (start now) events = some s) :
    s.Whole actsFor :=
  (Transition.run_preserves_of_meets
    (fun _ _ _ h horderly hstep => Sound.step h horderly hstep)
    hmeets (sound_start now) hrun).whole

section Example

def firstLink : AsksPending :=
  ⟨"first", "verifier", .chat, "did:ixo:ixo1qqqqqqqqqqqqqqqqqqqqqq", 900⟩

def secondLink : AsksPending := { firstLink with state := "second" }

def pair : AsksTokens := ⟨"access", "refresh", 300000⟩

/-- A link is put while the one before it is being removed; two uploads are
read before either is put. -/
theorem asks_connection_loses_link_and_upload :
    (∃ s, Transition.run (step AsksTokens.access) (start 0)
        [.begin firstLink, .complete "first" "code", .land, .land,
          .begin secondLink, .land] = some s ∧
      ¬ s.Whole AsksTokens.access) ∧
    ∃ s, Transition.run (step AsksTokens.access) (start 0)
        [.keepUpload 0 "one" ⟨"a", 900⟩ 0, .keepUpload 1 "two" ⟨"b", 900⟩ 0,
          .putUpload 0, .putUpload 1] = some s ∧
      ¬ s.Whole AsksTokens.access := by
  refine ⟨⟨_, rfl, fun hwhole => ?_⟩, ⟨_, rfl, fun hwhole => ?_⟩⟩
  · cases hwhole.link secondLink (by decide) (by decide)
  · have hread := hwhole.readable "one" ⟨"a", 900⟩ (by decide) (by decide)
    revert hread
    decide +kernel

def owner (_ : AsksTokens) : String := "ixo1qqqqqqqqqqqqqqqqqqqqqq"

/-- A sign-in that is kept. -/
theorem asks_connection_whole_signIn :
    ∃ events s, Transition.run (step owner) (start 0) events = some s ∧
      s.tokens = some ⟨pair, some (owner pair)⟩ ∧ s.Whole owner := by
  let events : List AsksEvent :=
    [.begin firstLink, .complete "first" "code", .land, .land, .land, .land,
      .answer (.ok pair), .account (.ok (owner pair)), .land]
  have hrun : ((Transition.run (step owner) (start 0) events).any fun s =>
      decide (s.tokens = some ⟨pair, some (owner pair)⟩)) = true := by
    decide +kernel
  rw [Option.any_eq_true] at hrun
  obtain ⟨s, hs, htokens⟩ := hrun
  have hmeets : Transition.Meets (step owner) Orderly (start 0) events :=
    And.intro trivial (And.intro trivial (And.intro trivial
      (And.intro trivial (And.intro rfl (And.intro (Int.ofNat_lt.mpr
        (by decide : 0 < 900)) (And.intro trivial (And.intro trivial
          (And.intro trivial trivial))))))))
  exact ⟨events, s, hs, of_decide_eq_true htokens,
    asks_connection_whole owner 0 events s hmeets hs⟩

end Example

end AsksConnection

end QiForge
