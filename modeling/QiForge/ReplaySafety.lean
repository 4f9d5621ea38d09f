import QiForge.ReplayReservation

/-!
# At most one acceptance per invocation

What the calls and the store look like from one CID is a small machine of its
own (`CidStep`): a mark, a pending flag and the phase of every call presenting
the CID.  The guarantees are proved there and carried over to the shared store
by a simulation, which is where expiry and eviction of the mark are excluded.
-/

namespace QiForge

namespace ValidatePhase

/-- The call has reserved the CID or is about to find out whether it may. -/
def busy : ValidatePhase → Bool
  | .asking | .replay | .accepted | .failed => false
  | .checking | .checked _ | .verifying | .committing | .committed
  | .releasing => true

/-- The call holds the reservation or held it once. -/
def reserved : ValidatePhase → Bool
  | .asking | .checking | .checked true | .replay => false
  | .checked false | .verifying | .committing | .committed | .releasing
  | .accepted | .failed => true

/-- The call has not answered yet. -/
def inProgress : ValidatePhase → Bool
  | .replay | .accepted | .failed => false
  | .asking | .checking | .checked _ | .verifying | .committing
  | .committed | .releasing => true

end ValidatePhase

@[ext]
structure CidView where
  mark : Bool
  pending : Bool
  phases : ℕ → Option ValidatePhase

namespace CidView

def set (v : CidView) (id : ℕ) (phase : ValidatePhase) : CidView :=
  { v with phases := Function.update v.phases id (some phase) }

theorem phases_set (v : CidView) (id : ℕ) (phase : ValidatePhase) (other : ℕ) :
    (v.set id phase).phases other =
      if other = id then some phase else v.phases other :=
  Function.update_apply _ _ _ _

@[simp] theorem mark_set (v : CidView) (id : ℕ) (phase : ValidatePhase) :
    (v.set id phase).mark = v.mark := rfl

@[simp] theorem pending_set (v : CidView) (id : ℕ)
    (phase : ValidatePhase) : (v.set id phase).pending = v.pending := rfl

end CidView

/-- One step as seen from one CID. -/
inductive CidStep (kind : StoreInterface) : CidView → CidView → Prop where
  | idle (v) : CidStep kind v v
  | ask (v id) (hkind : kind.addIfAbsent = true)
      (hnew : v.phases id = none) : CidStep kind v (v.set id .asking)
  | refuse (v id) (hkind : kind.addIfAbsent = false)
      (hnew : v.phases id = none) (hpending : v.pending = true) :
      CidStep kind v (v.set id .replay)
  | check (v id) (hkind : kind.addIfAbsent = false)
      (hnew : v.phases id = none) (hpending : v.pending = false) :
      CidStep kind v ({ v with pending := true }.set id .checking)
  | place (v id) (hphase : v.phases id = some .asking)
      (hmark : v.mark = false) :
      CidStep kind v ({ v with mark := true }.set id .verifying)
  | present (v id) (hphase : v.phases id = some .asking)
      (hmark : v.mark = true) : CidStep kind v (v.set id .replay)
  | read (v id) (hphase : v.phases id = some .checking) :
      CidStep kind v (v.set id (.checked v.mark))
  | used (v id) (hphase : v.phases id = some (.checked true)) :
      CidStep kind v ({ v with pending := false }.set id .replay)
  | unused (v id) (hphase : v.phases id = some (.checked false)) :
      CidStep kind v (v.set id .verifying)
  | accept (v id) (hkind : kind.addIfAbsent = true)
      (hphase : v.phases id = some .verifying) :
      CidStep kind v (v.set id .accepted)
  | release (v id) (hkind : kind.addIfAbsent = true)
      (hphase : v.phases id = some .verifying) :
      CidStep kind v (v.set id .releasing)
  | keep (v id) (hkind : kind.addIfAbsent = true)
      (hdelete : kind.delete = false)
      (hphase : v.phases id = some .verifying) :
      CidStep kind v (v.set id .failed)
  | commit (v id) (hkind : kind.addIfAbsent = false)
      (hphase : v.phases id = some .verifying) :
      CidStep kind v (v.set id .committing)
  | drop (v id) (hkind : kind.addIfAbsent = false)
      (hphase : v.phases id = some .verifying) :
      CidStep kind v ({ v with pending := false }.set id .failed)
  | add (v id) (hphase : v.phases id = some .committing) :
      CidStep kind v ({ v with mark := true }.set id .committed)
  | added (v id) (hphase : v.phases id = some .committed) :
      CidStep kind v ({ v with pending := false }.set id .accepted)
  | delete (v id) (hphase : v.phases id = some .releasing) :
      CidStep kind v ({ v with mark := false }.set id .failed)

/-- Which call is busy with the CID and which one was accepted. -/
structure Tracks (v : CidView) (owner : Option (ℕ × ValidatePhase))
    (winner : Option ℕ) (touched : Bool) : Prop where
  busy : ∀ i p, v.phases i = some p → p.busy = true → owner = some (i, p)
  owner : ∀ i p, owner = some (i, p) → v.phases i = some p ∧ p.busy = true
  winner : ∀ i, v.phases i = some .accepted ↔ winner = some i
  touched : ∀ i p, v.phases i = some p → p.reserved = true → touched = true

/-- How the mark, the phase of the busy call and an acceptance go
together. -/
def Consistent (kind : StoreInterface) (mark won touched : Bool) :
    Option ValidatePhase → Prop
  | none =>
      (won = true → mark = true) ∧
        ((kind.addIfAbsent = true → kind.delete = true) → mark = true →
          won = true ∨ touched = false)
  | some phase =>
      match phase with
      | .checking | .checked true =>
          kind.addIfAbsent = false ∧ (won = true → mark = true) ∧
            (mark = true → won = true ∨ touched = false)
      | .checked false | .committing =>
          kind.addIfAbsent = false ∧ mark = false ∧ won = false
      | .verifying => kind.addIfAbsent = mark ∧ won = false
      | .releasing =>
          kind.addIfAbsent = true ∧ mark = true ∧ won = false
      | .committed =>
          kind.addIfAbsent = false ∧ mark = true ∧ won = false
      | _ => False

namespace Tracks

variable {v : CidView} {owner : Option (ℕ × ValidatePhase)}
variable {winner : Option ℕ} {touched : Bool}

theorem withFlags {mark pending : Bool} (h : Tracks v owner winner touched) :
    Tracks { v with mark := mark, pending := pending } owner winner
      touched :=
  { h with }

/-- A call outside the reservation moves on without taking it. -/
theorem bystander (h : Tracks v owner winner touched) (id : ℕ)
    (q : ValidatePhase)
    (hold : ∀ p, v.phases id = some p → p.busy = false ∧ p ≠ .accepted)
    (hbusy : q.busy = false) (haccepted : q ≠ .accepted)
    (hreserved : q.reserved = false) :
    Tracks (v.set id q) owner winner touched := by
  constructor
  · intro i p hi hp
    rw [CidView.phases_set] at hi
    split_ifs at hi
    · cases hi
      rw [hbusy] at hp
      exact Bool.noConfusion hp
    · exact h.busy i p hi hp
  · intro i p hi
    rcases h.owner i p hi with ⟨hphase, hp⟩
    rw [CidView.phases_set, if_neg]
    · exact ⟨hphase, hp⟩
    · rintro rfl
      rw [(hold p hphase).1] at hp
      exact Bool.noConfusion hp
  · intro i
    rw [CidView.phases_set, ← h.winner]
    split_ifs with hsame
    · subst hsame
      constructor
      · intro heq
        exact absurd (Option.some.inj heq) haccepted
      · intro heq
        exact absurd rfl (hold _ heq).2
    · rfl
  · intro i p hi hp
    rw [CidView.phases_set] at hi
    split_ifs at hi
    · cases hi
      rw [hreserved] at hp
      exact Bool.noConfusion hp
    · exact h.touched i p hi hp

/-- No call is busy and one becomes so, or the busy one stays busy. -/
theorem take (h : Tracks v owner winner touched) (id : ℕ) (q : ValidatePhase)
    (howner : ∀ i p, owner = some (i, p) → i = id)
    (hold : v.phases id ≠ some .accepted) (hbusy : q.busy = true) :
    Tracks (v.set id q) (some (id, q)) winner (touched || q.reserved) := by
  have hne : q ≠ .accepted := by
    rintro rfl
    exact Bool.noConfusion hbusy
  constructor
  · intro i p hi hp
    rw [CidView.phases_set] at hi
    split_ifs at hi with hsame
    · rw [hsame, Option.some.inj hi]
    · exact absurd (howner i p (h.busy i p hi hp)) hsame
  · intro i p hi
    rcases Prod.mk.inj (Option.some.inj hi) with ⟨rfl, rfl⟩
    rw [CidView.phases_set, if_pos rfl]
    exact ⟨rfl, hbusy⟩
  · intro i
    rw [CidView.phases_set, ← h.winner]
    split_ifs with hsame
    · subst hsame
      constructor
      · intro heq
        exact absurd (Option.some.inj heq) hne
      · intro heq
        exact absurd heq hold
    · rfl
  · intro i p hi hp
    rw [CidView.phases_set] at hi
    split_ifs at hi
    · cases hi
      simp [hp]
    · simp [h.touched i p hi hp]

/-- The busy call ends without being accepted. -/
theorem leave {id : ℕ} {p : ValidatePhase}
    (h : Tracks v (some (id, p)) winner touched) (q : ValidatePhase)
    (hbusy : q.busy = false) (haccepted : q ≠ .accepted) :
    Tracks (v.set id q) none winner (touched || q.reserved) := by
  have hold := (h.owner id p rfl)
  constructor
  · intro i p' hi hp
    rw [CidView.phases_set] at hi
    split_ifs at hi with hsame
    · cases hi
      rw [hbusy] at hp
      exact Bool.noConfusion hp
    · have hbusyOwner := h.busy i p' hi hp
      exact absurd (Prod.mk.inj (Option.some.inj hbusyOwner)).1.symm hsame
  · intro i p' hi
    exact absurd hi (by simp)
  · intro i
    rw [CidView.phases_set, ← h.winner]
    split_ifs with hsame
    · subst hsame
      rw [hold.1]
      constructor
      · intro heq
        exact absurd (Option.some.inj heq) haccepted
      · intro heq
        rw [Option.some.inj heq] at hold
        exact absurd hold.2 (by simp [ValidatePhase.busy])
    · rfl
  · intro i p' hi hp
    rw [CidView.phases_set] at hi
    split_ifs at hi
    · cases hi
      simp [hp]
    · simp [h.touched i p' hi hp]

/-- The busy call is accepted. -/
theorem win {id : ℕ} {p : ValidatePhase}
    (h : Tracks v (some (id, p)) none touched) :
    Tracks (v.set id .accepted) none (some id) true := by
  constructor
  · intro i p' hi hp
    rw [CidView.phases_set] at hi
    split_ifs at hi with hsame
    · cases hi
      exact Bool.noConfusion hp
    · have hbusyOwner := h.busy i p' hi hp
      exact absurd (Prod.mk.inj (Option.some.inj hbusyOwner)).1.symm hsame
  · intro i p' hi
    exact absurd hi (by simp)
  · intro i
    rw [CidView.phases_set]
    split_ifs with hsame
    · simp [hsame]
    · rw [h.winner]
      simp [Ne.symm hsame]
  · exact fun _ _ _ _ => rfl

end Tracks

namespace CidView

/-- What holds of every CID. -/
structure Inv (kind : StoreInterface) (v : CidView) : Prop where
  asking : ∀ i, v.phases i = some .asking → kind.addIfAbsent = true
  tracked : ∃ owner winner touched, Tracks v owner winner touched ∧
    v.pending = (!kind.addIfAbsent && owner.isSome) ∧
    Consistent kind v.mark winner.isSome touched (owner.map Prod.snd)

variable {kind : StoreInterface} {v v' : CidView} {id : ℕ}

theorem asking_set {P : Prop} {q : ValidatePhase}
    (h : ∀ i, v.phases i = some .asking → P) (hq : q = .asking → P) (i : ℕ)
    (hi : (v.set id q).phases i = some .asking) : P := by
  rw [phases_set] at hi
  split_ifs at hi
  · exact hq (Option.some.inj hi)
  · exact h i hi

theorem Inv.step (h : v.Inv kind) (hstep : CidStep kind v v') :
    v'.Inv kind := by
  have hasking := h.asking
  rcases h.tracked with
    ⟨owner, winner, touched, htracks, hpending, hconsistent⟩
  constructor
  · cases hstep with
    | idle => exact hasking
    | ask _ hkind => exact asking_set hasking fun _ => hkind
    | refuse => exact asking_set hasking (by simp)
    | check => exact asking_set hasking (by simp)
    | place => exact asking_set hasking (by simp)
    | present => exact asking_set hasking (by simp)
    | read => exact asking_set hasking (by simp)
    | used => exact asking_set hasking (by simp)
    | unused => exact asking_set hasking (by simp)
    | accept => exact asking_set hasking (by simp)
    | release => exact asking_set hasking (by simp)
    | keep => exact asking_set hasking (by simp)
    | commit => exact asking_set hasking (by simp)
    | drop => exact asking_set hasking (by simp)
    | add => exact asking_set hasking (by simp)
    | added => exact asking_set hasking (by simp)
    | delete => exact asking_set hasking (by simp)
  · cases hstep with
    | idle => exact ⟨owner, winner, touched, htracks, hpending, hconsistent⟩
    | ask id hkind hnew =>
        refine ⟨owner, winner, touched, ?_, hpending, hconsistent⟩
        apply htracks.bystander
        · simp [hnew]
        · rfl
        · simp
        · rfl
    | refuse id hkind hnew =>
        refine ⟨owner, winner, touched, ?_, hpending, hconsistent⟩
        apply htracks.bystander
        · simp [hnew]
        · rfl
        · simp
        · rfl
    | check id hkind hnew hfree =>
        obtain rfl : owner = none := by
          simpa [hkind, hfree] using hpending
        refine ⟨_, _, _, htracks.withFlags.take id .checking ?_ ?_ rfl, ?_, ?_⟩
        · simp
        · simp [hnew]
        · simp [hkind]
        · simp_all [Consistent, ValidatePhase.reserved]
    | place id hphase hmark =>
        have hkind := hasking id hphase
        obtain rfl : owner = none := by
          cases owner with
          | none => rfl
          | some entry =>
              rcases entry with ⟨i, p⟩
              cases p with
              | checked used => cases used <;> simp_all [Consistent]
              | _ => simp_all [Consistent]
        refine ⟨_, _, _, htracks.withFlags.take id .verifying ?_ ?_ rfl,
          ?_, ?_⟩
        · simp
        · simp [hphase]
        · simp [hkind, hpending]
        · simp_all [Consistent]
    | present id hphase hmark =>
        refine ⟨owner, winner, touched, ?_, hpending, hconsistent⟩
        apply htracks.bystander
        · simp [hphase, ValidatePhase.busy]
        · rfl
        · simp
        · rfl
    | read id hphase =>
        obtain rfl := htracks.busy id _ hphase rfl
        refine ⟨_, _, _, htracks.take id (.checked v.mark) ?_ ?_ rfl, ?_, ?_⟩
        · simp
        · simp [hphase]
        · simpa using hpending
        · cases hmark : v.mark <;>
            simp_all [Consistent, ValidatePhase.reserved]
    | used id hphase =>
        obtain rfl := htracks.busy id _ hphase rfl
        refine ⟨_, _, _, htracks.withFlags.leave .replay rfl (by simp),
          ?_, ?_⟩
        · simp
        · simp_all [Consistent, ValidatePhase.reserved]
    | unused id hphase =>
        obtain rfl := htracks.busy id _ hphase rfl
        refine ⟨_, _, _, htracks.take id .verifying ?_ ?_ rfl, ?_, ?_⟩
        · simp
        · simp [hphase]
        · simpa using hpending
        · simp_all [Consistent]
    | accept id hkind hphase =>
        obtain rfl := htracks.busy id _ hphase rfl
        obtain rfl : winner = none := by
          simpa [Consistent] using hconsistent.2
        refine ⟨_, _, _, htracks.win, ?_, ?_⟩
        · simp_all
        · simp_all [Consistent]
    | release id hkind hphase =>
        obtain rfl := htracks.busy id _ hphase rfl
        refine ⟨_, _, _, htracks.take id .releasing ?_ ?_ rfl, ?_, ?_⟩
        · simp
        · simp [hphase]
        · simpa using hpending
        · simp_all [Consistent]
    | keep id hkind hdelete hphase =>
        obtain rfl := htracks.busy id _ hphase rfl
        refine ⟨_, _, _, htracks.leave .failed rfl (by simp), ?_, ?_⟩
        · simp_all
        · simp_all [Consistent]
    | commit id hkind hphase =>
        obtain rfl := htracks.busy id _ hphase rfl
        refine ⟨_, _, _, htracks.take id .committing ?_ ?_ rfl, ?_, ?_⟩
        · simp
        · simp [hphase]
        · simpa using hpending
        · simp_all [Consistent]
    | drop id hkind hphase =>
        obtain rfl := htracks.busy id _ hphase rfl
        refine ⟨_, _, _, htracks.withFlags.leave .failed rfl (by simp),
          ?_, ?_⟩
        · simp
        · simp_all [Consistent]
    | add id hphase =>
        obtain rfl := htracks.busy id _ hphase rfl
        refine ⟨_, _, _, htracks.withFlags.take id .committed ?_ ?_ rfl,
          ?_, ?_⟩
        · simp
        · simp [hphase]
        · simpa using hpending
        · simp_all [Consistent]
    | added id hphase =>
        obtain rfl := htracks.busy id _ hphase rfl
        obtain rfl : winner = none := by
          simpa [Consistent] using hconsistent.2.2
        refine ⟨_, _, _, htracks.withFlags.win, ?_, ?_⟩
        · simp
        · simp_all [Consistent]
    | delete id hphase =>
        obtain rfl := htracks.busy id _ hphase rfl
        refine ⟨_, _, _, htracks.withFlags.leave .failed rfl (by simp),
          ?_, ?_⟩
        · simp_all [Consistent]
        · simp_all [Consistent]

end CidView
namespace MemoryInvocationStore

variable {Cid : Type} [DecidableEq Cid] {s : MemoryInvocationStore Cid}
variable {cid other : Cid} {ttlMs : Option ℕ} {now : ℕ}

theorem marked_iff :
    s.marked cid = true ↔ ∃ expiresAt, s.store.get? cid = some expiresAt :=
  OrderedMap.has_iff

theorem marked_insert_self : (s.insert cid ttlMs now).marked cid = true := by
  rw [marked_iff]
  exact ⟨_, (OrderedMap.get?_set _ _ _ _).trans (if_pos rfl)⟩

theorem marked_of_sweepExpired
    (h : (s.sweepExpired now).marked cid = true) : s.marked cid = true := by
  rcases marked_iff.mp h with ⟨expiresAt, hget⟩
  simp only [sweepExpired, OrderedMap.get?_filter,
    Option.filter_eq_some_iff] at hget
  exact marked_iff.mpr ⟨expiresAt, hget.1⟩

theorem marked_of_makeRoom (h : (s.makeRoom now).marked cid = true) :
    s.marked cid = true := by
  rcases marked_iff.mp h with ⟨expiresAt, hget⟩
  have hdropped := OrderedMap.get?_of_get?_dropOldest hget
  split_ifs at hdropped
  · exact marked_of_sweepExpired (marked_iff.mpr ⟨expiresAt, hdropped⟩)
  · exact marked_iff.mpr ⟨expiresAt, hdropped⟩

theorem marked_of_delete (h : (s.delete other).marked cid = true) :
    s.marked cid = true := by
  rcases marked_iff.mp h with ⟨expiresAt, hget⟩
  simp only [delete, OrderedMap.get?_delete] at hget
  split_ifs at hget
  exact marked_iff.mpr ⟨expiresAt, hget⟩

theorem marked_of_insert (hne : cid ≠ other)
    (h : (s.insert other ttlMs now).marked cid = true) :
    s.marked cid = true := by
  rcases marked_iff.mp h with ⟨expiresAt, hget⟩
  simp only [insert, OrderedMap.get?_set, if_neg hne] at hget
  have hroom := marked_of_makeRoom (marked_iff.mpr ⟨expiresAt, hget⟩)
  exact marked_of_delete hroom

theorem marked_of_isLive (h : (s.isLive other now).2.marked cid = true) :
    s.marked cid = true := by
  unfold isLive at h
  cases hget : s.store.get? other with
  | none =>
      rw [hget] at h
      exact h
  | some expiresAt =>
      rw [hget] at h
      dsimp only at h
      split_ifs at h
      · exact marked_of_delete h
      · exact h

/-- An unmarked CID is not live. -/
theorem isLive_of_not_marked (h : s.marked cid = false) :
    s.isLive cid now = (false, s) := by
  have hnone : s.store.get? cid = none := by
    cases hget : s.store.get? cid with
    | none => rfl
    | some expiresAt =>
        rw [marked_iff.mpr ⟨expiresAt, hget⟩] at h
        exact Bool.noConfusion h
  unfold isLive
  rw [hnone]

/-- A mark that has not expired is live. -/
theorem isLive_of_marked {expiresAt : ℕ}
    (hget : s.store.get? cid = some expiresAt) (hnow : now ≤ expiresAt) :
    s.isLive cid now = (true, s) := by
  unfold isLive
  rw [hget]
  exact if_neg (not_lt.mpr hnow)

end MemoryInvocationStore

def ReplayEvent.now? {Cid : Type} : ReplayEvent Cid → Option ℕ
  | .addIfAbsent _ now | .has _ now | .add _ now | .cleanup now => some now
  | _ => none

namespace ReplayGuard

variable {Cid : Type} [DecidableEq Cid] {kind : StoreInterface}
variable {g g' : ReplayGuard Cid} {cid : Cid}

/-- What is seen of the calls and the store from one CID. -/
def view (g : ReplayGuard Cid) (cid : Cid) : CidView where
  mark := g.store.marked cid
  pending := g.pending cid
  phases := fun id =>
    (g.calls id).bind fun call =>
      if call.cid = cid then some call.phase else none

/-- The call releases the mark of the CID. -/
def deletes (g : ReplayGuard Cid) (cid : Cid) : ReplayEvent Cid → Bool
  | .delete id => (g.calls id).any fun call => decide (call.cid = cid)
  | _ => false

/-- The mark of the CID has not expired when the event happens, and unless
the event is its deletion the store keeps it. -/
def MarkKept (kind : StoreInterface) (cid : Cid) (g : ReplayGuard Cid)
    (e : ReplayEvent Cid) : Prop :=
  ∀ expiresAt ∈ g.store.store.get? cid, (∀ now ∈ e.now?, now ≤ expiresAt) ∧
      (g.deletes cid e = false →
        ∀ g' ∈ g.step kind e, g'.store.marked cid = true)

instance (kind : StoreInterface) (e : ReplayEvent Cid) :
    Decidable (g.MarkKept kind cid e) :=
  inferInstanceAs (Decidable (∀ expiresAt ∈ g.store.store.get? cid,
    (∀ now ∈ e.now?, now ≤ expiresAt) ∧ (g.deletes cid e = false →
        ∀ g' ∈ g.step kind e, g'.store.marked cid = true)))

theorem view_setPhase_self {id : ℕ} {call : ValidateCall Cid}
    {phase : ValidatePhase} (hcid : call.cid = cid) :
    (g.setPhase id call phase).view cid = (g.view cid).set id phase := by
  have hphases : ((g.setPhase id call phase).view cid).phases =
      ((g.view cid).set id phase).phases := by
    funext other
    rw [CidView.phases_set]
    by_cases hsame : other = id
    · simp [view, setPhase, hsame, hcid]
    · simp [view, setPhase, hsame]
  exact CidView.ext rfl rfl hphases

theorem view_setPhase_other {id : ℕ} {call : ValidateCall Cid}
    {phase : ValidatePhase} (hcid : call.cid ≠ cid)
    (hold : ∀ old, g.calls id = some old → old.cid = call.cid) :
    ((g.setPhase id call phase).view cid).phases = (g.view cid).phases := by
  funext other
  by_cases hsame : other = id
  · subst hsame
    cases hcall : g.calls other with
    | none => simp [view, setPhase, hcid, hcall]
    | some old => simp [view, setPhase, hcid, hcall, hold old hcall]
  · simp [view, setPhase, hsame]

/-- A step of a call that presents another CID is not seen. -/
theorem view_of_other {e : ReplayEvent Cid}
    (hkept : g.MarkKept kind cid e) (hstep : g.step kind e = some g')
    (hdeletes : g.deletes cid e = false)
    (hphases : (g'.view cid).phases = (g.view cid).phases)
    (hpending : g'.pending cid = g.pending cid)
    (hmarked : g'.store.marked cid = true → g.store.marked cid = true) :
    g'.view cid = g.view cid := by
  apply CidView.ext _ hpending hphases
  change g'.store.marked cid = g.store.marked cid
  cases hold : g.store.marked cid with
  | true =>
      rcases MemoryInvocationStore.marked_iff.mp hold with
        ⟨expiresAt, hget⟩
      exact (hkept expiresAt hget).2 hdeletes g' hstep
  | false =>
      by_contra hne
      rw [hmarked (by simpa using hne)] at hold
      exact Bool.noConfusion hold

theorem isLive_eq {now : ℕ} {e : ReplayEvent Cid}
    (hkept : g.MarkKept kind cid e) (hnow : e.now? = some now) :
    g.store.isLive cid now = (g.store.marked cid, g.store) := by
  cases hold : g.store.marked cid with
  | true =>
      rcases MemoryInvocationStore.marked_iff.mp hold with
        ⟨expiresAt, hget⟩
      exact MemoryInvocationStore.isLive_of_marked hget
        ((hkept expiresAt hget).1 now hnow)
  | false => exact MemoryInvocationStore.isLive_of_not_marked hold

section Steps

variable {id : ℕ} {call : ValidateCall Cid}

theorem phases_view_self (hcall : g.calls id = some call)
    (hcid : call.cid = cid) :
    (g.view cid).phases id = some call.phase := by
  simp [view, hcall, hcid]

theorem phases_eq_of_setPhase {m : ReplayGuard Cid} {phase : ValidatePhase}
    (hcall : g.calls id = some call) (hcid : call.cid ≠ cid)
    (hcalls : m.calls = g.calls) :
    ((m.setPhase id call phase).view cid).phases = (g.view cid).phases := by
  have hsame : (m.view cid).phases = (g.view cid).phases := by
    simp only [view, hcalls]
  rw [← hsame]
  apply view_setPhase_other hcid
  intro old hold
  rw [hcalls, hcall] at hold
  rw [Option.some.inj hold]

theorem view_setPending {value : Bool} (hcid : call.cid = cid) :
    (g.setPending call.cid value).view cid =
      { g.view cid with pending := value } := by
  have hpending : (g.setPending call.cid value).pending cid = value := by
    simp [setPending, hcid]
  exact CidView.ext rfl hpending rfl

variable {e : ReplayEvent Cid}

/-- A call's step touches its own phase, the pending flag of its CID and the
store, where it marks no other CID. -/
theorem stepCall_differs (hstep : g.stepCall kind id call e = some g') :
    ∃ store pending phase,
      g' = ({ g with store := store, pending := pending }.setPhase id call
        phase) ∧
      (∀ other, other ≠ call.cid → pending other = g.pending other) ∧
      ∀ other, other ≠ call.cid → store.marked other = true →
        g.store.marked other = true := by
  have hpendingOther : ∀ value other, other ≠ call.cid →
      Function.update g.pending call.cid value other = g.pending other :=
    fun value other hne => Function.update_of_ne hne value g.pending
  unfold stepCall at hstep
  cases e with
  | validate => exact absurd hstep (by simp)
  | cleanup => exact absurd hstep (by simp)
  | addIfAbsent _ now =>
      rcases Option.ite_none_right_eq_some.mp hstep with ⟨-, hsome⟩
      cases hsome
      refine ⟨_, g.pending, _, rfl, fun _ _ => rfl, ?_⟩
      intro other hne hmarked
      cases hlive : g.store.isLive call.cid now with
      | mk used store =>
          rw [hlive] at hmarked
          have hstore : store.marked other = true →
              g.store.marked other = true := by
            intro h
            have hstored : (g.store.isLive call.cid now).2 = store :=
              congrArg Prod.snd hlive
            rw [← hstored] at h
            exact MemoryInvocationStore.marked_of_isLive h
          cases used with
          | true => exact hstore hmarked
          | false =>
              exact hstore (MemoryInvocationStore.marked_of_insert hne hmarked)
  | has _ now =>
      dsimp only at hstep
      split_ifs at hstep
      cases hstep
      refine ⟨_, g.pending, _, rfl, fun _ _ => rfl, ?_⟩
      intro other _ hmarked
      exact MemoryInvocationStore.marked_of_isLive hmarked
  | answered _ =>
      dsimp only at hstep
      split at hstep
      · cases hstep
        exact ⟨g.store, _, _, rfl, hpendingOther false, fun _ _ h => h⟩
      · cases hstep
        exact ⟨g.store, g.pending, _, rfl, fun _ _ => rfl, fun _ _ h => h⟩
      · exact absurd hstep (by simp)
  | verified _ ok =>
      dsimp only at hstep
      split_ifs at hstep
      cases hstep
      unfold verified
      split
      · exact ⟨g.store, g.pending, _, rfl, fun _ _ => rfl, fun _ _ h => h⟩
      · split_ifs
        · exact ⟨g.store, g.pending, _, rfl, fun _ _ => rfl,
            fun _ _ h => h⟩
        · exact ⟨g.store, g.pending, _, rfl, fun _ _ => rfl,
            fun _ _ h => h⟩
      · exact ⟨g.store, g.pending, _, rfl, fun _ _ => rfl, fun _ _ h => h⟩
      · exact ⟨g.store, _, _, rfl, hpendingOther false, fun _ _ h => h⟩
  | add _ now =>
      dsimp only at hstep
      split_ifs at hstep
      cases hstep
      refine ⟨_, g.pending, _, rfl, fun _ _ => rfl, ?_⟩
      intro other hne hmarked
      exact MemoryInvocationStore.marked_of_insert hne hmarked
  | added _ =>
      dsimp only at hstep
      split_ifs at hstep
      cases hstep
      exact ⟨g.store, _, _, rfl, hpendingOther false, fun _ _ h => h⟩
  | delete _ =>
      dsimp only at hstep
      split_ifs at hstep
      cases hstep
      refine ⟨_, g.pending, _, rfl, fun _ _ => rfl, ?_⟩
      intro other _ hmarked
      exact MemoryInvocationStore.marked_of_delete hmarked

theorem stepCall_other
    (hkept : g.MarkKept kind cid e) (hstep : g.step kind e = some g')
    (hcall : g.calls id = some call) (hcid : call.cid ≠ cid)
    (hdeletes : g.deletes cid e = false)
    (hcallStep : g.stepCall kind id call e = some g') :
    g'.view cid = g.view cid := by
  rcases stepCall_differs hcallStep with
    ⟨store, pending, phase, rfl, hpending, hmarked⟩
  apply view_of_other hkept hstep hdeletes
  · exact phases_eq_of_setPhase hcall hcid rfl
  · exact hpending cid (Ne.symm hcid)
  · exact hmarked cid (Ne.symm hcid)

/-- A step of a call that presents the CID is one of the small machine's. -/
theorem stepCall_self
    (hkept : g.MarkKept kind cid e) (hcall : g.calls id = some call)
    (hcid : call.cid = cid)
    (hcallStep : g.stepCall kind id call e = some g') :
    CidStep kind (g.view cid) (g'.view cid) := by
  have hphase : (g.view cid).phases id = some call.phase :=
    phases_view_self hcall hcid
  unfold stepCall at hcallStep
  cases e with
  | validate => exact absurd hcallStep (by simp)
  | cleanup => exact absurd hcallStep (by simp)
  | addIfAbsent _ now =>
      rcases Option.ite_none_right_eq_some.mp hcallStep with
        ⟨hasking, hsome⟩
      cases hsome
      rw [hasking] at hphase
      rw [view_setPhase_self hcid]
      rw [hcid, isLive_eq hkept rfl]
      cases hmark : g.store.marked cid with
      | true => exact CidStep.present _ id hphase hmark
      | false =>
          have hview : view
              { g with store := g.store.insert cid call.ttlMs now } cid =
                { g.view cid with mark := true } :=
            CidView.ext MemoryInvocationStore.marked_insert_self rfl rfl
          rw [hview]
          exact CidStep.place _ id hphase hmark
  | has _ now =>
      dsimp only at hcallStep
      split_ifs at hcallStep with hchecking
      cases hcallStep
      rw [hchecking] at hphase
      rw [view_setPhase_self hcid]
      unfold MemoryInvocationStore.has
      rw [hcid, isLive_eq hkept rfl]
      exact CidStep.read _ id hphase
  | answered _ =>
      dsimp only at hcallStep
      split at hcallStep
      · rename_i hused
        cases hcallStep
        rw [hused] at hphase
        rw [view_setPhase_self hcid]
        rw [view_setPending hcid]
        exact CidStep.used _ id hphase
      · rename_i hunused
        cases hcallStep
        rw [hunused] at hphase
        rw [view_setPhase_self hcid]
        exact CidStep.unused _ id hphase
      · exact absurd hcallStep (by simp)
  | verified _ ok =>
      rcases Option.ite_none_right_eq_some.mp hcallStep with
        ⟨hverifying, hsome⟩
      cases hsome
      rw [hverifying] at hphase
      unfold verified
      cases hkind : kind.addIfAbsent with
      | true =>
          cases ok with
          | true =>
              rw [view_setPhase_self hcid]
              exact CidStep.accept _ id hkind hphase
          | false =>
              split_ifs with hdelete
              · rw [view_setPhase_self hcid]
                exact CidStep.release _ id hkind hphase
              · rw [view_setPhase_self hcid]
                exact CidStep.keep _ id hkind (by simpa using hdelete)
                  hphase
      | false =>
          cases ok with
          | true =>
              rw [view_setPhase_self hcid]
              exact CidStep.commit _ id hkind hphase
          | false =>
              rw [view_setPhase_self hcid, view_setPending hcid]
              exact CidStep.drop _ id hkind hphase
  | add _ now =>
      rcases Option.ite_none_right_eq_some.mp hcallStep with
        ⟨hcommitting, hsome⟩
      cases hsome
      rw [hcommitting] at hphase
      have hview : view
          { g with store := g.store.add call.cid call.ttlMs now } cid =
            { g.view cid with mark := true } := by
        rw [hcid]
        exact CidView.ext MemoryInvocationStore.marked_insert_self rfl rfl
      rw [view_setPhase_self hcid, hview]
      exact CidStep.add _ id hphase
  | added _ =>
      rcases Option.ite_none_right_eq_some.mp hcallStep with
        ⟨hcommitted, hsome⟩
      cases hsome
      rw [hcommitted] at hphase
      rw [view_setPhase_self hcid, view_setPending hcid]
      exact CidStep.added _ id hphase
  | delete _ =>
      rcases Option.ite_none_right_eq_some.mp hcallStep with
        ⟨hreleasing, hsome⟩
      cases hsome
      rw [hreleasing] at hphase
      have hview : view { g with store := g.store.delete call.cid } cid =
            { g.view cid with mark := false } := by
        rw [hcid]
        have hgone : (g.store.delete cid).marked cid = false := by
          simp [MemoryInvocationStore.marked, MemoryInvocationStore.delete,
            OrderedMap.has]
        exact CidView.ext hgone rfl rfl
      rw [view_setPhase_self hcid, hview]
      exact CidStep.delete _ id hphase

theorem phases_view_none (hnone : g.calls id = none) :
    (g.view cid).phases id = none := by
  simp [view, hnone]

theorem reserve_view {cid' : Cid} {ttlMs : Option ℕ}
    (hkept : g.MarkKept kind cid (.validate id cid' ttlMs))
    (hstep : g.step kind (.validate id cid' ttlMs) = some g') :
    CidStep kind (g.view cid) (g'.view cid) := by
  have hwhole := hstep
  unfold step at hstep
  dsimp only at hstep
  split_ifs at hstep with hnew
  cases hstep
  have hnone : g.calls id = none := by simpa using hnew
  have hphase : (g.view cid).phases id = none := phases_view_none hnone
  by_cases hcid : cid' = cid
  · unfold reserveInvocation
    cases hkind : kind.addIfAbsent with
    | true =>
        rw [if_pos rfl, view_setPhase_self hcid]
        exact CidStep.ask _ id hkind hphase
    | false =>
        rw [if_neg Bool.false_ne_true]
        rw [hcid]
        cases hpending : g.pending cid with
        | true =>
            rw [if_pos rfl, view_setPhase_self rfl]
            exact CidStep.refuse _ id hkind hphase hpending
        | false =>
            have hview : (g.setPending cid true).view cid =
                { g.view cid with pending := true } :=
              CidView.ext rfl (by simp [view, setPending]) rfl
            rw [if_neg Bool.false_ne_true, view_setPhase_self rfl, hview]
            exact CidStep.check _ id hkind hphase hpending
  · have hsame : (g.reserveInvocation kind id ⟨cid', ttlMs, .asking⟩).view
        cid = g.view cid := by
      have hfresh : ∀ old, g.calls id = some old → old.cid = cid' := by
        intro old hold
        rw [hnone] at hold
        exact absurd hold (by simp)
      apply view_of_other hkept hwhole rfl
      · unfold reserveInvocation
        split_ifs
        · exact view_setPhase_other hcid hfresh
        · exact view_setPhase_other hcid hfresh
        · exact view_setPhase_other hcid hfresh
      · unfold reserveInvocation
        split_ifs
        · rfl
        · rfl
        · simp [setPhase, setPending, Ne.symm hcid]
      · unfold reserveInvocation
        split_ifs <;> exact fun h => h
    rw [hsame]
    exact CidStep.idle _

theorem step_view (hkept : g.MarkKept kind cid e)
    (hstep : g.step kind e = some g') :
    CidStep kind (g.view cid) (g'.view cid) := by
  have hcallStep : ∀ id, (g.calls id).bind
      (fun call => g.stepCall kind id call e) = some g' →
      (∀ call, g.calls id = some call → call.cid ≠ cid →
        g.deletes cid e = false) →
      CidStep kind (g.view cid) (g'.view cid) := by
    intro id hbind hdeletes
    rcases Option.bind_eq_some_iff.mp hbind with ⟨call, hcall, hstepped⟩
    by_cases hcid : call.cid = cid
    · exact stepCall_self hkept hcall hcid hstepped
    · rw [stepCall_other hkept hstep hcall hcid (hdeletes call hcall hcid)
        hstepped]
      exact CidStep.idle _
  cases e with
  | validate id cid' ttlMs => exact reserve_view hkept hstep
  | cleanup now =>
      have hsame : g'.view cid = g.view cid := by
        apply view_of_other hkept hstep rfl
        · cases hstep
          rfl
        · cases hstep
          rfl
        · cases hstep
          exact MemoryInvocationStore.marked_of_sweepExpired
      rw [hsame]
      exact CidStep.idle _
  | delete id =>
      apply hcallStep id hstep
      intro call hcall hcid
      simp [deletes, hcall, hcid]
  | addIfAbsent id now => exact hcallStep id hstep fun _ _ _ => rfl
  | has id now => exact hcallStep id hstep fun _ _ _ => rfl
  | answered id => exact hcallStep id hstep fun _ _ _ => rfl
  | verified id ok => exact hcallStep id hstep fun _ _ _ => rfl
  | add id now => exact hcallStep id hstep fun _ _ _ => rfl
  | added id => exact hcallStep id hstep fun _ _ _ => rfl

end Steps

theorem start_view_inv (store : MemoryInvocationStore Cid) :
    ((start store).view cid).Inv kind := by
  constructor
  · intro i hi
    exact absurd hi (by simp [start, view])
  · refine ⟨none, none, false, ?_, ?_, ?_⟩
    · constructor <;> simp [start, view]
    · simp [start, view]
    · simp [Consistent]

theorem run_view_inv {store : MemoryInvocationStore Cid}
    {events : List (ReplayEvent Cid)}
    (hkept : Transition.Meets (step kind) (MarkKept kind cid) (start store)
      events)
    (hrun : Transition.run (step kind) (start store) events = some g) :
    (g.view cid).Inv kind :=
  Transition.run_preserves_of_meets
    (I := fun g : ReplayGuard Cid => (g.view cid).Inv kind)
    (fun _ _ _ hinv hmark hstep => hinv.step (step_view hmark hstep))
    hkept (start_view_inv store) hrun

/-- The events of a new call up to the end of its reservation. -/
def reserving (kind : StoreInterface) (id : ℕ) (cid : Cid)
    (ttlMs : Option ℕ) (now : ℕ) : List (ReplayEvent Cid) :=
  .validate id cid ttlMs ::
    if kind.addIfAbsent then [.addIfAbsent id now]
    else [.has id now, .answered id]

/-- The guarantees about one CID. -/
structure ReplaySafe (kind : StoreInterface) (cid : Cid)
    (g : ReplayGuard Cid) : Prop where
  once : ∀ i j left right,
    g.calls i = some left → left.cid = cid → left.phase = .accepted →
    g.calls j = some right → right.cid = cid → right.phase = .accepted →
    i = j
  kept : ∀ i call, g.calls i = some call → call.cid = cid →
    call.phase = .accepted → g.store.marked cid = true
  usable : (kind.addIfAbsent = true → kind.delete = true) →
    (∃ i call, g.calls i = some call ∧ call.cid = cid ∧ call.phase = .failed) →
    (∀ i call, g.calls i = some call → call.cid = cid →
      call.phase ≠ .accepted ∧ call.phase.busy = false) →
    ∀ id ttlMs now, g.calls id = none → ∃ g', Transition.run (step kind) g
          (reserving kind id cid ttlMs now) = some g' ∧
        g'.calls id = some ⟨cid, ttlMs, .verifying⟩

theorem calls_of_phases {i : ℕ} {phase : ValidatePhase}
    (h : (g.view cid).phases i = some phase) :
    ∃ call, g.calls i = some call ∧ call.cid = cid ∧ call.phase = phase := by
  rcases Option.bind_eq_some_iff.mp h with ⟨call, hcall, hphase⟩
  rcases Option.ite_none_right_eq_some.mp hphase with ⟨hcid, hsome⟩
  exact ⟨call, hcall, hcid, Option.some.inj hsome⟩

/-- With no mark and nothing pending a new call reserves the CID. -/
theorem reserving_verifies {id : ℕ} (ttlMs : Option ℕ) (now : ℕ)
    (hmark : g.store.marked cid = false) (hpending : g.pending cid = false)
    (hnew : g.calls id = none) :
    ∃ g', Transition.run (step kind) g
        (reserving kind id cid ttlMs now) = some g' ∧
      g'.calls id = some ⟨cid, ttlMs, .verifying⟩ := by
  have hlive : g.store.isLive cid now = (false, g.store) :=
    MemoryInvocationStore.isLive_of_not_marked hmark
  unfold reserving
  cases hkind : kind.addIfAbsent with
  | true =>
      simp [Transition.run_cons, step, stepCall, reserveInvocation,
        setPhase, MemoryInvocationStore.addIfAbsent, hkind, hnew, hlive]
  | false =>
      simp [Transition.run_cons, step, stepCall, reserveInvocation,
        setPhase, setPending, MemoryInvocationStore.has, hkind, hnew, hlive,
        hpending]

theorem replaySafe_of_inv (hinv : (g.view cid).Inv kind) :
    g.ReplaySafe kind cid := by
  rcases hinv.tracked with
    ⟨owner, winner, touched, htracks, hpending, hconsistent⟩
  have hwinner : ∀ i call, g.calls i = some call → call.cid = cid →
      call.phase = .accepted → winner = some i := by
    intro i call hcall hcid hphase
    rw [← htracks.winner, phases_view_self hcall hcid, hphase]
  constructor
  · intro i j left right hleft hlcid hlphase hright hrcid hrphase
    have hi := hwinner i left hleft hlcid hlphase
    have hj := hwinner j right hright hrcid hrphase
    rw [hi] at hj
    exact Option.some.inj hj
  · intro i call hcall hcid hphase
    have hwon := hwinner i call hcall hcid hphase
    subst hwon
    change (g.view cid).mark = true
    cases owner with
    | none => exact hconsistent.1 rfl
    | some entry =>
        rcases entry with ⟨j, p⟩
        cases p with
        | checked used => cases used <;> simp_all [Consistent]
        | _ => simp_all [Consistent]
  · rintro hdelete ⟨i, call, hcall, hcid, hphase⟩ hothers id ttlMs now hnew
    have howner : owner = none := by
      cases owner with
      | none => rfl
      | some entry =>
          rcases htracks.owner entry.1 entry.2 rfl with ⟨hbusy, hp⟩
          rcases calls_of_phases hbusy with ⟨other, hother, hocid, hophase⟩
          rw [← hophase, (hothers _ other hother hocid).2] at hp
          exact Bool.noConfusion hp
    have hwon : winner = none := by
      cases winner with
      | none => rfl
      | some j =>
          rcases calls_of_phases ((htracks.winner j).mpr rfl) with
            ⟨other, hother, hocid, hophase⟩
          exact absurd hophase (hothers _ other hother hocid).1
    have htouched : touched = true := by
      apply htracks.touched i .failed _ rfl
      rw [phases_view_self hcall hcid, hphase]
    subst howner hwon htouched
    apply reserving_verifies
    · change (g.view cid).mark = false
      by_contra hmark
      have := hconsistent.2 hdelete (by simpa using hmark)
      simp at this
    · have hnone : (g.view cid).pending = false := by simpa using hpending
      exact hnone
    · exact hnew

/-- Replay safety in every run during which the mark of the CID neither
expires nor is evicted. -/
theorem validate_replay_safe (kind : StoreInterface) (cid : Cid)
    (store : MemoryInvocationStore Cid) (events : List (ReplayEvent Cid))
    (g : ReplayGuard Cid)
    (hkept : Transition.Meets (step kind) (MarkKept kind cid) (start store)
      events)
    (hrun : Transition.run (step kind) (start store) events = some g) :
    g.ReplaySafe kind cid :=
  replaySafe_of_inv (run_view_inv hkept hrun)

section Runs

/-- An empty store with the limits of a deployment that keeps few marks. -/
def emptyStore : MemoryInvocationStore ℕ where
  store := .empty
  lastFullSweepAt := none
  defaultTtlMs := 1000
  maxEntries := 2

/-- Two calls race for one CID, the first one fails, a third one is
accepted. -/
def raceEvents : List (ReplayEvent ℕ) :=
  [.validate 0 7 none, .validate 1 7 none, .addIfAbsent 0 5,
    .addIfAbsent 1 5, .verified 0 false, .delete 0, .validate 2 7 none,
    .addIfAbsent 2 6, .verified 2 true]

theorem validate_replay_safe_race :
    ∃ g, Transition.run (step ⟨true, true⟩) (start emptyStore) raceEvents =
        some g ∧ g.ReplaySafe ⟨true, true⟩ 7 := by
  have hkept : Transition.Meets (step ⟨true, true⟩)
      (MarkKept ⟨true, true⟩ 7) (start emptyStore) raceEvents := by
    decide +kernel
  cases hrun : Transition.run (step ⟨true, true⟩) (start emptyStore)
      raceEvents with
  | none =>
      have hruns : (Transition.run (step ⟨true, true⟩) (start emptyStore)
          raceEvents).isSome = true := by decide +kernel
      simp [hrun] at hruns
  | some g =>
      exact ⟨g, rfl, validate_replay_safe _ 7 _ raceEvents g hkept hrun⟩

/-- A call fails and another one presents the CID afterwards. -/
def retryEvents : List (ReplayEvent ℕ) :=
  [.validate 0 7 none, .addIfAbsent 0 5, .verified 0 false,
    .validate 1 7 none, .addIfAbsent 1 6]

/-- A store that cannot delete keeps the mark of a failed call, and the next
call is refused although none was accepted. -/
theorem failed_call_keeps_mark :
    Transition.Meets (step ⟨true, false⟩) (MarkKept ⟨true, false⟩ 7)
        (start emptyStore) retryEvents ∧
      ∃ g, Transition.run (step ⟨true, false⟩) (start emptyStore)
          retryEvents = some g ∧
        g.calls 0 = some ⟨7, none, .failed⟩ ∧
        g.calls 1 = some ⟨7, none, .replay⟩ ∧
        ∀ i, i ≠ 0 → i ≠ 1 → g.calls i = none := by
  constructor
  · decide +kernel
  · refine ⟨_, rfl, rfl, rfl, ?_⟩
    intro i hzero hone
    simp [reserveInvocation, verified, setPhase, start, hzero, hone]

end Runs

end ReplayGuard
end QiForge
