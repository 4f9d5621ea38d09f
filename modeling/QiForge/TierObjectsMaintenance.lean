import QiForge.TierObjectsPasses

/-!
# Deletions and orphan sweeps in flight

A call of `maintenance` deletes the keys it took from the queue, and a call
that sweeps deletes what a page of the listing holds and the durable map does
not reference.  Neither can meet an object back in use: a queued key is never
referenced again, and no pass uploads or commits while a sweep lasts.
-/

namespace QiForge

namespace TierObjects

variable {File : Type} {m : TierObjects File} {id : ℕ}

/-- The calls in flight may change as long as they delete nothing new. -/
theorem Inv.withMaintenances {pending : List (SegmentKey File)}
    {maintenances : OrderedMap ℕ (Maintenance File)}
    {tierSweep : Option ℕ} (h : m.Inv)
    (hqueued : ∀ key, key ∈ pending ∨
        (∃ id x, maintenances.get? id = some x ∧ key ∈ x.keys) →
      m.Queued key)
    (hswept : ∀ id x key, maintenances.get? id = some x →
      key ∈ x.orphans → m.references key = false)
    (halone : ∀ id x, maintenances.get? id = some x →
      Alone { m with tierSweep := tierSweep } id x) :
    Inv { m with
        pendingDeletes := pending
        maintenances := maintenances
        tierSweep := tierSweep } := by
  refine { h with
      queuedBelow := ?_
      queuedFree := ?_
      sweptFree := ?_
      uploads := ?_
      alone := ?_ }
  · intro key hkey
    exact h.queuedBelow key (hqueued key hkey)
  · intro key hkey
    exact h.queuedFree key (hqueued key hkey)
  · rintro key ⟨id, x, hget, hmem⟩
    exact hswept id x key hget hmem
  · intro id pass key hget hkey
    have hr := h.uploads id pass key hget hkey
    refine { hr with queued := ?_ }
    · exact fun hkey => hr.queued (hqueued key hkey)
  · intro id x hget
    have ha := halone id x hget
    exact { ha with }

theorem Inv.startMaintenance {sweep : SweepStep} {pass : Option ℕ} (h : m.Inv)
    (halone : sweep ≠ .none → m.tierSweep = none ∧
      ∀ j pass, m.passes.get? j = some pass → pass.running = false) :
    (m.startMaintenance id sweep pass).Inv := by
  have hset : ∀ other x,
      (m.startMaintenance id sweep pass).maintenances.get? other = some x →
      (other = id ∧
        x = ⟨m.pendingDeletes, sweep, .deleting m.pendingDeletes, pass⟩) ∨
        m.maintenances.get? other = some x := by
    intro other x hget
    simp only [TierObjects.startMaintenance, OrderedMap.get?_set] at hget
    split_ifs at hget with hsame
    · exact Or.inl ⟨hsame, (Option.some.inj hget).symm⟩
    · exact Or.inr hget
  apply h.withMaintenances
  · rintro key (hpending | ⟨other, x, hget, hmem⟩)
    · exact absurd hpending List.not_mem_nil
    · rcases hset other x hget with ⟨-, rfl⟩ | hold
      · exact Or.inl hmem
      · exact Or.inr ⟨other, x, hold, hmem⟩
  · intro other x key hget hmem
    rcases hset other x hget with ⟨-, rfl⟩ | hold
    · exact absurd hmem List.not_mem_nil
    · exact h.sweptFree key ⟨other, x, hold, hmem⟩
  · intro other x hget
    rcases hset other x hget with ⟨rfl, rfl⟩ | hold
    · constructor
      · intro hsweep
        exact if_neg hsweep
      · intro hsweep
        exact (halone hsweep).2
      · intro hphase
        exact absurd rfl (hphase m.pendingDeletes)
      · rintro rest hrest key hmem
        obtain rfl := MaintenancePhase.deleting.inj hrest
        exact hmem
    · have ha := h.alone other x hold
      refine { ha with token := ?_ }
      · intro hsweep
        have htoken := ha.token hsweep
        change (if sweep = .none then m.tierSweep else some id) = some other
        split_ifs with hnone
        · exact htoken
        · rw [(halone hnone).1] at htoken
          exact absurd htoken (by simp)

theorem Inv.setPhase {x : Maintenance File}
    {phase : MaintenancePhase File} (h : m.Inv)
    (hget : m.maintenances.get? id = some x)
    (horphans : ∀ key ∈ Maintenance.orphans { x with phase := phase },
      m.references key = false)
    (hsweeps : (∀ rest, phase ≠ .deleting rest) → x.sweep ≠ .none)
    (hrest : ∀ rest, phase = .deleting rest → ∀ key ∈ rest, key ∈ x.keys) :
    (m.setMaintenance id { x with phase := phase }).Inv := by
  have hset : ∀ other y,
      (m.setMaintenance id { x with phase := phase }).maintenances.get?
        other = some y →
      (other = id ∧ y = { x with phase := phase }) ∨
        m.maintenances.get? other = some y := by
    intro other y hy
    simp only [TierObjects.setMaintenance, OrderedMap.get?_set] at hy
    split_ifs at hy with hsame
    · exact Or.inl ⟨hsame, (Option.some.inj hy).symm⟩
    · exact Or.inr hy
  apply h.withMaintenances
  · rintro key (hpending | ⟨other, y, hy, hmem⟩)
    · exact Or.inl hpending
    · rcases hset other y hy with ⟨-, rfl⟩ | hold
      · exact Or.inr ⟨id, x, hget, hmem⟩
      · exact Or.inr ⟨other, y, hold, hmem⟩
  · intro other y key hy hmem
    rcases hset other y hy with ⟨-, rfl⟩ | hold
    · exact horphans key hmem
    · exact h.sweptFree key ⟨other, y, hold, hmem⟩
  · intro other y hy
    rcases hset other y hy with ⟨rfl, rfl⟩ | hold
    · have ha := h.alone other x hget
      refine { ha with sweeps := ?_, rest := ?_ }
      · exact hsweeps
      · exact hrest
    · have ha := h.alone other y hold
      exact { ha with }

theorem Inv.finishMaintenance (h : m.Inv) (x : Maintenance File) :
    (m.finishMaintenance id x).Inv := by
  have hended : Inv { m with
        maintenances := m.maintenances.delete id
        tierSweep :=
          if x.sweep ≠ .none ∧ m.tierSweep = some id then none
          else m.tierSweep } := by
    have hold : ∀ other y, (m.maintenances.delete id).get? other = some y →
        other ≠ id ∧ m.maintenances.get? other = some y := by
      intro other y hy
      rw [OrderedMap.get?_delete] at hy
      split_ifs at hy with hsame
      exact ⟨hsame, hy⟩
    apply h.withMaintenances
    · rintro key (hpending | ⟨other, y, hy, hmem⟩)
      · exact Or.inl hpending
      · exact Or.inr ⟨other, y, (hold other y hy).2, hmem⟩
    · intro other y key hy hmem
      exact h.sweptFree key ⟨other, y, (hold other y hy).2, hmem⟩
    · intro other y hy
      rcases hold other y hy with ⟨hne, hbefore⟩
      have ha := h.alone other y hbefore
      refine { ha with token := ?_ }
      · intro hsweep
        have htoken := ha.token hsweep
        change (if _ then none else m.tierSweep) = some other
        rw [htoken, if_neg]
        rintro ⟨-, hsame⟩
        exact hne (Option.some.inj hsame)
  unfold TierObjects.finishMaintenance
  cases x.pass with
  | none => exact hended
  | some pass => exact hended.endPass pass

section Calls

variable {x : Maintenance File}

theorem Inv.listAgain (h : m.Inv)
    (hget : m.maintenances.get? id = some x) (hsweep : x.sweep ≠ .none) :
    (m.setMaintenance id { x with phase := .listing }).Inv := by
  apply h.setPhase hget
  · intro key hmem
    exact absurd hmem List.not_mem_nil
  · exact fun _ => hsweep
  · intro rest hphase
    exact absurd hphase (by simp)

theorem Inv.afterDeletes (h : m.Inv) (hget : m.maintenances.get? id = some x) :
    (m.afterDeletes id x).Inv := by
  unfold TierObjects.afterDeletes
  split_ifs with hsweep
  · exact h.finishMaintenance x
  · exact h.listAgain hget hsweep

theorem Inv.afterSweepStep {complete : Bool} (h : m.Inv)
    (hget : m.maintenances.get? id = some x) (hsweep : x.sweep ≠ .none) :
    (m.afterSweepStep id x complete).Inv := by
  unfold TierObjects.afterSweepStep
  split_ifs with hdone
  · exact h.finishMaintenance x
  · exact h.listAgain hget hsweep

variable [DecidableEq File]

/-- Keys on their way out are referenced by no row and no upload. -/
theorem Inv.deletable_of_keys {rest : List (SegmentKey File)} (h : m.Inv)
    (hget : m.maintenances.get? id = some x)
    (hphase : x.phase = .deleting rest) (n : ℕ) :
    (m.deleteObjects (rest.take n)).Inv := by
  have hqueued : ∀ key ∈ rest.take n, m.Queued key := by
    intro key hmem
    have hkeys := (h.alone id x hget).rest rest hphase key
      (List.mem_of_mem_take hmem)
    exact Or.inr ⟨id, x, hget, hkeys⟩
  apply h.deleteObjects
  · intro key hmem
    exact h.queuedFree key (hqueued key hmem)
  · intro other pass key hfound hupload hmem
    exact (h.uploads other pass key hfound hupload).queued (hqueued key hmem)

theorem Inv.deletable_of_orphans {orphans : List (SegmentKey File)}
    {complete : Bool} (h : m.Inv)
    (hget : m.maintenances.get? id = some x)
    (hphase : x.phase = .sweeping orphans complete) (n : ℕ) :
    (m.deleteObjects (orphans.take n)).Inv := by
  have hsweep : x.sweep ≠ .none := by
    apply (h.alone id x hget).sweeps
    simp [hphase]
  apply h.deleteObjects
  · intro key hmem
    apply h.sweptFree
    refine ⟨id, x, hget, ?_⟩
    unfold Maintenance.orphans
    rw [hphase]
    exact List.mem_of_mem_take hmem
  · intro other pass key hfound hupload
    have hidle := (h.alone id x hget).passes hsweep other pass hfound
    rw [running_of_upload hupload] at hidle
    exact Bool.noConfusion hidle

variable {m' : TierObjects File}

theorem Inv.deleteBatch (h : m.Inv) (hget : m.maintenances.get? id = some x)
    (hstep : m.deleteBatch id x = some m') : m'.Inv := by
  unfold TierObjects.deleteBatch at hstep
  split at hstep
  · cases hstep
    exact h.afterDeletes hget
  · rename_i rest _ hphase
    cases hstep
    have hdeleted := h.deletable_of_keys hget hphase r2DeleteBatch
    apply hdeleted.setPhase hget
    · intro key hmem
      exact absurd hmem List.not_mem_nil
    · intro hother
      exact absurd rfl (hother _)
    · intro rest' hrest key hmem
      obtain rfl := MaintenancePhase.deleting.inj hrest
      exact (h.alone id x hget).rest rest hphase key
        (List.mem_of_mem_drop hmem)
  · rename_i complete hphase
    cases hstep
    apply h.afterSweepStep hget
    apply (h.alone id x hget).sweeps
    simp [hphase]
  · rename_i orphans complete _ hphase
    cases hstep
    have hdeleted := h.deletable_of_orphans hget hphase r2DeleteBatch
    apply hdeleted.setPhase hget
    · intro key hmem
      apply hdeleted.sweptFree
      refine ⟨id, x, hget, ?_⟩
      unfold Maintenance.orphans
      rw [hphase]
      exact List.mem_of_mem_drop hmem
    · intro hother
      apply (h.alone id x hget).sweeps
      simp [hphase]
    · intro rest hrest
      exact absurd hrest (by simp)
  · exact absurd hstep (by simp)

theorem Inv.deleteFails {taken : Bool} (h : m.Inv)
    (hget : m.maintenances.get? id = some x)
    (hstep : m.deleteFails id x taken = some m') : m'.Inv := by
  unfold TierObjects.deleteFails at hstep
  split at hstep
  · rename_i rest hphase
    cases hstep
    have hrequeue : ∀ mid : TierObjects File, mid.Inv →
        mid.maintenances = m.maintenances →
        ((x.keys.foldl TierObjects.queueDelete mid).afterDeletes id x).Inv := by
      intro mid hmid hsame
      have hkeys : ∀ key ∈ x.keys, mid.Queued key := by
        intro key hmem
        rw [← hsame] at hget
        exact Or.inr ⟨id, x, hget, hmem⟩
      apply (hmid.requeue hkeys).afterDeletes
      rcases foldl_queueDelete_differs x.keys mid with ⟨pending, heq⟩
      rw [heq]
      exact hsame ▸ hget
    cases taken with
    | false => exact hrequeue m h rfl
    | true =>
        exact hrequeue _ (h.deletable_of_keys hget hphase r2DeleteBatch)
          rfl
  · rename_i orphans complete hphase
    cases hstep
    cases taken with
    | false => exact h.finishMaintenance x
    | true =>
        exact (h.deletable_of_orphans hget hphase
          r2DeleteBatch).finishMaintenance x
  · exact absurd hstep (by simp)

omit [DecidableEq File] in
theorem Inv.listPage
    {page : List (SegmentKey File)} {complete : Bool} (h : m.Inv)
    (hget : m.maintenances.get? id = some x)
    (hstep : m.listPage id x page complete = some m') : m'.Inv := by
  unfold TierObjects.listPage at hstep
  split at hstep
  · rename_i hphase
    split_ifs at hstep
    cases hstep
    apply h.setPhase hget
    · intro key hmem
      exact absurd hmem List.not_mem_nil
    · intro hother
      apply (h.alone id x hget).sweeps
      simp [hphase]
    · intro rest hrest
      exact absurd hrest (by simp)
  · exact absurd hstep (by simp)

omit [DecidableEq File] in
theorem Inv.examinePage (h : m.Inv) (hget : m.maintenances.get? id = some x)
    (hstep : m.examinePage id x = some m') : m'.Inv := by
  unfold TierObjects.examinePage at hstep
  split at hstep
  · rename_i page complete hphase
    cases hstep
    apply h.setPhase hget
    · intro key hmem
      have hfree := (List.mem_filter.mp hmem).2
      simpa using hfree
    · intro hother
      apply (h.alone id x hget).sweeps
      simp [hphase]
    · intro rest hrest
      exact absurd hrest (by simp)
  · exact absurd hstep (by simp)

omit [DecidableEq File] in
theorem Inv.tierMaintenance {sweep due : Bool}
    (h : m.Inv) (hstep : m.tierMaintenance id sweep due = some m') :
    m'.Inv := by
  unfold TierObjects.tierMaintenance at hstep
  by_cases hused : m.maintenances.has id = true
  · simp [hused] at hstep
  by_cases hopen : m.readersOpen = true
  · obtain rfl : m = m' := by simpa [hused, hopen] using hstep
    exact h
  · rw [if_neg hused, if_neg hopen] at hstep
    cases hstep
    apply h.startMaintenance
    intro hsweep
    have halone : (m.tierPass.isNone && m.tierSweep.isNone) = true := by
      by_contra hbusy
      rw [Bool.not_eq_true] at hbusy
      exact hsweep (by rw [hbusy]; rfl)
    rw [Bool.and_eq_true, Option.isNone_iff_eq_none,
      Option.isNone_iff_eq_none] at halone
    constructor
    · exact halone.2
    · intro j pass hget
      by_contra hrunning
      have htoken := h.running j pass hget (by simpa using hrunning)
      rw [halone.1] at htoken
      exact absurd htoken (by simp)

omit [DecidableEq File] in
theorem Inv.closePass {pass : PassInFlight File}
    {maintenance : ℕ} {due : Bool} (h : m.Inv)
    (hget : m.passes.get? id = some pass) (hphase : pass.phase = .closing)
    (hstep : m.closePass id pass maintenance due = some m') : m'.Inv := by
  have hrunning : pass.running = true := by
    simp [PassInFlight.running, hphase]
  unfold TierObjects.closePass at hstep
  by_cases hused : m.maintenances.has maintenance = true
  · simp [hused] at hstep
  by_cases hopen : m.readersOpen = true
  · obtain rfl : m.endPass id = m' := by
      simpa [hused, hopen] using hstep
    exact h.endPass id
  · rw [if_neg hused, if_neg hopen] at hstep
    cases hstep
    have hwaits : (m.setPass id (pass.withPhase .maintaining)).Inv :=
      h.setPass_idle hget hrunning rfl
    apply hwaits.startMaintenance
    intro hsweep
    constructor
    · have htoken : m.tierSweep.isNone = true := by
        by_contra hbusy
        simp [hbusy] at hsweep
      exact Option.isNone_iff_eq_none.mp htoken
    · intro j found hfound
      simp only [TierObjects.setPass, OrderedMap.get?_set] at hfound
      split_ifs at hfound with hsame
      · cases hfound
        rfl
      · by_contra hrun
        exact hsame (h.running_unique hget hrunning hfound
          (by simpa using hrun))

end Calls

end TierObjects
end QiForge
