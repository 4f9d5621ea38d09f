import Mathlib.Algebra.Group.Hom.Basic
import Mathlib.Algebra.Order.Group.Basic
import Mathlib.Order.WithBot
import Mathlib.Tactic

/-!
# Steps between neighbours of a list

The shortest step of a list of instants, how it composes over `++`, and the
shortest step when one list of instants is repeated from several starts.
-/

namespace QiForge

namespace Gaps

variable {α : Type*} [AddCommGroup α] [LinearOrder α]

def shortest : List α → WithTop α
  | first :: second :: rest =>
      min (↑(second - first)) (shortest (second :: rest))
  | _ => ⊤

@[simp] theorem shortest_nil : shortest ([] : List α) = ⊤ := rfl

@[simp] theorem shortest_singleton (a : α) : shortest [a] = ⊤ := rfl

theorem shortest_cons_cons (a b : α) (rest : List α) :
    shortest (a :: b :: rest) = min (↑(b - a)) (shortest (b :: rest)) := rfl

theorem shortest_append (front : List α) (a b : α) (back : List α) :
    shortest (front ++ a :: b :: back) = min (shortest (front ++ [a]))
        (min (↑(b - a)) (shortest (b :: back))) := by
  induction front with
  | nil => simp [shortest_cons_cons]
  | cons c front ih =>
    cases front with
    | nil => simp [shortest_cons_cons]
    | cons d front =>
      simp only [List.cons_append, shortest_cons_cons] at ih ⊢
      rw [ih, min_assoc]

theorem shortest_map_add (start : α) (l : List α) :
    shortest (l.map (start + ·)) = shortest l := by
  induction l with
  | nil => rfl
  | cons a l ih =>
    cases l with
    | nil => rfl
    | cons b l =>
      simp only [List.map_cons, shortest_cons_cons] at ih ⊢
      rw [ih, add_sub_add_left_eq_sub]

theorem shortest_map_hom {β : Type*} [AddCommGroup β] [LinearOrder β]
    (f : α →+ β) (hf : Monotone f) (l : List α) :
    shortest (l.map f) = (shortest l).map f := by
  induction l with
  | nil => rfl
  | cons a l ih =>
    cases l with
    | nil => rfl
    | cons b l =>
      simp only [List.map_cons, shortest_cons_cons] at ih ⊢
      rw [ih, hf.withTop_map.map_min, WithTop.map_coe, map_sub]

theorem shortest_eq_top_iff (l : List α) : shortest l = ⊤ ↔ l.length ≤ 1 := by
  match l with
  | [] => simp
  | [a] => simp
  | a :: b :: l => simp [shortest_cons_cons]

/-- Some two neighbours are that close. -/
theorem exists_of_shortest {l : List α} {gap : α} (h : shortest l = gap) :
    ∃ front a b back, l = front ++ a :: b :: back ∧ gap = b - a := by
  induction l with
  | nil => simp at h
  | cons a l ih =>
    cases l with
    | nil => simp at h
    | cons b l =>
      rw [shortest_cons_cons] at h
      rcases min_choice (↑(b - a) : WithTop α) (shortest (b :: l)) with
        hmin | hmin
      · rw [hmin] at h
        exact ⟨[], a, b, l, rfl, (WithTop.coe_inj.mp h).symm⟩
      · rw [hmin] at h
        obtain ⟨front, c, d, back, hl, hgap⟩ := ih h
        exact ⟨a :: front, c, d, back, by rw [hl]; rfl, hgap⟩

/-- No two neighbours are closer. -/
theorem shortest_le (front : List α) (a b : α) (back : List α) :
    shortest (front ++ a :: b :: back) ≤ ((b - a : α) : WithTop α) := by
  rw [shortest_append]
  exact (min_le_right _ _).trans (min_le_left _ _)

theorem le_shortest {l : List α} {bound : WithTop α}
    (h : ∀ front a b back, l = front ++ a :: b :: back →
      bound ≤ ((b - a : α) : WithTop α)) :
    bound ≤ shortest l := by
  cases hl : shortest l with
  | top => exact le_top
  | coe gap =>
    obtain ⟨front, a, b, back, hsplit, hgap⟩ := exists_of_shortest hl
    rw [hgap]
    exact h front a b back hsplit

omit [AddCommGroup α] in
/-- In a sorted list the neighbour is the next instant. -/
theorem next_le {front back : List α} {a b c : α}
    (hsorted : (front ++ a :: b :: back).Pairwise (· < ·))
    (hmem : c ∈ front ++ a :: b :: back) (hlt : a < c) : b ≤ c := by
  rw [List.pairwise_append] at hsorted
  obtain ⟨-, hrest, hfront⟩ := hsorted
  rcases List.mem_append.mp hmem with hin | hin
  · exact absurd (hfront c hin a List.mem_cons_self) hlt.not_gt
  · rcases List.mem_cons.mp hin with rfl | hin
    · exact absurd hlt (lt_irrefl c)
    · rcases List.mem_cons.mp hin with rfl | hin
      · exact le_rfl
      · exact ((List.pairwise_cons.mp hrest.of_cons).1 c hin).le

/-- No two members of a sorted list are closer. -/
theorem shortest_le_of_mem [IsOrderedAddMonoid α] {l : List α} {a c : α}
    (hsorted : l.Pairwise (· < ·)) (ha : a ∈ l) (hc : c ∈ l) (hlt : a < c) :
    shortest l ≤ ((c - a : α) : WithTop α) := by
  obtain ⟨front, back, rfl⟩ := List.append_of_mem ha
  cases back with
  | nil =>
    rcases List.mem_append.mp hc with hin | hin
    · have hca := (List.pairwise_append.mp hsorted).2.2 c hin a (by simp)
      exact absurd hca hlt.not_gt
    · exact absurd (List.mem_singleton.mp hin ▸ hlt) (lt_irrefl a)
  | cons b back =>
    have hnext := next_le hsorted hc hlt
    exact (shortest_le front a b back).trans
      (WithTop.coe_le_coe.mpr (sub_le_sub_right hnext a))

section Straddle

variable {l front front' back back' : List α} {a b p q cut : α}

omit [AddCommGroup α] in
theorem straddle_le (hsorted : l.Pairwise (· < ·))
    (hl : l = front ++ a :: b :: back) (hp : p ∈ l) (hq : q ∈ l)
    (ha : a < cut) (hb : cut ≤ b) (hpcut : p < cut) (hqcut : cut ≤ q) :
    p ≤ a ∧ b ≤ q := by
  subst hl
  constructor
  · by_contra hlt
    have hnext := next_le hsorted hp (not_le.mp hlt)
    exact absurd (hb.trans hnext) hpcut.not_ge
  · exact next_le hsorted hq (ha.trans_le hqcut)

omit [AddCommGroup α] in
/-- Only one pair of neighbours has a given instant between them. -/
theorem straddle_unique (hsorted : l.Pairwise (· < ·))
    (hl : l = front ++ a :: b :: back)
    (hl' : l = front' ++ p :: q :: back') (ha : a < cut) (hb : cut ≤ b)
    (hp : p < cut) (hq : cut ≤ q) : a = p ∧ b = q := by
  obtain ⟨hpa, hbq⟩ := straddle_le hsorted hl (by simp [hl'])
    (by simp [hl']) ha hb hp hq
  obtain ⟨hap, hqb⟩ := straddle_le hsorted hl' (by simp [hl])
    (by simp [hl]) hp hq ha hb
  exact ⟨hap.antisymm hpa, hbq.antisymm hqb⟩

end Straddle

section Repeated

variable [IsOrderedAddMonoid α]

/-- What is left of a step between two starts, from the last instant after
the one to the first after the other. -/
def across (first last : α) : WithTop α → WithTop α :=
  WithTop.map fun step => step - (last - first)

theorem across_min (first last : α) (a b : WithTop α) :
    across first last (min a b) =
      min (across first last a) (across first last b) := by
  have hmono : Monotone fun step : α => step - (last - first) :=
    fun _ _ h => sub_le_sub_right h _
  exact hmono.withTop_map.map_min

/-- The instants `times` after each start. -/
def repeated (starts times : List α) : List α :=
  starts.flatMap fun start => times.map (start + ·)

omit [LinearOrder α] [IsOrderedAddMonoid α] in
theorem repeated_cons (start : α) (starts times : List α) :
    repeated (start :: starts) times =
      times.map (start + ·) ++ repeated starts times := rfl

theorem shortest_repeated {times : List α} {first last : α}
    (hfirst : times.head? = some first)
    (hlast : times.getLast? = some last) (start : α) (starts : List α) :
    shortest (repeated (start :: starts) times) = min (shortest times)
        (across first last (shortest (start :: starts))) := by
  induction starts generalizing start with
  | nil =>
    have hsingle : repeated [start] times = times.map (start + ·) := by
      simp [repeated]
    rw [hsingle, shortest_map_add]
    simp [across]
  | cons next starts ih =>
    obtain ⟨front, rfl⟩ := List.getLast?_eq_some_iff.mp hlast
    have hblock : repeated (next :: starts) (front ++ [last]) =
        (next + first) ::
          (repeated (next :: starts) (front ++ [last])).tail := by
      cases front with
      | nil =>
        cases hfirst
        rfl
      | cons a front =>
        cases hfirst
        rfl
    have hfront : (front ++ [last]).map (start + ·) =
        front.map (start + ·) ++ [start + last] := by simp
    have hgap : next + first - (start + last) =
        (next - start) - (last - first) := by abel
    rw [repeated_cons, hfront, hblock, List.append_assoc,
      List.singleton_append, shortest_append, ← hblock, ← hfront,
      shortest_map_add, ih next, shortest_cons_cons, across_min, hgap]
    show min _ (min _ (min _ _)) = min _ (min (across first last _) _)
    rw [min_left_comm (↑(next - start - (last - first)) : WithTop α),
      ← min_assoc, min_self]
    rfl

end Repeated

end Gaps

end QiForge
