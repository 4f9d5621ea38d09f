import Mathlib.Tactic
import Mathlib.Data.List.DropRight

/-!
# Texts cut into pieces

A text is a list of characters, some of which are hidden.  It is cut at a
separator, behind certain characters, or by a segmenter, and the pieces are
packed again, in order, up to a size.  What these have in common: the pieces
are parts of the text in order, with only hidden characters between them, and
when there is more than one of them each is shorter than the text.
-/

namespace QiForge
namespace Pieces

variable {α : Type}

section Hidden

variable (hidden space : α → Bool)

/-- The characters that are not hidden. -/
def visible (text : List α) : List α := text.filter fun c => !hidden c

def trim (text : List α) : List α := (text.dropWhile space).rdropWhile space

@[simp] theorem visible_nil : visible hidden ([] : List α) = [] := rfl

@[simp] theorem visible_append (front back : List α) :
    visible hidden (front ++ back) =
      visible hidden front ++ visible hidden back :=
  List.filter_append ..

variable {hidden space}

theorem visible_dropWhile (hspace : ∀ c, space c = true → hidden c = true)
    (text : List α) :
    visible hidden (text.dropWhile space) = visible hidden text := by
  induction text with
  | nil => rfl
  | cons c rest ih =>
      by_cases hc : space c = true
      · rw [List.dropWhile_cons_of_pos hc, ih]
        simp [visible, hspace c hc]
      · rw [List.dropWhile_cons_of_neg hc]

theorem visible_takeWhile (hspace : ∀ c, space c = true → hidden c = true)
    (text : List α) : visible hidden (text.takeWhile space) = [] := by
  rw [visible, List.filter_eq_nil_iff]
  intro c hc
  simp [hspace c (List.mem_takeWhile_imp hc)]

/-- Around a trimmed text stands only white space. -/
theorem exists_eq_trim (hspace : ∀ c, space c = true → hidden c = true)
    (text : List α) :
    ∃ front back, text = front ++ trim space text ++ back ∧
      visible hidden front = [] ∧ visible hidden back = [] := by
  refine ⟨text.takeWhile space, (text.dropWhile space).rtakeWhile space, ?_,
    visible_takeWhile hspace text, ?_⟩
  · rw [trim, List.append_assoc, List.rdropWhile_append_rtakeWhile,
      List.takeWhile_append_dropWhile]
  · rw [visible, List.filter_eq_nil_iff]
    intro c hc
    simp [hspace c (List.mem_rtakeWhile_imp hc)]

theorem visible_trim (hspace : ∀ c, space c = true → hidden c = true)
    (text : List α) :
    visible hidden (trim space text) = visible hidden text := by
  obtain ⟨front, back, htext, hfront, hback⟩ := exists_eq_trim hspace text
  conv => rhs; rw [htext]
  rw [visible_append, visible_append, hfront, hback, List.nil_append,
    List.append_nil]

theorem infix_of_trim (text : List α) : trim space text <:+: text :=
  (List.rdropWhile_prefix _ _).isInfix.trans (List.dropWhile_suffix _).isInfix

theorem trim_length_le (text : List α) :
    (trim space text).length ≤ text.length :=
  (infix_of_trim text).length_le

end Hidden

/-! ## Parts of a text -/

/-- The pieces stand in the text in order, and nothing but hidden characters
stands before, between and behind them. -/
inductive Spread (hidden : α → Bool) : List (List α) → List α → Prop
  | nil {gap : List α} (hgap : visible hidden gap = []) : Spread hidden [] gap
  | cons {gap piece rest : List α} {pieces : List (List α)}
      (hgap : visible hidden gap = []) (hrest : Spread hidden pieces rest) :
      Spread hidden (piece :: pieces) (gap ++ piece ++ rest)

namespace Spread

variable {hidden space : α → Bool} {pieces others : List (List α)}
  {text rest gap piece : List α}

theorem lead (h : Spread hidden pieces text)
    (hgap : visible hidden gap = []) : Spread hidden pieces (gap ++ text) := by
  cases h with
  | nil hfirst => exact nil (by rw [visible_append, hgap, hfirst]; rfl)
  | cons hfirst hrest =>
      rw [List.append_assoc, ← List.append_assoc, ← List.append_assoc]
      exact cons (by rw [visible_append, hgap, hfirst]; rfl) hrest

theorem append (h : Spread hidden pieces text)
    (h' : Spread hidden others rest) :
    Spread hidden (pieces ++ others) (text ++ rest) := by
  induction h with
  | nil hgap => exact h'.lead hgap
  | cons hgap _ ih =>
      rw [List.append_assoc, List.cons_append]
      exact cons hgap ih

theorem trail (h : Spread hidden pieces text)
    (hgap : visible hidden gap = []) : Spread hidden pieces (text ++ gap) := by
  have happend := h.append (nil hgap)
  rwa [List.append_nil] at happend

theorem whole (text : List α) : Spread hidden [text] text := by
  have hone := @cons α hidden [] text [] [] rfl (nil rfl)
  rwa [List.nil_append, List.append_nil] at hone

theorem flatten (pieces : List (List α)) :
    Spread hidden pieces pieces.flatten := by
  induction pieces with
  | nil => exact nil rfl
  | cons piece rest ih => exact (whole piece).append ih

theorem visible_eq (h : Spread hidden pieces text) :
    visible hidden pieces.flatten = visible hidden text := by
  induction h with
  | nil hgap => exact hgap.symm
  | cons hgap _ ih =>
      rw [List.flatten_cons, visible_append, visible_append, visible_append,
        hgap, ih, List.nil_append]

theorem map_trim (hspace : ∀ c, space c = true → hidden c = true)
    (h : Spread hidden pieces text) :
    Spread hidden (pieces.map (trim space)) text := by
  induction h with
  | nil hgap => exact nil hgap
  | @cons gap piece rest pieces hgap _ ih =>
      obtain ⟨front, back, hpiece, hfront, hback⟩ :=
        exists_eq_trim hspace piece
      have hone : Spread hidden [trim space piece]
          (front ++ trim space piece) := (whole _).lead hfront
      have hall := ((hone.trail hback).lead hgap).append ih
      rw [← hpiece] at hall
      exact hall

/-- Leaving out pieces that show nothing. -/
theorem filter {p : List α → Bool}
    (hp : ∀ piece, p piece = false → visible hidden piece = [])
    (h : Spread hidden pieces text) :
    Spread hidden (pieces.filter p) text := by
  induction h with
  | nil hgap => exact nil hgap
  | @cons gap piece rest pieces hgap _ ih =>
      cases hpiece : p piece with
      | true =>
          rw [List.filter_cons_of_pos hpiece]
          exact cons hgap ih
      | false =>
          rw [List.filter_cons_of_neg (by simp [hpiece])]
          apply ih.lead
          rw [visible_append, hgap, hp piece hpiece, List.nil_append]

end Spread

/-! ## Cutting -/

/-- Put a character in front of the first piece. -/
def consHead (c : α) : List (List α) → List (List α)
  | [] => [[c]]
  | piece :: rest => (c :: piece) :: rest

theorem consHead_flatten (c : α) (pieces : List (List α)) :
    (consHead c pieces).flatten = c :: pieces.flatten := by
  cases pieces <;> rfl

/-- Pieces that make up a text, none of them empty. -/
structure Parts (pieces : List (List α)) (text : List α) : Prop where
  flatten : pieces.flatten = text
  nonempty : ∀ piece ∈ pieces, piece ≠ []

/-- One of several pieces is shorter than the text. -/
theorem Parts.shorter {pieces : List (List α)} {text piece : List α}
    (hparts : Parts pieces text)
    (hmany : 1 < pieces.length) (hpiece : piece ∈ pieces) :
    piece.length < text.length := by
  obtain ⟨front, back, rfl⟩ := List.append_of_mem hpiece
  have hlength : (front ++ piece :: back).flatten.length =
        front.flatten.length + piece.length + back.flatten.length := by
    simp only [List.flatten_append, List.flatten_cons, List.length_append]
    omega
  rw [← hparts.flatten, hlength]
  rcases front with _ | ⟨first, front⟩
  · rcases back with _ | ⟨next, back⟩
    · simp at hmany
    · have hnext : next ≠ [] := hparts.nonempty next (by simp)
      have hpos := List.length_pos_of_ne_nil hnext
      simp only [List.flatten_cons, List.length_append]
      omega
  · have hfirst : first ≠ [] := hparts.nonempty first (by simp)
    have hpos := List.length_pos_of_ne_nil hfirst
    simp only [List.flatten_cons, List.length_append]
    omega

/-- A text cut behind each character of a kind. -/
def cutAfter (p : α → Bool) : List α → List (List α)
  | [] => []
  | c :: rest => if p c then [c] :: cutAfter p rest
      else consHead c (cutAfter p rest)

theorem cutAfter_parts (p : α → Bool) (text : List α) :
    Parts (cutAfter p text) text := by
  induction text with
  | nil => exact ⟨rfl, fun piece hpiece => absurd hpiece List.not_mem_nil⟩
  | cons c rest ih =>
      simp only [cutAfter]
      split
      · refine ⟨by rw [List.flatten_cons, ih.flatten]; rfl, ?_⟩
        intro piece hpiece
        rcases List.mem_cons.mp hpiece with rfl | hrest
        · exact List.cons_ne_nil _ _
        · exact ih.nonempty piece hrest
      · refine ⟨by rw [consHead_flatten, ih.flatten], ?_⟩
        intro piece hpiece
        cases hcut : cutAfter p rest with
        | nil =>
            rw [hcut, consHead, List.mem_singleton] at hpiece
            rw [hpiece]
            exact List.cons_ne_nil _ _
        | cons first more =>
            rw [hcut, consHead] at hpiece
            rcases List.mem_cons.mp hpiece with rfl | hmore
            · exact List.cons_ne_nil _ _
            · exact ih.nonempty piece
                (by rw [hcut]; exact List.mem_cons_of_mem _ hmore)

section Separator

variable [DecidableEq α]

/-- A text cut at a separator, with this many characters still to skip. -/
def cutFrom (separator : List α) : ℕ → List α → List (List α)
  | _, [] => [[]]
  | skip + 1, _ :: rest => cutFrom separator skip rest
  | 0, c :: rest =>
      if separator.isPrefixOf (c :: rest) then
        [] :: cutFrom separator (separator.length - 1) rest
      else consHead c (cutFrom separator 0 rest)

def cutOn (separator text : List α) : List (List α) := cutFrom separator 0 text

theorem cutFrom_ne_nil (separator : List α) (skip : ℕ) (text : List α) :
    cutFrom separator skip text ≠ [] := by
  induction text generalizing skip with
  | nil => cases skip <;> exact List.cons_ne_nil _ _
  | cons c rest ih =>
      cases skip with
      | succ skip => exact ih skip
      | zero =>
          simp only [cutFrom]
          split
          · exact List.cons_ne_nil _ _
          · cases hcut : cutFrom separator 0 rest <;>
              exact List.cons_ne_nil _ _

omit [DecidableEq α] in
theorem intercalate_consHead (separator : List α) (c : α)
    {pieces : List (List α)} (hpieces : pieces ≠ []) :
    separator.intercalate (consHead c pieces) =
      c :: separator.intercalate pieces := by
  cases pieces with
  | nil => exact absurd rfl hpieces
  | cons piece rest => cases rest <;> simp [consHead]

/-- The pieces, with the separator between them, are the text. -/
theorem cutFrom_join {separator : List α} (hseparator : separator ≠ [])
    (skip : ℕ) (text : List α) (hskip : skip ≤ text.length) :
    separator.intercalate (cutFrom separator skip text) = text.drop skip := by
  induction text generalizing skip with
  | nil => cases skip <;> simp [cutFrom]
  | cons c rest ih =>
      cases skip with
      | succ skip => exact ih skip (by simpa using hskip)
      | zero =>
          simp only [cutFrom, List.drop_zero]
          split
          · next hprefix =>
            obtain ⟨back, hback⟩ := List.isPrefixOf_iff_prefix.mp hprefix
            cases separator with
            | nil => exact absurd rfl hseparator
            | cons first separator =>
                obtain ⟨rfl, rfl⟩ := List.cons.inj hback
                rw [List.intercalate_cons_of_ne_nil (cutFrom_ne_nil _ _ _),
                  ih _ (by simp), List.length_cons, Nat.add_sub_cancel]
                exact congrArg (first :: separator ++ ·) List.drop_left
          · rw [intercalate_consHead separator c (cutFrom_ne_nil _ _ _),
              ih 0 (Nat.zero_le _), List.drop_zero]

theorem cutOn_join {separator : List α} (hseparator : separator ≠ [])
    (text : List α) :
    separator.intercalate (cutOn separator text) = text :=
  cutFrom_join hseparator 0 text (Nat.zero_le _)

omit [DecidableEq α] in
theorem nil_intercalate (pieces : List (List α)) :
    List.intercalate [] pieces = pieces.flatten := by
  induction pieces with
  | nil => rfl
  | cons piece rest ih =>
      rw [List.flatten_cons, ← ih]
      cases rest <;> simp

omit [DecidableEq α] in
theorem intercalate_length (separator : List α) (pieces : List (List α)) :
    (separator.intercalate pieces).length =
      pieces.flatten.length + (pieces.length - 1) * separator.length := by
  induction pieces with
  | nil => simp
  | cons piece rest ih =>
      cases rest with
      | nil => simp
      | cons next rest =>
          simp only [List.intercalate_cons_cons, List.length_append, ih,
            List.flatten_cons, List.length_cons, Nat.add_sub_cancel,
            Nat.add_mul, Nat.one_mul]
          omega

/-- One of several pieces between separators is shorter than the text. -/
theorem cutOn_shorter
    {separator text piece : List α} (hseparator : separator ≠ [])
    (hmany : 1 < (cutOn separator text).length)
    (hpiece : piece ∈ cutOn separator text) :
    piece.length < text.length := by
  have hlength := congrArg List.length (cutOn_join hseparator text)
  rw [intercalate_length] at hlength
  have hpos := List.length_pos_of_ne_nil hseparator
  have hle : piece.length ≤ (cutOn separator text).flatten.length :=
    (List.sublist_flatten_of_mem hpiece).length_le
  have hgap : 1 ≤ ((cutOn separator text).length - 1) * separator.length :=
    Nat.mul_pos (by omega) hpos
  omega

end Separator

/-- A way to read a text as a list of segments. -/
structure Segmenter (α : Type) where
  segment : List α → List (List α)
  parts : ∀ text, Parts (segment text) text

/-! ## Packing -/

/-- The pieces packed so far, and the one that is being filled. -/
structure Packing (α : Type) where
  out : List (List α)
  current : List α

namespace Packing

def start : Packing α := ⟨[], []⟩

/-- What is packed, with the piece being filled unless it is empty. -/
def close (packing : Packing α) : List (List α) :=
  if packing.current = [] then packing.out
  else packing.out ++ [packing.current]

/-- Take the next piece.  One that is too long goes in as `parts`. -/
def step (separator : List α) (size : ℕ) (packing : Packing α)
    (piece : List α) (parts : List (List α)) : Packing α :=
  let candidate :=
    if packing.current = [] then piece
    else packing.current ++ separator ++ piece
  if candidate.length ≤ size then { packing with current := candidate }
  else if size < piece.length then ⟨packing.close ++ parts, []⟩
  else ⟨packing.close, piece⟩

theorem close_all {P : List α → Prop} {packing : Packing α}
    (hout : ∀ piece ∈ packing.out, P piece)
    (hcurrent : packing.current ≠ [] → P packing.current) :
    ∀ piece ∈ packing.close, P piece := by
  unfold close
  split
  · exact hout
  · next hne =>
    intro piece hpiece
    rcases List.mem_append.mp hpiece with hold | hlast
    · exact hout piece hold
    · rw [List.mem_singleton.mp hlast]
      exact hcurrent hne

/-- What was read so far: what is packed and, behind it, the piece that is
being filled. -/
def Spells (hidden : α → Bool) (packing : Packing α) (text : List α) : Prop :=
  ∃ done, Spread hidden packing.out done ∧ text = done ++ packing.current

variable {hidden : α → Bool} {separator text gap piece : List α}
  {packing : Packing α} {parts : List (List α)}

theorem Spells.close (h : packing.Spells hidden text) :
    Spread hidden packing.close text := by
  obtain ⟨done, hdone, rfl⟩ := h
  unfold Packing.close
  split
  · next hcurrent =>
    rw [hcurrent, List.append_nil]
    exact hdone
  · exact hdone.append (.whole _)

theorem Spells.step (h : packing.Spells hidden text)
    (hgap : visible hidden gap = [])
    (hseparator : packing.current = [] ∨ gap = separator) (size : ℕ)
    (hparts : Spread hidden parts piece) :
    (packing.step separator size piece parts).Spells hidden
      (text ++ gap ++ piece) := by
  have hclose := h.close
  simp only [Packing.step]
  by_cases hfits : (if packing.current = [] then piece
      else packing.current ++ separator ++ piece).length ≤ size
  · rw [if_pos hfits]
    obtain ⟨done, hdone, rfl⟩ := h
    by_cases hcurrent : packing.current = []
    · refine ⟨done ++ gap, hdone.trail hgap, ?_⟩
      rw [if_pos hcurrent, hcurrent, List.append_nil]
    · refine ⟨done, hdone, ?_⟩
      rw [if_neg hcurrent, hseparator.resolve_left hcurrent]
      simp only [List.append_assoc]
  · rw [if_neg hfits]
    split
    · refine ⟨text ++ gap ++ piece, ?_, (List.append_nil _).symm⟩
      exact (hclose.trail hgap).append hparts
    · exact ⟨text ++ gap, hclose.trail hgap, rfl⟩

/-- Every piece packed is short or comes from the parts of a long one. -/
structure Bounded (P : List α → Prop) (size : ℕ) (packing : Packing α) :
    Prop where
  out : ∀ piece ∈ packing.out, P piece
  current : packing.current.length ≤ size

theorem Bounded.step {P : List α → Prop} {size : ℕ} {packing : Packing α}
    (hbounded : packing.Bounded P size)
    (hshort : ∀ piece : List α, piece.length ≤ size → P piece)
    (separator : List α) {piece : List α} {parts : List (List α)}
    (hparts : size < piece.length → ∀ part ∈ parts, P part) :
    (packing.step separator size piece parts).Bounded P size := by
  have hclose := close_all hbounded.out fun _ => hshort _ hbounded.current
  simp only [Packing.step]
  generalize (if packing.current = [] then piece
    else packing.current ++ separator ++ piece) = candidate
  split
  · next hfits => exact ⟨hbounded.out, hfits⟩
  · split
    · next hlong =>
      refine ⟨?_, Nat.zero_le _⟩
      intro found hfound
      rcases List.mem_append.mp hfound with hold | hpart
      · exact hclose found hold
      · exact hparts hlong found hpart
    · next hlong => exact ⟨hclose, by simpa using hlong⟩

end Packing

/-- The pieces packed in order, `f` giving the parts of a long one. -/
def pack (separator : List α) (size : ℕ)
    (f : List α → List (List α)) (pieces : List (List α)) : Packing α :=
  pieces.foldl (fun packing piece => packing.step separator size piece
    (f piece)) Packing.start

section Pack

variable {separator : List α} {size : ℕ}
  {f : List α → List (List α)} {pieces : List (List α)}

/-- The pieces, joined by the separator, are what the packing spells. -/
theorem pack_spread {hidden : α → Bool}
    (hseparator : visible hidden separator = [])
    (hf : ∀ piece ∈ pieces, Spread hidden (f piece) piece) :
    Spread hidden (pack separator size f pieces).close
      (separator.intercalate pieces) := by
  have hfold : ∀ (pieces : List (List α)) (packing : Packing α)
      (text : List α), packing.Spells hidden text →
        (∀ piece ∈ pieces, Spread hidden (f piece) piece) →
          (pieces.foldl (fun packing piece =>
            packing.step separator size piece (f piece)) packing).Spells
              hidden (separator.intercalate (text :: pieces)) := by
    intro pieces
    induction pieces with
    | nil =>
        intro packing text h _
        rw [List.intercalate_singleton]
        exact h
    | cons piece rest ih =>
        intro packing text h hf
        have hjoined : separator.intercalate (text :: piece :: rest) =
            separator.intercalate ((text ++ separator ++ piece) :: rest) := by
          cases rest <;> simp [List.intercalate_cons_cons]
        rw [hjoined]
        exact ih _ _
          (h.step hseparator (.inr rfl) size (hf piece List.mem_cons_self))
          fun other hother => hf other (List.mem_cons_of_mem _ hother)
  cases pieces with
  | nil => exact .nil rfl
  | cons piece rest =>
      have hstart : (Packing.start : Packing α).Spells hidden [] :=
        ⟨[], .nil rfl, rfl⟩
      exact (hfold rest _ piece
        (hstart.step (rfl : visible hidden [] = []) (.inl rfl) size
          (hf piece List.mem_cons_self))
        fun other hother => hf other (List.mem_cons_of_mem _ hother)).close

theorem pack_all {P : List α → Prop}
    (hshort : ∀ piece : List α, piece.length ≤ size → P piece)
    (hf : ∀ piece ∈ pieces, size < piece.length → ∀ part ∈ f piece, P part) :
    ∀ piece ∈ (pack separator size f pieces).close, P piece := by
  have hfold : ∀ packing : Packing α, packing.Bounded P size →
      (pieces.foldl (fun packing piece =>
        packing.step separator size piece (f piece))
        packing).Bounded P size := by
    induction pieces with
    | nil => exact fun packing hpacking => hpacking
    | cons piece rest ih =>
        intro packing hpacking
        rw [List.foldl_cons]
        exact ih (fun piece hpiece => hf piece
            (List.mem_cons_of_mem _ hpiece)) _
          (hpacking.step hshort separator (hf piece List.mem_cons_self))
  have hbounded := hfold Packing.start
    ⟨fun piece hpiece => absurd hpiece List.not_mem_nil, Nat.zero_le _⟩
  exact Packing.close_all hbounded.out fun _ => hshort _ hbounded.current

end Pack

end Pieces
end QiForge
