import Mathlib.Tactic
import Mathlib.Data.List.TakeWhile

/-!
# JSON text and its prefixes

Scanners read a value from the front of a text and return the rest.  A scanner
is `Open` when more text behind a rest that is not empty does not change what
it read, and `Closed` when that holds of every rest: an object ends with its
brace whatever follows, a number only with the first character behind it.
From there, cutting the text of an object short leaves a text that does not
parse, or one that parses to the same object.
-/

namespace QiForge

abbrev Scanner (α : Type) := List Char → Option (α × List Char)

namespace Scanner

variable {α β : Type}

def fail : Scanner α := fun _ => none

def pure (a : α) : Scanner α := fun s => some (a, s)

def bind (f : Scanner α) (g : α → Scanner β) : Scanner β := fun s =>
  (f s).bind fun found => g found.1 found.2

def map (h : α → β) (f : Scanner α) : Scanner β := f.bind fun a => pure (h a)

/-- Read the next character and go on with it. -/
def next (f : Char → Scanner α) : Scanner α
  | [] => none
  | c :: s => f c s

/-- Read the next character if it is one of these. -/
def optional (p : Char → Bool) : Scanner (Option Char)
  | [] => some (none, [])
  | c :: s => if p c then some (some c, s) else some (none, c :: s)

def takeWhile (p : Char → Bool) : Scanner (List Char) := fun s =>
  some (s.takeWhile p, s.dropWhile p)

structure Open (f : Scanner α) : Prop where
  suffix : ∀ {s a rest}, f s = some (a, rest) → rest <:+ s
  extends' : ∀ {s a rest}, f s = some (a, rest) → rest ≠ [] →
    ∀ more, f (s ++ more) = some (a, rest ++ more)

structure Closed (f : Scanner α) : Prop where
  suffix : ∀ {s a rest}, f s = some (a, rest) → rest <:+ s
  extends' : ∀ {s a rest}, f s = some (a, rest) →
    ∀ more, f (s ++ more) = some (a, rest ++ more)

variable {f : Scanner α}

theorem Closed.opens (h : f.Closed) : f.Open :=
  ⟨h.suffix, fun hs _ => h.extends' hs⟩

variable {g : α → Scanner β}

theorem bind_eq_some {s rest : List Char} {b : β} :
    f.bind g s = some (b, rest) ↔
      ∃ a mid, f s = some (a, mid) ∧ g a mid = some (b, rest) := by
  simp [Scanner.bind, Option.bind_eq_some_iff]

theorem fail_closed : (fail : Scanner α).Closed :=
  ⟨fun h => absurd h (by simp [fail]), fun h => absurd h (by simp [fail])⟩

theorem pure_closed (a : α) : (pure a).Closed := by
  constructor
  · intro s b rest h
    obtain ⟨-, rfl⟩ := Prod.mk.inj (Option.some.inj h)
    exact List.suffix_refl _
  · intro s b rest h more
    obtain ⟨rfl, rfl⟩ := Prod.mk.inj (Option.some.inj h)
    rfl

theorem bind_open (hf : f.Open) (hg : ∀ a, (g a).Open) : (f.bind g).Open := by
  constructor
  · intro s b rest h
    rcases bind_eq_some.mp h with ⟨a, mid, hfirst, hsecond⟩
    exact ((hg a).suffix hsecond).trans (hf.suffix hfirst)
  · intro s b rest h hne more
    rcases bind_eq_some.mp h with ⟨a, mid, hfirst, hsecond⟩
    have hmid : mid ≠ [] := by
      rintro rfl
      exact hne (List.suffix_nil.mp ((hg a).suffix hsecond))
    rw [bind_eq_some]
    exact ⟨a, mid ++ more, hf.extends' hfirst hmid more,
      (hg a).extends' hsecond hne more⟩

/-- Behind a scanner that needs a character, an open one is closed. -/
theorem bind_closed (hf : f.Open)
    (hg : ∀ a, (g a).Closed) (hneeds : ∀ a, g a [] = none) :
    (f.bind g).Closed := by
  constructor
  · intro s b rest h
    rcases bind_eq_some.mp h with ⟨a, mid, hfirst, hsecond⟩
    exact ((hg a).suffix hsecond).trans (hf.suffix hfirst)
  · intro s b rest h more
    rcases bind_eq_some.mp h with ⟨a, mid, hfirst, hsecond⟩
    have hmid : mid ≠ [] := by
      rintro rfl
      rw [hneeds a] at hsecond
      exact absurd hsecond (by simp)
    rw [bind_eq_some]
    exact ⟨a, mid ++ more, hf.extends' hfirst hmid more,
      (hg a).extends' hsecond more⟩

theorem closed_bind (hf : f.Closed)
    (hg : ∀ a, (g a).Closed) : (f.bind g).Closed := by
  constructor
  · intro s b rest h
    rcases bind_eq_some.mp h with ⟨a, mid, hfirst, hsecond⟩
    exact ((hg a).suffix hsecond).trans (hf.suffix hfirst)
  · intro s b rest h more
    rcases bind_eq_some.mp h with ⟨a, mid, hfirst, hsecond⟩
    rw [bind_eq_some]
    exact ⟨a, mid ++ more, hf.extends' hfirst more,
      (hg a).extends' hsecond more⟩

theorem map_closed (h : α → β) (hf : f.Closed) : (f.map h).Closed :=
  closed_bind hf fun a => pure_closed (h a)

theorem map_open (h : α → β) (hf : f.Open) : (f.map h).Open :=
  bind_open hf fun a => (pure_closed (h a)).opens

theorem next_closed {f : Char → Scanner α} (hf : ∀ c, (f c).Closed) :
    (next f).Closed := by
  constructor
  · intro s a rest h
    cases s with
    | nil => exact absurd h (by simp [next])
    | cons c s => exact ((hf c).suffix h).trans (List.suffix_cons c s)
  · intro s a rest h more
    cases s with
    | nil => exact absurd h (by simp [next])
    | cons c s => exact (hf c).extends' h more

theorem next_open {f : Char → Scanner α} (hf : ∀ c, (f c).Open) :
    (next f).Open := by
  constructor
  · intro s a rest h
    cases s with
    | nil => exact absurd h (by simp [next])
    | cons c s => exact ((hf c).suffix h).trans (List.suffix_cons c s)
  · intro s a rest h hne more
    cases s with
    | nil => exact absurd h (by simp [next])
    | cons c s => exact (hf c).extends' h hne more

theorem optional_open (p : Char → Bool) : (optional p).Open := by
  constructor
  · intro s a rest h
    cases s with
    | nil =>
        obtain ⟨-, rfl⟩ := Prod.mk.inj (Option.some.inj h)
        exact List.suffix_refl _
    | cons c s =>
        dsimp only [optional] at h
        split_ifs at h
        · obtain ⟨-, rfl⟩ := Prod.mk.inj (Option.some.inj h)
          exact List.suffix_cons c s
        · obtain ⟨-, rfl⟩ := Prod.mk.inj (Option.some.inj h)
          exact List.suffix_refl _
  · intro s a rest h hne more
    cases s with
    | nil =>
        obtain ⟨-, rfl⟩ := Prod.mk.inj (Option.some.inj h)
        exact absurd rfl hne
    | cons c s =>
        dsimp only [optional] at h
        split_ifs at h with hc
        · obtain ⟨rfl, rfl⟩ := Prod.mk.inj (Option.some.inj h)
          simp [optional, hc]
        · obtain ⟨rfl, rfl⟩ := Prod.mk.inj (Option.some.inj h)
          simp [optional, hc]

theorem takeWhile_append {p : Char → Bool} {s : List Char}
    (hne : s.dropWhile p ≠ []) (more : List Char) :
    (s ++ more).takeWhile p = s.takeWhile p ∧
      (s ++ more).dropWhile p = s.dropWhile p ++ more := by
  induction s with
  | nil => exact absurd rfl hne
  | cons c s ih =>
      by_cases hc : p c = true
      · simp only [List.dropWhile_cons, hc, if_true] at hne
        simp [hc, ih hne]
      · simp [hc]

theorem takeWhile_open (p : Char → Bool) : (takeWhile p).Open := by
  constructor
  · intro s a rest h
    obtain ⟨-, rfl⟩ := Prod.mk.inj (Option.some.inj h)
    exact List.dropWhile_suffix p
  · intro s a rest h hne more
    obtain ⟨rfl, rfl⟩ := Prod.mk.inj (Option.some.inj h)
    rcases takeWhile_append hne more with ⟨htake, hdrop⟩
    unfold takeWhile
    rw [htake, hdrop]

/-- What the scanner read ends with the character. -/
def EndsWith (last : Char) (f : Scanner α) : Prop :=
  ∀ s a rest, f s = some (a, rest) → ∃ front, s = front ++ last :: rest

/-- The same of a scanner that was handed the first character. -/
def EndsFrom (last : Char) (f : Char → Scanner α) : Prop :=
  ∀ c s a rest, f c s = some (a, rest) →
    ∃ front, c :: s = front ++ last :: rest

theorem fail_endsWith (last : Char) : (fail : Scanner α).EndsWith last :=
  fun _ _ _ h => absurd h (by simp [fail])

theorem EndsFrom.next {last : Char} {f : Char → Scanner α}
    (hf : EndsFrom last f) : (next f).EndsWith last := by
  intro s a rest h
  cases s with
  | nil => exact absurd h (by simp [Scanner.next])
  | cons c s => exact hf c s a rest h

theorem EndsWith.from {last c : Char}
    (hf : f.EndsWith last) {s rest : List Char} {a : α}
    (h : f s = some (a, rest)) :
    ∃ front, c :: s = front ++ last :: rest := by
  rcases hf s a rest h with ⟨front, rfl⟩
  exact ⟨c :: front, rfl⟩

theorem bind_endsWith {last : Char}
    (hf : f.Open) (hg : ∀ a, (g a).EndsWith last) :
    (f.bind g).EndsWith last := by
  intro s b rest h
  rcases bind_eq_some.mp h with ⟨a, mid, hfirst, hsecond⟩
  rcases hf.suffix hfirst with ⟨read, rfl⟩
  rcases hg a _ _ _ hsecond with ⟨front, rfl⟩
  exact ⟨read ++ front, by simp⟩

theorem map_endsWith {last : Char} (h : α → β)
    (hf : f.EndsWith last) : (f.map h).EndsWith last := by
  intro s b rest hs
  rcases bind_eq_some.mp hs with ⟨a, mid, hfirst, hsecond⟩
  obtain ⟨-, rfl⟩ := Prod.mk.inj (Option.some.inj hsecond)
  exact hf s a mid hfirst

/-- What one scanner reads the other reads as well. -/
def Within (f g : Scanner α) : Prop :=
  ∀ {s a rest}, f s = some (a, rest) → g s = some (a, rest)

theorem Within.refl (f : Scanner α) : f.Within f := fun h => h

theorem fail_within (f : Scanner α) : (fail : Scanner α).Within f :=
  fun h => absurd h (by simp [fail])

theorem bind_within {f f' : Scanner α} {g g' : α → Scanner β}
    (hf : f.Within f') (hg : ∀ a, (g a).Within (g' a)) :
    (f.bind g).Within (f'.bind g') := by
  intro s b rest h
  rcases bind_eq_some.mp h with ⟨a, mid, hfirst, hsecond⟩
  exact bind_eq_some.mpr ⟨a, mid, hf hfirst, hg a hsecond⟩

theorem map_within {f f' : Scanner α} (h : α → β) (hf : f.Within f') :
    (f.map h).Within (f'.map h) :=
  bind_within hf fun a => Within.refl (pure (h a))

theorem next_within {f f' : Char → Scanner α}
    (hf : ∀ c, (f c).Within (f' c)) : (next f).Within (next f') := by
  intro s a rest h
  cases s with
  | nil => exact absurd h (by simp [next])
  | cons c s => exact hf c h

end Scanner

/-- A string as its UTF-16 code units. -/
abbrev JsString := List UInt16

def utf16Char (c : Char) : JsString :=
  if c.toNat < 0x10000 then [UInt16.ofNat c.toNat]
  else
    [UInt16.ofNat (0xD800 + (c.toNat - 0x10000) / 0x400),
      UInt16.ofNat (0xDC00 + (c.toNat - 0x10000) % 0x400)]

def utf16 (s : List Char) : JsString := s.flatMap utf16Char

/-- A number is `mantissa * 10 ^ exponent`. -/
inductive Json where
  | null
  | bool (b : Bool)
  | num (mantissa exponent : ℤ)
  | str (s : JsString)
  | arr (items : List Json)
  | obj (fields : List (JsString × Json))

namespace Json

/-- The last field of a name counts. -/
def get? (json : Json) (name : String) : Option Json :=
  match json with
  | .obj fields =>
      (fields.reverse.find? fun field =>
        decide (field.1 = utf16 name.toList)).map Prod.snd
  | _ => none

open Scanner

def isSpace (c : Char) : Bool := c = ' ' || c = '\t' || c = '\n' || c = '\r'

def token {α : Type} (f : Scanner α) : Scanner α :=
  (takeWhile isSpace).bind fun _ => f

def escaped (c : Char) : Option UInt16 :=
  if c = '"' then some 0x22
  else if c = '\\' then some 0x5C
  else if c = '/' then some 0x2F
  else if c = 'b' then some 0x08
  else if c = 'f' then some 0x0C
  else if c = 'n' then some 0x0A
  else if c = 'r' then some 0x0D
  else if c = 't' then some 0x09
  else none

def hexDigit (c : Char) : Option ℕ :=
  if '0' ≤ c ∧ c ≤ '9' then some (c.toNat - '0'.toNat)
  else if 'a' ≤ c ∧ c ≤ 'f' then some (c.toNat - 'a'.toNat + 10)
  else if 'A' ≤ c ∧ c ≤ 'F' then some (c.toNat - 'A'.toNat + 10)
  else none

/-- Where a string scanner is: in plain text, behind a backslash, or before
the last `left` hexadecimal digits of an escape. -/
inductive StringState where
  | plain
  | escape
  | hex (left : ℕ) (value : ℕ)

def stringFrom : StringState → Scanner JsString
  | _, [] => none
  | .plain, c :: s =>
      if c = '"' then some ([], s)
      else if c = '\\' then stringFrom .escape s
      else if c.toNat < 0x20 then none
      else
        (stringFrom .plain s).map fun found =>
          (utf16Char c ++ found.1, found.2)
  | .escape, c :: s =>
      if c = 'u' then stringFrom (.hex 3 0) s
      else
        (escaped c).bind fun unit =>
          (stringFrom .plain s).map fun found => (unit :: found.1, found.2)
  | .hex left value, c :: s =>
      (hexDigit c).bind fun digit =>
        match left with
        | 0 =>
            (stringFrom .plain s).map fun found =>
              (UInt16.ofNat (value * 16 + digit) :: found.1, found.2)
        | left + 1 => stringFrom (.hex left (value * 16 + digit)) s

/-- A string behind its opening quote. -/
def string : Scanner JsString := stringFrom .plain

def natOf (digits : List Char) : ℕ := Nat.ofDigitChars 10 digits 0

def digits : Scanner (List Char) := next fun c => if c.isDigit then
    (takeWhile Char.isDigit).map fun more => c :: more
  else fail

/-- The digits before the point, from the first one: no leading zero. -/
def integer (c : Char) : Scanner (List Char) :=
  if c = '0' then pure [c]
  else if c.isDigit then (takeWhile Char.isDigit).map fun more => c :: more
  else fail

def fraction : Scanner (List Char) :=
  (optional fun c => c = '.').bind fun point =>
    match point with
    | none => pure []
    | some _ => digits

def exponent : Scanner ℤ :=
  (optional fun c => c = 'e' || c = 'E').bind fun mark =>
    match mark with
    | none => pure 0
    | some _ =>
        (optional fun c => c = '+' || c = '-').bind fun sign =>
          digits.map fun found =>
            if sign = some '-' then -(natOf found : ℤ) else natOf found

def unsigned (negative : Bool) (c : Char) : Scanner Json :=
  (integer c).bind fun whole =>
    fraction.bind fun part =>
      exponent.map fun power =>
        let mantissa : ℤ := natOf (whole ++ part)
        .num (if negative then -mantissa else mantissa) (power - part.length)

/-- A number, from its first character. -/
def number (c : Char) : Scanner Json :=
  if c = '-' then next (unsigned true) else unsigned false c

def literal {α : Type} (a : α) : List Char → Scanner α
  | [] => pure a
  | c :: word => next fun d => if d = c then literal a word else fail

mutual

/-- A value, from its first character, at most `fuel` steps deep. -/
def value : ℕ → Char → Scanner Json
  | 0, _ => fail
  | fuel + 1, c =>
      if c = '{' then (token (next (fields fuel))).map .obj
      else if c = '[' then (token (next (items fuel))).map .arr
      else if c = '"' then string.map .str
      else if c = 'n' then literal .null "ull".toList
      else if c = 't' then literal (.bool true) "rue".toList
      else if c = 'f' then literal (.bool false) "alse".toList
      else number c

/-- The fields of an object up to its brace. -/
def fields : ℕ → Char → Scanner (List (JsString × Json))
  | 0, _ => fail
  | fuel + 1, c =>
      if c = '}' then pure [] else field fuel c

def field : ℕ → Char → Scanner (List (JsString × Json))
  | 0, _ => fail
  | fuel + 1, c =>
      if c = '"' then
        string.bind fun name =>
          token <| next fun colon =>
            if colon = ':' then
              (token (next (value fuel))).bind fun found =>
                token <| next fun behind =>
                  if behind = ',' then
                    (token (next (field fuel))).map fun rest =>
                      (name, found) :: rest
                  else if behind = '}' then pure [(name, found)]
                  else fail
            else fail
      else fail

/-- The items of an array up to its bracket. -/
def items : ℕ → Char → Scanner (List Json)
  | 0, _ => fail
  | fuel + 1, c =>
      if c = ']' then pure [] else item fuel c

def item : ℕ → Char → Scanner (List Json)
  | 0, _ => fail
  | fuel + 1, c =>
      (value fuel c).bind fun found =>
        token <| next fun behind =>
          if behind = ',' then
            (token (next (item fuel))).map fun rest => found :: rest
          else if behind = ']' then pure [found]
          else fail

end

/-- Reading a character takes at most two steps. -/
def fuelFor (s : List Char) : ℕ := 2 * s.length + 2

def parse (s : List Char) : Option Json :=
  match token (next (value (fuelFor s))) s with
  | none => none
  | some (json, rest) =>
      if rest.all isSpace then some json else none

variable {α : Type}

theorem token_closed {f : Scanner α} (hf : f.Closed)
    (hneeds : f [] = none) : (token f).Closed :=
  bind_closed (takeWhile_open isSpace) (fun _ => hf) fun _ => hneeds

theorem token_open {f : Scanner α} (hf : f.Open) : (token f).Open :=
  bind_open (takeWhile_open isSpace) fun _ => hf

theorem stringFrom_closed (state : StringState) :
    (stringFrom state).Closed := by
  have hmain : ∀ (s : List Char) (state : StringState) (a : JsString)
      (rest : List Char), stringFrom state s = some (a, rest) →
      rest <:+ s ∧
        ∀ more, stringFrom state (s ++ more) = some (a, rest ++ more) := by
    intro s
    induction s with
    | nil =>
        intro state a rest h
        exact absurd h (by simp [stringFrom])
    | cons c s ih =>
        intro state a rest h
        have hcons : ∀ {rest : List Char}, rest <:+ s → rest <:+ c :: s :=
          fun hs => hs.trans (List.suffix_cons c s)
        cases state with
        | plain =>
            simp only [stringFrom] at h
            split_ifs at h with hquote hslash hcontrol
            · obtain ⟨rfl, rfl⟩ := Prod.mk.inj (Option.some.inj h)
              exact ⟨List.suffix_cons _ _, fun more => by
                simp [stringFrom, hquote]⟩
            · rcases ih _ _ _ h with ⟨hsuffix, hmore⟩
              refine ⟨hcons hsuffix, fun more => ?_⟩
              simp [stringFrom, hslash, hmore more]
            · rcases Option.map_eq_some_iff.mp h with
                ⟨⟨a', rest'⟩, hfound, heq⟩
              obtain ⟨rfl, rfl⟩ := Prod.mk.inj heq
              rcases ih _ _ _ hfound with ⟨hsuffix, hmore⟩
              refine ⟨hcons hsuffix, fun more => ?_⟩
              simp [stringFrom, hquote, hslash, hcontrol, hmore more]
        | escape =>
            simp only [stringFrom] at h
            split_ifs at h with hu
            · rcases ih _ _ _ h with ⟨hsuffix, hmore⟩
              refine ⟨hcons hsuffix, fun more => ?_⟩
              simp [stringFrom, hu, hmore more]
            · rcases Option.bind_eq_some_iff.mp h with ⟨unit, hunit, hmap⟩
              rcases Option.map_eq_some_iff.mp hmap with
                ⟨⟨a', rest'⟩, hfound, heq⟩
              obtain ⟨rfl, rfl⟩ := Prod.mk.inj heq
              rcases ih _ _ _ hfound with ⟨hsuffix, hmore⟩
              refine ⟨hcons hsuffix, fun more => ?_⟩
              simp [stringFrom, hu, hunit, hmore more]
        | hex left found =>
            simp only [stringFrom] at h
            rcases Option.bind_eq_some_iff.mp h with ⟨digit, hdigit, hrest⟩
            cases left with
            | zero =>
                rcases Option.map_eq_some_iff.mp hrest with
                  ⟨⟨a', rest'⟩, hfound, heq⟩
                obtain ⟨rfl, rfl⟩ := Prod.mk.inj heq
                rcases ih _ _ _ hfound with ⟨hsuffix, hmore⟩
                refine ⟨hcons hsuffix, fun more => ?_⟩
                simp [stringFrom, hdigit, hmore more]
            | succ left =>
                rcases ih _ _ _ hrest with ⟨hsuffix, hmore⟩
                refine ⟨hcons hsuffix, fun more => ?_⟩
                simp [stringFrom, hdigit, hmore more]
  exact ⟨fun h => (hmain _ _ _ _ h).1, fun h => (hmain _ _ _ _ h).2⟩

theorem digits_open : digits.Open := by
  apply next_open
  intro c
  split_ifs
  · exact map_open _ (takeWhile_open Char.isDigit)
  · exact fail_closed.opens

theorem integer_open (c : Char) : (integer c).Open := by
  unfold integer
  split_ifs
  · exact (pure_closed _).opens
  · exact map_open _ (takeWhile_open Char.isDigit)
  · exact fail_closed.opens

theorem fraction_open : fraction.Open := by
  apply bind_open (optional_open _)
  intro point
  cases point with
  | none => exact (pure_closed _).opens
  | some _ => exact digits_open

theorem exponent_open : exponent.Open := by
  apply bind_open (optional_open _)
  intro mark
  cases mark with
  | none => exact (pure_closed _).opens
  | some _ =>
      apply bind_open (optional_open _)
      intro sign
      exact map_open _ digits_open

theorem unsigned_open (negative : Bool) (c : Char) :
    (unsigned negative c).Open := by
  apply bind_open (integer_open c)
  intro whole
  apply bind_open fraction_open
  intro part
  exact map_open _ exponent_open

theorem number_open (c : Char) : (number c).Open := by
  unfold number
  split_ifs
  · exact next_open (unsigned_open true)
  · exact unsigned_open false c

theorem literal_closed (a : α) (word : List Char) :
    (literal a word).Closed := by
  induction word with
  | nil => exact pure_closed a
  | cons c word ih =>
      apply next_closed
      intro d
      split_ifs
      · exact ih
      · exact fail_closed

/-- What stands between two items, or behind the last one. -/
theorem separator_closed {f : Char → Scanner α}
    (hf : ∀ c, (f c).Closed) : (token (next f)).Closed :=
  token_closed (next_closed hf) rfl

theorem grammar_closed (fuel : ℕ) :
    (∀ c, (value fuel c).Open) ∧ (∀ c, (fields fuel c).Closed) ∧
      (∀ c, (field fuel c).Closed) ∧ (∀ c, (items fuel c).Closed) ∧
      ∀ c, (item fuel c).Closed := by
  induction fuel with
  | zero =>
      exact ⟨fun _ => fail_closed.opens, fun _ => fail_closed,
        fun _ => fail_closed, fun _ => fail_closed, fun _ => fail_closed⟩
  | succ fuel ih =>
      rcases ih with ⟨hvalue, hfields, hfield, hitems, hitem⟩
      refine ⟨?_, ?_, ?_, ?_, ?_⟩
      · intro c
        unfold value
        split_ifs
        · exact (map_closed _ (separator_closed hfields)).opens
        · exact (map_closed _ (separator_closed hitems)).opens
        · exact (map_closed _ (stringFrom_closed .plain)).opens
        · exact (literal_closed _ _).opens
        · exact (literal_closed _ _).opens
        · exact (literal_closed _ _).opens
        · exact number_open c
      · intro c
        unfold fields
        split_ifs
        · exact pure_closed _
        · exact hfield c
      · intro c
        unfold field
        split_ifs
        · apply closed_bind (stringFrom_closed .plain)
          intro name
          apply separator_closed
          intro colon
          split_ifs
          · apply bind_closed (token_open (next_open hvalue))
            · intro found
              apply separator_closed
              intro behind
              split_ifs
              · exact map_closed _ (separator_closed hfield)
              · exact pure_closed _
              · exact fail_closed
            · exact fun _ => rfl
          · exact fail_closed
        · exact fail_closed
      · intro c
        unfold items
        split_ifs
        · exact pure_closed _
        · exact hitem c
      · intro c
        unfold item
        apply bind_closed (hvalue c)
        · intro found
          apply separator_closed
          intro behind
          split_ifs
          · exact map_closed _ (separator_closed hitem)
          · exact pure_closed _
          · exact fail_closed
        · exact fun _ => rfl

theorem token_within {f f' : Char → Scanner α}
    (hf : ∀ c, (f c).Within (f' c)) :
    (token (next f)).Within (token (next f')) :=
  bind_within (Within.refl _) fun _ => next_within hf

/-- More fuel reads no less. -/
theorem grammar_within (fuel : ℕ) :
    (∀ c, (value fuel c).Within (value (fuel + 1) c)) ∧
      (∀ c, (fields fuel c).Within (fields (fuel + 1) c)) ∧
      (∀ c, (field fuel c).Within (field (fuel + 1) c)) ∧
      (∀ c, (items fuel c).Within (items (fuel + 1) c)) ∧
      ∀ c, (item fuel c).Within (item (fuel + 1) c) := by
  induction fuel with
  | zero =>
      exact ⟨fun _ => fail_within _, fun _ => fail_within _,
        fun _ => fail_within _, fun _ => fail_within _,
        fun _ => fail_within _⟩
  | succ fuel ih =>
      rcases ih with ⟨hvalue, hfields, hfield, hitems, hitem⟩
      refine ⟨?_, ?_, ?_, ?_, ?_⟩
      · intro c
        rw [value, value]
        split_ifs
        · exact map_within _ (token_within hfields)
        · exact map_within _ (token_within hitems)
        · exact Within.refl _
        · exact Within.refl _
        · exact Within.refl _
        · exact Within.refl _
        · exact Within.refl _
      · intro c
        rw [fields, fields]
        split_ifs
        · exact Within.refl _
        · exact hfield c
      · intro c
        rw [field, field]
        split_ifs
        · apply bind_within (Within.refl _)
          intro name
          apply token_within
          intro colon
          split_ifs
          · apply bind_within (token_within hvalue)
            intro found
            apply token_within
            intro behind
            split_ifs
            · exact map_within _ (token_within hfield)
            · exact Within.refl _
            · exact Within.refl _
          · exact Within.refl _
        · exact Within.refl _
      · intro c
        rw [items, items]
        split_ifs
        · exact Within.refl _
        · exact hitem c
      · intro c
        rw [item, item]
        apply bind_within (hvalue c)
        intro found
        apply token_within
        intro behind
        split_ifs
        · exact map_within _ (token_within hitem)
        · exact Within.refl _
        · exact Within.refl _

theorem value_within {fuel fuel' : ℕ} (h : fuel ≤ fuel') (c : Char) :
    (value fuel c).Within (value fuel' c) := by
  induction fuel', h using Nat.le_induction with
  | base => exact Within.refl _
  | succ fuel' _ ih => exact fun hs => (grammar_within fuel').1 c (ih hs)

theorem token_endsWith {last : Char} {f : Char → Scanner α}
    (hf : EndsFrom last f) : (token (next f)).EndsWith last :=
  bind_endsWith (takeWhile_open isSpace) fun _ => hf.next

/-- The fields of an object end with its brace. -/
theorem fields_endsFrom (fuel : ℕ) :
    EndsFrom '}' (fields fuel) ∧ EndsFrom '}' (field fuel) := by
  induction fuel with
  | zero =>
      constructor
      · exact fun c s found rest h => absurd h (by simp [fields, fail])
      · exact fun c s found rest h => absurd h (by simp [field, fail])
  | succ fuel ih =>
      constructor
      · intro c s found rest h
        rw [fields] at h
        split_ifs at h with hbrace
        · obtain ⟨-, rfl⟩ := Prod.mk.inj (Option.some.inj h)
          exact ⟨[], by rw [hbrace]; rfl⟩
        · exact ih.2 c s found rest h
      · intro c s found rest h
        rw [field] at h
        split_ifs at h
        · refine EndsWith.from ?_ h
          apply bind_endsWith (stringFrom_closed .plain).opens
          intro name
          apply token_endsWith
          intro colon s found rest h
          dsimp only at h
          split_ifs at h
          · refine EndsWith.from ?_ h
            apply bind_endsWith
              (token_open (next_open (grammar_closed fuel).1))
            intro found
            apply token_endsWith
            intro behind s found rest h
            dsimp only at h
            split_ifs at h with hcomma hbrace
            · exact (map_endsWith _ (token_endsWith ih.2)).from h
            · obtain ⟨-, rfl⟩ := Prod.mk.inj (Option.some.inj h)
              exact ⟨[], by rw [hbrace]; rfl⟩
            · exact absurd h (by simp [fail])
          · exact absurd h (by simp [fail])
        · exact absurd h (by simp [fail])

section Objects

variable {fuel : ℕ} {c : Char} {s rest : List Char} {json : Json}

theorem map_eq_some {α β : Type} {h : α → β} {f : Scanner α} {b : β}
    (hs : f.map h s = some (b, rest)) : ∃ a, f s = some (a, rest) ∧ h a = b := by
  rcases bind_eq_some.mp hs with ⟨a, mid, hfirst, hsecond⟩
  obtain ⟨rfl, rfl⟩ := Prod.mk.inj (Option.some.inj hsecond)
  exact ⟨a, hfirst, rfl⟩

theorem literal_eq_some {a b : Json} {word : List Char}
    (h : literal a word s = some (b, rest)) : b = a := by
  induction word generalizing s with
  | nil => exact (Prod.mk.inj (Option.some.inj h)).1.symm
  | cons d word ih =>
      cases s with
      | nil => exact absurd h (by simp [literal, next])
      | cons c s =>
          simp only [literal, next] at h
          split_ifs at h
          · exact ih h
          · exact absurd h (by simp [fail])

variable {found : List (JsString × Json)}

theorem unsigned_ne_obj {negative : Bool} :
    unsigned negative c s ≠ some (.obj found, rest) := by
  intro h
  rcases bind_eq_some.mp h with ⟨whole, mid, -, hfraction⟩
  rcases bind_eq_some.mp hfraction with ⟨part, mid', -, hexponent⟩
  rcases map_eq_some hexponent with ⟨power, -, heq⟩
  exact absurd heq (by simp)

/-- Only a brace opens an object. -/
theorem value_obj
    (h : value fuel c s = some (.obj found, rest)) : c = '{' := by
  cases fuel with
  | zero => exact absurd h (by simp [value, fail])
  | succ fuel =>
      rw [value] at h
      split_ifs at h with hbrace
      · exact hbrace
      · rcases map_eq_some h with ⟨_, -, heq⟩
        exact absurd heq (by simp)
      · rcases map_eq_some h with ⟨_, -, heq⟩
        exact absurd heq (by simp)
      · exact absurd (literal_eq_some h) (by simp)
      · exact absurd (literal_eq_some h) (by simp)
      · exact absurd (literal_eq_some h) (by simp)
      · unfold number at h
        split_ifs at h
        · cases s with
          | nil => exact absurd h (by simp [next])
          | cons d s => exact absurd h unsigned_ne_obj
        · exact absurd h unsigned_ne_obj

theorem value_brace_closed (fuel : ℕ) : (value fuel '{').Closed := by
  cases fuel with
  | zero => exact fail_closed
  | succ fuel =>
      have heq : value (fuel + 1) '{' =
          (token (next (fields fuel))).map .obj := by
        rw [value, if_pos rfl]
      rw [heq]
      exact map_closed _ (separator_closed (grammar_closed fuel).2.1)

theorem value_brace_endsWith (fuel : ℕ) : (value fuel '{').EndsWith '}' := by
  cases fuel with
  | zero => exact fail_endsWith '}'
  | succ fuel =>
      have heq : value (fuel + 1) '{' =
          (token (next (fields fuel))).map .obj := by
        rw [value, if_pos rfl]
      rw [heq]
      exact map_endsWith _ (token_endsWith (fields_endsFrom fuel).1)

theorem parse_eq_some (h : parse s = some json) :
    ∃ c behind rest, s.dropWhile isSpace = c :: behind ∧
      value (fuelFor s) c behind = some (json, rest) ∧
      rest.all isSpace = true := by
  unfold parse at h
  split at h
  · exact absurd h (by simp)
  · rename_i found rest hread
    split_ifs at h with hspace
    obtain rfl := Option.some.inj h
    have hnext : next (value (fuelFor s)) (s.dropWhile isSpace) =
        some (found, rest) := hread
    cases hdrop : s.dropWhile isSpace with
    | nil =>
        rw [hdrop] at hnext
        exact absurd hnext (by simp [next])
    | cons c behind =>
        rw [hdrop] at hnext
        exact ⟨c, behind, rest, rfl, hnext, hspace⟩

theorem dropWhile_front {front back behind : List Char}
    (h : front.dropWhile isSpace = c :: behind) :
    (front ++ back).dropWhile isSpace = c :: (behind ++ back) := by
  have hne : front.dropWhile isSpace ≠ [] := by simp [h]
  rw [(takeWhile_append hne back).2, h]
  rfl

variable {front back : List Char}

/-- The text of an object cut short parses to nothing or to the object. -/
theorem parse_front_read
    (h : parse (front ++ back) = some (.obj found)) {json : Json}
    (hfront : parse front = some json) :
    json = .obj found ∧ back.all isSpace = true := by
  rcases parse_eq_some h with ⟨c, behind, rest, hdrop, hread, hspaces⟩
  rcases parse_eq_some hfront with ⟨c', behind', rest', hdrop', hread', -⟩
  rw [dropWhile_front hdrop'] at hdrop
  obtain ⟨rfl, rfl⟩ := List.cons.inj hdrop
  obtain rfl := value_obj hread
  have hlonger := (value_brace_closed _).extends' hread' back
  have hfuel : fuelFor front ≤ fuelFor (front ++ back) := by
    unfold fuelFor
    simp
  have hsame := value_within hfuel '{' hlonger
  rw [hread] at hsame
  obtain ⟨rfl, rfl⟩ := Prod.mk.inj (Option.some.inj hsame)
  rw [List.all_append, Bool.and_eq_true] at hspaces
  exact ⟨rfl, hspaces.2⟩

theorem parse_front
    (h : parse (front ++ back) = some (.obj found)) (json : Json)
    (hfront : parse front = some json) : json = .obj found :=
  (parse_front_read h hfront).1

theorem parse_front_rest
    (h : parse (front ++ back) = some (.obj found)) {json : Json}
    (hfront : parse front = some json) : back.all isSpace = true :=
  (parse_front_read h hfront).2

theorem parse_front_bad {bad : Char}
    (h : parse (front ++ back) = some (.obj found))
    (hspace : isSpace bad = false) (hbrace : bad ≠ '}')
    (hvalue : ∀ fuel, value fuel bad [] = none) :
    parse (front ++ [bad]) = none := by
  by_contra hparsed
  rcases Option.ne_none_iff_exists'.mp hparsed with ⟨json, hjson⟩
  rcases parse_eq_some h with ⟨c, behind, rest, hdrop, hread, -⟩
  rcases parse_eq_some hjson with ⟨c', behind', rest', hdrop', hread', hall⟩
  cases hfront : front.dropWhile isSpace with
  | nil =>
      have hspaces : ∀ d ∈ front, isSpace d = true :=
        List.dropWhile_eq_nil_iff.mp hfront
      rw [List.dropWhile_append_of_pos hspaces] at hdrop'
      simp only [List.dropWhile_cons, hspace, Bool.false_eq_true, if_false,
        List.dropWhile_nil] at hdrop'
      obtain ⟨rfl, rfl⟩ := List.cons.inj hdrop'
      rw [hvalue] at hread'
      exact absurd hread' (by simp)
  | cons d front' =>
      rw [dropWhile_front hfront] at hdrop hdrop'
      obtain ⟨rfl, rfl⟩ := List.cons.inj hdrop
      obtain ⟨rfl, rfl⟩ := List.cons.inj hdrop'
      obtain rfl := value_obj hread
      rcases value_brace_endsWith _ _ _ _ hread' with ⟨read, hends⟩
      have hlast := congrArg List.getLast? hends
      rw [List.getLast?_append, List.getLast?_append] at hlast
      cases rest' with
      | nil =>
          simp at hlast
          exact hbrace hlast
      | cons e rest'' =>
          have hmem : bad ∈ e :: rest'' := by
            apply List.mem_of_getLast?
            simpa [List.getLast?_cons_cons] using hlast.symm
          have hbad : isSpace bad = true := List.all_eq_true.mp hall bad hmem
          rw [hspace] at hbad
          exact Bool.noConfusion hbad

end Objects

end Json
end QiForge
