import Mathlib.Tactic

/-!
# Which resources a resource covers

The wildcard rule is written twice: in the `derives` of a defined capability,
where a setting turns it off, and at the end of an invocation's validation,
where the setting is not read.  Both compare resources as they are spelt.
-/

namespace QiForge
namespace ResourceCoverage

abbrev Uri := List Char

def startsWith (text part : Uri) : Bool := decide (part <+: text)
def endsWith (text part : Uri) : Bool := decide (part <:+ text)

structure CapabilityOptions where
  supportWildcards : Option Bool

def notCovered (claimed delegated : Uri) : Uri :=
  "Resource '".toList ++ claimed ++ "' not covered by '".toList ++
    delegated ++ "'".toList

def doesNotMatch (claimed delegated : Uri) : Uri :=
  "Resource '".toList ++ claimed ++ "' does not match '".toList ++
    delegated ++ "'".toList

/-- `derives` of a capability defined without a derivation of its own. -/
def derives (options : CapabilityOptions) (claimed delegated : Uri) :
    Except Uri Unit :=
  let supportWildcards := options.supportWildcards.getD true
  if claimed ≠ delegated then
    if supportWildcards then
      if endsWith delegated ['/', '*'] then
        if !startsWith claimed delegated.dropLast then
          .error (notCovered claimed delegated)
        else .ok ()
      else if endsWith delegated [':', '*'] then
        if !startsWith claimed delegated.dropLast then
          .error (notCovered claimed delegated)
        else .ok ()
      else .error (doesNotMatch claimed delegated)
    else .error (doesNotMatch claimed delegated)
  else .ok ()

/-- The resource check at the end of `authorizeInvocation`. -/
def resourceMatch (authorizedWith resource : Uri) : Except Uri Unit :=
  if authorizedWith ≠ resource then
    let isWildcardMatch := (endsWith authorizedWith ['/', '*'] &&
        startsWith resource authorizedWith.dropLast) ||
      (endsWith authorizedWith [':', '*'] &&
        startsWith resource authorizedWith.dropLast)
    if !isWildcardMatch then
      .error ("Resource ".toList ++ authorizedWith ++
        " does not match ".toList ++ resource)
    else .ok ()
  else .ok ()

/-! ## The wildcard rule -/

/-- The URI names everything below `base`. -/
structure IsWildcard (uri base : Uri) : Prop where
  split : uri = base ++ ['*']
  mark : ['/'] <:+ base ∨ [':'] <:+ base

def WildcardCovers (d c : Uri) : Prop := ∃ base, IsWildcard d base ∧ base <+: c

theorem endsWith_star (uri : Uri) (mark : Char) :
    endsWith uri [mark, '*'] = true ↔
      ∃ base, uri = base ++ ['*'] ∧ [mark] <:+ base := by
  simp only [endsWith, decide_eq_true_eq]
  constructor
  · rintro ⟨front, rfl⟩
    exact ⟨front ++ [mark], by simp, List.suffix_append _ _⟩
  · rintro ⟨base, rfl, front, rfl⟩
    exact ⟨front, by simp⟩

theorem covers_mark_iff (d c : Uri) (mark : Char) :
    (endsWith d [mark, '*'] = true ∧ startsWith c d.dropLast = true) ↔
      ∃ base, d = base ++ ['*'] ∧ [mark] <:+ base ∧ base <+: c := by
  rw [endsWith_star]
  constructor
  · rintro ⟨⟨base, rfl, hmark⟩, hstarts⟩
    refine ⟨base, rfl, hmark, ?_⟩
    simpa [startsWith] using hstarts
  · rintro ⟨base, rfl, hmark, hbase⟩
    refine ⟨⟨base, rfl, hmark⟩, ?_⟩
    simpa [startsWith] using hbase

theorem wildcardCovers_iff (d c : Uri) : WildcardCovers d c ↔
      (endsWith d ['/', '*'] = true ∧ startsWith c d.dropLast = true) ∨
        (endsWith d [':', '*'] = true ∧ startsWith c d.dropLast = true) := by
  rw [covers_mark_iff, covers_mark_iff]
  constructor
  · rintro ⟨base, ⟨hsplit, hmark⟩, hbase⟩
    rcases hmark with hslash | hcolon
    · exact .inl ⟨base, hsplit, hslash, hbase⟩
    · exact .inr ⟨base, hsplit, hcolon, hbase⟩
  · rintro (⟨base, hsplit, hslash, hbase⟩ | ⟨base, hsplit, hcolon, hbase⟩)
    · exact ⟨base, ⟨hsplit, .inl hslash⟩, hbase⟩
    · exact ⟨base, ⟨hsplit, .inr hcolon⟩, hbase⟩

theorem derives_eq_ok_iff (options : CapabilityOptions) (d c : Uri) :
    derives options c d = .ok () ↔
      c = d ∨ options.supportWildcards.getD true = true ∧
        WildcardCovers d c := by
  rw [wildcardCovers_iff]
  by_cases heq : c = d
  · simp [derives, heq]
  · simp only [derives, heq, ne_eq, not_false_eq_true, if_true, false_or]
    cases options.supportWildcards.getD true
    · simp
    · cases endsWith d ['/', '*'] <;> cases endsWith d [':', '*'] <;>
        cases startsWith c d.dropLast <;> simp

theorem resourceMatch_eq_ok_iff (d c : Uri) :
    resourceMatch d c = .ok () ↔ c = d ∨ WildcardCovers d c := by
  rw [wildcardCovers_iff]
  by_cases heq : d = c
  · simp [resourceMatch, heq]
  · have hne : ¬c = d := fun h => heq h.symm
    simp only [resourceMatch, heq, hne, ne_eq, not_false_eq_true, if_true,
      false_or]
    cases endsWith d ['/', '*'] <;> cases endsWith d [':', '*'] <;>
      cases startsWith c d.dropLast <;> simp

/-- What a covered wildcard covers is covered. -/
theorem WildcardCovers.trans {d e c : Uri}
    (hfirst : WildcardCovers d e) (hsecond : WildcardCovers e c) :
    WildcardCovers d c := by
  rcases hfirst with ⟨base, hwild, hbase⟩
  rcases hsecond with ⟨inner, ⟨rfl, hmark⟩, hinner⟩
  refine ⟨base, hwild, ?_⟩
  -- the mark in front of the outer star is not the inner star
  have hne : base ≠ inner ++ ['*'] := by
    rintro rfl
    rcases hwild.mark with hslash | hcolon
    · simp at hslash
    · simp at hcolon
  have hinside : base <+: inner := by
    rcases List.prefix_concat_iff.mp hbase with heq | hin
    · exact absurd heq hne
    · exact hin
  exact hinside.trans hinner

/-! ## Coverage -/

/-- `c` is derived from `d`. -/
def Derived (options : CapabilityOptions) (d c : Uri) : Prop :=
  derives options c d = .ok ()

/-- `c` is accepted where `d` was authorised. -/
def Matched (d c : Uri) : Prop := resourceMatch d c = .ok ()

theorem Derived.refl (options : CapabilityOptions) (d : Uri) :
    Derived options d d :=
  (derives_eq_ok_iff options d d).mpr (.inl rfl)

variable {options : CapabilityOptions}

theorem Derived.trans {d e c : Uri}
    (hfirst : Derived options d e) (hsecond : Derived options e c) :
    Derived options d c := by
  rw [Derived, derives_eq_ok_iff] at hfirst hsecond ⊢
  rcases hfirst with rfl | ⟨hwild, hfirst⟩
  · exact hsecond
  · rcases hsecond with rfl | ⟨-, hsecond⟩
    · exact .inr ⟨hwild, hfirst⟩
    · exact .inr ⟨hwild, hfirst.trans hsecond⟩

/-- Along a chain of derivations the last resource is derived from the
first. -/
theorem Derived.chain {d c : Uri}
    {uris : List Uri} (hchain : List.IsChain (Derived options) (d :: uris))
    (hlast : (d :: uris).getLast? = some c) : Derived options d c := by
  induction uris generalizing d with
  | nil =>
      obtain rfl : d = c := by simpa using hlast
      exact Derived.refl options d
  | cons e rest ih =>
      rcases List.isChain_cons_cons.mp hchain with ⟨hfirst, hrest⟩
      rw [List.getLast?_cons_cons] at hlast
      exact hfirst.trans (ih hrest hlast)

theorem Derived.matched {d c : Uri}
    (h : Derived options d c) : Matched d c := by
  rw [Derived, derives_eq_ok_iff] at h
  rw [Matched, resourceMatch_eq_ok_iff]
  rcases h with heq | ⟨-, hwild⟩
  · exact .inl heq
  · exact .inr hwild

/-- The checks agree, and derivation is a preorder. -/
structure CoverageAgrees (options : CapabilityOptions) (d c : Uri) : Prop where
  agree : Matched d c ↔ Derived options d c
  reflexive : ∀ uri, Derived options uri uri
  transitive : ∀ first second third, Derived options first second →
    Derived options second third → Derived options first third
  chain : ∀ first last uris, List.IsChain (Derived options) (first :: uris) →
      (first :: uris).getLast? = some last → Matched first last

/-- The checks agree unless a wildcard covers another resource and the
capability was defined without wildcards. -/
theorem coverageAgrees_iff (options : CapabilityOptions) (d c : Uri) :
    CoverageAgrees options d c ↔
      options.supportWildcards = some false → c ≠ d → ¬WildcardCovers d c := by
  constructor
  · intro hagrees hoff hne hwild
    have hmatched : Matched d c :=
      (resourceMatch_eq_ok_iff d c).mpr (.inr hwild)
    have hderived := hagrees.agree.mp hmatched
    rw [Derived, derives_eq_ok_iff, hoff] at hderived
    simp [hne] at hderived
  · intro hcond
    refine ⟨⟨?_, Derived.matched⟩, Derived.refl options,
      fun _ _ _ => Derived.trans,
      fun _ _ _ hchain hlast => (Derived.chain hchain hlast).matched⟩
    intro hmatched
    rw [Matched, resourceMatch_eq_ok_iff] at hmatched
    rw [Derived, derives_eq_ok_iff]
    by_cases heq : c = d
    · exact .inl heq
    · have hwild := hmatched.resolve_left heq
      refine .inr ⟨?_, hwild⟩
      cases hset : options.supportWildcards with
      | none => rfl
      | some supported =>
          cases supported with
          | true => rfl
          | false => exact absurd hwild (hcond hset heq)

/-- `ixo:users/*` authorised, `ixo:users/1` requested, wildcards off. -/
theorem not_coverageAgrees_off :
    ¬CoverageAgrees ⟨some false⟩ "ixo:users/*".toList "ixo:users/1".toList := by
  intro hagrees
  have hwild : WildcardCovers "ixo:users/*".toList "ixo:users/1".toList :=
    ⟨"ixo:users/".toList, ⟨by decide, .inl (by decide)⟩, by decide⟩
  have hderived :=
    hagrees.agree.mp ((resourceMatch_eq_ok_iff _ _).mpr (.inr hwild))
  rw [Derived, derives_eq_ok_iff] at hderived
  rcases hderived with heq | ⟨hon, -⟩
  · exact absurd heq (by decide)
  · exact absurd hon (by decide)

end ResourceCoverage
end QiForge
