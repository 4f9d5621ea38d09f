import Mathlib.Tactic
import Mathlib.Data.List.TakeWhile

/-!
# Whose resource a URI names

`resourceNamesIssuer` decides whether a DID is the authority of a resource: the
whole resource, its authority, the end of its authority after a colon, or the
first path segment under a named authority.  Strings are lists of characters.
-/

namespace QiForge
namespace ResourceAuthority

/-- `did:`. -/
def didScheme : List Char := ['d', 'i', 'd', ':']

/-- `:did:`. -/
def didMark : List Char := ':' :: didScheme

/-- What follows the first `c`. -/
def after (c : Char) (s : List Char) : List Char := (s.dropWhile (· ≠ c)).tail

/-- What comes before the first `c`, all of it when there is none. -/
def before (c : Char) (s : List Char) : List Char := s.takeWhile (· ≠ c)

def rest (resource : List Char) : List Char := after ':' resource

def authority (resource : List Char) : List Char := before '/' (rest resource)

def firstSegment (resource : List Char) : List Char :=
  before '/' (after '/' (rest resource))

def resourceNamesIssuer (resource issuer : List Char) : Bool :=
  if issuer = [] then false
  else if resource = issuer then true
  else if didScheme <+: resource then false
  else if '?' ∈ resource ∨ '#' ∈ resource then false
  else if ':' ∉ resource then false
  else if authority resource = [] then false
  else if authority resource = issuer then true
  else if didScheme <+: authority resource then false
  else if ':' :: issuer <:+ authority resource then true
  else if didMark <:+: authority resource then false
  else if '/' ∉ rest resource then false
  else firstSegment resource = issuer

structure IsDid (d : List Char) : Prop where
  scheme : didScheme <+: d
  noSlash : '/' ∉ d
  noQuery : '?' ∉ d
  noFragment : '#' ∉ d

/-- A component of the authority or the path starts after `front`. -/
def ComponentStart (front : List Char) : Prop :=
  front = [] ∨ front.getLast? = some ':' ∨ front.getLast? = some '/'

/-- `d` stands in the resource as a component of the authority or as the
first path segment, to the end of its segment, and is not the end of a longer
DID. -/
structure StandsAt (resource d scheme mid back : List Char) : Prop where
  split : resource = scheme ++ ':' :: (mid ++ d ++ back)
  first : ':' ∉ scheme
  above : mid.count '/' ≤ 1
  starts : ComponentStart mid
  whole : back = [] ∨ back.head? = some '/'
  alone : ∀ front x, mid = front ++ x → x ≠ [] → ComponentStart front →
    ¬IsDid (x ++ d)

def Stands (resource d : List Char) : Prop :=
  resource = d ∨ ∃ scheme mid back, StandsAt resource d scheme mid back

/-- At most one DID is accepted for the resource, and it does not only appear
as a part of another one or deeper in the path. -/
structure NamesOne (resource : List Char) : Prop where
  unique : ∀ d d', IsDid d → IsDid d' → resourceNamesIssuer resource d = true →
    resourceNamesIssuer resource d' = true → d = d'
  stands : ∀ d, IsDid d → resourceNamesIssuer resource d = true →
    Stands resource d

/-- The resource reaches the rules on a named authority. -/
structure Named (resource : List Char) : Prop where
  noScheme : ¬didScheme <+: resource
  noQuery : '?' ∉ resource
  noFragment : '#' ∉ resource
  colon : ':' ∈ resource
  nonempty : authority resource ≠ []

/-- `:did:` occurs in the authority at most once. -/
def OneMark (resource : List Char) : Prop := ∀ front back front' back',
    authority resource = front ++ didMark ++ back →
    authority resource = front' ++ didMark ++ back' → front = front'

/-! ## The shape of a resource -/

variable {resource d d' : List Char}

theorem split_at {c : Char} {s : List Char} (hmem : c ∈ s) :
    s = before c s ++ c :: after c s := by
  have hne : s.dropWhile (· ≠ c) ≠ [] := by
    intro hnil
    rw [List.dropWhile_eq_nil_iff] at hnil
    exact absurd rfl (of_decide_eq_true (hnil c hmem))
  rcases List.exists_cons_of_ne_nil hne with ⟨head, tail, hdrop⟩
  have hhead : head = c := by
    have hnot := List.head?_dropWhile_not (· ≠ c) s
    rw [hdrop] at hnot
    simpa using hnot
  have hsplit := List.takeWhile_append_dropWhile (p := (· ≠ c)) (l := s)
  rw [before, after, hdrop, List.tail_cons]
  rw [hdrop, hhead] at hsplit
  exact hsplit.symm

theorem notMem_before (c : Char) (s : List Char) : c ∉ before c s := by
  intro hmem
  have hne := List.mem_takeWhile_imp hmem
  simp at hne

theorem before_of_notMem {c : Char} {s : List Char} (hnot : c ∉ s) :
    before c s = s := by
  rw [before, List.takeWhile_eq_self_iff]
  intro x hx
  simp only [ne_eq, decide_not, Bool.not_eq_eq_eq_not, Bool.not_true,
    decide_eq_false_iff_not]
  rintro rfl
  exact hnot hx

theorem resource_split (hcolon : ':' ∈ resource) :
    resource = before ':' resource ++ ':' :: rest resource :=
  split_at hcolon

/-- The rest is its authority and perhaps a path. -/
theorem rest_split (resource : List Char) :
    ∃ back, rest resource = authority resource ++ back ∧
      (back = [] ∨ back.head? = some '/') := by
  by_cases hslash : '/' ∈ rest resource
  · exact ⟨_, split_at hslash, Or.inr rfl⟩
  · exact ⟨[], by rw [authority, before_of_notMem hslash, List.append_nil],
      Or.inl rfl⟩

theorem mem_of_mem_authority {c : Char} (hcolon : ':' ∈ resource)
    (hmem : c ∈ authority resource) : c ∈ resource := by
  rcases rest_split resource with ⟨back, hrest, -⟩
  rw [resource_split hcolon, hrest]
  simp [hmem]

theorem IsDid.ne_nil (h : IsDid d) : d ≠ [] := by
  rintro rfl
  exact absurd h.scheme (by decide)

/-! ## The cases of the rule -/

/-- What an accepted DID is to the resource. -/
theorem names_cases (hd : IsDid d)
    (hnames : resourceNamesIssuer resource d = true) :
    resource = d ∨ Named resource ∧ (authority resource = d ∨
          ¬didScheme <+: authority resource ∧
            (':' :: d <:+ authority resource ∨
              ¬didMark <:+: authority resource ∧
                '/' ∈ rest resource ∧ firstSegment resource = d)) := by
  rw [resourceNamesIssuer, if_neg hd.ne_nil] at hnames
  by_cases hwhole : resource = d
  · exact Or.inl hwhole
  rw [if_neg hwhole] at hnames
  by_cases hscheme : didScheme <+: resource
  · simp [hscheme] at hnames
  rw [if_neg hscheme] at hnames
  by_cases hquery : '?' ∈ resource ∨ '#' ∈ resource
  · simp [hquery] at hnames
  rw [if_neg hquery] at hnames
  by_cases hcolon : ':' ∉ resource
  · simp [hcolon] at hnames
  rw [if_neg hcolon] at hnames
  by_cases hempty : authority resource = []
  · simp [hempty] at hnames
  rw [if_neg hempty] at hnames
  rw [not_or] at hquery
  refine Or.inr ⟨⟨hscheme, hquery.1, hquery.2, not_not.mp hcolon, hempty⟩, ?_⟩
  by_cases hauthority : authority resource = d
  · exact Or.inl hauthority
  rw [if_neg hauthority] at hnames
  by_cases hdid : didScheme <+: authority resource
  · simp [hdid] at hnames
  rw [if_neg hdid] at hnames
  refine Or.inr ⟨hdid, ?_⟩
  by_cases hsuffix : ':' :: d <:+ authority resource
  · exact Or.inl hsuffix
  rw [if_neg hsuffix] at hnames
  by_cases hmark : didMark <:+: authority resource
  · simp [hmark] at hnames
  rw [if_neg hmark] at hnames
  by_cases hslash : '/' ∉ rest resource
  · simp [hslash] at hnames
  rw [if_neg hslash] at hnames
  exact Or.inr ⟨hmark, not_not.mp hslash, of_decide_eq_true hnames⟩

/-- The rule on the end of the authority. -/
theorem names_of_suffix (hnamed : Named resource) (hne : d ≠ [])
    (hdid : ¬didScheme <+: authority resource)
    (hsuffix : ':' :: d <:+ authority resource) :
    resourceNamesIssuer resource d = true := by
  have hquery : ¬('?' ∈ resource ∨ '#' ∈ resource) :=
    not_or.mpr ⟨hnamed.noQuery, hnamed.noFragment⟩
  rw [resourceNamesIssuer, if_neg hne]
  by_cases hwhole : resource = d
  · rw [if_pos hwhole]
  rw [if_neg hwhole, if_neg hnamed.noScheme, if_neg hquery,
    if_neg (not_not.mpr hnamed.colon), if_neg hnamed.nonempty]
  by_cases hauthority : authority resource = d
  · rw [if_pos hauthority]
  rw [if_neg hauthority, if_neg hdid, if_pos hsuffix]

/-! ## One mark, one DID -/

theorem didMark_append {front back : List Char} :
    front ++ didMark ++ back = front ++ ':' :: (didScheme ++ back) := by
  simp [didMark]

/-- A DID at the end of the authority follows a mark. -/
theorem mark_of_suffix (hd : IsDid d)
    (hsuffix : ':' :: d <:+ authority resource) :
    ∃ front back, authority resource = front ++ didMark ++ back ∧
        d = didScheme ++ back := by
  rcases hsuffix with ⟨front, hfront⟩
  rcases hd.scheme with ⟨back, hback⟩
  refine ⟨front, back, ?_, hback.symm⟩
  rw [didMark_append, hback, hfront]

theorem infix_of_suffix (hd : IsDid d)
    (hsuffix : ':' :: d <:+ authority resource) :
    didMark <:+: authority resource := by
  rcases mark_of_suffix hd hsuffix with ⟨front, back, hsplit, -⟩
  exact ⟨front, back, hsplit.symm⟩

theorem names_unique (hmark : Named resource →
      ¬didScheme <+: authority resource → OneMark resource)
    (hd : IsDid d) (hd' : IsDid d')
    (hnames : resourceNamesIssuer resource d = true)
    (hnames' : resourceNamesIssuer resource d' = true) : d = d' := by
  rcases names_cases hd hnames with hwhole | ⟨hnamed, hrule⟩
  · rcases names_cases hd' hnames' with hwhole' | ⟨hnamed', -⟩
    · exact hwhole.symm.trans hwhole'
    · exact absurd (hwhole ▸ hd.scheme) hnamed'.noScheme
  rcases names_cases hd' hnames' with hwhole' | ⟨-, hrule'⟩
  · exact absurd (hwhole' ▸ hd'.scheme) hnamed.noScheme
  rcases hrule with hauthority | ⟨hdid, hrule⟩
  · rcases hrule' with hauthority' | ⟨hdid', -⟩
    · exact hauthority.symm.trans hauthority'
    · exact absurd (hauthority ▸ hd.scheme) hdid'
  rcases hrule' with hauthority' | ⟨-, hrule'⟩
  · exact absurd (hauthority' ▸ hd'.scheme) hdid
  rcases hrule with hsuffix | ⟨hnone, -, hfirst⟩
  · rcases hrule' with hsuffix' | ⟨hnone', -⟩
    · rcases mark_of_suffix hd hsuffix with ⟨front, back, hsplit, hback⟩
      rcases mark_of_suffix hd' hsuffix' with
        ⟨front', back', hsplit', hback'⟩
      have hfront := hmark hnamed hdid front back front' back' hsplit hsplit'
      rw [hsplit, hfront, List.append_cancel_left_eq] at hsplit'
      rw [hback, hback', hsplit']
    · exact absurd (infix_of_suffix hd hsuffix) hnone'
  · rcases hrule' with hsuffix' | ⟨-, -, hfirst'⟩
    · exact absurd (infix_of_suffix hd' hsuffix') hnone
    · exact hfirst.symm.trans hfirst'

/-! ## Where the accepted DID stands -/

theorem notMem_authority (resource : List Char) : '/' ∉ authority resource :=
  notMem_before '/' _

/-- The authority, with what follows it in the resource. -/
theorem split_authority (hcolon : ':' ∈ resource) : ∃ back, resource =
          before ':' resource ++ ':' :: (authority resource ++ back) ∧
        (back = [] ∨ back.head? = some '/') := by
  rcases rest_split resource with ⟨back, hrest, hback⟩
  refine ⟨back, ?_, hback⟩
  rw [← hrest]
  exact resource_split hcolon

theorem stands_authority (hnamed : Named resource)
    (hauthority : authority resource = d) : Stands resource d := by
  rcases split_authority hnamed.colon with ⟨back, hsplit, hback⟩
  refine Or.inr ⟨before ':' resource, [], back, ?_⟩
  constructor
  · rw [List.nil_append, ← hauthority]
    exact hsplit
  · exact notMem_before ':' _
  · simp
  · exact Or.inl rfl
  · exact hback
  · intro front x hmid hne
    exact absurd (List.append_eq_nil_iff.mp hmid.symm).2 hne

/-- `did:` does not begin inside `did:`. -/
theorem scheme_of_append {x : List Char} (hd : IsDid d) (hne : x ≠ [])
    (hdid : IsDid (x ++ d)) :
    ∃ y, x = didScheme ++ y := by
  rcases hd.scheme with ⟨back, hback⟩
  have hscheme := hdid.scheme
  rw [← hback] at hscheme
  match x, hne with
  | [_], _ => simp [didScheme] at hscheme
  | [_, _], _ => simp [didScheme] at hscheme
  | [_, _, _], _ => simp [didScheme] at hscheme
  | a :: b :: c :: e :: y, _ =>
      simp [didScheme] at hscheme
      rcases hscheme with ⟨rfl, rfl, rfl, rfl⟩
      exact ⟨y, rfl⟩

theorem stands_suffix (hnamed : Named resource) (hmark : OneMark resource)
    (hdid : ¬didScheme <+: authority resource) (hd : IsDid d)
    (hsuffix : ':' :: d <:+ authority resource) : Stands resource d := by
  rcases hsuffix with ⟨y, hy⟩
  rcases hd.scheme with ⟨z, hz⟩
  rcases split_authority hnamed.colon with ⟨back, hsplit, hback⟩
  have hslash : '/' ∉ y ++ [':'] := by
    intro hmem
    apply notMem_authority resource
    rw [← hy]
    simp only [List.mem_append, List.mem_cons] at hmem ⊢
    rcases hmem with hmem | hmem | hmem
    · exact Or.inl hmem
    · exact Or.inr (Or.inl hmem)
    · exact absurd hmem List.not_mem_nil
  refine Or.inr ⟨before ':' resource, y ++ [':'], back, ?_⟩
  constructor
  · have hmid : y ++ [':'] ++ d = authority resource := by
      rw [List.append_assoc]
      exact hy
    rw [hmid]
    exact hsplit
  · exact notMem_before ':' _
  · rw [List.count_eq_zero_of_not_mem hslash]
    exact Nat.zero_le _
  · exact Or.inr (Or.inl (by simp))
  · exact hback
  · intro front x hmid hne hstart hlonger
    rcases scheme_of_append hd hne hlonger with ⟨w, hw⟩
    have hauthority : authority resource = front ++ didScheme ++ (w ++ d) := by
      have hjoin : y ++ [':'] ++ d = authority resource := by
        rw [List.append_assoc]
        exact hy
      rw [← hjoin, hmid, hw]
      simp
    rcases hstart with hnil | hcolon | hslashEnd
    · apply hdid
      rw [hauthority, hnil]
      exact ⟨w ++ d, rfl⟩
    · rcases List.getLast?_eq_some_iff.mp hcolon with ⟨u, hu⟩
      have hfirst : authority resource = u ++ didMark ++ (w ++ d) := by
        rw [hauthority, hu]
        simp [didMark]
      have hsecond : authority resource = y ++ didMark ++ z := by
        rw [didMark_append, hz, hy]
      have hsame := hmark u (w ++ d) y z hfirst hsecond
      have hlength := congrArg List.length hmid
      rw [hu, hw, hsame] at hlength
      simp [didScheme] at hlength
    · rcases List.getLast?_eq_some_iff.mp hslashEnd with ⟨u, hu⟩
      apply hslash
      rw [hmid, hu]
      simp

theorem stands_firstSegment (hnamed : Named resource)
    (hslash : '/' ∈ rest resource)
    (hfirst : firstSegment resource = d) : Stands resource d := by
  have hrest : rest resource =
      authority resource ++ '/' :: after '/' (rest resource) :=
    split_at hslash
  have hpath : ∃ back, after '/' (rest resource) = d ++ back ∧
      (back = [] ∨ back.head? = some '/') := by
    by_cases hmore : '/' ∈ after '/' (rest resource)
    · refine ⟨'/' :: after '/' (after '/' (rest resource)), ?_, Or.inr rfl⟩
      rw [← hfirst]
      exact split_at hmore
    · refine ⟨[], ?_, Or.inl rfl⟩
      rw [← hfirst, firstSegment, before_of_notMem hmore, List.append_nil]
  rcases hpath with ⟨back, hpath, hback⟩
  refine Or.inr ⟨before ':' resource, authority resource ++ ['/'], back, ?_⟩
  constructor
  · have hjoin : authority resource ++ ['/'] ++ d ++ back = rest resource := by
      rw [hrest, hpath]
      simp
    rw [hjoin]
    exact resource_split hnamed.colon
  · exact notMem_before ':' _
  · rw [List.count_append,
      List.count_eq_zero_of_not_mem (notMem_authority resource)]
    decide
  · exact Or.inr (Or.inr (by simp))
  · exact hback
  · intro front x hmid hne _ hlonger
    apply hlonger.noSlash
    have hlast : x.getLast? = some '/' := by
      have hmidLast := congrArg List.getLast? hmid
      rw [List.getLast?_concat, List.getLast?_append_of_ne_nil _ hne]
        at hmidLast
      exact hmidLast.symm
    exact List.mem_append_left _ (List.mem_of_getLast? hlast)

/-- A resource names one DID exactly when the rule on the end of its
authority has one mark to go by. -/
theorem namesOne_iff (resource : List Char) : NamesOne resource ↔
      (Named resource → ¬didScheme <+: authority resource →
        OneMark resource) := by
  constructor
  · intro hone hnamed hdid front back front' back' hsplit hsplit'
    have hisDid : ∀ {f b : List Char}, authority resource = f ++ didMark ++ b →
          IsDid (didScheme ++ b) := by
      intro f b hfb
      have hmem : ∀ c ∈ didScheme ++ b, c ∈ authority resource := by
        intro c hc
        rw [hfb, didMark_append]
        exact List.mem_append_right _ (List.mem_cons_of_mem _ hc)
      exact
        { scheme := List.prefix_append _ _
          noSlash := fun hc => notMem_authority resource (hmem _ hc)
          noQuery := fun hc => hnamed.noQuery
            (mem_of_mem_authority hnamed.colon (hmem _ hc))
          noFragment := fun hc => hnamed.noFragment
            (mem_of_mem_authority hnamed.colon (hmem _ hc)) }
    have hnames : ∀ {f b : List Char}, authority resource = f ++ didMark ++ b →
          resourceNamesIssuer resource (didScheme ++ b) = true := by
      intro f b hfb
      apply names_of_suffix hnamed (hisDid hfb).ne_nil hdid
      exact ⟨f, by rw [hfb, didMark_append]⟩
    have hsame := hone.unique _ _ (hisDid hsplit) (hisDid hsplit')
      (hnames hsplit) (hnames hsplit')
    have hback := List.append_cancel_left hsame
    rw [hsplit, hback, List.append_assoc, List.append_assoc] at hsplit'
    exact List.append_cancel_right hsplit'
  · intro hmark
    constructor
    · intro d d' hd hd' hnames hnames'
      exact names_unique hmark hd hd' hnames hnames'
    · intro d hd hnames
      rcases names_cases hd hnames with hwhole | ⟨hnamed, hrule⟩
      · exact Or.inl hwhole
      rcases hrule with hauthority | ⟨hdid, hrule⟩
      · exact stands_authority hnamed hauthority
      rcases hrule with hsuffix | ⟨-, hslash, hfirst⟩
      · exact stands_suffix hnamed (hmark hnamed hdid) hdid hd hsuffix
      · exact stands_firstSegment hnamed hslash hfirst

/-- `ixo:tenant:did:web:e:did:key:z` names a DID and the end of it. -/
def twoMarks : List Char := "ixo:tenant:did:web:e:did:key:z".toList

theorem not_namesOne_twoMarks : ¬NamesOne twoMarks := by
  intro hone
  have hlong : IsDid "did:web:e:did:key:z".toList :=
    ⟨by decide, by decide, by decide, by decide⟩
  have hshort : IsDid "did:key:z".toList :=
    ⟨by decide, by decide, by decide, by decide⟩
  have hsame := hone.unique _ _ hlong hshort
    (by decide +kernel) (by decide +kernel)
  exact absurd hsame (by decide)

end ResourceAuthority
end QiForge
