import QiForge.DelegationValidation

/-!
# The CIDs of a proof tree

The walk that lists the CIDs marks a node when it enters it and lists it when
it leaves.  What is marked and not yet listed is on the path to the current
node.  A block's content decides its CID and its proofs, so no node below
another has its CID, and a marked node that is met again has been listed with
everything below it.
-/

namespace QiForge
namespace DelegationValidation

variable {V : Type}

namespace Node

@[simp] theorem mem_subnodes_self (node : Node V) : node ∈ node.subnodes := by
  cases node <;> simp [subnodes]

@[simp] theorem subnodesAll_nil : subnodesAll ([] : List (Node V)) = [] := by
  simp only [subnodesAll]

@[simp] theorem mem_subnodesAll_cons
    {node proof : Node V} {rest : List (Node V)} :
    node ∈ subnodesAll (proof :: rest) ↔
      node ∈ proof.subnodes ∨ node ∈ subnodesAll rest := by
  simp only [subnodesAll, List.mem_append]

variable {node : Node V}

@[simp] theorem mem_subnodes_delegation
    {data : Data V} {proofs : List (Node V)} :
    node ∈ (delegation data proofs).subnodes ↔
      node = delegation data proofs ∨ node ∈ subnodesAll proofs := by
  simp only [subnodes, List.mem_cons]

@[simp] theorem mem_subnodes_link {cid : String} :
    node ∈ (link cid : Node V).subnodes ↔ node = link cid := by
  simp only [subnodes, List.mem_singleton]

theorem subnodes_of_mem {proof : Node V} {proofs : List (Node V)}
    (hproof : proof ∈ proofs)
    (hnode : node ∈ proof.subnodes) :
    node ∈ subnodesAll proofs := by
  induction proofs with
  | nil => cases hproof
  | cons first rest ih =>
      rw [mem_subnodesAll_cons]
      rcases List.mem_cons.mp hproof with rfl | hrest
      · exact Or.inl hnode
      · exact Or.inr (ih hrest)

mutual

theorem size_subnodes (root : Node V) (hnode : node ∈ root.subnodes) :
    sizeOf node ≤ sizeOf root := by
  cases root with
  | link cid =>
      rw [mem_subnodes_link.mp hnode]
  | delegation data proofs =>
      rcases mem_subnodes_delegation.mp hnode with rfl | hbelow
      · exact le_rfl
      · have hsize := size_subnodesAll proofs hbelow
        simp only [delegation.sizeOf_spec]
        omega

theorem size_subnodesAll (proofs : List (Node V))
    (hnode : node ∈ subnodesAll proofs) :
    sizeOf node ≤ sizeOf proofs := by
  cases proofs with
  | nil =>
      rw [subnodesAll_nil] at hnode
      cases hnode
  | cons proof rest =>
      simp only [List.cons.sizeOf_spec]
      rcases mem_subnodesAll_cons.mp hnode with hproof | hrest
      · have hsize := size_subnodes proof hproof
        omega
      · have hsize := size_subnodesAll rest hrest
        omega

end

/-- No node is below itself. -/
theorem not_mem_below (data : Data V) (proofs : List (Node V)) :
    delegation data proofs ∉ subnodesAll proofs := by
  intro hmem
  have hsize := size_subnodesAll proofs hmem
  simp only [delegation.sizeOf_spec] at hsize
  omega

/-- The blocks of one token: a CID names one block, which decides what the
node is. -/
def Addressed (root : Node V) : Prop :=
  ∀ a ∈ root.subnodes, ∀ b ∈ root.subnodes, a.cid = b.cid → a = b

end Node

open Node

/-- In a list `a` stands somewhere before an entry `b`. -/
def Before (cids : List String) (a b : String) : Prop :=
  ∃ front back, cids = front ++ b :: back ∧ a ∈ front

theorem Before.append {cids : List String} {a b : String}
    (hbefore : Before cids a b) (more : List String) :
    Before (cids ++ more) a b := by
  obtain ⟨front, back, rfl, hfront⟩ := hbefore
  exact ⟨front, back ++ more, by simp, hfront⟩

theorem Before.mem {cids : List String} {a b : String}
    (hbefore : Before cids a b) :
    a ∈ cids := by
  obtain ⟨front, back, rfl, hfront⟩ := hbefore
  exact List.mem_append_left _ hfront

theorem before_last {cids : List String} {a : String} (b : String)
    (hmem : a ∈ cids) :
    Before (cids ++ [b]) a b :=
  ⟨cids, [], rfl, hmem⟩

/-- What the walk has listed: every CID once, the proofs of each listed node
before it. -/
structure Listed (nodes : List (Node V)) (s : Collected) : Prop where
  nodup : s.cids.Nodup
  seen : ∀ cid ∈ s.cids, cid ∈ s.seen
  before : ∀ node ∈ nodes, node.cid ∈ s.cids →
    ∀ proof ∈ node.proofs, Before s.cids proof.cid node.cid

/-- No node below is on the path the walk is on. -/
def Clear (below : List (Node V)) (s : Collected) : Prop :=
  ∀ node ∈ below, node.cid ∈ s.seen → node.cid ∈ s.cids

/-- What a walk over these nodes adds to a state. -/
structure Adds (below : List (Node V)) (s s' : Collected) : Prop where
  front : s.cids <+: s'.cids
  cids : ∀ cid, cid ∈ s'.cids ↔ cid ∈ s.cids ∨ ∃ node ∈ below, node.cid = cid
  seen : ∀ cid, cid ∈ s'.seen ↔ cid ∈ s.seen ∨ ∃ node ∈ below, node.cid = cid

theorem Adds.trans {first second : List (Node V)} {s s' s'' : Collected}
    (hfirst : Adds first s s') (hsecond : Adds second s' s'') :
    Adds (first ++ second) s s'' where
  front := hfirst.front.trans hsecond.front
  cids cid := by
    rw [hsecond.cids, hfirst.cids]
    simp only [List.mem_append, or_and_right, exists_or, or_assoc]
  seen cid := by
    rw [hsecond.seen, hfirst.seen]
    simp only [List.mem_append, or_and_right, exists_or, or_assoc]

/-- What stays to be walked stays off the path. -/
theorem Clear.of_adds {first second : List (Node V)} {s s' : Collected}
    (hclear : Clear second s) (hadds : Adds first s s') :
    Clear second s' := by
  intro node hnode hseen
  rw [hadds.cids]
  rcases (hadds.seen _).mp hseen with hold | hnew
  · exact Or.inl (hclear node hnode hold)
  · exact Or.inr hnew

section Tree

variable {nodes : List (Node V)}

mutual

/-- With a listed node everything below it is listed. -/
theorem Listed.below {s : Collected} (hlisted : Listed nodes s)
    (root : Node V) (hnodes : ∀ node ∈ root.subnodes, node ∈ nodes)
    (hroot : root.cid ∈ s.cids) :
    ∀ node ∈ root.subnodes, node.cid ∈ s.cids := by
  cases root with
  | link cid =>
      intro node hnode
      rw [mem_subnodes_link.mp hnode]
      exact hroot
  | delegation data proofs =>
      intro node hnode
      rcases mem_subnodes_delegation.mp hnode with rfl | hbelow
      · exact hroot
      · refine Listed.belowAll hlisted proofs (fun node hnode => hnodes node
            (mem_subnodes_delegation.mpr (Or.inr hnode))) ?_ node hbelow
        intro proof hproof
        exact (hlisted.before _ (hnodes _ (mem_subnodes_self _)) hroot proof
          hproof).mem

theorem Listed.belowAll {s : Collected} (hlisted : Listed nodes s)
    (proofs : List (Node V))
    (hnodes : ∀ node ∈ subnodesAll proofs, node ∈ nodes)
    (hproofs : ∀ proof ∈ proofs, proof.cid ∈ s.cids) :
    ∀ node ∈ subnodesAll proofs, node.cid ∈ s.cids := by
  cases proofs with
  | nil =>
      intro node hnode
      rw [subnodesAll_nil] at hnode
      cases hnode
  | cons proof rest =>
      intro node hnode
      rcases mem_subnodesAll_cons.mp hnode with hproof | hrest
      · exact Listed.below hlisted proof (fun node hnode => hnodes node
            (mem_subnodesAll_cons.mpr (Or.inl hnode)))
          (hproofs proof List.mem_cons_self) node hproof
      · exact Listed.belowAll hlisted rest (fun node hnode => hnodes node
            (mem_subnodesAll_cons.mpr (Or.inr hnode)))
          (fun proof hproof => hproofs proof (List.mem_cons_of_mem _ hproof))
          node hrest

end

/-- A node that is met again adds nothing. -/
theorem adds_again {root : Node V} {s : Collected} (hlisted : Listed nodes s)
    (hnodes : ∀ node ∈ root.subnodes, node ∈ nodes)
    (hclear : Clear root.subnodes s)
    (hseen : root.cid ∈ s.seen) :
    Adds root.subnodes s s := by
  have hbelow := hlisted.below root hnodes
    (hclear root (mem_subnodes_self root) hseen)
  have habsorbed (cid : String) :
      (∃ node ∈ root.subnodes, node.cid = cid) → cid ∈ s.cids := by
    rintro ⟨node, hnode, rfl⟩
    exact hbelow node hnode
  refine ⟨List.prefix_rfl, fun cid => ?_, fun cid => ?_⟩
  · exact ⟨Or.inl, fun h => h.elim id (habsorbed cid)⟩
  · exact ⟨Or.inl, fun h =>
      h.elim id fun hnode => hlisted.seen cid (habsorbed cid hnode)⟩

variable (haddressed : ∀ a ∈ nodes, ∀ b ∈ nodes, a.cid = b.cid → a = b)

include haddressed

mutual

theorem collect_listed (root : Node V) (s : Collected)
    (hnodes : ∀ node ∈ root.subnodes, node ∈ nodes)
    (hlisted : Listed nodes s) (hclear : Clear root.subnodes s) :
    Listed nodes (collect root s) ∧ Adds root.subnodes s (collect root s) := by
  cases root with
  | link cid =>
      by_cases hseen : cid ∈ s.seen
      · simp only [collect, hseen, ↓reduceIte]
        exact ⟨hlisted, adds_again hlisted hnodes hclear hseen⟩
      · simp only [collect, hseen, ↓reduceIte]
        have hnew : cid ∉ s.cids := fun hmem => hseen (hlisted.seen cid hmem)
        refine ⟨⟨?_, ?_, ?_⟩, ⟨List.prefix_append _ _, ?_, ?_⟩⟩
        · rw [← List.concat_eq_append]
          exact hlisted.nodup.concat hnew
        · intro found hfound
          rcases List.mem_append.mp hfound with hold | hlast
          · exact List.mem_cons_of_mem _ (hlisted.seen found hold)
          · rw [List.mem_singleton.mp hlast]
            exact List.mem_cons_self
        · intro node hnode hmem proof hproof
          rcases List.mem_append.mp hmem with hold | hlast
          · exact (hlisted.before node hnode hold proof hproof).append _
          · have hlink : node = .link cid := haddressed node hnode (.link cid)
                (hnodes _ (mem_subnodes_self _)) (List.mem_singleton.mp hlast)
            rw [hlink] at hproof
            cases hproof
        · intro found
          simp only [List.mem_append, List.mem_singleton, mem_subnodes_link,
            exists_eq_left, Node.cid, eq_comm]
        · intro found
          simp only [List.mem_cons, mem_subnodes_link, exists_eq_left,
            Node.cid, eq_comm, or_comm]
  | delegation data proofs =>
      by_cases hseen : data.cid ∈ s.seen
      · simp only [collect, hseen, ↓reduceIte]
        exact ⟨hlisted, adds_again hlisted hnodes hclear hseen⟩
      · simp only [collect, hseen, ↓reduceIte]
        have hnew : data.cid ∉ s.cids :=
          fun hmem => hseen (hlisted.seen data.cid hmem)
        have hbelow : ∀ node ∈ subnodesAll proofs, node ∈ nodes :=
          fun node hnode => hnodes node
            (mem_subnodes_delegation.mpr (Or.inr hnode))
        have hroot : delegation data proofs ∈ nodes :=
          hnodes _ (mem_subnodes_self _)
        -- a node below with this CID would be this node
        have hapart : ∀ node ∈ subnodesAll proofs, node.cid ≠ data.cid := by
          intro node hnode hcid
          have hsame := haddressed node (hbelow node hnode) _ hroot hcid
          rw [hsame] at hnode
          exact not_mem_below data proofs hnode
        have hentered : Listed nodes { s with seen := data.cid :: s.seen } :=
          ⟨hlisted.nodup,
            fun cid hcid => List.mem_cons_of_mem _ (hlisted.seen cid hcid),
            hlisted.before⟩
        have hclearAll : Clear (subnodesAll proofs)
              { s with seen := data.cid :: s.seen } := by
          intro node hnode hmem
          rcases List.mem_cons.mp hmem with hcid | hold
          · exact absurd hcid (hapart node hnode)
          · exact hclear node (mem_subnodes_delegation.mpr (Or.inr hnode)) hold
        obtain ⟨hlisted', hadds⟩ :=
          collectAll_listed proofs _ hbelow hentered hclearAll
        generalize collectAll proofs { s with seen := data.cid :: s.seen } =
          s' at hlisted' hadds
        have hnew' : data.cid ∉ s'.cids := by
          rw [hadds.cids]
          rintro (hold | ⟨node, hnode, hcid⟩)
          · exact hnew hold
          · exact hapart node hnode hcid
        refine ⟨⟨?_, ?_, ?_⟩, ⟨?_, ?_, ?_⟩⟩
        · rw [← List.concat_eq_append]
          exact hlisted'.nodup.concat hnew'
        · intro cid hcid
          rcases List.mem_append.mp hcid with hold | hlast
          · exact hlisted'.seen cid hold
          · rw [List.mem_singleton.mp hlast, hadds.seen]
            exact Or.inl List.mem_cons_self
        · intro node hnode hmem proof hproof
          rcases List.mem_append.mp hmem with hold | hlast
          · exact (hlisted'.before node hnode hold proof hproof).append _
          · have hcid : node.cid = data.cid := List.mem_singleton.mp hlast
            obtain rfl : node = delegation data proofs :=
              haddressed node hnode _ hroot hcid
            refine before_last data.cid ((hadds.cids _).mpr (Or.inr ?_))
            exact ⟨proof, subnodes_of_mem hproof (mem_subnodes_self proof),
              rfl⟩
        · exact hadds.front.trans (List.prefix_append _ _)
        · intro cid
          simp only [List.mem_append, List.mem_singleton, hadds.cids,
            mem_subnodes_delegation, exists_eq_or_imp, Node.cid]
          constructor
          · rintro ((hold | hbelow) | rfl)
            · exact Or.inl hold
            · exact Or.inr (Or.inr hbelow)
            · exact Or.inr (Or.inl rfl)
          · rintro (hold | rfl | hbelow)
            · exact Or.inl (Or.inl hold)
            · exact Or.inr rfl
            · exact Or.inl (Or.inr hbelow)
        · intro cid
          simp only [hadds.seen, List.mem_cons, mem_subnodes_delegation,
            exists_eq_or_imp, Node.cid]
          constructor
          · rintro ((rfl | hold) | hbelow)
            · exact Or.inr (Or.inl rfl)
            · exact Or.inl hold
            · exact Or.inr (Or.inr hbelow)
          · rintro (hold | rfl | hbelow)
            · exact Or.inl (Or.inr hold)
            · exact Or.inl (Or.inl rfl)
            · exact Or.inr hbelow

theorem collectAll_listed (proofs : List (Node V)) (s : Collected)
    (hnodes : ∀ node ∈ subnodesAll proofs, node ∈ nodes)
    (hlisted : Listed nodes s) (hclear : Clear (subnodesAll proofs) s) :
    Listed nodes (collectAll proofs s) ∧
      Adds (subnodesAll proofs) s (collectAll proofs s) := by
  cases proofs with
  | nil =>
      refine ⟨hlisted, List.prefix_rfl, fun cid => ?_, fun cid => ?_⟩ <;>
        simp [collectAll]
  | cons proof rest =>
      simp only [collectAll, subnodesAll]
      obtain ⟨hfirst, haddsFirst⟩ := collect_listed proof s
          (fun node hnode => hnodes node
            (mem_subnodesAll_cons.mpr (Or.inl hnode)))
          hlisted
          (fun node hnode => hclear node
            (mem_subnodesAll_cons.mpr (Or.inl hnode)))
      have hclearRest : Clear (subnodesAll rest) s :=
        fun node hnode => hclear node (mem_subnodesAll_cons.mpr (Or.inr hnode))
      obtain ⟨hrest, haddsRest⟩ := collectAll_listed rest (collect proof s)
          (fun node hnode => hnodes node
            (mem_subnodesAll_cons.mpr (Or.inr hnode)))
          hfirst (hclearRest.of_adds haddsFirst)
      exact ⟨hrest, haddsFirst.trans haddsRest⟩

end

end Tree

/-- The CIDs of a tree, each once and behind those of its proofs. -/
structure ListsTree (root : Node V) (cids : List String) : Prop where
  nodup : cids.Nodup
  mem_iff : ∀ cid, cid ∈ cids ↔ ∃ node ∈ root.subnodes, node.cid = cid
  before : ∀ node ∈ root.subnodes, ∀ proof ∈ node.proofs,
    Before cids proof.cid node.cid

theorem delegationChainCids_listsTree {root : Node V}
    (haddressed : root.Addressed) :
    ListsTree root (delegationChainCids root) := by
  have hstart : Listed root.subnodes ⟨[], []⟩ :=
    ⟨List.nodup_nil, fun cid hcid => hcid,
      fun node _ hmem => absurd hmem List.not_mem_nil⟩
  have hclear : Clear root.subnodes ⟨[], []⟩ :=
    fun node _ hseen => absurd hseen List.not_mem_nil
  obtain ⟨hlisted, hadds⟩ :=
    collect_listed haddressed root ⟨[], []⟩ (fun node hnode => hnode) hstart
      hclear
  have hmem (cid : String) : cid ∈ delegationChainCids root ↔
        ∃ node ∈ root.subnodes, node.cid = cid := by
    rw [delegationChainCids, hadds.cids]
    simp only [List.not_mem_nil, false_or]
  exact ⟨hlisted.nodup, hmem, fun node hnode proof hproof =>
    hlisted.before node hnode ((hmem _).mpr ⟨node, hnode, rfl⟩) proof hproof⟩

end DelegationValidation
end QiForge
