import CaseGen.Proofs.Target.Drain

/-! # The order in which classes give their cases

    A class that lists no cases itself gives those of the classes that a
    chain of registrations leads to, from class to class until one lists
    cases of its own.  Each of these classes gives its cases as one block,
    and the blocks come in the order of the names along the chains.

    * `TargetClass.own?`     — the emissions that a class gives itself
    * `Registry.Leads`       — a chain of registrations leads to a class that lists cases
    * `Registry.blocks`      — the classes that chains lead to, with the names along them
    * `Holds.mem_blocks_iff`, `Holds.pairwise_blocks`, `Holds.nodup_blocks` — which they are,
      in which order, and that none comes twice
    * `drains_blocks_in_turn` — draining a class drains its blocks in turn -/

namespace CaseGen

open Text

/-! ## Section 1: Classes that list cases -/

namespace TargetClass

variable {a b c d : TargetClass}

/-- The emissions that the class gives itself. -/
def own? : TargetClass → Option (List Emission)
  | base => none
  | sub _ _ d => d.emissions

/-- The class and those above it. -/
def lineage : TargetClass → List TargetClass
  | base => [base]
  | sub id p d => sub id p d :: p.lineage

/-- The instances that a list of emissions makes of its own class up to the first stop, numbered
    from `n`, and the message of the stop. -/
def ownCases (c : TargetClass) (n : Nat) : List Emission → List Instance × Option String
  | [] => ([], none)
  | .make spec :: rest => (⟨c, n, c.specOf spec⟩ :: (c.ownCases (n + 1) rest).1, (c.ownCases (n + 1) rest).2)
  | .walk :: rest => c.ownCases n rest
  | .stop message :: _ => ([], some message)

theorem emitter?_of_own? {l : List Emission} (h : c.own? = some l) : c.emitter? = some (c, l) := by
  cases c with
  | base => cases h
  | sub id p d =>
    have emissions : d.emissions = some l := h
    rw [emitter?, emissions]

/-- A class without emissions of its own takes those of its parent. -/
theorem emitter?_of_parent? (parent : d.parent? = some c) (h : d.own? = none) :
    d.emitter? = c.emitter? := by
  cases d with
  | base => cases parent
  | sub id p d =>
    cases parent
    have emissions : d.emissions = none := h
    rw [emitter?, emissions]

theorem mem_lineage_self (d : TargetClass) : d ∈ d.lineage := by
  cases d <;> exact List.mem_cons_self

theorem mem_lineage_of_parent? (h : b ∈ d.lineage) (parent : b.parent? = some c) :
    c ∈ d.lineage := by
  induction d with
  | base =>
    obtain rfl := List.mem_singleton.mp h
    cases parent
  | sub id p definition ih =>
    rcases List.mem_cons.mp h with rfl | above
    · cases parent
      exact List.mem_cons_of_mem _ (mem_lineage_self _)
    · exact List.mem_cons_of_mem _ (ih above)

theorem depth_le_of_mem_lineage (h : c ∈ d.lineage) : c.depth ≤ d.depth := by
  induction d with
  | base =>
    obtain rfl := List.mem_singleton.mp h
    exact Nat.le_refl _
  | sub id p definition ih =>
    rcases List.mem_cons.mp h with rfl | above
    · exact Nat.le_refl _
    · exact Nat.le_succ_of_le (ih above)

/-- A lineage has one class at each depth. -/
theorem eq_of_mem_lineage (ha : a ∈ d.lineage) (hb : b ∈ d.lineage) (same : a.depth = b.depth) :
    a = b := by
  induction d with
  | base => rw [List.mem_singleton.mp ha, List.mem_singleton.mp hb]
  | sub id p definition ih =>
    have lower {e : TargetClass} (h : e ∈ p.lineage) : e.depth ≠ (sub id p definition).depth :=
      Nat.ne_of_lt (Nat.lt_succ_of_le (depth_le_of_mem_lineage h))
    rcases List.mem_cons.mp ha with rfl | ha <;> rcases List.mem_cons.mp hb with rfl | hb
    · rfl
    · exact absurd same.symm (lower hb)
    · exact absurd same (lower ha)
    · exact ih ha hb

end TargetClass

/-! ## Section 2: Chains of registrations -/

/-- A class that lists cases of its own, with the names under which the classes on the way to it
    are registered. -/
structure Block where
  path : List String
  target : TargetClass
  deriving DecidableEq, Repr

/-- The blocks below a registered class: the class itself if it lists cases, else its blocks. -/
def Registration.blocks (below : TargetClass → List Block) (e : Registration) : List Block :=
  match e.target.own? with
  | some _ => [⟨[e.name], e.target⟩]
  | none => (below e.target).map fun b => { b with path := e.name :: b.path }

namespace Registry

variable {r r' : Registry} {l : List Registration} {c d : TargetClass} {path path' : List String}

/-- A chain of registrations leads from a class through classes that list no cases to one that
    lists cases of its own. -/
inductive Leads (r : Registry) : TargetClass → List String → TargetClass → Prop
  | here {c : TargetClass} {e : Registration} (below : e ∈ r.childrenOf (some c))
    (lists : e.target.own?.isSome) : Leads r c [e.name] e.target
  | through {c d : TargetClass} {e : Registration} {path : List String}
    (below : e ∈ r.childrenOf (some c)) (gathers : e.target.own? = none)
    (rest : Leads r e.target path d) : Leads r c (e.name :: path) d

/-- The blocks of a class, down to `levels` classes below each other. -/
def blocksWithin (r : Registry) : (levels : Nat) → TargetClass → List Block
  | 0, _ => []
  | levels + 1, c => (r.childrenOf (some c)).flatMap (Registration.blocks (r.blocksWithin levels))

/-- The classes that chains of registrations lead to from a class. -/
def blocks (r : Registry) (c : TargetClass) : List Block := r.blocksWithin r.levels c

theorem mem_subclassesOf_of_mem {e : Registration} (h : e ∈ r.childrenOf (some c)) :
    e.target ∈ r.subclassesOf c := List.mem_map_of_mem h

theorem Holds.blocks_eq (h : r.Holds l) (c : TargetClass) :
    r.blocks c = (r.childrenOf (some c)).flatMap (Registration.blocks r.blocks) := by
  refine h.within_eq r.blocksWithin
    (fun blocks c => (r.childrenOf (some c)).flatMap (Registration.blocks blocks))
    (fun _ _ => rfl) ?_ c
  intro below below' c same
  refine List.flatMap_congr fun e he => ?_
  rw [Registration.blocks, Registration.blocks, same e.target (mem_subclassesOf_of_mem he)]

/-- A chain leads to each block and to no other class. -/
theorem Holds.mem_blocks_iff (h : r.Holds l) : ⟨path, d⟩ ∈ r.blocks c ↔ r.Leads c path d := by
  refine h.descend (motive := fun c => ∀ path d, ⟨path, d⟩ ∈ r.blocks c ↔ r.Leads c path d) ?_ c path d
  intro c ih path d
  rw [h.blocks_eq, List.mem_flatMap]
  constructor
  · intro mem
    obtain ⟨e, he, mem⟩ := mem
    cases own : e.target.own? with
    | some emissions =>
      simp only [Registration.blocks, own, List.mem_singleton, Block.mk.injEq] at mem
      obtain ⟨rfl, rfl⟩ := mem
      exact .here he (by rw [own]; rfl)
    | none =>
      simp only [Registration.blocks, own, List.mem_map] at mem
      obtain ⟨b, hb, same⟩ := mem
      cases same
      exact .through he own ((ih e.target (mem_subclassesOf_of_mem he) b.path b.target).mp hb)
  · intro leads
    cases leads with
    | @here _ e he lists =>
      obtain ⟨emissions, own⟩ := Option.isSome_iff_exists.mp lists
      exact ⟨e, he, by simp [Registration.blocks, own]⟩
    | @through _ _ e path he gathers rest =>
      have mem := (ih e.target (mem_subclassesOf_of_mem he) path d).mpr rest
      refine ⟨e, he, ?_⟩
      simp only [Registration.blocks, gathers, List.mem_map]
      exact ⟨_, mem, rfl⟩

theorem path_of_mem_blocks {below : TargetClass → List Block} {e : Registration} {b : Block}
    (h : b ∈ Registration.blocks below e) : ∃ rest, b.path = e.name :: rest := by
  unfold Registration.blocks at h
  split at h
  · rw [List.mem_singleton.mp h]
    exact ⟨[], rfl⟩
  · obtain ⟨b', -, rfl⟩ := List.mem_map.mp h
    exact ⟨b'.path, rfl⟩

/-- The blocks come in the lexicographic order of their paths. -/
theorem Holds.pairwise_blocks (h : r.Holds l) (c : TargetClass) :
    (r.blocks c).Pairwise fun b b' => List.Lex Before b.path b'.path := by
  refine h.descend
    (motive := fun c => (r.blocks c).Pairwise fun b b' => List.Lex Before b.path b'.path) ?_ c
  intro c ih
  rw [h.blocks_eq, List.pairwise_flatMap]
  constructor
  · intro e he
    unfold Registration.blocks
    split
    · exact List.pairwise_singleton _ _
    · exact List.pairwise_map.mpr ((ih e.target (mem_subclassesOf_of_mem he)).imp .cons)
  · refine (h.increasing (some c)).imp ?_
    intro e e' before b hb b' hb'
    obtain ⟨rest, path⟩ := path_of_mem_blocks hb
    obtain ⟨rest', path'⟩ := path_of_mem_blocks hb'
    rw [path, path']
    exact .rel before

theorem Leads.lists (leads : r.Leads c path d) : d.own?.isSome := by
  induction leads with
  | here _ lists => exact lists
  | through _ _ _ ih => exact ih

/-- The class that a chain starts from stands above the one that it leads to. -/
theorem Leads.mem_lineage (leads : r.Leads c path d) (h : r.Holds l) : c ∈ d.lineage := by
  induction leads with
  | @here _ e below _ =>
    exact TargetClass.mem_lineage_of_parent? (TargetClass.mem_lineage_self _)
      ((h.children _ e).mp below).2
  | @through _ _ e _ below _ _ ih =>
    exact TargetClass.mem_lineage_of_parent? ih ((h.children _ e).mp below).2

/-- Two registrations below one class whose classes are in one lineage are the same. -/
theorem Holds.eq_of_mem_lineage (h : r.Holds l) {e e' : Registration}
    (below : e ∈ r.childrenOf (some c)) (below' : e' ∈ r.childrenOf (some c))
    (above : e.target ∈ d.lineage) (above' : e'.target ∈ d.lineage) : e = e' := by
  obtain ⟨he, parent⟩ := (h.children _ e).mp below
  obtain ⟨he', parent'⟩ := (h.children _ e').mp below'
  have depth : e.target.depth = e'.target.depth := by
    rw [TargetClass.depth_of_parent? parent, TargetClass.depth_of_parent? parent']
  exact h.eq_of_target he he' (TargetClass.eq_of_mem_lineage above above' depth)

/-- Only one chain leads from one class to another. -/
theorem Leads.path_unique (leads : r.Leads c path d) (leads' : r.Leads c path' d) (h : r.Holds l) :
    path = path' := by
  -- both chains begin with the one registered class in the lineage, and whether it lists cases
  -- says whether they end there
  induction leads generalizing path' with
  | @here c e below lists =>
    generalize same : e.target = d at leads'
    cases leads' with
    | @here _ e' below' _ =>
      rw [h.eq_of_mem_lineage below below' (TargetClass.mem_lineage_self _)
        (same ▸ TargetClass.mem_lineage_self _)]
    | @through _ _ e' _ below' gathers rest =>
      subst same
      obtain rfl := h.eq_of_mem_lineage below below' (TargetClass.mem_lineage_self _)
        (rest.mem_lineage h)
      rw [gathers] at lists
      cases lists
  | @through c d e path below gathers rest ih =>
    cases leads' with
    | @here _ e' below' lists =>
      obtain rfl := h.eq_of_mem_lineage below below' (rest.mem_lineage h)
        (TargetClass.mem_lineage_self _)
      rw [gathers] at lists
      cases lists
    | @through _ _ e' _ below' _ rest' =>
      obtain rfl := h.eq_of_mem_lineage below below' (rest.mem_lineage h) (rest'.mem_lineage h)
      rw [ih rest']

/-- No class comes in two blocks. -/
theorem Holds.nodup_blocks (h : r.Holds l) (c : TargetClass) :
    ((r.blocks c).map Block.target).Nodup := by
  refine List.pairwise_map.mpr ((h.pairwise_blocks c).imp_of_mem ?_)
  intro b b' hb hb' before same
  have leads := h.mem_blocks_iff.mp hb
  have leads' := h.mem_blocks_iff.mp hb'
  -- the same class would have two paths, one before the other
  rw [← same] at leads'
  rw [leads.path_unique leads' h] at before
  exact List.lex_irrefl Before.irrefl _ before

/-! ## Section 3: The cases of a class block by block -/

/-- The events of a class that lists no cases are those of its blocks. -/
theorem Holds.allEvents_blocks (h : r.Holds l) (gathers : c.emitter? = none) :
    r.allEvents c = ((r.blocks c).map Block.target).flatMap r.allEvents := by
  refine h.descend (motive := fun c => c.emitter? = none →
    r.allEvents c = ((r.blocks c).map Block.target).flatMap r.allEvents) ?_ c gathers
  intro c ih gathers
  rw [h.allEvents_eq, gathers, h.blocks_eq]
  simp only [Frame.events, subclassesOf, List.flatMap_map, List.flatMap_assoc]
  refine List.flatMap_congr fun e he => ?_
  obtain ⟨-, parent⟩ := (h.children _ e).mp he
  unfold Registration.blocks
  split
  · simp
  · next own =>
    have inherits : e.target.emitter? = none := by
      rw [TargetClass.emitter?_of_parent? parent own, gathers]
    rw [ih e.target (mem_subclassesOf_of_mem he) inherits, List.flatMap_map, List.flatMap_map]

/-- A class that lists only cases of its own gives its instances, numbered on from the last one. -/
theorem follow_own (r : Registry) (walk : List Event) {emissions : List Emission}
    (ownOnly : .walk ∉ emissions) :
    ((r.follow (Event.ofEmissions walk c emissions)).made,
      (r.follow (Event.ofEmissions walk c emissions)).stopped) =
      c.ownCases (r.count c + 1) emissions := by
  induction emissions generalizing r with
  | nil => rfl
  | cons e rest ih =>
    have others : .walk ∉ rest := fun mem => ownOnly (List.mem_cons_of_mem _ mem)
    cases e with
    | make spec =>
      have rest := ih (r.construct c spec).2 others
      rw [count_construct_self] at rest
      rw [TargetClass.ownCases, ← rest]
      rfl
    | walk => exact absurd List.mem_cons_self ownOnly
    | stop message => rfl

/-- Draining a class that lists no cases comes to an end.  It drains the classes that chains of
    registrations lead to, each of them once, in the order of the names along the chains, until one
    of them is given up; no other instance is made.  If these classes follow only themselves, each
    gives its own instances up to its first stop. -/
theorem drains_blocks_in_turn (reached : r.Reached) (gathers : c.emitter? = none)
    (ownOnly : ∀ path d, r.Leads c path d →
      ∀ emissions, d.own? = some emissions → .walk ∉ emissions) :
    -- the blocks
    (∀ path d, ⟨path, d⟩ ∈ r.blocks c ↔ r.Leads c path d) ∧
    ((r.blocks c).Pairwise fun b b' => List.Lex Before b.path b'.path) ∧
    ((r.blocks c).map Block.target).Nodup ∧
    -- all of them in turn
    (∃! d, r.Drains (Generator.start c) d) ∧
    (∀ d, r.Drains (Generator.start c) d ↔
      r.DrainsInTurn ((r.blocks c).map Block.target) d) ∧
    (∀ d, r.Drains (Generator.start c) d → ∀ k,
      d.registry.count k = r.count k + d.made.countP fun i => i.target = k) ∧
    -- one of them when its turn comes, whatever has been counted by then
    ∀ b ∈ r.blocks c, ∀ r' d, r.Alike r' → r'.Drains (Generator.start b.target) d →
      ∃ emissions, b.target.own? = some emissions ∧
        (d.made, d.stopped) = b.target.ownCases (r'.count b.target + 1) emissions := by
  obtain ⟨l, h⟩ := reached.holds
  refine ⟨fun path d => h.mem_blocks_iff, h.pairwise_blocks c, h.nodup_blocks c, ?_, ?_, ?_, ?_⟩
  · exact ⟨_, h.drains_iff.mpr rfl, fun d drains => h.drains_iff.mp drains⟩
  · intro d
    rw [h.drains_iff, h.drainsInTurn_iff, Generator.events_start, h.allEvents_blocks gathers]
  · intro d drains k
    rw [h.drains_iff.mp drains]
    exact count_follow r _ k
  · intro b hb r' d alike drains
    have leads : r.Leads c b.path b.target := h.mem_blocks_iff.mp hb
    obtain ⟨emissions, own⟩ := Option.isSome_iff_exists.mp leads.lists
    refine ⟨emissions, own, ?_⟩
    have held := h.congr alike
    rw [held.drains_iff.mp drains, Generator.events_start, held.allEvents_eq,
      TargetClass.emitter?_of_own? own]
    exact follow_own r' _ (ownOnly b.path b.target leads emissions own)

/-- A class in a group comes before one beside the group, which gives up, and a third one is not
    started. -/
theorem drains_blocks_in_turn_up_to_stop :
    let group : TargetClass := .sub 0 .base { name := "G" }
    let leaf : TargetClass := .sub 1 group { name := "L", emissions := some [.make {}, .make {}] }
    let fails : TargetClass := .sub 2 .base
      { name := "F", emissions := some [.make {}, .stop "no", .make {}] }
    let late : TargetClass := .sub 3 .base { name := "Z", emissions := some [.make {}] }
    let r := (({} : Target.Session).run
      [.register late, .register leaf, .register fails "H", .register group]).2.registry
    r.DrainsInTurn [leaf, fails, late] (r.follow (r.allEvents .base)) ∧
      (r.follow (r.allEvents .base)).made = [⟨leaf, 1, {}⟩, ⟨leaf, 2, {}⟩, ⟨fails, 1, {}⟩] ∧
      (r.follow (r.allEvents .base)).stopped = some "no" := by
  intro group leaf fails late r
  have reached : r.Reached := ⟨_, rfl⟩
  obtain ⟨l, h⟩ := reached.holds
  have blocks : (r.blocks .base).map Block.target = [leaf, fails, late] := by decide +kernel
  have own : ∀ d ∈ (r.blocks .base).map Block.target, .walk ∉ d.own?.getD [] := by
    rw [blocks]
    decide +kernel
  obtain ⟨-, -, -, -, inTurn, -, -⟩ := drains_blocks_in_turn (c := .base) reached rfl (by
    intro path d leads emissions given
    have mem := own d (List.mem_map_of_mem (h.mem_blocks_iff.mpr leads))
    rwa [given] at mem)
  rw [blocks] at inTurn
  refine ⟨(inTurn _).mp (h.drains_iff.mpr ?_), by decide +kernel, by decide +kernel⟩
  rw [Generator.events_start]

end Registry

end CaseGen
