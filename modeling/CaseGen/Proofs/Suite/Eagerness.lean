import CaseGen.Proofs.Suite.Agreement
import CaseGen.Proofs.Suite.Call

/-! # Lazy and eager producers

    The same steps can be taken one by one while the file is written, or
    all at once when the producer is called.  If no step gives up, both ways
    come to the same.  If one does, both calls fail: the eager one with the
    failure of that step and before anything is made, the lazy one with the
    first failure on the way, and what it has made is taken back.

    * `fill_yielded`        — steps that do not give up, and their drafts
    * `fill_of_fail`, `fill_of_invalid` — the first failure on the way
    * `performAll_of_fail`  — the first step that gives up
    * `Suite.Offers`        — the production behind a target
    * `lazy_or_eager`       — both calls compared
    * `lazy_leaves_directories` — where the trees differ -/

namespace CaseGen

open Files

/-- The step writes no file and does not give up. -/
structure Step.Harmless (s : Step) : Prop where
  quiet : ¬ s.WritesFile
  going : ∀ f, s ≠ .fail f

theorem harmless_of_quiet {l : List Step} (quiet : ∀ s ∈ l, ¬ s.WritesFile)
    (going : ∀ f, .fail f ∉ l) : ∀ s ∈ l, s.Harmless := by
  intro s mem
  refine ⟨quiet s mem, ?_⟩
  rintro f rfl
  exact going f mem

/-- Either no step gives up, or one is the first to do so. -/
theorem exists_first_fail (l : List Step) : (∀ f, .fail f ∉ l) ∨
    ∃ front f rest, l = front ++ .fail f :: rest ∧ ∀ g, .fail g ∉ front := by
  induction l with
  | nil => exact .inl (by simp)
  | cons s l ih =>
    by_cases fails : ∃ f, s = .fail f
    · obtain ⟨f, rfl⟩ := fails
      exact .inr ⟨[], f, l, rfl, by simp⟩
    · have ne (f : Failure) : .fail f ≠ s := fun same => fails ⟨f, same.symm⟩
      rcases ih with none | ⟨front, f, rest, rfl, first⟩
      · exact .inl (by simpa [ne] using none)
      · exact .inr ⟨s :: front, f, rest, rfl, by simpa [ne] using first⟩

/-! ## Section 1: Steps that do not give up -/

namespace Workspace

variable {w v : Workspace} {s : Step} {l front rest : List Step} {f : Failure}

theorem perform_of_harmless (h : s.Harmless) (w : Workspace) :
    ∃ d w', w.perform s = (.ok d, w') ∧ w'.tree = w.tree := by
  obtain ⟨d, w', taken⟩ := perform_of_quiet (w := w) h.quiet h.going
  refine ⟨d, w', taken, ?_⟩
  rw [← perform_tree (w := w) h.quiet, taken]

/-- Taking the steps one by one comes to the same as being given their drafts. -/
theorem fill_yielded (tree : v.tree = w.tree) (harmless : ∀ s ∈ l, s.Harmless) (sink : Sink)
    (count : Nat) : Agrees (fun _ => False) (w.fill sink count l)
      (v.fill sink count ((yielded w.registry l).map .yield)) := by
  -- what is yielded goes on with the registry after the first step
  induction l generalizing w v sink count with
  | nil => exact ⟨rfl, tree, nofun⟩
  | cons s rest ih =>
    obtain ⟨first, others⟩ := List.forall_mem_cons.mp harmless
    obtain ⟨d, w', taken, kept⟩ := perform_of_harmless first w
    rw [← kept] at tree
    rw [yielded_perform taken]
    cases d with
    | none =>
      simp only [fill, taken]
      exact ih tree others sink count
    | some d =>
      have given : v.perform (.yield d) = (.ok (some d), v) := rfl
      simp only [fill, taken, Option.toList_some, List.cons_append, List.nil_append, List.map_cons,
        given]
      cases d.lines with
      | error f => exact ⟨rfl, tree, nofun⟩
      | ok lines =>
        have agree : w'.AgreeOn (fun _ => False) v := ⟨tree, nofun⟩
        have appended := (append_agrees agree sink (textOfLines lines)).workspace.tree
        exact ih (w := (w'.append sink (textOfLines lines)).2) appended others _ _

/-! ## Section 2: The first failure -/

/-- If the drafts before a step that gives up are complete, its failure is the first one. -/
theorem fill_of_fail (harmless : ∀ s ∈ front, s.Harmless)
    (checked : ∀ d ∈ yielded w.registry front, ∃ r, d.check = .ok r) (sink : Sink) (count : Nat) :
    (w.fill sink count (front ++ .fail f :: rest)).1 = .error f := by
  induction front generalizing w sink count with
  | nil => rfl
  | cons s front ih =>
    obtain ⟨first, others⟩ := List.forall_mem_cons.mp harmless
    obtain ⟨d, w', taken, -⟩ := perform_of_harmless first w
    rw [yielded_perform taken] at checked
    rw [List.cons_append, fill, taken]
    cases d with
    | none => exact ih others checked sink count
    | some d =>
      obtain ⟨⟨r, complete⟩, checked'⟩ := List.forall_mem_cons.mp checked
      dsimp only
      rw [Draft.lines_eq_ok_iff.mpr ⟨r, complete, rfl⟩]
      exact ih (w := (w'.append sink _).2) others checked' _ _

/-- Before any step gives up, the first draft that is not complete is the first failure. -/
theorem fill_of_invalid {before after : List Draft} {d : Draft}
    (harmless : ∀ s ∈ front, s.Harmless)
    (drafts : yielded w.registry front = before ++ d :: after)
    (checked : ∀ e ∈ before, ∃ r, e.check = .ok r) (invalid : d.check = .error f) (sink : Sink)
    (count : Nat) : (w.fill sink count (front ++ rest)).1 = .error f := by
  induction front generalizing w before sink count with
  | nil => simp [yielded] at drafts
  | cons s front ih =>
    obtain ⟨first, others⟩ := List.forall_mem_cons.mp harmless
    obtain ⟨e, w', taken, -⟩ := perform_of_harmless first w
    rw [yielded_perform taken] at drafts
    rw [List.cons_append, fill, taken]
    cases e with
    | none => exact ih others drafts checked sink count
    | some e =>
      dsimp only
      cases before with
      | nil =>
        obtain ⟨rfl, -⟩ := List.cons.inj drafts
        rw [Draft.lines_eq_error_iff.mpr invalid]
      | cons b before =>
        obtain ⟨rfl, drafts'⟩ := List.cons.inj drafts
        obtain ⟨⟨r, complete⟩, checked'⟩ := List.forall_mem_cons.mp checked
        rw [Draft.lines_eq_ok_iff.mpr ⟨r, complete, rfl⟩]
        exact ih (w := (w'.append sink _).2) others drafts' checked' _ _

/-- All steps at once end with the first one that gives up. -/
theorem performAll_of_fail (harmless : ∀ s ∈ front, s.Harmless) (w : Workspace) (f : Failure)
    (rest : List Step) : (w.performAll (front ++ .fail f :: rest)).1 = .error f := by
  induction front generalizing w with
  | nil => rfl
  | cons s front ih =>
    obtain ⟨first, others⟩ := List.forall_mem_cons.mp harmless
    obtain ⟨d, w', taken, -⟩ := perform_of_harmless first w
    have later := ih others w'
    rw [List.cons_append, performAll, taken]
    rcases all : w'.performAll (front ++ .fail f :: rest) with ⟨g | ds, u⟩
    · rw [all] at later
      cases later
      simp only [all]
    · rw [all] at later
      cases later

end Workspace

/-! ## Section 3: The call -/

namespace WriteCall

variable {c : WriteCall} {w w' : Workspace} {created : Option String} {t₁ t₂ : Tree} {tmp : Path}
  {f : Failure}

/-- A call with an open file fails with the first failure while its file is filled. -/
theorem Opens.error_of_fill (opens : c.Opens w created t₁ tmp t₂)
    (filled : ∀ (u : Workspace) (sink : Sink), u.registry = w.registry →
      (u.fill sink 0 c.steps).1 = .error f) :
    (w.writeDataFile c.filename c.caller c.steps).1 = .error f := by
  simp only [Workspace.writeDataFile, opens.made, opens.opened, Workspace.writeOpened]
  let start := Workspace.append { w with tree := t₂ } { path := tmp } (headerLine c.caller ++ "\n")
  have fails := filled start.2 start.1 rfl
  rcases ends : start.2.fill start.1 0 c.steps with ⟨g | ⟨sink, count⟩, v⟩
  · rw [ends] at fails
    cases fails
    rfl
  · rw [ends] at fails
    cases fails

/-- After a failure of a call whose producer writes no file, there is nothing new but directories on
    the way to the file. -/
theorem Opens.keptOrMade_of_failed (opens : c.Opens w created t₁ tmp t₂) (sound : w.tree.Sound)
    (quiet : ∀ s ∈ c.steps, ¬ s.WritesFile) (absent : w.tree.lookup tmp = none)
    (failed : c.run w = (.error f, w')) (q : Path) : c.KeptOrMade w w'.tree q := by
  by_cases here : q = tmp
  · subst here
    obtain ⟨n, u, broken, rfl⟩ := exists_after_broken opens.made opens.opened failed
    rw [opens.rollBack_eq broken]
    have erased : (u.tree.erase q).lookup q = none := by
      rw [Tree.lookup_erase (openFile_place opens.opened).2, if_pos rfl]
    exact opens.keptOrMade_without sound (.inl (erased.trans absent.symm))
  · obtain ⟨n, ends⟩ := exists_after_done_iff.mpr failed
    have spares : c.Spares w q := spares_of_touches fun path text mem =>
      absurd trivial (quiet (.touch path text) mem)
    exact keptOrMade_of_not_done sound spares (opens.tmp_eq ▸ here) ends (by simp)

end WriteCall

namespace Suite

variable {α : Type} {s s' : Suite α} {w : Workspace} {k : String} {a : α} {steps : List Step}

/-- The production behind the target. -/
def Offers (s : Suite α) (k : String) (a : α) (p : Production) : Prop :=
  ∃ producer, s.table.lookup k = some producer ∧ producer a = p

theorem generate_of_lazy (lazily : s.Offers k a ⟨steps, false⟩) :
    s.generate w k a = (s.writeCall k steps).run w := by
  obtain ⟨producer, has, eq⟩ := lazily
  simp only [generate, has, eq, Production.call, Bool.false_eq_true, if_false]
  rfl

theorem generate_of_eager (eagerly : s.Offers k a ⟨steps, true⟩) : s.generate w k a =
    match w.performAll steps with
    | (.error f, w) => (.error f, w)
    | (.ok ds, w) => (s.writeCall k (ds.map .yield)).run w := by
  obtain ⟨producer, has, eq⟩ := eagerly
  simp only [generate, has, eq, Production.call, if_true]
  rcases w.performAll steps with ⟨f | ds, v⟩ <;> rfl

/-- One suite offers the steps lazily and another one eagerly for the same file.  They write no
    file, there is no temporary file yet, and it can be opened. -/
structure BothWays (s s' : Suite α) (w : Workspace) (k : String) (a : α) (steps : List Step) :
    Prop where
  lazily : s.Offers k a ⟨steps, false⟩
  eagerly : s'.Offers k a ⟨steps, true⟩
  directory : s'.directory = s.directory
  caller : s'.caller = s.caller
  quiet : ∀ st ∈ steps, ¬ st.WritesFile
  sound : w.tree.Sound
  absent : w.tree.lookup (w.tree.place (temporaryName (s.fileName k))) = none
  canOpen : canOpen w.tree (s.fileName k)

namespace BothWays

variable {front rest : List Step} {f : Failure} {n : Nat} {v : Workspace}

theorem exists_opens (h : BothWays s s' w k a steps) :
    ∃ created t₁ tmp t₂, (s.writeCall k steps).Opens w created t₁ tmp t₂ := by
  obtain ⟨created, t₁, tmp, t₂, made, opened⟩ := exists_of_canOpen h.canOpen
  exact ⟨created, t₁, tmp, t₂, made, opened⟩

/-- If no step gives up, both calls come to the same. -/
theorem agrees (h : BothWays s s' w k a steps) (going : ∀ f, .fail f ∉ steps) :
    Agrees (fun _ => False) (s.generate w k a) (s'.generate w k a) := by
  obtain ⟨ds, v, all⟩ := Workspace.performAll_of_quiet h.quiet going w
  obtain ⟨rfl, -⟩ := Workspace.performAll_ok all
  have tree := Workspace.performAll_tree h.quiet w
  rw [all] at tree
  have agree : w.AgreeOn (fun _ => False) v := ⟨tree, nofun⟩
  have harmless := harmless_of_quiet h.quiet going
  have file : s'.fileName k = s.fileName k := by simp only [fileName, h.directory]
  rw [generate_of_lazy h.lazily, generate_of_eager h.eagerly, all]
  show Agrees _ (w.writeDataFile (s.fileName k) s.caller steps)
    (v.writeDataFile (s'.fileName k) s'.caller ((yielded w.registry steps).map .yield))
  rw [file, h.caller]
  exact Workspace.writeDataFile_agrees agree
    (fun t sink => Workspace.fill_yielded (w := { w with tree := t }) (v := { v with tree := t }) rfl
      harmless sink 0) _ _

/-- An eager producer that gives up does so before anything is made. -/
theorem eager_gives_up (h : BothWays s s' w k a (front ++ .fail f :: rest))
    (first : ∀ g, .fail g ∉ front) :
    (s'.generate w k a).1 = .error f ∧ (s'.generate w k a).2.tree = w.tree := by
  have harmless := harmless_of_quiet (fun st mem => h.quiet st (List.mem_append_left _ mem)) first
  have fails := Workspace.performAll_of_fail harmless w f rest
  have tree := Workspace.performAll_tree h.quiet w
  rw [generate_of_eager h.eagerly]
  rcases all : w.performAll (front ++ .fail f :: rest) with ⟨g | ds, v⟩
  · rw [all] at fails tree
    cases fails
    exact ⟨rfl, tree⟩
  · rw [all] at fails
    cases fails

/-- A lazy producer gives up unless a draft before that is not complete. -/
theorem lazy_gives_up (h : BothWays s s' w k a (front ++ .fail f :: rest))
    (first : ∀ g, .fail g ∉ front)
    (checked : ∀ d ∈ yielded w.registry front, ∃ r, d.check = .ok r) :
    (s.generate w k a).1 = .error f := by
  have harmless := harmless_of_quiet (fun st mem => h.quiet st (List.mem_append_left _ mem)) first
  obtain ⟨created, t₁, tmp, t₂, opens⟩ := h.exists_opens
  rw [generate_of_lazy h.lazily]
  refine opens.error_of_fill fun u sink registry => ?_
  rw [← registry] at checked
  exact Workspace.fill_of_fail harmless checked sink 0

theorem lazy_invalid {before after : List Draft} {d : Draft}
    (h : BothWays s s' w k a (front ++ rest)) (first : ∀ g, .fail g ∉ front)
    (drafts : yielded w.registry front = before ++ d :: after)
    (checked : ∀ e ∈ before, ∃ r, e.check = .ok r) (invalid : d.check = .error f) :
    (s.generate w k a).1 = .error f := by
  have harmless := harmless_of_quiet (fun st mem => h.quiet st (List.mem_append_left _ mem)) first
  obtain ⟨created, t₁, tmp, t₂, opens⟩ := h.exists_opens
  rw [generate_of_lazy h.lazily]
  refine opens.error_of_fill fun u sink registry => ?_
  rw [← registry] at drafts
  exact Workspace.fill_of_invalid harmless drafts checked invalid sink 0

/-- A lazy call that succeeds has met no step that gives up. -/
theorem going_of_ok (h : BothWays s s' w k a steps) (ok : s.generate w k a = (.ok n, v)) :
    ∀ f, .fail f ∉ steps := by
  obtain ⟨created, t₁, tmp, t₂, opens⟩ := h.exists_opens
  rw [generate_of_lazy h.lazily] at ok
  exact (opens.complete_of_ok ok).1

/-- What a lazy call that fails leaves. -/
theorem lazy_failed (h : BothWays s s' w k a steps) (failed : s.generate w k a = (.error f, v)) :
    (".." ∉ segments (s.fileName k) → v.tree = w.tree) ∧
      ∀ q, (s.writeCall k steps).KeptOrMade w v.tree q := by
  obtain ⟨created, t₁, tmp, t₂, opens⟩ := h.exists_opens
  have absent : w.tree.lookup tmp = none := by
    rw [opens.tmp_eq]
    exact h.absent
  rw [generate_of_lazy h.lazily] at failed
  exact ⟨fun down => opens.restored down h.sound h.quiet absent failed,
    opens.keptOrMade_of_failed h.sound h.quiet absent failed⟩

end BothWays

/-! ## Section 4: Both calls -/

/-- A producer may take its steps one by one or all at once.  If none of them gives up, both calls
    end in the same way and leave the same tree.  If one does, both fail: the eager one before
    anything is made and with the failure of that step, the lazy one with the first failure on the
    way.  Without a step upwards in the name of the file both leave the same tree in any case;
    otherwise the lazy call may leave directories that it has made. -/
theorem lazy_or_eager (h : BothWays s s' w k a steps) :
    -- no step gives up
    ((∀ f, .fail f ∉ steps) → (s'.generate w k a).1 = (s.generate w k a).1 ∧
      (s'.generate w k a).2.tree = (s.generate w k a).2.tree) ∧
    -- a step gives up
    (∀ front f rest, steps = front ++ .fail f :: rest → (∀ g, .fail g ∉ front) →
      (s'.generate w k a).1 = .error f ∧ (s'.generate w k a).2.tree = w.tree ∧
      ((∀ d ∈ yielded w.registry front, ∃ r, d.check = .ok r) →
        (s.generate w k a).1 = .error f) ∧
      (∀ before d after g, yielded w.registry front = before ++ d :: after →
        (∀ e ∈ before, ∃ r, e.check = .ok r) → d.check = .error g →
        (s.generate w k a).1 = .error g)) ∧
    -- in any case
    ((∃ n, (s.generate w k a).1 = .ok n) ↔ ∃ n, (s'.generate w k a).1 = .ok n) ∧
    (".." ∉ segments (s.fileName k) →
      (s'.generate w k a).2.tree = (s.generate w k a).2.tree) ∧
    (∀ q, (s.generate w k a).2.tree.lookup q = (s'.generate w k a).2.tree.lookup q ∨
      ((s'.generate w k a).2.tree.lookup q = none ∧
        (s.generate w k a).2.tree.lookup q = some .directory ∧
        q ∈ visited (startOf w.tree (s.fileName k)) (segments (directoryOf (s.fileName k))))) := by
  have same (going : ∀ f, .fail f ∉ steps) : (s'.generate w k a).1 = (s.generate w k a).1 ∧
      (s'.generate w k a).2.tree = (s.generate w k a).2.tree :=
    ⟨(h.agrees going).result, (h.agrees going).workspace.tree⟩
  refine ⟨same, ?_, ?_⟩
  · rintro front f rest rfl first
    obtain ⟨eager, tree⟩ := h.eager_gives_up first
    exact ⟨eager, tree, h.lazy_gives_up first,
      fun before d after g drafts checked invalid => h.lazy_invalid first drafts checked invalid⟩
  · rcases exists_first_fail steps with going | ⟨front, f, rest, rfl, first⟩
    · obtain ⟨result, tree⟩ := same going
      rw [result, tree]
      exact ⟨Iff.rfl, fun _ => rfl, fun q => .inl rfl⟩
    · -- the eager call leaves the tree that both have found
      obtain ⟨eager, tree⟩ := h.eager_gives_up first
      rcases ends : s.generate w k a with ⟨g | n, v⟩
      · obtain ⟨restored, kept⟩ := h.lazy_failed ends
        rw [eager, tree]
        exact ⟨by simp, fun down => (restored down).symm, kept⟩
      · exact absurd (by simp) (h.going_of_ok ends f)

/-- A test case without a function before a step that gives up. -/
theorem lazy_or_eager_invalid_first :
    let steps : List Step := [.yield { description := some "sum", function := some "add" },
      .yield { description := some "no function" }, .fail (.stopped "no")]
    let lazy : Suite Unit := ⟨"out", "testgen", [("sums", fun _ => { steps })]⟩
    let eager : Suite Unit := ⟨"out", "testgen", [("sums", fun _ => { steps, eager := true })]⟩
    ∃ first rest, (lazy.generate {} "sums" ()).1 =
        .error (.badRecord (some "no function") first rest) ∧
      (eager.generate {} "sums" ()).1 = .error (.stopped "no") ∧
      (eager.generate {} "sums" ()).2.tree = (lazy.generate {} "sums" ()).2.tree := by
  intro steps lazy eager
  have h : BothWays lazy eager {} "sums" () steps :=
    ⟨⟨_, rfl, rfl⟩, ⟨_, rfl, rfl⟩, rfl, rfl, by decide +kernel, by decide +kernel, by decide +kernel,
      by decide +kernel⟩
  let front : List Step := [.yield { description := some "sum", function := some "add" },
    .yield { description := some "no function" }]
  obtain ⟨-, gives_up, -, down, -⟩ := lazy_or_eager h
  obtain ⟨eagerly, -, -, lazily⟩ := gives_up front (.stopped "no") [] rfl (by simp [front])
  have complete : ∀ e ∈ [({ description := some "sum", function := some "add" } : Draft)],
      ∃ r, e.check = .ok r := by
    intro e mem
    obtain rfl := List.mem_singleton.mp mem
    exact ⟨_, rfl⟩
  exact ⟨_, _, lazily _ _ [] _ rfl complete rfl, eagerly, down (by decide +kernel)⟩

/-- Where the directory walks upwards, a lazy producer that gives up leaves a directory that an
    eager one has never made. -/
theorem lazy_leaves_directories :
    ¬ ∀ (s s' : Suite Unit) (w : Workspace) (k : String) (steps : List Step),
      BothWays s s' w k () steps →
      (s'.generate w k ()).2.tree = (s.generate w k ()).2.tree := by
  intro claim
  let lazy : Suite Unit := ⟨"a/../b", "testgen", [("sums", fun _ => ⟨[.fail .noText], false⟩)]⟩
  let eager : Suite Unit := ⟨"a/../b", "testgen", [("sums", fun _ => ⟨[.fail .noText], true⟩)]⟩
  have h : BothWays lazy eager {} "sums" () [.fail .noText] :=
    ⟨⟨_, rfl, rfl⟩, ⟨_, rfl, rfl⟩, rfl, rfl, by decide +kernel, by decide +kernel, by decide +kernel,
      by decide +kernel⟩
  have left : (lazy.generate {} "sums" ()).2.tree.lookup ["b"] = some .directory := by
    decide +kernel
  rw [← claim lazy eager {} "sums" [.fail .noText] h] at left
  exact absurd left (by decide +kernel)

end Suite

end CaseGen
