import CaseGen.Proofs.Suite.Eagerness
import CaseGen.Proofs.Target.Pulling

/-! # Data files of generators

    A data file is written from a generator as far as it is pulled: one
    pull for each record.  The first record that is not valid ends it, and
    what comes after that record is never made.

    * `Workspace.FillsFrom` — an open file is filled by pulling a generator
    * `Holds.fillsFrom`     — the steps of its events do the same
    * `FailsAt`             — the first record that is not valid
    * `fill_events`         — filling ends there, or all records are valid
    * `no_work_ahead`       — generators make nothing before they are pulled for it -/

namespace CaseGen

variable {w : Workspace} {sink : Sink} {count : Nat} {g : Generator} {l : List Registration}

/-! ## Section 1: Filling a file from a generator -/

namespace Workspace

/-- An open file is filled by pulling a generator.  Each instance that it gives is written as a
    record; a message, an end and a record that is not valid are the end of it. -/
inductive FillsFrom : Workspace → Sink → Nat → Generator →
    Except Failure (Sink × Nat) × Workspace → Prop
  | done {w : Workspace} {sink : Sink} {count : Nat} {g g' : Generator} {r : Registry}
    (next : g.next w.registry = (.done, g', r)) :
    FillsFrom w sink count g (.ok (sink, count), { w with registry := r })
  | stopped {w : Workspace} {sink : Sink} {count : Nat} {g g' : Generator} {r : Registry}
    {message : String} (next : g.next w.registry = (.stopped message, g', r)) :
    FillsFrom w sink count g (.error (.stopped message), { w with registry := r })
  | invalid {w : Workspace} {sink : Sink} {count : Nat} {g g' : Generator} {r : Registry}
    {i : Instance} {f : Failure} (next : g.next w.registry = (.made i, g', r))
    (bad : i.draft.lines = .error f) :
    FillsFrom w sink count g (.error f, { w with registry := r })
  | record {w : Workspace} {sink : Sink} {count : Nat} {g g' : Generator} {r : Registry}
    {i : Instance} {lines : List String} {ends : Except Failure (Sink × Nat) × Workspace}
    (next : g.next w.registry = (.made i, g', r)) (ok : i.draft.lines = .ok lines)
    (rest : FillsFrom (append { w with registry := r } sink (textOfLines lines)).2
      (append { w with registry := r } sink (textOfLines lines)).1 (count + 1) g' ends) :
    FillsFrom w sink count g ends

end Workspace

namespace Workspace

/-- An instance whose record is not valid ends the filling once it is made. -/
theorem fill_construct_invalid {c : TargetClass} {spec : CaseSpec} {f : Failure}
    (bad : (w.registry.construct c spec).1.draft.lines = .error f) (rest : List Step) :
    w.fill sink count (.construct c spec :: rest) =
      (.error f, { w with registry := (w.registry.construct c spec).2 }) := by
  simp only [fill, perform, bad]

theorem fill_construct_ok {c : TargetClass} {spec : CaseSpec} {lines : List String}
    (ok : (w.registry.construct c spec).1.draft.lines = .ok lines) (rest : List Step) :
    let next := append { w with registry := (w.registry.construct c spec).2 } sink
      (textOfLines lines)
    w.fill sink count (.construct c spec :: rest) = next.2.fill next.1 (count + 1) rest := by
  simp only [fill, perform, ok]

end Workspace

/-- The steps for the events of a generator, up to the first stop, do what its pulls do. -/
theorem Registry.Holds.fillsFrom (h : w.registry.Holds l) (sink : Sink) (count : Nat)
    (g : Generator) :
    w.FillsFrom sink count g (w.fill sink count
      (Production.ofEvents (Event.untilStop (g.events w.registry))).steps) := by
  generalize same : g.events w.registry = events
  induction events generalizing w sink count g with
  | nil =>
    rcases h.next_cases g with ⟨_, next⟩ | ⟨_, _, events, _⟩ | ⟨_, _, _, events, _⟩
    · exact .done next
    · cases same.symm.trans events
    · cases same.symm.trans events
  | cons e events ih =>
    rcases h.next_cases g with
      ⟨events, _⟩ | ⟨message, _, events, next⟩ | ⟨owner, spec, rest, events, next⟩ <;>
      cases same.symm.trans events
    · exact .stopped next
    · have alike := Registry.alike_construct w.registry owner spec
      rw [Event.untilStop, Production.ofEvents, List.map_cons]
      cases lines : (w.registry.construct owner spec).1.draft.lines with
      | error f =>
        rw [Workspace.fill_construct_invalid lines]
        exact .invalid next lines
      | ok lines' =>
        rw [Workspace.fill_construct_ok lines]
        exact .record next lines (ih (h.congr alike) _ _ rest (alike.events rest))

/-! ## Section 2: The first record that is not valid -/

/-- The record of the `k`-th instance, counted from one, is the first that is not valid, and this is
    its failure. -/
inductive FailsAt : List Instance → Nat → Failure → Prop
  | here {i : Instance} {rest : List Instance} {f : Failure} (invalid : i.draft.check = .error f) :
    FailsAt (i :: rest) 1 f
  | later {i : Instance} {rest : List Instance} {r : Record} {k : Nat} {f : Failure}
    (complete : i.draft.check = .ok r) (fails : FailsAt rest k f) : FailsAt (i :: rest) (k + 1) f

variable {made : List Instance} {k k' : Nat} {f f' : Failure} {events : List Event}

theorem FailsAt.unique (h : FailsAt made k f) (h' : FailsAt made k' f') : k' = k ∧ f' = f := by
  induction h generalizing k' with
  | here invalid =>
    cases h' with
    | here invalid' =>
      cases invalid.symm.trans invalid'
      exact ⟨rfl, rfl⟩
    | later complete => cases invalid.symm.trans complete
  | later complete _ ih =>
    cases h' with
    | here invalid => cases invalid.symm.trans complete
    | later _ fails =>
      obtain ⟨rfl, rfl⟩ := ih fails
      exact ⟨rfl, rfl⟩

theorem FailsAt.not_complete (h : FailsAt made k f) :
    ¬ ∀ i ∈ made, ∃ r, i.draft.check = .ok r := by
  induction h with
  | here invalid =>
    intro complete
    obtain ⟨r, ok⟩ := complete _ List.mem_cons_self
    cases invalid.symm.trans ok
  | later _ _ ih =>
    intro complete
    apply ih
    intro i mem
    exact complete i (List.mem_cons_of_mem _ mem)

/-- An instance that has no lines after others that have some is the first that is not valid. -/
theorem exists_failsAt_of_lines {before : List Instance} {i : Instance}
    (complete : ∀ j ∈ before, j.draft.lines.isOk) (invalid : ¬ i.draft.lines.isOk)
    (after : List Instance) : ∃ f, FailsAt (before ++ i :: after) (before.length + 1) f := by
  rw [Draft.isOk_lines_iff] at invalid
  induction before with
  | nil =>
    cases check : i.draft.check with
    | ok r => exact absurd ⟨r, check⟩ invalid
    | error f => exact ⟨f, .here check⟩
  | cons j before ih =>
    obtain ⟨first, others⟩ := List.forall_mem_cons.mp complete
    obtain ⟨r, ok⟩ := Draft.isOk_lines_iff.mp first
    obtain ⟨f, fails⟩ := ih others
    exact ⟨f, .later ok fails⟩

/-- The counts of a workspace are those of a registry and the instances counted besides. -/
def Workspace.Counted (w : Workspace) (r : Registry) (made : List Instance) : Prop :=
  ∀ c, w.registry.count c = r.count c + made.countP (·.target = c)

/-- Counting an instance and then others is counting them all. -/
theorem Workspace.Counted.construct {v : Workspace} {r : Registry} {c : TargetClass}
    {spec : CaseSpec} (h : v.Counted (r.construct c spec).2 made) :
    v.Counted r ((r.construct c spec).1 :: made) := by
  intro d
  have counted : (r.construct c spec).2.count d = r.count d + if c = d then 1 else 0 :=
    Registry.count_bump r c d
  have target : (r.construct c spec).1.target = c := rfl
  rw [h d, counted, List.countP_cons, target]
  simp only [decide_eq_true_eq]
  omega

/-- Filling ends with the first record that is not valid, and the instances up to this one are
    counted.  If all records are valid, it can only end with a message. -/
theorem Workspace.fill_events (w : Workspace) (sink : Sink) (count : Nat) (events : List Event) :
    (∃ k f, FailsAt (w.registry.follow events).made k f ∧
      (w.fill sink count (Production.ofEvents events).steps).1 = .error f ∧
      (w.fill sink count (Production.ofEvents events).steps).2.Counted w.registry
        ((w.registry.follow events).made.take k)) ∨
    (∀ i ∈ (w.registry.follow events).made, ∃ r, i.draft.check = .ok r) ∧
      ∀ f, (w.fill sink count (Production.ofEvents events).steps).1 = .error f →
        ∃ message, f = .stopped message := by
  induction events generalizing w sink count with
  | nil => exact .inr ⟨nofun, nofun⟩
  | cons e rest ih =>
    cases e with
    | stop message =>
      refine .inr ⟨nofun, ?_⟩
      intro f fails
      cases fails
      exact ⟨message, rfl⟩
    | make owner spec =>
      rw [Production.ofEvents, List.map_cons, Registry.follow]
      cases lines : (w.registry.construct owner spec).1.draft.lines with
      | error f =>
        rw [fill_construct_invalid lines]
        refine .inl ⟨1, f, .here (Draft.lines_eq_error_iff.mp lines), rfl, ?_⟩
        exact .construct fun c => rfl
      | ok lines' =>
        rw [fill_construct_ok lines]
        obtain ⟨r, complete, -⟩ := Draft.lines_eq_ok_iff.mp lines
        let v := append { w with registry := (w.registry.construct owner spec).2 } sink
          (textOfLines lines')
        rcases ih v.2 v.1 (count + 1) with ⟨k, f, fails, ends, counted⟩ | ⟨others, stops⟩
        · exact .inl ⟨k + 1, f, .later complete fails, ends, .construct counted⟩
        · exact .inr ⟨List.forall_mem_cons.mpr ⟨⟨r, complete⟩, others⟩, stops⟩

/-! ## Section 3: Data files that fail at a record -/

theorem FailsAt.badRecord (h : FailsAt made k f) :
    ∃ description first rest, f = .badRecord description first rest := by
  induction h with
  | @here i _ f invalid =>
    unfold Draft.check at invalid
    split at invalid
    · exact ⟨_, _, _, (Except.error.inj invalid).symm⟩
    · cases invalid
  | later _ _ ih => exact ih

variable {filename : String}

/-- A call that can open its file fails at the first record that is not valid. -/
theorem FailsAt.writeDataFile (h : FailsAt (w.registry.follow events).made k f)
    (opens : Suite.canOpen w.tree filename) (caller : String) :
    (w.writeDataFile filename caller (Production.ofEvents events).steps).1 = .error f := by
  obtain ⟨created, t₁, tmp, t₂, made, opened⟩ := Suite.exists_of_canOpen opens
  let c : WriteCall := ⟨filename, caller, (Production.ofEvents events).steps⟩
  have open' : c.Opens w created t₁ tmp t₂ := ⟨made, opened⟩
  refine open'.error_of_fill fun u sink registry => ?_
  rw [← registry] at h
  rcases u.fill_events sink 0 events with ⟨k', f', fails, ends, -⟩ | ⟨complete, -⟩
  · obtain ⟨rfl, rfl⟩ := h.unique fails
    exact ends
  · exact absurd complete h.not_complete

/-- A call that fails for a record has come to the first one that is not valid and has counted the
    instances up to this one. -/
theorem exists_failsAt {caller : String} {description : Option String} {first : Issue}
    {rest : List Issue}
    (failed : (w.writeDataFile filename caller (Production.ofEvents events).steps).1 =
      .error (.badRecord description first rest)) :
    ∃ k, FailsAt (w.registry.follow events).made k (.badRecord description first rest) ∧
      (w.writeDataFile filename caller (Production.ofEvents events).steps).2.Counted w.registry
        ((w.registry.follow events).made.take k) := by
  rcases w.writeDataFile_fills filename caller (Production.ofEvents events).steps with
    ⟨e, t, refused, -⟩ | ⟨t, sink, r, v, filled, -, registry, -, fails⟩
  · rw [refused] at failed
    cases failed
  · rcases fails _ failed with rfl | ⟨e, file⟩
    · rcases Workspace.fill_events { w with tree := t } sink 0 events with
        ⟨k, f, failsAt, ends, counted⟩ | ⟨-, stops⟩
      · rw [filled] at ends counted
        cases ends
        refine ⟨k, failsAt, fun c => ?_⟩
        rw [registry]
        exact counted c
      · rw [filled] at stops
        obtain ⟨message, stopped⟩ := stops _ rfl
        cases stopped
    · cases file

/-- If a record is the first that is not valid and the call fails with its failure, the instances up
    to this one are counted. -/
theorem FailsAt.counted (h : FailsAt (w.registry.follow events).made k f) {caller : String}
    (failed : (w.writeDataFile filename caller (Production.ofEvents events).steps).1 = .error f) :
    (w.writeDataFile filename caller (Production.ofEvents events).steps).2.Counted w.registry
      ((w.registry.follow events).made.take k) := by
  obtain ⟨description, first, rest, rfl⟩ := h.badRecord
  obtain ⟨k', fails, counted⟩ := exists_failsAt failed
  obtain ⟨rfl, -⟩ := h.unique fails
  exact counted

/-! ## Section 4: No work ahead -/

/-- To ask for a generator makes no instance.  Its first pulls give and make the first instances of
    a drain, and pulls after its end change nothing.  A data file is written by such pulls: if it
    fails because its `k`-th record is not valid, the first `k` instances are counted and no
    others. -/
theorem Target.Session.no_work_ahead {s : Session} {events : List Event}
    (reached : s.registry.Reached) (obtains : s.registry.Obtains g events) (key : String) :
    let started := (s.step (.start key g)).2
    ∃ d, (∀ d', s.registry.Drains g d' ↔ d' = d) ∧
      -- asking for the generator
      started.registry = s.registry ∧ s.entries (.start key g) = [] ∧
      -- the first pulls
      (∀ k, let pulls := List.replicate k (.pull key)
        (started.run pulls).1 = (d.answers k).map .pulled ∧
        started.log pulls = (d.made.take k).map .made ∧
        ∀ c, (started.run pulls).2.registry.count c =
          s.registry.count c + (d.made.take k).countP (·.target = c)) ∧
      -- pulls after the end
      (∀ before a after, (started.run before).2.Ends key a → (∀ g', .start key g' ∉ after) →
        (started.run (before ++ a :: after)).2.Spent key) ∧
      -- a data file
      ∀ w : Workspace, w.registry = s.registry →
        let steps := (Production.ofEvents events).steps
        (∀ sink count, w.FillsFrom sink count g (w.fill sink count steps)) ∧
        ∀ filename caller, let ends := w.writeDataFile filename caller steps
          (∀ k f, FailsAt d.made k f →
            (Suite.canOpen w.tree filename → ends.1 = .error f) ∧
            (ends.1 = .error f → ends.2.Counted s.registry (d.made.take k))) ∧
          ∀ description first rest, ends.1 = .error (.badRecord description first rest) →
            ∃ k, FailsAt d.made k (.badRecord description first rest) := by
  intro started
  obtain ⟨l, holds⟩ := reached.holds
  have drains := holds.drains_follow g
  have follow : s.registry.follow (g.events s.registry) = s.registry.follow events := by
    rw [obtains.events_eq, Registry.follow_untilStop]
  have kept : started.generator key = g := generator_keep_self s key g
  refine ⟨_, fun d' => holds.drains_iff, rfl, rfl, ?_, ?_, ?_⟩
  · intro k pulls
    obtain ⟨replies, log⟩ := pulls_eq drains (s := started) rfl kept k
    exact ⟨replies, log, count_pulls drains (s := started) rfl kept k⟩
  · intro before a after
    exact spent_of_ends
  · intro w registry steps
    rw [follow, ← registry]
    refine ⟨?_, ?_⟩
    · intro sink count
      rw [← registry] at holds obtains
      have filled := holds.fillsFrom sink count g
      rwa [← obtains.events_eq] at filled
    · intro filename caller ends
      refine ⟨?_, ?_⟩
      · intro k f fails
        exact ⟨fun opens => fails.writeDataFile opens caller, fails.counted⟩
      · intro description first rest failed
        obtain ⟨k, fails, -⟩ := exists_failsAt failed
        exact ⟨k, fails⟩

/-- A class inherits a list with a walk and a stop.  The third record has an argument of two lines,
    and an instance of its class was made before. -/
theorem Target.Session.no_work_ahead_inherited_list :
    let parent : TargetClass := .sub 0 .base
      { name := "P", title := some "p", function := some "f",
        emissions := some [.make {}, .walk, .make {}, .stop "no"] }
    let child : TargetClass := .sub 1 parent { name := "C" }
    let leaf : TargetClass := .sub 2 child
      { name := "L", emissions := some [.make {}, .make { arguments := ["1\n2"] }] }
    let s := (({} : Session).run
      [.register parent, .register child, .register leaf, .construct leaf {}]).2
    let started := (s.step (.start "g" (Generator.start child))).2
    let pulls (k : Nat) : List Action := List.replicate k (.pull "g")
    let steps := (Production.ofEvents (s.registry.events child)).steps
    let ends := ({ registry := s.registry } : Workspace).writeDataFile "out/p.data" "testgen" steps
    -- two instances of each class are given before the message
    (started.run (pulls 7)).1 =
      [Generator.Next.made ⟨parent, 1, {}⟩, .made ⟨leaf, 2, {}⟩,
        .made ⟨leaf, 3, { arguments := ["1\n2"] }⟩, .made ⟨parent, 2, {}⟩, .stopped "no", .done,
        .done].map .pulled ∧
      -- two pulls make one of each class
      started.log (pulls 2) = [.made ⟨parent, 1, {}⟩, .made ⟨leaf, 2, {}⟩] ∧
      (started.run (pulls 2)).2.registry.count leaf = 2 ∧
      (started.run (pulls 4 ++ .pull "g" :: [.resetCounters])).2.Spent "g" ∧
      (started.run (pulls 1 ++ .stop "g" :: [.pull "g"])).2.Spent "g" ∧
      -- the data file fails for the third record
      (∃ description first rest, ends.1 = .error (.badRecord description first rest)) ∧
      ends.2.registry.count parent = 1 ∧ ends.2.registry.count leaf = 3 := by
  intro parent child leaf s started pulls steps ends
  have reached : s.registry.Reached := ⟨_, rfl⟩
  obtain ⟨d, unique, -, -, first, after, file⟩ :=
    no_work_ahead reached (.cases child) "g"
  obtain ⟨l, holds⟩ := reached.holds
  have drained := (unique _).mp (holds.drains_follow (Generator.start child))
  have made : d.made = [⟨parent, 1, {}⟩, ⟨leaf, 2, {}⟩, ⟨leaf, 3, { arguments := ["1\n2"] }⟩,
      ⟨parent, 2, {}⟩] := by
    rw [← drained]
    decide +kernel
  have stopped : d.stopped = some "no" := by
    rw [← drained]
    decide +kernel
  obtain ⟨replies, -⟩ := first 7
  obtain ⟨-, log, count⟩ := first 2
  have answers : d.answers 7 = [.made ⟨parent, 1, {}⟩, .made ⟨leaf, 2, {}⟩,
      .made ⟨leaf, 3, { arguments := ["1\n2"] }⟩, .made ⟨parent, 2, {}⟩, .stopped "no", .done,
      .done] := by
    rw [Drained.answers, made, stopped]
    decide +kernel
  rw [answers] at replies
  rw [made] at log count
  have here : (started.run (pulls 4)).2.Ends "g" (.pull "g") := .inr ⟨rfl, by decide +kernel⟩
  obtain ⟨f, fails⟩ : ∃ f, FailsAt d.made 3 f := by
    have complete : ∀ j ∈ [(⟨parent, 1, {}⟩ : Instance), ⟨leaf, 2, {}⟩], j.draft.lines.isOk := by
      decide +kernel
    rw [made]
    exact exists_failsAt_of_lines complete (by decide +kernel) [⟨parent, 2, {}⟩]
  obtain ⟨description, text, rest, rfl⟩ := fails.badRecord
  obtain ⟨-, written⟩ := file { registry := s.registry } rfl
  have failing : (Suite.canOpen {} "out/p.data" → ends.1 = _) ∧
      (ends.1 = _ → ends.2.Counted s.registry (d.made.take 3)) :=
    (written "out/p.data" "testgen").1 3 _ fails
  -- from here on it does not matter what the call is
  clear_value ends
  obtain ⟨failed, counted⟩ := failing
  have ended := failed (by decide +kernel)
  have counts := counted ended
  rw [made] at counts
  refine ⟨replies, log, (count leaf).trans ?_, ?_, ?_, ⟨_, _, _, ended⟩, ?_, ?_⟩
  · decide +kernel
  · exact after _ _ _ here (by simp)
  · exact after _ _ _ (.inl rfl) (by simp)
  · exact (counts parent).trans (by decide +kernel)
  · exact (counts leaf).trans (by decide +kernel)

end CaseGen
