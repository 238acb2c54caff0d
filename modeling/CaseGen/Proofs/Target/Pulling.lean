import CaseGen.Proofs.Target.Numbering

/-! # The first pulls of a generator

    A generator does no work ahead.  It makes an instance when it is pulled
    and none before, so its first pulls make the first instances of a drain
    and count them.  Once it is at its end it changes nothing any more.

    * `Registry.Obtains` — the generators that are to be had, with their events
    * `Drained.answers`  — what the first pulls of a generator are answered
    * `pulls_eq`         — these are the answers, and they are the instances made
    * `count_pulls`      — what the first pulls add to the counts
    * `Session.Ends`     — the end of a generator
    * `spent_of_ends`    — pulls after it change nothing -/

namespace CaseGen

variable {r : Registry} {l : List Registration} {g : Generator} {events : List Event}

/-! ## Section 1: Generators with their events -/

/-- The generators that are to be had: that of a class and that of a list of word sizes.  Beside
    each stand the events that a data file is written from. -/
inductive Registry.Obtains (r : Registry) : Generator → List Event → Prop
  | cases (c : TargetClass) : Obtains r (Generator.start c) (r.events c)
  | sizes (l : List ConstantTime.WordSize) :
    Obtains r (ConstantTime.sizeMaskGenerator l) (ConstantTime.sizeMaskEvents l)

theorem Event.untilStop_make (c : TargetClass) (specs : List CaseSpec) :
    Event.untilStop (specs.map (.make c)) = specs.map (.make c) := by
  induction specs with
  | nil => rfl
  | cons spec specs ih => exact congrArg (.make c spec :: ·) ih

/-- Emissions that only make instances are their own events, whatever is registered. -/
theorem Generator.events_ofEmissions (r : Registry) (c : TargetClass) (specs : List CaseSpec) :
    (Generator.ofEmissions c (specs.map .make)).events r = specs.map (.make c) := by
  rw [Generator.ofEmissions, Generator.events_singleton]
  induction specs with
  | nil => rfl
  | cons spec specs ih => exact congrArg (.make c spec :: ·) ih

/-- The events beside a generator are those of its work, up to the first stop. -/
theorem Registry.Obtains.events_eq (h : r.Obtains g events) :
    events = Event.untilStop (g.events r) := by
  cases h with
  | cases c => rw [Generator.events_start, Registry.events, Registry.allEvents]
  | sizes l =>
    rw [ConstantTime.sizeMaskGenerator, Generator.events_ofEmissions, Event.untilStop_make,
      ConstantTime.sizeMaskEvents]

/-- What comes after a stop is not followed. -/
theorem Registry.follow_untilStop (r : Registry) (events : List Event) :
    r.follow (Event.untilStop events) = r.follow events := by
  induction events generalizing r with
  | nil => rfl
  | cons e rest ih =>
    cases e with
    | make owner spec => simp only [Event.untilStop, follow, ih]
    | stop message => rfl

/-! ## Section 2: The answers to the first pulls -/

/-- The instance that a pull gives. -/
def Generator.Next.instance? : Generator.Next → Option Instance
  | made i => some i
  | stopped _ | done => none

namespace Drained

/-- The answers to the first `k` pulls of a generator that drains like this: its instances, its
    message if it is given up, and nothing but its end from then on. -/
def answers (d : Drained) (k : Nat) : List Generator.Next :=
  let ends := d.stopped.toList.map Generator.Next.stopped
  (d.made.map Generator.Next.made ++ (ends ++ List.replicate k Generator.Next.done)).take k

theorem answers_nil (r : Registry) (k : Nat) :
    answers ⟨[], none, r⟩ k = List.replicate k .done := by
  simp [answers]

theorem answers_stopped (r : Registry) (message : String) (k : Nat) :
    answers ⟨[], some message, r⟩ (k + 1) = .stopped message :: List.replicate k .done := by
  simp [answers]

theorem answers_made (d : Drained) (i : Instance) (k : Nat) :
    answers { d with made := i :: d.made } (k + 1) = .made i :: d.answers k := by
  -- one end more or less is not reached
  have enough (m n : Nat) : min (k - m - n) (k + 1) = min (k - m - n) k := by omega
  simp [answers, List.take_append, enough]

end Drained

/-! ## Section 3: Pulling some times -/

/-- A pull that gives no instance leaves no work and makes nothing. -/
theorem Generator.next_of_not_made {n : Generator.Next} {g' : Generator} {r' : Registry}
    (next : g.next r = (n, g', r')) (ends : n.instance? = none) : g' = [] ∧ r' = r := by
  unfold Generator.next at next
  cases pull : g.pull r with
  | make owner spec rest =>
    simp only [pull] at next
    cases next
    cases ends
  | stop message =>
    simp only [pull] at next
    cases next
    exact ⟨rfl, rfl⟩
  | done =>
    simp only [pull] at next
    cases next
    exact ⟨rfl, rfl⟩

namespace Target.Session

variable {s : Session} {key : String} {a : Action} {c : TargetClass} {n : Generator.Next}
  {r' : Registry} {d : Drained}

theorem step_pull (next : (s.generator key).next s.registry = (n, g, r')) :
    s.step (.pull key) = (.pulled n, { s with registry := r' }.keep key g) := by
  rw [step, next]

theorem entries_pull (next : (s.generator key).next s.registry = (n, g, r')) :
    s.entries (.pull key) = n.instance?.toList.map .made := by
  unfold entries
  rw [step_pull next]
  cases n <;> rfl

/-- Pulling is one pull, and pulling what the generator has left. -/
theorem pulls_succ (next : (s.generator key).next s.registry = (n, g, r')) (k : Nat) :
    let s' := { s with registry := r' }.keep key g
    (s.run (List.replicate (k + 1) (.pull key))).1 =
        .pulled n :: (s'.run (List.replicate k (.pull key))).1 ∧
      s.log (List.replicate (k + 1) (.pull key)) =
        n.instance?.toList.map .made ++ s'.log (List.replicate k (.pull key)) := by
  rw [List.replicate_succ, run, log, entries_pull next, step_pull next]
  exact ⟨rfl, rfl⟩

theorem next_of_no_work (none : s.generator key = []) :
    (s.generator key).next s.registry = (.done, [], s.registry) := by
  rw [none]
  rfl

/-- A generator without work is at its end, however often it is pulled. -/
theorem pulls_of_no_work (none : s.generator key = []) (k : Nat) :
    (s.run (List.replicate k (.pull key))).1 = List.replicate k (.pulled .done) ∧
      s.log (List.replicate k (.pull key)) = [] := by
  induction k generalizing s with
  | zero => exact ⟨rfl, rfl⟩
  | succ k ih =>
    obtain ⟨replies, log⟩ := pulls_succ (next_of_no_work none) k
    obtain ⟨replies', log'⟩ := ih (generator_keep_self s key [])
    rw [replies, log, replies', log']
    exact ⟨rfl, rfl⟩

/-- A pull that gives no instance is answered and makes nothing, and all later ones find the end. -/
theorem pulls_of_not_made (next : (s.generator key).next s.registry = (n, g, r'))
    (ends : n.instance? = none) (k : Nat) :
    (s.run (List.replicate (k + 1) (.pull key))).1 = .pulled n :: List.replicate k (.pulled .done) ∧
      s.log (List.replicate (k + 1) (.pull key)) = [] := by
  obtain ⟨rfl, rfl⟩ := Generator.next_of_not_made next ends
  obtain ⟨replies, log⟩ := pulls_succ next k
  obtain ⟨replies', log'⟩ := pulls_of_no_work (generator_keep_self s key []) k
  rw [replies, log, replies', log', ends]
  exact ⟨rfl, rfl⟩

/-- The first pulls of a generator are answered by the first instances of its drain, by its message
    if it is given up, and by its end.  They make the instances that they give and no others. -/
theorem pulls_eq (drains : r.Drains g d) (registry : s.registry = r) (kept : s.generator key = g)
    (k : Nat) :
    (s.run (List.replicate k (.pull key))).1 = (d.answers k).map .pulled ∧
      s.log (List.replicate k (.pull key)) = (d.made.take k).map .made := by
  -- by induction on the drain; a pull that makes an instance leaves the rest of the drain
  induction drains generalizing s k with
  | done next =>
    subst registry kept
    cases k with
    | zero => exact ⟨rfl, rfl⟩
    | succ k =>
      obtain ⟨replies, log⟩ := pulls_of_not_made next rfl k
      rw [replies, log, Drained.answers_nil]
      simp [List.replicate_succ]
  | stopped next =>
    subst registry kept
    cases k with
    | zero => exact ⟨rfl, rfl⟩
    | succ k =>
      obtain ⟨replies, log⟩ := pulls_of_not_made next rfl k
      rw [replies, log, Drained.answers_stopped]
      simp
  | @made r r' g g' i d next _ ih =>
    subst registry kept
    cases k with
    | zero => exact ⟨rfl, rfl⟩
    | succ k =>
      obtain ⟨replies, log⟩ := pulls_succ next k
      obtain ⟨replies', log'⟩ := ih (s := { s with registry := r' }.keep key g') rfl
        (generator_keep_self _ key g') k
      rw [replies, log, replies', log', Drained.answers_made, List.take_succ_cons]
      exact ⟨rfl, rfl⟩

theorem length_numbers_made (l : List Instance) (c : TargetClass) :
    ((l.map Entry.made).filterMap (Entry.number? c)).length = l.countP (·.target = c) := by
  rw [List.filterMap_map, List.length_filterMap_eq_countP]
  apply List.countP_congr
  intro i _
  by_cases own : i.target = c <;> simp [Entry.number?, own]

/-- The first pulls count the instances that they make and nothing else. -/
theorem count_pulls (drains : r.Drains g d) (registry : s.registry = r)
    (kept : s.generator key = g) (k : Nat) (c : TargetClass) :
    (s.run (List.replicate k (.pull key))).2.registry.count c =
      s.registry.count c + (d.made.take k).countP (·.target = c) := by
  have counted := counts_log s (List.replicate k (.pull key)) c
  have noReset : .reset ∉ s.log (List.replicate k (.pull key)) := by
    apply not_reset_mem_log
    intro mem
    cases List.eq_of_mem_replicate mem
  obtain ⟨-, count⟩ := counted.numbers noReset
  rw [count, (pulls_eq drains registry kept k).2, length_numbers_made]

/-! ## Section 4: After the end -/

/-- The operation ends the generator: it is stopped, or it is pulled and gives no instance. -/
def Ends (s : Session) (key : String) (a : Action) : Prop :=
  a = .stop key ∨ (a = .pull key ∧ ((s.generator key).next s.registry).1.instance? = none)

/-- A pull of the generator finds its end and changes nothing. -/
structure Spent (s : Session) (key : String) : Prop where
  reply : (s.step (.pull key)).1 = .pulled .done
  entries : s.entries (.pull key) = []
  registry : (s.step (.pull key)).2.registry = s.registry
  generators : ∀ key', (s.step (.pull key)).2.generator key' = s.generator key'

theorem spent_of_no_work (none : s.generator key = []) : s.Spent key := by
  have next := next_of_no_work none
  refine ⟨?_, ?_, ?_, ?_⟩
  · rw [step_pull next]
  · rw [entries_pull next]
    rfl
  · rw [step_pull next]
    rfl
  · intro key'
    rw [step_pull next]
    refine (generator_keep s key [] key').trans ?_
    split
    · next same => rw [same, none]
    · rfl

theorem Ends.no_work (h : s.Ends key a) : (s.step a).2.generator key = [] := by
  rcases h with rfl | ⟨rfl, ends⟩
  · exact generator_keep_self s key []
  · rcases next : (s.generator key).next s.registry with ⟨n, g, r'⟩
    rw [next] at ends
    rw [step_pull next, (Generator.next_of_not_made next ends).1]
    exact generator_keep_self _ key []

/-- No operation but a start gives work to a generator that has none. -/
theorem no_work_step (none : s.generator key = []) (starts : ∀ g, a ≠ .start key g) :
    (s.step a).2.generator key = [] := by
  by_cases about : a.key? = some key
  · cases a with
    | start key' g =>
      cases about
      exact absurd rfl (starts g)
    | pull key' =>
      cases about
      rw [(spent_of_no_work none).generators, none]
    | stop key' =>
      cases about
      exact generator_keep_self s key []
    | _ => cases about
  · rw [generator_step about, none]

theorem no_work_run {actions : List Action} (none : s.generator key = [])
    (starts : ∀ g, .start key g ∉ actions) : (s.run actions).2.generator key = [] := by
  induction actions generalizing s with
  | nil => exact none
  | cons a rest ih =>
    refine ih (no_work_step none fun g same => ?_) fun g mem => ?_
    · exact starts g (same ▸ List.mem_cons_self)
    · exact starts g (List.mem_cons_of_mem a mem)

/-- Once a generator is at its end, pulls of it change nothing until it is started again. -/
theorem spent_of_ends {before after : List Action} (ends : (s.run before).2.Ends key a)
    (starts : ∀ g, .start key g ∉ after) : (s.run (before ++ a :: after)).2.Spent key := by
  rw [run_append]
  have later := no_work_run ends.no_work starts
  exact spent_of_no_work later

end Target.Session

end CaseGen
