import CaseGen.ConstantTime.Suite
import CaseGen.Proofs.Target.Description
import CaseGen.Proofs.Target.Drain

/-! # The numbers of instances

    All instances of a class are counted together, whether a generator
    makes them, a listing or somebody directly, and however these take
    turns.  A number is therefore one more than the numbers that were given
    out for the class since the last reset, and other classes have no part
    in it.

    * `Registry.listed`         — the instances that a listing makes
    * `Session.Entry`, `Session.log` — what happens to the counts in a run
    * `Counts`                  — entries that give out the next number each time
    * `counts_step`, `counts_log` — the entries of an operation and of a run do
    * `AgreeOn`                 — sessions that differ in what was counted for other classes
    * `numbers_count_instances` — the numbers of all runs
    * `descriptions_differ`     — no two descriptions agree if the titles differ -/

namespace CaseGen

/-! ## Section 1: The instances of a listing -/

/-- The instances that a listing of events makes, up to a stop and up to the first case that has no
    lines. -/
def Registry.listed (r : Registry) : List Event → List Instance
  | [] => []
  | .make owner spec :: rest =>
    let (i, r) := r.construct owner spec
    i :: if i.draft.lines.isOk then r.listed rest else []
  | .stop _ :: _ => []

theorem Registry.listed_make (r : Registry) (owner : TargetClass) (spec : CaseSpec)
    (rest : List Event) :
    r.listed (.make owner spec :: rest) = (r.construct owner spec).1 ::
      if (r.construct owner spec).1.draft.lines.isOk then (r.construct owner spec).2.listed rest
      else [] := rfl

namespace Listing

variable {l : Listing}

/-- The cases of a listing are those of the instances that it makes, as far as they can be
    written. -/
theorem cases_through (going : l.failed = none) (events : List Event) :
    (l.through add events).cases =
      l.cases ++ (l.registry.listed events).filterMap fun i => i.draft.lines.toOption := by
  induction events generalizing l with
  | nil => simp [through, Registry.listed]
  | cons e rest ih =>
    have goesOn : ¬ l.failed.isSome := by simp [going]
    rw [through, if_neg goesOn]
    cases e with
    | stop message =>
      have stopped : (l.add (.stop message)).failed.isSome := rfl
      rw [through_of_failed stopped]
      simp [Registry.listed, add, cases]
    | make owner spec =>
      rcases made : l.registry.construct owner spec with ⟨i, r⟩
      simp only [Registry.listed, add, made]
      cases lines : i.draft.lines with
      | error f =>
        rw [through_of_failed rfl]
        simp [cases, lines, Except.isOk, Except.toBool, Except.toOption]
      | ok ls =>
        have others := ih (l := ⟨r, ls :: l.reversed, l.failed⟩) going
        simp only [others]
        simp [cases, lines, Except.isOk, Except.toBool, Except.toOption]

end Listing

namespace Target.Session

/-! ## Section 2: What happens to the counts -/

/-- What happens to the counts in a session. -/
inductive Entry where
  /-- An instance is made. -/
  | made (i : Instance)
  /-- A number is taken without an instance. -/
  | taken (c : TargetClass) (n : Nat)
  /-- All counts start again. -/
  | reset
  deriving DecidableEq

namespace Entry

/-- The number that an entry gives out for a class. -/
def number? (c : TargetClass) : Entry → Option Nat
  | made i => if i.target = c then some i.number else none
  | taken d n => if d = c then some n else none
  | reset => none

/-- The instance that an entry makes. -/
def instance? : Entry → Option Instance
  | made i => some i
  | taken _ _ | reset => none

/-- The entry is about the count of a class. -/
def Concerns (c : TargetClass) : Entry → Bool
  | made i => i.target = c
  | taken d _ => d = c
  | reset => true

end Entry

/-- The entries of an operation, in order. -/
def entries (s : Session) (a : Action) : List Entry :=
  match a, (s.step a).1 with
  | .resetCounters, _ => [.reset]
  | .nextCount c, .number n => [.taken c n]
  | .list c, _ => (s.registry.listed (s.registry.events c)).map .made
  | .listEvents events, _ => (s.registry.listed events).map .made
  | _, .made i => [.made i]
  | _, .pulled (.made i) => [.made i]
  | _, _ => []

/-- The entries of a run, in order. -/
def log (s : Session) : List Action → List Entry
  | [] => []
  | a :: rest => s.entries a ++ (s.step a).2.log rest

variable {s s' : Session} {a : Action} {c d : TargetClass} {e : Entry} {es es' : List Entry}
  {n m k : Nat} {r r' : Registry}

theorem entries_register (s : Session) (c : TargetClass) (name : String) :
    s.entries (.register c name) = [] := by
  simp only [entries, step]
  cases s.registry.register c name <;> rfl

theorem log_append (s : Session) (actions more : List Action) :
    s.log (actions ++ more) = s.log actions ++ (s.run actions).2.log more := by
  induction actions generalizing s with
  | nil => rfl
  | cons a rest ih => simp only [List.cons_append, log, run, ih, List.append_assoc]

/-- The cases that a listing answers are those of the instances among its entries. -/
theorem cases_eq_entries {l : Listing} (h : (s.step a).1 = .listed l) :
    l.cases = (s.entries a).filterMap fun e => e.instance?.bind (·.draft.lines.toOption) := by
  have listed (events : List Event) : (s.registry.listEvents events).cases =
      ((s.registry.listed events).map Entry.made).filterMap fun e =>
        e.instance?.bind (·.draft.lines.toOption) := by
    rw [List.filterMap_map]
    exact Listing.cases_through (l := { registry := s.registry }) rfl events
  cases a with
  | list c =>
    obtain rfl : s.registry.list c = l := by simpa [step] using h
    rw [Registry.list_eq_listEvents]
    exact listed (s.registry.events c)
  | listEvents events =>
    obtain rfl : s.registry.listEvents events = l := by simpa [step] using h
    exact listed events
  | register c name =>
    simp only [step] at h
    cases registered : s.registry.register c name <;> simp [registered] at h
  | subclasses | nextCount | resetCounters | construct | start | pull | stop => cases h

/-! ## Section 3: Counting entries -/

/-- From one count of a class to another, each entry gives out the next number of the class, or
    none, and a reset starts again. -/
inductive Counts (c : TargetClass) : Nat → List Entry → Nat → Prop
  | nil {n : Nat} : Counts c n [] n
  | gives {n m : Nat} {e : Entry} {rest : List Entry} (number : e.number? c = some (n + 1))
    (goesOn : Counts c (n + 1) rest m) : Counts c n (e :: rest) m
  | passes {n m : Nat} {e : Entry} {rest : List Entry} (other : ¬ e.Concerns c)
    (goesOn : Counts c n rest m) : Counts c n (e :: rest) m
  | resets {n m : Nat} {rest : List Entry} (goesOn : Counts c 0 rest m) :
    Counts c n (.reset :: rest) m

theorem Entry.number?_of_not_concerns (h : ¬ e.Concerns c) : e.number? c = none := by
  cases e with
  | made i => exact if_neg (by simpa [Concerns] using h)
  | taken d n => exact if_neg (by simpa [Concerns] using h)
  | reset => rfl

theorem Entry.concerns_of_number? (h : e.number? c = some n) : e.Concerns c := by
  by_contra not
  rw [number?_of_not_concerns not] at h
  cases h

theorem Counts.append (h : Counts c n es m) (h' : Counts c m es' k) :
    Counts c n (es ++ es') k := by
  induction h with
  | nil => exact h'
  | gives number _ ih => exact .gives number (ih h')
  | passes other _ ih => exact .passes other (ih h')
  | resets _ ih => exact .resets (ih h')

theorem Counts.split (h : Counts c n (es ++ es') k) :
    ∃ m, Counts c n es m ∧ Counts c m es' k := by
  induction es generalizing n with
  | nil => exact ⟨n, .nil, h⟩
  | cons e rest ih =>
    cases h with
    | gives number goesOn =>
      obtain ⟨m, first, later⟩ := ih goesOn
      exact ⟨m, .gives number first, later⟩
    | passes other goesOn =>
      obtain ⟨m, first, later⟩ := ih goesOn
      exact ⟨m, .passes other first, later⟩
    | resets goesOn =>
      obtain ⟨m, first, later⟩ := ih goesOn
      exact ⟨m, .resets first, later⟩

/-- Only the entries about the class are counted. -/
theorem Counts.filter (h : Counts c n es m) : Counts c n (es.filter (Entry.Concerns c)) m := by
  induction h with
  | nil => exact .nil
  | gives number _ ih =>
    rw [List.filter_cons_of_pos (Entry.concerns_of_number? number)]
    exact .gives number ih
  | passes other _ ih => rwa [List.filter_cons_of_neg other]
  | resets _ ih => exact .resets ih

theorem Counts.unique (h : Counts c n es m) (h' : Counts c n es k) : k = m := by
  induction h with
  | nil =>
    cases h'
    rfl
  | gives number _ ih =>
    cases h' with
    | gives _ goesOn => exact ih goesOn
    | passes other => exact absurd (Entry.concerns_of_number? number) other
    | resets => cases number
  | passes other _ ih =>
    cases h' with
    | gives number => exact absurd (Entry.concerns_of_number? number) other
    | passes _ goesOn => exact ih goesOn
    | resets => exact absurd rfl other
  | resets _ ih =>
    cases h' with
    | gives number => cases number
    | passes other => exact absurd rfl other
    | resets goesOn => exact ih goesOn

/-- Without a reset the numbers are consecutive. -/
theorem Counts.numbers (h : Counts c n es m) (noReset : .reset ∉ es) :
    es.filterMap (Entry.number? c) =
        List.range' (n + 1) (es.filterMap (Entry.number? c)).length ∧
      m = n + (es.filterMap (Entry.number? c)).length := by
  induction h with
  | nil => simp
  | gives number _ ih =>
    obtain ⟨numbers, count⟩ := ih (List.not_mem_of_not_mem_cons noReset)
    rw [List.filterMap_cons_some number, List.length_cons, List.range'_succ, ← numbers]
    exact ⟨rfl, by omega⟩
  | passes other _ ih =>
    rw [List.filterMap_cons_none (Entry.number?_of_not_concerns other)]
    exact ih (List.not_mem_of_not_mem_cons noReset)
  | resets => exact absurd List.mem_cons_self noReset

/-- The counts have just started: nothing has been counted at all or since the reset. -/
def Fresh (es : List Entry) : Prop := ∀ e ∈ es.getLast?, e = .reset

theorem Counts.eq_zero (h : Counts c 0 es n) (fresh : Fresh es) : n = 0 := by
  rcases List.eq_nil_or_concat' es with rfl | ⟨before, e, rfl⟩
  · cases h
    rfl
  · obtain rfl : e = .reset := fresh e (by simp)
    obtain ⟨m, -, last⟩ := h.split
    cases last with
    | gives number => cases number
    | passes other => exact absurd rfl other
    | resets goesOn =>
      cases goesOn
      rfl

/-! ## Section 4: Counting operations -/

/-- A number that is counted is the next one of its class. -/
theorem Counts.bump (number : e.number? c = if d = c then some (r.count d + 1) else none)
    (concerns : e.Concerns c ↔ d = c) (goesOn : Counts c ((r.bump d).count c) es m) :
    Counts c (r.count c) (e :: es) m := by
  rw [Registry.count_bump] at goesOn
  by_cases own : d = c
  · subst own
    rw [if_pos rfl] at number goesOn
    exact .gives number goesOn
  · rw [if_neg own, Nat.add_zero] at goesOn
    exact .passes (fun mem => own (concerns.mp mem)) goesOn

theorem Counts.construct (d : TargetClass) (spec : CaseSpec)
    (goesOn : Counts c ((r.construct d spec).2.count c) es m) :
    Counts c (r.count c) (.made (r.construct d spec).1 :: es) m :=
  .bump rfl decide_eq_true_iff goesOn

/-- The instances of a listing are counted one after the other. -/
theorem counts_through {l : Listing} (going : l.failed = none) (events : List Event) :
    Counts c (l.registry.count c) ((l.registry.listed events).map .made)
      ((l.through .add events).registry.count c) := by
  induction events generalizing l with
  | nil => exact .nil
  | cons e rest ih =>
    have goesOn : ¬ l.failed.isSome := by simp [going]
    rw [Listing.through, if_neg goesOn]
    cases e with
    | stop message =>
      have stopped : (l.add (.stop message)).failed.isSome := rfl
      rw [Listing.through_of_failed stopped]
      exact .nil
    | make owner spec =>
      rw [Registry.listed_make, List.map_cons, Listing.add]
      refine .construct owner spec ?_
      rcases l.registry.construct owner spec with ⟨i, r⟩
      dsimp only
      cases i.draft.lines with
      | error f =>
        rw [Listing.through_of_failed rfl]
        exact .nil
      | ok ls => exact ih (l := ⟨r, ls :: l.reversed, l.failed⟩) going

/-- The entries of an operation are counted. -/
theorem counts_step (s : Session) (a : Action) (c : TargetClass) :
    Counts c (s.registry.count c) (s.entries a) ((s.step a).2.registry.count c) := by
  cases a with
  | nextCount d => exact .bump rfl decide_eq_true_iff .nil
  | resetCounters => exact .resets .nil
  | construct d spec => exact .construct d spec .nil
  | list d =>
    simp only [entries, step, Registry.list_eq_listEvents]
    exact counts_through (l := { registry := s.registry }) rfl (s.registry.events d)
  | listEvents events => exact counts_through (l := { registry := s.registry }) rfl events
  | pull key =>
    simp only [entries, step, Generator.next]
    cases (s.generator key).pull s.registry with
    | make owner spec rest => exact .construct owner spec .nil
    | stop message => exact .nil
    | done => exact .nil
  | register d name =>
    have counts : (s.step (.register d name)).2.registry.counts = s.registry.counts := by
      rw [registry_step_register, Registry.counts_call rfl]
    rw [entries_register, Registry.count, Registry.count, counts]
    exact .nil
  | subclasses | start | stop => exact .nil

/-- The entries of a run are counted. -/
theorem counts_log (s : Session) (actions : List Action) (c : TargetClass) :
    Counts c (s.registry.count c) (s.log actions) ((s.run actions).2.registry.count c) := by
  induction actions generalizing s with
  | nil => exact .nil
  | cons a rest ih => exact (counts_step s a c).append (ih (s.step a).2)

/-! ## Section 5: Other classes -/

/-- The sessions differ at most in what was counted for other classes. -/
structure AgreeOn (c : TargetClass) (s s' : Session) : Prop where
  generators : s'.generators = s.generators
  alike : s.registry.Alike s'.registry
  count : s'.registry.count c = s.registry.count c

theorem AgreeOn.refl (c : TargetClass) (s : Session) : AgreeOn c s s := ⟨rfl, .refl _, rfl⟩

/-- The operation only counts for another class. -/
def Action.CountsApart (c : TargetClass) : Action → Bool
  | .nextCount d | .construct d _ => d ≠ c
  | _ => false

/-- A number that is counted is one of the class, and the same on both sides, or is left out. -/
theorem filter_bump {e e' : Entry} (own : d = c → e' = e) (concerns : e.Concerns c ↔ d = c)
    (concerns' : e'.Concerns c ↔ d = c)
    (rest : es'.filter (Entry.Concerns c) = es.filter (Entry.Concerns c)) :
    (e' :: es').filter (Entry.Concerns c) = (e :: es).filter (Entry.Concerns c) := by
  by_cases same : d = c
  · rw [List.filter_cons_of_pos (concerns.mpr same), List.filter_cons_of_pos (concerns'.mpr same),
      rest, own same]
  · rw [List.filter_cons_of_neg (mt concerns.mp same),
      List.filter_cons_of_neg (mt concerns'.mp same), rest]

theorem filter_construct (count : r'.count c = r.count c) (d : TargetClass) (spec : CaseSpec)
    (rest : es'.filter (Entry.Concerns c) = es.filter (Entry.Concerns c)) :
    (Entry.made (r'.construct d spec).1 :: es').filter (Entry.Concerns c) =
      (Entry.made (r.construct d spec).1 :: es).filter (Entry.Concerns c) := by
  refine filter_bump (d := d) ?_ decide_eq_true_iff decide_eq_true_iff rest
  rintro rfl
  simp only [Registry.construct, count]

/-- The instances of a class in a listing depend on the count of this class only. -/
theorem filter_listed (count : r'.count c = r.count c) (events : List Event) :
    ((r'.listed events).map Entry.made).filter (Entry.Concerns c) =
      ((r.listed events).map Entry.made).filter (Entry.Concerns c) := by
  induction events generalizing r r' with
  | nil => rfl
  | cons e rest ih =>
    cases e with
    | stop message => rfl
    | make owner spec =>
      -- whether the listing goes on does not depend on the numbers
      have goesOn : (r'.construct owner spec).1.draft.lines.isOk =
          (r.construct owner spec).1.draft.lines.isOk := Instance.isOk_lines_congr rfl rfl
      have counted : (r'.construct owner spec).2.count c = (r.construct owner spec).2.count c := by
        rw [Registry.construct, Registry.construct, Registry.count_bump, Registry.count_bump, count]
      rw [Registry.listed_make, Registry.listed_make, goesOn]
      refine filter_construct count owner spec ?_
      split
      · exact ih counted
      · rfl

/-- Sessions that agree on a class have the same entries about it. -/
theorem AgreeOn.entries (h : AgreeOn c s s') (a : Action) :
    (s'.entries a).filter (Entry.Concerns c) = (s.entries a).filter (Entry.Concerns c) := by
  cases a with
  | register d name => rw [entries_register, entries_register]
  | nextCount d =>
    refine filter_bump (d := d) ?_ decide_eq_true_iff decide_eq_true_iff rfl
    rintro rfl
    simp only [h.count]
  | construct d spec => exact filter_construct h.count d spec rfl
  | list d =>
    have events : s'.registry.events d = s.registry.events d :=
      congrArg Event.untilStop (congrFun h.alike.allEvents d)
    simp only [Session.entries, events]
    exact filter_listed h.count _
  | listEvents events => exact filter_listed h.count events
  | pull key =>
    have generator : s'.generator key = s.generator key := by
      rw [Session.generator, Session.generator, h.generators]
    simp only [Session.entries, step, Generator.next, generator, h.alike.pull]
    cases (s.generator key).pull s.registry with
    | make owner spec rest => exact filter_construct h.count owner spec rfl
    | stop message => rfl
    | done => rfl
  | resetCounters | subclasses | start | stop => rfl

/-- Sessions that agree on a class still do after an operation. -/
theorem AgreeOn.step (h : AgreeOn c s s') (a : Action) : AgreeOn c (s.step a).2 (s'.step a).2 where
  generators := by
    cases a with
    | register d name => rw [generators_step_register, generators_step_register, h.generators]
    | pull key =>
      have generator : s'.generator key = s.generator key := by
        rw [Session.generator, Session.generator, h.generators]
      simp only [Session.step, keep, generator, h.generators, h.alike.next_rest]
    | start | stop => simp only [Session.step, keep, h.generators]
    | subclasses | nextCount | resetCounters | construct | list | listEvents => exact h.generators
  alike := by
    by_cases registers : a.Registers
    · exact alike_step_register h.alike registers
    · exact ((alike_step registers s).symm.trans h.alike).trans (alike_step registers s')
  count := by
    have counted := (counts_step s a c).filter
    have counted' := (counts_step s' a c).filter
    rw [h.entries, h.count] at counted'
    exact counted.unique counted'

theorem AgreeOn.bump (h : AgreeOn c s s') (other : d ≠ c) :
    AgreeOn c { s with registry := s.registry.bump d } s' where
  generators := h.generators
  alike := ⟨h.alike.siblings, h.alike.registered⟩
  count := by rw [Registry.count_bump, if_neg other, h.count, Nat.add_zero]

/-- An operation that only counts for another class has no entry about this one. -/
theorem AgreeOn.step_apart (h : AgreeOn c s s') (apart : a.CountsApart c) :
    (s.entries a).filter (Entry.Concerns c) = [] ∧ AgreeOn c (s.step a).2 s' := by
  cases a with
  | nextCount d | construct d =>
    have other : d ≠ c := of_decide_eq_true apart
    exact ⟨List.filter_cons_of_neg (mt of_decide_eq_true other), h.bump other⟩
  | _ => cases apart

/-- Without the operations that only count for other classes, the entries about a class are the
    same. -/
theorem AgreeOn.log_filter (h : AgreeOn c s s') (actions : List Action) :
    (s'.log (actions.filter fun a => ! a.CountsApart c)).filter (Entry.Concerns c) =
      (s.log actions).filter (Entry.Concerns c) := by
  induction actions generalizing s s' with
  | nil => rfl
  | cons a rest ih =>
    rw [log, List.filter_append]
    by_cases apart : a.CountsApart c
    · obtain ⟨none, agree⟩ := h.step_apart apart
      rw [List.filter_cons_of_neg (by simpa using apart), none, List.nil_append]
      exact ih agree
    · rw [List.filter_cons_of_pos (by simpa using apart), log, List.filter_append, h.entries,
        ih (h.step a)]

/-! ## Section 6: All numbers of all runs -/

/-- In every run each number of a class is one more than how many were given out for the class since
    the last reset, so that between two resets they are one, two and so on.  Other classes have no
    part in it, and whatever comes later, number and description of an instance stay as they were
    made. -/
theorem numbers_count_instances (actions : List Action) (c : TargetClass) :
    -- each number
    (∀ past since e after n, ({} : Session).log actions = past ++ since ++ e :: after →
      Fresh past → .reset ∉ since → e.number? c = some n →
      n = 1 + (since.filterMap (Entry.number? c)).length) ∧
    -- the numbers between two resets
    (∀ past since after, ({} : Session).log actions = past ++ since ++ after →
      Fresh past → .reset ∉ since →
      since.filterMap (Entry.number? c) =
        List.range' 1 (since.filterMap (Entry.number? c)).length) ∧
    -- the next number
    (∀ past since n, ({} : Session).log actions = past ++ since →
      Fresh past → .reset ∉ since → n = 1 + (since.filterMap (Entry.number? c)).length →
      ((({} : Session).run actions).2.step (.nextCount c)).1 = .number n ∧
      ∀ spec, ((({} : Session).run actions).2.step (.construct c spec)).1 =
        .made ⟨c, n, c.specOf spec⟩) ∧
    -- the cases of a listing
    (∀ a l, ((({} : Session).run actions).2.step a).1 = .listed l →
      l.cases = ((({} : Session).run actions).2.entries a).filterMap fun e =>
        e.instance?.bind (·.draft.lines.toOption)) ∧
    -- other classes
    (({} : Session).log (actions.filter fun a => ! a.CountsApart c)).filter (Entry.Concerns c) =
      (({} : Session).log actions).filter (Entry.Concerns c) ∧
    -- what was made before
    ∀ more, ({} : Session).log actions <+: ({} : Session).log (actions ++ more) ∧
      ∀ (p : Nat) (i : Instance), (({} : Session).log actions)[p]? = some (Entry.made i) →
        ∃ j, (({} : Session).log (actions ++ more))[p]? = some (Entry.made j) ∧
          j.number = i.number ∧ j.description = i.description ∧ j.draft = i.draft := by
  have counted := counts_log {} actions c
  refine ⟨?_, ?_, ?_, ?_, (AgreeOn.refl c {}).log_filter actions, ?_⟩
  · intro past since e after n split fresh noReset number
    rw [split] at counted
    obtain ⟨k, before, next⟩ := counted.split
    obtain ⟨z, start, here⟩ := before.split
    obtain rfl := start.eq_zero fresh
    obtain ⟨-, count⟩ := here.numbers noReset
    cases next with
    | gives number' =>
      obtain rfl := Option.some.inj (number.symm.trans number')
      omega
    | passes other => exact absurd (Entry.concerns_of_number? number) other
    | resets => cases number
  · intro past since after split fresh noReset
    rw [split] at counted
    obtain ⟨k, before, -⟩ := counted.split
    obtain ⟨z, start, here⟩ := before.split
    obtain rfl := start.eq_zero fresh
    exact (here.numbers noReset).1
  · intro past since n split fresh noReset next
    rw [split] at counted
    obtain ⟨z, start, here⟩ := counted.split
    obtain rfl := start.eq_zero fresh
    obtain ⟨-, count⟩ := here.numbers noReset
    have next' : n = (({} : Session).run actions).2.registry.count c + 1 := by omega
    subst next'
    exact ⟨rfl, fun spec => rfl⟩
  · intro a l listed
    exact cases_eq_entries listed
  · intro more
    rw [log_append]
    refine ⟨List.prefix_append _ _, fun p i made => ⟨i, ?_, rfl, rfl, rfl⟩⟩
    have lt := (List.getElem?_eq_some_iff.mp made).1
    rw [List.getElem?_append_left lt]
    exact made

/-- A class inherits the list of its parent: its generator makes instances of the parent and is
    pulled in turn with the generator of the parent and that of the size masks. -/
theorem numbers_count_instances_in_turn :
    let parent : TargetClass := .sub 0 .base
      { name := "P", title := some "p", emissions := some [.make {}, .walk, .make {}] }
    let child : TargetClass := .sub 1 parent { name := "C" }
    let sizes := ConstantTime.sizeMaskGenerator ConstantTime.wordSizes
    let actions : List Action :=
      [.register parent, .register child, .start "parent" (Generator.start parent),
        .start "child" (Generator.start child), .start "sizes" sizes,
        .pull "parent", .resetCounters,
        .pull "child", .construct child {}, .pull "sizes", .nextCount parent, .pull "parent",
        .pull "child"]
    let since := (({} : Session).log actions).drop 2
    ({} : Session).log actions = [.made ⟨parent, 1, {}⟩, .reset] ++ since ++ [] ∧
      since.filterMap (Entry.number? parent) = [1, 2, 3, 4] ∧
      since.filterMap (Entry.number? child) = [1] ∧
      since.filterMap (Entry.number? ConstantTime.sizeMasks) = [1] := by
  intro parent child sizes actions since
  have split : ({} : Session).log actions = [.made ⟨parent, 1, {}⟩, .reset] ++ since ++ [] := by
    decide +kernel
  have fresh : Fresh [.made ⟨parent, 1, {}⟩, .reset] := by simp [Fresh]
  have noReset : .reset ∉ since := by decide +kernel
  have ofParent := (numbers_count_instances actions parent).2.1 _ _ _ split fresh noReset
  have ofChild := (numbers_count_instances actions child).2.1 _ _ _ split fresh noReset
  have ofSizes := (numbers_count_instances actions ConstantTime.sizeMasks).2.1 _ _ _ split fresh
    noReset
  have four : (since.filterMap (Entry.number? parent)).length = 4 := by decide +kernel
  have one : (since.filterMap (Entry.number? child)).length = 1 := by decide +kernel
  have one' : (since.filterMap (Entry.number? ConstantTime.sizeMasks)).length = 1 := by
    decide +kernel
  rw [four] at ofParent
  rw [one] at ofChild
  rw [one'] at ofSizes
  exact ⟨split, ofParent, ofChild, ofSizes⟩

/-! ## Section 7: Descriptions that differ -/

/-- The instances that are made in a run, in order. -/
def made (s : Session) (actions : List Action) : List Instance :=
  (s.log actions).filterMap Entry.instance?

theorem not_reset_mem_entries (h : a ≠ .resetCounters) : .reset ∉ s.entries a := by
  intro mem
  cases a with
  | resetCounters => exact h rfl
  | register c name =>
    rw [entries_register] at mem
    cases mem
  | list | listEvents => simp [entries] at mem
  | pull key =>
    simp only [entries, step, Generator.next] at mem
    cases pull : (s.generator key).pull s.registry <;> simp [pull] at mem
  | nextCount | construct => simp [entries, step] at mem
  | subclasses | start | stop => cases mem

theorem not_reset_mem_log {actions : List Action} (h : .resetCounters ∉ actions) :
    .reset ∉ s.log actions := by
  induction actions generalizing s with
  | nil => exact List.not_mem_nil
  | cons a rest ih =>
    obtain ⟨other, noReset⟩ := List.ne_and_not_mem_of_not_mem_cons h
    rw [log, List.mem_append, not_or]
    exact ⟨not_reset_mem_entries (Ne.symm other), ih noReset⟩

/-- The numbers that are counted after a count are greater. -/
theorem Counts.lt_of_mem (h : Counts c n es m) (noReset : .reset ∉ es) (mem : e ∈ es)
    (number : e.number? c = some k) : n < k := by
  induction h with
  | nil => cases mem
  | gives number' _ ih =>
    obtain ⟨-, noReset⟩ := List.ne_and_not_mem_of_not_mem_cons noReset
    rcases List.mem_cons.mp mem with rfl | mem
    · cases number.symm.trans number'
      omega
    · have greater := ih noReset mem
      omega
  | passes other _ ih =>
    obtain ⟨-, noReset⟩ := List.ne_and_not_mem_of_not_mem_cons noReset
    rcases List.mem_cons.mp mem with rfl | mem
    · exact absurd (Entry.concerns_of_number? number) other
    · exact ih noReset mem
  | resets => exact absurd List.mem_cons_self noReset

/-- Without a reset the numbers of a class grow. -/
theorem pairwise_number_lt (counted : ∀ c, ∃ n m, Counts c n es m) (noReset : .reset ∉ es) :
    (es.filterMap Entry.instance?).Pairwise fun i j =>
      i.target = j.target → i.number < j.number := by
  induction es with
  | nil => exact .nil
  | cons e rest ih =>
    have noResetLater := List.not_mem_of_not_mem_cons noReset
    have later (c : TargetClass) : ∃ n m, Counts c n rest m := by
      obtain ⟨n, m, counts⟩ := counted c
      cases counts with
      | gives _ goesOn | passes _ goesOn | resets goesOn => exact ⟨_, _, goesOn⟩
    cases e with
    | made i =>
      refine List.pairwise_cons.mpr ⟨?_, ih later noResetLater⟩
      intro j mem same
      obtain ⟨e, there, made⟩ := List.mem_filterMap.mp mem
      obtain ⟨n, m, counts⟩ := counted i.target
      have number : (Entry.made i).number? i.target = some i.number := if_pos rfl
      cases e with
      | made j' =>
        cases made
        have number' : (Entry.made j).number? i.target = some j.number := if_pos same.symm
        cases counts with
        | gives next goesOn =>
          rw [Option.some.inj (number.symm.trans next)]
          exact goesOn.lt_of_mem noResetLater there number'
        | passes other => exact absurd (Entry.concerns_of_number? number) other
      | taken | reset => cases made
    | taken c n => exact ih later noResetLater
    | reset => exact absurd List.mem_cons_self noReset

/-- If the classes of the instances have different titles without the mark, no two descriptions of a
    run without a reset agree, whatever the details say. -/
theorem descriptions_differ (s : Session) (actions : List Action)
    (noReset : .resetCounters ∉ actions)
    (titles : ∀ i ∈ s.made actions, ∀ j ∈ s.made actions,
      i.target.shownTitle = j.target.shownTitle → i.target = j.target)
    (plain : ∀ i ∈ s.made actions, '#' ∉ i.target.shownTitle.toList) :
    (s.made actions).Pairwise fun i j => i.draft.description ≠ j.draft.description := by
  have growing := pairwise_number_lt (fun c => ⟨_, _, counts_log s actions c⟩)
    (not_reset_mem_log noReset)
  refine growing.imp_of_mem ?_
  intro i j hi hj less same
  obtain ⟨title, number, -⟩ := Instance.description_inj (plain i hi) (plain j hj)
    (Option.some.inj same)
  have less := less (titles i hi j hj title)
  omega

/-- Details that look like numbers do not lead to equal descriptions. -/
theorem descriptions_differ_look_alikes :
    let a : TargetClass := .sub 0 .base
      { name := "A", title := some "t",
        emissions := some [.make { detail := " #2 " }, .make { detail := "" }] }
    let b : TargetClass := .sub 1 .base
      { name := "B", title := some "t 1", emissions := some [.make { detail := "#2 " }] }
    let actions : List Action :=
      [.start "a" (Generator.start a), .start "b" (Generator.start b), .pull "a", .pull "b",
        .construct a { detail := " #2 " }, .pull "a"]
    let made := ({} : Session).made actions
    made.map Instance.description = ["t #1  #2 ", "t 1 #1 #2 ", "t #2  #2 ", "t #3 "] ∧
      made.Pairwise fun i j => i.draft.description ≠ j.draft.description := by
  intro a b actions made
  refine ⟨by decide +kernel, descriptions_differ {} actions ?_ ?_ ?_⟩
  · simp [actions]
  · decide +kernel
  · decide +kernel

end Target.Session

end CaseGen
