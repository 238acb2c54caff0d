import CaseGen.Proofs.Text.Order
import CaseGen.Target.Registry
import Mathlib.Data.List.Pairwise

/-! # What a registry holds

    A registry keeps the registered classes twice: all of them together,
    and below each parent in the order of their names.  Both agree with
    the registrations that were accepted, in whatever order they were
    made, and the counters go their own way.

    * `Registration.Compatible` — two registrations that may stand together
    * `Registry.Holds`          — a registry holds certain registrations
    * `Holds.register_eq_ok_iff`, `Holds.add` — what a registration does
    * `Registry.after`, `Registry.accepted` — calls one after the other
    * `holds_accepted_registrations` — what is held after any calls -/

namespace CaseGen

open Text

/-! ## Section 1: Registrations that may stand together -/

/-- Two registrations of different classes, under different names if their parents agree. -/
def Registration.Compatible (e e' : Registration) : Prop :=
  e.target ≠ e'.target ∧ (e.target.parent? = e'.target.parent? → e.name ≠ e'.name)

instance (e e' : Registration) : Decidable (e.Compatible e') :=
  inferInstanceAs (Decidable (_ ∧ _))

instance : Std.Symm Registration.Compatible where
  symm _ _ h := ⟨h.1.symm, fun same => (h.2 same.symm).symm⟩

theorem lookup_filter_ne {κ β : Type} [BEq κ] [LawfulBEq κ] [DecidableEq κ] (l : List (κ × β))
    {k k' : κ} (h : k' ≠ k) : (l.filter fun e => e.1 ≠ k).lookup k' = l.lookup k' := by
  induction l with
  | nil => rfl
  | cons e l ih =>
    by_cases he : e.1 = k
    · rw [List.filter_cons_of_neg (by simpa using he), ih, List.lookup_cons, he, beq_false_of_ne h]
    · rw [List.filter_cons_of_pos (by simpa using he), List.lookup_cons, List.lookup_cons, ih]

namespace Registry

variable {r r' : Registry} {l l' : List Registration} {c d : TargetClass} {name : String}

/-! ## Section 2: What a registry holds -/

/-- The registry holds these registrations and no others: their classes are the registered ones,
    and those with the same parent are listed together in the order of their names. -/
structure Holds (r : Registry) (l : List Registration) : Prop where
  compatible : l.Pairwise Registration.Compatible
  registered : ∀ c, c ∈ r.registered ↔ ∃ e ∈ l, e.target = c
  children : ∀ parent e, e ∈ r.childrenOf parent ↔ e ∈ l ∧ e.target.parent? = parent
  increasing : ∀ parent, Increasing Registration.name (r.childrenOf parent)

theorem holds_empty : ({} : Registry).Holds [] where
  compatible := .nil
  registered := by simp
  children := by simp [childrenOf]
  increasing _ := .nil

/-- A new registration changes the list below its parent and no other one. -/
theorem childrenOf_add (r : Registry) (e : Registration) (parent : Option TargetClass) :
    (r.add e).childrenOf parent =
      if parent = e.target.parent? then
        sortBy Registration.name (r.childrenOf e.target.parent? ++ [e])
      else r.childrenOf parent := by
  simp only [childrenOf, add, List.lookup_cons]
  by_cases same : parent = e.target.parent?
  · simp [same]
  · simp only [if_neg same, beq_false_of_ne same, lookup_filter_ne _ same]

/-- A registration is accepted if it may stand beside all that are held. -/
theorem Holds.register_eq_ok_iff (h : r.Holds l) :
    r.register c name = .ok r' ↔ (∀ e ∈ l, e.Compatible ⟨name, c⟩) ∧ r' = r.add ⟨name, c⟩ := by
  unfold register
  split
  · next there =>
    obtain ⟨e, he, same⟩ := (h.registered c).mp there
    simp only [reduceCtorEq, false_iff, not_and]
    intro all
    exact absurd same (all e he).1
  · next absent =>
    split
    · next taken =>
      obtain ⟨e, he, same⟩ := taken
      obtain ⟨he, parent⟩ := (h.children _ e).mp he
      simp only [reduceCtorEq, false_iff, not_and]
      intro all
      exact absurd same ((all e he).2 parent)
    · next free =>
      have all : ∀ e ∈ l, e.Compatible ⟨name, c⟩ := by
        intro e he
        refine ⟨fun same => absent ((h.registered c).mpr ⟨e, he, same⟩), fun parent same => ?_⟩
        exact free ⟨e, (h.children _ e).mpr ⟨he, parent⟩, same⟩
      rw [Except.ok.injEq, eq_comm, and_iff_right all]

/-- A registration is refused if the class is there already, or else if a sibling has the name. -/
theorem Holds.register_eq_error_iff (h : r.Holds l) {f : Failure} :
    r.register c name = .error f ↔
      ((∃ e ∈ l, e.target = c) ∧ f = .alreadyRegistered name) ∨
      ((¬ ∃ e ∈ l, e.target = c) ∧ (∃ e ∈ l, e.target.parent? = c.parent? ∧ e.name = name) ∧
        f = .duplicateName name) := by
  have sibling : (∃ e ∈ r.childrenOf c.parent?, e.name = name) ↔
      ∃ e ∈ l, e.target.parent? = c.parent? ∧ e.name = name := by
    simp only [h.children, and_assoc]
  rw [← h.registered c, ← sibling]
  unfold register
  split
  · next there => simp [there, eq_comm]
  · next absent =>
    split
    · next taken =>
      rw [Except.error.injEq, eq_comm]
      simp only [absent, taken, false_and, false_or, not_false_eq_true, true_and]
    · next free => simp only [absent, free, reduceCtorEq, false_and, and_false, or_false]

/-- A registration is refused exactly if the class is there or a sibling has the name. -/
theorem Holds.refused_iff (h : r.Holds l) : (∃ f, r.register c name = .error f) ↔
    (∃ e ∈ l, e.target = c) ∨ ∃ e ∈ l, e.target.parent? = c.parent? ∧ e.name = name := by
  simp only [h.register_eq_error_iff]
  constructor
  · rintro ⟨f, ⟨there, -⟩ | ⟨-, taken, -⟩⟩
    · exact .inl there
    · exact .inr taken
  · intro h
    by_cases there : ∃ e ∈ l, e.target = c
    · exact ⟨_, .inl ⟨there, rfl⟩⟩
    · exact ⟨_, .inr ⟨there, h.resolve_left there, rfl⟩⟩

/-- An accepted registration comes to those that are held. -/
theorem Holds.add {e : Registration} (h : r.Holds l) (all : ∀ e' ∈ l, e'.Compatible e) :
    (r.add e).Holds (l ++ [e]) := by
  constructor
  · refine List.pairwise_append.mpr ⟨h.compatible, List.pairwise_singleton _ _, ?_⟩
    intro e' he' new hnew
    rw [List.mem_singleton.mp hnew]
    exact all e' he'
  · intro d
    show d ∈ e.target :: r.registered ↔ _
    rw [List.mem_cons, h.registered]
    constructor
    · rintro (rfl | ⟨e', he', same⟩)
      · exact ⟨e, by simp, rfl⟩
      · exact ⟨e', List.mem_append_left _ he', same⟩
    · intro there
      obtain ⟨e', he', same⟩ := there
      rcases List.mem_append.mp he' with he' | he'
      · exact .inr ⟨e', he', same⟩
      · rw [List.mem_singleton.mp he'] at same
        exact .inl same.symm
  · intro parent e'
    rw [childrenOf_add, List.mem_append, List.mem_singleton]
    split
    · next same =>
      rw [(sortBy_perm _ _).mem_iff, List.mem_append, List.mem_singleton, h.children, same]
      constructor
      · rintro (⟨he, below⟩ | rfl)
        · exact ⟨.inl he, below⟩
        · exact ⟨.inr rfl, rfl⟩
      · rintro ⟨he | rfl, below⟩
        · exact .inl ⟨he, below⟩
        · exact .inr rfl
    · next other =>
      rw [h.children]
      constructor
      · exact fun ⟨he, below⟩ => ⟨.inl he, below⟩
      · rintro ⟨he | rfl, below⟩
        · exact ⟨he, below⟩
        · exact absurd below.symm other
  · intro parent
    rw [childrenOf_add]
    split
    · -- the new name differs from those of the siblings
      apply Increasing.sortBy
      rw [List.map_append, List.nodup_append]
      refine ⟨(h.increasing _).nodup, List.nodup_singleton _, ?_⟩
      intro other mem new mem'
      obtain ⟨e', he', rfl⟩ := List.mem_map.mp mem
      obtain rfl : new = e.name := by simpa using mem'
      obtain ⟨he', parent⟩ := (h.children _ e').mp he'
      exact (all e' he').2 parent
    · exact h.increasing parent

/-- What is held determines the lists below the parents. -/
theorem Holds.childrenOf_eq (h : r.Holds l) (h' : r'.Holds l') (same : ∀ e, e ∈ l ↔ e ∈ l')
    (parent : Option TargetClass) : r.childrenOf parent = r'.childrenOf parent := by
  refine (h.increasing parent).ext (h'.increasing parent) ?_
  intro e
  rw [h.children, h'.children, same]

/-- A class is registered once. -/
theorem Holds.eq_of_target {e e' : Registration} (h : r.Holds l) (he : e ∈ l) (he' : e' ∈ l)
    (same : e.target = e'.target) : e = e' := by
  by_contra ne
  exact (h.compatible.forall he he' ne).1 same

theorem Holds.mem_subclassesOf (h : r.Holds l) :
    d ∈ r.subclassesOf c ↔ (∃ e ∈ l, e.target = d) ∧ d.parent? = some c := by
  simp only [subclassesOf, List.mem_map, h.children]
  constructor
  · rintro ⟨e, ⟨he, parent⟩, rfl⟩
    exact ⟨⟨e, he, rfl⟩, parent⟩
  · rintro ⟨⟨e, he, rfl⟩, parent⟩
    exact ⟨e, ⟨he, parent⟩, rfl⟩

theorem Holds.nodup_subclassesOf (h : r.Holds l) (c : TargetClass) : (r.subclassesOf c).Nodup := by
  have once : (r.childrenOf (some c)).Nodup := (h.increasing _).nodup.of_map
  refine once.map_on ?_
  intro e he e' he' same
  exact h.eq_of_target ((h.children _ e).mp he).1 ((h.children _ e').mp he').1 same

/-! ## Section 3: Calls one after the other -/

/-- A call on a registry. -/
inductive Call where
  | register (c : TargetClass) (name : String := c.name)
  | nextCount (c : TargetClass)
  | resetCounters

/-- The registration that a call asks for. -/
def Call.registration? : Call → Option Registration
  | .register c name => some ⟨name, c⟩
  | _ => none

/-- The call asks for a registration. -/
def Call.Registers (k : Call) : Bool := k.registration?.isSome

/-- What a call answers, a number if it counts, and the registry after it. -/
def call (r : Registry) : Call → Except Failure (Option Nat) × Registry
  | .register c name =>
    match r.register c name with
    | .error f => (.error f, r)
    | .ok r => (.ok none, r)
  | .nextCount c => (.ok (some (r.nextCount c).1), (r.nextCount c).2)
  | .resetCounters => (.ok none, r.resetCounters)

/-- The registry after calls in order. -/
def after (r : Registry) (calls : List Call) : Registry :=
  calls.foldl (fun r k => (r.call k).2) r

/-- The registrations among calls that are not refused. -/
def accepted (r : Registry) : List Call → List Registration
  | [] => []
  | k :: rest =>
    match (r.call k).1 with
    | .error _ => (r.call k).2.accepted rest
    | .ok _ => k.registration?.toList ++ (r.call k).2.accepted rest

variable {k : Call} {calls calls' : List Call} {f : Failure}

theorem after_cons (r : Registry) (k : Call) (rest : List Call) :
    r.after (k :: rest) = (r.call k).2.after rest := rfl

/-- The two registries have the same registrations; their counts may differ. -/
structure Alike (r r' : Registry) : Prop where
  siblings : r'.siblings = r.siblings
  registered : r'.registered = r.registered

theorem Alike.refl (r : Registry) : r.Alike r := ⟨rfl, rfl⟩

theorem Alike.symm (h : r.Alike r') : r'.Alike r := ⟨h.siblings.symm, h.registered.symm⟩

theorem Alike.trans {r'' : Registry} (h : r.Alike r') (h' : r'.Alike r'') : r.Alike r'' :=
  ⟨h'.siblings.trans h.siblings, h'.registered.trans h.registered⟩

theorem Alike.childrenOf (h : r.Alike r') (parent : Option TargetClass) :
    r'.childrenOf parent = r.childrenOf parent := by
  rw [Registry.childrenOf, h.siblings]
  rfl

theorem Alike.add (h : r.Alike r') (e : Registration) : (r.add e).Alike (r'.add e) where
  siblings := by simp only [Registry.add, h.childrenOf, h.siblings]
  registered := by simp only [Registry.add, h.registered]

/-- A registration is refused or accepted whatever the counts are. -/
theorem register_cases (r : Registry) (c : TargetClass) (name : String) :
    (∃ f, ∀ r', r.Alike r' → r'.register c name = .error f) ∨
      ∀ r', r.Alike r' → r'.register c name = .ok (r'.add ⟨name, c⟩) := by
  by_cases there : c ∈ r.registered
  · refine .inl ⟨.alreadyRegistered name, fun r' alike => ?_⟩
    rw [register, alike.registered, if_pos there]
  · by_cases taken : ∃ e ∈ r.childrenOf c.parent?, e.name = name
    · refine .inl ⟨.duplicateName name, fun r' alike => ?_⟩
      rw [register, alike.registered, alike.childrenOf, if_neg there, if_pos taken]
    · refine .inr fun r' alike => ?_
      rw [register, alike.registered, alike.childrenOf, if_neg there, if_neg taken]

/-- What a call that asks for a registration does. -/
theorem call_register_cases (r : Registry) (c : TargetClass) (name : String) :
    (∃ f, ∀ r', r.Alike r' → r'.call (.register c name) = (.error f, r')) ∨
      ∀ r', r.Alike r' → r'.call (.register c name) = (.ok none, r'.add ⟨name, c⟩) := by
  rcases register_cases r c name with ⟨f, refused⟩ | ok
  · refine .inl ⟨f, fun r' alike => ?_⟩
    rw [call, refused r' alike]
  · refine .inr fun r' alike => ?_
    rw [call, ok r' alike]

theorem call_register_eq_error_iff :
    (r.call (.register c name)).1 = .error f ↔ r.register c name = .error f := by
  simp only [call]
  cases r.register c name <;> simp

/-- A call that is refused changes nothing. -/
theorem call_of_error (h : (r.call k).1 = .error f) : (r.call k).2 = r := by
  cases k with
  | register c name =>
    rcases call_register_cases r c name with ⟨f', refused⟩ | ok
    · rw [refused r (.refl r)]
    · rw [ok r (.refl r)] at h
      cases h
  | nextCount => cases h
  | resetCounters => cases h

/-- Registering does not count. -/
theorem counts_call (asks : k.Registers) (r : Registry) : (r.call k).2.counts = r.counts := by
  cases k with
  | register c name =>
    rcases call_register_cases r c name with ⟨f, refused⟩ | ok
    · rw [refused r (.refl r)]
    · rw [ok r (.refl r)]
      rfl
  | nextCount => cases asks
  | resetCounters => cases asks

/-- Counting does not register. -/
theorem alike_call (counts : ¬ k.Registers) (r : Registry) : r.Alike (r.call k).2 := by
  cases k with
  | register => exact absurd rfl counts
  | nextCount => exact ⟨rfl, rfl⟩
  | resetCounters => exact ⟨rfl, rfl⟩

/-- The answer to a registration does not depend on the counts. -/
theorem Alike.call (h : r.Alike r') (asks : k.Registers) :
    (r'.call k).1 = (r.call k).1 ∧ (r.call k).2.Alike (r'.call k).2 := by
  cases k with
  | register c name =>
    rcases call_register_cases r c name with ⟨f, refused⟩ | ok
    · rw [refused r (.refl r), refused r' h]
      exact ⟨rfl, h⟩
    · rw [ok r (.refl r), ok r' h]
      exact ⟨rfl, h.add _⟩
  | nextCount => cases asks
  | resetCounters => cases asks

/-- The answer to a call that counts does not depend on the registrations. -/
theorem call_of_counts (same : r'.counts = r.counts) (counts : ¬ k.Registers) :
    (r'.call k).1 = (r.call k).1 ∧ (r'.call k).2.counts = (r.call k).2.counts := by
  cases k with
  | register => exact absurd rfl counts
  | nextCount c => simp [Registry.call, nextCount, bump, count, same]
  | resetCounters => exact ⟨rfl, rfl⟩

theorem Holds.congr (h : r.Holds l) (alike : r.Alike r') : r'.Holds l where
  compatible := h.compatible
  registered := by
    rw [alike.registered]
    exact h.registered
  children parent e := by
    rw [alike.childrenOf]
    exact h.children parent e
  increasing parent := by
    rw [alike.childrenOf]
    exact h.increasing parent

/-- What one call does to the registrations that are held. -/
theorem Holds.call (h : r.Holds l) (k : Call) :
    (∃ f, (r.call k).1 = .error f ∧ (r.call k).2.Holds l) ∨
      ∃ n, (r.call k).1 = .ok n ∧ (r.call k).2.Holds (l ++ k.registration?.toList) := by
  cases k with
  | register c name =>
    simp only [Registry.call]
    cases ok : r.register c name with
    | error f => exact .inl ⟨f, rfl, h⟩
    | ok r' =>
      obtain ⟨all, rfl⟩ := h.register_eq_ok_iff.mp ok
      exact .inr ⟨none, rfl, h.add all⟩
  | nextCount c =>
    have held := h.congr (alike_call (k := .nextCount c) (by simp [Call.Registers, Call.registration?]) r)
    exact .inr ⟨_, rfl, by simpa [Call.registration?] using held⟩
  | resetCounters =>
    have held := h.congr (alike_call (k := .resetCounters) (by decide) r)
    exact .inr ⟨_, rfl, by simpa [Call.registration?] using held⟩

/-- After any calls the accepted registrations have come to those that were held. -/
theorem Holds.after (h : r.Holds l) (calls : List Call) :
    (r.after calls).Holds (l ++ r.accepted calls) := by
  induction calls generalizing r l with
  | nil => simpa [accepted, Registry.after] using h
  | cons k rest ih =>
    rw [after_cons, accepted]
    rcases h.call k with ⟨f, refused, held⟩ | ⟨n, ok, held⟩
    · rw [refused]
      exact ih held
    · rw [ok, ← List.append_assoc]
      exact ih held

theorem holds_after (calls : List Call) :
    (({} : Registry).after calls).Holds (({} : Registry).accepted calls) :=
  holds_empty.after calls

/-! ## Section 4: Counts and registrations apart -/

/-- One more instance of a class is counted for this class. -/
theorem count_bump (r : Registry) (c k : TargetClass) :
    (r.bump c).count k = r.count k + if c = k then 1 else 0 := by
  simp only [count, bump, List.lookup_cons]
  by_cases same : k = c
  · simp [same]
  · simp only [beq_false_of_ne same, lookup_filter_ne _ same, if_neg (Ne.symm same), Nat.add_zero]

theorem count_construct_self (r : Registry) (c : TargetClass) (spec : CaseSpec) :
    (r.construct c spec).2.count c = r.count c + 1 := by
  show (r.bump c).count c = _
  rw [count_bump, if_pos rfl]

/-- Without the calls that count, the same registrations are accepted. -/
theorem Alike.after_filter (h : r.Alike r') (calls : List Call) :
    (r.after calls).Alike (r'.after (calls.filter Call.Registers)) ∧
      r'.accepted (calls.filter Call.Registers) = r.accepted calls := by
  induction calls generalizing r r' with
  | nil => exact ⟨h, rfl⟩
  | cons k rest ih =>
    by_cases asks : k.Registers
    · obtain ⟨answer, alike⟩ := h.call asks
      obtain ⟨alike', same⟩ := ih alike
      rw [List.filter_cons_of_pos asks, after_cons, after_cons, accepted, accepted, answer, same]
      exact ⟨alike', rfl⟩
    · have back : (r.call k).2.Alike r' := (alike_call asks r).symm.trans h
      obtain ⟨alike', same⟩ := ih back
      rw [List.filter_cons_of_neg asks, after_cons]
      refine ⟨alike', same.trans ?_⟩
      -- a call that counts is not refused, and asks for no registration
      cases k with
      | register => exact absurd rfl asks
      | nextCount => rfl
      | resetCounters => rfl

/-- Without the calls that register, the counts are the same. -/
theorem counts_after_filter (same : r'.counts = r.counts) (calls : List Call) :
    (r'.after (calls.filter fun k => ! k.Registers)).counts = (r.after calls).counts := by
  induction calls generalizing r r' with
  | nil => exact same
  | cons k rest ih =>
    rw [after_cons]
    by_cases asks : k.Registers
    · rw [List.filter_cons_of_neg (by simpa using asks)]
      exact ih (same.trans (counts_call asks r).symm)
    · rw [List.filter_cons_of_pos (by simpa using asks), after_cons]
      exact ih (call_of_counts same asks).2

/-! ## Section 5: Registrations without conflict -/

/-- If all registrations may stand together, none is refused. -/
theorem Holds.accepted_eq (h : r.Holds l)
    (all : (l ++ calls.filterMap Call.registration?).Pairwise Registration.Compatible) :
    r.accepted calls = calls.filterMap Call.registration? := by
  induction calls generalizing r l with
  | nil => rfl
  | cons k rest ih =>
    cases k with
    | register c name =>
      have first : (Call.register c name :: rest).filterMap Call.registration? =
          ⟨name, c⟩ :: rest.filterMap Call.registration? := rfl
      rw [first] at all ⊢
      obtain ⟨-, -, beside⟩ := List.pairwise_append.mp all
      have ok : r.register c name = .ok (r.add ⟨name, c⟩) :=
        h.register_eq_ok_iff.mpr ⟨fun e he => beside e he _ (by simp), rfl⟩
      have held : (r.add ⟨name, c⟩).Holds (l ++ [⟨name, c⟩]) :=
        h.add fun e he => beside e he _ (by simp)
      have rest_eq := ih held (by simpa using all)
      simp only [accepted, Registry.call, ok, rest_eq]
      rfl
    | nextCount c =>
      exact ih (h.congr (alike_call (k := .nextCount c) (by simp [Call.Registers, Call.registration?]) r))
        all
    | resetCounters => exact ih (h.congr (alike_call (k := .resetCounters) (by decide) r)) all

/-- Registrations that may stand together may be made in any order, with any counting in between. -/
theorem subclassesOf_of_perm
    (all : (calls.filterMap Call.registration?).Pairwise Registration.Compatible)
    (perm : (calls'.filterMap Call.registration?).Perm (calls.filterMap Call.registration?))
    (parent : TargetClass) :
    (({} : Registry).after calls').subclassesOf parent =
      (({} : Registry).after calls).subclassesOf parent := by
  have all' := perm.symm.pairwise all (Std.Symm.symm _ _)
  have held := holds_after calls
  have held' := holds_after calls'
  rw [holds_empty.accepted_eq (by simpa using all)] at held
  rw [holds_empty.accepted_eq (by simpa using all')] at held'
  rw [subclassesOf, subclassesOf, held'.childrenOf_eq held fun e => perm.mem_iff]

/-! ## Section 6: After any calls -/

/-- After any calls, the subclasses of a class are the accepted classes right below it, each once
    and in the order of the names they are registered by.  A registration is refused exactly if the
    class is there already or a sibling has its name, and then changes nothing.  Registrations and
    counts do not depend on each other, and registrations without conflict may be made in any
    order. -/
theorem holds_accepted_registrations (calls : List Call) :
    let r := ({} : Registry).after calls
    let l := ({} : Registry).accepted calls
    -- the lists below the classes
    (∀ parent, ∃ es : List Registration, r.subclassesOf parent = es.map Registration.target ∧
      Increasing Registration.name es ∧ (r.subclassesOf parent).Nodup ∧
      ∀ e, e ∈ es ↔ e ∈ l ∧ e.target.parent? = some parent) ∧
    (∀ c p q, c ∈ r.subclassesOf p → c ∈ r.subclassesOf q → p = q) ∧
    -- refusals
    (∀ c name, (∃ f, (r.call (.register c name)).1 = .error f) ↔
      (∃ e ∈ l, e.target = c) ∨ ∃ e ∈ l, e.target.parent? = c.parent? ∧ e.name = name) ∧
    (∀ k f, (r.call k).1 = .error f → (r.call k).2 = r) ∧
    -- counts and registrations
    (∀ c name, (r.call (.register c name)).2.counts = r.counts) ∧
    (∀ c, r.Alike (r.call (.nextCount c)).2 ∧ r.Alike (r.call .resetCounters).2) ∧
    (∀ k, if k.Registers
      then (r.call k).1 = ((({} : Registry).after (calls.filter Call.Registers)).call k).1
      else (r.call k).1 = ((({} : Registry).after (calls.filter fun k => ! k.Registers)).call k).1) ∧
    -- any order
    ∀ calls', (calls.filterMap Call.registration?).Pairwise Registration.Compatible →
      (calls'.filterMap Call.registration?).Perm (calls.filterMap Call.registration?) →
      l = calls.filterMap Call.registration? ∧
        ∀ parent, (({} : Registry).after calls').subclassesOf parent = r.subclassesOf parent := by
  intro r l
  have held : r.Holds l := holds_after calls
  refine ⟨?_, ?_, ?_, ?_, ?_, ?_, ?_, ?_⟩
  · intro parent
    exact ⟨_, rfl, held.increasing _, held.nodup_subclassesOf parent, held.children _⟩
  · intro c p q hp hq
    obtain ⟨-, below⟩ := held.mem_subclassesOf.mp hp
    obtain ⟨-, below'⟩ := held.mem_subclassesOf.mp hq
    exact Option.some.inj (below.symm.trans below')
  · intro c name
    simp only [call_register_eq_error_iff, held.refused_iff]
  · intro k f refused
    exact call_of_error refused
  · intro c name
    exact counts_call rfl r
  · intro c
    exact ⟨⟨rfl, rfl⟩, ⟨rfl, rfl⟩⟩
  · intro k
    split
    · next asks => exact ((Alike.refl {}).after_filter calls).1.call asks |>.1.symm
    · next counts => exact (call_of_counts (counts_after_filter rfl calls) counts).1.symm
  · intro calls' all perm
    exact ⟨holds_empty.accepted_eq (by simpa using all), subclassesOf_of_perm all perm⟩

/-- Two siblings, one of them under the empty name, in both orders and with counts in between. -/
theorem holds_accepted_registrations_either_way :
    let a : TargetClass := .sub 0 .base { name := "A" }
    let b : TargetClass := .sub 1 .base { name := "B" }
    let calls : List Call := [.register a, .nextCount b, .register b ""]
    let calls' : List Call := [.register b "", .register a, .resetCounters]
    (({} : Registry).after calls).subclassesOf .base = [b, a] ∧
      (({} : Registry).after calls').subclassesOf .base = [b, a] := by
  intro a b calls calls'
  obtain ⟨-, -, -, -, -, -, -, order⟩ := holds_accepted_registrations calls
  obtain ⟨-, same⟩ := order calls' (by decide +kernel) (by decide +kernel)
  have listed : (({} : Registry).after calls).subclassesOf .base = [b, a] := by decide +kernel
  exact ⟨listed, (same .base).trans listed⟩

end Registry

end CaseGen
