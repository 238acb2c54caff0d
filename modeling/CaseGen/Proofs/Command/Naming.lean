import CaseGen.Command.Arguments
import CaseGen.Command.Targets
import CaseGen.Proofs.Suite.Places
import CaseGen.Proofs.Text.Order

/-! # Naming targets by their data files

    The path text of a data file stands for the target that it belongs to,
    in whatever directory the suite writes.  Handing a command line the
    path texts of all data files therefore selects what it selects if it is
    handed none.

    * `normalizeName_fileName`  — a path text of a suite leads back to its target
    * `resolveTargets_fileNames`, `resolveTargets_none` — both select all targets
    * `CommandLine.read_append` — targets may always stand behind two dashes -/

namespace CaseGen

namespace Command

/-! ## Section 1: Path texts of data files -/

theorem withoutDataSuffix_append (cs : List Char) :
    withoutDataSuffix (cs ++ dataSuffix) = cs := by
  rw [withoutDataSuffix, if_pos (List.suffix_append cs dataSuffix), List.length_append,
    Nat.add_sub_cancel, List.take_left]

/-- Of a path the last slash cuts off the name, which holds none. -/
theorem afterLastSlash_append {u v : List Char} (cut : u = [] ∨ u.getLast? = some '/')
    (name : '/' ∉ v) : afterLastSlash (u ++ v) = v := by
  have all : ∀ c ∈ v.reverse, decide (c ≠ '/') = true := by
    intro c mem
    refine decide_eq_true fun slash => name ?_
    rw [← slash]
    exact List.mem_reverse.mp mem
  have stops : u.reverse.takeWhile (· ≠ '/') = [] := by
    rcases cut with rfl | last
    · rfl
    · rw [← List.head?_reverse] at last
      obtain ⟨rest, reversed⟩ := List.head?_eq_some_iff.mp last
      rw [reversed]
      rfl
  rw [afterLastSlash, List.reverse_append, List.takeWhile_append_of_pos all, stops,
    List.append_nil, List.reverse_reverse]

end Command

namespace Suite

variable {α : Type} {s : Suite α} {k : String}

/-- The path text of a data file is its name with the ending, after nothing or after a slash. -/
theorem exists_toList_fileName (s : Suite α) (k : String) :
    ∃ u : List Char, (u = [] ∨ u.getLast? = some '/') ∧
      (s.fileName k).toList = u ++ k.toList ++ Command.dataSuffix := by
  obtain ⟨u, cut, text⟩ := s.exists_fileName
  refine ⟨u, cut, ?_⟩
  rw [text, String.toList_ofList, String.toList_append, List.append_assoc]
  rfl

/-- A path text of a suite leads back to its target. -/
theorem normalizeName_fileName (s : Suite α) (flat : '/' ∉ k.toList) :
    Command.normalizeName (s.fileName k) = k := by
  obtain ⟨u, cut, chars⟩ := s.exists_toList_fileName k
  rw [Command.normalizeName, chars, Command.withoutDataSuffix_append,
    Command.afterLastSlash_append cut flat, String.ofList_toList]

/-- No path text of a suite is the text that selects nothing. -/
theorem fileName_ne_dash (s : Suite α) (k : String) : s.fileName k ≠ "-" := by
  intro dash
  obtain ⟨u, -, chars⟩ := s.exists_toList_fileName k
  have last := congrArg List.getLast? chars
  have ending : Command.dataSuffix.getLast? = some 'a' := rfl
  rw [dash, List.getLast?_append, ending, Option.some_or] at last
  exact absurd last (by decide)

/-! ## Section 2: Selections -/

/-- The names of the targets are sorted already. -/
theorem resolveTargets_none (s : Suite α) :
    Command.resolveTargets [] s.targetNames = s.targetNames :=
  (Text.Sorted.sortBy id (s.table.map Prod.fst)).sortBy_eq

/-- The path texts of all data files select all targets in order. -/
theorem resolveTargets_fileNames (flat : ∀ k ∈ s.targetNames, '/' ∉ k.toList) :
    Command.resolveTargets s.fileNames s.targetNames = s.targetNames := by
  unfold Command.resolveTargets
  split
  next none =>
    have noTargets : s.targetNames = [] := by simpa [fileNames] using none
    rw [noTargets]
    rfl
  · have kept : s.fileNames.filter (· ≠ "-") = s.fileNames := by
      refine List.filter_eq_self.mpr fun text mem => decide_eq_true ?_
      obtain ⟨k, -, rfl⟩ := List.mem_map.mp mem
      exact s.fileName_ne_dash k
    rw [kept, fileNames, List.map_map]
    refine (List.map_congr_left fun k mem => ?_).trans (List.map_id _)
    exact s.normalizeName_fileName (flat k mem)

end Suite

/-! ## Section 3: Targets behind two dashes -/

namespace Command.CommandLine

variable {l l' : CommandLine} {args : List String}

/-- Once something is unknown, there is something that is. -/
def Honest (l : CommandLine) : Prop := l.lost → l.unknown ≠ []

theorem Honest.add (h : l.Honest) (args : List String) : (l.add args).Honest := by
  unfold CommandLine.add
  split
  · next lost =>
    intro _ none
    exact h lost (List.append_eq_nil_iff.mp none).1
  · exact h

theorem Honest.setFlags (h : l.Honest) (flags : List Flag) : (flags.foldl setFlag l).Honest := by
  induction flags generalizing l with
  | nil => exact h
  | cons f rest ih =>
    rw [List.foldl_cons]
    refine ih ?_
    cases f <;> exact h

theorem Honest.scan (h : l.Honest) (reads : l.scan args = .ok l') : l'.Honest := by
  fun_induction CommandLine.scan l args with
  | case1 l =>
    cases reads
    exact h
  | case2 l arg rest flags l₁ read ih => exact ih (h.setFlags flags) reads
  | case3 => cases reads
  | case4 l arg rest flags l₁ value read ih => exact ih (h.setFlags flags) reads
  | case5 => cases reads
  | case6 l arg flags l₁ value rest read ih => exact ih (h.setFlags flags) reads
  | case7 l arg rest flags l₁ read =>
    cases reads
    split
    · exact ((h.setFlags flags).add _).add _
    · exact (h.setFlags flags).add _
  | case8 l arg rest flags l₁ unknown read ih =>
    refine ih (fun _ none => ?_) reads
    simp [CommandLine.add] at none
  | case9 l arg rest flags l₁ operand read ih => exact ih ((h.setFlags flags).add _) reads

/-- What stands behind two dashes is read after everything before them. -/
theorem scan_append (rest : List String)
    (goesOn : ∀ arg ∈ args, (readArgument arg).2 ≠ .noMoreOptions)
    (reads : l.scan args = .ok l') :
    l.scan (args ++ "--" :: rest) =
      .ok ((if l'.lost then l'.add ["--"] else l').add rest) := by
  fun_induction CommandLine.scan l args with
  | case1 l =>
    cases reads
    rfl
  | case2 l arg more flags l₁ read ih | case4 l arg more flags l₁ value read ih
  | case8 l arg more flags l₁ unknown read ih | case9 l arg more flags l₁ operand read ih =>
    rw [List.cons_append, CommandLine.scan, read]
    exact ih (fun a mem => goesOn a (List.mem_cons_of_mem _ mem)) reads
  | case6 l arg flags l₁ value more read ih =>
    rw [List.cons_append, CommandLine.scan, read]
    refine ih (fun a mem => goesOn a ?_) reads
    exact List.mem_cons_of_mem _ (List.mem_cons_of_mem _ mem)
  | case3 | case5 => cases reads
  | case7 l arg more flags l₁ read =>
    have ends : (readArgument arg).2 = .noMoreOptions := by rw [read]
    exact absurd ends (goesOn arg List.mem_cons_self)

/-- Whatever texts stand behind two dashes, they are the last targets of the command line. -/
theorem read_append (rest : List String)
    (goesOn : ∀ arg ∈ args, (readArgument arg).2 ≠ .noMoreOptions)
    (reads : read args = .ok l) :
    read (args ++ "--" :: rest) = .ok { l with operands := l.operands ++ rest } := by
  unfold read at reads
  cases scanned : scan {} args with
  | error stop => simp [scanned] at reads
  | ok l' =>
    simp only [scanned] at reads
    split at reads
    · cases reads
    · next noHelp =>
      cases known : l'.unknown with
      | cons arg more => simp [known] at reads
      | nil =>
        simp only [known] at reads
        cases reads
        have honest : l.Honest := Honest.scan (l := {}) (fun h => absurd h (by decide)) scanned
        have kept : ¬ l.lost := fun lost => honest lost known
        have all := scan_append rest goesOn scanned
        rw [if_neg kept, add, if_neg kept] at all
        unfold read
        simp only [all, known]
        simp

end Command.CommandLine

end CaseGen
