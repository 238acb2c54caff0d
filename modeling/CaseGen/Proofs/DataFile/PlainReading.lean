import CaseGen.Proofs.DataFile.Reading
import CaseGen.Suite

/-! # A plain reader of data files

    A plain reader cuts a data file at its line feeds and drops empty lines
    and comments.  It sees the lines of all records but two kinds of text
    can mislead it: a description that looks like a comment, which it drops,
    and a caller of more than one line, whose further lines it takes for
    lines of a record.

    * `Hidden`, `plainLines`   — what a plain reader drops and what it sees
    * `plainLines_dataFileText` — what it sees of a data file
    * `plain_reader_sees`      — when it sees the records and nothing else
    * `plain_reader_misled`    — a description and a caller that mislead it -/

namespace CaseGen

open Files

/-! ## Section 1: Plain lines -/

/-- A line that a plain reader drops: it is empty or a comment. -/
def Hidden (line : String) : Prop := line = "" ∨ line.toList.head? = some '#'

instance (line : String) : Decidable (Hidden line) :=
  inferInstanceAs (Decidable (line = "" ∨ line.toList.head? = some '#'))

/-- The lines that a plain reader sees. -/
def plainLines (text : String) : List String :=
  ((text.toList.splitOn '\n').map String.ofList).filter fun line => ¬ Hidden line

/-- A text is read line by line. -/
theorem plainLines_append (a b : String) :
    plainLines (a ++ "\n" ++ b) = plainLines a ++ plainLines b := by
  have chars : (a ++ "\n" ++ b).toList = a.toList ++ '\n' :: b.toList := by simp
  rw [plainLines, chars, List.splitOn_append_cons_self, List.map_append, List.filter_append]
  rfl

theorem plainLines_of_no_feed {line : String} (h : '\n' ∉ line.toList) :
    plainLines line = if Hidden line then [] else [line] := by
  rw [plainLines, List.splitOn_eq_singleton h]
  simp [List.filter_cons]

theorem plainLines_textOfLines (l : List String) :
    plainLines (textOfLines l) = l.flatMap plainLines := by
  induction l with
  | nil => rfl
  | cons line l ih => rw [textOfLines_cons, plainLines_append, ih, List.flatMap_cons]

/-- Lines without a line feed are seen or dropped as a whole. -/
theorem flatMap_plainLines {l : List String} (h : ∀ line ∈ l, '\n' ∉ line.toList) :
    l.flatMap plainLines = l.filter fun line => ¬ Hidden line := by
  induction l with
  | nil => rfl
  | cons line l ih =>
    obtain ⟨first, others⟩ := List.forall_mem_cons.mp h
    rw [List.flatMap_cons, plainLines_of_no_feed first, ih others]
    by_cases hidden : Hidden line <;> simp [hidden]

theorem not_hidden_of_mem_plainLines {line text : String} (mem : line ∈ plainLines text) :
    ¬ Hidden line := by
  simpa using (List.mem_filter.mp mem).2

/-! ## Section 2: Records -/

namespace Record

variable {r : Record} {records : List Record}

/-- The lines of a record that a plain reader sees: all but a description that looks like a
    comment. -/
def shownLines (r : Record) : List String :=
  (if r.description.toList.head? = some '#' then [] else [r.description]) ++
    (r.dependencyLines ++ [r.callLine])

theorem not_hidden_of_mem_dependencyLines {line : String} (mem : line ∈ r.dependencyLines) :
    ¬ Hidden line := by
  unfold dependencyLines at mem
  split at mem
  · cases mem
  · rw [List.mem_singleton.mp mem]
    simp [Hidden, ← String.toList_inj]

theorem Complete.not_hidden_callLine (h : r.Complete) : ¬ Hidden r.callLine := by
  rintro (empty | comment)
  · exact callLine_ne_empty empty
  · -- the name of a function does not start with the sign of a comment
    obtain ⟨c, starts, start⟩ := h.callLine_start
    rw [Option.mem_def, comment] at starts
    cases starts
    exact absurd start (by decide)

/-- A plain reader sees the description of a complete record unless it looks like a comment, its
    dependencies and its call. -/
theorem Complete.plainLines_lines (h : r.Complete) : r.lines.flatMap plainLines = r.shownLines := by
  rw [flatMap_plainLines h.no_feed]
  have comments : r.commentLines.filter (fun line => ¬ Hidden line) = [] := by
    rw [List.filter_eq_nil_iff]
    intro line mem
    unfold commentLines at mem
    split at mem
    · cases mem
    · rcases List.mem_cons.mp mem with rfl | mem
      · simp [Hidden]
      · obtain ⟨text, -, rfl⟩ := List.mem_map.mp mem
        simp [Hidden]
  have rest : (r.dependencyLines ++ [r.callLine]).filter (fun line => ¬ Hidden line) =
      r.dependencyLines ++ [r.callLine] := by
    rw [List.filter_eq_self]
    intro line mem
    rcases List.mem_append.mp mem with mem | mem
    · exact decide_eq_true (not_hidden_of_mem_dependencyLines mem)
    · rw [List.mem_singleton.mp mem]
      exact decide_eq_true h.not_hidden_callLine
  have empty : Hidden "" := .inl rfl
  have description : Hidden r.description ↔ r.description.toList.head? = some '#' :=
    or_iff_right h.description_ne_empty
  rw [lines, bodyLines, List.filter_append, comments, List.filter_cons_of_neg (by simp [empty]),
    List.filter_cons, rest, shownLines]
  by_cases comment : r.description.toList.head? = some '#'
  · simp [description, comment]
  · simp [description, comment]

theorem Complete.not_hidden_of_mem_shownLines {line : String} (h : r.Complete)
    (mem : line ∈ r.shownLines) : ¬ Hidden line := by
  rw [← h.plainLines_lines] at mem
  obtain ⟨written, -, seen⟩ := List.mem_flatMap.mp mem
  exact not_hidden_of_mem_plainLines seen

/-- Where some other lines are seen besides the shown lines of records, these are the lines of the
    records exactly if there are no others and no description looks like a comment. -/
theorem shownLines_iff {others : List String} (seen : ∀ line ∈ others, ¬ Hidden line)
    (complete : ∀ r ∈ records, r.Complete) :
    others ++ records.flatMap shownLines = records.flatMap bodyLines ↔
      others = [] ∧ ∀ r ∈ records, r.description.toList.head? ≠ some '#' := by
  have shown (clear : ∀ r ∈ records, r.description.toList.head? ≠ some '#') :
      records.flatMap shownLines = records.flatMap bodyLines := by
    refine List.flatMap_congr fun r mem => ?_
    rw [shownLines, if_neg (clear r mem)]
    rfl
  constructor
  · intro same
    -- all lines on the left are seen, so no description on the right is dropped
    have clear : ∀ r ∈ records, r.description.toList.head? ≠ some '#' := by
      intro r mem comment
      have there : r.description ∈ others ++ records.flatMap shownLines := by
        rw [same]
        exact List.mem_flatMap.mpr ⟨r, mem, List.mem_cons_self⟩
      rcases List.mem_append.mp there with other | own
      · exact seen _ other (.inr comment)
      · obtain ⟨s, mem', shown⟩ := List.mem_flatMap.mp own
        exact (complete s mem').not_hidden_of_mem_shownLines shown (.inr comment)
    rw [shown clear] at same
    exact ⟨List.append_left_eq_self.mp same, clear⟩
  · intro h
    obtain ⟨rfl, clear⟩ := h
    exact shown clear

end Record

/-! ## Section 3: Data files -/

/-- The further lines of a caller that has more than one, as far as a plain reader sees them. -/
def spilledLines (caller : String) : List String := plainLines (headerLine caller)

/-- The line that the header starts with is a comment. -/
theorem plainLines_header {text : String} (line : '\n' ∉ text.toList) :
    plainLines ("# Automatically generated by " ++ text) = [] := by
  have start : "# Automatically generated by ".toList.head? = some '#' := by decide +kernel
  have comment : ("# Automatically generated by " ++ text).toList.head? = some '#' := by
    rw [String.toList_append, List.head?_append, start]
    exact Option.some_or
  rw [plainLines_of_no_feed (no_feed_append (by decide +kernel) line), if_pos (.inr comment)]

theorem spilledLines_of_line {caller : String} (line : '\n' ∉ caller.toList) :
    spilledLines caller = [] := by
  have header : headerLine caller = "# Automatically generated by " ++ (caller ++ ". Do not edit!") :=
    String.append_assoc
  rw [spilledLines, header]
  exact plainLines_header (no_feed_append line (by decide +kernel))

theorem spilledLines_of_feed {first : String} (line : '\n' ∉ first.toList) (rest : String) :
    spilledLines (first ++ "\n" ++ rest) = plainLines (rest ++ ". Do not edit!") := by
  have header : headerLine (first ++ "\n" ++ rest) =
      "# Automatically generated by " ++ first ++ "\n" ++ (rest ++ ". Do not edit!") := by
    unfold headerLine
    simp only [String.append_assoc]
  rw [spilledLines, header, plainLines_append, plainLines_header line, List.nil_append]

/-- Of a data file a plain reader sees the further lines of the caller and the shown lines of the
    records. -/
theorem plainLines_dataFileText {records : List Record} (complete : ∀ r ∈ records, r.Complete)
    (caller : String) :
    plainLines (dataFileText caller records) =
      spilledLines caller ++ records.flatMap Record.shownLines := by
  have footer : ["", footerLine].flatMap plainLines = [] := by decide +kernel
  have shown : (records.flatMap Record.lines).flatMap plainLines =
      records.flatMap Record.shownLines := by
    rw [List.flatMap_assoc]
    exact List.flatMap_congr fun r mem => (complete r mem).plainLines_lines
  rw [dataFileText_eq, plainLines_textOfLines, List.flatMap_append, List.flatMap_cons, footer, shown,
    List.append_nil, spilledLines]

namespace Suite

variable {α : Type} {s : Suite α} {w v : Workspace} {k : String} {ds : List Draft}
  {records : List Record} {n : Nat}

/-- Of a file with complete test cases a plain reader sees the lines of each record in order, apart
    from descriptions that look like comments, after the further lines of the caller.  So it sees
    the records and nothing else exactly if no description looks like a comment and nothing is seen
    of the caller, as is the case if the caller is a single line. -/
theorem plain_reader_sees (checked : List.Forall₂ (fun d r => d.check = .ok r) ds records)
    (written : s.write w k (ds.map .yield) = (.ok n, v)) :
    ∃ text, v.tree.lookup (w.tree.place (s.fileName k)) = some (.file (bytesOf text)) ∧
      plainLines text = spilledLines s.caller ++ records.flatMap Record.shownLines ∧
      (plainLines text = records.flatMap Record.bodyLines ↔
        spilledLines s.caller = [] ∧ ∀ r ∈ records, r.description.toList.head? ≠ some '#') ∧
      -- what is seen of the caller
      ('\n' ∉ s.caller.toList → spilledLines s.caller = []) ∧
      (∀ first rest, s.caller = first ++ "\n" ++ rest → '\n' ∉ first.toList →
        spilledLines s.caller = plainLines (rest ++ ". Do not edit!")) := by
  obtain ⟨rfl, complete⟩ := Draft.forall₂_check_iff.mp checked
  have seen := plainLines_dataFileText complete s.caller
  refine ⟨dataFileText s.caller records, run_yields complete written, seen, ?_,
    spilledLines_of_line, ?_⟩
  · rw [seen]
    exact Record.shownLines_iff (fun line mem => not_hidden_of_mem_plainLines mem) complete
  · intro first rest caller line
    rw [caller]
    exact spilledLines_of_feed line rest

/-- A record whose arguments and comments look like other lines, for a caller on one line. -/
theorem plain_reader_sees_look_alikes :
    let r : Record := ⟨"depends_on:Y", "f", ["1", "# 2"], ["X"], ["", "f:1"]⟩
    let s : Suite Unit := ⟨"", "gen: # 1", []⟩
    ∃ v text, s.write {} "x" [.yield r.toDraft] = (.ok 1, v) ∧
      v.tree.lookup ["x.data"] = some (.file (bytesOf text)) ∧
      plainLines text = ["depends_on:Y", "depends_on:X", "f:1:# 2"] := by
  intro r s
  have written : s.write {} "x" ([r.toDraft].map .yield) = (.ok 1, _) :=
    eq_of_toOption (by decide +kernel)
  have checked : List.Forall₂ (fun d r => d.check = .ok r) [r.toDraft] [r] :=
    .cons (Draft.check_toDraft (by decide +kernel)) .nil
  obtain ⟨text, file, -, exactly, single, -⟩ := plain_reader_sees checked written
  have place : ({} : Workspace).tree.place (s.fileName "x") = ["x.data"] := by decide +kernel
  have caller := single (by decide +kernel)
  exact ⟨_, text, written, place ▸ file, exactly.mpr ⟨caller, by decide +kernel⟩⟩

/-- A description that looks like a comment is dropped, and a caller of two lines shows the second
    one.  Both are accepted. -/
theorem plain_reader_misled :
    let r : Record := ⟨"# 1", "f", [], [], []⟩
    (∃ s : Suite Unit, Suite.ofOptions none none [] = .ok s ∧ r.toDraft.check = .ok r ∧
      ∃ v text, s.write {} "x" [.yield r.toDraft] = (.ok 1, v) ∧
        v.tree.lookup ["tests", "suites", "x.data"] = some (.file (bytesOf text)) ∧
        plainLines text = ["f:"] ∧ r.bodyLines = ["# 1", "f:"]) ∧
    ∃ s : Suite Unit,
      Suite.ofOptions none (some (.obj [("caller", .str "gen\nevil:1")])) [] = .ok s ∧
      ∃ v text, s.write {} "x" [] = (.ok 0, v) ∧
        v.tree.lookup ["tests", "suites", "x.data"] = some (.file (bytesOf text)) ∧
        plainLines text = ["evil:1. Do not edit!"] := by
  intro r
  refine ⟨⟨⟨"tests/suites", "testgen", []⟩, rfl, Draft.check_toDraft (by decide +kernel), ?_⟩,
    ⟨⟨"tests/suites", "gen\nevil:1", []⟩, rfl, ?_⟩⟩
  · exact ⟨_, dataFileText "testgen" [r], eq_of_toOption (by decide +kernel), by decide +kernel,
      by decide +kernel, by decide +kernel⟩
  · exact ⟨_, dataFileText "gen\nevil:1" [], eq_of_toOption (by decide +kernel), by decide +kernel,
      by decide +kernel⟩

end Suite

end CaseGen
