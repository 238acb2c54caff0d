import CaseGen.Proofs.DataFile.Stages
import CaseGen.Proofs.Production
import Mathlib.Data.List.Forall2

/-! # While the temporary file is open

    Once the directory is made and the temporary file is open, a call
    either appends to that file or takes a step of its producer.  What both
    of them keep holds at every stage up to the rename.

    * `WriteCall.Opens`     — the directory is made and the temporary file is open
    * `WriteCall.Invariant` — what each operation on the open file keeps
    * `Invariant.holds`     — it holds at every stage with the open file
    * `Opens.taken`         — how far the steps of the producer have been taken
    * `Opens.keeps`         — what appending and the producer keep of the tree
    * `Opens.filled`        — what the temporary file holds -/

namespace CaseGen

open Files

namespace WriteStage

/-- The temporary file is there. -/
def HasFile : WriteStage → Prop
  | opened .. | pulling .. | complete .. | broken .. => True
  | _ => False

/-- The file that is open for writing. -/
def sink? : WriteStage → Option Sink
  | opened _ sink | pulling _ sink _ _ => some sink
  | _ => none

end WriteStage

namespace WriteCall

variable {c : WriteCall} {w v : Workspace} {n : Nat} {created : Option String} {t₁ t₂ : Tree}
  {tmp : Path}

/-! ## Section 1: Invariants of the open file -/

/-- The call makes the directory of its file, beginning with `created`, and opens the temporary
    file at `tmp`. -/
structure Opens (c : WriteCall) (w : Workspace) (created : Option String) (t₁ : Tree) (tmp : Path)
    (t₂ : Tree) : Prop where
  made : ensureDirectory w.tree (directoryOf c.filename) = (.ok created, t₁)
  opened : openFile t₁ (temporaryName c.filename) = .ok (tmp, t₂)

/-- What is kept by every operation of a call on the open file. -/
structure Invariant (c : WriteCall) (w : Workspace) (created : Option String)
    (Q : WriteStage → Workspace → Prop) : Prop where
  header : ∀ sink v, Q (.opened created sink) v →
    Q (.pulling created (v.append sink (headerLine c.caller ++ "\n")).1 0 c.steps)
      (v.append sink (headerLine c.caller ++ "\n")).2
  skip : ∀ sink count s rest v v', c.Pulls w s v → v.perform s = (.ok none, v') →
    Q (.pulling created sink count (s :: rest)) v → Q (.pulling created sink count rest) v'
  record : ∀ sink count s rest v v' d r, c.Pulls w s v → v.perform s = (.ok (some d), v') →
    d.check = .ok r → Q (.pulling created sink count (s :: rest)) v →
    Q (.pulling created (v'.append sink (textOfLines r.lines)).1 (count + 1) rest)
      (v'.append sink (textOfLines r.lines)).2
  footer : ∀ sink count v, Q (.pulling created sink count []) v →
    Q (.complete created count) (v.append sink footerText).2
  broken : ∀ sink count s rest v v' r f, c.Pulls w s v → v.perform s = (r, v') →
    Q (.pulling created sink count (s :: rest)) v → Q (.broken created f) v'
  refused : ∀ count v f, Q (.complete created count) v → Q (.broken created f) v

/-- What is known of a call at a stage, if `Q` is known of the stages with the open file. -/
def Known (w : Workspace) (created : Option String) (t₁ : Tree)
    (Q : WriteStage → Workspace → Prop) : WriteStage × Workspace → Prop
  | (.begun, v) => v = w
  | (.prepared created', v) => created' = created ∧ v = { w with tree := t₁ }
  | (.opened created' sink, v) => created' = created ∧ Q (.opened created sink) v
  | (.pulling created' sink count rest, v) =>
    created' = created ∧ Q (.pulling created sink count rest) v
  | (.complete created' count, v) => created' = created ∧ Q (.complete created count) v
  | (.broken created' f, v) => created' = created ∧ Q (.broken created f) v
  | (.cleared _ _, _) => True
  | (.done _, _) => True

/-- An invariant that holds of the file just opened holds as long as the file is there. -/
theorem Invariant.holds {Q : WriteStage → Workspace → Prop} (inv : c.Invariant w created Q)
    (opens : c.Opens w created t₁ tmp t₂)
    (start : Q (.opened created { path := tmp }) { w with tree := t₂ }) (n : Nat) :
    Known w created t₁ Q (c.after w n) := by
  -- by induction on the operations; each stage has one that follows, or two if it can fail
  induction n with
  | zero => rfl
  | succ n ih =>
    rw [after]
    rcases h : c.after w n with ⟨stage, v⟩
    rw [h] at ih
    cases stage with
    | begun =>
      obtain rfl : v = w := ih
      simp only [advance, opens.made]
      exact ⟨rfl, rfl⟩
    | prepared created' =>
      obtain ⟨rfl, rfl⟩ := ih
      simp only [advance, opens.opened]
      exact ⟨rfl, start⟩
    | opened created' sink =>
      obtain ⟨rfl, q⟩ := ih
      exact ⟨rfl, inv.header sink v q⟩
    | pulling created' sink count rest =>
      obtain ⟨rfl, q⟩ := ih
      cases rest with
      | nil => exact ⟨rfl, inv.footer sink count v q⟩
      | cons s rest =>
        have pulled : c.Pulls w s v := ⟨n, _, sink, count, rest, h⟩
        rcases taken : v.perform s with ⟨f | d, v'⟩
        · simp only [advance, taken]
          exact ⟨rfl, inv.broken sink count s rest v v' _ f pulled taken q⟩
        · cases d with
          | none =>
            simp only [advance, taken]
            exact ⟨rfl, inv.skip sink count s rest v v' pulled taken q⟩
          | some d =>
            simp only [advance, taken]
            cases checked : d.lines with
            | error f => exact ⟨rfl, inv.broken sink count s rest v v' _ f pulled taken q⟩
            | ok lines =>
              obtain ⟨r, ok, rfl⟩ := Draft.lines_eq_ok_iff.mp checked
              exact ⟨rfl, inv.record sink count s rest v v' d r pulled taken ok q⟩
    | complete created' count =>
      obtain ⟨rfl, q⟩ := ih
      simp only [advance, Workspace.commit]
      cases moved : Files.rename v.tree (temporaryName c.filename) c.filename with
      | error e => exact ⟨rfl, inv.refused count v _ q⟩
      | ok tree => trivial
    | broken => trivial
    | cleared created' => cases created' <;> trivial
    | done => trivial

/-- A call that has made its directory keeps it in mind. -/
theorem Opens.known (opens : c.Opens w created t₁ tmp t₂) (n : Nat) :
    Known w created t₁ (fun _ _ => True) (c.after w n) := by
  have inv : c.Invariant w created fun _ _ => True := by
    constructor <;> intros <;> trivial
  exact inv.holds opens trivial n

theorem Opens.created_eq {created' : Option String} {f : Failure}
    (opens : c.Opens w created t₁ tmp t₂) (h : c.after w n = (.broken created' f, v)) :
    created' = created := by
  have known := opens.known n
  rw [h] at known
  exact known.1

/-- Nothing is lost when the directory is made. -/
theorem Opens.made_grows (opens : c.Opens w created t₁ tmp t₂) : w.tree.Grows t₁ := by
  have grows := ensureDirectory_grows w.tree (directoryOf c.filename)
  rwa [opens.made] at grows

theorem Opens.made_sound (opens : c.Opens w created t₁ tmp t₂) (sound : w.tree.Sound) :
    t₁.Sound := by
  have made := ensureDirectory_sound sound (directoryOf c.filename)
  rwa [opens.made] at made

/-- The temporary file stands at the place of its name. -/
theorem Opens.tmp_eq (opens : c.Opens w created t₁ tmp t₂) :
    tmp = w.tree.place (temporaryName c.filename) := by
  rw [(openFile_place opens.opened).1, place_congr opens.made_grows.home]

/-! ## Section 2: The steps taken and the tree -/

/-- How far a call has come in the steps of its producer: none of those taken has given up, and
    the drafts that they have yielded are complete. -/
def Taken (c : WriteCall) (w : Workspace) : WriteStage → Workspace → Prop
  | .pulling _ _ _ rest, v => ∃ front ds, c.steps = front ++ rest ∧ (∀ f, .fail f ∉ front) ∧
      yielded w.registry c.steps = ds ++ yielded v.registry rest ∧ ∀ d ∈ ds, ∃ r, d.check = .ok r
  | .complete _ _, _ => (∀ f, .fail f ∉ c.steps) ∧
      ∀ d ∈ yielded w.registry c.steps, ∃ r, d.check = .ok r
  | .opened _ _, v => v.registry = w.registry
  | _, _ => True

theorem Opens.taken (opens : c.Opens w created t₁ tmp t₂) {stage : WriteStage}
    (h : c.after w n = (stage, v)) : c.Taken w stage v := by
  have not_fail {s : Step} {v v' : Workspace} {d : Option Draft} (taken : v.perform s = (.ok d, v'))
      (f : Failure) : Step.fail f ≠ s := by
    rintro rfl
    cases taken
  have inv : c.Invariant w created (c.Taken w) := {
    header := by
      intro sink v (registry : v.registry = w.registry)
      exact ⟨[], [], rfl, by simp, by simp [Workspace.append, registry], by simp⟩
    skip := by
      intro sink count s rest v v' _ taken kept
      obtain ⟨front, ds, steps, going, drafts, complete⟩ := kept
      rw [Workspace.yielded_perform taken] at drafts
      exact ⟨front ++ [s], ds, by simp [steps], by simpa [not_fail taken] using going, drafts, complete⟩
    record := by
      intro sink count s rest v v' d r _ taken ok kept
      obtain ⟨front, ds, steps, going, drafts, complete⟩ := kept
      rw [Workspace.yielded_perform taken] at drafts
      refine ⟨front ++ [s], ds ++ [d], by simp [steps], by simpa [not_fail taken] using going,
        by simpa [Workspace.append] using drafts, ?_⟩
      simpa [or_imp, forall_and] using ⟨complete, r, ok⟩
    footer := by
      intro sink count v kept
      obtain ⟨front, ds, steps, going, drafts, complete⟩ := kept
      rw [List.append_nil] at steps
      rw [yielded, List.append_nil] at drafts
      exact ⟨steps ▸ going, drafts ▸ complete⟩
    broken := fun _ _ _ _ _ _ _ _ _ _ _ => trivial
    refused := fun _ _ _ _ => trivial }
  have known := inv.holds opens rfl n
  rw [h] at known
  cases stage with
  | opened | pulling | complete => exact known.2
  | begun | prepared | broken | cleared | done => trivial

/-- The steps that a call takes are those of its producer. -/
theorem Opens.mem_of_pulls {s : Step} (opens : c.Opens w created t₁ tmp t₂) (h : c.Pulls w s v) :
    s ∈ c.steps := by
  obtain ⟨n, created', sink, count, rest, pulling⟩ := h
  obtain ⟨front, ds, steps, -⟩ := opens.taken pulling
  rw [steps]
  simp

/-- What appending to the temporary file and the steps of the producer keep of the tree holds
    as long as that file is there. -/
theorem Opens.keeps {P : Tree → Prop} (opens : c.Opens w created t₁ tmp t₂) (start : P t₂)
    (append : ∀ t offset bytes, P t → P (overwrite t tmp offset bytes))
    (perform : ∀ s v, c.Pulls w s v → P v.tree → P (v.perform s).2.tree) {stage : WriteStage}
    (h : c.after w n = (stage, v)) (file : stage.HasFile) : P v.tree := by
  -- that the open file is the temporary one is part of the invariant
  have inv : c.Invariant w created fun stage v =>
      (∀ sink ∈ stage.sink?, sink.path = tmp) ∧ P v.tree := {
    header := by
      intro sink v kept
      obtain ⟨path, p⟩ := kept
      obtain rfl : sink.path = tmp := path sink rfl
      exact ⟨by simp [WriteStage.sink?, Workspace.append], append _ _ _ p⟩
    skip := by
      intro sink count s rest v v' pulled taken kept
      obtain ⟨path, p⟩ := kept
      obtain rfl : sink.path = tmp := path sink rfl
      exact ⟨by simp [WriteStage.sink?], by simpa [taken] using perform s v pulled p⟩
    record := by
      intro sink count s rest v v' d r pulled taken _ kept
      obtain ⟨path, p⟩ := kept
      obtain rfl : sink.path = tmp := path sink rfl
      have p' : P v'.tree := by simpa [taken] using perform s v pulled p
      exact ⟨by simp [WriteStage.sink?, Workspace.append], append _ _ _ p'⟩
    footer := by
      intro sink count v kept
      obtain ⟨path, p⟩ := kept
      obtain rfl : sink.path = tmp := path sink rfl
      exact ⟨by simp [WriteStage.sink?], append _ _ _ p⟩
    broken := by
      intro sink count s rest v v' r f pulled taken kept
      obtain ⟨-, p⟩ := kept
      exact ⟨by simp [WriteStage.sink?], by simpa [taken] using perform s v pulled p⟩
    refused := by
      intro count v f kept
      obtain ⟨-, p⟩ := kept
      exact ⟨by simp [WriteStage.sink?], p⟩ }
  have known := inv.holds opens ⟨by simp [WriteStage.sink?], start⟩ n
  rw [h] at known
  cases stage with
  | opened | pulling | complete | broken => exact known.2.2
  | begun | prepared | cleared | done => exact absurd file id

variable {stage : WriteStage}

/-- Nothing that was there when the file was opened is lost. -/
theorem Opens.grows (opens : c.Opens w created t₁ tmp t₂) (h : c.after w n = (stage, v))
    (file : stage.HasFile) : t₂.Grows v.tree :=
  opens.keeps (.refl _) (fun t offset bytes g => g.trans (overwrite_grows t tmp offset bytes))
    (fun s v _ g => g.trans (v.perform_grows s)) h file

theorem Opens.sound (opens : c.Opens w created t₁ tmp t₂) (sound : w.tree.Sound)
    (h : c.after w n = (stage, v)) (file : stage.HasFile) : v.tree.Sound :=
  opens.keeps (openFile_sound opens.opened (opens.made_sound sound))
    (fun _ offset bytes g => overwrite_sound g tmp offset bytes)
    (fun s v _ g => v.perform_sound g s) h file

/-- If the producer writes no file, the tree changes at the temporary file alone. -/
theorem Opens.erase (opens : c.Opens w created t₁ tmp t₂) (quiet : ∀ s ∈ c.steps, ¬ s.WritesFile)
    (h : c.after w n = (stage, v)) (file : stage.HasFile) : v.tree.erase tmp = t₁.erase tmp := by
  refine opens.keeps (P := fun t => t.erase tmp = t₁.erase tmp) (openFile_erase opens.opened) ?_ ?_
    h file
  · intro t offset bytes same
    rw [overwrite_erase, same]
  · intro s v pulled same
    rw [Workspace.perform_tree (quiet s (opens.mem_of_pulls pulled)), same]

/-- What the producer leaves alone stays as it was when the directory was made. -/
theorem Opens.spared {q : Path} (opens : c.Opens w created t₁ tmp t₂) (spares : c.Spares w q)
    (ne : q ≠ tmp) (h : c.after w n = (stage, v)) (file : stage.HasFile) :
    v.tree.lookup q = t₁.lookup q := by
  refine opens.keeps (P := fun t => t.lookup q = t₁.lookup q) ?_ ?_ ?_ h file
  · rw [openFile_lookup opens.opened, if_neg ne]
  · intro t offset bytes same
    rw [overwrite_lookup ne, same]
  · intro s v pulled same
    rw [spares s v pulled, same]

/-! ## Section 3: The content of the file -/

/-- The text of a data file up to the last of some records. -/
def writtenText (caller : String) (records : List Record) : String :=
  headerLine caller ++ "\n" ++ String.join (records.map fun r => textOfLines r.lines)

theorem bytesOf_append (a b : String) : bytesOf (a ++ b) = bytesOf a ++ bytesOf b := by
  simp [bytesOf]

theorem writtenText_concat (caller : String) (l : List Record) (r : Record) :
    writtenText caller (l ++ [r]) = writtenText caller l ++ textOfLines r.lines := by
  simp [writtenText, String.join_append, String.append_assoc]

/-- Text appended to a file is what comes after its content. -/
theorem lookup_append {sink : Sink} {content : Bytes} (text : String)
    (file : v.tree.lookup sink.path = some (.file content)) (offset : sink.offset = content.length) :
    (v.append sink text).2.tree.lookup sink.path = some (.file (content ++ bytesOf text)) ∧
      (v.append sink text).1.offset = (content ++ bytesOf text).length := by
  simp only [Workspace.append]
  rw [overwrite_eq file, Tree.lookup_insert (ne_nil_of_file file), if_pos rfl, offset, spliced_end]
  simp

/-- What the temporary file holds at a stage, if `records` are to be written. -/
def Filled (c : WriteCall) (w : Workspace) (tmp : Path) (records : List Record) :
    WriteStage → Workspace → Prop
  | .opened _ sink, v => sink.path = tmp ∧ sink.offset = 0 ∧ v.registry = w.registry ∧
      v.tree.lookup tmp = some (.file [])
  | .pulling _ sink count rest, v => sink.path = tmp ∧ count ≤ records.length ∧
      List.Forall₂ (fun d r => d.check = .ok r) (yielded v.registry rest) (records.drop count) ∧
      v.tree.lookup tmp = some (.file (bytesOf (writtenText c.caller (records.take count)))) ∧
      sink.offset = (bytesOf (writtenText c.caller (records.take count))).length
  | .complete _ count, v => count = records.length ∧
      v.tree.lookup tmp = some (.file (bytesOf (dataFileText c.caller records)))
  | _, _ => True

section Steps

variable {records : List Record} {sink : Sink} {count : Nat} {s : Step} {rest : List Step}
  {v' : Workspace}

/-- The header is the first text in an empty file. -/
theorem Filled.header
    (complete : List.Forall₂ (fun d r => d.check = .ok r) (yielded w.registry c.steps) records)
    (h : c.Filled w tmp records (.opened created sink) v) :
    c.Filled w tmp records (.pulling created (v.append sink (headerLine c.caller ++ "\n")).1 0 c.steps)
      (v.append sink (headerLine c.caller ++ "\n")).2 := by
  obtain ⟨rfl, offset, registry, file⟩ := h
  obtain ⟨file', offset'⟩ := lookup_append (headerLine c.caller ++ "\n") file offset
  have text : writtenText c.caller (records.take 0) = headerLine c.caller ++ "\n" := by
    simp [writtenText]
  refine ⟨rfl, Nat.zero_le _, by simpa [Workspace.append, registry] using complete, ?_, ?_⟩
  · rw [text]
    exact file'
  · rw [text]
    exact offset'

/-- A step that yields nothing leaves the temporary file alone. -/
theorem Filled.skip (same : v'.tree.lookup tmp = v.tree.lookup tmp)
    (taken : v.perform s = (.ok none, v'))
    (h : c.Filled w tmp records (.pulling created sink count (s :: rest)) v) :
    c.Filled w tmp records (.pulling created sink count rest) v' := by
  obtain ⟨rfl, le, left, file, offset⟩ := h
  rw [Workspace.yielded_perform taken] at left
  exact ⟨rfl, le, left, same.trans file, offset⟩

/-- The record that is written next comes after those that the file holds. -/
theorem Filled.record {d : Draft} {r : Record} (same : v'.tree.lookup tmp = v.tree.lookup tmp)
    (taken : v.perform s = (.ok (some d), v')) (ok : d.check = .ok r)
    (h : c.Filled w tmp records (.pulling created sink count (s :: rest)) v) :
    c.Filled w tmp records
      (.pulling created (v'.append sink (textOfLines r.lines)).1 (count + 1) rest)
      (v'.append sink (textOfLines r.lines)).2 := by
  obtain ⟨rfl, le, left, file, offset⟩ := h
  rw [Workspace.yielded_perform taken] at left
  obtain ⟨r', later, ok', left', records_eq⟩ := List.forall₂_cons_left_iff.mp left
  obtain rfl : r = r' := Except.ok.inj (ok.symm.trans ok')
  have lt : count < records.length := by
    by_contra none
    rw [List.drop_eq_nil_of_le (Nat.not_lt.mp none)] at records_eq
    cases records_eq
  rw [List.drop_eq_getElem_cons lt] at records_eq
  obtain ⟨rfl, rfl⟩ := List.cons.inj records_eq
  obtain ⟨file', offset'⟩ := lookup_append (textOfLines (records[count]).lines)
    (same.trans file) offset
  rw [← bytesOf_append, ← writtenText_concat, List.take_append_getElem lt] at file' offset'
  exact ⟨rfl, lt, left', file', offset'⟩

/-- Once no step is left, no record is left either. -/
theorem Filled.footer (h : c.Filled w tmp records (.pulling created sink count []) v) :
    c.Filled w tmp records (.complete created count) (v.append sink footerText).2 := by
  obtain ⟨rfl, le, left, file, offset⟩ := h
  have none : records.drop count = [] := List.forall₂_nil_left_iff.mp left
  have all : records.length ≤ count := List.drop_eq_nil_iff.mp none
  obtain ⟨file', -⟩ := lookup_append footerText file offset
  rw [← bytesOf_append, List.take_of_length_le all] at file'
  exact ⟨Nat.le_antisymm le all, file'⟩

end Steps

/-- The temporary file holds the records written so far, and nothing else. -/
theorem Opens.filled {records : List Record} (opens : c.Opens w created t₁ tmp t₂)
    (complete : List.Forall₂ (fun d r => d.check = .ok r) (yielded w.registry c.steps) records)
    (spares : c.Spares w tmp) {stage : WriteStage} (h : c.after w n = (stage, v)) :
    c.Filled w tmp records stage v := by
  -- a step of the producer leaves the temporary file as it is
  have same {s : Step} {v v' : Workspace} {r : Except Failure (Option Draft)}
      (pulled : c.Pulls w s v) (taken : v.perform s = (r, v')) :
      v'.tree.lookup tmp = v.tree.lookup tmp := by
    have kept := spares s v pulled
    rwa [taken] at kept
  have inv : c.Invariant w created (c.Filled w tmp records) := {
    header := by
      intro sink v filled
      exact filled.header complete
    skip := by
      intro sink count s rest v v' pulled taken filled
      exact filled.skip (same pulled taken) taken
    record := by
      intro sink count s rest v v' d r pulled taken ok filled
      exact filled.record (same pulled taken) taken ok
    footer := by
      intro sink count v filled
      exact filled.footer
    broken := fun _ _ _ _ _ _ _ _ _ _ _ => trivial
    refused := fun _ _ _ _ => trivial }
  have start : c.Filled w tmp records (.opened created { path := tmp }) { w with tree := t₂ } := by
    refine ⟨rfl, rfl, rfl, ?_⟩
    show t₂.lookup tmp = some (.file [])
    rw [openFile_lookup opens.opened, if_pos rfl]
  have known := inv.holds opens start n
  rw [h] at known
  cases stage with
  | opened | pulling | complete => exact known.2
  | begun | prepared | broken | cleared | done => trivial

end WriteCall

end CaseGen
