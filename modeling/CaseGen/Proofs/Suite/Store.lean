import CaseGen.Proofs.Suite.Call

/-! # A suite as a store of files

    The directory of a suite is a store with one file for each target.  A
    sequence of calls leaves the file that was written last for each of
    them, whatever calls have failed in between.

    * `Suite.history`      — the files that a sequence of calls writes
    * `Suite.Stored`       — the store after some files have been written
    * `Stored.generateAll` — it is what any sequence of calls leaves
    * `Stored.agree`       — a store is determined by the last files -/

namespace CaseGen

open Files

namespace Suite

variable {α : Type} {s : Suite α} {w : Workspace} {t t' : Tree} {k : String} {a : α}

/-! ## Section 1: Many calls -/

/-- The workspace after a sequence of calls, whether they succeed or fail. -/
def generateAll (s : Suite α) (w : Workspace) : List (String × α) → Workspace
  | [] => w
  | (k, a) :: calls => s.generateAll (s.generate w k a).2 calls

/-- In a sequence of calls none is refused its directory or its temporary file. -/
def NeverRefused (s : Suite α) (w : Workspace) : List (String × α) → Prop
  | [] => True
  | (k, a) :: calls => s.Unrefused w k a ∧ s.NeverRefused (s.generate w k a).2 calls

/-- The complete file that a call writes, if it succeeds. -/
def written? (s : Suite α) (w : Workspace) (k : String) (a : α) : Option Bytes :=
  match s.table.lookup k, (s.generate w k a).1 with
  | some producer, .ok _ =>
    let records := (yielded w.registry (producer a).steps).filterMap fun d => d.check.toOption
    some (bytesOf (dataFileText s.caller records))
  | _, _ => none

/-- The files that a sequence of calls writes, one for each call that succeeds. -/
def history (s : Suite α) (w : Workspace) : List (String × α) → List (String × Bytes)
  | [] => []
  | (k, a) :: calls =>
    ((s.written? w k a).map (k, ·)).toList ++ s.history (s.generate w k a).2 calls

/-- The file that was written last for a target. -/
def latest (h : List (String × Bytes)) (k : String) : Option Bytes := h.reverse.lookup k

@[simp] theorem latest_nil (k : String) : latest [] k = none := rfl

theorem latest_concat (h : List (String × Bytes)) (k l : String) (content : Bytes) :
    latest (h ++ [(k, content)]) l = if l = k then some content else latest h l := by
  rw [latest, List.reverse_append, List.reverse_singleton, List.singleton_append, List.lookup_cons]
  by_cases e : l = k
  · simp [e]
  · rw [if_neg e, beq_false_of_ne e]
    rfl

theorem filterMap_check {ds : List Draft} {records : List Record}
    (h : List.Forall₂ (fun d r => d.check = .ok r) ds records) :
    (ds.filterMap fun d => d.check.toOption) = records := by
  induction h with
  | nil => rfl
  | cons checked _ ih =>
    rw [List.filterMap_cons, checked, ih]
    rfl

/-- The store after some files have been written, if it was `t₀` before. -/
structure Stored (s : Suite α) (t₀ : Tree) (h : List (String × Bytes)) (t : Tree) : Prop where
  home : t.home = t₀.home
  sound : t.Sound
  known : ∀ e ∈ h, s.Has e.1
  /-- A target has the file written last for it, or what it had before. -/
  file : ∀ k, s.Has k → t.lookup (t₀.place (s.fileName k)) =
    ((latest h k).map Node.file).or (t₀.lookup (t₀.place (s.fileName k)))
  /-- No target has had a directory in the place of its file. -/
  free : ∀ k, s.Has k → latest h k ≠ none →
    t₀.lookup (t₀.place (s.fileName k)) ≠ some .directory
  temporary : ∀ k, s.Has k → t.lookup (t₀.place (temporaryName (s.fileName k))) = none
  /-- The directory and those above it are there if they were there or a file has been written. -/
  directory : ∀ q, q <+: t₀.place s.directory →
    t.lookup q = if h = [] then t₀.lookup q else some .directory
  other : ∀ q, (∀ k, s.Has k → q ≠ t₀.place (s.fileName k) ∧
    q ≠ t₀.place (temporaryName (s.fileName k))) → ¬ q <+: t₀.place s.directory →
      t.lookup q = t₀.lookup q

variable {t₀ : Tree} {h : List (String × Bytes)} {content : Bytes}

/-- A directory in the place of a file stays there, and no other comes. -/
theorem Stored.directory_iff (stored : s.Stored t₀ h t) (has : s.Has k) :
    t.lookup (t₀.place (s.fileName k)) = some .directory ↔
      t₀.lookup (t₀.place (s.fileName k)) = some .directory := by
  rw [stored.file k has]
  cases last : latest h k with
  | none => rfl
  | some content => simp [stored.free k has (by simp [last])]

theorem Stored.wrote (stored : s.Stored t₀ h t) (plain : s.Plain) (has : s.Has k)
    (wrote : s.Wrote t k content t') : s.Stored t₀ (h ++ [(k, content)]) t' := by
  -- no call moves the home, so all places are those of the first tree
  have place := fun text => place_congr stored.home text
  have slash := plain.name
  have file := wrote.file
  have temporary := wrote.temporary
  have directory := wrote.directory
  have other := wrote.other
  have free := wrote.free
  simp only [place] at file temporary directory other free
  refine ⟨wrote.home.trans stored.home, wrote.sound, ?_, ?_, ?_, ?_, ?_, ?_⟩
  · intro e mem
    rcases List.mem_append.mp mem with mem | mem
    · exact stored.known e mem
    · rwa [List.mem_singleton.mp mem]
  · intro l hl
    rw [latest_concat]
    by_cases e : l = k
    · subst e
      rw [if_pos rfl, file]
      rfl
    · rw [if_neg e, other _ ?_ ?_ ?_, stored.file l hl]
      · exact fun same => e (place_fileName_inj (slash l hl) (slash k has) same)
      · exact place_fileName_ne_temporary (slash l hl) (slash k has)
      · exact fun above => not_prefix_directory above (place_fileName s (slash l hl) t₀)
  · intro l hl ne
    rw [latest_concat] at ne
    by_cases e : l = k
    · subst e
      rwa [Ne, ← stored.directory_iff has]
    · rw [if_neg e] at ne
      exact stored.free l hl ne
  · intro l hl
    by_cases e : l = k
    · rw [e, temporary]
    · rw [other _ ?_ ?_ ?_, stored.temporary l hl]
      · exact (place_fileName_ne_temporary (slash k has) (slash l hl)).symm
      · exact fun same => e (place_temporary_inj (slash l hl) (slash k has) same)
      · exact fun above => not_prefix_directory above (place_temporary s (slash l hl) t₀)
  · intro q above
    rw [directory q above, if_neg (by simp)]
  · intro q apart off
    obtain ⟨ne, ne'⟩ := apart k has
    rw [other q ne ne' off, stored.other q apart off]

/-- What a call does to a store, and what it writes. -/
theorem Stored.call_cases (stored : s.Stored t₀ h w.tree) (plain : s.Plain)
    (unrefused : s.Unrefused w k a) :
    ((∃ f, (s.generate w k a).1 = .error f) ∧ s.written? w k a = none ∧
        (s.generate w k a).2.tree = w.tree) ∨
      ∃ producer records, s.table.lookup k = some producer ∧
        (∀ f, .fail f ∉ (producer a).steps) ∧
        List.Forall₂ (fun d r => d.check = .ok r) (yielded w.registry (producer a).steps) records ∧
        (s.generate w k a).1 = .ok records.length ∧
        s.written? w k a = some (bytesOf (dataFileText s.caller records)) ∧
        s.Wrote w.tree k (bytesOf (dataFileText s.caller records)) (s.generate w k a).2.tree := by
  have absent (has : s.Has k) :
      w.tree.lookup (w.tree.place (temporaryName (s.fileName k))) = none := by
    rw [place_congr stored.home, stored.temporary k has]
  rcases generate_spec plain stored.sound absent unrefused with
    ⟨⟨f, failed⟩, same⟩ | ⟨producer, records, has, going, complete, ok, wrote⟩
  · refine .inl ⟨⟨f, failed⟩, ?_, same⟩
    unfold written?
    rw [failed]
    cases s.table.lookup k <;> rfl
  · refine .inr ⟨producer, records, has, going, complete, ok, ?_, wrote⟩
    unfold written?
    rw [has, ok]
    simp only [filterMap_check complete]

/-- A call that fails leaves the store as it was, and one that succeeds adds its file. -/
theorem Stored.generate (stored : s.Stored t₀ h w.tree) (plain : s.Plain)
    (unrefused : s.Unrefused w k a) :
    s.Stored t₀ (h ++ ((s.written? w k a).map (k, ·)).toList) (s.generate w k a).2.tree := by
  rcases stored.call_cases plain unrefused with
    ⟨-, nothing, same⟩ | ⟨producer, records, has, -, -, -, written, wrote⟩
  · rw [nothing, same]
    simpa using stored
  · rw [written]
    exact stored.wrote plain ⟨producer, has⟩ wrote

/-- What holds of a store holds after any sequence of calls. -/
theorem Stored.generateAll {calls : List (String × α)} (stored : s.Stored t₀ h w.tree)
    (plain : s.Plain) (never : s.NeverRefused w calls) :
    s.Stored t₀ (h ++ s.history w calls) (s.generateAll w calls).tree := by
  -- the store of the first call is the one that the others start from
  induction calls generalizing w h with
  | nil => simpa [history, Suite.generateAll] using stored
  | cons call calls ih =>
    obtain ⟨k, a⟩ := call
    obtain ⟨unrefused, never⟩ := never
    have next := ih (stored.generate plain unrefused) never
    rw [List.append_assoc] at next
    exact next

theorem generateAll_append (s : Suite α) (w : Workspace) (calls more : List (String × α)) :
    s.generateAll w (calls ++ more) = s.generateAll (s.generateAll w calls) more := by
  induction calls generalizing w with
  | nil => rfl
  | cons call calls ih => exact ih _

theorem exists_latest (ne : h ≠ []) : ∃ e ∈ h, latest h e.1 ≠ none := by
  obtain ⟨init, ⟨k, content⟩, rfl⟩ := (List.eq_nil_or_concat h).resolve_left ne
  rw [List.concat_eq_append]
  exact ⟨(k, content), by simp, by simp [latest_concat]⟩

/-- Something has been written if there is a last file for some target. -/
theorem Stored.nil_iff (stored : s.Stored t₀ h t) :
    h = [] ↔ ∀ k, s.Has k → latest h k = none := by
  constructor
  · rintro rfl k -
    rfl
  · intro none
    by_contra ne
    obtain ⟨e, mem, last⟩ := exists_latest ne
    exact last (none e.1 (stored.known e mem))

/-- A store is determined by what it was before and the last file of each target. -/
theorem Stored.agree {h' : List (String × Bytes)} (stored : s.Stored t₀ h t)
    (stored' : s.Stored t₀ h' t') (same : ∀ k, s.Has k → latest h k = latest h' k) (q : Path) :
    t.lookup q = t'.lookup q := by
  -- a path leads to the directory, or to a file of a target, or is none of the suite's
  by_cases above : q <+: t₀.place s.directory
  · have nil : h = [] ↔ h' = [] := by
      rw [stored.nil_iff, stored'.nil_iff]
      exact forall₂_congr fun k has => by rw [same k has]
    rw [stored.directory q above, stored'.directory q above]
    simp only [nil]
  · by_cases apart : ∀ k, s.Has k → q ≠ t₀.place (s.fileName k) ∧
        q ≠ t₀.place (temporaryName (s.fileName k))
    · rw [stored.other q apart above, stored'.other q apart above]
    · push Not at apart
      obtain ⟨k, has, place⟩ := apart
      by_cases file : q = t₀.place (s.fileName k)
      · rw [file, stored.file k has, stored'.file k has, same k has]
      · rw [place file, stored.temporary k has, stored'.temporary k has]

end Suite

end CaseGen
