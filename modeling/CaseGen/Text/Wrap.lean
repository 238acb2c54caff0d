import CaseGen.Text.Blank
import CaseGen.Text.Order

/-! # Wrapping text

    A paragraph is cut into lines that fit a width, at blank characters
    where it can be.  A word that does not fit has a line of its own.  The
    line breaks of the paragraph are kept, and empty lines with them.  A
    paragraph that is indented by hand is left alone.

    * `takeLine`  — the longest start of a text that fits and ends at a break
    * `wrapLines` — the lines of a paragraph
    * `wrap`      — the paragraph with its lines broken -/

namespace CaseGen.Text

/-- A character at which a line may be broken: a blank, or the space of no width. -/
def IsBreak (c : Char) : Prop := IsBlank c ∨ c = '\u200b'

instance (c : Char) : Decidable (IsBreak c) :=
  inferInstanceAs (Decidable (IsBlank c ∨ c = '\u200b'))

/-- The longest start of at most `room` units that lies on one line and stands before a
    break or the end, with that break, and what follows it. -/
def takeLine : (room : Nat) → List Char → Option (List Char × List Char)
  | _, [] => none
  | room, c :: rest =>
    let size := (charUnits c).length
    if IsLineEnd c ∨ room < size then none
    else
      match takeLine (room - size) rest with
      | some (line, left) => some (c :: line, left)
      | none =>
        match rest with
        | [] => some ([c], [])
        | b :: left => if IsBreak b then some ([c, b], left) else none

theorem length_lt_of_takeLine {room : Nat} {cs line left : List Char}
    (h : takeLine room cs = some (line, left)) : left.length < cs.length := by
  induction cs generalizing room line left with
  | nil => simp [takeLine] at h
  | cons c rest ih =>
    unfold takeLine at h
    simp only at h
    split at h
    · contradiction
    · split at h
      next line' left' h' =>
        have := ih h'
        simp only [Option.some.injEq, Prod.mk.injEq] at h
        simp only [← h.2, List.length_cons]; omega
      next =>
        split at h
        · simp only [Option.some.injEq, Prod.mk.injEq] at h
          simp [← h.2]
        · split at h
          · simp only [Option.some.injEq, Prod.mk.injEq] at h
            simp only [← h.2, List.length_cons]; omega
          · contradiction

/-- The lines of a text.  A line end that opens the rest makes an empty line; a word
    that is too long makes a line; any other break that opens the rest is passed over. -/
def wrapLines (room : Nat) (cs : List Char) : List (List Char) :=
  match cs with
  | [] => []
  | c :: rest =>
    if c = '\n' then [] :: wrapLines room rest
    else
      match _h : takeLine room (c :: rest) with
      | some (line, left) => trimEnd line :: wrapLines room left
      | none =>
        if IsBreak c then wrapLines room rest
        else
          let word := c :: rest.takeWhile fun d => ¬ IsBreak d
          let behind := rest.dropWhile fun d => ¬ IsBreak d
          trimEnd (word ++ behind.take 1) :: wrapLines room (behind.drop 1)
termination_by cs.length
decreasing_by
  · simp
  · exact length_lt_of_takeLine (by assumption)
  · simp
  · have := (List.dropWhile_suffix (fun d => decide (¬ IsBreak d)) (l := rest)).length_le
    simp only [List.length_drop, List.length_cons]
    omega

/-- The text has a line that starts with a blank other than a line end proper. -/
def indentedByHand : List Char → Bool
  | [] => false
  | [_] => false
  | c :: d :: rest =>
    (c = '\n' && d ≠ '\n' && d ≠ '\r' && d ≠ '\u2028' && d ≠ '\u2029' && decide (IsBlank d)) ||
      indentedByHand (d :: rest)

/-- The text with its first two-character line break made a line feed. -/
def joinFirstBreak : List Char → List Char
  | [] => []
  | '\r' :: '\n' :: rest => '\n' :: rest
  | c :: rest => c :: joinFirstBreak rest

/-- A text in lines of at most `room` units, apart from long words; lines after the
    first are indented. -/
def wrap (room indent : Nat) (cs : List Char) : List Char :=
  List.intercalate ('\n' :: List.replicate indent ' ') (wrapLines room (joinFirstBreak cs))

end CaseGen.Text
