import Mathlib.Data.List.Basic
import Mathlib.Tactic.Common
import LevelSchema.Text.Blank

/-!
# Lines of a text

A text that is written line by line, each line with a line feed behind it, is read back as these
lines (`Text.lines_flatMap`), provided that no line has a line feed of its own.

**Rows.**  The rows of a text are its lines with the line feeds that end them, so that nothing of
the text is lost (`Text.flatten_rows`) and rows can be deleted from it.  What is written with a line
feed at its end has rows of its own, whatever line feeds are inside (`Text.rows_append_lineFeed`).
-/

namespace LevelSchema.Text

variable {l cs : List Char}

/-! ## Lines -/

/-- A line feed ends the first line, and the others follow. -/
lemma lines_append_lineFeed (hl : '\n' ∉ l) (cs : List Char) :
    lines (l ++ '\n' :: cs) = l :: lines cs := by
  induction l with
  | nil => rfl
  | cons c l ih =>
      rw [List.mem_cons, not_or] at hl
      rw [List.cons_append, lines, ih hl.2]
      exact Ne.symm hl.1

/-- Lines that are each ended by a line feed are read back. -/
lemma lines_flatMap {ls : List (List Char)} (h : ∀ l ∈ ls, '\n' ∉ l) :
    lines (ls.flatMap (· ++ ['\n'])) = ls := by
  induction ls with
  | nil => rfl
  | cons l ls ih =>
      obtain ⟨hl, hls⟩ := List.forall_mem_cons.mp h
      rw [List.flatMap_cons, List.append_assoc, List.singleton_append, lines_append_lineFeed hl,
        ih hls]

/-- No line has a line feed in it. -/
lemma not_mem_lines (cs : List Char) : ∀ l ∈ lines cs, '\n' ∉ l := by
  fun_induction lines cs with
  | case1 => simp
  | case2 cs ih => simpa using ih
  | case3 c cs hc hlines ih => simpa [eq_comm] using hc
  | case4 c cs hc l ls hlines ih =>
      rw [hlines, List.forall_mem_cons] at ih
      rw [List.forall_mem_cons, List.mem_cons, not_or]
      exact ⟨⟨Ne.symm hc, ih.1⟩, ih.2⟩

lemma mem_of_mem_trimEnd {c : Char} (h : c ∈ trimEnd cs) : c ∈ cs :=
  List.mem_reverse.mp ((List.dropWhile_suffix _).subset (List.mem_reverse.mp h))

/-! ## Rows -/

/-- The lines of a text, each with the line feed that ends it. -/
def rows : List Char → List (List Char)
  | [] => []
  | '\n' :: cs => ['\n'] :: rows cs
  | c :: cs =>
      match rows cs with
      | [] => [[c]]
      | r :: rs => (c :: r) :: rs

/-- The rows of a text make up the text. -/
lemma flatten_rows (cs : List Char) : (rows cs).flatten = cs := by
  fun_induction rows cs with
  | case1 => rfl
  | case2 cs ih => rw [List.flatten_cons, ih]; rfl
  | case3 c cs hc hrows ih =>
      rw [hrows] at ih
      rw [← ih]
      rfl
  | case4 c cs hc r rs hrows ih =>
      rw [hrows, List.flatten_cons] at ih
      rw [List.flatten_cons, List.cons_append, ih]

lemma rows_cons_of_ne {c : Char} (hc : c ≠ '\n') {r : List Char} {rs : List (List Char)}
    (h : rows cs = r :: rs) : rows (c :: cs) = (c :: r) :: rs := by
  rw [rows, h]
  exact hc

/-- Up to a line feed, the rows of a text do not depend on what follows. -/
lemma rows_append_lineFeed (cs ds : List Char) :
    rows (cs ++ '\n' :: ds) = rows (cs ++ ['\n']) ++ rows ds := by
  induction cs with
  | nil => rfl
  | cons c cs ih =>
      by_cases hc : c = '\n'
      · rw [hc, List.cons_append, List.cons_append, rows, rows, ih, List.cons_append]
      · cases hrows : rows (cs ++ ['\n']) with
        | nil =>
            have hnil := congrArg List.flatten hrows
            rw [flatten_rows] at hnil
            simp at hnil
        | cons r rs =>
            rw [hrows, List.cons_append] at ih
            rw [List.cons_append, List.cons_append, rows_cons_of_ne hc hrows, rows_cons_of_ne hc ih,
              List.cons_append]

lemma rows_of_not_mem (h : '\n' ∉ cs) : rows (cs ++ ['\n']) = [cs ++ ['\n']] := by
  induction cs with
  | nil => rfl
  | cons c cs ih =>
      rw [List.mem_cons, not_or] at h
      exact rows_cons_of_ne (Ne.symm h.1) (ih h.2)

/-- Whether the first characters of a row that are no spaces are three slashes. -/
def isDocRow (row : List Char) : Bool :=
  "///".toList.isPrefixOf (row.dropWhile (· == ' '))

/-- Characters without the rows of documentation. -/
def dropDocRows (cs : List Char) : List Char :=
  ((rows cs).filter fun row => !isDocRow row).flatten

/-- A text without its rows of documentation. -/
def withoutDocRows (text : String) : String :=
  String.ofList (dropDocRows text.toList)

/-- Rows are dropped one by one, so a text may be cut at any line feed. -/
lemma dropDocRows_append_lineFeed (cs ds : List Char) :
    dropDocRows (cs ++ '\n' :: ds) = dropDocRows (cs ++ ['\n']) ++ dropDocRows ds := by
  simp only [dropDocRows, rows_append_lineFeed cs ds, List.filter_append, List.flatten_append]

/-- A line that starts with three slashes is dropped. -/
lemma dropDocRows_of_isDocRow (h : '\n' ∉ cs) (hdoc : isDocRow (cs ++ ['\n']) = true) :
    dropDocRows (cs ++ ['\n']) = [] := by
  simp [dropDocRows, rows_of_not_mem h, hdoc]

end LevelSchema.Text
