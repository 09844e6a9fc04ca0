import Mathlib.Data.List.Induction
import UpgradeSafety.Diagnostic.Locate

/-! Positions in a text. The position of an index is a line of the text, cut at its line ends, and a
place in that line (`marks_positionOf`), and the positions at both ends of characters without a line
end show these characters in one line (`shows_positionOf`). Only line ends count, so that texts with
the same line ends have the same positions (`positionOf_congr`). -/
namespace UpgradeSafety.Source

/-- How many characters a text has up to a place in one of its lines, with the ends of the lines before
it counted. -/
def upTo (earlier : List (List Char)) (column : Nat) : Nat :=
  (earlier.flatMap fun line => line ++ ['\n']).length + column

/-- A position stands for an index: lines count from one, columns from zero. -/
def Marks (cs : List Char) (p : Position) (k : Nat) : Prop :=
  ∃ earlier line later, cs.splitOn '\n' = earlier ++ line :: later ∧ p.line = earlier.length + 1 ∧
    p.column ≤ line.length ∧ upTo earlier p.column = k

/-- A range shows characters of one line. -/
def Shows (cs : List Char) (r : Range) (t : List Char) : Prop :=
  r.stop.line = r.start.line ∧ ∃ n line, r.start.line = n + 1 ∧ (cs.splitOn '\n')[n]? = some line ∧
    r.stop.column ≤ line.length ∧ line.extract r.start.column r.stop.column = t

section Lines
variable {cs cs' t : List Char}

/-- The position after a text. -/
def endPosition (before : List Char) : Position :=
  ⟨before.count '\n' + 1, (before.reverse.takeWhile (· != '\n')).length⟩

theorem positionOf_append (before rest : List Char) :
    positionOf (before ++ rest) before.length = endPosition before := by
  rw [positionOf, List.take_left, endPosition]

theorem endPosition_line (before : List Char) :
    endPosition (before ++ ['\n']) = ⟨(endPosition before).line + 1, 0⟩ := by
  simp [endPosition]

/-- Characters without a line end stay in the line in which they start. -/
theorem endPosition_append (before : List Char) (ht : '\n' ∉ t) : endPosition (before ++ t) =
    ⟨(endPosition before).line, (endPosition before).column + t.length⟩ := by
  have hrun : ∀ c ∈ t.reverse, (c != '\n') = true := fun c hc =>
    bne_iff_ne.mpr fun h => ht (h ▸ List.mem_reverse.mp hc)
  rw [endPosition, List.count_append, List.count_eq_zero_of_not_mem ht, List.reverse_append,
    List.takeWhile_append_of_pos hrun, List.length_append, List.length_reverse, Nat.add_comm t.length]
  rfl

theorem splitOn_cons (c : Char) {rest tail : List Char} {later : List (List Char)}
    (h : rest.splitOn '\n' = tail :: later) : (c :: rest).splitOn '\n' =
      if c = '\n' then [] :: tail :: later else (c :: tail) :: later := by
  rw [List.splitOn_cons_eq_if_modifyHead, h]
  simp

theorem splitOn_append {rest tail : List Char} {later : List (List Char)} (ht : '\n' ∉ t)
    (h : rest.splitOn '\n' = tail :: later) : (t ++ rest).splitOn '\n' = (t ++ tail) :: later := by
  induction t with
  | nil => exact h
  | cons c t ih =>
    obtain ⟨hc, ht⟩ := not_or.mp (mt List.mem_cons.mpr ht)
    exact (splitOn_cons c (ih ht)).trans (if_neg (Ne.symm hc))

/-- A text comes to whole lines and the start of one, which goes on in what comes after the text. -/
theorem exists_lines (before : List Char) : ∃ earlier lead,
    endPosition before = ⟨earlier.length + 1, lead.length⟩ ∧
    upTo earlier lead.length = before.length ∧
    ∀ rest tail later, rest.splitOn '\n' = tail :: later →
      (before ++ rest).splitOn '\n' = earlier ++ (lead ++ tail) :: later := by
  induction before using List.reverseRecOn with
  | nil => exact ⟨[], [], rfl, rfl, fun _ _ _ h => h⟩
  | append_singleton before c ih =>
    obtain ⟨earlier, lead, hposition, hlength, hsplit⟩ := ih
    rw [upTo] at hlength
    by_cases hc : c = '\n'
    · subst hc
      refine ⟨earlier ++ [lead], [], ?_, ?_, fun rest tail later h => ?_⟩
      · rw [endPosition_line, hposition, List.length_append]
        rfl
      · rw [upTo, List.flatMap_append, List.flatMap_singleton, List.length_append, List.length_append,
          List.length_append, List.length_singleton, List.length_nil]
        omega
      · rw [List.append_assoc, List.singleton_append, hsplit _ _ _ (splitOn_cons '\n' h)]
        simp
    · have hline : '\n' ∉ [c] := mt List.mem_singleton.mp (Ne.symm hc)
      refine ⟨earlier, lead ++ [c], ?_, ?_, fun rest tail later h => ?_⟩
      · rw [endPosition_append before hline, hposition, List.length_append]
      · rw [upTo, List.length_append, List.length_append]
        omega
      · rw [List.append_assoc, hsplit _ _ _ (splitOn_append hline h), List.append_assoc]

theorem marks_positionOf {k : Nat} (h : k ≤ cs.length) : Marks cs (positionOf cs k) k := by
  obtain ⟨before, rest, rfl, rfl⟩ : ∃ before rest, cs = before ++ rest ∧ before.length = k :=
    ⟨cs.take k, cs.drop k, (List.take_append_drop k cs).symm, List.length_take_of_le h⟩
  obtain ⟨earlier, lead, hposition, hlength, hsplit⟩ := exists_lines before
  obtain ⟨tail, later, htail⟩ := List.exists_cons_of_ne_nil (List.splitOn_ne_nil '\n' rest)
  rw [positionOf_append, hposition]
  exact ⟨earlier, lead ++ tail, later, hsplit _ _ _ htail, rfl, by simp, hlength⟩

theorem shows_positionOf (before after : List Char) (ht : '\n' ∉ t) :
    Shows (before ++ t ++ after) ⟨positionOf (before ++ t ++ after) before.length,
      positionOf (before ++ t ++ after) (before.length + t.length)⟩ t := by
  obtain ⟨earlier, lead, hposition, -, hsplit⟩ := exists_lines before
  obtain ⟨tail, later, htail⟩ := List.exists_cons_of_ne_nil (List.splitOn_ne_nil '\n' after)
  have hstart : positionOf (before ++ t ++ after) before.length = ⟨earlier.length + 1, lead.length⟩ := by
    rw [List.append_assoc, positionOf_append, hposition]
  have hstop : positionOf (before ++ t ++ after) (before.length + t.length) =
      ⟨earlier.length + 1, lead.length + t.length⟩ := by
    rw [← List.length_append, positionOf_append, endPosition_append before ht, hposition]
  rw [hstart, hstop]
  refine ⟨rfl, earlier.length, lead ++ (t ++ tail), rfl, ?_, by simp, by simp⟩
  rw [List.append_assoc, hsplit _ _ _ (splitOn_append ht htail)]
  simp

/-- Positions depend on line ends alone. -/
theorem positionOf_congr (h : cs.map (· != '\n') = cs'.map (· != '\n')) (k : Nat) :
    positionOf cs k = positionOf cs' k := by
  have key (cs : List Char) : positionOf cs k =
      ⟨((cs.map (· != '\n')).take k).count false + 1,
        (((cs.map (· != '\n')).take k).reverse.takeWhile id).length⟩ := by
    rw [← List.map_take, ← List.map_reverse, List.takeWhile_map, List.length_map,
      List.count_eq_countP, List.countP_map, positionOf, List.count_eq_countP]
    congr 2
    refine List.countP_congr fun c _ => ?_
    simp
  rw [key, key, h]

end Lines

end UpgradeSafety.Source
