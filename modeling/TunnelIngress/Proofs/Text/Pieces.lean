import TunnelIngress.Text.Pieces

/-!
# Pieces of a text

A text is cut in two at its first separator, or into all its pieces. The pieces are those of
`List.splitOn`: none of them has the separator in it, and they come back from the text that joins them.
-/

namespace TunnelIngress

namespace Text

theorem cutList?_append {sep : Char} {before : List Char} (absent : sep ∉ before) (after : List Char) :
    cutList? sep (before ++ sep :: after) = some (before, after) := by
  induction before with
  | nil => simp [cutList?]
  | cons c rest ih =>
    rw [List.mem_cons, not_or] at absent
    rw [List.cons_append, cutList?, if_neg (Ne.symm absent.1), ih absent.2]
    rfl

theorem cutList?_eq_none_iff {sep : Char} {cs : List Char} : cutList? sep cs = none ↔ sep ∉ cs := by
  induction cs with
  | nil => simp [cutList?]
  | cons c rest ih =>
    rw [cutList?, List.mem_cons, not_or, ← ih]
    split
    · simp_all
    · rename_i apart
      simp [Ne.symm apart]

theorem piecesList_single {sep : Char} {cs : List Char} (absent : sep ∉ cs) :
    piecesList sep cs = [cs] := by
  induction cs with
  | nil => rfl
  | cons c rest ih =>
    rw [List.mem_cons, not_or] at absent
    rw [piecesList, if_neg (Ne.symm absent.1), ih absent.2]

theorem piecesList_append {sep : Char} {before : List Char} (absent : sep ∉ before)
    (after : List Char) : piecesList sep (before ++ sep :: after) = before :: piecesList sep after := by
  induction before with
  | nil => simp [piecesList]
  | cons c rest ih =>
    rw [List.mem_cons, not_or] at absent
    rw [List.cons_append, piecesList, if_neg (Ne.symm absent.1), ih absent.2]

theorem of_cutList? {sep : Char} {cs before after : List Char}
    (cut : cutList? sep cs = some (before, after)) : cs = before ++ sep :: after := by
  induction cs generalizing before with
  | nil => cases cut
  | cons c rest ih =>
    rw [cutList?] at cut
    split at cut
    · rename_i here
      cases cut
      rw [here, List.nil_append]
    · obtain ⟨⟨more, after'⟩, found, same⟩ := Option.map_eq_some_iff.1 cut
      cases same
      rw [ih found, List.cons_append]

/-- The first piece, and how the others come about. -/
theorem piecesList_cases (sep : Char) (cs : List Char) :
    piecesList sep cs = [cs] ∧ sep ∉ cs ∨
      ∃ before after, cs = before ++ sep :: after ∧ sep ∉ before ∧
        piecesList sep cs = before :: piecesList sep after := by
  by_cases mem : sep ∈ cs
  · obtain ⟨before, after, rfl, absent⟩ := List.eq_append_cons_of_mem mem
    exact .inr ⟨before, after, rfl, absent, piecesList_append absent after⟩
  · exact .inl ⟨piecesList_single mem, mem⟩

variable {sep : Char} {s piece first second : String}

theorem pieces_eq_one_iff : pieces sep s = [piece] ↔ s = piece ∧ sep ∉ piece.toList := by
  constructor
  · intro one
    rw [pieces] at one
    rcases piecesList_cases sep s.toList with ⟨single, absent⟩ | ⟨before, after, _, _, more⟩
    · obtain rfl : s = piece := by simpa [single] using one
      exact ⟨rfl, absent⟩
    · -- There is another piece after the first separator.
      rcases piecesList_cases sep after with ⟨last, _⟩ | ⟨_, _, _, _, others⟩
      · simp [more, last] at one
      · simp [more, others] at one
  · rintro ⟨rfl, absent⟩
    simp [pieces, piecesList_single absent]

theorem pieces_eq_two_iff : pieces sep s = [first, second] ↔
    s.toList = first.toList ++ sep :: second.toList ∧ sep ∉ first.toList ∧ sep ∉ second.toList := by
  constructor
  · intro two
    rcases piecesList_cases sep s.toList with ⟨single, _⟩ | ⟨before, after, cut, absent, more⟩
    · simp [pieces, single] at two
    · have rest : pieces sep (String.ofList after) = [second] := by
        simpa [pieces, more] using congrArg List.tail two
      obtain ⟨rfl, absent'⟩ := pieces_eq_one_iff.1 rest
      obtain rfl : String.ofList before = first := by
        simpa [pieces, more] using congrArg List.head? two
      simpa [cut, absent] using absent'
  · rintro ⟨cut, absent, absent'⟩
    simp [pieces, cut, piecesList_append absent, piecesList_single absent']

/-! ### Splitting and joining -/

theorem piecesList_eq_splitOn (sep : Char) (cs : List Char) : piecesList sep cs = cs.splitOn sep := by
  induction cs with
  | nil => rfl
  | cons c rest ih =>
    rw [piecesList, ih, List.splitOn_cons_eq_if_modifyHead]
    obtain ⟨first, others, split⟩ := List.exists_cons_of_ne_nil (List.splitOn_ne_nil sep rest)
    by_cases here : c = sep <;> simp [here, split]

theorem notMem_of_mem_splitOn {cs piece : List Char} (mem : piece ∈ cs.splitOn sep) : sep ∉ piece := by
  induction cs generalizing piece with
  | nil => simp_all
  | cons c rest ih =>
    rw [List.splitOn_cons_eq_if_modifyHead] at mem
    obtain ⟨first, others, split⟩ := List.exists_cons_of_ne_nil (List.splitOn_ne_nil sep rest)
    rw [split] at mem ih
    split at mem
    · rcases List.mem_cons.1 mem with rfl | mem
      · exact List.not_mem_nil
      · exact ih mem
    · rename_i apart
      rcases List.mem_cons.1 mem with rfl | mem
      · have rest := ih List.mem_cons_self
        simpa [rest] using fun same : sep = c => apart (by simp [same])
      · exact ih (List.mem_cons_of_mem _ mem)

/-- What is joined with separators is split into what was joined; of nothing there is a blank piece. -/
theorem splitOn_intercalate {parts : List String} (absent : ∀ part ∈ parts, sep ∉ part.toList) :
    ((String.singleton sep).intercalate parts).toList.splitOn sep =
      if parts = [] then [[]] else parts.map String.toList := by
  rw [String.toList_intercalate, String.toList_singleton]
  split
  · simp_all
  · rename_i some_part
    exact List.splitOn_intercalate sep (by simpa using absent) (by simpa using some_part)

end Text

end TunnelIngress
