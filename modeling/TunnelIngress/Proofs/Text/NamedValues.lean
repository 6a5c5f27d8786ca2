import TunnelIngress.Proofs.Text.Pieces
import TunnelIngress.Text.Blank
import Mathlib.Data.List.DropRight

/-!
# Lists of named values

Tags and override secrets are written as a list of entries `name=value` with commas between them. Blanks
do not count at the ends of a name or a value, and only the first `=` of an entry divides it, so a value
may have more of them. Trimming is settled by what it leaves: a text without a blank at either end that
differs from the one trimmed by blanks alone.
-/

namespace TunnelIngress.Text

/-- Neither end of a text is a blank. -/
def Trimmed (cs : List Char) : Prop :=
  (∀ c ∈ cs.head?, isBlank c = false) ∧ ∀ c ∈ cs.getLast?, isBlank c = false

instance (cs : List Char) : Decidable (Trimmed cs) :=
  decidable_of_iff (cs.head?.any isBlank = false ∧ cs.getLast?.any isBlank = false)
    (and_congr (Option.any_eq_false ..) (Option.any_eq_false ..))

variable {cs front middle back before after : List Char} {c : Char}

/-! ### Trimming -/

theorem solid_dropWhile (first : (cs.dropWhile isBlank).head? = some c) : isBlank c = false := by
  have left := List.head?_dropWhile_not isBlank cs
  rwa [first] at left

theorem solid_rdropWhile (last : (cs.rdropWhile isBlank).getLast? = some c) : isBlank c = false := by
  rw [List.rdropWhile, List.getLast?_reverse] at last
  exact solid_dropWhile last

theorem trimmed_trimList (cs : List Char) : Trimmed (trimList cs) := by
  refine ⟨fun c first => ?_, fun c last => solid_rdropWhile last⟩
  obtain ⟨dropped, whole⟩ : trimList cs <+: cs.dropWhile isBlank := List.rdropWhile_prefix isBlank _
  have first' : (cs.dropWhile isBlank).head? = some c := by
    rw [← whole, List.head?_append, Option.mem_def.1 first, Option.some_or]
  exact solid_dropWhile first'

theorem dropWhile_front (blank : ∀ c ∈ front, isBlank c = true)
    (solid : ∀ c ∈ cs.head?, isBlank c = false) : (front ++ cs).dropWhile isBlank = cs := by
  rw [List.dropWhile_append_of_pos blank]
  cases cs with
  | nil => rfl
  | cons c rest => simp [solid c rfl]

theorem rdropWhile_back (blank : ∀ c ∈ back, isBlank c = true)
    (solid : ∀ c ∈ cs.getLast?, isBlank c = false) : (cs ++ back).rdropWhile isBlank = cs := by
  rw [List.rdropWhile, List.reverse_append, dropWhile_front (by simpa using blank) (by simpa using solid),
    List.reverse_reverse]

/-- What is left of a text when the blanks at its ends are gone. -/
theorem trimList_eq_iff : trimList cs = middle ↔ Trimmed middle ∧
    ∃ front back, cs = front ++ middle ++ back ∧
      (∀ c ∈ front, isBlank c = true) ∧ ∀ c ∈ back, isBlank c = true := by
  constructor
  · rintro rfl
    refine ⟨trimmed_trimList cs, cs.takeWhile isBlank, (cs.dropWhile isBlank).rtakeWhile isBlank, ?_,
      fun c => List.mem_takeWhile_imp, fun c => List.mem_rtakeWhile_imp⟩
    calc cs = cs.takeWhile isBlank ++ cs.dropWhile isBlank := List.takeWhile_append_dropWhile.symm
      _ = cs.takeWhile isBlank ++ (trimList cs ++ (cs.dropWhile isBlank).rtakeWhile isBlank) :=
        congrArg _ List.rdropWhile_append_rtakeWhile.symm
      _ = _ := (List.append_assoc ..).symm
  · rintro ⟨trimmed, front, back, rfl, blank, blank'⟩
    change ((front ++ middle ++ back).dropWhile isBlank).rdropWhile isBlank = middle
    rw [List.append_assoc]
    cases middle with
    | nil =>
      have nothing : (front ++ ([] ++ back)).dropWhile isBlank = [] :=
        List.dropWhile_eq_nil_iff.2 fun c mem => (List.mem_append.1 mem).elim (blank c) (blank' c)
      rw [nothing, List.rdropWhile_nil]
    | cons c rest =>
      rw [dropWhile_front blank (by simpa using trimmed.1), rdropWhile_back blank' trimmed.2]

theorem trimList_subset : trimList cs ⊆ cs :=
  fun _ mem => List.dropWhile_subset _ ((List.rdropWhile_prefix isBlank _).subset mem)

theorem trimList_eq_self_iff : trimList cs = cs ↔ Trimmed cs :=
  ⟨fun same => same ▸ trimmed_trimList cs,
    fun trimmed => trimList_eq_iff.2 ⟨trimmed, [], [], by simp⟩⟩

theorem mem_trimList (solid : isBlank c = false) : c ∈ trimList cs ↔ c ∈ cs := by
  refine ⟨fun mem => trimList_subset mem, fun mem => ?_⟩
  obtain ⟨_, front, back, whole, blank, blank'⟩ := trimList_eq_iff.1 (Eq.refl (trimList cs))
  have solid_in : ∀ blanks : List Char, (∀ c ∈ blanks, isBlank c = true) → c ∉ blanks :=
    fun blanks blank mem => by simp [blank c mem] at solid
  rw [whole, List.mem_append, List.mem_append] at mem
  simpa [solid_in front blank, solid_in back blank'] using mem

/-- Blanks at the ends of a text make no difference to what is left of it. -/
theorem trimList_between (blank : ∀ c ∈ front, isBlank c = true) (cs : List Char)
    (blank' : ∀ c ∈ back, isBlank c = true) : trimList (front ++ cs ++ back) = trimList cs := by
  obtain ⟨trimmed, front', back', whole, blanks, blanks'⟩ := trimList_eq_iff.1 (Eq.refl (trimList cs))
  refine trimList_eq_iff.2 ⟨trimmed, front ++ front', back' ++ back, ?_, ?_, ?_⟩
  · conv_lhs => rw [whole]
    simp only [List.append_assoc]
  · exact fun c mem => (List.mem_append.1 mem).elim (blank c) (blanks c)
  · exact fun c mem => (List.mem_append.1 mem).elim (blanks' c) (blank' c)

/-- A text is trimmed around a character that is no blank by trimming what stands before it at the front
and what stands after it at the back. -/
theorem trimList_around (solid : isBlank c = false) (before after : List Char) :
    ∃ before' after', trimList (before ++ c :: after) = before' ++ c :: after' ∧ before' <:+ before ∧
      trimList before' = trimList before ∧ trimList after' = trimList after := by
  have blank : ∀ b ∈ before.takeWhile isBlank, isBlank b = true := fun b => List.mem_takeWhile_imp
  have blank' : ∀ b ∈ after.rtakeWhile isBlank, isBlank b = true := fun b => List.mem_rtakeWhile_imp
  have front : before.takeWhile isBlank ++ before.dropWhile isBlank = before :=
    List.takeWhile_append_dropWhile
  have back : after.rdropWhile isBlank ++ after.rtakeWhile isBlank = after :=
    List.rdropWhile_append_rtakeWhile
  refine ⟨before.dropWhile isBlank, after.rdropWhile isBlank, ?_, List.dropWhile_suffix _, ?_, ?_⟩
  · refine trimList_eq_iff.2 ⟨⟨?_, ?_⟩, before.takeWhile isBlank, after.rtakeWhile isBlank, ?_, blank, blank'⟩
    · intro d first
      rw [Option.mem_def, List.head?_append, Option.or_eq_some_iff] at first
      rcases first with first | ⟨_, here⟩
      · exact solid_dropWhile first
      · cases here
        exact solid
    · intro d last
      rw [List.getLast?_append, List.getLast?_cons, Option.some_or, Option.mem_some_iff] at last
      cases ends : (after.rdropWhile isBlank).getLast? with
      | none =>
        obtain rfl : c = d := by simpa [ends] using last
        exact solid
      | some e =>
        obtain rfl : e = d := by simpa [ends] using last
        exact solid_rdropWhile ends
    · conv_lhs => rw [← front, ← back]
      simp only [List.append_assoc, List.cons_append]
  · have same := trimList_between blank (before.dropWhile isBlank) (List.forall_mem_nil _)
    rwa [front, List.append_nil, eq_comm] at same
  · have same := trimList_between (List.forall_mem_nil _) (after.rdropWhile isBlank) blank'
    rwa [List.nil_append, back, eq_comm] at same

/-! ### Entries -/

/-- The texts between the commas of a list. -/
def entries (input : String) : List (List Char) :=
  input.toList.splitOn ','

/-- What stands before the first `=` of an entry, trimmed. -/
def nameOf (entry : List Char) : String :=
  String.ofList (trimList (entry.takeWhile (· != '=')))

/-- What stands after the first `=` of an entry, trimmed. -/
def valueOf (entry : List Char) : String :=
  String.ofList (trimList ((entry.dropWhile (· != '=')).drop 1))

variable {entry : List Char}

theorem pieces_eq_entries (input : String) : pieces ',' input = (entries input).map String.ofList := by
  rw [pieces, piecesList_eq_splitOn, entries]

/-- What stands before and after the first `=`, as the entry is cut there. -/
theorem takeWhile_append_equals (absent : '=' ∉ before) (after : List Char) :
    (before ++ '=' :: after).takeWhile (· != '=') = before ∧
      (before ++ '=' :: after).dropWhile (· != '=') = '=' :: after := by
  have others : ∀ c ∈ before, (c != '=') = true := fun c mem =>
    bne_iff_ne.2 fun same => absent (same ▸ mem)
  rw [List.takeWhile_append_of_pos others, List.dropWhile_append_of_pos others]
  simp

theorem nameOf_append (absent : '=' ∉ before) :
    nameOf (before ++ '=' :: after) = String.ofList (trimList before) := by
  rw [nameOf, (takeWhile_append_equals absent after).1]

theorem valueOf_append (absent : '=' ∉ before) :
    valueOf (before ++ '=' :: after) = String.ofList (trimList after) := by
  rw [valueOf, (takeWhile_append_equals absent after).2, List.drop_one, List.tail_cons]

/-- An entry is cut at its first `=`, if it has one. -/
theorem cut?_cases (entry : List Char) :
    '=' ∉ entry ∧ cut? '=' (String.ofList entry) = none ∨
      '=' ∈ entry ∧ ∃ name value, cut? '=' (String.ofList entry) = some (name, value) ∧
        trim name = nameOf entry ∧ trim value = valueOf entry := by
  by_cases mem : '=' ∈ entry
  · obtain ⟨before, after, rfl, absent⟩ := List.eq_append_cons_of_mem mem
    refine .inr ⟨mem, String.ofList before, String.ofList after, ?_, ?_, ?_⟩
    · simp [cut?, cutList?_append absent]
    · rw [nameOf_append absent, trim, String.toList_ofList]
    · rw [valueOf_append absent, trim, String.toList_ofList]
  · exact .inl ⟨mem, by simp [cut?, cutList?_eq_none_iff.2 mem]⟩

/-- Blanks around an entry make no difference to its name and its value. -/
theorem named_trimList (mem : '=' ∈ entry) :
    nameOf (trimList entry) = nameOf entry ∧ valueOf (trimList entry) = valueOf entry := by
  obtain ⟨before, after, rfl, absent⟩ := List.eq_append_cons_of_mem mem
  obtain ⟨before', after', trimmed, kept, same, same'⟩ :=
    trimList_around (c := '=') (by decide) before after
  have absent' : '=' ∉ before' := fun mem => absent (kept.subset mem)
  rw [trimmed, nameOf_append absent, nameOf_append absent', valueOf_append absent,
    valueOf_append absent', same, same']
  exact ⟨rfl, rfl⟩

theorem trimmed_nameOf (entry : List Char) : Trimmed (nameOf entry).toList := by
  rw [nameOf, String.toList_ofList]
  exact trimmed_trimList _

theorem trimmed_valueOf (entry : List Char) : Trimmed (valueOf entry).toList := by
  rw [valueOf, String.toList_ofList]
  exact trimmed_trimList _

theorem equals_notMem_nameOf (entry : List Char) : '=' ∉ (nameOf entry).toList := by
  intro mem
  rw [nameOf, String.toList_ofList] at mem
  simpa using List.mem_takeWhile_imp (trimList_subset mem)

/-- The last entry of a name is the one that counts. -/
theorem findRev?_concat {α : Type} (hit : α → Bool) (items : List α) (item : α) :
    (items ++ [item]).findRev? hit = if hit item then some item else items.findRev? hit := by
  rw [List.findRev?_eq_find?_reverse, List.findRev?_eq_find?_reverse, List.reverse_append,
    List.reverse_singleton, List.singleton_append, List.find?_cons]
  cases hit item <;> rfl

/-! ### Names and values that come back -/

/-- A name and a value that come back from an entry in a list: trimmed, without a comma, and with no `=`
in the name. -/
structure Legible (name value : String) : Prop where
  name_trimmed : Trimmed name.toList
  value_trimmed : Trimmed value.toList
  name_comma : ',' ∉ name.toList
  name_equals : '=' ∉ name.toList
  value_comma : ',' ∉ value.toList

instance (name value : String) : Decidable (Legible name value) :=
  decidable_of_iff
    (Trimmed name.toList ∧ Trimmed value.toList ∧ ',' ∉ name.toList ∧ '=' ∉ name.toList ∧
      ',' ∉ value.toList)
    ⟨fun ⟨nameTrimmed, valueTrimmed, comma, equals, comma'⟩ =>
      ⟨nameTrimmed, valueTrimmed, comma, equals, comma'⟩,
    fun legible => ⟨legible.name_trimmed, legible.value_trimmed, legible.name_comma,
      legible.name_equals, legible.value_comma⟩⟩

theorem legible_of_mem_entries {input : String} (mem : entry ∈ entries input) :
    Legible (nameOf entry) (valueOf entry) := by
  have comma : ',' ∉ entry := notMem_of_mem_splitOn mem
  refine ⟨trimmed_nameOf entry, trimmed_valueOf entry, fun mem => comma ?_, equals_notMem_nameOf entry,
    fun mem => comma ?_⟩
  · rw [nameOf, String.toList_ofList] at mem
    exact List.takeWhile_subset _ (trimList_subset mem)
  · rw [valueOf, String.toList_ofList] at mem
    exact List.dropWhile_subset _ (List.drop_subset _ _ (trimList_subset mem))

namespace Legible

variable {name value : String}

theorem nameOf (legible : Legible name value) : Text.nameOf (name ++ "=" ++ value).toList = name := by
  have chars : (name ++ "=" ++ value).toList = name.toList ++ '=' :: value.toList := by simp
  rw [chars, nameOf_append legible.name_equals, trimList_eq_self_iff.2 legible.name_trimmed,
    String.ofList_toList]

theorem valueOf (legible : Legible name value) : Text.valueOf (name ++ "=" ++ value).toList = value := by
  have chars : (name ++ "=" ++ value).toList = name.toList ++ '=' :: value.toList := by simp
  rw [chars, valueOf_append legible.name_equals, trimList_eq_self_iff.2 legible.value_trimmed,
    String.ofList_toList]

theorem comma (legible : Legible name value) : ',' ∉ (name ++ "=" ++ value).toList := by
  simp [legible.name_comma, legible.value_comma]

end Legible

/-- A list is split into the entries that it was joined from; of nothing there is a blank one. -/
theorem entries_intercalate {parts : List String} (absent : ∀ part ∈ parts, ',' ∉ part.toList) :
    entries (",".intercalate parts) = if parts = [] then [[]] else parts.map String.toList :=
  splitOn_intercalate absent

end TunnelIngress.Text
