import TunnelIngress.Proofs.Text.Pieces
import TunnelIngress.Resource.Key

/-!
# Keys as texts

A work key is queued as a text and read back by the worker that takes it. The namespace is left out of a
text when it is empty, so a separator in a name can be read back as the end of a namespace, and a text may
have a separator that its key does not call for. What is read is settled by two facts: which keys a text
can be read as, and which text the key is written as. A key with a namespace and a name, neither of which
has a separator in it, comes back as it was, so no two such keys have one text.
-/

namespace TunnelIngress

/-! ### Keys of objects -/

/-- A key that some text is read as: it has a name, and no separator within its parts. -/
structure ResourceKey.Legible (key : ResourceKey) : Prop where
  named : key.name ≠ ""
  ns : '/' ∉ key.ns.toList
  name : '/' ∉ key.name.toList

/-- A text that may stand in a key: not empty and without a separator. -/
def PlainText (s : String) : Prop :=
  s ≠ "" ∧ '/' ∉ s.toList

instance (s : String) : Decidable (PlainText s) :=
  inferInstanceAs (Decidable (_ ∧ _))

/-- A key whose texts are plain. -/
structure ResourceKey.Plain (key : ResourceKey) : Prop where
  ns : PlainText key.ns
  name : PlainText key.name

namespace ResourceKey

variable {key : ResourceKey} {s : String}

theorem Plain.hasNamespace (plain : key.Plain) : key.hasNamespace = true := by
  simpa [ResourceKey.hasNamespace] using plain.ns.1

theorem Plain.legible (plain : key.Plain) : key.Legible :=
  ⟨plain.name.1, plain.ns.2, plain.name.2⟩

/-- A text is read as a key if it has both parts of it, or the name alone when the namespace is empty. -/
theorem read_eq_ok_iff : read s = .ok key ↔
    key.Legible ∧ (s = key.ns ++ "/" ++ key.name ∨ key.ns = "" ∧ s = key.name) := by
  have both (ns name : String) :
      s = ns ++ "/" ++ name ↔ s.toList = ns.toList ++ '/' :: name.toList := by
    rw [← String.toList_inj]
    simp
  constructor
  · intro found
    unfold read at found
    split at found
    · rename_i name one
      obtain ⟨rfl, absent⟩ := Text.pieces_eq_one_iff.1 one
      split at found
      · cases found
      · rename_i named
        cases found
        exact ⟨⟨by simpa using named, by simp, absent⟩, .inr ⟨rfl, rfl⟩⟩
    · rename_i ns name two
      obtain ⟨cut, absent, absent'⟩ := Text.pieces_eq_two_iff.1 two
      split at found
      · cases found
      · rename_i named
        cases found
        exact ⟨⟨by simpa using named, absent, absent'⟩, .inl ((both ns name).2 cut)⟩
    · cases found
  · rintro ⟨⟨named, ns, name⟩, written | ⟨unplaced, rfl⟩⟩
    · rw [read, Text.pieces_eq_two_iff.2 ⟨(both _ _).1 written, ns, name⟩]
      simp [named]
    · rw [read, Text.pieces_eq_one_iff.2 ⟨rfl, name⟩]
      obtain ⟨_, _⟩ := key
      cases unplaced
      simpa using named

theorem read_text_eq_ok_iff : read key.text = .ok key ↔ key.Legible := by
  rw [read_eq_ok_iff, and_iff_left_iff_imp]
  intro _
  unfold text
  split
  · rename_i unplaced
    exact .inr ⟨by simpa using unplaced, rfl⟩
  · exact .inl rfl

theorem read_text (plain : key.Plain) : read key.text = .ok key :=
  read_text_eq_ok_iff.2 plain.legible

/-- The text that is read is the text of the key, unless it begins with a separator. -/
theorem text_eq_iff_of_read (found : read s = .ok key) :
    key.text = s ↔ s.toList.head? ≠ some '/' := by
  obtain ⟨legible, rfl | ⟨unplaced, rfl⟩⟩ := read_eq_ok_iff.1 found
  · by_cases unplaced : key.ns = ""
    · -- The separator is there for a namespace that is not.
      have longer : key.name ≠ "/" ++ key.name := fun same => by
        simpa using congrArg String.length same
      simp [text, unplaced, longer]
    · obtain ⟨first, rest, chars⟩ : ∃ first rest, key.ns.toList = first :: rest :=
        List.exists_cons_of_ne_nil (by simpa using unplaced)
      have absent := legible.ns
      rw [chars, List.mem_cons, not_or] at absent
      simpa [text, unplaced, chars] using Ne.symm absent.1
  · have first : key.name.toList.head? ≠ some '/' := fun first =>
      legible.name (List.mem_of_head? first)
    simp [text, unplaced, first]

/-- A text that reads as a key with a namespace is the text of that key. -/
theorem of_read (found : read s = .ok key) (placed : key.hasNamespace = true) :
    key.Plain ∧ key.text = s := by
  have some_ns : key.ns ≠ "" := by simpa [hasNamespace] using placed
  obtain ⟨legible, rfl | ⟨unplaced, _⟩⟩ := read_eq_ok_iff.1 found
  · exact ⟨⟨⟨some_ns, legible.ns⟩, legible.named, legible.name⟩, by simp [text, some_ns]⟩
  · exact absurd unplaced some_ns

end ResourceKey

/-! ### Keys of work -/

theorem Kind.read_name (kind : Kind) : Kind.read kind.name = .ok kind := by
  cases kind <;> rfl

theorem Kind.name_of_read {s : String} {kind : Kind} (found : Kind.read s = .ok kind) :
    kind.name = s := by
  unfold Kind.read Kind.ofName? at found
  split at found
  · rename_i hit
    cases found
    simpa using List.find?_some hit
  · cases found

theorem Kind.separator_notMem_name (kind : Kind) : '/' ∉ kind.name.toList := by
  cases kind <;> decide

namespace WorkKey

variable {work : WorkKey} {s : String}

/-- A text is read as a work key if it has the kind, a separator and a text of the key. -/
theorem read_eq_ok_iff : read s = .ok work ↔
    ∃ rest, s = work.kind.name ++ "/" ++ rest ∧ ResourceKey.read rest = .ok work.key := by
  constructor
  · intro found
    unfold read at found
    split at found
    · cases found
    · rename_i kind rest cut
      obtain ⟨⟨before, after⟩, parts, same⟩ := Option.map_eq_some_iff.1 cut
      cases same
      cases kinds : Kind.read (String.ofList before) with
      | error error => simp [kinds, bind, Except.bind] at found
      | ok kind =>
        cases keys : ResourceKey.read (String.ofList after) with
        | error error => simp [kinds, keys, bind, Except.bind] at found
        | ok key =>
          simp only [kinds, keys, bind, Except.bind, pure, Except.pure, Except.ok.injEq] at found
          subst found
          refine ⟨String.ofList after, ?_, keys⟩
          rw [← String.toList_inj, Kind.name_of_read kinds]
          simpa using Text.of_cutList? parts
  · rintro ⟨rest, rfl, keys⟩
    have cut : Text.cut? '/' (work.kind.name ++ "/" ++ rest) = some (work.kind.name, rest) := by
      have chars : (work.kind.name ++ "/" ++ rest).toList =
          work.kind.name.toList ++ '/' :: rest.toList := by simp
      rw [Text.cut?, chars, Text.cutList?_append work.kind.separator_notMem_name]
      simp
    rw [read, cut]
    simp [Kind.read_name, keys]
    rfl

/-- **A queued key comes back as it was.** -/
theorem read_text (plain : work.key.Plain) : read work.text = .ok work :=
  read_eq_ok_iff.2 ⟨_, rfl, ResourceKey.read_text plain⟩

/-- A work key that is read and has a namespace is written as it was read. -/
theorem of_read (found : read s = .ok work) (placed : work.key.hasNamespace = true) :
    work.key.Plain ∧ work.text = s := by
  obtain ⟨rest, rfl, keys⟩ := read_eq_ok_iff.1 found
  obtain ⟨plain, written⟩ := ResourceKey.of_read keys placed
  exact ⟨plain, by rw [text, written]⟩

theorem text_inj {a b : WorkKey} (plain : a.key.Plain) (plain' : b.key.Plain)
    (same : a.text = b.text) : a = b := by
  have back := read_text plain
  rw [same, read_text plain'] at back
  exact (Except.ok.inj back).symm

/-- **Which work keys survive the queue.** A work key comes back from its text exactly if it has a name
and no separator within the namespace or the name. What is read from any text comes back from the text
that it is written as, and this is the text that was read, unless the part after the kind begins with a
separator. -/
theorem survives_iff :
    (∀ work : WorkKey, read work.text = .ok work ↔
      work.key.name ≠ "" ∧ '/' ∉ work.key.ns.toList ∧ '/' ∉ work.key.name.toList) ∧
    ∀ (s : String) (work : WorkKey), read s = .ok work →
      read work.text = .ok work ∧
        ∃ rest, s = work.kind.name ++ "/" ++ rest ∧ (work.text = s ↔ rest.toList.head? ≠ some '/') := by
  have back (work : WorkKey) : read work.text = .ok work ↔ work.key.Legible := by
    rw [read_eq_ok_iff, ← ResourceKey.read_text_eq_ok_iff]
    constructor
    · rintro ⟨rest, written, keys⟩
      obtain rfl : work.key.text = rest := by
        rw [text, ← String.toList_inj] at written
        rw [← String.toList_inj]
        simpa using written
      exact keys
    · exact fun keys => ⟨_, rfl, keys⟩
  refine ⟨fun work => (back work).trans ?_, fun s work found => ?_⟩
  · exact ⟨fun legible => ⟨legible.named, legible.ns, legible.name⟩,
      fun ⟨named, ns, name⟩ => ⟨named, ns, name⟩⟩
  · obtain ⟨rest, rfl, keys⟩ := read_eq_ok_iff.1 found
    refine ⟨(back work).2 (ResourceKey.read_eq_ok_iff.1 keys).1, rest, rfl, ?_⟩
    rw [← ResourceKey.text_eq_iff_of_read keys, text, ← String.toList_inj, ← String.toList_inj]
    simp

/-- A separator in place of a namespace is lost, and the key that is left comes back. -/
theorem survives_iff_unplaced :
    read "ingress//site" = .ok ⟨.ingress, ⟨"", "site"⟩⟩ ∧
      read "ingress/site" = .ok ⟨.ingress, ⟨"", "site"⟩⟩ ∧
      ∃ rest, "ingress//site" = "ingress/" ++ rest ∧ rest.toList.head? = some '/' := by
  have found : read "ingress//site" = .ok ⟨.ingress, ⟨"", "site"⟩⟩ := rfl
  obtain ⟨again, rest, written, same⟩ := survives_iff.2 "ingress//site" _ found
  refine ⟨found, again, rest, written, ?_⟩
  have lost : WorkKey.text ⟨.ingress, ⟨"", "site"⟩⟩ ≠ "ingress//site" := by decide
  simpa [lost] using same

end WorkKey

end TunnelIngress
