import TunnelIngress.Proofs.Text.NamedValues
import TunnelIngress.Tunnel.Tag
import Mathlib.Data.List.Induction

/-!
# Lists of tags

Tags are collected one entry after the other, with a limit on the number of names. What comes of it is said
without the order of the work: the names stand in the order of their first entries, each with the value of
its last entry, and the limit cuts this list off. So the limit decides how many tags there are and nothing
else about them. The tags of a list are legible, so they come back from the list of their texts.
-/

namespace TunnelIngress.Tag

/-- The tags that a list writes, one for each entry with a `=`, a name before it and a value after it. -/
def written (input : String) : List Tag :=
  ((Text.entries input).filter fun entry =>
    '=' ∈ entry ∧ Text.nameOf entry ≠ "" ∧ Text.valueOf entry ≠ "").map fun entry =>
      ⟨Text.nameOf entry, Text.valueOf entry⟩

/-- The names of tags in the order in which they first occur, each with the last tag of that name. -/
def latest (tags : List Tag) : List Tag :=
  (tags.map (·.name)).eraseDups.filterMap fun name => tags.findRev? (·.name = name)

variable {tags : List Tag} {tag : Tag} {name : String} {limit : Nat}

/-! ### Entries -/

theorem ofPiece?_ofList (entry : List Char) : ofPiece? (String.ofList entry) =
    if '=' ∈ entry ∧ Text.nameOf entry ≠ "" ∧ Text.valueOf entry ≠ "" then
      some ⟨Text.nameOf entry, Text.valueOf entry⟩
    else none := by
  rcases Text.cut?_cases entry with ⟨absent, uncut⟩ | ⟨mem, name, value, cut, same, same'⟩
  · simp [ofPiece?, uncut, absent]
  · by_cases named : Text.nameOf entry = "" <;> by_cases valued : Text.valueOf entry = "" <;>
      simp [ofPiece?, cut, same, same', mem, named, valued]

theorem filterMap_ofPiece? (input : String) :
    (Text.pieces ',' input).filterMap ofPiece? = written input := by
  rw [written, ← List.filterMap_eq_map, List.filterMap_filter, Text.pieces_eq_entries,
    List.filterMap_map]
  refine List.filterMap_congr fun entry _ => ?_
  simpa using ofPiece?_ofList entry

/-! ### One tag more -/

theorem findRev?_of_mem (mem : name ∈ tags.map (·.name)) :
    ∃ tag, tags.findRev? (·.name = name) = some tag ∧ tag.name = name := by
  rw [List.findRev?_eq_find?_reverse]
  obtain ⟨last, found⟩ : ∃ last, tags.reverse.find? (·.name = name) = some last := by
    rw [← Option.isSome_iff_exists, List.find?_isSome]
    simpa using mem
  exact ⟨last, found, by simpa using List.find?_some found⟩

theorem eraseDups_concat (names : List String) (name : String) : (names ++ [name]).eraseDups =
    if name ∈ names then names.eraseDups else names.eraseDups ++ [name] := by
  rw [List.eraseDups_append, List.removeAll]
  by_cases known : name ∈ names <;> simp [List.eraseDups_cons, known]

theorem names_latest (tags : List Tag) : (latest tags).map (·.name) = (tags.map (·.name)).eraseDups := by
  rw [latest, List.map_filterMap]
  conv_rhs => rw [← List.filterMap_some (l := (tags.map (·.name)).eraseDups)]
  refine List.filterMap_congr fun name mem => ?_
  obtain ⟨tag, found, same⟩ := findRev?_of_mem (List.mem_eraseDups.1 mem)
  rw [found, Option.map_some, same]

/-- A known name keeps its place and takes the new value. -/
theorem latest_append_known (known : tag.name ∈ tags.map (·.name)) : latest (tags ++ [tag]) =
    (latest tags).map fun other => if other.name == tag.name then tag else other := by
  have names : ((tags ++ [tag]).map (·.name)).eraseDups = (tags.map (·.name)).eraseDups := by
    rw [List.map_append, List.map_singleton, eraseDups_concat, if_pos known]
  rw [latest, names, latest, List.map_filterMap]
  refine List.filterMap_congr fun name mem => ?_
  obtain ⟨last, found, rfl⟩ := findRev?_of_mem (List.mem_eraseDups.1 mem)
  rw [Text.findRev?_concat, found, Option.map_some]
  by_cases same : tag.name = last.name <;> simp [same, Ne.symm]

/-- A new name comes last. -/
theorem latest_append_new (new : tag.name ∉ tags.map (·.name)) :
    latest (tags ++ [tag]) = latest tags ++ [tag] := by
  have names : ((tags ++ [tag]).map (·.name)).eraseDups = (tags.map (·.name)).eraseDups ++ [tag.name] := by
    rw [List.map_append, List.map_singleton, eraseDups_concat, if_neg new]
  rw [latest, names, List.filterMap_append, latest]
  congr 1
  · refine List.filterMap_congr fun name mem => ?_
    have apart : tag.name ≠ name := fun same => new (same ▸ List.mem_eraseDups.1 mem)
    rw [Text.findRev?_concat, decide_eq_false apart, if_neg Bool.false_ne_true]
  · simp

/-- What the limit leaves of the tags so far decides what it leaves of them and one more. A known name beyond
the limit is refused as a new one is. -/
theorem collect_latest (limit : Nat) (tags : List Tag) (tag : Tag) :
    collect limit ((latest tags).take limit) tag = (latest (tags ++ [tag])).take limit := by
  have listed : (latest tags).any (·.name == tag.name) = true ↔ tag.name ∈ tags.map (·.name) := by
    rw [← List.mem_eraseDups, ← names_latest]
    simp
  rw [collect]
  by_cases known : tag.name ∈ tags.map (·.name)
  · rw [latest_append_known known, ← List.map_take]
    split
    · rfl
    · rename_i refused
      have full : ¬ ((latest tags).take limit).length < limit := fun room => by
        rw [List.length_take] at room
        rw [List.take_of_length_le (by omega)] at refused
        exact refused (listed.2 known)
      have others : ∀ other ∈ (latest tags).take limit, (other.name == tag.name) = false := by
        simpa using refused
      rw [if_neg full]
      refine (List.map_id _).symm.trans (List.map_congr_left fun other mem => ?_)
      rw [others other mem, if_neg Bool.false_ne_true, id]
  · have refused : ((latest tags).take limit).any (·.name == tag.name) = false := by
      rw [← listed, Bool.not_eq_true, List.any_eq_false] at known
      exact List.any_eq_false.2 fun other mem => known other (List.mem_of_mem_take mem)
    rw [latest_append_new known, refused, List.length_take]
    split
    · contradiction
    split
    · rename_i room
      rw [List.take_of_length_le (by omega), List.take_of_length_le (by simp; omega)]
    · rename_i full
      rw [List.take_append_of_le_length (by omega)]

theorem foldl_collect (limit : Nat) (tags : List Tag) :
    tags.foldl (collect limit) [] = (latest tags).take limit := by
  induction tags using List.reverseRecOn with
  | nil => simp [latest]
  | append_singleton tags tag ih =>
    rw [List.foldl_append, ih, List.foldl_cons, List.foldl_nil, collect_latest]

theorem readList_eq_latest (input : String) (limit : Nat) :
    readList input limit = (latest (written input)).take limit := by
  rw [readList, filterMap_ofPiece?, foldl_collect]

/-- **What a list of tags is read as.** The names of the entries that write a tag, in the order in which
they first occur, each with the value of its last entry, as far as the limit goes. A lower limit takes a
shorter part of the same list. -/
theorem readList_eq_take (input : String) (limit : Nat) :
    readList input limit = (latest (written input)).take limit ∧
      ∀ lower ≤ limit, readList input lower = (readList input limit).take lower := by
  refine ⟨readList_eq_latest input limit, fun lower le => ?_⟩
  rw [readList_eq_latest, readList_eq_latest, List.take_take, Nat.min_eq_left le]

/-- A later value of an accepted name counts also where the limit is reached, and a refused name stays out. -/
theorem readList_eq_take_two :
    1 ≤ 2 ∧ readList "env=prod, =x,team= a=b ,zone=eu,env=dev,zone=us" 2 = [⟨"env", "dev"⟩, ⟨"team", "a=b"⟩] ∧
      readList "env=prod, =x,team= a=b ,zone=eu,env=dev,zone=us" 1 = [⟨"env", "dev"⟩] := by
  have both : readList "env=prod, =x,team= a=b ,zone=eu,env=dev,zone=us" 2 =
      [⟨"env", "dev"⟩, ⟨"team", "a=b"⟩] := by decide +kernel
  refine ⟨by decide, both, ?_⟩
  rw [(readList_eq_take _ 2).2 1 (by decide), both]
  rfl

/-! ### Tags that come back -/

/-- A tag that comes back from its text: it has a name and a value, and an entry keeps them. -/
structure Legible (tag : Tag) : Prop extends Text.Legible tag.name tag.value where
  named : tag.name ≠ ""
  valued : tag.value ≠ ""

theorem mem_of_mem_latest (mem : tag ∈ latest tags) : tag ∈ tags := by
  obtain ⟨name, _, found⟩ := List.mem_filterMap.1 mem
  rw [List.findRev?_eq_find?_reverse] at found
  exact List.mem_reverse.1 (List.mem_of_find?_eq_some found)

theorem legible_of_mem_written {input : String} (mem : tag ∈ written input) : tag.Legible := by
  obtain ⟨entry, kept, rfl⟩ := List.mem_map.1 mem
  obtain ⟨listed, writes⟩ := List.mem_filter.1 kept
  obtain ⟨_, named, valued⟩ := of_decide_eq_true writes
  exact ⟨Text.legible_of_mem_entries listed, named, valued⟩

theorem nodup_eraseDups (names : List String) : names.eraseDups.Nodup := by
  induction names using List.reverseRecOn with
  | nil => simp
  | append_singleton names name ih =>
    rw [eraseDups_concat]
    split
    · exact ih
    · rename_i new
      have apart : ∀ other ∈ names.eraseDups, other ≠ name := fun other mem same =>
        new (same ▸ List.mem_eraseDups.1 mem)
      exact List.nodup_append.2 ⟨ih, by simp, by simpa using apart⟩

/-- Tags with distinct names are already the latest. -/
theorem latest_of_nodup (distinct : (tags.map (·.name)).Nodup) : latest tags = tags := by
  induction tags using List.reverseRecOn with
  | nil => simp [latest]
  | append_singleton tags tag ih =>
    rw [List.map_append, List.map_singleton, List.nodup_append] at distinct
    have new : tag.name ∉ tags.map (·.name) := fun mem => distinct.2.2 _ mem _ (by simp) rfl
    rw [latest_append_new new, ih distinct.1]

/-- A legible tag is what its text writes. -/
theorem Legible.of_text (legible : tag.Legible) :
    (⟨Text.nameOf tag.text.toList, Text.valueOf tag.text.toList⟩ : Tag) = tag := by
  rw [text, legible.nameOf, legible.valueOf]

/-- The texts of legible tags, joined, write these tags. -/
theorem written_intercalate (legible : ∀ tag ∈ tags, tag.Legible) :
    written (",".intercalate (tags.map text)) = tags := by
  have comma : ∀ part ∈ tags.map text, ',' ∉ part.toList :=
    List.forall_mem_map.2 fun tag mem => (legible tag mem).comma
  rw [written, Text.entries_intercalate comma, List.map_map]
  split
  · simp_all
  · rw [List.filter_eq_self.2, List.map_map]
    · refine (List.map_congr_left fun tag mem => ?_).trans (List.map_id tags)
      exact (legible tag mem).of_text
    · refine List.forall_mem_map.2 fun tag mem => decide_eq_true ⟨by simp [text], ?_⟩
      obtain ⟨name, value⟩ := Tag.mk.inj (legible tag mem).of_text
      rw [Function.comp_apply, name, value]
      exact ⟨(legible tag mem).named, (legible tag mem).valued⟩

/-- Lists of legible tags with the same texts are the same. -/
theorem texts_inj {a b : List Tag} (legible : ∀ tag ∈ a, tag.Legible) (legible' : ∀ tag ∈ b, tag.Legible)
    (same : a.map text = b.map text) : a = b := by
  rw [← written_intercalate legible, same, written_intercalate legible']

theorem legible_of_mem_readList {input : String} (mem : tag ∈ readList input limit) : tag.Legible := by
  rw [readList_eq_latest] at mem
  exact legible_of_mem_written (mem_of_mem_latest (List.mem_of_mem_take mem))

theorem nodup_names_readList (input : String) (limit : Nat) :
    ((readList input limit).map (·.name)).Nodup := by
  rw [readList_eq_latest, List.map_take, names_latest]
  exact (nodup_eraseDups _).sublist (List.take_sublist ..)

/-- **Tags come back from their texts.** The texts of the tags that a list is read as, joined with commas,
are read as these tags under any limit that has room for them, so the texts determine the tags. -/
theorem readList_texts (input : String) (limit : Nat) :
    (∀ again, (readList input limit).length ≤ again →
      readList (",".intercalate ((readList input limit).map text)) again = readList input limit) ∧
      ∀ input' limit', (readList input limit).map text = (readList input' limit').map text →
        readList input limit = readList input' limit' := by
  have legible (input : String) (limit : Nat) : ∀ tag ∈ readList input limit, tag.Legible :=
    fun tag mem => legible_of_mem_readList mem
  constructor
  · intro again room
    rw [readList_eq_latest, written_intercalate (legible input limit),
      latest_of_nodup (nodup_names_readList input limit), List.take_of_length_le room]
  · exact fun input' limit' => texts_inj (legible input limit) (legible input' limit')

/-- Blanks and dropped entries are gone from the texts, and a value keeps its own `=`. -/
theorem readList_texts_messy :
    (readList " team, env =prod,=x,team= a=b ,env=dev" 7).length ≤ 3 ∧
      readList "env=dev,team=a=b" 3 = readList " team, env =prod,=x,team= a=b ,env=dev" 7 ∧
      (readList "env=dev,team=a=b" 3).map text =
        (readList " team, env =prod,=x,team= a=b ,env=dev" 7).map text ∧
      readList "env=dev,team=a=b" 3 = [⟨"env", "dev"⟩, ⟨"team", "a=b"⟩] := by
  have read : readList " team, env =prod,=x,team= a=b ,env=dev" 7 =
      [⟨"env", "dev"⟩, ⟨"team", "a=b"⟩] := by decide +kernel
  obtain ⟨back, determined⟩ := readList_texts " team, env =prod,=x,team= a=b ,env=dev" 7
  have joined : ",".intercalate ((readList " team, env =prod,=x,team= a=b ,env=dev" 7).map text) =
      "env=dev,team=a=b" := by rw [read]; rfl
  have room : (readList " team, env =prod,=x,team= a=b ,env=dev" 7).length ≤ 3 := by rw [read]; decide
  have again := back 3 room
  rw [joined] at again
  have texts : (readList "env=dev,team=a=b" 3).map text =
      (readList " team, env =prod,=x,team= a=b ,env=dev" 7).map text := by rw [again]
  exact ⟨room, again, texts, (determined _ _ texts.symm).symm.trans read⟩

end TunnelIngress.Tag
