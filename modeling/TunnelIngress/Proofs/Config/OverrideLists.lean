import TunnelIngress.Config.Environment
import TunnelIngress.Proofs.Text.NamedValues
import Mathlib.Data.List.Induction
import Mathlib.Data.List.Nodup

/-!
# Override lists

The secrets of single hosts are written as a list of `host=namespace/name`. An entry that is not blank has
to have a `=`, and the first one without is reported. What is left is a table in which the last entry of a
host counts. A table of legible hosts and secrets comes back from its entries in any order.
-/

namespace TunnelIngress

namespace Table

variable {κ α : Type} [DecidableEq κ] {entries : List (κ × α)} {key : κ} {value : α}

/-- The last entry of a key counts. -/
theorem get?_ofList (entries : List (κ × α)) (key : κ) :
    (ofList entries).get? key = (entries.findRev? (·.1 = key)).map (·.2) := by
  induction entries using List.reverseRecOn with
  | nil => rfl
  | append_singleton entries entry ih =>
    rw [ofList] at ih ⊢
    rw [List.foldl_append, List.foldl_cons, List.foldl_nil, get?_insert, ih, Text.findRev?_concat]
    by_cases same : entry.1 = key
    · simp [same]
    · simp [same, Ne.symm same]

theorem get?_ofList_eq_some_iff (distinct : (entries.map (·.1)).Nodup) :
    (ofList entries).get? key = some value ↔ (key, value) ∈ entries := by
  rw [get?_ofList, List.findRev?_eq_find?_reverse, Option.map_eq_some_iff]
  constructor
  · rintro ⟨entry, found, rfl⟩
    have same : entry.1 = key := by simpa using List.find?_some found
    exact same ▸ List.mem_reverse.1 (List.mem_of_find?_eq_some found)
  · intro mem
    have distinct' : (entries.reverse.map (·.1)).Nodup := by
      rw [List.map_reverse]
      exact List.nodup_reverse.2 distinct
    exact ⟨_, find?_of_mem distinct' (List.mem_reverse.2 mem), rfl⟩

end Table

namespace ControllerConfig

/-- The entries of an override list that are not blank. -/
def overrideEntries (raw : String) : List (List Char) :=
  (Text.entries raw).filter fun entry => Text.trimList entry ≠ []

/-- The list that writes an override for each host and secret. -/
def writeOverrides (overrides : List (String × String)) : String :=
  ",".intercalate (overrides.map fun entry => entry.1 ++ "=" ++ entry.2)

theorem overrideOfEntry_trim (entry : List Char) :
    overrideOfEntry (String.ofList (Text.trimList entry)) =
      if '=' ∈ entry then .ok (Text.nameOf entry, Text.valueOf entry)
      else .error (.invalidValue "ARGOT_SECRET_OVERRIDES" (String.ofList (Text.trimList entry))) := by
  have solid : Text.isBlank '=' = false := by decide
  rcases Text.cut?_cases (Text.trimList entry) with ⟨absent, uncut⟩ | ⟨mem, host, secret, cut, same, same'⟩
  · rw [Text.mem_trimList solid] at absent
    rw [overrideOfEntry, uncut, if_neg absent]
  · rw [Text.mem_trimList solid] at mem
    obtain ⟨name, value⟩ := Text.named_trimList mem
    rw [overrideOfEntry, cut, if_pos mem, ← name, ← value, ← same, ← same']

/-- The entries are taken one after the other, up to the first that has no `=`. -/
theorem mapM_overrideOfEntry (entries : List (List Char)) :
    (entries.map fun entry => String.ofList (Text.trimList entry)).mapM overrideOfEntry =
      match entries.find? (fun entry => '=' ∉ entry) with
      | some entry => .error (.invalidValue "ARGOT_SECRET_OVERRIDES" (String.ofList (Text.trimList entry)))
      | none => .ok (entries.map fun entry => (Text.nameOf entry, Text.valueOf entry)) := by
  induction entries with
  | nil => rfl
  | cons entry rest ih =>
    rw [List.map_cons, List.mapM_cons, overrideOfEntry_trim, ih, List.find?_cons]
    by_cases mem : '=' ∈ entry
    · rw [if_pos mem]
      cases rest.find? (fun entry => '=' ∉ entry) <;> simp [mem, bind, Except.bind, pure, Except.pure]
    · rw [if_neg mem]
      simp [mem, bind, Except.bind]

theorem readOverrides_eq (raw : String) : readOverrides raw =
    match (overrideEntries raw).find? (fun entry => '=' ∉ entry) with
    | some entry => .error (.invalidValue "ARGOT_SECRET_OVERRIDES" (String.ofList (Text.trimList entry)))
    | none => .ok (.ofList ((overrideEntries raw).map fun entry => (Text.nameOf entry, Text.valueOf entry))) := by
  have kept : ((Text.pieces ',' raw).map Text.trim).filter (!·.isEmpty) =
      (overrideEntries raw).map fun entry => String.ofList (Text.trimList entry) := by
    rw [Text.pieces_eq_entries, List.map_map, List.filter_map, overrideEntries]
    refine congr (congrArg _ (funext fun entry => ?_)) (List.filter_congr fun entry _ => ?_)
    · simp [Text.trim]
    · rw [Bool.eq_iff_iff]
      simp [Text.trim]
  simp only [readOverrides, kept, mapM_overrideOfEntry]
  cases (overrideEntries raw).find? (fun entry => '=' ∉ entry) <;> rfl

/-- The entries of a list that was written are those that were put in. -/
theorem overrideEntries_writeOverrides {overrides : List (String × String)}
    (legible : ∀ entry ∈ overrides, Text.Legible entry.1 entry.2) :
    overrideEntries (writeOverrides overrides) =
      overrides.map fun entry => (entry.1 ++ "=" ++ entry.2).toList := by
  have comma : ∀ part ∈ overrides.map (fun entry => entry.1 ++ "=" ++ entry.2), ',' ∉ part.toList :=
    List.forall_mem_map.2 fun entry mem => (legible entry mem).comma
  rw [overrideEntries, writeOverrides, Text.entries_intercalate comma, List.map_map]
  split
  · simp_all [Text.trimList]
  · refine List.filter_eq_self.2 (List.forall_mem_map.2 fun entry _ => decide_eq_true fun blank => ?_)
    have mem : '=' ∈ Text.trimList (entry.1 ++ "=" ++ entry.2).toList :=
      (Text.mem_trimList (by decide)).2 (by simp)
    rw [Function.comp_apply] at blank
    rw [blank] at mem
    exact List.not_mem_nil mem

/-- What was written is read as the table of its entries. -/
theorem readOverrides_writeOverrides {overrides : List (String × String)}
    (legible : ∀ entry ∈ overrides, Text.Legible entry.1 entry.2) :
    readOverrides (writeOverrides overrides) = .ok (.ofList overrides) := by
  have none_bad : (overrides.map fun entry => (entry.1 ++ "=" ++ entry.2).toList).find?
      (fun entry => '=' ∉ entry) = none := by
    rw [List.find?_eq_none]
    exact List.forall_mem_map.2 fun entry _ => by simp
  have back : (overrides.map fun entry => (entry.1 ++ "=" ++ entry.2).toList).map
      (fun entry => (Text.nameOf entry, Text.valueOf entry)) = overrides := by
    rw [List.map_map]
    refine (List.map_congr_left fun entry mem => ?_).trans (List.map_id overrides)
    exact Prod.ext (legible entry mem).nameOf (legible entry mem).valueOf
  rw [readOverrides_eq, overrideEntries_writeOverrides legible, none_bad, back]

/-- **What an override list is read as.** Reading fails exactly if an entry that is not blank has no `=`, and
the error has the first such entry in it. Otherwise a host has the secret of its last entry, and hosts without
an entry have none. A table of legible hosts and secrets comes back from its entries in any order. -/
theorem readOverrides_exact :
    (∀ raw,
      ((∃ error, readOverrides raw = .error error) ↔ ∃ entry ∈ overrideEntries raw, '=' ∉ entry) ∧
      (∀ error, readOverrides raw = .error error → ∃ entry,
        (overrideEntries raw).find? (fun entry => '=' ∉ entry) = some entry ∧
          error = .invalidValue "ARGOT_SECRET_OVERRIDES" (String.ofList (Text.trimList entry))) ∧
      ∀ table, readOverrides raw = .ok table → ∀ host, table.get? host =
        ((overrideEntries raw).findRev? fun entry => Text.nameOf entry = host).map Text.valueOf) ∧
    ∀ (overrides : Table String String) (order : List (String × String)),
      (∀ entry ∈ overrides.entries, Text.Legible entry.1 entry.2) → order.Perm overrides.entries →
        ∃ table, readOverrides (writeOverrides order) = .ok table ∧
          ∀ host, table.get? host = overrides.get? host := by
  refine ⟨fun raw => ?_, fun overrides order legible perm => ?_⟩
  · rw [readOverrides_eq]
    cases bad : (overrideEntries raw).find? (fun entry => '=' ∉ entry) with
    | some entry =>
      have absent : '=' ∉ entry := by simpa using List.find?_some bad
      refine ⟨⟨fun _ => ⟨entry, List.mem_of_find?_eq_some bad, absent⟩, fun _ => ⟨_, rfl⟩⟩, ?_, nofun⟩
      rintro _ ⟨⟩
      exact ⟨entry, rfl, rfl⟩
    | none =>
      have fine : ∀ entry ∈ overrideEntries raw, '=' ∈ entry := by simpa using bad
      refine ⟨⟨nofun, fun ⟨entry, mem, absent⟩ => absurd (fine entry mem) absent⟩, nofun, ?_⟩
      rintro _ ⟨⟩ host
      rw [Table.get?_ofList, List.findRev?_eq_find?_reverse, ← List.map_reverse, List.find?_map,
        List.findRev?_eq_find?_reverse, Option.map_map]
      rfl
  · have legible' : ∀ entry ∈ order, Text.Legible entry.1 entry.2 :=
      fun entry mem => legible entry (perm.subset mem)
    have distinct : (order.map (·.1)).Nodup := (perm.map _).nodup_iff.2 overrides.nodup
    refine ⟨.ofList order, readOverrides_writeOverrides legible', fun host => ?_⟩
    ext secret
    rw [Table.get?_ofList_eq_some_iff distinct, Table.get?_eq_some_iff, perm.mem_iff]

def shopOverrides : Table String String :=
  ⟨[("shop.example", "shop/tls"), ("", "a=b")], by decide⟩

/-- An entry without a `=` after a blank one, a host with two entries, and a table with the host that has no
name, written backwards. -/
theorem readOverrides_exact_shop :
    (readOverrides "a=x/1, , b ,c" = .error (.invalidValue "ARGOT_SECRET_OVERRIDES" "b") ∧
      ∃ entry, (overrideEntries "a=x/1, , b ,c").find? (fun entry => '=' ∉ entry) = some entry ∧
        "b" = String.ofList (Text.trimList entry)) ∧
    (readOverrides "a=x/1,b=y/2, a = z/3" = .ok ⟨[("a", "z/3"), ("b", "y/2")], by decide⟩ ∧
      ((overrideEntries "a=x/1,b=y/2, a = z/3").findRev? fun entry => Text.nameOf entry = "a").map
        Text.valueOf = some "z/3") ∧
    (∀ entry ∈ shopOverrides.entries, Text.Legible entry.1 entry.2) ∧
      shopOverrides.entries.reverse.Perm shopOverrides.entries ∧
      ∃ table, readOverrides "=a=b,shop.example=shop/tls" = .ok table ∧
        ∀ host, table.get? host = shopOverrides.get? host := by
  obtain ⟨lists, tables⟩ := readOverrides_exact
  have refused : readOverrides "a=x/1, , b ,c" = .error (.invalidValue "ARGOT_SECRET_OVERRIDES" "b") := by
    decide +kernel
  have read : readOverrides "a=x/1,b=y/2, a = z/3" = .ok ⟨[("a", "z/3"), ("b", "y/2")], by decide⟩ := by
    decide +kernel
  have legible : ∀ entry ∈ shopOverrides.entries, Text.Legible entry.1 entry.2 := by decide +kernel
  have perm : shopOverrides.entries.reverse.Perm shopOverrides.entries := List.reverse_perm _
  have written : writeOverrides shopOverrides.entries.reverse = "=a=b,shop.example=shop/tls" := by
    decide +kernel
  obtain ⟨entry, first, same⟩ := (lists _).2.1 _ refused
  have last := (lists _).2.2 _ read "a"
  have back := tables shopOverrides _ legible perm
  rw [written] at back
  exact ⟨⟨refused, entry, first, (ConfigError.invalidValue.inj same).2⟩, ⟨read, last.symm⟩, legible, perm,
    back⟩

end ControllerConfig

end TunnelIngress
