import TunnelIngress.Proofs.Tunnel.TagLists
import TunnelIngress.Tunnel.Launch

/-!
# The command line of a daemon

The command line has the flags that are always there, each with its value at a fixed place, and then those
that are set: a pool, the switch for chunked encoding and the tags. These are told apart by their flags, and
a value never stands where a flag is looked for, so values that look like flags do no harm. The tags of a
link are legible, so their texts determine them.
-/

namespace TunnelIngress.Launch

/-- What a link launches its daemon with. -/
inductive Made : Launch → Prop
  | link (settings : TunnelSettings) (rule : Rule) (certificate : List UInt8) (options : TunnelOptions)
      (clientId : String) :
      Made ((LinkSpec.new settings rule certificate options).launch settings clientId)

/-- Two launches agree on what a daemon is told by its command line, durations in whole milliseconds. -/
structure AgreesOn (a b : Launch) : Prop where
  hostname : a.hostname = b.hostname
  originUrl : a.originUrl = b.originUrl
  haConnections : a.haConnections = b.haConnections
  heartbeatInterval : a.heartbeatInterval.wholeMillis = b.heartbeatInterval.wholeMillis
  heartbeatCount : a.heartbeatCount = b.heartbeatCount
  compressionQuality : a.compressionQuality = b.compressionQuality
  retries : a.retries = b.retries
  gracePeriod : a.gracePeriod.wholeMillis = b.gracePeriod.wholeMillis
  metricsUpdateFreq : a.metricsUpdateFreq.wholeMillis = b.metricsUpdateFreq.wholeMillis
  lbPool : a.lbPool = b.lbPool
  noChunkedEncoding : a.noChunkedEncoding = b.noChunkedEncoding
  tags : a.tags = b.tags

variable {a b : Launch}

theorem Made.legible {launch : Launch} (made : launch.Made) : ∀ tag ∈ launch.tags, tag.Legible := by
  cases made with
  | link settings rule certificate options clientId =>
    exact fun tag mem => Tag.legible_of_mem_readList mem

/-! ### Numbers -/

-- The library has these two beyond what is imported here.
theorem repr_natural_inj {m n : Nat} : m.repr = n.repr ↔ m = n := by
  have reads (n : Nat) : Nat.ofDigitChars 10 n.repr.toList 0 = n := by
    rw [Nat.toList_repr, Nat.ofDigitChars_ten_toDigits]
  refine ⟨fun same => ?_, congrArg Nat.repr⟩
  rw [← reads m, same, reads]

theorem repr_integer_inj {m n : Int} : m.repr = n.repr ↔ m = n := by
  have unsigned (m n : Nat) : m.repr ≠ "-" ++ n.repr := by
    intro same
    have sign : '-' ∈ m.repr.toList := by simp [same]
    rw [Nat.toList_repr] at sign
    cases Nat.isDigit_of_mem_toDigits (by decide) (by decide) sign
  refine ⟨fun same => ?_, congrArg Int.repr⟩
  rw [Int.repr_eq_if, Int.repr_eq_if] at same
  split at same <;> split at same
  · have := repr_natural_inj.1 same
    omega
  · exact absurd same (unsigned _ _)
  · exact absurd same.symm (unsigned _ _)
  · have := repr_natural_inj.1 ((String.append_right_inj "-").1 same)
    omega

theorem millis_inj {d e : Duration} : millis d = millis e ↔ d.wholeMillis = e.wholeMillis := by
  rw [millis, millis, String.append_left_inj]
  exact repr_natural_inj

/-! ### Flags that are set -/

/-- Part of a command line: nothing, or a flag with what belongs to it. -/
inductive Part (flag : String) (size : Nat) : List String → Prop
  | unset : Part flag size []
  | set (values : List String) : values.length = size → Part flag size (flag :: values)

/-- A part of a command line ends where it should when what comes next does not begin with its flag. -/
theorem Part.append_inj {flag : String} {size : Nat} {first second rest rest' : List String}
    (part : Part flag size first) (part' : Part flag size second) (next : rest.head? ≠ some flag)
    (next' : rest'.head? ≠ some flag) (same : first ++ rest = second ++ rest') :
    first = second ∧ rest = rest' := by
  cases part with
  | unset =>
    cases part' with
    | unset => exact ⟨rfl, same⟩
    | set => exact absurd (congrArg List.head? same) next
  | set values size =>
    cases part' with
    | unset => exact absurd (congrArg List.head? same.symm) next'
    | set values' size' => exact List.append_inj same (by simp [size, size'])

def poolPart (launch : Launch) : List String :=
  if launch.lbPool.isEmpty then [] else ["--lb-pool", launch.lbPool]

def encodingPart (launch : Launch) : List String :=
  if launch.noChunkedEncoding then ["--no-chunked-encoding"] else []

def tagPart (launch : Launch) : List String :=
  launch.tags.flatMap fun tag => ["--tag", tag.text]

theorem part_pool (launch : Launch) : Part "--lb-pool" 1 launch.poolPart := by
  unfold poolPart
  split
  · exact .unset
  · exact .set _ rfl

theorem part_encoding (launch : Launch) : Part "--no-chunked-encoding" 0 launch.encodingPart := by
  unfold encodingPart
  split
  · exact .set _ rfl
  · exact .unset

theorem head?_tagPart (launch : Launch) :
    launch.tagPart.head? = none ∨ launch.tagPart.head? = some "--tag" := by
  unfold tagPart
  cases launch.tags <;> simp

theorem poolPart_inj (same : a.poolPart = b.poolPart) : a.lbPool = b.lbPool := by
  unfold poolPart at same
  split at same <;> split at same <;> simp_all

theorem encodingPart_inj (same : a.encodingPart = b.encodingPart) :
    a.noChunkedEncoding = b.noChunkedEncoding := by
  unfold encodingPart at same
  split at same <;> split at same <;> simp_all

theorem texts_of_tagPart (same : a.tagPart = b.tagPart) : a.tags.map Tag.text = b.tags.map Tag.text := by
  suffices general : ∀ tags tags' : List Tag,
      (tags.flatMap fun tag => ["--tag", tag.text]) = (tags'.flatMap fun tag => ["--tag", tag.text]) →
        tags.map Tag.text = tags'.map Tag.text from general _ _ same
  intro tags
  induction tags with
  | nil => rintro (_ | ⟨tag, rest⟩) same <;> simp_all
  | cons tag rest ih =>
    rintro (_ | ⟨tag', rest'⟩) same
    · simp at same
    · simp only [List.flatMap_cons, List.cons_append, List.nil_append, List.cons.injEq, true_and] at same
      rw [List.map_cons, List.map_cons, same.1, ih rest' same.2]

/-- Neither flag before the tags is one of a tag. -/
theorem parts_inj (same : a.poolPart ++ (a.encodingPart ++ a.tagPart) =
      b.poolPart ++ (b.encodingPart ++ b.tagPart)) :
    a.lbPool = b.lbPool ∧ a.noChunkedEncoding = b.noChunkedEncoding ∧
      a.tags.map Tag.text = b.tags.map Tag.text := by
  have no_encoding (launch : Launch) : launch.tagPart.head? ≠ some "--no-chunked-encoding" := by
    rcases head?_tagPart launch with h | h <;> simp [h]
  have no_pool (launch : Launch) : (launch.encodingPart ++ launch.tagPart).head? ≠ some "--lb-pool" := by
    rw [List.head?_append, encodingPart]
    split
    · simp
    · rcases head?_tagPart launch with h | h <;> simp [h]
  obtain ⟨pools, others⟩ := (part_pool a).append_inj (part_pool b) (no_pool a) (no_pool b) same
  obtain ⟨switches, tags⟩ :=
    (part_encoding a).append_inj (part_encoding b) (no_encoding a) (no_encoding b) others
  exact ⟨poolPart_inj pools, encodingPart_inj switches, texts_of_tagPart tags⟩

/-- **The command line is faithful.** Two launches of links have the same command line exactly if the paths
of their certificates are the same and they agree on what the daemon is to be told. -/
theorem arguments_eq_iff (made : a.Made) (made' : b.Made) (path path' : String) :
    a.arguments path = b.arguments path' ↔ path = path' ∧ a.AgreesOn b := by
  have parts (launch : Launch) : (if launch.lbPool.isEmpty then [] else ["--lb-pool", launch.lbPool]) ++
      ((if launch.noChunkedEncoding then ["--no-chunked-encoding"] else []) ++
        launch.tags.flatMap fun tag => ["--tag", tag.text]) =
      launch.poolPart ++ (launch.encodingPart ++ launch.tagPart) := rfl
  constructor
  · intro same
    simp only [arguments, List.append_assoc, List.cons_append, List.nil_append, List.cons.injEq,
      true_and, parts] at same
    obtain ⟨hostname, originUrl, path, ha, interval, count, quality, retries, grace, freq, rest⟩ := same
    obtain ⟨pool, encoding, texts⟩ := parts_inj rest
    exact ⟨path, {
      hostname, originUrl
      haConnections := Int32.toInt_inj.1 (repr_integer_inj.1 ha)
      heartbeatInterval := millis_inj.1 interval
      heartbeatCount := UInt64.toNat_inj.1 (repr_natural_inj.1 count)
      compressionQuality := UInt64.toNat_inj.1 (repr_natural_inj.1 quality)
      retries := UInt32.toNat_inj.1 (repr_natural_inj.1 retries)
      gracePeriod := millis_inj.1 grace
      metricsUpdateFreq := millis_inj.1 freq
      lbPool := pool
      noChunkedEncoding := encoding
      tags := Tag.texts_inj made.legible made'.legible texts }⟩
  · rintro ⟨rfl, agrees⟩
    simp only [arguments, agrees.hostname, agrees.originUrl, agrees.haConnections,
      millis_inj.2 agrees.heartbeatInterval, agrees.heartbeatCount, agrees.compressionQuality,
      agrees.retries, millis_inj.2 agrees.gracePeriod, millis_inj.2 agrees.metricsUpdateFreq,
      agrees.lbPool, agrees.noChunkedEncoding, agrees.tags]

/-- What a link is launched with whose host, pool and tags look like flags. -/
def flagged (heartbeatInterval : Duration) (clientId : String) : Launch :=
  (LinkSpec.new {} ⟨"--url", 80, ⟨"shop", "web"⟩, none⟩ []
    { lbPool := "--no-chunked-encoding", tags := "--lb-pool=--tag", heartbeatInterval }).launch {} clientId

/-- A heartbeat of less than a millisecond more is the same to the daemon, and so is another client. -/
theorem arguments_eq_iff_flagged :
    (flagged ⟨5000000000, by decide⟩ "a").Made ∧ (flagged ⟨5000999999, by decide⟩ "b").Made ∧
      (flagged ⟨5000000000, by decide⟩ "a").arguments "--tag" =
        (flagged ⟨5000999999, by decide⟩ "b").arguments "--tag" ∧
      (flagged ⟨5000000000, by decide⟩ "a").AgreesOn (flagged ⟨5000999999, by decide⟩ "b") := by
  have made : (flagged ⟨5000000000, by decide⟩ "a").Made := .link ..
  have made' : (flagged ⟨5000999999, by decide⟩ "b").Made := .link ..
  have same : (flagged ⟨5000000000, by decide⟩ "a").arguments "--tag" =
      (flagged ⟨5000999999, by decide⟩ "b").arguments "--tag" := by decide +kernel
  exact ⟨made, made', same, ((arguments_eq_iff made made' "--tag" "--tag").1 same).2⟩

end TunnelIngress.Launch
