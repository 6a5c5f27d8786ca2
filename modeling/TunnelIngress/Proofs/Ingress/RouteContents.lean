import TunnelIngress.Proofs.Ingress.IndexHistory
import TunnelIngress.Proofs.Ingress.ServedRules
import TunnelIngress.Proofs.Tunnel.AnnotatedOptions

/-!
# What is in a route

A route is built by walking through the rules and paths of an ingress, with many reasons to leave a path
out. What comes of it needs no walk to be said: which rules an ingress calls for is a matter of what it
lists and of what the caches hold, and where several entries could decide, of the first of them.
-/

namespace TunnelIngress

/-! ### What the parts of an ingress say -/

/-- A backend means a port by the number that it gives, or by the name if it gives no number or zero. -/
def BackendPort.Means (wanted : BackendPort) (port : ServicePort) : Prop :=
  (wanted.number = some port.port ∧ port.port ≠ 0) ∨
    (wanted.number = none ∨ wanted.number = some 0) ∧
      ∃ name, wanted.name = some name ∧ name ≠ "" ∧ port.name = some name

/-- The number of the first port that a backend means. -/
def Service.FirstMeant (service : Service) (wanted : BackendPort) (number : Int32) : Prop :=
  ∃ before port after, service.ports = before ++ port :: after ∧ wanted.Means port ∧
    port.port = number ∧ ∀ earlier ∈ before, ¬wanted.Means earlier

/-- An entry with a secret lists the host. -/
def IngressTls.Gives (entry : IngressTls) (host name : String) : Prop :=
  entry.secretName = some name ∧ name ≠ "" ∧ host ∈ entry.hosts.getD []

/-- The secret of the first entry that has one and lists the host, in the namespace of the ingress. -/
def Ingress.FirstGiven (ingress : Ingress) (host : String) (secret : ResourceKey) : Prop :=
  ∃ before entry after name, ingress.tls = before ++ entry :: after ∧ entry.Gives host name ∧
    secret = ⟨ingress.metadata.ns.getD "", name⟩ ∧
    ∀ earlier ∈ before, ∀ other, ¬earlier.Gives host other

/-- The secret of a host: the one that the ingress gives, or else the override, or else the default. -/
inductive SecretResolver.Chooses (resolver : SecretResolver) (ingress : Ingress) (host : String) :
    Option ResourceKey → Prop where
  | given (secret : ResourceKey) (first : ingress.FirstGiven host secret) :
      Chooses resolver ingress host (some secret)
  | override (ungiven : ∀ secret, ¬ingress.FirstGiven host secret) (secret : ResourceKey)
      (listed : resolver.overrides.get? host = some secret) :
      Chooses resolver ingress host (some secret)
  | default (ungiven : ∀ secret, ¬ingress.FirstGiven host secret)
      (unlisted : resolver.overrides.get? host = none) :
      Chooses resolver ingress host resolver.default

/-- An ingress lists the host of a rule with a root path to a service of its namespace. The service is
cached and has the port, its endpoints have a subset, and the secret is the one of the host. -/
def Ingress.CallsFor (ingress : Ingress) (caches : Caches) (resolver : SecretResolver) (rule : Rule) :
    Prop :=
  ∃ entry ∈ ingress.rules, entry.host = some rule.host ∧ rule.host ≠ "" ∧
    ∃ path ∈ entry.paths.getD [], (path.path = none ∨ path.path = some "" ∨ path.path = some "/") ∧
    ∃ backend wanted, path.backend.service = some backend ∧ backend.name ≠ "" ∧
      rule.service = ⟨ingress.metadata.ns.getD "", backend.name⟩ ∧ backend.port = some wanted ∧
      (∃ service, caches.services.find? rule.service = some service ∧
        service.FirstMeant wanted rule.port) ∧
      (∃ endpoints subset, caches.endpoints.find? rule.service = some endpoints ∧
        subset ∈ endpoints.subsets.getD []) ∧
      resolver.Chooses ingress rule.host rule.secret

/-- The secret is cached, with a certificate. -/
def Caches.Certifies (caches : Caches) (secret : Option ResourceKey) (bytes : List UInt8) : Prop :=
  ∃ key object data, secret = some key ∧ caches.secrets.find? key = some object ∧
    object.data = some data ∧ data.lookup "cert.pem" = some bytes

/-- The same host with the same paths, in any order and any number. -/
def IngressRule.Alike (rule other : IngressRule) : Prop :=
  other.host = rule.host ∧ ∀ path, path ∈ other.paths.getD [] ↔ path ∈ rule.paths.getD []

/-- The same ingress with its rules and paths in another order, or some of them more or less often. -/
structure Ingress.Rearranged (ingress other : Ingress) : Prop where
  metadata : other.metadata = ingress.metadata
  tls : other.tls = ingress.tls
  kept : ∀ rule ∈ ingress.rules, ∃ again ∈ other.rules, rule.Alike again
  known : ∀ again ∈ other.rules, ∃ rule ∈ ingress.rules, rule.Alike again

variable {caches : Caches} {resolver : SecretResolver} {ingress other : Ingress} {rule : Rule}
  {host : String} {secret : ResourceKey}

/-! ### The first entry decides -/

theorem nonEmptyName?_eq_some_iff {name : Option String} {text : String} :
    nonEmptyName? name = some text ↔ name = some text ∧ text ≠ "" := by
  simp [nonEmptyName?, Option.filter_eq_some_iff]

theorem BackendPort.means_iff {wanted : BackendPort} {port : ServicePort} :
    (if wanted.number.any (· ≠ 0) then wanted.number == some port.port
      else if wanted.name.any (!·.isEmpty) then wanted.name == port.name
      else false) = true ↔ wanted.Means port := by
  obtain ⟨name, number⟩ := wanted
  have named : (if name.any (!·.isEmpty) then name == port.name else false) = true ↔
      ∃ text, name = some text ∧ text ≠ "" ∧ port.name = some text := by
    cases name with
    | none => simp
    | some text =>
      by_cases blank : text = ""
      · simp [blank]
      · simp [blank, eq_comm (a := some text)]
  unfold Means
  cases number with
  | none => simpa using named
  | some given =>
    by_cases zero : given = 0
    · -- A zero is no number, and no port is meant by it.
      subst zero
      have unmeant : ¬((some 0 : Option Int32) = some port.port ∧ port.port ≠ 0) := by
        rintro ⟨same, some_port⟩
        exact some_port (Option.some.inj same).symm
      rw [or_iff_right unmeant]
      simpa using named
    · by_cases same : given = port.port
      · simp [← same, zero]
      · simp [same, zero]

theorem Service.portFor?_eq_some_iff {service : Service} {port : Option BackendPort} {number : Int32} :
    service.portFor? port = some number ↔
      ∃ wanted, port = some wanted ∧ service.FirstMeant wanted number := by
  simp only [portFor?, Option.pure_def, Option.bind_eq_bind, Option.bind_eq_some_iff,
    Option.some.injEq, List.find?_eq_some_iff_append]
  refine exists_congr fun wanted => and_congr_right fun _ => ?_
  constructor
  · rintro ⟨found, ⟨meant, before, after, split, earlier⟩, same⟩
    refine ⟨before, found, after, split, BackendPort.means_iff.1 meant, same, fun port mem => ?_⟩
    rw [← BackendPort.means_iff, Bool.not_eq_true]
    simpa using earlier port mem
  · rintro ⟨before, found, after, split, meant, same, earlier⟩
    refine ⟨found, ⟨BackendPort.means_iff.2 meant, before, after, split, fun port mem => ?_⟩, same⟩
    have unmeant := earlier port mem
    rw [← BackendPort.means_iff, Bool.not_eq_true] at unmeant
    simpa using unmeant

/-- What one entry adds to the secrets of an ingress in a namespace. -/
def IngressTls.named (ns : String) (entry : IngressTls) : List (String × ResourceKey) :=
  match entry.secretName with
  | none => []
  | some name => if name.isEmpty then [] else (entry.hosts.getD []).map (·, ⟨ns, name⟩)

theorem IngressTls.mem_named {ns : String} {entry : IngressTls} :
    (host, secret) ∈ entry.named ns ↔ ∃ name, entry.Gives host name ∧ secret = ⟨ns, name⟩ := by
  unfold named Gives
  cases entry.secretName with
  | none => simp
  | some name =>
    by_cases blank : name = ""
    · subst blank
      simp
    · constructor
      · intro mem
        obtain ⟨listed, own⟩ : host ∈ entry.hosts.getD [] ∧ ⟨ns, name⟩ = secret := by
          simpa [blank] using mem
        exact ⟨name, ⟨rfl, blank, listed⟩, own.symm⟩
      · rintro ⟨_, ⟨same, _, mem⟩, rfl⟩
        cases same
        simpa [blank] using mem

/-- The entry's own secret is found under each host that it lists. -/
theorem IngressTls.find?_named {ns : String} {entry : IngressTls} :
    ((entry.named ns).find? (·.1 = host)).map (·.2) = some secret ↔
      ∃ name, entry.Gives host name ∧ secret = ⟨ns, name⟩ := by
  have given {found : String × ResourceKey} (hit : (entry.named ns).find? (·.1 = host) = some found) :
      ∃ name, entry.Gives host name ∧ found.2 = ⟨ns, name⟩ := by
    obtain ⟨listed, own⟩ := found
    obtain rfl : listed = host := by simpa using List.find?_some hit
    exact mem_named.1 (List.mem_of_find?_eq_some hit)
  constructor
  · intro hit
    obtain ⟨found, hit', rfl⟩ := Option.map_eq_some_iff.1 hit
    exact given hit'
  · rintro ⟨name, gives, rfl⟩
    cases hit : (entry.named ns).find? (·.1 = host) with
    | none =>
      have absent := List.find?_eq_none.1 hit _ (mem_named.2 ⟨name, gives, rfl⟩)
      simp at absent
    | some found =>
      obtain ⟨again, gives', own⟩ := given hit
      obtain rfl : name = again := Option.some.inj (gives.1.symm.trans gives'.1)
      exact congrArg some own

/-- A host that is in the table already keeps its secret. -/
theorem get?_foldl_keep (host : String) (named : List (String × ResourceKey))
    (table : Table String ResourceKey) :
    (named.foldl (fun (table : Table String ResourceKey) (entry : String × ResourceKey) =>
      if table.contains entry.1 then table else table.insert entry.1 entry.2) table).get? host =
      (table.get? host).or ((named.find? (·.1 = host)).map (·.2)) := by
  induction named generalizing table with
  | nil => simp
  | cons entry rest ih =>
    rw [List.foldl_cons, ih, List.find?_cons]
    by_cases here : entry.1 = host
    · cases known : table.get? host with
      | some kept => simp [here, Table.contains_eq_isSome, known]
      | none => simp [here, Table.contains_eq_isSome, known, Table.get?_insert]
    · split
      · simp [here]
      · simp [here, Table.get?_insert, Ne.symm here]

theorem Ingress.get?_tlsSecrets :
    ingress.tlsSecrets.get? host = some secret ↔ ingress.FirstGiven host secret := by
  let ns := ingress.metadata.ns.getD ""
  have walk : ingress.tlsSecrets.get? host =
      ingress.tls.findSome? fun entry => ((entry.named ns).find? (·.1 = host)).map (·.2) := by
    have found := get?_foldl_keep host (ingress.tls.flatMap (·.named ns)) ∅
    rw [Table.get?_empty, Option.none_or, List.find?_flatMap, List.map_findSome?] at found
    exact found
  rw [walk, List.findSome?_eq_some_iff]
  unfold FirstGiven
  constructor
  · rintro ⟨before, entry, after, split, hit, earlier⟩
    obtain ⟨name, gives, own⟩ := IngressTls.find?_named.1 hit
    refine ⟨before, entry, after, name, split, gives, own, fun passed mem other gives' => ?_⟩
    cases (earlier passed mem).symm.trans (IngressTls.find?_named.2 ⟨other, gives', rfl⟩)
  · rintro ⟨before, entry, after, name, split, gives, own, earlier⟩
    refine ⟨before, entry, after, split, IngressTls.find?_named.2 ⟨name, gives, own⟩, ?_⟩
    intro passed mem
    rw [Option.eq_none_iff_forall_ne_some]
    intro other hit
    obtain ⟨name, gives', _⟩ := IngressTls.find?_named.1 hit
    exact earlier passed mem name gives'

theorem SecretResolver.resolve_eq_iff {resolved : Option ResourceKey} :
    resolved = resolver.resolve host ingress.tlsSecrets ↔ resolver.Chooses ingress host resolved := by
  unfold resolve
  cases given : ingress.tlsSecrets.get? host with
  | some secret =>
    have first := Ingress.get?_tlsSecrets.1 given
    constructor
    · rintro rfl
      exact .given secret first
    · rintro (⟨other, first'⟩ | ⟨ungiven, _⟩ | ⟨ungiven, _⟩)
      · rw [← Ingress.get?_tlsSecrets, given] at first'
        simp [Option.some.inj first']
      · exact absurd first (ungiven secret)
      · exact absurd first (ungiven secret)
  | none =>
    have ungiven (secret : ResourceKey) : ¬ingress.FirstGiven host secret := by
      rw [← Ingress.get?_tlsSecrets, given]
      rintro ⟨⟩
    rw [Option.none_or]
    cases listed : resolver.overrides.get? host with
    | some secret =>
      constructor
      · rintro rfl
        exact .override ungiven secret listed
      · rintro (⟨other, first⟩ | ⟨_, other, listed'⟩ | ⟨_, unlisted⟩)
        · exact absurd first (ungiven other)
        · rw [← listed', listed, Option.some_or]
        · cases listed.symm.trans unlisted
    | none =>
      constructor
      · rintro rfl
        exact .default ungiven listed
      · rintro (⟨other, first⟩ | ⟨_, other, listed'⟩ | _)
        · exact absurd first (ungiven other)
        · cases listed.symm.trans listed'
        · rw [Option.none_or]

/-! ### The rules of a route -/

theorem HttpPath.isRoot_iff {path : HttpPath} :
    path.isRoot = true ↔ path.path = none ∨ path.path = some "" ∨ path.path = some "/" := by
  unfold isRoot
  cases path.path <;> simp

theorem Endpoints.hasSubsets_iff {endpoints : Endpoints} :
    endpoints.hasSubsets = true ↔ ∃ subset, subset ∈ endpoints.subsets.getD [] := by
  simp [hasSubsets, List.eq_nil_iff_forall_not_mem]

theorem Ingress.callsFor_iff : ingress.CallsFor caches resolver rule ↔
    ∃ port, ingress.Asks resolver rule port ∧ caches.Serves rule.service port rule.port := by
  unfold CallsFor Asks Caches.Serves
  constructor
  · rintro ⟨entry, mem, host, some_host, path, mem', root, backend, wanted, found, some_name, service,
      port, ⟨object, cached, meant⟩, ⟨endpoints, subset, cached', mem''⟩, chosen⟩
    refine ⟨backend.port, ⟨SecretResolver.resolve_eq_iff.2 chosen, congrArg ResourceKey.ns service, entry,
      mem, nonEmptyName?_eq_some_iff.2 ⟨host, some_host⟩, path, mem', HttpPath.isRoot_iff.2 root, backend,
      found, rfl, nonEmptyName?_eq_some_iff.2 ?_⟩, ?_, ?_⟩
    · exact ⟨congrArg some (congrArg ResourceKey.name service).symm, by rwa [service]⟩
    · rw [cached, Option.bind_some, Service.portFor?_eq_some_iff]
      exact ⟨wanted, port, meant⟩
    · rw [cached', Option.any_some, Endpoints.hasSubsets_iff]
      exact ⟨subset, mem''⟩
  · rintro ⟨_, ⟨resolved, ns, entry, mem, host, path, mem', root, backend, found, rfl, name⟩, ports,
      subsets⟩
    obtain ⟨host, some_host⟩ := nonEmptyName?_eq_some_iff.1 host
    obtain ⟨name, some_name⟩ := nonEmptyName?_eq_some_iff.1 name
    have named : backend.name = rule.service.name := Option.some.inj name
    obtain ⟨service, cached, meant⟩ := Option.bind_eq_some_iff.1 ports
    obtain ⟨wanted, port, meant⟩ := Service.portFor?_eq_some_iff.1 meant
    obtain ⟨endpoints, cached', some_subset⟩ := (Option.any_eq_true _ _).1 subsets
    obtain ⟨subset, mem''⟩ := Endpoints.hasSubsets_iff.1 some_subset
    exact ⟨entry, mem, host, some_host, path, mem', HttpPath.isRoot_iff.1 root, backend, wanted, found,
      by rwa [named], by rw [named, ← ns], port, ⟨service, cached, meant⟩,
      ⟨endpoints, subset, cached', mem''⟩, SecretResolver.resolve_eq_iff.1 resolved⟩

theorem Ingress.Rearranged.symm (same : ingress.Rearranged other) : other.Rearranged ingress where
  metadata := same.metadata.symm
  tls := same.tls.symm
  kept again mem := by
    obtain ⟨rule, mem, host, paths⟩ := same.known again mem
    exact ⟨rule, mem, host.symm, fun path => (paths path).symm⟩
  known rule mem := by
    obtain ⟨again, mem, host, paths⟩ := same.kept rule mem
    exact ⟨again, mem, host.symm, fun path => (paths path).symm⟩

/-- An ingress asks for a rule somewhere, and it does not matter where. -/
theorem Ingress.Asks.rearranged {port : Option BackendPort} (asks : ingress.Asks resolver rule port)
    (same : ingress.Rearranged other) : other.Asks resolver rule port := by
  obtain ⟨resolved, ns, entry, mem, host, path, mem', asked⟩ := asks
  obtain ⟨again, mem, host', paths⟩ := same.kept entry mem
  have secrets : other.tlsSecrets = ingress.tlsSecrets := by
    unfold tlsSecrets
    rw [same.metadata, same.tls]
  exact ⟨by rw [secrets, resolved], by rw [same.metadata, ns], again, mem, by rw [host', host], path,
    (paths path).2 mem', asked⟩

theorem RoutePlan.mem_servedRules_rearranged (same : ingress.Rearranged other) :
    rule ∈ servedRules caches resolver other ↔ rule ∈ servedRules caches resolver ingress := by
  rw [mem_servedRules, mem_servedRules]
  refine exists_congr fun port => and_congr_left fun _ => ?_
  exact ⟨fun asks => asks.rearranged same.symm, fun asks => asks.rearranged same⟩

theorem Caches.certificateOf_spec (caches : Caches) (secret : Option ResourceKey) :
    caches.Certifies secret (RoutePlan.certificateOf caches secret) ∨
      RoutePlan.certificateOf caches secret = [] ∧ ∀ bytes, ¬caches.Certifies secret bytes := by
  have certifies (bytes : List UInt8) : caches.Certifies secret bytes ↔
      (secret.bind caches.secrets.find?).bind (·.certificate?) = some bytes := by
    simp only [Certifies, Option.bind_eq_some_iff]
    constructor
    · rintro ⟨key, object, data, named, cached, held, entry⟩
      exact ⟨object, ⟨key, named, cached⟩, by rw [Secret.certificate?, held]; exact entry⟩
    · rintro ⟨object, ⟨key, named, cached⟩, entry⟩
      cases held : object.data with
      | none => simp [Secret.certificate?, held] at entry
      | some data =>
        rw [Secret.certificate?, held] at entry
        exact ⟨key, object, data, named, cached, held, entry⟩
  unfold RoutePlan.certificateOf
  cases held : (secret.bind caches.secrets.find?).bind (·.certificate?) with
  | some bytes => exact .inl ((certifies bytes).2 held)
  | none =>
    refine .inr ⟨rfl, fun bytes some_bytes => ?_⟩
    cases held.symm.trans ((certifies bytes).1 some_bytes)

theorem TunnelOptions.ofAnnotations_error {annotations : List (String × String)} {fault : Phrase.Fault}
    (failed : ofAnnotations annotations = .error fault) : fault = .beyondRange ∧
      (Overruns (annotations.lookup (optionKey "heartbeat-interval")) ∨
        Overruns (annotations.lookup (optionKey "grace-period"))) := by
  obtain heartbeat | ⟨interval, -, read⟩ := Phrase.bind_error failed
  · exact (durationOr_overruns heartbeat).imp_right .inl
  · obtain grace | ⟨period, -, read⟩ := Phrase.bind_error read
    · exact (durationOr_overruns grace).imp_right .inr
    · cases read

namespace RoutePlan

/-- **A route has what its ingress calls for, unless a duration fills its range up.** Its rules are
exactly those that the ingress calls for. Each link has the certificate of its secret, none when there is
no such certificate, and the options of the ingress. The order of the rules and paths, and how often they
are there, makes no difference. There is no route only if the text of one of the two durations begins with
spans that come to exactly `2 ^ 64` seconds. -/
theorem exact_or_overruns (caches : Caches) (resolver : SecretResolver) (settings : TunnelSettings)
    (ingress : Ingress) :
    (∃ plan, ofIngress caches resolver settings ingress = .ok plan ∧ plan.key = keyOf ingress ∧
      TunnelOptions.ofAnnotations (ingress.metadata.annotations.getD []) = .ok plan.options ∧
      (∀ rule, plan.links.contains rule = true ↔ ingress.CallsFor caches resolver rule) ∧
      (∀ rule spec, plan.links.get? rule = some spec →
        ∃ bytes, spec = .new settings rule bytes plan.options ∧
          (caches.Certifies rule.secret bytes ∨
            bytes = [] ∧ ∀ other, ¬caches.Certifies rule.secret other)) ∧
      ∀ other, ingress.Rearranged other →
        ∃ again, ofIngress caches resolver settings other = .ok again ∧ again.key = plan.key ∧
          again.options = plan.options ∧ ∀ rule, again.links.get? rule = plan.links.get? rule) ∨
    ofIngress caches resolver settings ingress = .error .beyondRange ∧
      (TunnelOptions.Overruns ((ingress.metadata.annotations.getD []).lookup
          (TunnelOptions.optionKey "heartbeat-interval")) ∨
        TunnelOptions.Overruns ((ingress.metadata.annotations.getD []).lookup
          (TunnelOptions.optionKey "grace-period"))) := by
  cases read : TunnelOptions.ofAnnotations (ingress.metadata.annotations.getD []) with
  | error fault =>
    obtain ⟨rfl, overruns⟩ := TunnelOptions.ofAnnotations_error read
    exact .inr ⟨by rw [ofIngress, read]; rfl, overruns⟩
  | ok options =>
    left
    obtain ⟨plan, built⟩ := ofIngress_ok_iff.2 ⟨options, read⟩
    obtain ⟨key, read', links⟩ := ofIngress_spec built
    refine ⟨plan, built, key, read.symm.trans read', fun rule => ?_, fun rule spec hit => ?_, ?_⟩
    · rw [Ingress.callsFor_iff, ← mem_servedRules, Table.contains_iff]
      constructor
      · rintro ⟨spec, hit⟩
        exact ((links rule spec).1 hit).1
      · exact fun served => ⟨_, (links rule _).2 ⟨served, rfl⟩⟩
    · exact ⟨_, ((links rule spec).1 hit).2, caches.certificateOf_spec rule.secret⟩
    · intro other same
      have read'' : TunnelOptions.ofAnnotations (other.metadata.annotations.getD []) = .ok options := by
        rw [same.metadata, read]
      obtain ⟨again, rebuilt⟩ := ofIngress_ok_iff.2 ⟨options, read''⟩
      obtain ⟨key', reread, links'⟩ := ofIngress_spec rebuilt
      have unchanged : again.options = plan.options := by
        rw [Except.ok.inj (reread.symm.trans read''), Except.ok.inj (read'.symm.trans read)]
      refine ⟨again, rebuilt, ?_, unchanged, fun rule => Option.ext fun spec => ?_⟩
      · rw [key, key']
        exact congrArg Metadata.key same.metadata
      · rw [links, links', unchanged, mem_servedRules_rearranged same]

/-- An ingress that calls for a rule and has no route. Its heartbeat interval fills its range up. -/
theorem brimming_unrouted :
    let ingress : Ingress := { IngressIndex.cafeIngress [] with
      metadata := { name := some "menu", ns := some "cafe", annotations := some TunnelOptions.brimming } }
    ingress.CallsFor IngressIndex.cafeCaches IngressIndex.wildcard
        { IngressIndex.cafeRule with secret := some ⟨"tunnels", "wildcard"⟩ } ∧
      ¬∃ plan, ofIngress IngressIndex.cafeCaches IngressIndex.wildcard {} ingress = .ok plan := by
  intro ingress
  constructor
  · rw [Ingress.callsFor_iff, ← mem_servedRules]
    decide
  · have failed : ofIngress IngressIndex.cafeCaches IngressIndex.wildcard {} ingress =
        .error .beyondRange := rfl
    simp [failed]

end RoutePlan

end TunnelIngress
