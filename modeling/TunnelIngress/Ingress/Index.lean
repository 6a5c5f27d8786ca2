import TunnelIngress.Ingress.Dependencies

/-!
The index from secrets and services back to the ingresses that depend on them. Endpoints share the key
of their service. An ingress that depends on nothing has no entry, and no key keeps an empty list.
-/

namespace TunnelIngress

structure IndexEntry where
  secrets : List ResourceKey
  services : List ResourceKey
deriving DecidableEq

/-- The ingresses of each key, in the order of their latest indexing. -/
abbrev Postings : Type :=
  Table ResourceKey (List ResourceKey)

namespace Postings

def of (postings : Postings) (key : ResourceKey) : List ResourceKey :=
  postings.getD key []

def post (postings : Postings) (key ingress : ResourceKey) : Postings :=
  postings.insert key (postings.of key ++ [ingress])

def drop (postings : Postings) (key ingress : ResourceKey) : Postings :=
  match postings.get? key with
  | none => postings
  | some ingresses =>
    let kept := ingresses.filter (· ≠ ingress)
    if kept.isEmpty then postings.erase key else postings.insert key kept

end Postings

structure IndexCounters where
  lookups : Nat := 0
  hits : Nat := 0
  adds : Nat := 0
  removes : Nat := 0
deriving DecidableEq

def IndexCounters.hitRate (counters : IndexCounters) : Float :=
  if counters.lookups = 0 then
    0.0
  else
    Float.ofNat counters.hits / Float.ofNat counters.lookups

structure IngressIndex where
  className : String
  resolver : SecretResolver
  bySecret : Postings
  byService : Postings
  entries : Table ResourceKey IndexEntry
  counters : IndexCounters

namespace IngressIndex

def new (className : String) (resolver : SecretResolver) : IngressIndex :=
  { className, resolver, bySecret := (∅ : Table _ _), byService := (∅ : Table _ _), entries := ∅,
    counters := {} }

def size (index : IngressIndex) : Nat :=
  index.entries.size

def unlink (index : IngressIndex) (ingress : ResourceKey) : IngressIndex :=
  match index.entries.get? ingress with
  | none => index
  | some entry =>
    { index with
      bySecret := entry.secrets.foldl (fun postings key => Postings.drop postings key ingress)
        index.bySecret
      byService := entry.services.foldl (fun postings key => Postings.drop postings key ingress)
        index.byService
      entries := index.entries.erase ingress }

/-- Indexes an ingress anew after it was added or changed. -/
def upsert (index : IngressIndex) (ingress : Ingress) : IngressIndex :=
  let key := keyOf ingress
  let secrets := ingress.secretsNeeded index.className index.resolver
  let services := ingress.servicesNeeded index.className
  let cleared := index.unlink key
  let counted :=
    { cleared with counters := { cleared.counters with adds := cleared.counters.adds + 1 } }
  if secrets.isEmpty && services.isEmpty then
    counted
  else
    { counted with
      bySecret := secrets.foldl (fun postings secret => Postings.post postings secret key)
        counted.bySecret
      byService := services.foldl (fun postings service => Postings.post postings service key)
        counted.byService
      entries := counted.entries.insert key { secrets, services } }

/-- Drops an ingress; the flag says whether it was indexed. -/
def remove (index : IngressIndex) (ingress : ResourceKey) : IngressIndex × Bool :=
  let cleared := index.unlink ingress
  ({ cleared with counters := { cleared.counters with removes := cleared.counters.removes + 1 } },
    index.entries.contains ingress)

def countLookup (index : IngressIndex) (hit : Bool) : IngressIndex :=
  { index with
    counters := { index.counters with
      lookups := index.counters.lookups + 1
      hits := index.counters.hits + if hit then 1 else 0 } }

def lookupSecret (index : IngressIndex) (key : ResourceKey) : IngressIndex × List ResourceKey :=
  let found := index.bySecret.of key
  (index.countLookup (!found.isEmpty), found)

def lookupService (index : IngressIndex) (key : ResourceKey) : IngressIndex × List ResourceKey :=
  let found := index.byService.of key
  (index.countLookup (!found.isEmpty), found)

/-- The ingresses that a change to an object may concern. -/
def lookup (index : IngressIndex) (kind : Kind) (key : ResourceKey) :
    IngressIndex × List ResourceKey :=
  match kind with
  | .endpoint => index.lookupService key
  | .service => index.lookupService key
  | .secret => index.lookupSecret key
  | .ingress => (index, [key])

def text (index : IngressIndex) : String :=
  s!"IngressIndex({index.className}): {index.size} ingress(es), {index.bySecret.size} secret(s), "
    ++ s!"{index.byService.size} service(s)"

end IngressIndex

end TunnelIngress
