import TunnelIngress.Rehearsal.World

/-!
What is seen of a world from outside: the lines of its log, the states of its links, and its routes
with numbers for their links.
-/

namespace TunnelIngress

namespace World

/-- The lines of the log by time and then by text. The log starts anew. -/
def takeLog (world : World) : World × List (Nat × String) :=
  ({ world with log := [] },
    world.log.mergeSort fun a b => a.1 < b.1 || (a.1 == b.1 && a.2 ≤ b.2))

def linkStatus? (world : World) (id : LinkId) : Option (LinkState × Bool) :=
  (world.fleet.get? id).map fun link => (link.state, link.isStarted)

/-- The routes by key, each with its links by rule. -/
def routeLinks (world : World) : List (ResourceKey × List (Rule × LinkId)) :=
  (Table.sorted world.routes).map fun route => (route.1, route.2.links.sorted)

def keyTexts {α : Type} [KubernetesObject α] (cache : Cache α) : List String :=
  (cache.objects.map fun object => (keyOf object).text).mergeSort fun a b => a ≤ b

/-- The keys of the four caches, as long as one of the watches is there. -/
def cachedKeys (world : World) : Option (List (List String)) :=
  let caches := world.watches.caches
  if world.watching.isEmpty then
    none
  else
    some [keyTexts caches.endpoints, keyTexts caches.ingresses, keyTexts caches.secrets,
      keyTexts caches.services]

end World

/-- Someone who watches a link, with the number of times its state had been set when they last
looked. -/
structure Subscription where
  link : LinkId
  seen : Nat
deriving DecidableEq, Repr

namespace Subscription

def look (world : World) (link : LinkId) : Subscription :=
  ⟨link, ((world.fleet.get? link).map (·.writes)).getD 0⟩

/-- The state of the link if it was set since the last look. -/
def news? (subscription : Subscription) (world : World) : Option LinkState :=
  if look world subscription.link = subscription then
    none
  else
    (world.fleet.get? subscription.link).map (·.state)

end Subscription

/-- The links that have a number, in the order of their numbers: the order in which they were first
seen. -/
structure Roster where
  numbered : List LinkId
deriving DecidableEq, Repr

namespace Roster

def empty : Roster :=
  ⟨[]⟩

def number? (roster : Roster) (id : LinkId) : Option Nat :=
  roster.numbered.idxOf? id

def enroll (roster : Roster) (id : LinkId) : Roster :=
  if roster.numbered.contains id then roster else ⟨roster.numbered ++ [id]⟩

/-- Numbers some links and then the links of the routes; returns those of the routes that had no
number yet. -/
def look (roster : Roster) (made : List LinkId) (world : World) : Roster × List LinkId :=
  let known := made.foldl enroll roster
  let seen := world.routeLinks.foldl
    (fun roster route => route.2.foldl (fun roster link => roster.enroll link.2) roster) known
  (seen, seen.numbered.drop known.numbered.length)

end Roster

end TunnelIngress
