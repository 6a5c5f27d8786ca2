import TunnelIngress.Proofs.Ingress.WatchEvents
import TunnelIngress.Proofs.Control.QueueSafety

/-!
# A list in progress and the workers

A changed object that shows up in a list is queued at once, but the cache keeps the old version until
the list is complete. So a worker that takes the key in between handles the old version, and the end of
the list queues the key only of an object that is gone. Which keys await a worker when a list ends is
settled by which were handed out too early.
-/

namespace TunnelIngress

namespace QueueSession

def addAll (session : QueueSession) (items : List String) : QueueSession :=
  items.foldl add session

theorem Sound.addAll {session : QueueSession} (sound : session.Sound) (items : List String) :
    (session.addAll items).Sound := by
  induction items generalizing session with
  | nil => exact sound
  | cons item rest ih => exact ih (sound.add item)

@[simp]
theorem addAll_shutDown (session : QueueSession) (items : List String) :
    (session.addAll items).queue.shutDown = session.queue.shutDown := by
  induction items generalizing session with
  | nil => rfl
  | cons item rest ih => exact (ih (session.add item)).trans (session.queue.add_shutDown item)

theorem mem_addAll_dirty {session : QueueSession} (open_ : session.queue.shutDown = false)
    {items : List String} {item : String} :
    item ∈ (session.addAll items).queue.dirty ↔ item ∈ session.queue.dirty ∨ item ∈ items := by
  induction items generalizing session with
  | nil => simp [addAll]
  | cons first rest ih =>
    have added : item ∈ (session.add first).queue.dirty ↔ item ∈ session.queue.dirty ∨ item = first :=
      WorkQueue.mem_add_dirty.trans (by simp [open_])
    have still : (session.add first).queue.shutDown = false :=
      (session.queue.add_shutDown first).trans open_
    change item ∈ ((session.add first).addAll rest).queue.dirty ↔ _
    rw [ih still, added, List.mem_cons, or_assoc]

end QueueSession

namespace WatchEvent

variable {α : Type}

def object? : WatchEvent α → Option α
  | apply object | delete object | listItem object => some object
  | beginList | endList => none

/-- Whether an event may come next: single changes come between lists, the items and the end of a
list after its beginning. -/
def follows (listing : Bool) : WatchEvent α → Bool
  | apply _ | delete _ => !listing
  | beginList => true
  | listItem _ | endList => listing

def listingAfter (listing : Bool) : WatchEvent α → Bool
  | beginList => true
  | endList => false
  | _ => listing

end WatchEvent

/-- The watch of one kind beside the queue that it feeds. -/
structure WatchSession (α : Type) where
  watch : Watch α
  index : IngressIndex
  work : QueueSession
  listing : Bool
  /-- What was handed out since the latest list began, and was not added again after that. -/
  overtaken : List String

namespace WatchSession

variable {α : Type} [Indexed α]

def start (index : IngressIndex) : WatchSession α :=
  { watch := .new, index, work := .new, listing := false, overtaken := [] }

/-- The watch has handled an event, and its keys are added to the queue. -/
def absorb (session : WatchSession α) (event : WatchEvent α) (outcome : Watch.Outcome α) :
    WatchSession α :=
  let added := outcome.work.map (·.text)
  let overtaken := if event matches .beginList then [] else session.overtaken
  { watch := outcome.watch
    index := outcome.index
    work := session.work.addAll added
    listing := event.listingAfter session.listing
    overtaken := overtaken.filter (· ∉ added) }

def called (session : WatchSession α) (call : QueueCall) (work : QueueSession) : WatchSession α :=
  let handed := work.handed.drop session.work.handed.length
  { session with
    work
    overtaken := (session.overtaken ++ handed).filter (call.added? ≠ some ·) }

/-- The events of the watch come in order and are about objects with a namespace. Callers of the queue
do what they like in between, but do not shut it down. -/
inductive Step (admission : Admission) (session : WatchSession α) : WatchSession α → Prop where
  | event (event : WatchEvent α) (outcome : Watch.Outcome α)
      (ordered : event.follows session.listing = true)
      (placed : ∀ object ∈ event.object?, (KubernetesObject.metadata object).ns.isSome)
      (handled : session.watch.handle admission session.index event = some outcome) :
      Step admission session (session.absorb event outcome)
  | call (call : QueueCall) (work : QueueSession) (running : call ≠ .close)
      (step : session.work.step? call = some work) :
      Step admission session (session.called call work)

abbrev Leads (admission : Admission) : WatchSession α → WatchSession α → Prop :=
  Relation.ReflTransGen (Step admission)

/-- What holds at every moment of a run. The last two fields say what becomes of a changed object in
the list in progress: it is dirty or was handed out too early, and not both. -/
structure Sound (admission : Admission) (session : WatchSession α) : Prop where
  work : session.work.Sound
  running : session.work.queue.shutDown = false
  cached : Watch.Placed session.watch.cache.entries
  buffered : Watch.Placed session.watch.cache.buffer
  listed : ∀ ref, ref ∈ session.watch.listed ↔ ∃ object, session.watch.cache.buffer.get? ref = some object
  settled : session.listing = false → ∀ ref, session.watch.cache.buffer.get? ref = none
  queued : ∀ ref new, session.watch.cache.buffer.get? ref = some new →
    Watch.Relevant admission (session.watch.cache.entries.get? ref) (some new) →
      (Watch.workOf new).text ∈ session.work.queue.dirty ∨ (Watch.workOf new).text ∈ session.overtaken
  apart : ∀ item ∈ session.overtaken, item ∉ session.work.queue.dirty

theorem sound_start (admission : Admission) (index : IngressIndex) :
    (start index : WatchSession α).Sound admission :=
  { work := QueueSession.sound_new
    running := rfl
    cached := by simp [Watch.Placed, start, Watch.new, Cache.empty]
    buffered := by simp [Watch.Placed, start, Watch.new, Cache.empty]
    listed := by simp [start, Watch.new, Cache.empty]
    settled := by simp [start, Watch.new, Cache.empty]
    queued := by simp [start, Watch.new, Cache.empty]
    apart := by simp [start] }

/-! ### Every step keeps the invariant -/

variable {admission : Admission} {session later : WatchSession α}

/-- What adding the keys of an event does to the queue side of a session. -/
theorem Sound.absorb_apart (sound : session.Sound admission) (event : WatchEvent α)
    (outcome : Watch.Outcome α) :
    ∀ item ∈ (session.absorb event outcome).overtaken,
      item ∉ (session.absorb event outcome).work.queue.dirty := by
  intro item overtaken dirty
  simp only [absorb, List.mem_filter, decide_eq_true_eq] at overtaken
  rcases (QueueSession.mem_addAll_dirty sound.running).1 dirty with dirty | added
  · obtain ⟨before, _⟩ := overtaken
    split at before
    · cases before
    · exact sound.apart item before dirty
  · exact overtaken.2 added

theorem Sound.absorb_added (sound : session.Sound admission) (event : WatchEvent α)
    {outcome : Watch.Outcome α} {key : WorkKey} (mem : key ∈ outcome.work) :
    key.text ∈ (session.absorb event outcome).work.queue.dirty :=
  (QueueSession.mem_addAll_dirty sound.running).2 (.inr (List.mem_map_of_mem mem))

theorem Sound.absorb_kept (sound : session.Sound admission) {event : WatchEvent α}
    (outcome : Watch.Outcome α) {item : String} (goes_on : (event matches .beginList) = false)
    (tracked : item ∈ session.work.queue.dirty ∨ item ∈ session.overtaken) :
    item ∈ (session.absorb event outcome).work.queue.dirty ∨
      item ∈ (session.absorb event outcome).overtaken := by
  by_cases added : item ∈ outcome.work.map (·.text)
  · exact .inl ((QueueSession.mem_addAll_dirty sound.running).2 (.inr added))
  · rcases tracked with dirty | overtaken
    · exact .inl ((QueueSession.mem_addAll_dirty sound.running).2 (.inl dirty))
    · right
      simp only [absorb, goes_on, List.mem_filter, decide_eq_true_eq]
      exact ⟨overtaken, added⟩

theorem Sound.event (sound : session.Sound admission) {event : WatchEvent α}
    {outcome : Watch.Outcome α} (ordered : event.follows session.listing = true)
    (placed : ∀ object ∈ event.object?, (KubernetesObject.metadata object).ns.isSome)
    (handled : session.watch.handle admission session.index event = some outcome) :
    (session.absorb event outcome).Sound admission := by
  have work : (session.absorb event outcome).work.Sound := sound.work.addAll _
  have running : (session.absorb event outcome).work.queue.shutDown = false :=
    (session.work.addAll_shutDown _).trans sound.running
  have apart := sound.absorb_apart event outcome
  cases event with
  | apply object =>
    have idle : session.listing = false := by simpa [WatchEvent.follows] using ordered
    obtain ⟨ref, own, rfl⟩ := Watch.handle_apply handled
    have named := Watch.ref_of_placed own (placed object rfl)
    refine ⟨work, running, sound.cached.insert own named, sound.buffered, sound.listed, sound.settled,
      ?_, apart⟩
    intro other new hit
    have none := sound.settled idle other
    exact absurd (none.symm.trans hit) (by simp)
  | delete object =>
    have idle : session.listing = false := by simpa [WatchEvent.follows] using ordered
    obtain ⟨ref, own, rfl⟩ := Watch.handle_delete handled
    refine ⟨work, running, sound.cached.erase ref, sound.buffered, sound.listed, sound.settled, ?_,
      apart⟩
    intro other new hit
    have none := sound.settled idle other
    exact absurd (none.symm.trans hit) (by simp)
  | beginList =>
    cases handled
    exact ⟨work, running, sound.cached, Watch.placed_empty, by simp [absorb, Cache.beginList],
      by simp [absorb, Cache.beginList], by simp [absorb, Cache.beginList], apart⟩
  | listItem object =>
    have listing : session.listing = true := by simpa [WatchEvent.follows] using ordered
    obtain ⟨ref, own, rfl⟩ := Watch.handle_listItem handled
    have named := Watch.ref_of_placed own (placed object rfl)
    refine ⟨work, running, sound.cached, sound.buffered.insert own named, ?_, ?_, ?_, apart⟩
    · intro other
      simp only [absorb, Cache.listItem, Table.get?_insert, List.mem_cons]
      by_cases same : other = ref
      · simp [same]
      · simp [same, sound.listed]
    · intro idle
      simp [absorb, WatchEvent.listingAfter, listing] at idle
    · intro other new hit relevant
      simp only [absorb, Cache.listItem, Table.get?_insert] at hit
      split at hit
      · rename_i same
        cases hit
        subst same
        have queued : (Watch.changed admission session.index (session.watch.cache.get? other)
            object).2 = [Watch.workOf object] := by
          rw [Watch.get?_of_placed sound.cached]
          exact Watch.changed_work admission session.index _ object relevant
        exact .inl (sound.absorb_added _ (queued ▸ List.mem_singleton_self _))
      · exact sound.absorb_kept _ rfl (sound.queued other new hit relevant)
  | endList =>
    cases handled
    exact ⟨work, running, sound.buffered, Watch.placed_empty, by simp [absorb, Cache.endList],
      by simp [absorb, Cache.endList], by simp [absorb, Cache.endList], apart⟩

theorem Sound.call (sound : session.Sound admission) {call : QueueCall} {work : QueueSession}
    (running : call ≠ .close) (step : session.work.step? call = some work) :
    (session.called call work).Sound admission := by
  obtain ⟨more, handed, dirty, shut, _⟩ := QueueSession.step_progress step
  have overtaken : ∀ item, item ∈ (session.called call work).overtaken ↔
      (item ∈ session.overtaken ∨ item ∈ more) ∧ call.added? ≠ some item := by
    intro item
    simp [called, handed, or_and_right]
  refine ⟨sound.work.step ⟨call, step⟩, ?_, sound.cached, sound.buffered, sound.listed, sound.settled,
    ?_, ?_⟩
  · rw [Bool.eq_false_iff]
    intro closed
    rcases shut.1 closed with before | close
    · simp [sound.running] at before
    · exact running close
  · intro ref new hit relevant
    rw [overtaken]
    change _ ∈ work.queue.dirty ∨ _
    rw [dirty]
    have tracked := sound.queued ref new hit relevant
    by_cases added : call.added? = some (Watch.workOf new).text
    · exact .inl (.inr ⟨added, sound.running⟩)
    · by_cases taken : (Watch.workOf new).text ∈ more
      · exact .inr ⟨.inr taken, added⟩
      · exact tracked.imp (fun mem => .inl ⟨mem, taken⟩) fun mem => ⟨.inl mem, added⟩
  · intro item mem
    change item ∉ work.queue.dirty
    obtain ⟨early, added⟩ := (overtaken item).1 mem
    rw [dirty]
    rintro (⟨before, kept⟩ | ⟨adds, _⟩)
    · exact early.elim (fun mem => sound.apart item mem before) kept
    · exact added adds

theorem Sound.step (sound : session.Sound admission) (step : Step admission session later) :
    later.Sound admission := by
  cases step with
  | event event outcome ordered placed handled => exact sound.event ordered placed handled
  | call call work running step => exact sound.call running step

theorem Sound.leads (sound : session.Sound admission) (leads : Leads admission session later) :
    later.Sound admission := by
  induction leads with
  | refl => exact sound
  | tail _ step ih => exact ih.step step

/-- An object that a list does not mention any more is queued when the list ends. -/
theorem Sound.gone_queued (sound : session.Sound admission) {key : ResourceKey} {object : α}
    (cached : session.watch.cache.entries.get? ⟨key.name, some key.ns⟩ = some object)
    (absent : session.watch.cache.buffer.get? ⟨key.name, some key.ns⟩ = none)
    (admitted : Admissible.admitted admission object = true) :
    (⟨KubernetesObject.kind α, key⟩ : WorkKey) ∈
      (Watch.deletedAll admission session.index session.watch.gone).2 := by
  have own := (sound.cached _ object cached).1
  have unlisted : (⟨key.name, some key.ns⟩ : ObjectRef) ∉ session.watch.listed := by
    rw [sound.listed]
    simp [absent]
  have gone : object ∈ session.watch.gone := by
    refine List.mem_filter.2 ⟨Table.mem_values_iff.2 ⟨_, cached⟩, ?_⟩
    simpa [own] using unlisted
  rw [Watch.deletedAll_work, ← Watch.workOf_eq own]
  exact List.mem_map_of_mem (List.mem_filter.2 ⟨gone, admitted⟩)

/-- **A change that a list brings awaits a worker unless it was overtaken.** When the end of a list
changes what the cache returns for a key, and the object before or after is admitted, then the key
awaits a worker exactly if it was not handed out since the list began, or was added again after that.
It always does when the object is gone. -/
theorem relisted_awaits_iff {index : IngressIndex} {outcome : Watch.Outcome α} {key : ResourceKey}
    (run : Leads admission (start index) session) (listing : session.listing = true)
    (handled : session.watch.handle admission session.index .endList = some outcome)
    (changes : Watch.Relevant admission (session.watch.cache.find? key) (outcome.watch.cache.find? key)) :
    let text := (⟨KubernetesObject.kind α, key⟩ : WorkKey).text
    let later := session.absorb .endList outcome
    (later.work.queue.Awaits text ↔ text ∉ later.overtaken) ∧
      (outcome.watch.cache.find? key = none → later.work.queue.Awaits text) := by
  intro text later
  have sound := (sound_start admission index).leads run
  have ended : later.Sound admission := sound.event listing (by simp [WatchEvent.object?]) handled
  have awaits : later.work.queue.Awaits text ↔ text ∈ later.work.queue.dirty :=
    ended.work.consistent.awaits_iff
  cases handled
  have before : session.watch.cache.find? key =
      session.watch.cache.entries.get? ⟨key.name, some key.ns⟩ := Watch.get?_of_placed sound.cached _
  have after : session.watch.cache.endList.find? key =
      session.watch.cache.buffer.get? ⟨key.name, some key.ns⟩ := Watch.get?_of_placed sound.buffered _
  have vanished : session.watch.cache.endList.find? key = none → text ∈ later.work.queue.dirty := by
    intro none
    obtain ⟨differs, admitted⟩ := changes
    rw [none] at differs admitted
    obtain ⟨object, cached⟩ := Option.ne_none_iff_exists'.1 differs
    refine sound.absorb_added _ (sound.gone_queued (before ▸ cached) (after ▸ none) ?_)
    simpa [cached] using admitted
  refine ⟨⟨fun waits overtaken => ended.apart text overtaken (awaits.1 waits), fun timely => ?_⟩,
    fun none => awaits.2 (vanished none)⟩
  cases now : session.watch.cache.endList.find? key with
  | none => exact awaits.2 (vanished now)
  | some object =>
    rw [before, now] at changes
    have hit := after ▸ now
    have own := Watch.workOf_eq (sound.buffered _ object hit).1
    have tracked := sound.queued _ object hit changes
    rw [own] at tracked
    have kept : text ∈ later.work.queue.dirty ∨ text ∈ later.overtaken :=
      sound.absorb_kept _ rfl tracked
    exact awaits.2 (kept.resolve_right timely)

/-! ### A change that is overtaken -/

def ingressOf (className : String) : Ingress :=
  { metadata :=
      { name := some "site"
        ns := some "shop"
        annotations := some [("kubernetes.io/ingress.class", className)] }
    spec := none
    hasStatus := false }

def tunnelClass : Admission :=
  { ingressClass := "argo-tunnel", filterServices := false }

/-- An ingress of the controller's class is handled. A list begins, and shows it with another class. -/
def leavingClass : WatchSession Ingress :=
  let text := (Watch.workOf (ingressOf "argo-tunnel")).text
  let index := IngressIndex.new "argo-tunnel" { default := none, overrides := ∅ }
  let work := ((QueueSession.new.add text).take 0).finish 0 text
  { watch :=
      { cache :=
          { entries := Table.insert ∅ ⟨"site", some "shop"⟩ (ingressOf "argo-tunnel")
            buffer := Table.insert ∅ ⟨"site", some "shop"⟩ (ingressOf "nginx")
            ready := false }
        listed := [⟨"site", some "shop"⟩] }
    index := (index.upsert (ingressOf "argo-tunnel")).upsert (ingressOf "nginx")
    work := work.add text
    listing := true
    overtaken := [] }

theorem leads_leavingClass :
    Leads tunnelClass (start (IngressIndex.new "argo-tunnel" { default := none, overrides := ∅ }))
      leavingClass := by
  have placed (className : String) :
      (KubernetesObject.metadata (ingressOf className)).ns.isSome = true := rfl
  have handled := (Relation.ReflTransGen.refl (r := Step tunnelClass)
    (a := start (IngressIndex.new "argo-tunnel" { default := none, overrides := ∅ })))
    |>.tail (.event (.apply (ingressOf "argo-tunnel")) _ rfl (by simp [WatchEvent.object?, placed]) rfl)
    |>.tail (.call (.take 0) _ (by simp) rfl)
    |>.tail (.call (.finish 0 (Watch.workOf (ingressOf "argo-tunnel")).text) _ (by simp) rfl)
  exact handled
    |>.tail (.event .beginList _ rfl (by simp [WatchEvent.object?]) rfl)
    |>.tail (.event (.listItem (ingressOf "nginx")) _ rfl (by simp [WatchEvent.object?, placed]) rfl)

/-- The worker is in time: the key is in the queue when the list ends. -/
theorem relisted_awaits_leavingClass :
    let later := leavingClass.absorb .endList
      ⟨{ cache := leavingClass.watch.cache.endList, listed := [] }, leavingClass.index, []⟩
    later.work.queue.Awaits (Watch.workOf (ingressOf "argo-tunnel")).text := by
  have changes : Watch.Relevant tunnelClass (leavingClass.watch.cache.find? ⟨"shop", "site"⟩)
      (leavingClass.watch.cache.endList.find? ⟨"shop", "site"⟩) := ⟨by decide, .inl rfl⟩
  refine (relisted_awaits_iff leads_leavingClass rfl rfl changes).1.2 ?_
  simp [absorb, leavingClass]

/-- The worker is too early: it takes the key before the list ends, when the cache still holds the old
version. Then the new version awaits nobody, and the route stays. -/
theorem overtaken_lost :
    ¬ ∀ (admission : Admission) (index : IngressIndex) (session : WatchSession Ingress)
      (outcome : Watch.Outcome Ingress) (key : ResourceKey),
      Leads admission (start index) session → session.listing = true →
      session.watch.handle admission session.index .endList = some outcome →
      Watch.Relevant admission (session.watch.cache.find? key) (outcome.watch.cache.find? key) →
      (session.absorb .endList outcome).work.queue.Awaits (⟨.ingress, key⟩ : WorkKey).text := by
  intro always
  have early := leads_leavingClass.tail (.call (.take 1) _ (by simp) rfl)
  have waits := always _ _ _ _ ⟨"shop", "site"⟩ early rfl rfl ⟨by decide, .inl rfl⟩
  rcases waits with waits | ⟨_, dirty⟩
  · exact absurd waits (by decide)
  · exact absurd dirty (by decide)

end WatchSession

end TunnelIngress
