import Mathlib.Data.Multiset.Dedup
import StCache.Framework.Runs
import StCache.Store.GossipCache

namespace StCache

namespace MyBroadcastMessage

/-- Whom a report is about: the reporter and the key. -/
def subject (m : MyBroadcastMessage) : GoString × GoString := (m.node,m.key)

/-- Invalidates -/
def invalidates (m mb : MyBroadcastMessage) : Bool :=
  m.node=mb.node && m.key=mb.key && mb.timeStamp < m.timeStamp

theorem invalidates_iff (m mb : MyBroadcastMessage) :
    m.invalidates mb=true ↔ m.subject=mb.subject ∧ mb.timeStamp < m.timeStamp := by
  simp [invalidates,subject]

end MyBroadcastMessage

/-- The TransmitLimitedQueue of memberlist; its order is its own affair. -/
abbrev TransmitLimitedQueue := Multiset MyBroadcastMessage

/-- QueueBroadcast: what the new message invalidates goes, then it is added. -/
def TransmitLimitedQueue.queueBroadcast (queue : TransmitLimitedQueue) (b : MyBroadcastMessage) :
    TransmitLimitedQueue := b ::ₘ queue.filter (fun m => b.invalidates m=false)

/-- MyDelegate.setBroadcasts -/
def TransmitLimitedQueue.setBroadcasts (queue : TransmitLimitedQueue)
    (broadcasts : List MyBroadcastMessage) : TransmitLimitedQueue :=
  broadcasts.foldl queueBroadcast queue

/-- The store of a node and the queue it broadcasts from. -/
structure Outgoing where
  gcm : GossipCacheManager := .new
  queue : TransmitLimitedQueue := 0

inductive OutgoingEvent where
  | set (m : MyBroadcastMessage)
  | notify (key : GoString) (u : Notify)
  | getBroadcasts (kept : TransmitLimitedQueue)
  deriving DecidableEq

/-- Set holds the lock of the store until SetBroadcasts has returned. A GetBroadcasts in between
takes messages from the queue only, as one before the Set would. -/
def Outgoing.step (s : Outgoing) : OutgoingEvent → Option Outgoing
  | .set m => (s.gcm.set m).map (fun r => ⟨r.1,s.queue.setBroadcasts r.2⟩)
  | .notify key u => some {s with gcm := s.gcm.notify key u}
  | .getBroadcasts kept => if kept ≤ s.queue then some {s with queue := kept} else none

/-- At most one message of each reporter and key, and it is what the store has. -/
structure Outgoing.Newest (s : Outgoing) : Prop where
  single : (s.queue.map MyBroadcastMessage.subject).Nodup
  stored : ∀ m∈s.queue,s.gcm.report m.key m.node=some ⟨m.status,m.timeStamp⟩

/-- A message that invalidates all others of its subject takes their place. -/
theorem TransmitLimitedQueue.single_queueBroadcast {queue : TransmitLimitedQueue}
    {b : MyBroadcastMessage} (single : (queue.map MyBroadcastMessage.subject).Nodup)
    (newer : ∀ m∈queue,m.subject=b.subject → b.invalidates m=true) :
    ((queue.queueBroadcast b).map MyBroadcastMessage.subject).Nodup := by
  rw [queueBroadcast,Multiset.map_cons,Multiset.nodup_cons]
  constructor
  · intro member
    obtain ⟨m,hm,same⟩ := Multiset.mem_map.mp member
    obtain ⟨queued,kept⟩ := Multiset.mem_filter.mp hm
    rw [newer m queued same] at kept
    cases kept
  · exact Multiset.nodup_of_le (Multiset.map_le_map (Multiset.filter_le _ queue)) single

/-- Whatever queueBroadcast keeps is about something else. -/
theorem TransmitLimitedQueue.mem_queueBroadcast {queue : TransmitLimitedQueue}
    {b m : MyBroadcastMessage} (newer : ∀ m∈queue,m.subject=b.subject → b.invalidates m=true)
    (hm : m∈queue.queueBroadcast b) : m=b ∨ m∈queue ∧ m.subject≠b.subject := by
  rw [queueBroadcast,Multiset.mem_cons,Multiset.mem_filter] at hm
  cases hm with
  | inl new => exact Or.inl new
  | inr old =>
    refine Or.inr ⟨old.1,fun same => ?_⟩
    have gone := newer m old.1 same
    rw [old.2] at gone
    cases gone

theorem Outgoing.Newest.set {s : Outgoing} (h : s.Newest) {m : MyBroadcastMessage}
    {d : GossipCacheManager} {bs : List MyBroadcastMessage} (hset : s.gcm.set m=some (d,bs)) :
    Outgoing.Newest ⟨d,s.queue.setBroadcasts bs⟩ := by
  rcases s.gcm.set_cases d m bs hset with ⟨rfl,rfl,-⟩|⟨rfl,accepted,-⟩
  · exact ⟨h.single,h.stored⟩
  · -- what Set accepts is newer than the stored report, and that is the one in the queue
    have newer : ∀ x∈s.queue,x.subject=m.subject → m.invalidates x=true := by
      intro x hx same
      obtain ⟨node,key⟩ := Prod.mk.inj same
      have stored := h.stored x hx
      rw [node,key] at stored
      have older := accepted ⟨x.status,x.timeStamp⟩ stored
      exact (m.invalidates_iff x).mpr ⟨same.symm,older⟩
    refine ⟨TransmitLimitedQueue.single_queueBroadcast h.single newer,?_⟩
    intro x hx
    show d.report x.key x.node=some ⟨x.status,x.timeStamp⟩
    cases TransmitLimitedQueue.mem_queueBroadcast newer hx with
    | inl new =>
      subst new
      exact GossipCacheManager.report_of_accepted hset
    | inr old =>
      have apart : ¬(x.key=m.key ∧ x.node=m.node) := by
        rintro ⟨key,node⟩
        exact old.2 (Prod.ext node key)
      rw [s.gcm.report_set d m [m] hset,if_neg apart]
      exact h.stored x old.1

theorem Outgoing.Newest.step {s t : Outgoing} (h : s.Newest) {e : OutgoingEvent}
    (hs : s.step e=some t) : t.Newest := by
  cases e with
  | set m =>
    obtain ⟨⟨d,bs⟩,hset,rfl⟩ := Option.map_eq_some_iff.mp hs
    exact h.set hset
  | notify key u =>
    cases hs
    refine ⟨h.single,fun m hm => ?_⟩
    rw [GossipCacheManager.report_notify]
    exact h.stored m hm
  | getBroadcasts kept =>
    simp only [Outgoing.step] at hs
    split_ifs at hs with fewer
    cases hs
    exact ⟨Multiset.nodup_of_le (Multiset.map_le_map fewer) h.single,
      fun m hm => h.stored m (Multiset.mem_of_le fewer hm)⟩

/-- The queue carries at most the newest report of each reporter and key. -/
theorem queue_newest (es : List OutgoingEvent) (s : Outgoing)
    (hr : run Outgoing.step {} es=some s) :
    (s.queue.map MyBroadcastMessage.subject).Nodup ∧
      ∀ m∈s.queue,s.gcm.report m.key m.node=some ⟨m.status,m.timeStamp⟩ := by
  have start : Outgoing.Newest {} := ⟨Multiset.nodup_zero,fun m hm => absurd hm (by simp)⟩
  have newest := run_invariant Outgoing.step (fun _ _ => True) Outgoing.Newest
    (fun _ _ _ h _ hs => h.step hs) es {} s start (along_of_forall _ _ _ es (by simp)) hr
  exact ⟨newest.single,newest.stored⟩

/-- A newer report of a pair, an older one, and a GetBroadcasts that drops the one of a second key. -/
theorem queue_newest_reordered :
    ∃ s,run Outgoing.step {} [.set ⟨7,[1],[97],[],[85]⟩,.set ⟨9,[1],[97],[],[68]⟩,
        .set ⟨8,[1],[97],[],[85]⟩,.set ⟨10,[1],[98],[],[85]⟩,
        .getBroadcasts {⟨9,[1],[97],[],[68]⟩}]=some s ∧
      (s.queue.map MyBroadcastMessage.subject).Nodup ∧
      ∀ m∈s.queue,s.gcm.report m.key m.node=some ⟨m.status,m.timeStamp⟩ := by
  have ends : (run Outgoing.step {} [.set ⟨7,[1],[97],[],[85]⟩,.set ⟨9,[1],[97],[],[68]⟩,
      .set ⟨8,[1],[97],[],[85]⟩,.set ⟨10,[1],[98],[],[85]⟩,
      .getBroadcasts {⟨9,[1],[97],[],[68]⟩}]).isSome=true := by decide +kernel
  obtain ⟨s,hs⟩ := Option.isSome_iff_exists.mp ends
  exact ⟨s,hs,queue_newest _ s hs⟩

end StCache
