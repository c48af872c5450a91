import Mathlib.Logic.Relation
import StCache.Cluster.Traffic

namespace StCache

namespace Traffic

/-- No report that the event queues takes the place of another one that is still valid. -/
def Spares (cfg : ClusterConfig) (s : Traffic) (e : TrafficEvent) : Prop :=
  ∀ x∈e.cluster,∀ f∈s.flood.step cfg x,∀ a∈x.actor,
    ∀ m∈(f.queued a).drop (s.flood.queued a).length,(s.sender a).Spares m

instance (cfg : ClusterConfig) (s : Traffic) (e : TrafficEvent) : Decidable (s.Spares cfg e) :=
  inferInstanceAs (Decidable (∀ x∈_,∀ f∈_,∀ a∈_,∀ m∈_,_))

/-- A step queues at most one report, and only on the node it happens on. -/
theorem new_messages {cfg : ClusterConfig} {f g : Flood} {e : ClusterEvent} (kept : noLoss e=true)
    (h : f.step cfg e=some g) (a : GoString) :
    (g.queued a).drop (f.queued a).length=[] ∨
      ∃ m,(g.queued a).drop (f.queued a).length=[m] ∧ e.actor=some a := by
  rcases (Flood.step_cases kept h).2 with ⟨queued,-⟩|⟨b,m,bs,actor,-,queued,hset⟩
  · rw [queued]
    exact .inl List.drop_length
  · rw [queued]
    by_cases ha : a=b
    · subst a
      rw [Function.update_self,List.drop_left]
      rcases GossipCacheManager.set_cases _ _ m bs hset with ⟨-,none,-⟩|⟨one,-⟩
      · exact .inl none
      · exact .inr ⟨m,one,actor⟩
    · rw [Function.update_of_ne ha]
      exact .inl List.drop_length

theorem whole_step {cfg : ClusterConfig} {A : Finset GoString} {T : Nat} {s t : Traffic}
    {e : TrafficEvent} (h : ∀ a,(s.sender a).Whole) (within : e.Within A T) (kept : e.Keeps)
    (spares : s.Spares cfg e) (hs : s.step cfg e=some t) : ∀ a,(t.sender a).Whole := by
  rcases step_cases hs with ⟨x,hx,flow⟩|⟨b,call,rfl,rfl⟩
  · intro a
    have kept := (within.cluster kept hx).1
    obtain ⟨f,hf,rfl⟩ := Option.map_eq_some_iff.mp flow
    simp only [alive kept a,Bool.false_eq_true,if_false]
    rcases new_messages kept hf a with none|⟨m,one,actor⟩
    · rw [none]
      exact h a
    · rw [one]
      exact (h a).queueBroadcast (spares x hx f hf a actor m (by rw [one]; exact List.mem_cons_self))
  · exact (Function.forall_update_iff s.sender (fun _ x => x.Whole)).mpr
      ⟨(h b).getBroadcasts within.2.1,fun a _ => h a⟩

end Traffic

namespace Flood

/-- Every stored report was queued by its node. -/
def Kept (f : Flood) : Prop :=
  ∀ a key n r,(f.cluster.node a).fsm.gcm.report key n=some r →
    ∃ m∈f.queued a,m.key=key ∧ m.node=n ∧ r=⟨m.status,m.timeStamp⟩

theorem Kept.step {cfg : ClusterConfig} {f g : Flood} {e : ClusterEvent} (h : f.Kept)
    (kept : noLoss e=true) (hs : f.step cfg e=some g) : g.Kept := by
  obtain ⟨steps,cases⟩ := step_cases kept hs
  intro a key n r hr
  rcases cases with ⟨queued,-,reports⟩|⟨b,m,bs,actor,-,queued,hset⟩
  · rw [reports] at hr
    rw [queued]
    exact h a key n r hr
  · rw [queued]
    by_cases ha : a=b
    · subst a
      rw [Function.update_self]
      rcases GossipCacheManager.set_cases _ _ m bs hset with ⟨same,none,-⟩|⟨rfl,-⟩
      · rw [same] at hr
        obtain ⟨x,hx,about⟩ := h b key n r hr
        exact ⟨x,List.mem_append_left bs hx,about⟩
      · by_cases about : key=m.key ∧ n=m.node
        · rw [about.1,about.2,GossipCacheManager.report_of_accepted hset] at hr
          exact ⟨m,List.mem_append_right _ List.mem_cons_self,about.1.symm,about.2.symm,
            (Option.some.inj hr).symm⟩
        · rw [GossipCacheManager.report_set _ _ m [m] hset,if_neg about] at hr
          obtain ⟨x,hx,facts⟩ := h b key n r hr
          exact ⟨x,List.mem_append_left [m] hx,facts⟩
    · rw [Function.update_of_ne ha]
      rw [steps.elsewhere a (fun he => ha (Option.some.inj (actor.symm.trans he)).symm)] at hr
      exact h a key n r hr

end Flood

namespace Traffic

/-- What a run that spares valid reports keeps: the gossip of the cluster, every stored report was
queued, and every queued report was sent, is queued or is obsolete. -/
structure Spreading (s : Traffic) : Prop where
  gossiping : s.flood.cluster.Gossiping
  kept : s.flood.Kept
  queued : ∀ a,(s.sender a).queued=s.flood.queued a
  whole : ∀ a,(s.sender a).Whole

theorem Spreading.step {cfg : ClusterConfig} {A : Finset GoString} {T : Nat} {s t : Traffic}
    {e : TrafficEvent} (h : s.Spreading) (within : e.Within A T) (kept : e.Keeps)
    (spares : s.Spares cfg e) (hs : s.step cfg e=some t) : t.Spreading := by
  have whole := whole_step h.whole within kept spares hs
  rcases step_cases hs with ⟨x,hx,flow⟩|⟨b,call,rfl,rfl⟩
  · have kept := (within.cluster kept hx).1
    have queued := queued_flow h.queued kept flow
    obtain ⟨f,hf,rfl⟩ := Option.map_eq_some_iff.mp flow
    exact ⟨h.gossiping.step kept (Flood.step_cases kept hf).1,h.kept.step kept hf,queued,whole⟩
  · refine ⟨h.gossiping,h.kept,?_,whole⟩
    exact (Function.forall_update_iff s.sender (fun a x => x.queued=s.flood.queued a)).mpr
      ⟨h.queued b,fun a _ => h.queued a⟩

section Silence
variable {A : Finset GoString} {s : Traffic} {L : GoString → GoString → Prop} {key n : GoString}
  {r : GossipStatusAndTimeStamp}

/-- With an empty queue the report that a node stores is in one of its packets. -/
theorem Spreading.sent (h : s.Spreading) (relays : s.flood.Relays A) {a : GoString}
    (silent : (s.sender a).queue.tq=[])
    (stored : (s.flood.cluster.node a).fsm.gcm.report key n=some r) :
    ∃ m∈(s.sender a).packets.flatten,m∈s.flood.cluster.network ∧ m.key=key ∧ m.node=n ∧
      r=⟨m.status,m.timeStamp⟩ := by
  obtain ⟨m,hm,hk,hn,rfl⟩ := h.kept a key n r stored
  refine ⟨m,?_,relays.sent a m hm,hk,hn,rfl⟩
  rcases (h.whole a).kept m (by rw [h.queued]; exact hm) with sent|⟨x,hx,-⟩|⟨y,hy,obsolete⟩
  · exact sent
  · rw [silent] at hx
    cases hx
  · -- a newer report of the pair would be stored instead
    rw [h.queued] at hy
    obtain ⟨r',hr',newest⟩ := relays.stored a y hy
    simp only [MyBroadcastMessage.invalidates,Bool.and_eq_true,decide_eq_true_eq] at obsolete
    obtain ⟨⟨node,same⟩,newer⟩ := obsolete
    rw [same,node,hk,hn,stored] at hr'
    rw [←Option.some.inj hr'] at newest
    exact absurd newer (Int64.not_lt.mpr newest)

/-- What one node stores, its neighbours have at least as new. -/
theorem Spreading.neighbour (h : s.Spreading) (relays : s.flood.Relays A) {a b : GoString}
    (silent : (s.sender a).queue.tq=[])
    (delivered : ∀ m∈(s.sender a).packets.flatten,m∈(s.flood.cluster.node b).received)
    (stored : (s.flood.cluster.node a).fsm.gcm.report key n=some r) :
    (s.flood.cluster.node b).fsm.gcm.HasReport key n r.timeStamp := by
  obtain ⟨m,hm,-,hk,hn,rfl⟩ := h.sent relays silent stored
  have here := mem_reportsOf.mpr ⟨delivered m hm,hk,hn⟩
  obtain ⟨r',hr',newer⟩ := le_newestReport here
  exact ⟨r',(h.gossiping.newest b key n).trans hr',newer⟩

theorem Spreading.reaches (h : s.Spreading) (relays : s.flood.Relays A)
    (silent : ∀ a∈A,(s.sender a).queue.tq=[])
    (delivered : ∀ a b,L a b → a∈A ∧
      ∀ m∈(s.sender a).packets.flatten,m∈(s.flood.cluster.node b).received)
    {a b : GoString} (path : Relation.ReflTransGen L a b)
    (stored : (s.flood.cluster.node a).fsm.gcm.report key n=some r) :
    (s.flood.cluster.node b).fsm.gcm.HasReport key n r.timeStamp := by
  induction path with
  | refl => exact ⟨r,stored,Int64.le_refl _⟩
  | tail _ link ih =>
    obtain ⟨r',hr',newer⟩ := ih
    obtain ⟨inside,arrived⟩ := delivered _ _ link
    obtain ⟨r'',hr'',newest⟩ := h.neighbour relays (silent _ inside) arrived hr'
    exact ⟨r'',hr'',Int64.le_trans newer newest⟩

/-- Two nodes that reach each other store the same report. -/
theorem Spreading.agree (h : s.Spreading) (relays : s.flood.Relays A)
    (silent : ∀ a∈A,(s.sender a).queue.tq=[])
    (delivered : ∀ a b,L a b → a∈A ∧
      ∀ m∈(s.sender a).packets.flatten,m∈(s.flood.cluster.node b).received)
    {a b : GoString} (ha : a∈A) (hb : b∈A) (there : Relation.ReflTransGen L a b)
    (back : Relation.ReflTransGen L b a)
    (stored : (s.flood.cluster.node a).fsm.gcm.report key n=some r) :
    (s.flood.cluster.node b).fsm.gcm.report key n=some r := by
  obtain ⟨r',hr',newer⟩ := h.reaches relays silent delivered there stored
  obtain ⟨r'',hr'',older⟩ := h.reaches relays silent delivered back hr'
  rw [stored] at hr''
  rw [←Option.some.inj hr''] at older
  have stamp := Int64.le_antisymm newer older
  obtain ⟨m,-,net,hk,hn,rfl⟩ := h.sent relays (silent a ha) stored
  obtain ⟨m',-,net',hk',hn',rfl⟩ := h.sent relays (silent b hb) hr'
  rw [hr',h.gossiping.unique m net m' net' (hk.trans hk'.symm) (hn.trans hn'.symm) stamp]

end Silence

end Traffic

end StCache
