import Mathlib.Algebra.Order.BigOperators.Group.Finset
import StCache.Cluster.Convergence
import StCache.Store.Acceptance

namespace StCache

/-- The cluster together with what each node has handed to SetBroadcasts, in order. -/
structure Flood where
  cluster : Cluster
  queued : GoString → List MyBroadcastMessage

namespace Flood

def init (cfg : ClusterConfig) : Flood := ⟨.init cfg,fun _ => []⟩

/-- What a step adds to the messages queued for broadcast was queued by the node
that made the step. -/
def step (cfg : ClusterConfig) (f : Flood) (e : ClusterEvent) : Option Flood :=
  (f.cluster.step cfg e).map (fun t => ⟨t,fun a =>
    if e.actor=some a then f.queued a++t.network.drop f.cluster.network.length else f.queued a⟩)

/-- Every node is as it was, apart from the record of the calls of Set, and nothing
was queued. -/
def Unchanged (f g : Flood) : Prop :=
  (∀ b,{g.cluster.node b with received := []}={f.cluster.node b with received := []}) ∧
    g.queued=f.queued ∧ g.cluster.network=f.cluster.network

end Flood

/-- The event loses no report and happens on one of these nodes. -/
def ClusterEvent.Within (A : Finset GoString) (e : ClusterEvent) : Prop :=
  noLoss e=true ∧ ∀ a,e.actor=some a → a∈A

/-- What identifies a report for the flood. -/
def MyBroadcastMessage.identity (m : MyBroadcastMessage) : GoString × GoString × Int64 :=
  (m.key,m.node,m.timeStamp)

namespace Flood

/-- Everything a step without a loss can do to the stored reports and the queues. -/
theorem step_cases {cfg : ClusterConfig} {f g : Flood} {e : ClusterEvent} (kept : noLoss e=true)
    (h : f.step cfg e=some g) :
    f.cluster.Steps cfg e g.cluster ∧
    ((g.queued=f.queued ∧ g.cluster.network=f.cluster.network ∧
      ∀ b key n,(g.cluster.node b).fsm.gcm.report key n=
        (f.cluster.node b).fsm.gcm.report key n) ∨
    ∃ a m bs,e.actor=some a ∧ g.cluster.network=f.cluster.network++bs ∧
      g.queued=Function.update f.queued a (f.queued a++bs) ∧
      (f.cluster.node a).fsm.gcm.set m=some ((g.cluster.node a).fsm.gcm,bs)) := by
  obtain ⟨t,ht,rfl⟩ := Option.map_eq_some_iff.mp h
  have steps := f.cluster.step_steps cfg t e ht
  refine ⟨steps,?_⟩
  rcases steps.sets kept with ⟨network,quiet⟩|⟨a,m,bs,actor,-,network,-,hset⟩
  · refine .inl ⟨?_,network,fun b => (quiet b).2⟩
    funext a
    simp [network]
  · refine .inr ⟨a,m,bs,actor,network,?_,hset⟩
    funext b
    by_cases hb : b=a
    · subst b
      simp [actor,network]
    · have other : ¬a=b := fun he => hb he.symm
      simp [actor,other,hb]

/-- What a run without losses has queued: per pair of key and reporter ever newer
reports, none newer than the stored one. -/
structure Relays (A : Finset GoString) (f : Flood) : Prop where
  stored : ∀ a,∀ m∈f.queued a,(f.cluster.node a).fsm.gcm.HasReport m.key m.node m.timeStamp
  increasing : ∀ a,(f.queued a).Pairwise
    (fun x y => x.key=y.key → x.node=y.node → x.timeStamp < y.timeStamp)
  sent : ∀ a,∀ m∈f.queued a,m∈f.cluster.network
  originated : ∀ m∈f.cluster.network,m∈f.cluster.originated
  total : f.cluster.network.length=∑ a∈A,(f.queued a).length

theorem relays_init (A : Finset GoString) (cfg : ClusterConfig) : Relays A (init cfg) := by
  constructor <;> simp [init,Cluster.init]

theorem mem_update_append {queued : GoString → List MyBroadcastMessage} {a b : GoString}
    {bs : List MyBroadcastMessage} {x : MyBroadcastMessage}
    (h : x∈Function.update queued a (queued a++bs) b) : x∈queued b ∨ b=a ∧ x∈bs := by
  by_cases hb : b=a
  · subst b
    rw [Function.update_self,List.mem_append] at h
    exact h.imp_right (fun new => ⟨rfl,new⟩)
  · rw [Function.update_of_ne hb] at h
    exact Or.inl h

theorem sum_update_append (A : Finset GoString) (queued : GoString → List MyBroadcastMessage)
    {a : GoString} (here : a∈A) (bs : List MyBroadcastMessage) :
    ∑ b∈A,(Function.update queued a (queued a++bs) b).length=
      (∑ b∈A,(queued b).length)+bs.length := by
  rw [←Finset.add_sum_erase A _ here,←Finset.add_sum_erase A _ here,Function.update_self,
    List.length_append]
  have same : ∑ b∈A.erase a,(Function.update queued a (queued a++bs) b).length=
      ∑ b∈A.erase a,(queued b).length := by
    refine Finset.sum_congr rfl ?_
    intro b hb
    rw [Function.update_of_ne (Finset.ne_of_mem_erase hb)]
  omega

/-- What one node queues next is newer than what it queued of the pair before. -/
theorem Relays.increasing_set {A : Finset GoString} {f : Flood} (h : Relays A f) {a : GoString}
    {m : MyBroadcastMessage} {gcm : GossipCacheManager} {bs : List MyBroadcastMessage}
    (hset : (f.cluster.node a).fsm.gcm.set m=some (gcm,bs)) :
    (f.queued a++bs).Pairwise (fun x y => x.key=y.key → x.node=y.node →
      x.timeStamp < y.timeStamp) := by
  rw [List.pairwise_append]
  refine ⟨h.increasing a,?_,?_⟩
  · rcases GossipCacheManager.set_cases _ _ m bs hset with ⟨-,hb,-⟩|⟨hb,-⟩ <;> simp [hb]
  · intro x hx y hy hk hn
    have new := (f.cluster.node a).fsm.gcm.broadcast_of_set _ m bs hset y hy
    have before := h.stored a x hx
    rw [hk,hn,new] at before
    rw [new]
    exact before.lt_of_set hset (List.ne_nil_of_mem hy)

theorem Relays.step {A : Finset GoString} {cfg : ClusterConfig} {f g : Flood} {e : ClusterEvent}
    (h : Relays A f) (within : e.Within A) (hs : f.step cfg e=some g) : Relays A g := by
  obtain ⟨steps,cases⟩ := step_cases within.1 hs
  have originated := steps.broadcasts h.originated
  rcases cases with ⟨queued,network,reports⟩|⟨a,m,bs,actor,network,queued,hset⟩
  · refine ⟨?_,?_,?_,originated,?_⟩
    · intro b x hx
      rw [queued] at hx
      rw [GossipCacheManager.HasReport,reports]
      exact h.stored b x hx
    · rw [queued]
      exact h.increasing
    · rw [queued,network]
      exact h.sent
    · rw [network,queued,h.total]
  · have only := (f.cluster.node a).fsm.gcm.broadcast_of_set _ m bs hset
    have elsewhere (b : GoString) (hb : b≠a) : g.cluster.node b=f.cluster.node b :=
      steps.elsewhere b (fun he => hb (Option.some.inj (actor.symm.trans he)).symm)
    refine ⟨?_,?_,?_,originated,?_⟩
    · intro b x hx
      rw [queued] at hx
      cases mem_update_append hx with
      | inl old =>
        by_cases hb : b=a
        · subst b
          exact (h.stored a x old).set hset
        · rw [elsewhere b hb]
          exact h.stored b x old
      | inr new =>
        rw [new.1,only x new.2]
        exact GossipCacheManager.hasReport_set hset
    · intro b
      rw [queued]
      by_cases hb : b=a
      · subst b
        rw [Function.update_self]
        exact h.increasing_set hset
      · rw [Function.update_of_ne hb]
        exact h.increasing b
    · intro b x hx
      rw [queued] at hx
      rw [network]
      cases mem_update_append hx with
      | inl old => exact List.mem_append_left _ (h.sent b x old)
      | inr new => exact List.mem_append_right _ new.2
    · rw [network,queued,List.length_append,h.total,sum_update_append A _ (within.2 a actor)]

theorem Relays.run {A : Finset GoString} {cfg : ClusterConfig} {es : List ClusterEvent} {f : Flood}
    (within : ∀ e∈es,e.Within A) (hr : run (Flood.step cfg) (init cfg) es=some f) : Relays A f :=
  run_invariant (Flood.step cfg) (fun _ e => e.Within A) (Relays A)
    (fun _ _ _ h ok hs => h.step ok hs) es (init cfg) f (relays_init A cfg)
    (along_of_forall (Flood.step cfg) _ _ es within) hr

/-- A node queues a report at most once. -/
theorem Relays.nodup {A : Finset GoString} {f : Flood} (h : Relays A f) (a : GoString) :
    ((f.queued a).map MyBroadcastMessage.identity).Nodup := by
  rw [List.Nodup,List.pairwise_map]
  refine (h.increasing a).imp ?_
  intro x y newer same
  simp only [MyBroadcastMessage.identity,Prod.mk.injEq] at same
  exact Int64.ne_of_lt (newer same.1 same.2.1) same.2.2

theorem Relays.length_le {A : Finset GoString} {f : Flood} (h : Relays A f) (a : GoString) :
    (f.queued a).length≤f.cluster.originated.length := by
  have known : (f.queued a).map MyBroadcastMessage.identity⊆
      f.cluster.originated.map MyBroadcastMessage.identity := by
    apply List.map_subset
    intro m hm
    exact h.originated m (h.sent a m hm)
  have count := ((h.nodup a).subperm known).length_le
  rwa [List.length_map,List.length_map] at count

theorem Relays.network_le {A : Finset GoString} {f : Flood} (h : Relays A f) {M : Nat}
    (few : f.cluster.originated.length≤M) : f.cluster.network.length≤A.card*M := by
  rw [h.total]
  have each := Finset.sum_le_card_nsmul A (fun a => (f.queued a).length) M
    (fun a _ => Nat.le_trans (h.length_le a) few)
  rwa [nsmul_eq_mul,Nat.cast_id] at each

theorem network_grows {cfg : ClusterConfig} {f g : Flood} {e : ClusterEvent} (kept : noLoss e=true)
    (h : f.step cfg e=some g) : f.cluster.network.length≤g.cluster.network.length := by
  rcases (step_cases kept h).2 with ⟨-,network,-⟩|⟨a,m,bs,-,network,-⟩
  · rw [network]
  · rw [network,List.length_append]
    exact Nat.le_add_right _ _

/-- A delivery that queues nothing changes nothing. -/
theorem deliver_unchanged {cfg : ClusterConfig} {f g : Flood} {a : GoString}
    {m : MyBroadcastMessage} (h : f.step cfg (.deliver a m)=some g)
    (same : g.cluster.network.length=f.cluster.network.length) : f.Unchanged g := by
  obtain ⟨t,ht,rfl⟩ := Option.map_eq_some_iff.mp h
  cases f.cluster.step_steps cfg t _ ht with
  | deliver _ _ gcm bs hm hset =>
    have empty : bs=[] := by simpa using same
    rcases GossipCacheManager.set_cases _ _ m bs hset with ⟨rfl,-,-⟩|⟨hb,-⟩
    · refine ⟨?_,?_,by simp [empty]⟩
      · intro b
        exact f.cluster.put_frame a {f.cluster.node a with
          received := (f.cluster.node a).received++[m]} (fun n => {n with received := []}) rfl b
      · funext b
        simp [empty]
    · simp [hb] at empty

end Flood

/-- The flood of gossip dies out: with M originated reports and no losses no node
queues a report twice, the nodes of A queue at most M each, and in a run that never
ends there is a time after which every delivery changes nothing. -/
theorem gossip_flood_dies_out (cfg : ClusterConfig) (A : Finset GoString) (M : Nat) :
    (∀ es f,(∀ e∈es,e.Within A) → run (Flood.step cfg) (.init cfg) es=some f →
      f.cluster.originated.length≤M →
      (∀ a,((f.queued a).map MyBroadcastMessage.identity).Nodup) ∧
        f.cluster.network.length=∑ a∈A,(f.queued a).length ∧
        f.cluster.network.length≤A.card*M) ∧
    ∀ state event,Endless (Flood.step cfg) (.init cfg) state event →
      (∀ i,(event i).Within A) → (∀ i,(state i).cluster.originated.length≤M) →
      ∃ N,∀ i,N ≤ i → ∀ a m,event i=.deliver a m → (state i).Unchanged (state (i+1)) := by
  constructor
  · intro es f within hr few
    have relays := Flood.Relays.run within hr
    exact ⟨relays.nodup,relays.total,relays.network_le few⟩
  · intro state event endless within few
    have relays (i : Nat) : (state i).Relays A := by
      refine Flood.Relays.run ?_ (endless.run i)
      intro e he
      obtain ⟨j,-,rfl⟩ := List.mem_map.mp he
      exact within j
    obtain ⟨N,still⟩ := settles (fun i => (state i).cluster.network.length)
      (fun i => Flood.network_grows (within i).1 (endless.next i)) (A.card*M)
      (fun i => (relays i).network_le (few i))
    refine ⟨N,?_⟩
    intro i hi a m he
    have next := endless.next i
    rw [he] at next
    exact Flood.deliver_unchanged next ((still (i+1) (by omega)).trans (still i hi).symm)

/-- The delivery goes on for ever once node a has stored the report or a newer one. -/
theorem Flood.deliver_again {cfg : ClusterConfig} {a : GoString} {m : MyBroadcastMessage}
    {gcm : GossipCacheManager} (refused : gcm.set m=some (gcm,[])) (M : Nat) (f : Flood)
    (h : m∈f.cluster.network ∧ (f.cluster.node a).fsm.gcm=gcm ∧ f.cluster.originated.length≤M) :
    ∃ g,f.step cfg (.deliver a m)=some g ∧
      (m∈g.cluster.network ∧ (g.cluster.node a).fsm.gcm=gcm ∧ g.cluster.originated.length≤M) := by
  obtain ⟨sent,rfl,few⟩ := h
  have possible : (f.step cfg (.deliver a m)).isSome := by
    simp [Flood.step,Cluster.step,Cluster.receive,sent,refused]
  obtain ⟨g,hg⟩ := Option.isSome_iff_exists.mp possible
  obtain ⟨t,ht,rfl⟩ := Option.map_eq_some_iff.mp hg
  cases f.cluster.step_steps cfg t _ ht with
  | deliver _ _ gcm bs hm hset =>
    obtain ⟨rfl,rfl⟩ := Prod.mk.inj (Option.some.inj (hset.symm.trans refused))
    exact ⟨_,hg,List.mem_append_left [] sent,by simp [Cluster.put],few⟩

/-- Two reports on two nodes are queued three times; and however often node b gets the first one
again, from some time on nothing changes. -/
theorem gossip_flood_dies_out_pair :
    (∃ f,run (Flood.step pairConfig) (.init pairConfig) outOfOrder=some f ∧
      f.cluster.network.length=3 ∧
      ((f.queued (goStr "a")).map MyBroadcastMessage.identity).Nodup ∧
      f.cluster.network.length≤({goStr "a",goStr "b"} : Finset GoString).card*2) ∧
    ∃ state event,Endless (Flood.step pairConfig) (.init pairConfig) state event ∧
      (∀ i,outOfOrder.length ≤ i →
        event i=.deliver (goStr "b") ⟨11,goStr "a",goStr "k",goStr "v",gossipUp⟩) ∧
      ∃ N,∀ i,N ≤ i → (state i).Unchanged (state (i+1)) := by
  have dies := gossip_flood_dies_out pairConfig {goStr "a",goStr "b"} 2
  have within : ∀ e∈outOfOrder,e.Within {goStr "a",goStr "b"} := by
    have each : ∀ e∈outOfOrder,noLoss e=true ∧
        (e.actor=none ∨ e.actor=some (goStr "a") ∨ e.actor=some (goStr "b")) := by decide
    intro e he
    refine ⟨(each e he).1,fun a ha => ?_⟩
    have actor := (each e he).2
    rw [ha] at actor
    simpa using actor
  have done : (run (Flood.step pairConfig) (.init pairConfig) outOfOrder).map
      (fun f => (f.cluster.network.length,f.cluster.originated.length,
        decide (⟨11,goStr "a",goStr "k",goStr "v",gossipUp⟩∈f.cluster.network),
        decide ((f.cluster.node (goStr "b")).fsm.gcm.set
          ⟨11,goStr "a",goStr "k",goStr "v",gossipUp⟩=
            some ((f.cluster.node (goStr "b")).fsm.gcm,[]))))=some (3,2,true,true) := by
    decide +kernel
  obtain ⟨f,hf,counts⟩ := Option.map_eq_some_iff.mp done
  simp only [Prod.mk.injEq,decide_eq_true_eq] at counts
  obtain ⟨queued,originated,sent,refused⟩ := counts
  constructor
  · have finite := dies.1 outOfOrder f within hf (by omega)
    exact ⟨f,hf,queued,finite.1 _,finite.2.2⟩
  · obtain ⟨state,endless,facts⟩ := endless_loop hf
      (.deliver (goStr "b") ⟨11,goStr "a",goStr "k",goStr "v",gossipUp⟩) _
      ⟨sent,rfl,(by omega : f.cluster.originated.length≤2)⟩ (Flood.deliver_again refused 2)
    have early : ∀ i∈List.range (outOfOrder.length+1),
        ((run (Flood.step pairConfig) (.init pairConfig) (outOfOrder.take i)).all
          (fun u => decide (u.cluster.originated.length≤2)))=true := by
      decide +kernel
    have few (i : Nat) : (state i).cluster.originated.length≤2 := by
      by_cases hi : i≤outOfOrder.length
      · have now := early i (List.mem_range.mpr (by omega))
        rw [(facts i).1 hi] at now
        simpa using now
      · exact ((facts i).2 (by omega)).2.2
    have again : (ClusterEvent.deliver (goStr "b")
        ⟨11,goStr "a",goStr "k",goStr "v",gossipUp⟩).Within {goStr "a",goStr "b"} := by
      refine ⟨rfl,fun a ha => ?_⟩
      obtain rfl : goStr "b"=a := Option.some.inj ha
      simp
    obtain ⟨N,settled⟩ := dies.2 state _ endless (forall_getD within again) few
    refine ⟨state,_,endless,fun i hi => List.getD_eq_default _ _ hi,max N outOfOrder.length,?_⟩
    intro i hi
    exact settled i (by omega) _ _ (List.getD_eq_default _ _ (by omega))

end StCache
