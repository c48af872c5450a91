import StCache.Cluster.Flood
import StCache.Gossip.Transmission

namespace StCache

/-- The event hands a node a message of the network. -/
def ClusterEvent.isDeliver : ClusterEvent → Bool
  | .deliver _ _ => true
  | _ => false

/-- The process of node a is replaced. -/
def ClusterEvent.restarts (a : GoString) : ClusterEvent → Bool
  | .restart b _ => b=a
  | _ => false

/-- The cluster and the sender of each node. -/
structure Traffic where
  flood : Flood
  sender : GoString → Sender

/-- `deliver` hands node a message m of a packet of node source. -/
inductive TrafficEvent where
  | node (e : ClusterEvent)
  | deliver (source a : GoString) (m : MyBroadcastMessage)
  | getBroadcasts (a : GoString) (call : Transmit.Call)

namespace TrafficEvent

/-- What the cluster does in an event. -/
def cluster : TrafficEvent → Option ClusterEvent
  | .node e => some e
  | .deliver _ a m => some (.deliver a m)
  | .getBroadcasts _ _ => none

/-- The event happens on one of these nodes, a call of GetBroadcasts with a limit of at most T
transmissions. -/
def Within (A : Finset GoString) (T : Nat) : TrafficEvent → Prop
  | .node e => ∀ a,e.actor=some a → a∈A
  | .deliver _ a _ => a∈A
  | .getBroadcasts a call => a∈A ∧ 0 ≤ call.overhead ∧ call.transmitLimit≤T

/-- The event is no DelKey, DelNodeAddr or restart. -/
def Keeps : TrafficEvent → Prop
  | .node e => noLoss e=true
  | _ => True

theorem Within.cluster {A : Finset GoString} {T : Nat} {e : TrafficEvent} (h : e.Within A T)
    (kept : e.Keeps) {x : ClusterEvent} (hx : e.cluster=some x) : x.Within A := by
  cases e with
  | node e =>
    cases hx
    exact ⟨kept,h⟩
  | deliver source a m =>
    cases hx
    refine ⟨rfl,?_⟩
    intro b hb
    cases hb
    exact h
  | getBroadcasts a call => cases hx

end TrafficEvent

namespace Traffic

def init (cfg : ClusterConfig) : Traffic := ⟨.init cfg,fun _ => {}⟩

/-- What the cluster queues goes to SetBroadcasts; a new process starts with an empty queue. -/
def flow (cfg : ClusterConfig) (s : Traffic) (e : ClusterEvent) : Option Traffic :=
  (s.flood.step cfg e).map (fun f => ⟨f,fun a =>
    let old := if e.restarts a then {s.sender a with queue := {}} else s.sender a
    old.setBroadcasts ((f.queued a).drop (s.flood.queued a).length)⟩)

def getBroadcasts (s : Traffic) (a : GoString) (call : Transmit.Call) : Traffic :=
  {s with sender := Function.update s.sender a ((s.sender a).getBroadcasts call)}

def step (cfg : ClusterConfig) (s : Traffic) : TrafficEvent → Option Traffic
  | .node e => if e.isDeliver then none else s.flow cfg e
  | .deliver source a m =>
    if m∈(s.sender source).packets.flatten then s.flow cfg (.deliver a m) else none
  | .getBroadcasts a call => some (s.getBroadcasts a call)

/-- Everything a step can do. -/
theorem step_cases {cfg : ClusterConfig} {s t : Traffic} {e : TrafficEvent}
    (h : s.step cfg e=some t) :
    (∃ x,e.cluster=some x ∧ s.flow cfg x=some t) ∨
    ∃ a call,e=.getBroadcasts a call ∧ t=s.getBroadcasts a call := by
  cases e with
  | node e =>
    simp only [step] at h
    split_ifs at h
    exact .inl ⟨e,rfl,h⟩
  | deliver source a m =>
    simp only [step] at h
    split_ifs at h
    exact .inl ⟨.deliver a m,rfl,h⟩
  | getBroadcasts a call =>
    cases h
    exact .inr ⟨a,call,rfl,rfl⟩

/-- Every run with packets is a run of the cluster in which messages arrive at will. -/
theorem flood_run {cfg : ClusterConfig} {es : List TrafficEvent} {s t : Traffic}
    (hr : run (step cfg) s es=some t) :
    run (Flood.step cfg) s.flood (es.filterMap TrafficEvent.cluster)=some t.flood := by
  induction es generalizing s with
  | nil =>
    cases hr
    rfl
  | cons e es ih =>
    rw [run_cons] at hr
    obtain ⟨u,hu,hr⟩ := Option.bind_eq_some_iff.mp hr
    have rest := ih hr
    rcases step_cases hu with ⟨x,hx,flow⟩|⟨a,call,rfl,rfl⟩
    · obtain ⟨f,hf,rfl⟩ := Option.map_eq_some_iff.mp flow
      rw [List.filterMap_cons_some hx,run_cons,hf]
      exact rest
    · rw [List.filterMap_cons_none rfl]
      exact rest

/-- The senders hold what the cluster has queued, and T transmissions of each are paid for. -/
structure Carries (T : Nat) (s : Traffic) : Prop where
  queued : ∀ a,(s.sender a).queued=s.flood.queued a
  paid : ∀ a,(s.sender a).Paid T

theorem carries_init (T : Nat) (cfg : ClusterConfig) : Carries T (init cfg) :=
  ⟨fun _ => rfl,fun _ => Sender.paid_new T⟩

theorem queued_append {cfg : ClusterConfig} {f g : Flood} {e : ClusterEvent}
    (h : f.step cfg e=some g) (a : GoString) :
    g.queued a=f.queued a++(g.queued a).drop (f.queued a).length := by
  obtain ⟨t,-,rfl⟩ := Option.map_eq_some_iff.mp h
  by_cases actor : e.actor=some a <;> simp [actor]

/-- Without a loss no process is replaced. -/
theorem alive {e : ClusterEvent} (kept : noLoss e=true) (a : GoString) : e.restarts a=false := by
  cases e with
  | restart => cases kept
  | _ => rfl

/-- The senders are given what the cluster queues. -/
theorem queued_flow {cfg : ClusterConfig} {s t : Traffic} {e : ClusterEvent}
    (h : ∀ a,(s.sender a).queued=s.flood.queued a) (kept : noLoss e=true)
    (hs : s.flow cfg e=some t) : ∀ a,(t.sender a).queued=t.flood.queued a := by
  obtain ⟨f,hf,rfl⟩ := Option.map_eq_some_iff.mp hs
  intro a
  simp only [alive kept a,Bool.false_eq_true,if_false]
  rw [Sender.queued_setBroadcasts,h a]
  exact (queued_append hf a).symm

theorem Carries.flow {T : Nat} (positive : 0<T) {cfg : ClusterConfig} {s t : Traffic}
    (h : s.Carries T) {e : ClusterEvent} (kept : noLoss e=true) (hs : s.flow cfg e=some t) :
    t.Carries T := by
  have queued := queued_flow h.queued kept hs
  obtain ⟨f,hf,rfl⟩ := Option.map_eq_some_iff.mp hs
  refine ⟨queued,?_⟩
  intro a
  simp only [alive kept a,Bool.false_eq_true,if_false]
  exact (h.paid a).setBroadcasts positive _

theorem Carries.step {T : Nat} (positive : 0<T) {A : Finset GoString} {cfg : ClusterConfig}
    {s t : Traffic} (h : s.Carries T) {e : TrafficEvent} (within : e.Within A T) (kept : e.Keeps)
    (hs : s.step cfg e=some t) : t.Carries T := by
  rcases step_cases hs with ⟨x,hx,flow⟩|⟨a,call,rfl,rfl⟩
  · exact h.flow positive (within.cluster kept hx).1 flow
  · refine ⟨?_,?_⟩
    · exact (Function.forall_update_iff s.sender (fun b x => x.queued=s.flood.queued b)).mpr
        ⟨h.queued a,fun b _ => h.queued b⟩
    · exact (Function.forall_update_iff s.sender (fun _ x => x.Paid T)).mpr
        ⟨(h.paid a).getBroadcasts within.2.1 within.2.2,fun b _ => h.paid b⟩

section Run
variable {T : Nat} (positive : 0<T) {A : Finset GoString} {cfg : ClusterConfig}
  {es : List TrafficEvent} {s : Traffic} (within : ∀ e∈es,e.Within A T) (kept : ∀ e∈es,e.Keeps)
  (hr : run (step cfg) (init cfg) es=some s)
include within kept hr

theorem relays_run : s.flood.Relays A := by
  refine Flood.Relays.run ?_ (flood_run hr)
  intro x hx
  obtain ⟨e,he,hc⟩ := List.mem_filterMap.mp hx
  exact (within e he).cluster (kept e he) hc

include positive

theorem carries_run : s.Carries T :=
  run_invariant (step cfg) (fun _ e => e.Within A T ∧ e.Keeps) (Carries T)
    (fun _ _ _ h ok hs => h.step positive ok.1 ok.2 hs) es (init cfg) s (carries_init T cfg)
    (along_of_forall (step cfg) _ _ es (fun e he => ⟨within e he,kept e he⟩)) hr

/-- A node sends at most T messages for each report of the cluster. -/
theorem sent_run (a : GoString) :
    (s.sender a).packets.flatten.length≤T*s.flood.cluster.originated.length := by
  have carries := carries_run positive within kept hr
  have most := (carries.paid a).sent_le (fun _ => true)
  rw [List.countP_true,carries.queued a] at most
  exact Nat.le_trans most (Nat.mul_le_mul_left T ((relays_run within kept hr).length_le a))

theorem traffic_run {M : Nat} (few : s.flood.cluster.originated.length≤M) :
    ∑ a∈A,(s.sender a).packets.flatten.length≤T*(A.card*M) := by
  have each := Finset.sum_le_card_nsmul A (fun a => (s.sender a).packets.flatten.length) (T*M)
    (fun a _ => Nat.le_trans (sent_run positive within kept hr a) (Nat.mul_le_mul_left T few))
  rw [nsmul_eq_mul,Nat.cast_id,Nat.mul_left_comm] at each
  exact each

end Run

/-- What a node has sent only grows. -/
theorem packets_grow {cfg : ClusterConfig} {s t : Traffic} {e : TrafficEvent}
    (h : s.step cfg e=some t) (b : GoString) :
    (s.sender b).packets.flatten.length≤(t.sender b).packets.flatten.length := by
  rcases step_cases h with ⟨x,-,flow⟩|⟨a,call,rfl,rfl⟩
  · obtain ⟨f,-,rfl⟩ := Option.map_eq_some_iff.mp flow
    rw [Sender.packets_setBroadcasts]
    split_ifs <;> exact Nat.le_refl _
  · exact (Function.forall_update_iff s.sender (fun b x =>
      (s.sender b).packets.flatten.length≤x.packets.flatten.length)).mpr
        ⟨(List.sublist_append_left _ _).flatten.length_le,fun _ _ => Nat.le_refl _⟩ b

theorem packets_getBroadcasts {cfg : ClusterConfig} {s t : Traffic} {a : GoString}
    {call : Transmit.Call} (h : s.step cfg (.getBroadcasts a call)=some t) :
    (t.sender a).packets=(s.sender a).packets++
      [((s.sender a).queue.getBroadcasts asBroadcast call).2] := by
  cases h
  show (Function.update s.sender a ((s.sender a).getBroadcasts call) a).packets=_
  rw [Function.update_self]
  rfl

end Traffic

/-- With M reports in the cluster and at most T transmissions of each message, and as long as no
node deletes reports or restarts, no run sends more than T·|A|·M messages; and in a run that never
ends there is a time after which every packet is empty. -/
theorem gossip_traffic_ends (cfg : ClusterConfig) (A : Finset GoString) (M T : Nat)
    (positive : 0<T) :
    (∀ es s,(∀ e∈es,e.Within A T) → (∀ e∈es,e.Keeps) →
      run (Traffic.step cfg) (.init cfg) es=some s → s.flood.cluster.originated.length≤M →
      (∀ a,(s.sender a).packets.flatten.length≤T*M) ∧
        ∑ a∈A,(s.sender a).packets.flatten.length≤T*(A.card*M)) ∧
    ∀ state event,Endless (Traffic.step cfg) (.init cfg) state event →
      (∀ i,(event i).Within A T) → (∀ i,(event i).Keeps) →
      (∀ i,(state i).flood.cluster.originated.length≤M) →
      ∃ N,∀ i,N ≤ i → ∀ a call,event i=.getBroadcasts a call →
        (((state i).sender a).queue.getBroadcasts asBroadcast call).2=[] := by
  constructor
  · intro es s within kept hr few
    refine ⟨?_,Traffic.traffic_run positive within kept hr few⟩
    intro a
    exact Nat.le_trans (Traffic.sent_run positive within kept hr a) (Nat.mul_le_mul_left T few)
  · intro state event endless within kept few
    -- The messages sent by the nodes of A grow and are bounded, so from some time on none is sent.
    obtain ⟨N,still⟩ := settles (fun i => ∑ a∈A,((state i).sender a).packets.flatten.length)
      (fun i => Finset.sum_le_sum (fun a _ => Traffic.packets_grow (endless.next i) a))
      (T*(A.card*M)) (by
        intro i
        refine Traffic.traffic_run positive ?_ ?_ (endless.run i) (few i)
        · intro e he
          obtain ⟨j,-,rfl⟩ := List.mem_map.mp he
          exact within j
        · intro e he
          obtain ⟨j,-,rfl⟩ := List.mem_map.mp he
          exact kept j)
    refine ⟨N,?_⟩
    intro i hi a call he
    have next := endless.next i
    have here := within i
    rw [he] at next here
    have sent := Traffic.packets_getBroadcasts next
    have same := (still (i+1) (by omega)).trans (still i hi).symm
    have each (b : GoString) (hb : b∈A) : ((state i).sender b).packets.flatten.length=
        ((state (i+1)).sender b).packets.flatten.length :=
      (Finset.sum_eq_sum_iff_of_le
        (fun b _ => Traffic.packets_grow (endless.next i) b)).mp same.symm b hb
    have now := each a here.1
    rw [sent,List.flatten_append,List.flatten_singleton,List.length_append] at now
    exact List.eq_nil_of_length_eq_zero (by omega)

/-- Node a sends its report twice; node b gets the first packet and passes the report on. -/
def relayedOnce : List TrafficEvent :=
  (ClusterEvent.commit ⟨.set,goStr "k",goStr "v"⟩::.applyNext (goStr "a")::
    verifyOnce (goStr "a") (goStr "v") gossipUp 10).map .node++
  [.getBroadcasts (goStr "a") ⟨2,1400,2⟩,
    .deliver (goStr "a") (goStr "b") ⟨11,goStr "a",goStr "k",goStr "v",gossipUp⟩,
    .getBroadcasts (goStr "a") ⟨2,1400,2⟩,.getBroadcasts (goStr "b") ⟨2,1400,2⟩,
    .getBroadcasts (goStr "a") ⟨2,1400,2⟩]

theorem relayedOnce_within :
    (∀ e∈relayedOnce,e.Within {goStr "a",goStr "b"} 2) ∧ ∀ e∈relayedOnce,e.Keeps := by
  constructor <;>
  · intro e he
    simp only [relayedOnce,verifyOnce,List.map_cons,List.map_nil,List.cons_append,List.nil_append,
      List.mem_cons,List.not_mem_nil,or_false] at he
    rcases he with rfl|rfl|rfl|rfl|rfl|rfl|rfl|rfl|rfl|rfl|rfl|rfl <;>
      simp [TrafficEvent.Within,TrafficEvent.Keeps,noLoss,ClusterEvent.actor]

/-- One report on two nodes makes three messages of the four that are paid for, and when node b goes
on asking for packets, it gets empty ones from some time on. -/
theorem gossip_traffic_ends_pair :
    (∃ s,run (Traffic.step pairConfig) (.init pairConfig) relayedOnce=some s ∧
      (s.sender (goStr "a")).packets.map List.length=[1,1,0] ∧
      (s.sender (goStr "b")).packets.map List.length=[1] ∧
      ∑ a∈{goStr "a",goStr "b"},(s.sender a).packets.flatten.length≤
        2*(({goStr "a",goStr "b"} : Finset GoString).card*1)) ∧
    ∃ state event,Endless (Traffic.step pairConfig) (.init pairConfig) state event ∧
      (∀ i,relayedOnce.length ≤ i → event i=.getBroadcasts (goStr "b") ⟨2,1400,2⟩) ∧
      ∃ N,∀ i,N ≤ i → (((state i).sender (goStr "b")).queue.getBroadcasts asBroadcast ⟨2,1400,2⟩).2=
        [] := by
  have ends := gossip_traffic_ends pairConfig {goStr "a",goStr "b"} 1 2 (by decide)
  have done : (run (Traffic.step pairConfig) (.init pairConfig) relayedOnce).map
      (fun s => (s.flood.cluster.originated.length,
        (s.sender (goStr "a")).packets.map List.length,
        (s.sender (goStr "b")).packets.map List.length))=some (1,[1,1,0],[1]) := by
    decide +kernel
  obtain ⟨s,hs,counts⟩ := Option.map_eq_some_iff.mp done
  simp only [Prod.mk.injEq] at counts
  obtain ⟨originated,a,b⟩ := counts
  obtain ⟨within,kept⟩ := relayedOnce_within
  constructor
  · exact ⟨s,hs,a,b,(ends.1 relayedOnce s within kept hs (by omega)).2⟩
  · obtain ⟨state,endless,facts⟩ := endless_loop hs (.getBroadcasts (goStr "b") ⟨2,1400,2⟩)
      (fun u => u.flood.cluster.originated.length≤1) (by omega)
      (fun u few => ⟨u.getBroadcasts (goStr "b") ⟨2,1400,2⟩,rfl,few⟩)
    have early : ∀ i∈List.range (relayedOnce.length+1),
        ((run (Traffic.step pairConfig) (.init pairConfig) (relayedOnce.take i)).all
          (fun u => decide (u.flood.cluster.originated.length≤1)))=true := by
      decide +kernel
    have few (i : Nat) : (state i).flood.cluster.originated.length≤1 := by
      by_cases hi : i ≤ relayedOnce.length
      · have now := early i (List.mem_range.mpr (by omega))
        rw [(facts i).1 hi] at now
        simpa using now
      · exact (facts i).2 (by omega)
    obtain ⟨N,silent⟩ := ends.2 state _ endless
      (forall_getD within (by simp [TrafficEvent.Within])) (forall_getD kept trivial) few
    refine ⟨state,_,endless,fun i hi => List.getD_eq_default _ _ hi,max N relayedOnce.length,?_⟩
    intro i hi
    exact silent i (by omega) _ _ (List.getD_eq_default _ _ (by omega))

/-- A scavenged report comes back, and node b passes it on again: with one transmission of each
message the two nodes send three. -/
example : (run (Traffic.step pairConfig) (.init pairConfig)
    ((ClusterEvent.commit ⟨.set,goStr "k",goStr "v"⟩::.applyNext (goStr "a")::
      verifyOnce (goStr "a") (goStr "v") gossipUp 10).map .node++
    [.getBroadcasts (goStr "a") ⟨2,1400,1⟩,
      .deliver (goStr "a") (goStr "b") ⟨11,goStr "a",goStr "k",goStr "v",gossipUp⟩,
      .getBroadcasts (goStr "b") ⟨2,1400,1⟩,.node (.delKey (goStr "b") (goStr "k")),
      .deliver (goStr "a") (goStr "b") ⟨11,goStr "a",goStr "k",goStr "v",gossipUp⟩,
      .getBroadcasts (goStr "b") ⟨2,1400,1⟩])).map
        (fun s => ((s.sender (goStr "a")).packets.flatten.length,
          (s.sender (goStr "b")).packets.flatten.length))=some (1,2) := by
  decide +kernel

end StCache
