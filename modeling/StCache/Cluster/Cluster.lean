import StCache.Detector.Verifier
import StCache.Framework.Runs
import StCache.Quorum.Steps

namespace StCache

/-- base.go's Max. -/
def max64 (x y : Int64) : Int64 := if y<x then x else y

structure ClusterConfig where
  quorum : QuorumConfig
  windowSize : Nat
  minSamples : Nat
  deriving DecidableEq

/-- One process: its stores, its checker, its verification, the bridge's last
timestamp, how far it has applied the log, and every report Set was called with. -/
structure Node where
  fsm : Fsm
  checker : Checker := {}
  verifier : Verifier
  lastTimeStamp : Int64 := 0
  applied : Nat := 0
  received : List MyBroadcastMessage := []

def Node.new (cfg : ClusterConfig) : Node :=
  {fsm := .new,verifier := .new cfg.windowSize cfg.minSamples}

/-- The processes by gossip address, the committed log, every message that was
ever queued for broadcast, every report that was ever originated, and every
notification command that was sent, with its sender. -/
structure Cluster where
  node : GoString → Node
  log : List LogEntryData := []
  network : List MyBroadcastMessage := []
  originated : List MyBroadcastMessage := []
  sent : List (GoString × Sent) := []

def Cluster.init (cfg : ClusterConfig) : Cluster := {node := fun _ => .new cfg}

/-- `commit` is any entry raft commits for a client or after a failed call,
`deliver` one message on its way through consumeGossip, `check` a step of the
checker with whether the entry it submits gets committed. `restart` is a new
process that restores a snapshot of the first i entries. -/
inductive ClusterEvent where
  | commit (e : LogEntryData)
  | applyNext (a : GoString)
  | deliver (a : GoString) (m : MyBroadcastMessage)
  | verify (a : GoString) (x : VerifierAction)
  | makeGossip2 (a : GoString) (i : Nat) (now : Int64)
  | check (a : GoString) (x : Action) (committed : Bool)
  | delKey (a key : GoString)
  | delNodeAddr (a key node : GoString)
  | detectorDelKey (a key : GoString)
  | writeFlag (a : GoString) (b : Bool)
  | restart (a : GoString) (i : Nat)

/-- The node an event happens on. -/
def ClusterEvent.actor : ClusterEvent → Option GoString
  | .commit _ => none
  | .applyNext a => some a
  | .deliver a _ => some a
  | .verify a _ => some a
  | .makeGossip2 a _ _ => some a
  | .check a _ _ => some a
  | .delKey a _ => some a
  | .delNodeAddr a _ _ => some a
  | .detectorDelKey a _ => some a
  | .writeFlag a _ => some a
  | .restart a _ => some a

namespace Cluster

def put (s : Cluster) (a : GoString) (n : Node) : Cluster :=
  {s with node := Function.update s.node a n}

/-- gossipCacheManager.Set on node a; none is its panic. -/
def receive (s : Cluster) (a : GoString) (m : MyBroadcastMessage) : Option Cluster :=
  let n := s.node a
  (n.fsm.gcm.set m).map (fun r =>
    {s.put a {n with fsm := {n.fsm with gcm := r.1},received := n.received++[m]} with
      network := s.network++r.2})

/-- The report makeGossip2 makes of an output at this clock reading. -/
def stampReport (n : Node) (a : GoString) (o : VerifyOutput) (now : Int64) : MyBroadcastMessage :=
  ⟨max64 now n.lastTimeStamp+1,a,o.key,o.value,o.status⟩

/-- Only a raft entry that is committed reaches the log. -/
def absorb (s : Cluster) (a : GoString) (c : Checker) (eff : Effect) (committed : Bool) : Cluster :=
  {s.put a {s.node a with checker := c} with
    log := match eff,committed with
      | .submit e _,true => s.log++[e]
      | _,_ => s.log
    sent := s.sent++eff.received.map (fun x => (a,x))}

/-- quorumCheck1 goes on after its Barrier only with all committed entries
applied; every other step of the checker is free. -/
def mayCheck (s : Cluster) (a : GoString) : Action → Bool
  | .tick (.barrier true) => (s.node a).applied=s.log.length
  | _ => true

def step (cfg : ClusterConfig) (s : Cluster) : ClusterEvent → Option Cluster
  | .commit e => some {s with log := s.log++[e]}
  | .applyNext a =>
    let n := s.node a
    (s.log[n.applied]?).bind (fun e => (n.fsm.applyEntry e).map (fun f =>
      s.put a {n with fsm := f,applied := n.applied+1}))
  | .deliver a m => if m∈s.network then s.receive a m else none
  | .verify a x =>
    let n := s.node a
    (n.verifier.step n.fsm.cm x).map (fun v => s.put a {n with verifier := v})
  | .makeGossip2 a i now =>
    let n := s.node a
    (n.verifier.outputs[i]?).bind (fun o =>
      let m := stampReport n a o now
      let taken := s.put a {n with
        verifier := {n.verifier with outputs := n.verifier.outputs.eraseIdx i}
        lastTimeStamp := m.timeStamp}
      ({taken with originated := s.originated++[m]}).receive a m)
  | .check a x committed =>
    if s.mayCheck a x then
      ((s.node a).checker.step cfg.quorum (s.node a).fsm x).map (fun r =>
        s.absorb a r.1 r.2 committed)
    else none
  | .delKey a key =>
    let n := s.node a
    some (s.put a {n with fsm := {n.fsm with gcm := n.fsm.gcm.delKey key}})
  | .delNodeAddr a key node =>
    let n := s.node a
    some (s.put a {n with fsm := {n.fsm with gcm := n.fsm.gcm.delNodeAddr key node}})
  | .detectorDelKey a key =>
    let n := s.node a
    some (s.put a {n with verifier := n.verifier.delKey key})
  | .writeFlag a b =>
    let n := s.node a
    some (s.put a {n with checker := {n.checker with writable := b}})
  | .restart a i =>
    if i ≤ s.log.length then
      (run CacheManager.replay .new (s.log.take i)).map (fun cm =>
        s.put a {Node.new cfg with fsm := ⟨cm,.new⟩,applied := i})
    else none

theorem put_node (s : Cluster) (a : GoString) (n : Node) (b : GoString) :
    (s.put a n).node b=if b=a then n else s.node b := by
  by_cases h : b=a
  · subst b
    simp [put]
  · simp [put,h]

/-- What the new node a has in common with the old one is kept on every node. -/
theorem put_frame {A : Type} (s : Cluster) (a : GoString) (n : Node) (g : Node → A)
    (same : g n=g (s.node a)) (b : GoString) : g ((s.put a n).node b)=g (s.node b) := by
  rw [put_node]
  split_ifs with hb
  · rw [same,hb]
  · rfl

/-- Everything a cluster can do. -/
inductive Steps (cfg : ClusterConfig) (s : Cluster) : ClusterEvent → Cluster → Prop where
  | commit (e : LogEntryData) : Steps cfg s (.commit e) {s with log := s.log++[e]}
  | applyNext (a : GoString) (e : LogEntryData) (f : Fsm)
      (he : s.log[(s.node a).applied]?=some e) (hf : (s.node a).fsm.applyEntry e=some f) :
      Steps cfg s (.applyNext a)
        (s.put a {s.node a with fsm := f,applied := (s.node a).applied+1})
  | deliver (a : GoString) (m : MyBroadcastMessage) (gcm : GossipCacheManager)
      (bs : List MyBroadcastMessage) (hm : m∈s.network)
      (hset : (s.node a).fsm.gcm.set m=some (gcm,bs)) :
      Steps cfg s (.deliver a m)
        {s.put a {s.node a with
            fsm := {(s.node a).fsm with gcm := gcm}
            received := (s.node a).received++[m]} with
          network := s.network++bs}
  | verify (a : GoString) (x : VerifierAction) (v : Verifier)
      (hv : (s.node a).verifier.Steps (s.node a).fsm.cm x v) :
      Steps cfg s (.verify a x) (s.put a {s.node a with verifier := v})
  | makeGossip2 (a : GoString) (i : Nat) (now : Int64) (o : VerifyOutput)
      (gcm : GossipCacheManager) (bs : List MyBroadcastMessage)
      (ho : (s.node a).verifier.outputs[i]?=some o)
      (hset : (s.node a).fsm.gcm.set (stampReport (s.node a) a o now)=some (gcm,bs)) :
      Steps cfg s (.makeGossip2 a i now)
        {s.put a {s.node a with
            fsm := {(s.node a).fsm with gcm := gcm}
            verifier := {(s.node a).verifier with
              outputs := (s.node a).verifier.outputs.eraseIdx i}
            lastTimeStamp := (stampReport (s.node a) a o now).timeStamp
            received := (s.node a).received++[stampReport (s.node a) a o now]} with
          network := s.network++bs
          originated := s.originated++[stampReport (s.node a) a o now]}
  | check (a : GoString) (x : Action) (committed : Bool) (c : Checker) (eff : Effect)
      (hm : s.mayCheck a x=true) (hc : (s.node a).checker.Steps cfg.quorum (s.node a).fsm x c eff) :
      Steps cfg s (.check a x committed) (s.absorb a c eff committed)
  | delKey (a key : GoString) :
      Steps cfg s (.delKey a key) (s.put a {s.node a with
        fsm := {(s.node a).fsm with gcm := (s.node a).fsm.gcm.delKey key}})
  | delNodeAddr (a key node : GoString) :
      Steps cfg s (.delNodeAddr a key node) (s.put a {s.node a with
        fsm := {(s.node a).fsm with gcm := (s.node a).fsm.gcm.delNodeAddr key node}})
  | detectorDelKey (a key : GoString) :
      Steps cfg s (.detectorDelKey a key)
        (s.put a {s.node a with verifier := (s.node a).verifier.delKey key})
  | writeFlag (a : GoString) (b : Bool) :
      Steps cfg s (.writeFlag a b)
        (s.put a {s.node a with checker := {(s.node a).checker with writable := b}})
  | restart (a : GoString) (i : Nat) (cm : CacheManager) (hi : i ≤ s.log.length)
      (hcm : run CacheManager.replay .new (s.log.take i)=some cm) :
      Steps cfg s (.restart a i) (s.put a {Node.new cfg with fsm := ⟨cm,.new⟩,applied := i})

theorem step_steps (cfg : ClusterConfig) (s t : Cluster) (e : ClusterEvent)
    (h : s.step cfg e=some t) : s.Steps cfg e t := by
  cases e with
  | commit e =>
    cases h
    exact .commit e
  | applyNext a =>
    simp only [step,Option.bind_eq_some_iff,Option.map_eq_some_iff] at h
    obtain ⟨e,he,f,hf,rfl⟩ := h
    exact .applyNext a e f he hf
  | deliver a m =>
    simp only [step,receive,Option.ite_none_right_eq_some,Option.map_eq_some_iff] at h
    obtain ⟨hm,⟨gcm,bs⟩,hset,rfl⟩ := h
    exact .deliver a m gcm bs hm hset
  | verify a x =>
    simp only [step,Option.map_eq_some_iff] at h
    obtain ⟨v,hv,rfl⟩ := h
    exact .verify a x v ((s.node a).verifier.step_steps _ _ _ hv)
  | makeGossip2 a i now =>
    simp only [step,receive,Option.bind_eq_some_iff,Option.map_eq_some_iff,put,
      Function.update_self,Function.update_idem] at h
    obtain ⟨o,ho,⟨gcm,bs⟩,hset,rfl⟩ := h
    exact .makeGossip2 a i now o gcm bs ho hset
  | check a x committed =>
    simp only [step,Option.ite_none_right_eq_some,Option.map_eq_some_iff] at h
    obtain ⟨hm,⟨c,eff⟩,hc,rfl⟩ := h
    exact .check a x committed c eff hm (Checker.step_steps _ _ _ _ _ _ hc)
  | delKey a key =>
    cases h
    exact .delKey a key
  | delNodeAddr a key node =>
    cases h
    exact .delNodeAddr a key node
  | detectorDelKey a key =>
    cases h
    exact .detectorDelKey a key
  | writeFlag a b =>
    cases h
    exact .writeFlag a b
  | restart a i =>
    simp only [step,Option.ite_none_right_eq_some,Option.map_eq_some_iff] at h
    obtain ⟨hi,cm,hcm,rfl⟩ := h
    exact .restart a i cm hi hcm

theorem Steps.elsewhere {cfg : ClusterConfig} {s t : Cluster} {e : ClusterEvent}
    (h : s.Steps cfg e t) (b : GoString) (hb : e.actor≠some b) : t.node b=s.node b := by
  have other (a : GoString) (n : Node) (ha : some a≠some b) : (s.put a n).node b=s.node b := by
    rw [put_node,if_neg (fun he => ha (congrArg some he.symm))]
  cases h with
  | commit e => rfl
  | applyNext a | deliver a | verify a | makeGossip2 a | check a | delKey a | delNodeAddr a
  | detectorDelKey a | writeFlag a | restart a => exact other a _ hb

/-- Only makeGossip2 originates a report, and apart from it only a new process
changes a last timestamp. -/
theorem Steps.originates {cfg : ClusterConfig} {s t : Cluster} {e : ClusterEvent}
    (h : s.Steps cfg e t) :
    (t.originated=s.originated ∧ ((∀ a i,e≠.restart a i) →
      ∀ b,(t.node b).lastTimeStamp=(s.node b).lastTimeStamp)) ∨
    ∃ a i now o,e=.makeGossip2 a i now ∧ (s.node a).verifier.outputs[i]?=some o ∧
      t.originated=s.originated++[stampReport (s.node a) a o now] ∧
      ∀ b,(t.node b).lastTimeStamp=if b=a then (stampReport (s.node a) a o now).timeStamp
        else (s.node b).lastTimeStamp := by
  cases h with
  | commit e => exact Or.inl ⟨rfl,fun _ _ => rfl⟩
  | makeGossip2 a i now o gcm bs ho hset =>
    refine Or.inr ⟨a,i,now,o,rfl,ho,rfl,?_⟩
    intro b
    rw [put_node]
    split_ifs <;> rfl
  | restart a i cm hi hcm => exact Or.inl ⟨rfl,fun no => absurd rfl (no a i)⟩
  | applyNext a | deliver a | verify a | check a | delKey a | delNodeAddr a | detectorDelKey a
  | writeFlag a => exact Or.inl ⟨rfl,fun _ => s.put_frame a _ Node.lastTimeStamp rfl⟩

theorem Steps.originated_grows {cfg : ClusterConfig} {s t : Cluster} {e : ClusterEvent}
    (h : s.Steps cfg e t) (m : MyBroadcastMessage) (hm : m∈s.originated) : m∈t.originated := by
  rcases h.originates with ⟨ho,-⟩|⟨a,i,now,o,-,-,ho,-⟩
  · rwa [ho]
  · rw [ho]
    exact List.mem_append_left _ hm

/-- A broadcast message is an originated report. -/
theorem Steps.broadcasts {cfg : ClusterConfig} {s t : Cluster} {e : ClusterEvent}
    (h : s.Steps cfg e t) (old : ∀ m∈s.network,m∈s.originated) : ∀ m∈t.network,m∈t.originated := by
  cases h with
  | deliver a x gcm bs hx hset =>
    intro m hm
    cases List.mem_append.mp hm with
    | inl hm => exact old m hm
    | inr hm =>
      have same := (s.node a).fsm.gcm.broadcast_of_set gcm x bs hset m hm
      exact same ▸ old x hx
  | makeGossip2 a i now o gcm bs ho hset =>
    intro m hm
    cases List.mem_append.mp hm with
    | inl hm => exact List.mem_append_left _ (old m hm)
    | inr hm =>
      have same := (s.node a).fsm.gcm.broadcast_of_set gcm _ bs hset m hm
      exact List.mem_append_right _ (by simp [same])
  | commit | applyNext | verify | check | delKey | delNodeAddr | detectorDelKey
  | writeFlag | restart => exact old

end Cluster

end StCache
