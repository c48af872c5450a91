import StCache.Cluster.Cluster

namespace StCache

/-- What a step of the cluster can do to one node's verification. -/
inductive Verifier.Moves (cfg : ClusterConfig) (cm : CacheManager) (v : Verifier) :
    Verifier → Prop where
  | stay : Moves cfg cm v v
  | step (x : VerifierAction) (w : Verifier) (h : v.Steps cm x w) : Moves cfg cm v w
  | takeOutput (i : Nat) : Moves cfg cm v {v with outputs := v.outputs.eraseIdx i}
  | delKey (key : GoString) : Moves cfg cm v (v.delKey key)
  | restart : Moves cfg cm v (.new cfg.windowSize cfg.minSamples)

/-- What a step of the cluster can do to one node's gossip store. -/
inductive GossipCacheManager.Moves (originated : List MyBroadcastMessage)
    (c : GossipCacheManager) : GossipCacheManager → Prop where
  | stay : Moves originated c c
  | replay (e : LogEntryData) : Moves originated c (c.replay e)
  | set (m : MyBroadcastMessage) (d : GossipCacheManager) (bs : List MyBroadcastMessage)
      (hm : m∈originated) (h : c.set m=some (d,bs)) : Moves originated c d
  | delKey (key : GoString) : Moves originated c (c.delKey key)
  | delNodeAddr (key node : GoString) : Moves originated c (c.delNodeAddr key node)
  | restart : Moves originated c .new

/-- What a step of the cluster can do to one node's checker. -/
inductive Checker.Moves (cfg : QuorumConfig) (f : Fsm) (c : Checker) : Checker → Prop where
  | stay : Moves cfg f c c
  | step (x : Action) (d : Checker) (eff : Effect) (h : c.Steps cfg f x d eff) : Moves cfg f c d
  | writeFlag (b : Bool) : Moves cfg f c {c with writable := b}
  | restart : Moves cfg f c {}

structure Node.Moves (cfg : ClusterConfig) (originated : List MyBroadcastMessage)
    (n m : Node) : Prop where
  verifier : n.verifier.Moves cfg n.fsm.cm m.verifier
  store : n.fsm.gcm.Moves originated m.fsm.gcm
  checker : n.checker.Moves cfg.quorum n.fsm m.checker

namespace Cluster

theorem put_moves (cfg : ClusterConfig) (originated : List MyBroadcastMessage) (s : Cluster)
    (a : GoString) (n : Node) (h : (s.node a).Moves cfg originated n) (b : GoString) :
    (s.node b).Moves cfg originated ((s.put a n).node b) := by
  rw [put_node]
  split_ifs with hb
  · rw [hb]
    exact h
  · exact ⟨.stay,.stay,.stay⟩

/-- A step of the cluster, seen from one node. -/
theorem Steps.moves {cfg : ClusterConfig} {s t : Cluster} {e : ClusterEvent}
    (h : s.Steps cfg e t) (net : ∀ m∈s.network,m∈s.originated) (b : GoString) :
    (s.node b).Moves cfg t.originated (t.node b) := by
  cases h with
  | commit e => exact ⟨.stay,.stay,.stay⟩
  | applyNext a e f he hf =>
    apply put_moves
    refine ⟨.stay,?_,.stay⟩
    rw [((Fsm.applyEntry_some _ _ _).mp hf).2]
    exact .replay e
  | deliver a m gcm bs hm hset =>
    apply put_moves
    exact ⟨.stay,.set m gcm bs (net m hm) hset,.stay⟩
  | verify a x v hv =>
    apply put_moves
    exact ⟨.step x v hv,.stay,.stay⟩
  | makeGossip2 a i now o gcm bs ho hset =>
    apply put_moves
    exact ⟨.takeOutput i,.set _ gcm bs (by simp) hset,.stay⟩
  | check a x committed c eff hm hc =>
    apply put_moves
    exact ⟨.stay,.stay,.step x c eff hc⟩
  | delKey a key =>
    apply put_moves
    exact ⟨.stay,.delKey key,.stay⟩
  | delNodeAddr a key n =>
    apply put_moves
    exact ⟨.stay,.delNodeAddr key n,.stay⟩
  | detectorDelKey a key =>
    apply put_moves
    exact ⟨.delKey key,.stay,.stay⟩
  | writeFlag a w =>
    apply put_moves
    exact ⟨.stay,.stay,.writeFlag w⟩
  | restart a i cm hi hcm =>
    apply put_moves
    exact ⟨.restart,.restart,.restart⟩

end Cluster

/-- Some originated report says this of the key. -/
def FromReport (originated : List MyBroadcastMessage) (key node : GoString)
    (r : GossipStatusAndTimeStamp) : Prop :=
  ∃ m∈originated,m.key=key ∧ m.node=node ∧ m.status=r.gossipStatus ∧ m.timeStamp=r.timeStamp

def Replicated.Timed (r : Replicated) : Prop := r.prevEventTime.Stored ∧ r.emptyTime.Stored

/-- An entry whose times were logged and whose reports were originated. -/
structure Backed (originated : List MyBroadcastMessage) (key : GoString)
    (v : GossipConsensus) : Prop where
  times : v.replicated.Timed
  reports : ∀ n r,v.consensus.get? n=some r → FromReport originated key n r

theorem Backed.mono {originated originated' : List MyBroadcastMessage} {key : GoString}
    {v : GossipConsensus} (h : Backed originated key v)
    (grows : ∀ m∈originated,m∈originated') : Backed originated' key v := by
  refine ⟨h.times,?_⟩
  intro n r hr
  obtain ⟨m,hm,same⟩ := h.reports n r hr
  exact ⟨m,grows m hm,same⟩

theorem Backed.copy {originated : List MyBroadcastMessage} {key : GoString}
    {v : GossipConsensus} (h : Backed originated key v) : Backed originated key v.copy := by
  refine ⟨h.times,fun n r hr => h.reports n r ?_⟩
  rwa [GossipConsensus.copy,GoMap.get?_alloc,GoMap.lookup_table] at hr

theorem backed_blank (originated : List MyBroadcastMessage) (key : GoString) :
    Backed originated key {} := ⟨⟨.inl rfl,.inl rfl⟩,by simp⟩

theorem LogEntryData.update_timed (e : LogEntryData) (u : Notify) (hu : e.update=some u)
    (r : Replicated) (h : r.Timed) : (u.write r).Timed := by
  unfold LogEntryData.update at hu
  split at hu
  · cases hu
    exact h
  · obtain ⟨ts,-,rfl⟩ := Option.map_eq_some_iff.mp hu
    exact ⟨.inr ⟨ts,rfl⟩,h.2⟩
  · obtain ⟨b,-,rfl⟩ := Option.map_eq_some_iff.mp hu
    exact h
  · obtain ⟨ts,-,rfl⟩ := Option.map_eq_some_iff.mp hu
    exact ⟨h.1,.inr ⟨ts,rfl⟩⟩
  · cases hu

section Stored
variable {originated : List MyBroadcastMessage} {c d : GossipCacheManager}

theorem GossipCacheManager.backed_replay (e : LogEntryData)
    (old : ∀ key,Backed originated key (c.entry key)) (key : GoString) :
    Backed originated key ((c.replay e).entry key) := by
  refine ⟨?_,?_⟩
  · have same := c.replicated_replay e key
    unfold replicated at same
    rw [same]
    cases hu : e.updateOf key with
    | none => exact (old key).times
    | some u =>
      unfold LogEntryData.updateOf at hu
      split_ifs at hu
      exact e.update_timed u hu _ (old key).times
  · intro n r hr
    have same := c.report_replay e key n
    unfold report at same
    exact (old key).reports n r (same ▸ hr)

theorem GossipCacheManager.backed_winner (m : MyBroadcastMessage) (hm : m∈originated)
    (old : ∀ key,Backed originated key (c.entry key)) :
    FromReport originated m.key m.node (winner m (c.report m.key m.node)) := by
  have new : FromReport originated m.key m.node ⟨m.status,m.timeStamp⟩ := ⟨m,hm,rfl,rfl,rfl,rfl⟩
  cases ho : c.report m.key m.node with
  | none => exact new
  | some x =>
    rw [winner]
    split_ifs
    · exact new
    · exact (old m.key).reports m.node x ho

theorem GossipCacheManager.backed_set (m : MyBroadcastMessage) (bs : List MyBroadcastMessage)
    (hm : m∈originated) (hset : c.set m=some (d,bs))
    (old : ∀ key,Backed originated key (c.entry key)) (key : GoString) :
    Backed originated key (d.entry key) := by
  refine ⟨?_,?_⟩
  · have same := c.replicated_set d m bs hset key
    unfold replicated at same
    rw [same]
    exact (old key).times
  · intro n r hr
    have here : d.report key n=some r := hr
    rw [c.report_set d m bs hset] at here
    split_ifs at here with hk
    · rw [hk.1,hk.2,←Option.some.inj here]
      exact backed_winner m hm old
    · exact (old key).reports n r here

theorem GossipCacheManager.Moves.backed (h : c.Moves originated d)
    (old : ∀ key,Backed originated key (c.entry key)) (key : GoString) :
    Backed originated key (d.entry key) := by
  cases h with
  | stay => exact old key
  | replay e => exact backed_replay e old key
  | set m d bs hm hset => exact backed_set m bs hm hset old key
  | delKey k =>
    rw [c.entry_delKey]
    split_ifs
    · exact backed_blank originated key
    · exact old key
  | delNodeAddr k node =>
    rw [c.entry_delNodeAddr]
    split_ifs with hk
    · refine ⟨(old key).times,?_⟩
      intro n r hr
      simp only [GoMap.get?_delete] at hr
      split_ifs at hr
      exact (old key).reports n r hr
    · exact old key
  | restart => exact backed_blank originated key

end Stored

/-- What holds of every stored entry holds of the entries a pass works on. -/
theorem Checker.Moves.entries {cfg : QuorumConfig} {f : Fsm} {c d : Checker}
    (h : c.Moves cfg f d) (P : GoString → GossipConsensus → Prop)
    (stored : ∀ key v,f.gcm.data.lookup key=some v → P key v.copy)
    (old : ∀ kind key,∀ st∈c.focus kind key,P key st.entry) (kind : CheckKind) (key : GoString) :
    ∀ st∈d.focus kind key,P key st.entry := by
  intro st hst
  cases h with
  | stay => exact old kind key st hst
  | step x d eff hs =>
    rcases hs.focus_entry kind key st hst with ⟨st',hst',same⟩|⟨v,hv,same⟩
    · exact same ▸ old kind key st' hst'
    · exact same ▸ stored key v hv
  | writeFlag b => exact old kind key st hst
  | restart => simp [Checker.focus] at hst

theorem Checker.Moves.sound {cfg : QuorumConfig} {f : Fsm} {c d : Checker}
    (h : c.Moves cfg f d) (old : c.Sound cfg) : d.Sound cfg := by
  cases h with
  | stay => exact old
  | step x d eff hs => exact old.step hs
  | writeFlag b => exact ⟨old.tick,old.alone,old.cmds,old.running,old.results⟩
  | restart => exact Checker.sound_idle cfg false

theorem Checker.Moves.single {cfg : QuorumConfig} {f : Fsm} {c d : Checker}
    (h : c.Moves cfg f d) (sound : c.Sound cfg) (kind : CheckKind) (key : GoString)
    (old : (c.focus kind key).length≤1) : (d.focus kind key).length≤1 := by
  cases h with
  | stay => exact old
  | step x d eff hs => exact hs.focus_le sound kind key old
  | writeFlag b => exact old
  | restart => simp [Checker.focus]

namespace Cluster

/-- Where the reports and entries of a state come from. -/
structure Sourced (cfg : ClusterConfig) (s : Cluster) : Prop where
  network : ∀ m∈s.network,m∈s.originated
  stored : ∀ a key,Backed s.originated key ((s.node a).fsm.gcm.entry key)
  cloned : ∀ a kind key,∀ st∈(s.node a).checker.focus kind key,Backed s.originated key st.entry
  sound : ∀ a,(s.node a).checker.Sound cfg.quorum
  single : ∀ a kind key,((s.node a).checker.focus kind key).length≤1

theorem sourced_init (cfg : ClusterConfig) : (init cfg).Sourced cfg :=
  ⟨by simp [init],fun _ _ => backed_blank _ _,by simp [init,Node.new,Checker.focus],
    fun _ => Checker.sound_idle cfg.quorum false,by simp [init,Node.new,Checker.focus]⟩

theorem Sourced.step {cfg : ClusterConfig} {s t : Cluster} {e : ClusterEvent}
    (h : s.Sourced cfg) (hs : s.Steps cfg e t) : t.Sourced cfg := by
  have moves := hs.moves h.network
  have grows := hs.originated_grows
  refine ⟨hs.broadcasts h.network,?_,?_,?_,?_⟩
  · intro a key
    exact (moves a).store.backed (fun k => (h.stored a k).mono grows) key
  · intro a kind key
    apply (moves a).checker.entries
    · intro k v hv
      have stored := (h.stored a k).mono grows
      rw [GossipCacheManager.entry,hv] at stored
      exact stored.copy
    · intro kind k st hst
      exact (h.cloned a kind k st hst).mono grows
  · intro a
    exact (moves a).checker.sound (h.sound a)
  · intro a kind key
    exact (moves a).checker.single (h.sound a) kind key (h.single a kind key)

end Cluster

end StCache
