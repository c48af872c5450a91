import StCache.Cluster.Convergence
import StCache.Cluster.Origins
import StCache.Cluster.Provenance

namespace StCache

namespace Cluster

/-- At an earlier moment the key had this value on node a. -/
def HadValue (cfg : ClusterConfig) (es : List ClusterEvent) (a key value : GoString) : Prop :=
  Earlier (step cfg) (init cfg) es (fun _ s => (s.node a).fsm.cm.data.get? key=some value)

/-- At an earlier moment the pass of node a built this command. -/
def WasBuilt (cfg : ClusterConfig) (es : List ClusterEvent) (a : GoString) (x : Sent) : Prop :=
  Earlier (step cfg) (init cfg) es (fun _ s =>
    (∃ rest,(s.node a).checker.tick=.build x.decision x.stamp::rest) ∧
      x.value=(s.node a).fsm.cm.get x.decision.key)

/-- How a state came about. -/
structure Traced (cfg : ClusterConfig) (es : List ClusterEvent) (s : Cluster) : Prop where
  tracked : ∀ a,(s.node a).verifier.Tracked cfg.windowSize cfg.minSamples
  inputs : ∀ a,∀ i∈(s.node a).verifier.inputs,HadValue cfg es a i.key i.value
  samples : ∀ a key,∀ x∈(s.node a).verifier.samples key,
    x.input.key=key ∧ HadValue cfg es a key x.input.value
  built : ∀ a x,.send x∈(s.node a).checker.tick → WasBuilt cfg es a x

theorem traced_init (cfg : ClusterConfig) : Traced cfg [] (init cfg) := by
  refine ⟨fun _ => Verifier.tracked_new _ _,?_,?_,?_⟩ <;>
    simp [init,Node.new,Verifier.new,Verifier.inputs]

end Cluster

/-- What holds of the inputs of a verification and of every pair in the map holds
of the inputs and the samples after a move. -/
theorem Verifier.Moves.inputs {cfg : ClusterConfig} {cm : CacheManager} {v w : Verifier}
    (h : v.Moves cfg cm w) (P : GoString → GoString → Prop)
    (pairs : ∀ key value,cm.data.get? key=some value → P key value)
    (old : ∀ i∈v.inputs,P i.key i.value) : ∀ i∈w.inputs,P i.key i.value := by
  intro i hi
  cases h with
  | stay => exact old i hi
  | step x w hs => exact (hs.inputs i hi).elim (old i) (pairs i.key i.value)
  | takeOutput j => exact old i hi
  | delKey key => exact old i hi
  | restart => simp [Verifier.inputs,Verifier.new] at hi

theorem Verifier.Moves.samples {cfg : ClusterConfig} {cm : CacheManager} {v w : Verifier}
    (h : v.Moves cfg cm w) (P : GoString → GoString → Prop)
    (inputs : ∀ i∈v.inputs,P i.key i.value)
    (old : ∀ key,∀ x∈v.samples key,x.input.key=key ∧ P key x.input.value) (key : GoString) :
    ∀ x∈w.samples key,x.input.key=key ∧ P key x.input.value := by
  intro x hx
  cases h with
  | stay => exact old key x hx
  | step y w hs =>
    rcases hs.samples key x hx with hx|⟨hk,hx⟩
    · exact old key x hx
    · exact ⟨hk,hk ▸ inputs x.input hx⟩
  | takeOutput j => exact old key x hx
  | delKey k =>
    by_cases hk : key=k
    · subst k
      simp [Verifier.delKey] at hx
    · simp only [Verifier.delKey,Function.update_of_ne hk] at hx
      exact old key x hx
  | restart => simp [Verifier.new] at hx

theorem Verifier.Moves.tracked {cfg : ClusterConfig} {cm : CacheManager} {v w : Verifier}
    (h : v.Moves cfg cm w) (old : v.Tracked cfg.windowSize cfg.minSamples) :
    w.Tracked cfg.windowSize cfg.minSamples := by
  cases h with
  | stay => exact old
  | step x w hs => exact old.step hs
  | takeOutput j => exact ⟨old.windows,old.windowSize,old.minSamples⟩
  | delKey key => exact old.delKey key
  | restart => exact Verifier.tracked_new _ _

/-- A command is sent as it was built, from the map as it was then. -/
theorem Checker.Moves.built {cfg : QuorumConfig} {f : Fsm} {c d : Checker}
    (h : c.Moves cfg f d) (x : Sent) (hx : .send x∈d.tick) :
    .send x∈c.tick ∨
      ((∃ rest,c.tick=.build x.decision x.stamp::rest) ∧ x.value=f.cm.get x.decision.key) := by
  cases h with
  | stay => exact .inl hx
  | step y d eff hs => exact hs.built x hx
  | writeFlag b => exact .inl hx
  | restart => simp at hx

namespace Cluster

theorem Traced.step {cfg : ClusterConfig} {es : List ClusterEvent} {e : ClusterEvent}
    {s t : Cluster} (h : Traced cfg es s) (net : ∀ m∈s.network,m∈s.originated)
    (hr : run (Cluster.step cfg) (init cfg) es=some s) (hs : s.Steps cfg e t) :
    Traced cfg (es++[e]) t := by
  have moves := hs.moves net
  have held (a key value : GoString) (hv : (s.node a).fsm.cm.data.get? key=some value) :
      HadValue cfg (es++[e]) a key value := by
    apply Earlier.snoc
    exact earlier_now _ _ s es _ hr hv
  refine ⟨fun a => (moves a).verifier.tracked (h.tracked a),?_,?_,?_⟩
  · intro a
    exact (moves a).verifier.inputs _ (held a) (fun i hi => (h.inputs a i hi).snoc e)
  · intro a
    exact (moves a).verifier.samples _ (fun i hi => (h.inputs a i hi).snoc e)
      (fun key x hx => (h.samples a key x hx).imp_right (fun w => w.snoc e))
  · intro a x hx
    cases (moves a).checker.built x hx with
    | inl hx => exact (h.built a x hx).snoc e
    | inr built =>
      apply Earlier.snoc
      exact earlier_now _ _ s es _ hr built

theorem run_traced (cfg : ClusterConfig) (es : List ClusterEvent) (t : Cluster)
    (hr : run (Cluster.step cfg) (init cfg) es=some t) : Traced cfg es t ∧ t.Sourced cfg := by
  apply run_history (Cluster.step cfg) (init cfg) (fun es s => Traced cfg es s ∧ s.Sourced cfg)
    ⟨traced_init cfg,sourced_init cfg⟩ _ es t hr
  intro fs e s u hfs inv hs
  have steps := s.step_steps cfg u e hs
  exact ⟨inv.1.step inv.2.network hfs steps,inv.2.step steps⟩

/-- A command is sent by the statement that says so. -/
theorem Steps.sends {cfg : ClusterConfig} {s t : Cluster} {e : ClusterEvent}
    (h : s.Steps cfg e t) (a : GoString) (x : Sent) (hx : t.sent=s.sent++[(a,x)]) :
    ∃ rest,(s.node a).checker.tick=.send x::rest := by
  cases h with
  | check b y committed c eff hm hc =>
    have new : eff.received.map (fun z => (b,z))=[(a,x)] := List.append_cancel_left hx
    have mem : x∈eff.received ∧ b=a := by
      have here : (a,x)∈eff.received.map (fun z => (b,z)) := by simp [new]
      simpa [and_comm,eq_comm] using here
    obtain ⟨mem,rfl⟩ := mem
    cases hc with
    | tick st rest input sts eff ht he => exact ⟨rest,by rw [ht,(he.received_send x mem).1]⟩
    | enter | start | drop => simp [Effect.received] at mem
    | finish i o y hi => simp at mem
    | record i r hi => simp at mem
  | commit | applyNext | deliver | verify | makeGossip2 | delKey | delNodeAddr | detectorDelKey
  | writeFlag | restart => exact absurd (congrArg List.length hx) (by simp [put])

end Cluster

/-- What a sample says for a notified status: the status itself, or for a recovery
anything but EMPTY. -/
def Shows (status s : GossipStatus) : Prop :=
  if status=gossipEmptyRecover then s≠gossipEmpty else s=status

/-- A notified status, recovery apart, is not one that Phi makes up itself. -/
theorem CheckKind.Notifies.proper {kind : CheckKind} {status : GossipStatus}
    (h : kind.Notifies status) (recover : status≠gossipEmptyRecover) :
    status≠gossipNoEmptyInSamples ∧ status≠gossipNotFillSamples ∧
      status≠gossipLessThanMinsample := by
  cases kind with
  | event => rcases h with rfl|rfl <;> decide
  | empty =>
    rcases h with rfl|rfl
    · decide
    · exact absurd rfl recover

/-- A verdict that counts for a notified status comes from samples that show it. -/
theorem CountsFor.shows {kind : CheckKind} {status : GossipStatus} {T : List GossipStatus}
    (notifies : kind.Notifies status) (h : CountsFor status (windowVerdict T)) :
    ∀ x∈T,Shows status x := by
  unfold CountsFor at h
  unfold Shows
  split_ifs at h ⊢ with recover
  · simp only [notRecovered,Bool.or_eq_false_iff,decide_eq_false_iff_not] at h
    exact windowVerdict_no_empty T h.2 h.1.2
  · have proper := notifies.proper recover
    rw [←h] at proper ⊢
    exact windowVerdict_full T proper.1 proper.2.1

theorem CountsFor.enough {kind : CheckKind} {status s : GossipStatus}
    (notifies : kind.Notifies status) (h : CountsFor status s) : s≠gossipLessThanMinsample := by
  unfold CountsFor at h
  split_ifs at h with recover
  · simp only [notRecovered,Bool.or_eq_false_iff,decide_eq_false_iff_not] at h
    exact h.1.1
  · rw [h]
    exact (notifies.proper recover).2.2

/-- The window of the key has enough samples, and these are its last ones. -/
def Verifier.EndsWith (v : Verifier) (minSamples : Nat) (key : GoString) (xs : List Sample) : Prop :=
  v.detector.minSamples=minSamples ∧ v.detector.LastSamples key (xs.map Sample.taken) ∧
    xs=lastN minSamples (v.samples key)

namespace Cluster

/-- What the window of node n ended with when it judged the k-th report of the run. -/
def JudgedOn (cfg : ClusterConfig) (es : List ClusterEvent) (k : Nat) (m : MyBroadcastMessage)
    (fs : List ClusterEvent) (xs : List Sample) : Prop :=
  ∃ u,PhiOf cfg es k m.node fs u ∧ (u.node m.node).verifier.EndsWith cfg.minSamples m.key xs ∧
    m.status=windowVerdict (xs.map (fun y => y.taken.status))

/-- A report with a verdict of its own was judged on the last samples its node had then, all
taken of values the key had on that node. -/
theorem originated_judged (cfg : ClusterConfig) (es : List ClusterEvent) (s : Cluster)
    (hr : run (Cluster.step cfg) (init cfg) es=some s) {k : Nat} {m : MyBroadcastMessage}
    (hm : s.originated[k]?=some m) (enough : m.status≠gossipLessThanMinsample) :
    ∃ fs xs,JudgedOn cfg es k m fs xs ∧
      ∀ y∈xs,y.input.key=m.key ∧ HadValue cfg fs m.node m.key y.input.value := by
  obtain ⟨fs,u,order,phi,verdict⟩ := exists_phiOf cfg es s hr hm
  have traced := (run_traced cfg fs u phi.2.1).1
  obtain ⟨windows,-,size⟩ := traced.tracked m.node
  have measured := ((u.node m.node).verifier.measured windows verdict).resolve_left enough
  refine ⟨fs,lastN cfg.minSamples ((u.node m.node).verifier.samples m.key),
    ⟨u,phi,⟨size,?_,rfl⟩,?_⟩,?_⟩
  · rw [←size]
    exact measured.1
  · rw [←size]
    exact measured.2
  · intro y hy
    exact traced.samples m.node m.key y (mem_of_mem_lastN _ _ y hy)

/-- A report that counts for a command was originated by the node it names, and its verdict is
that of the samples the window ended with at its own Phi call. -/
theorem counted_origin (cfg : ClusterConfig) (es : List ClusterEvent) (s : Cluster)
    (hr : run (Cluster.step cfg) (init cfg) es=some s) (a : GoString) (x : Sent)
    (hx : .send x∈(s.node a).checker.tick) (n : GoString) (r : GossipStatusAndTimeStamp)
    (hn : x.decision.v.consensus.get? n=some r)
    (counts : CountsFor x.decision.status r.gossipStatus) :
    ∃ k m,s.originated[k]?=some m ∧ m.node=n ∧ m.key=x.decision.key ∧ m.status=r.gossipStatus ∧
      m.timeStamp=r.timeStamp ∧ ∃ fs xs,JudgedOn cfg es k m fs xs ∧
        ∀ y∈xs,y.input.key=m.key ∧ HadValue cfg fs n m.key y.input.value := by
  have inv := run_traced cfg es s hr
  have focus : .send x∈(s.node a).checker.focus x.decision.kind x.decision.key :=
    List.mem_filter.mpr ⟨hx,by simp [Stmt.about,Decision.about]⟩
  obtain ⟨m,hm,hkey,hnode,hstatus,hstamp⟩ := (inv.2.cloned a _ _ _ focus).reports n r hn
  have sound : x.Sound cfg.quorum := (inv.2.sound a).tick _ hx
  have enough : m.status≠gossipLessThanMinsample := hstatus ▸ counts.enough sound.1.notifies
  obtain ⟨k,hk⟩ := List.getElem?_of_mem hm
  obtain ⟨fs,xs,judged,samples⟩ := originated_judged cfg es s hr hk enough
  rw [hnode] at samples
  exact ⟨k,m,hk,hnode,hkey,hstatus,hstamp,fs,xs,judged,samples⟩

end Cluster

/-- The entry of a key with one report, of node "a". -/
def onlyEntry (prevEventTime : GoTime) (prevConsensus : GossipStatus) (ts : Int64)
    (status : GossipStatus) : GossipConsensus :=
  {prevEventTime := prevEventTime,prevConsensus := prevConsensus,
    consensus := .alloc (Finmap.insert (goStr "a") ⟨status,ts⟩ ∅)}

def onlyScan (ts now : Int64) (status : GossipStatus) : Scan :=
  ⟨[(goStr "a",⟨status,ts⟩)],fun _ => now,[(status,1)]⟩

/-- The check of the only key on node "a" up to its decision, then the next steps of
the pass, each with whether a submitted entry commits. -/
def onlyPass (v : GossipConsensus) (now : Int64) (sc : Scan) (commits : List Bool) :
    List ClusterEvent :=
  [.check (goStr "a") .enter true,.check (goStr "a") (.tick (.barrier true)) true,
    .check (goStr "a") (.tick (.order [(goStr "k",v)])) true,
    .check (goStr "a") (.tick (.check now sc)) true,.check (goStr "a") (.tick (.clock now)) true]++
  commits.map (fun committed => .check (goStr "a") (.tick .go) committed)

/-- The first UP of a key is recorded without a notification. -/
def upRecorded : List ClusterEvent :=
  [.commit ⟨.set,goStr "k",goStr "v"⟩,.applyNext (goStr "a"),.writeFlag (goStr "a") true]++
  verifyOnce (goStr "a") (goStr "v") gossipUp 1000000000++
  onlyPass (onlyEntry .zero [] 1000000001 gossipUp) 2000000000
    (onlyScan 1000000001 2000000000 gossipUp) [true,true]++
  [.check (goStr "a") (.tick (.check 2000000000 (onlyScan 1000000001 2000000000 gossipUp))) true,
    .applyNext (goStr "a"),.applyNext (goStr "a")]

/-- A minute later the key is found DOWN, the log goes on, and the next pass notifies:
its next step sends the command. -/
def downNoticed (between : List ClusterEvent) : List ClusterEvent :=
  upRecorded++verifyOnce (goStr "a") (goStr "v") gossipDown 62000000000++between++
  onlyPass (onlyEntry (.ofNano 2000000000) gossipUp 62000000001 gossipDown) 63000000000
    (onlyScan 62000000001 63000000000 gossipDown) [true,true]

theorem downNoticed_sends : ∃ s t x,
    run (Cluster.step pairConfig) (.init pairConfig) (downNoticed [])=some s ∧
    s.step pairConfig (.check (goStr "a") (.tick .go) true)=some t ∧
    t.sent=s.sent++[(goStr "a",x)] ∧ x.command.status=gossipDown ∧ x.value=goStr "v" := by
  have before : (run (Cluster.step pairConfig) (.init pairConfig) (downNoticed [])).map
      (fun s => s.sent.length)=some 0 := by decide +kernel
  have after : (run (Cluster.step pairConfig) (.init pairConfig)
      (downNoticed []++[.check (goStr "a") (.tick .go) true])).map
      (fun t => t.sent.map (fun p => (p.1,p.2.command.status,p.2.value)))=
        some [(goStr "a",gossipDown,goStr "v")] := by decide +kernel
  obtain ⟨s,hs,none⟩ := Option.map_eq_some_iff.mp before
  obtain ⟨t,ht,one⟩ := Option.map_eq_some_iff.mp after
  obtain ⟨u,hu,hstep⟩ := (run_snoc _ _ _ _ _).mp ht
  obtain rfl : s=u := Option.some.inj (hs.symm.trans hu)
  obtain ⟨⟨b,x⟩,hp,same⟩ := List.map_eq_singleton_iff.mp one
  obtain ⟨rfl,hstatus,hvalue⟩ : b=goStr "a" ∧ x.command.status=gossipDown ∧ x.value=goStr "v" := by
    simpa using same
  refine ⟨s,t,x,hs,hstep,?_,hstatus,hvalue⟩
  rw [List.length_eq_zero_iff.mp none,hp]
  rfl

/-- Every notification has a quorum of nodes behind it whose detectors saw what it says: each of
them originated a report on the key after the time the check read and within its stale limit,
and when Phi was called for that report the window ended in minSamples such samples. -/
theorem notification_has_quorum (cfg : ClusterConfig) (es : List ClusterEvent) (s t : Cluster)
    (e : ClusterEvent) (a : GoString) (x : Sent)
    (hr : run (Cluster.step cfg) (.init cfg) es=some s) (hs : s.step cfg e=some t)
    (hx : t.sent=s.sent++[(a,x)]) :
    x.decision.kind.Notifies x.command.status ∧
    ∃ S : Finset GoString,cfg.quorum.quorum≤S.card ∧ ∀ n∈S,∃ k m,
      s.originated[k]?=some m ∧ m.node=n ∧ m.key=x.command.key ∧
      (x.decision.kind.readTime x.decision.v).ns < m.timeStamp.toInt ∧
      (x.decision.now n).toInt-m.timeStamp.toInt ≤ staleInfoInterval ∧
      ∃ fs xs,Cluster.JudgedOn cfg es k m fs xs ∧
        ∀ y∈xs,Shows x.command.status y.taken.status := by
  obtain ⟨rest,ht⟩ := (s.step_steps cfg t e hs).sends a x hx
  have mem : .send x∈(s.node a).checker.tick := by simp [ht]
  have inv := (Cluster.run_traced cfg es s hr).2
  have focus : .send x∈(s.node a).checker.focus x.decision.kind x.decision.key :=
    List.mem_filter.mpr ⟨mem,by simp [Stmt.about,Decision.about]⟩
  have times := (inv.cloned a _ _ _ focus).times
  obtain ⟨sound,active,command⟩ : x.Sound cfg.quorum := (inv.sound a).tick _ mem
  obtain ⟨S,card,supports⟩ := sound.quorum active
  rw [command]
  refine ⟨sound.notifies,S,card,?_⟩
  intro n hn
  obtain ⟨r,hget,counts,hfresh⟩ := supports n hn
  obtain ⟨later,recent⟩ := (fresh_iff _ _ _ _).mp hfresh
  obtain ⟨k,m,hm,hnode,hkey,hstatus,hstamp,fs,xs,judged,-⟩ :=
    Cluster.counted_origin cfg es s hr a x mem n r hget counts
  have stored : (x.decision.kind.readTime x.decision.v).Stored := by
    cases x.decision.kind with
    | event => exact times.1
    | empty => exact times.2
  refine ⟨k,m,hm,hnode,hkey,?_,?_,fs,xs,judged,?_⟩
  · rw [hstamp]
    exact stored.lt_of_unixNano_lt _ later
  · rw [hstamp]
    exact recent
  · obtain ⟨u,-,-,verdict⟩ := judged
    have shows := CountsFor.shows sound.notifies (by rwa [←verdict,hstatus])
    intro y hy
    exact shows _ (List.mem_map_of_mem hy)

theorem notification_has_quorum_down : ∃ s t x,
    run (Cluster.step pairConfig) (.init pairConfig) (downNoticed [])=some s ∧
    s.step pairConfig (.check (goStr "a") (.tick .go) true)=some t ∧
    t.sent=s.sent++[(goStr "a",x)] ∧ x.command.status=gossipDown ∧
    ∃ S : Finset GoString,1≤S.card ∧ ∀ n∈S,∃ k m,s.originated[k]?=some m ∧ m.node=n ∧
      m.key=x.command.key ∧ ∃ fs xs,Cluster.JudgedOn pairConfig (downNoticed []) k m fs xs ∧
        ∀ y∈xs,Shows gossipDown y.taken.status := by
  obtain ⟨s,t,x,hr,hs,hx,hstatus,-⟩ := downNoticed_sends
  obtain ⟨-,S,card,hS⟩ := notification_has_quorum pairConfig (downNoticed []) s t _ _ x hr hs hx
  have one : (1 : Int)≤S.card := card
  refine ⟨s,t,x,hr,hs,hx,hstatus,S,by exact_mod_cast one,?_⟩
  intro n hn
  obtain ⟨k,m,hm,hnode,hkey,-,-,fs,xs,judged,shows⟩ := hS n hn
  exact ⟨k,m,hm,hnode,hkey,fs,xs,judged,hstatus ▸ shows⟩

/-- Phi answers DOWN, and before makeGossip2 receives the answer the next Ping finds the key UP. -/
def downOvertaken : List ClusterEvent :=
  upRecorded++
  [.verify (goStr "a") (.makeGossip1 [(goStr "k",goStr "v")]),.verify (goStr "a") .verify,
    .verify (goStr "a") (.ping 0 gossipDown 62000000000),
    .verify (goStr "a") (.phi 0 [(gossipDown,1)]),
    .verify (goStr "a") (.makeGossip1 [(goStr "k",goStr "v")]),.verify (goStr "a") .verify,
    .verify (goStr "a") (.ping 0 gossipUp 62000000000)]

/-- When the report of DOWN is originated, the only one there is, the node's window ends with an
UP sample, and DOWN is notified all the same. -/
theorem report_originated_after_up :
    (run (Cluster.step pairConfig) (.init pairConfig) downOvertaken).map (fun s =>
      (s.originated.map MyBroadcastMessage.status,
        (lastN 1 ((s.node (goStr "a")).verifier.samples (goStr "k"))).map
          (fun y => y.taken.status)))=some ([gossipUp],[gossipUp]) ∧
    (run (Cluster.step pairConfig) (.init pairConfig)
      (downOvertaken++[.makeGossip2 (goStr "a") 0 62000000000]++
        onlyPass (onlyEntry (.ofNano 2000000000) gossipUp 62000000001 gossipDown) 63000000000
          (onlyScan 62000000001 63000000000 gossipDown) [true,true,true])).map (fun t =>
      (t.originated.map MyBroadcastMessage.status,
        t.sent.map (fun p => (p.2.command.key,p.2.command.status))))=
      some ([gossipUp,gossipDown],[(goStr "k",gossipDown)]) := by
  constructor
  · decide +kernel
  · decide +kernel

/-- Every command names the value its key had on the sender when the command was
built, the empty string for a missing key, and every report that counts for it comes
from samples of values the key had on the reporting node, the last ones of its window when Phi
was called for that report. -/
theorem notification_value_origin (cfg : ClusterConfig) (es : List ClusterEvent) (s t : Cluster)
    (e : ClusterEvent) (a : GoString) (x : Sent)
    (hr : run (Cluster.step cfg) (.init cfg) es=some s) (hs : s.step cfg e=some t)
    (hx : t.sent=s.sent++[(a,x)]) :
    x.command.cmd=notificationFormat cfg.quorum.notificationScript x.command.key x.value
      x.command.status ∧
    Earlier (Cluster.step cfg) (.init cfg) es (fun _ u =>
      (∃ rest,(u.node a).checker.tick=.build x.decision x.stamp::rest) ∧
        x.value=(u.node a).fsm.cm.get x.command.key) ∧
    ∀ n r,x.decision.v.consensus.get? n=some r → CountsFor x.command.status r.gossipStatus →
      ∃ k m,s.originated[k]?=some m ∧ m.node=n ∧ m.key=x.command.key ∧ m.status=r.gossipStatus ∧
        m.timeStamp=r.timeStamp ∧ ∃ fs xs,Cluster.JudgedOn cfg es k m fs xs ∧
          ∀ y∈xs,y.input.key=m.key ∧
            Earlier (Cluster.step cfg) (.init cfg) fs (fun _ w =>
              (w.node n).fsm.cm.data.get? m.key=some y.input.value) := by
  obtain ⟨rest,ht⟩ := (s.step_steps cfg t e hs).sends a x hx
  have mem : .send x∈(s.node a).checker.tick := by simp [ht]
  have inv := Cluster.run_traced cfg es s hr
  obtain ⟨-,-,command⟩ : x.Sound cfg.quorum := (inv.2.sound a).tick _ mem
  rw [command]
  exact ⟨rfl,inv.1.built a x mem,fun n r => Cluster.counted_origin cfg es s hr a x mem n r⟩

theorem notification_value_origin_down : ∃ s t x,
    run (Cluster.step pairConfig) (.init pairConfig) (downNoticed [])=some s ∧
    s.step pairConfig (.check (goStr "a") (.tick .go) true)=some t ∧
    t.sent=s.sent++[(goStr "a",x)] ∧ x.value=goStr "v" ∧
    Earlier (Cluster.step pairConfig) (.init pairConfig) (downNoticed []) (fun _ u =>
      (∃ rest,(u.node (goStr "a")).checker.tick=.build x.decision x.stamp::rest) ∧
        x.value=(u.node (goStr "a")).fsm.cm.get x.command.key) := by
  obtain ⟨s,t,x,hr,hs,hx,-,hvalue⟩ := downNoticed_sends
  have origin := notification_value_origin pairConfig (downNoticed []) s t _ _ x hr hs hx
  exact ⟨s,t,x,hr,hs,hx,hvalue,origin.2.1⟩

/-- The samples were taken of the value "v". After a SET the command about them names
"w", and after a DELETE it names the empty string for a key that is gone. -/
theorem notification_about_other_value :
    (run (Cluster.step pairConfig) (.init pairConfig)
      (downNoticed [.commit ⟨.set,goStr "k",goStr "w"⟩,.applyNext (goStr "a")]++
        [.check (goStr "a") (.tick .go) true])).map
      (fun t => (t.sent.map (fun p => (p.2.command.key,p.2.command.status,p.2.value)),
        ((t.node (goStr "a")).verifier.samples (goStr "k")).map (fun y => y.input.value)))=
      some ([(goStr "k",gossipDown,goStr "w")],[goStr "v",goStr "v"]) ∧
    (run (Cluster.step pairConfig) (.init pairConfig)
      (downNoticed [.commit ⟨.delete,goStr "k",[]⟩,.applyNext (goStr "a")]++
        [.check (goStr "a") (.tick .go) true])).map
      (fun t => (t.sent.map (fun p => (p.2.command.key,p.2.command.status,p.2.value)),
        (t.node (goStr "a")).fsm.cm.data.get? (goStr "k")))=
      some ([(goStr "k",gossipDown,[])],none) := by
  constructor
  · decide +kernel
  · decide +kernel

end StCache
