import StCache.Cluster.Convergence

namespace StCache

/-- The process of node a goes on and its own report about the key is not deleted. -/
def ownKept (a key : GoString) : ClusterEvent → Bool
  | .delKey b k => !(b=a && k=key)
  | .delNodeAddr b k n => !(b=a && k=key && n=a)
  | .restart b _ => !(b=a)
  | _ => true

/-- No timestamp of node a wraps around. -/
def ownClock (a : GoString) (s : Cluster) (e : ClusterEvent) : Bool :=
  if e.actor=some a then noWrap s e else true

/-- makeGossip2 receives the outputs for the key in the order of their Phi calls: it
takes none while an earlier one is waiting to be sent. -/
def inOrder (a key : GoString) (s : Cluster) : ClusterEvent → Bool
  | .makeGossip2 b i _ =>
    match (s.node b).verifier.outputs[i]? with
    | none => true
    | some o => b≠a || o.key≠key ||
        ((s.node b).verifier.outputs.take i).all (fun x => x.key≠key)
  | _ => true

namespace Cluster

/-- What node a has published about the key, oldest first. -/
def published (s : Cluster) (a key : GoString) : List MyBroadcastMessage :=
  reportsOf s.originated key a

/-- The reports of node a have ever higher timestamps, and the last one about the key
is the one it stores. -/
structure Publishes (a key : GoString) (s : Cluster) : Prop where
  network : ∀ m∈s.network,m∈s.originated
  bound : ∀ m∈s.originated,m.node=a → m.timeStamp≤(s.node a).lastTimeStamp
  ordered : s.originated.Pairwise
    (fun x y => x.node=a → y.node=a → x.timeStamp < y.timeStamp)
  stored : (s.node a).fsm.gcm.report key a=
    (s.published a key).getLast?.map (fun m => ⟨m.status,m.timeStamp⟩)

theorem publishes_init (cfg : ClusterConfig) (a key : GoString) : (init cfg).Publishes a key :=
  ⟨by simp [init],by simp [init],by simp [init],rfl⟩

theorem Publishes.published_le {a key : GoString} {s : Cluster} (h : s.Publishes a key)
    {m last : MyBroadcastMessage} (hm : m∈s.published a key)
    (hl : (s.published a key).getLast?=some last) : m.timeStamp≤last.timeStamp := by
  obtain ⟨front,hf⟩ := List.getLast?_eq_some_iff.mp hl
  have order : (s.published a key).Pairwise (fun x y => x.node=a → y.node=a →
      x.timeStamp < y.timeStamp) := h.ordered.sublist List.filter_sublist
  have own (x : MyBroadcastMessage) (hx : x∈s.published a key) : x.node=a :=
    (mem_reportsOf.mp hx).2.2
  rw [hf] at order own hm
  rw [List.pairwise_append] at order
  cases List.mem_append.mp hm with
  | inl hm =>
    exact Int64.le_of_lt (order.2.2 m hm last (by simp) (own m (by simp [hm])) (own last (by simp)))
  | inr hm =>
    rw [List.mem_singleton.mp hm]
    exact Int64.le_refl _

/-- A delivery of one of its own reports does not change what the node stores. -/
theorem Publishes.deliver {a key : GoString} {s : Cluster} (h : s.Publishes a key)
    {m : MyBroadcastMessage} {gcm : GossipCacheManager} {bs : List MyBroadcastMessage}
    (hm : m∈s.network) (hset : (s.node a).fsm.gcm.set m=some (gcm,bs)) :
    gcm.report key a=(s.node a).fsm.gcm.report key a := by
  rw [GossipCacheManager.report_set _ gcm m bs hset]
  split_ifs with about
  · have here : m∈s.published a key := by
      exact mem_reportsOf.mpr ⟨h.network m hm,about.1.symm,about.2.symm⟩
    cases hl : (s.published a key).getLast? with
    | none =>
      rw [List.getLast?_eq_none_iff.mp hl] at here
      cases here
    | some last =>
      have stored := h.stored
      rw [hl,Option.map_some] at stored
      have newest := Int64.not_lt.mpr (h.published_le here hl)
      rw [←about.1,←about.2,stored,GossipCacheManager.winner,if_neg newest]
  · rfl

/-- Its own new report is the newest one of the node, and stored. -/
theorem Publishes.publish {a key : GoString} {s : Cluster} (h : s.Publishes a key)
    {m : MyBroadcastMessage} {gcm : GossipCacheManager} {bs : List MyBroadcastMessage}
    (newer : (s.node a).lastTimeStamp < m.timeStamp)
    (hset : (s.node a).fsm.gcm.set m=some (gcm,bs)) :
    gcm.report key a=(reportsOf (s.originated++[m]) key a).getLast?.map
      (fun m => ⟨m.status,m.timeStamp⟩) := by
  rw [GossipCacheManager.report_set _ gcm m bs hset,reportsOf_snoc]
  split_ifs with about
  · rw [List.getLast?_concat,Option.map_some,Option.some.injEq,←about.1,←about.2,h.stored]
    cases hl : (s.published a key).getLast? with
    | none => rfl
    | some last =>
      have mem := mem_reportsOf.mp (List.mem_of_getLast? hl)
      have older := Int64.lt_of_le_of_lt (h.bound last mem.1 mem.2.2) newer
      simp only [Option.map_some,GossipCacheManager.winner,if_pos older]
  · exact h.stored

/-- Where nothing is originated and the node's clock and report stay, all stays. -/
theorem Publishes.quiet {a key : GoString} {s u : Cluster} (h : s.Publishes a key)
    (network : ∀ m∈u.network,m∈u.originated) (originated : u.originated=s.originated)
    (own : (u.node a).lastTimeStamp=(s.node a).lastTimeStamp ∧
      (u.node a).fsm.gcm.report key a=(s.node a).fsm.gcm.report key a) : u.Publishes a key := by
  refine ⟨network,?_,?_,?_⟩
  · rw [originated,own.1]
    exact h.bound
  · rw [originated]
    exact h.ordered
  · rw [own.2,published,originated]
    exact h.stored

/-- One more report, above the node's clock if it is its own. -/
theorem Publishes.originate {a key : GoString} {s u : Cluster} (h : s.Publishes a key)
    {m : MyBroadcastMessage} (network : ∀ m∈u.network,m∈u.originated)
    (originated : u.originated=s.originated++[m])
    (clock : (s.node a).lastTimeStamp≤(u.node a).lastTimeStamp)
    (newer : m.node=a → (s.node a).lastTimeStamp < m.timeStamp ∧
      m.timeStamp≤(u.node a).lastTimeStamp)
    (stored : (u.node a).fsm.gcm.report key a=(reportsOf (s.originated++[m]) key a).getLast?.map
      (fun m => ⟨m.status,m.timeStamp⟩)) : u.Publishes a key := by
  refine ⟨network,?_,?_,?_⟩
  · intro x hx own
    rw [originated] at hx
    cases List.mem_append.mp hx with
    | inl old => exact Int64.le_trans (h.bound x old own) clock
    | inr new =>
      rw [List.mem_singleton.mp new] at own ⊢
      exact (newer own).2
  · rw [originated,List.pairwise_append]
    refine ⟨h.ordered,List.pairwise_singleton _ _,?_⟩
    intro x hx y hy own same
    rw [List.mem_singleton.mp hy] at same ⊢
    exact Int64.lt_of_le_of_lt (h.bound x hx own) (newer same).1
  · rw [published,originated]
    exact stored

theorem Publishes.step {cfg : ClusterConfig} {a key : GoString} {s t : Cluster} {e : ClusterEvent}
    (h : s.Publishes a key) (kept : ownKept a key e=true) (clock : ownClock a s e=true)
    (hs : s.Steps cfg e t) : t.Publishes a key := by
  have network := hs.broadcasts h.network
  have frame (b : GoString) (n : Node)
      (last : b=a → n.lastTimeStamp=(s.node a).lastTimeStamp)
      (report : b=a → n.fsm.gcm.report key a=(s.node a).fsm.gcm.report key a) :
      ((s.put b n).node a).lastTimeStamp=(s.node a).lastTimeStamp ∧
        ((s.put b n).node a).fsm.gcm.report key a=(s.node a).fsm.gcm.report key a := by
    rw [put_node]
    split_ifs with hb
    · exact ⟨last hb.symm,report hb.symm⟩
    · exact ⟨rfl,rfl⟩
  cases hs with
  | commit e => exact h.quiet network rfl ⟨rfl,rfl⟩
  | applyNext b e f he hf =>
    have gcm := ((Fsm.applyEntry_some _ _ _).mp hf).2
    refine h.quiet network rfl (frame b _ (fun hb => by rw [hb]) ?_)
    intro hb
    rw [gcm,GossipCacheManager.report_replay,hb]
  | deliver b m gcm bs hm hset =>
    refine h.quiet network rfl (frame b _ (fun hb => by rw [hb]) ?_)
    intro hb
    rw [hb] at hset
    exact h.deliver hm hset
  | makeGossip2 b i now o gcm bs ho hset =>
    by_cases hb : b=a
    · subst b
      have fits : now≠Int64.maxValue ∧ (s.node a).lastTimeStamp≠Int64.maxValue := by
        simpa [ownClock,ClusterEvent.actor,noWrap] using clock
      have newer := lt_max64_succ now (s.node a).lastTimeStamp fits.1 fits.2
      apply h.originate network rfl
      · rw [put_node,if_pos rfl]
        exact Int64.le_of_lt newer
      · intro _
        rw [put_node,if_pos rfl]
        exact ⟨newer,Int64.le_refl _⟩
      · rw [put_node,if_pos rfl]
        exact h.publish newer hset
    · have elsewhere : ∀ n,(s.put b n).node a=s.node a := fun n => by
        rw [put_node,if_neg (fun he => hb he.symm)]
      apply h.originate network rfl
      · rw [elsewhere]
        exact Int64.le_refl _
      · intro own
        exact absurd own hb
      · rw [elsewhere,reportsOf_snoc,if_neg (fun he => hb he.2.symm)]
        exact h.stored
  | verify b | check b | detectorDelKey b | writeFlag b =>
    exact h.quiet network rfl (frame b _ (fun hb => by rw [hb]) (fun hb => by rw [hb]))
  | delKey b k =>
    refine h.quiet network rfl (frame b _ (fun hb => by rw [hb]) ?_)
    intro hb
    have other : k≠key := by simpa [ownKept,hb] using kept
    rw [GossipCacheManager.report_delKey _ other,hb]
  | delNodeAddr b k n =>
    refine h.quiet network rfl (frame b _ (fun hb => by rw [hb]) ?_)
    intro hb
    have other : ¬(k=key ∧ n=a) := not_and_or.mpr (by simpa [ownKept,hb] using kept)
    rw [GossipCacheManager.report_delNodeAddr _ other,hb]
  | restart b i cm hi hcm =>
    have other : b≠a := by simpa [ownKept] using kept
    exact h.quiet network rfl
      (frame b _ (fun he => absurd he other) (fun he => absurd he other))

/-- What a step does to the outputs of node a that wait for makeGossip2: nothing, a
Phi call adds one, or makeGossip2 takes one and publishes it. -/
theorem Steps.outputs_cases {cfg : ClusterConfig} {a key : GoString} {s t : Cluster}
    {e : ClusterEvent} (h : s.Steps cfg e t) (kept : ownKept a key e=true) :
    (t.published a key=s.published a key ∧
      ((t.node a).verifier.outputs=(s.node a).verifier.outputs ∨
        ∃ o,e.actor=some a ∧
          (t.node a).verifier.outputs=(s.node a).verifier.outputs++[o])) ∨
    ∃ i now o,e=.makeGossip2 a i now ∧ (s.node a).verifier.outputs[i]?=some o ∧
      (t.node a).verifier.outputs=(s.node a).verifier.outputs.eraseIdx i ∧
      t.published a key=if o.key=key then
        s.published a key++[stampReport (s.node a) a o now] else s.published a key := by
  have frame (b : GoString) (n : Node)
      (same : b=a → n.verifier.outputs=(s.node a).verifier.outputs) :
      ((s.put b n).node a).verifier.outputs=(s.node a).verifier.outputs := by
    rw [put_node]
    split_ifs with hb
    · exact same hb.symm
    · rfl
  cases h with
  | commit e => exact .inl ⟨rfl,.inl rfl⟩
  | verify b x v hv =>
    refine .inl ⟨rfl,?_⟩
    by_cases hb : b=a
    · subst b
      rw [put_node,if_pos rfl]
      cases hv with
      | phi i order input status hi hp => exact .inr ⟨_,rfl,rfl⟩
      | makeGossip1 | verify | ping => exact .inl rfl
    · exact .inl (frame b _ (fun he => absurd he hb))
  | makeGossip2 b i now o gcm bs ho hset =>
    by_cases hb : b=a
    · subst b
      refine .inr ⟨i,now,o,rfl,ho,by rw [put_node,if_pos rfl],?_⟩
      rw [published,reportsOf_snoc]
      by_cases hk : o.key=key
      · rw [if_pos ⟨hk.symm,rfl⟩,if_pos hk]
        rfl
      · rw [if_neg (fun he => hk he.1.symm),if_neg hk]
        rfl
    · refine .inl ⟨?_,.inl (frame b _ (fun he => absurd he hb))⟩
      rw [published,reportsOf_snoc,if_neg (fun he => hb he.2.symm)]
      rfl
  | applyNext b | deliver b | check b | writeFlag b | delKey b | delNodeAddr b
  | detectorDelKey b =>
    refine .inl ⟨rfl,.inl (frame b _ ?_)⟩
    rintro rfl
    rfl
  | restart b i cm hi hcm =>
    have other : b≠a := by simpa [ownKept] using kept
    exact .inl ⟨rfl,.inl (frame b _ (fun he => absurd he other))⟩

end Cluster

/-- The cluster together with the outputs of each node in the order of the Phi calls
that made them. -/
structure Publishing where
  cluster : Cluster
  phis : GoString → List VerifyOutput

namespace Publishing

def init (cfg : ClusterConfig) : Publishing := ⟨.init cfg,fun _ => []⟩

def step (cfg : ClusterConfig) (p : Publishing) (e : ClusterEvent) : Option Publishing :=
  (p.cluster.step cfg e).map (fun t => ⟨t,fun a =>
    if e.actor=some a then
      p.phis a++(t.node a).verifier.outputs.drop (p.cluster.node a).verifier.outputs.length
    else p.phis a⟩)

/-- The outputs for the key in the order of their Phi calls. -/
def verdicts (p : Publishing) (a key : GoString) : List VerifyOutput :=
  (p.phis a).filter (fun o => o.key=key)

/-- The outputs for the key that were not sent yet. -/
def waiting (p : Publishing) (a key : GoString) : List VerifyOutput :=
  (p.cluster.node a).verifier.outputs.filter (fun o => o.key=key)

/-- What was published and what waits to be sent are together the verdicts, in order. -/
def Follows (a key : GoString) (p : Publishing) : Prop :=
  (p.cluster.published a key).map MyBroadcastMessage.status++
    (p.waiting a key).map VerifyOutput.status=(p.verdicts a key).map VerifyOutput.status

end Publishing

section Selection
variable {A : Type} (l : List A) (p : A → Bool) (i : Nat) (x : A)

theorem filter_eraseIdx_other (hi : l[i]?=some x) (hx : p x=false) :
    (l.eraseIdx i).filter p=l.filter p := by
  induction l generalizing i with
  | nil => rfl
  | cons y l ih =>
    cases i with
    | zero =>
      obtain rfl : y=x := by simpa using hi
      simp [hx]
    | succ i =>
      rw [List.eraseIdx_cons_succ,List.filter_cons,List.filter_cons,ih i (by simpa using hi)]

theorem filter_eraseIdx_first (hi : l[i]?=some x) (hx : p x=true)
    (first : ∀ y∈l.take i,p y=false) : l.filter p=x::(l.eraseIdx i).filter p := by
  induction l generalizing i with
  | nil => simp at hi
  | cons y l ih =>
    cases i with
    | zero =>
      obtain rfl : y=x := by simpa using hi
      simp [hx]
    | succ i =>
      have skip : p y=false := first y (by simp)
      have tail := ih i (by simpa using hi) (fun z hz => first z (by simp [hz]))
      simp [skip,tail]

end Selection

theorem Publishing.Follows.step {cfg : ClusterConfig} {a key : GoString} {p q : Publishing}
    {e : ClusterEvent} (h : p.Follows a key) (kept : ownKept a key e=true)
    (order : inOrder a key p.cluster e=true) (hs : p.step cfg e=some q) : q.Follows a key := by
  obtain ⟨t,ht,rfl⟩ := Option.map_eq_some_iff.mp hs
  have steps := p.cluster.step_steps cfg t e ht
  unfold Follows at h ⊢
  simp only [waiting,verdicts] at h ⊢
  rcases steps.outputs_cases kept with ⟨published,same|⟨o,actor,added⟩⟩|
    ⟨i,now,o,rfl,ho,taken,published⟩
  · simpa [published,same] using h
  · rw [published,added,if_pos actor,List.drop_left,List.filter_append,List.filter_append,
      List.map_append,List.map_append,←h,List.append_assoc]
  · have nothing : (t.node a).verifier.outputs.drop (p.cluster.node a).verifier.outputs.length=[] := by
      rw [taken,List.drop_eq_nil_iff,List.length_eraseIdx]
      split_ifs <;> omega
    rw [published,nothing,List.append_nil,ite_self,taken,←h]
    by_cases hk : o.key=key
    · have first : ∀ x∈(p.cluster.node a).verifier.outputs.take i,decide (x.key=key)=false := by
        simpa [inOrder,ho,hk] using order
      have split := filter_eraseIdx_first _ (fun x => decide (x.key=key)) i o ho (by simpa using hk)
        first
      rw [if_pos hk,split]
      simp [Cluster.stampReport]
    · rw [if_neg hk,filter_eraseIdx_other _ (fun x => decide (x.key=key)) i o ho (by simpa using hk)]

/-- Node a stores the status it published last, with timestamps in the order in which
makeGossip2 received the outputs. Where it receives those for the key in the order of
their Phi calls and none is waiting, that is the verdict of the latest Phi call. -/
theorem published_status_latest (cfg : ClusterConfig) (a key : GoString) (es : List ClusterEvent)
    (p : Publishing)
    (ok : Along (Publishing.step cfg)
      (fun s e => ownKept a key e=true ∧ ownClock a s.cluster e=true) (.init cfg) es)
    (hr : run (Publishing.step cfg) (.init cfg) es=some p) :
    p.cluster.originated.Pairwise
      (fun x y => x.node=a → y.node=a → x.timeStamp < y.timeStamp) ∧
    (p.cluster.node a).fsm.gcm.report key a=
      (p.cluster.published a key).getLast?.map (fun m => ⟨m.status,m.timeStamp⟩) ∧
    (Along (Publishing.step cfg) (fun s e => inOrder a key s.cluster e=true) (.init cfg) es →
      p.waiting a key=[] →
      ((p.cluster.node a).fsm.gcm.report key a).map GossipStatusAndTimeStamp.gossipStatus=
        (p.verdicts a key).getLast?.map VerifyOutput.status) := by
  have publishes : p.cluster.Publishes a key := by
    refine run_invariant (Publishing.step cfg) _ (fun p => p.cluster.Publishes a key) ?_ es _ p
      (Cluster.publishes_init cfg a key) ok hr
    intro p e q h ok hs
    obtain ⟨t,ht,rfl⟩ := Option.map_eq_some_iff.mp hs
    exact h.step ok.1 ok.2 (p.cluster.step_steps cfg t e ht)
  refine ⟨publishes.ordered,publishes.stored,?_⟩
  intro order sent
  have follows : p.Follows a key := by
    have start : (Publishing.init cfg).Follows a key := rfl
    refine run_invariant (Publishing.step cfg) _ (Publishing.Follows a key) ?_ es _ p start
      (along_and _ _ _ _ _ ok order) hr
    intro p e q h ok hs
    exact h.step ok.1.1 ok.2 hs
  rw [Publishing.Follows,sent,List.map_nil,List.append_nil] at follows
  have last := congrArg List.getLast? follows
  rw [List.getLast?_map,List.getLast?_map] at last
  rw [publishes.stored,Option.map_map]
  exact last

/-- The sizes of NewCommonVerifier. -/
def verifierConfig : ClusterConfig := ⟨⟨1,60,goStr "notify"⟩,5,3⟩

/-- Three workers verify the only key "k"; the third Phi call is the first one with
enough samples. -/
def threeWorkers : List ClusterEvent :=
  [.commit ⟨.set,goStr "k",goStr "v"⟩,.applyNext (goStr "a")]++
  ([.makeGossip1 [(goStr "k",goStr "v")],.verify,.makeGossip1 [(goStr "k",goStr "v")],.verify,
    .makeGossip1 [(goStr "k",goStr "v")],.verify,.ping 0 (goStr "UP") 1,.ping 0 (goStr "UP") 2,
    .phi 0 [],.phi 0 [],.ping 0 (goStr "UP") 3,.phi 0 [(gossipUp,3)]] : List VerifierAction).map
      (.verify (goStr "a"))

/-- What node a stores about the key, what waits to be sent and the latest verdict. -/
def Publishing.summary (p : Publishing) :
    Option GossipStatusAndTimeStamp × List VerifyOutput × Option GossipStatus :=
  ((p.cluster.node (goStr "a")).fsm.gcm.report (goStr "k") (goStr "a"),
    p.waiting (goStr "a") (goStr "k"),
    (p.verdicts (goStr "a") (goStr "k")).getLast?.map VerifyOutput.status)

theorem published_status_latest_inOrder :
    ∃ p,run (Publishing.step verifierConfig) (.init verifierConfig)
        (threeWorkers++[.makeGossip2 (goStr "a") 0 10,.makeGossip2 (goStr "a") 0 5,
          .makeGossip2 (goStr "a") 0 20])=some p ∧
      ((p.cluster.node (goStr "a")).fsm.gcm.report (goStr "k") (goStr "a")).map
        GossipStatusAndTimeStamp.gossipStatus=some gossipUp := by
  have done : (run (Publishing.step verifierConfig) (.init verifierConfig)
      (threeWorkers++[.makeGossip2 (goStr "a") 0 10,.makeGossip2 (goStr "a") 0 5,
        .makeGossip2 (goStr "a") 0 20])).map Publishing.summary=
      some (some ⟨gossipUp,21⟩,[],some gossipUp) := by decide +kernel
  obtain ⟨p,hp,summary⟩ := Option.map_eq_some_iff.mp done
  simp only [Publishing.summary,Prod.mk.injEq] at summary
  have latest := published_status_latest verifierConfig (goStr "a") (goStr "k") _ p
    (by decide +kernel) hp
  exact ⟨p,hp,(latest.2.2 (by decide +kernel) summary.2.1).trans summary.2.2⟩

/-- The worker with the latest verdict sends first: the older verdicts get the higher
timestamps, and one of them stays. The same happens in the right order where the last
timestamp wraps around. -/
theorem published_status_stale :
    (run (Publishing.step verifierConfig) (.init verifierConfig)
      (threeWorkers++[.makeGossip2 (goStr "a") 2 10,.makeGossip2 (goStr "a") 0 10,
        .makeGossip2 (goStr "a") 0 10])).map Publishing.summary=
      some (some ⟨gossipLessThanMinsample,13⟩,[],some gossipUp) ∧
    (run (Publishing.step verifierConfig) (.init verifierConfig)
      (threeWorkers++[.makeGossip2 (goStr "a") 0 10,.makeGossip2 (goStr "a") 0 10,
        .makeGossip2 (goStr "a") 0 Int64.maxValue])).map Publishing.summary=
      some (some ⟨gossipLessThanMinsample,12⟩,[],some gossipUp) := by
  constructor
  · decide +kernel
  · decide +kernel

end StCache
