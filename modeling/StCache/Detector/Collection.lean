import StCache.Detector.ScavengePass
import StCache.Members.Consensus

namespace StCache

namespace ScavengePass

/-- The pass has copied the store, with this copy of the cache. -/
def Sweeping (data : Table GoString GoString) (s : ScavengePass) : Prop :=
  (∃ ops,s.stage=.deleting data ops) ∨ ∃ keys,s.stage=.windows data keys

/-- A report stays if its key is in the copy of the cache and its node is a member. -/
def Live (data : Table GoString GoString) (members : List GoString) (key node : GoString) : Prop :=
  (data.lookup key).isSome=true ∧ node∈members

instance (data : Table GoString GoString) (members : List GoString) (key node : GoString) :
    Decidable (Live data members key node) :=
  inferInstanceAs (Decidable (_ ∧ _))

/-- How far the pass is with a report that is r when it starts to delete. -/
inductive Sweeps (data : Table GoString GoString) (members : List GoString) (key node : GoString)
    (r : Option GossipStatusAndTimeStamp) (s : ScavengePass) : Prop where
  | kept (live : Live data members key node) (same : s.fsm.gcm.report key node=r)
      (spared : ∀ d ops,s.stage=.deleting d ops → ∀ op∈ops,¬op.Deletes key node)
  | doomed (dead : ¬Live data members key node) (d : Table GoString GoString) (ops : List StoreOp)
      (stage : s.stage=.deleting d ops) (op : StoreOp) (ahead : op∈ops) (del : op.Deletes key node)
  | gone (dead : ¬Live data members key node) (none : s.fsm.gcm.report key node=none)

/-- How far the pass is with the window of a key that is w when it starts to delete. -/
inductive Sheds (data : Table GoString GoString) (key : GoString) (w : Option Windowed)
    (s : ScavengePass) : Prop where
  | kept (live : (data.lookup key).isSome=true) (same : s.detector.w.lookup key=w)
  | waits (dead : data.lookup key=none) (d : Table GoString GoString) (ops : List StoreOp)
      (stage : s.stage=.deleting d ops)
  | listed (dead : data.lookup key=none) (d : Table GoString GoString) (keys : List GoString)
      (stage : s.stage=.windows d keys) (ahead : key∈keys)
  | gone (dead : data.lookup key=none) (none : s.detector.w.lookup key=none)

variable {data : Table GoString GoString} {members : List GoString} {key node : GoString}
  {r : Option GossipStatusAndTimeStamp} {w : Option Windowed} {s t : ScavengePass} {e : PassEvent}

/-- No deletion of the pass is about a live report. -/
theorem scavengeOps_live {order : List (GoString × List GoString)}
    (live : Live data members key node) :
    ∀ op∈scavengeOps data members order,¬op.Deletes key node := by
  intro op hop del
  obtain ⟨p,-,made⟩ := List.mem_flatMap.mp hop
  cases found : data.lookup p.1 with
  | none =>
    simp only [found,List.mem_singleton] at made
    subst made
    have same : p.1=key := del
    rw [Live,←same,found] at live
    cases live.1
  | some value =>
    simp only [found,List.mem_map,List.mem_filter] at made
    obtain ⟨n,⟨-,stranger⟩,rfl⟩ := made
    have same : n=node := del.2
    rw [same,(existsIn_iff node members).mpr live.2] at stranger
    cases stranger

/-- Every other report that is stored has its deletion. -/
theorem scavengeOps_dead {c : GossipCacheManager} {order : List (GoString × List GoString)}
    (ho : c.ScavengeOrder order) (stored : c.report key node≠none)
    (dead : ¬Live data members key node) :
    ∃ op∈scavengeOps data members order,op.Deletes key node := by
  have entry : (c.data.lookup key).isSome=true := by
    by_contra missing
    rw [Bool.not_eq_true,Option.isSome_eq_false_iff,Option.isNone_iff_eq_none] at missing
    exact stored (by simp [GossipCacheManager.report,GossipCacheManager.entry,missing])
  obtain ⟨p,hp,rfl⟩ := List.mem_map.mp ((ho.1.mem_iff key).mpr entry)
  have listed : node∈p.2 := by
    rw [(ho.2 p hp).mem_iff,GoMap.lookup_table]
    exact Option.isSome_iff_ne_none.mpr stored
  cases found : data.lookup p.1 with
  | none =>
    refine ⟨.delKey p.1,List.mem_flatMap.mpr ⟨p,hp,?_⟩,rfl⟩
    simp only [found,List.mem_singleton]
  | some value =>
    have stranger : existsIn node members=false := by
      rw [←Bool.not_eq_true,existsIn_iff]
      exact fun member => dead ⟨by rw [found]; rfl,member⟩
    refine ⟨.delNodeAddr p.1 node,List.mem_flatMap.mpr ⟨p,hp,?_⟩,rfl,rfl⟩
    simp only [found,List.mem_map,List.mem_filter]
    exact ⟨node,⟨listed,by rw [stranger]; rfl⟩,rfl⟩

/-- The operation deletes the report of the pair. -/
theorem report_deleted {c d : GossipCacheManager} {op : StoreOp} (del : op.Deletes key node)
    (h : op.step c=some d) : d.report key node=none := by
  cases op with
  | set | notify => exact del.elim
  | delKey k =>
    obtain rfl : k=key := del
    cases h
    rw [GossipCacheManager.report,GossipCacheManager.entry_delKey,if_pos rfl]
    rfl
  | delNodeAddr k n =>
    obtain ⟨rfl,rfl⟩ : k=key ∧ n=node := del
    cases h
    rw [GossipCacheManager.report,GossipCacheManager.entry_delNodeAddr,if_pos rfl,
      GoMap.get?_delete,if_pos rfl]

/-- A deletion of the pass that is not about the pair leaves its report. -/
theorem report_spared {c d : GossipCacheManager} {op : StoreOp} (allowed : Deletion data op)
    (spared : ¬op.Deletes key node) (h : op.step c=some d) :
    d.report key node=c.report key node := by
  cases op with
  | set | notify => exact allowed.elim
  | delKey k =>
    cases h
    exact c.report_delKey spared
  | delNodeAddr k n =>
    cases h
    exact c.report_delNodeAddr spared

/-- A call of others between the deletions: it changes the report of a pair only by a Set of it,
and the window of a key only by a Ping of it. -/
structure Beside (s : ScavengePass) (e : PassEvent) (t : ScavengePass) : Prop where
  stage : t.stage=s.stage
  report : ∀ key node,(∀ m,e=.set m → ¬(key=m.key ∧ node=m.node)) →
    t.fsm.gcm.report key node=s.fsm.gcm.report key node
  window : ∀ key,(∀ stdout now,e≠.ping key stdout now) →
    t.detector.w.lookup key=s.detector.w.lookup key

/-- Everything that can happen once the pass has copied the store. -/
inductive Sweep (data : Table GoString GoString) (s : ScavengePass) : PassEvent → ScavengePass → Prop
  | beside (e : PassEvent) (t : ScavengePass) (h : s.Beside e t) : Sweep data s e t
  | delete (op : StoreOp) (ops : List StoreOp) (gcm : GossipCacheManager)
      (stage : s.stage=.deleting data (op::ops)) (done : op.step s.fsm.gcm=some gcm) :
      Sweep data s .delete
        {s with fsm := {s.fsm with gcm := gcm},stage := .deleting data ops}
  | cloneDetector (keys : List GoString) (stage : s.stage=.deleting data [])
      (order : KeyOrder keys s.detector.w) :
      Sweep data s (.cloneDetector keys) {s with stage := .windows data keys}
  | keepKey (key : GoString) (keys : List GoString) (stage : s.stage=.windows data (key::keys))
      (live : (data.lookup key).isSome=true) :
      Sweep data s .delKey {s with stage := .windows data keys}
  | delKey (key : GoString) (keys : List GoString) (stage : s.stage=.windows data (key::keys))
      (missing : data.lookup key=none) :
      Sweep data s .delKey {s with detector := s.detector.delKey key,stage := .windows data keys}

theorem Sweeping.step (h : s.Sweeping data) (hs : s.step e=some t) : s.Sweep data e t := by
  cases e with
  | apply e =>
    obtain ⟨f,applied,rfl⟩ := Option.map_eq_some_iff.mp hs
    have gcm := ((s.fsm.applyEntry_some f e).mp applied).2
    refine .beside _ _ ⟨rfl,?_,fun _ _ => rfl⟩
    intro key node _
    show f.gcm.report key node=_
    rw [gcm,GossipCacheManager.report_replay]
  | set m =>
    obtain ⟨⟨gcm,bs⟩,hset,rfl⟩ := Option.map_eq_some_iff.mp hs
    refine .beside _ _ ⟨rfl,?_,fun _ _ => rfl⟩
    intro key node other
    exact (s.fsm.gcm.report_set gcm m bs hset key node).trans (if_neg (other m rfl))
  | ping k stdout now =>
    obtain ⟨d,hping,rfl⟩ := Option.map_eq_some_iff.mp hs
    obtain ⟨v,-,rfl⟩ := Option.map_eq_some_iff.mp hping
    refine .beside _ _ ⟨rfl,fun _ _ _ => rfl,?_⟩
    intro key other
    have apart : key≠k := fun same => other stdout now (by rw [same])
    show (s.detector.w.insert k v.1).lookup key=_
    rw [lookup_insert_ite,if_neg apart]
  | cloneCache => rcases h with ⟨ops,stage⟩|⟨keys,stage⟩ <;> simp [ScavengePass.step,stage] at hs
  | members => rcases h with ⟨ops,stage⟩|⟨keys,stage⟩ <;> simp [ScavengePass.step,stage] at hs
  | cloneGossip => rcases h with ⟨ops,stage⟩|⟨keys,stage⟩ <;> simp [ScavengePass.step,stage] at hs
  | delete =>
    rcases h with ⟨ops,stage⟩|⟨keys,stage⟩
    · cases ops with
      | nil => simp [ScavengePass.step,stage] at hs
      | cons op ops =>
        simp only [ScavengePass.step,stage,Option.map_eq_some_iff] at hs
        obtain ⟨gcm,done,rfl⟩ := hs
        exact .delete op ops gcm stage done
    · simp [ScavengePass.step,stage] at hs
  | cloneDetector keys =>
    rcases h with ⟨ops,stage⟩|⟨ks,stage⟩
    · cases ops with
      | cons op ops => simp [ScavengePass.step,stage] at hs
      | nil =>
        simp only [ScavengePass.step,stage] at hs
        split_ifs at hs with order
        cases hs
        exact .cloneDetector keys stage order
    · simp [ScavengePass.step,stage] at hs
  | delKey =>
    rcases h with ⟨ops,stage⟩|⟨keys,stage⟩
    · cases ops <;> simp [ScavengePass.step,stage] at hs
    · cases keys with
      | nil => simp [ScavengePass.step,stage] at hs
      | cons key keys =>
        cases found : data.lookup key with
        | none =>
          simp only [ScavengePass.step,stage,found,Option.some.injEq] at hs
          subst hs
          exact .delKey key keys stage found
        | some value =>
          simp only [ScavengePass.step,stage,found,Option.some.injEq] at hs
          subst hs
          exact .keepKey key keys stage (by rw [found]; rfl)

theorem Sweep.sweeping (h : s.Sweeping data) (hs : s.Sweep data e t) : t.Sweeping data := by
  cases hs with
  | beside e t beside =>
    rw [Sweeping,beside.stage]
    exact h
  | delete op ops => exact .inl ⟨ops,rfl⟩
  | cloneDetector keys => exact .inr ⟨keys,rfl⟩
  | keepKey key keys => exact .inr ⟨keys,rfl⟩
  | delKey key keys => exact .inr ⟨keys,rfl⟩

/-- Past its last deletion the pass leaves the reports. -/
theorem Sweeps.finish (h : Sweeps data members key node r s)
    (last : ∀ d ops,s.stage=.deleting d ops → ops=[]) {d : Table GoString GoString}
    {keys : List GoString} (stage : t.stage=.windows d keys) (same : t.fsm=s.fsm) :
    Sweeps data members key node r t := by
  cases h with
  | kept live was spared =>
    exact .kept live (same ▸ was) (fun _ _ stage' => nomatch stage.symm.trans stage')
  | doomed dead d ops stage' op ahead =>
    rw [last d ops stage'] at ahead
    cases ahead
  | gone dead none => exact .gone dead (same ▸ none)

/-- The report of a pair that no Set writes. -/
theorem Sweeps.step (h : Sweeps data members key node r s) (tracks : s.Tracks)
    (hs : s.Sweep data e t) (apart : ∀ m,e=.set m → ¬(key=m.key ∧ node=m.node)) :
    Sweeps data members key node r t := by
  cases hs with
  | beside e t beside =>
    have same := beside.report key node apart
    cases h with
    | kept live was spared =>
      exact .kept live (same.trans was) (fun d ops stage => spared d ops (beside.stage ▸ stage))
    | doomed dead d ops stage op ahead del =>
      exact .doomed dead d ops (beside.stage.trans stage) op ahead del
    | gone dead none => exact .gone dead (same.trans none)
  | delete first ops gcm stage done =>
    have allowed := tracks.allowed data (first::ops) stage first List.mem_cons_self
    cases h with
    | kept live same spared =>
      have now := report_spared allowed (spared data _ stage first List.mem_cons_self) done
      refine .kept live (now.trans same) ?_
      intro d rest stage' op ahead
      cases stage'
      exact spared data _ stage op (List.mem_cons_of_mem first ahead)
    | doomed dead d rest stage' op ahead del =>
      rw [stage,PassStage.deleting.injEq] at stage'
      obtain ⟨rfl,rfl⟩ := stage'
      rcases List.mem_cons.mp ahead with rfl|later
      · exact .gone dead (report_deleted del done)
      · exact .doomed dead data ops rfl op later del
    | gone dead none =>
      by_cases del : first.Deletes key node
      · exact .gone dead (report_deleted del done)
      · exact .gone dead ((report_spared allowed del done).trans none)
  | cloneDetector keys stage order =>
    refine h.finish (fun d ops stage' => ?_) rfl rfl
    rw [stage,PassStage.deleting.injEq] at stage'
    exact stage'.2.symm
  | keepKey k keys stage live => exact h.finish (fun _ _ stage' => nomatch stage.symm.trans stage') rfl rfl
  | delKey k keys stage missing =>
    exact h.finish (fun _ _ stage' => nomatch stage.symm.trans stage') rfl rfl

/-- The window of a key that no Ping writes. -/
theorem Sheds.step (h : Sheds data key w s) (hs : s.Sweep data e t)
    (apart : ∀ stdout now,e≠.ping key stdout now) : Sheds data key w t := by
  cases hs with
  | beside e t beside =>
    have same := beside.window key apart
    cases h with
    | kept live was => exact .kept live (same.trans was)
    | waits dead d ops stage => exact .waits dead d ops (beside.stage.trans stage)
    | listed dead d keys stage ahead => exact .listed dead d keys (beside.stage.trans stage) ahead
    | gone dead none => exact .gone dead (same.trans none)
  | delete op ops gcm stage done =>
    cases h with
    | kept live same => exact .kept live same
    | waits dead => exact .waits dead data ops rfl
    | listed dead d keys stage' => exact absurd (stage.symm.trans stage') nofun
    | gone dead none => exact .gone dead none
  | cloneDetector keys stage order =>
    cases h with
    | kept live same => exact .kept live same
    | waits dead =>
      by_cases here : key∈keys
      · exact .listed dead data keys rfl here
      · refine .gone dead ?_
        rw [order.mem_iff,Bool.not_eq_true,Option.isSome_eq_false_iff,Option.isNone_iff_eq_none] at here
        exact here
    | listed dead d ks stage' => exact absurd (stage.symm.trans stage') nofun
    | gone dead none => exact .gone dead none
  | keepKey k keys stage live' =>
    cases h with
    | kept live same => exact .kept live same
    | waits dead d ops stage' => exact absurd (stage.symm.trans stage') nofun
    | listed dead d ks stage' ahead =>
      rw [stage,PassStage.windows.injEq] at stage'
      obtain ⟨rfl,rfl⟩ := stage'
      rcases List.mem_cons.mp ahead with rfl|later
      · rw [dead] at live'
        cases live'
      · exact .listed dead data keys rfl later
    | gone dead none => exact .gone dead none
  | delKey k keys stage missing =>
    have erased : (s.detector.delKey k).w.lookup key=
        if key=k then none else s.detector.w.lookup key := lookup_erase_ite _ _ _
    cases h with
    | kept live same =>
      refine .kept live (erased.trans ?_)
      rw [if_neg (by rintro rfl; rw [missing] at live; cases live)]
      exact same
    | waits dead d ops stage' => exact absurd (stage.symm.trans stage') nofun
    | listed dead d ks stage' ahead =>
      rw [stage,PassStage.windows.injEq] at stage'
      obtain ⟨rfl,rfl⟩ := stage'
      by_cases first : key=k
      · exact .gone dead (erased.trans (if_pos first))
      · exact .listed dead data keys rfl ((List.mem_cons.mp ahead).resolve_left first)
    | gone dead none =>
      refine .gone dead (erased.trans ?_)
      rw [none,ite_self]

theorem sweeps_run {es : List PassEvent} (h : Sweeps data members key node r s) (tracks : s.Tracks)
    (sweeping : s.Sweeping data) (apart : ∀ m,.set m∈es → ¬(key=m.key ∧ node=m.node))
    (hr : run step s es=some t) : Sweeps data members key node r t := by
  have all := run_invariant step
    (fun _ e => ∀ m,e=.set m → ¬(key=m.key ∧ node=m.node))
    (fun s => s.Tracks ∧ s.Sweeping data ∧ Sweeps data members key node r s) (by
      intro s e t ⟨tracks,sweeping,sweeps⟩ apart hs
      have moves := sweeping.step hs
      exact ⟨tracks.step hs,moves.sweeping sweeping,sweeps.step tracks moves apart⟩)
    es s t ⟨tracks,sweeping,h⟩
    (along_of_forall _ _ _ es (fun e he m same => apart m (same ▸ he))) hr
  exact all.2.2

theorem sheds_run {es : List PassEvent} (h : Sheds data key w s) (sweeping : s.Sweeping data)
    (apart : ∀ stdout now,.ping key stdout now∉es) (hr : run step s es=some t) :
    Sheds data key w t := by
  have all := run_invariant step (fun _ e => ∀ stdout now,e≠.ping key stdout now)
    (fun s => s.Sweeping data ∧ Sheds data key w s) (by
      intro s e t ⟨sweeping,sheds⟩ apart hs
      have moves := sweeping.step hs
      exact ⟨moves.sweeping sweeping,sheds.step moves apart⟩)
    es s t ⟨sweeping,h⟩
    (along_of_forall _ _ _ es (fun e he stdout now same => apart stdout now (same ▸ he))) hr
  exact all.2

/-- The pass copies the store. -/
theorem sweeps_clone {order : List (GoString × List GoString)} (stage : s.stage=.listed data members)
    (hs : s.step (.cloneGossip order)=some t) (key node : GoString) :
    t.Sweeping data ∧ Sweeps data members key node (s.fsm.gcm.report key node) t ∧
      Sheds data key (s.detector.w.lookup key) t := by
  simp only [step,stage] at hs
  split_ifs at hs with ho
  cases hs
  refine ⟨.inl ⟨_,rfl⟩,?_,?_⟩
  · by_cases live : Live data members key node
    · refine .kept live rfl ?_
      intro d ops stage'
      cases stage'
      exact scavengeOps_live live
    · by_cases stored : s.fsm.gcm.report key node=none
      · exact .gone live stored
      · obtain ⟨op,ahead,del⟩ := scavengeOps_dead ho stored live
        exact .doomed live data _ rfl op ahead del
  · cases found : data.lookup key with
    | none => exact .waits found data _ rfl
    | some value => exact .kept (by rw [found]; rfl) rfl

end ScavengePass

/-- A whole pass collects exactly the garbage, whatever happens between its calls. Of the reports
that are not set after the pass copied the store it leaves those of cached keys and listed members,
and of the windows that are not pinged those of cached keys. -/
theorem pass_collects_exactly (fsm : Fsm) (detector : Detector) (before : List PassEvent)
    (s : ScavengePass) (hs : run ScavengePass.step ⟨fsm,detector,.start,[]⟩ before=some s)
    (data : Table GoString GoString) (members : List GoString) (stage : s.stage=.listed data members)
    (order : List (GoString × List GoString)) (after : List PassEvent) (t : ScavengePass)
    (hr : run ScavengePass.step s (.cloneGossip order::after)=some t)
    (done : t.stage=.windows data []) :
    (∀ key node,(∀ m,.set m∈after → ¬(key=m.key ∧ node=m.node)) →
      t.fsm.gcm.report key node=
        if (data.lookup key).isSome=true ∧ node∈members then s.fsm.gcm.report key node else none) ∧
    ∀ key,(∀ stdout now,.ping key stdout now∉after) →
      t.detector.w.lookup key=
        if (data.lookup key).isSome=true then s.detector.w.lookup key else none := by
  rw [run_cons] at hr
  obtain ⟨u,hu,hr⟩ := Option.bind_eq_some_iff.mp hr
  have tracks := run_invariant ScavengePass.step (fun _ _ => True) ScavengePass.Tracks
    (fun _ _ _ h _ hs => h.step hs) before _ s (ScavengePass.tracks_start fsm detector)
    (along_of_forall _ _ _ before (fun _ _ => trivial)) hs
  constructor
  · intro key node apart
    obtain ⟨sweeping,sweeps,-⟩ := ScavengePass.sweeps_clone stage hu key node
    cases ScavengePass.sweeps_run sweeps (tracks.step hu) sweeping apart hr with
    | kept live same => exact same.trans (if_pos live).symm
    | doomed dead d ops stage' => exact nomatch done.symm.trans stage'
    | gone dead none => exact none.trans (if_neg dead).symm
  · intro key apart
    obtain ⟨sweeping,-,sheds⟩ := ScavengePass.sweeps_clone stage hu key []
    cases ScavengePass.sheds_run sheds sweeping apart hr with
    | kept live same => rw [same,if_pos live]
    | waits dead d ops stage' => exact nomatch done.symm.trans stage'
    | listed dead d keys stage' ahead =>
      rw [done,PassStage.windows.injEq] at stage'
      rw [←stage'.2] at ahead
      cases ahead
    | gone dead none => rw [none,dead,if_neg (by decide)]

/-- Key "k" is cached and "old" is not; node "n2" has left, and "n1" reports again about "old" while
the pass deletes. -/
def beforeCopy : List PassEvent :=
  [.apply ⟨.set,goStr "k",goStr "v"⟩,.set ⟨1,goStr "n1",goStr "k",goStr "v",gossipUp⟩,
    .set ⟨1,goStr "n2",goStr "k",goStr "v",gossipUp⟩,.set ⟨1,goStr "n2",goStr "old",goStr "v",gossipUp⟩,
    .ping (goStr "old") gossipUp 1,.cloneCache,.members [goStr "n1"]]

def afterCopy : List PassEvent :=
  [.delete,.set ⟨2,goStr "n1",goStr "old",goStr "v",gossipUp⟩,.delete,.cloneDetector [goStr "old"],
    .delKey]

def copyOrder : List (GoString × List GoString) :=
  [(goStr "k",[goStr "n1",goStr "n2"]),(goStr "old",[goStr "n2"])]

/-- The pass has listed n1 as its only member, and it is done. -/
def doneWith : PassStage → PassStage → Bool
  | .listed data members,.windows d [] => decide (members=[goStr "n1"] ∧ d=data ∧
      (data.lookup (goStr "k")).isSome=true ∧ data.lookup (goStr "old")=none)
  | _,_ => false

theorem pass_collects_exactly_between :
    ∃ s t,run ScavengePass.step ⟨.new,.new 3 2,.start,[]⟩ beforeCopy=some s ∧
      run ScavengePass.step s (.cloneGossip copyOrder::afterCopy)=some t ∧
      t.fsm.gcm.report (goStr "k") (goStr "n1")=s.fsm.gcm.report (goStr "k") (goStr "n1") ∧
      t.fsm.gcm.report (goStr "k") (goStr "n2")=none ∧
      t.fsm.gcm.report (goStr "old") (goStr "n2")=none ∧
      t.detector.w.lookup (goStr "old")=none := by
  have runs : (run ScavengePass.step ⟨.new,.new 3 2,.start,[]⟩ beforeCopy).bind (fun s =>
      (run ScavengePass.step s (.cloneGossip copyOrder::afterCopy)).map (fun t =>
        doneWith s.stage t.stage))=some true := by
    decide +kernel
  obtain ⟨s,hs,runs⟩ := Option.bind_eq_some_iff.mp runs
  obtain ⟨t,ht,stages⟩ := Option.map_eq_some_iff.mp runs
  rw [doneWith.eq_def] at stages
  split at stages
  · next data members d listed done =>
    obtain ⟨rfl,rfl,cached,uncached⟩ := of_decide_eq_true stages
    obtain ⟨reports,windows⟩ := pass_collects_exactly .new (.new 3 2) beforeCopy s hs d _ listed
      copyOrder afterCopy t ht done
    have apart (key node : GoString) (other : (key,node)≠(goStr "old",goStr "n1")) :
        ∀ m,.set m∈afterCopy → ¬(key=m.key ∧ node=m.node) := by
      rintro m hm ⟨rfl,rfl⟩
      simp only [afterCopy,List.mem_cons,PassEvent.set.injEq,reduceCtorEq,List.not_mem_nil,or_false,
        false_or] at hm
      rw [hm] at other
      exact other rfl
    have unpinged : ∀ stdout now,.ping (goStr "old") stdout now∉afterCopy := by
      simp [afterCopy]
    refine ⟨s,t,hs,ht,?_,?_,?_,?_⟩
    · exact (reports _ _ (apart _ _ (by decide))).trans (if_pos ⟨cached,List.mem_cons_self⟩)
    · exact (reports _ _ (apart _ _ (by decide))).trans (if_neg (fun live =>
        absurd (List.mem_singleton.mp live.2) (by decide)))
    · refine (reports _ _ (apart _ _ (by decide))).trans (if_neg ?_)
      rw [uncached]
      exact fun live => nomatch live.1
    · refine (windows _ unpinged).trans (if_neg ?_)
      rw [uncached]
      exact nofun
  · cases stages

end StCache
