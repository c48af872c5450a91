import StCache.Detector.Detector
import StCache.Store.Acceptance
import StCache.Store.LatePersist

namespace StCache

/-- How far one pass of scavenge is: what it has copied, and the deletions and keys it still
has to go through. -/
inductive PassStage where
  | start
  | cloned (data : Table GoString GoString)
  | listed (data : Table GoString GoString) (members : List GoString)
  | deleting (data : Table GoString GoString) (ops : List StoreOp)
  | windows (data : Table GoString GoString) (keys : List GoString)

/-- The copy of the cache. -/
def PassStage.data? : PassStage → Option (Table GoString GoString)
  | .start => none
  | .cloned data => some data
  | .listed data _ => some data
  | .deleting data _ => some data
  | .windows data _ => some data

/-- The stores of a node, its detector and the pass, with the entries that were applied since
the cache was copied. -/
structure ScavengePass where
  fsm : Fsm
  detector : Detector
  stage : PassStage := .start
  since : List LogEntryData := []

/-- Every call of the pass into a store is a step, and so is every call of others. -/
inductive PassEvent where
  | apply (e : LogEntryData)
  | set (m : MyBroadcastMessage)
  | ping (key stdout : GoString) (now : Int64)
  | cloneCache
  | members (members : List GoString)
  | cloneGossip (order : List (GoString × List GoString))
  | delete
  | cloneDetector (keys : List GoString)
  | delKey

namespace ScavengePass

/-- None is a panic, or a step that is not possible. -/
def step (s : ScavengePass) : PassEvent → Option ScavengePass
  | .apply e => (s.fsm.applyEntry e).map (fun f => {s with fsm := f,since := s.since++[e]})
  | .set m => (s.fsm.gcm.set m).map (fun r => {s with fsm := {s.fsm with gcm := r.1}})
  | .ping key stdout now =>
    (s.detector.ping key stdout now).map (fun d => {s with detector := d})
  | .cloneCache =>
    match s.stage with
    | .start => some {s with stage := .cloned s.fsm.cm.clone,since := []}
    | _ => none
  | .members members =>
    match s.stage with
    | .cloned data => some {s with stage := .listed data members}
    | _ => none
  | .cloneGossip order =>
    match s.stage with
    | .listed data members =>
      if s.fsm.gcm.ScavengeOrder order then
        some {s with stage := .deleting data (scavengeOps data members order)} else none
    | _ => none
  | .delete =>
    match s.stage with
    | .deleting data (op::ops) =>
      (op.step s.fsm.gcm).map (fun gcm =>
        {s with fsm := {s.fsm with gcm := gcm},stage := .deleting data ops})
    | _ => none
  | .cloneDetector keys =>
    match s.stage with
    | .deleting data [] =>
      if KeyOrder keys s.detector.w then some {s with stage := .windows data keys} else none
    | _ => none
  | .delKey =>
    match s.stage with
    | .windows data (key::keys) =>
      match data.lookup key with
      | some _ => some {s with stage := .windows data keys}
      | none => some {s with detector := s.detector.delKey key,stage := .windows data keys}
    | _ => none

/-- The key that gcm.DelKey or detector.DelKey is called with. -/
def deletes (s : ScavengePass) : PassEvent → Option GoString
  | .delete =>
    match s.stage with
    | .deleting _ (.delKey key::_) => some key
    | _ => none
  | .delKey =>
    match s.stage with
    | .windows data (key::_) => if data.lookup key=none then some key else none
    | _ => none
  | _ => none

/-- A key is not in the cache when its state is deleted. -/
def DeletesAbsent (s : ScavengePass) (e : PassEvent) : Prop :=
  ∀ key,s.deletes e=some key → s.fsm.cm.data.get? key=none

/-- The last entry about the key that was applied since the cache was copied, if any, is not
a SET. -/
def NotCreatedSince (s : ScavengePass) (e : PassEvent) : Prop :=
  ∀ key,s.deletes e=some key →
    ∀ value,lastOf (LogEntryData.valueOf key) s.since≠some (some value)

/-- The deletion of a key outside the copy, or of one report. -/
def Deletion (data : Table GoString GoString) : StoreOp → Prop
  | .delKey key => data.lookup key=none
  | .delNodeAddr _ _ => True
  | _ => False

/-- The cache is the copy with the entries applied since, and the pass has only deletions left
that the copy allows. -/
structure Tracks (s : ScavengePass) : Prop where
  copy : ∀ data,s.stage.data?=some data → ∀ key,
    s.fsm.cm.data.get? key=(lastOf (LogEntryData.valueOf key) s.since).getD (data.lookup key)
  allowed : ∀ data ops,s.stage=.deleting data ops → ∀ op∈ops,Deletion data op

theorem scavengeOps_deletion {data : Table GoString GoString} {members : List GoString}
    {order : List (GoString × List GoString)} {op : StoreOp}
    (h : op∈scavengeOps data members order) : Deletion data op := by
  rw [scavengeOps,List.mem_flatMap] at h
  obtain ⟨p,-,member⟩ := h
  cases found : data.lookup p.1 with
  | none =>
    simp only [found,List.mem_singleton] at member
    rw [member]
    exact found
  | some value =>
    simp only [found,List.mem_map] at member
    obtain ⟨node,-,same⟩ := member
    rw [←same]
    trivial

theorem tracks_start (fsm : Fsm) (detector : Detector) :
    Tracks ⟨fsm,detector,.start,[]⟩ := by
  refine ⟨?_,?_⟩
  · intro data hd
    cases hd
  · intro data ops stage
    cases stage

/-- A step that leaves the cache and the copy alone. -/
theorem Tracks.move {s t : ScavengePass} (h : s.Tracks) (cm : t.fsm.cm=s.fsm.cm)
    (since : t.since=s.since) (copy : t.stage.data?=s.stage.data?)
    (allowed : ∀ data ops,t.stage=.deleting data ops → ∀ op∈ops,Deletion data op) :
    t.Tracks := by
  refine ⟨?_,allowed⟩
  intro data hd key
  rw [cm,since]
  exact h.copy data (copy ▸ hd) key

/-- What one step can do, with what it finds. -/
inductive Steps (s : ScavengePass) : PassEvent → ScavengePass → Prop
  | apply {e : LogEntryData} {f : Fsm} (applied : s.fsm.applyEntry e=some f) :
    Steps s (.apply e) {s with fsm := f,since := s.since++[e]}
  | set (m : MyBroadcastMessage) (gcm : GossipCacheManager) :
    Steps s (.set m) {s with fsm := {s.fsm with gcm := gcm}}
  | ping (key stdout : GoString) (now : Int64) (d : Detector) :
    Steps s (.ping key stdout now) {s with detector := d}
  | cloneCache : Steps s .cloneCache {s with stage := .cloned s.fsm.cm.clone,since := []}
  | members {data : Table GoString GoString} (members : List GoString)
    (stage : s.stage=.cloned data) : Steps s (.members members) {s with stage := .listed data members}
  | cloneGossip {data : Table GoString GoString} {members : List GoString}
    (order : List (GoString × List GoString)) (stage : s.stage=.listed data members) :
    Steps s (.cloneGossip order)
      {s with stage := .deleting data (scavengeOps data members order)}
  | delete {data : Table GoString GoString} {op : StoreOp} {ops : List StoreOp}
    {gcm : GossipCacheManager} (stage : s.stage=.deleting data (op::ops))
    (done : op.step s.fsm.gcm=some gcm) :
    Steps s .delete {s with fsm := {s.fsm with gcm := gcm},stage := .deleting data ops}
  | cloneDetector {data : Table GoString GoString} (keys : List GoString)
    (stage : s.stage=.deleting data []) :
    Steps s (.cloneDetector keys) {s with stage := .windows data keys}
  | keepKey {data : Table GoString GoString} {key : GoString} {keys : List GoString}
    (stage : s.stage=.windows data (key::keys)) :
    Steps s .delKey {s with stage := .windows data keys}
  | delKey {data : Table GoString GoString} {key : GoString} {keys : List GoString}
    (stage : s.stage=.windows data (key::keys)) (missing : data.lookup key=none) :
    Steps s .delKey {s with detector := s.detector.delKey key,stage := .windows data keys}

theorem step_steps {s t : ScavengePass} {e : PassEvent} (hs : s.step e=some t) : s.Steps e t := by
  cases e with
  | apply e =>
    obtain ⟨f,applied,rfl⟩ := Option.map_eq_some_iff.mp hs
    exact .apply applied
  | set m =>
    obtain ⟨r,-,rfl⟩ := Option.map_eq_some_iff.mp hs
    exact .set m r.1
  | ping key stdout now =>
    obtain ⟨d,-,rfl⟩ := Option.map_eq_some_iff.mp hs
    exact .ping key stdout now d
  | cloneCache =>
    simp only [step] at hs
    split at hs <;> cases hs
    exact .cloneCache
  | members members =>
    simp only [step] at hs
    split at hs
    · next data stage =>
      cases hs
      exact .members members stage
    · cases hs
  | cloneGossip order =>
    simp only [step] at hs
    split at hs
    · next data members stage =>
      split_ifs at hs
      cases hs
      exact .cloneGossip order stage
    · cases hs
  | delete =>
    simp only [step] at hs
    split at hs
    · next data op ops stage =>
      obtain ⟨gcm,done,rfl⟩ := Option.map_eq_some_iff.mp hs
      exact .delete stage done
    · cases hs
  | cloneDetector keys =>
    simp only [step] at hs
    split at hs
    · next data stage =>
      split_ifs at hs
      cases hs
      exact .cloneDetector keys stage
    · cases hs
  | delKey =>
    simp only [step] at hs
    split at hs
    · next data key keys stage =>
      split at hs
      · cases hs
        exact .keepKey stage
      · next missing =>
        cases hs
        exact .delKey stage missing
    · cases hs

/-- Between the copy and the end of the pass only Apply changes the cache. -/
theorem Tracks.step {s t : ScavengePass} (h : s.Tracks) {e : PassEvent} (hs : s.step e=some t) :
    t.Tracks := by
  cases step_steps hs with
  | @apply e f applied =>
    have replayed := ((s.fsm.applyEntry_some f e).mp applied).1
    refine ⟨?_,h.allowed⟩
    intro data hd key
    rw [CacheManager.get?_replay key s.fsm.cm e f.cm replayed,h.copy data hd key,lastOf_snoc]
    cases e.valueOf key <;> rfl
  | set m gcm => exact h.move rfl rfl rfl h.allowed
  | ping key stdout now d => exact h.move rfl rfl rfl h.allowed
  | cloneCache =>
    refine ⟨?_,nofun⟩
    intro data hd key
    cases hd
    rw [CacheManager.lookup_clone]
    rfl
  | members members stage => exact h.move rfl rfl (by rw [stage]; rfl) nofun
  | cloneGossip order stage =>
    refine h.move rfl rfl (by rw [stage]; rfl) ?_
    intro data' ops stage' op member
    cases stage'
    exact scavengeOps_deletion member
  | @delete data op ops gcm stage done =>
    refine h.move rfl rfl (by rw [stage]; rfl) ?_
    intro data' ops' stage' op' member
    cases stage'
    exact h.allowed data (op::ops) stage op' (List.mem_cons_of_mem op member)
  | cloneDetector keys stage => exact h.move rfl rfl (by rw [stage]; rfl) nofun
  | keepKey stage => exact h.move rfl rfl (by rw [stage]; rfl) nofun
  | delKey stage missing => exact h.move rfl rfl (by rw [stage]; rfl) nofun

/-- Whole keys are deleted only where the copy does not have them. -/
theorem Tracks.deletes {s : ScavengePass} (h : s.Tracks) {e : PassEvent} {key : GoString}
    (hd : s.deletes e=some key) :
    s.fsm.cm.data.get? key=(lastOf (LogEntryData.valueOf key) s.since).getD none := by
  cases e with
  | delete =>
    simp only [ScavengePass.deletes] at hd
    split at hd
    · next data k ops stage =>
      cases hd
      have missing : data.lookup key=none := h.allowed data _ stage _ List.mem_cons_self
      rw [h.copy data (by rw [stage]; rfl),missing]
    · cases hd
  | delKey =>
    simp only [ScavengePass.deletes] at hd
    split at hd
    · next data k keys stage =>
      split_ifs at hd with missing
      cases hd
      rw [h.copy data (by rw [stage]; rfl),missing]
    · cases hd
  | _ => cases hd

/-- A deletion that is not of a live key itself leaves the replicated fields and the window of
every live key. -/
theorem Tracks.keeps_live {s t : ScavengePass} (h : s.Tracks) {e : PassEvent}
    (absent : s.DeletesAbsent e) (pass : e=.delete ∨ e=.delKey) (hs : s.step e=some t)
    {key : GoString} (live : s.fsm.cm.data.get? key≠none) :
    t.fsm.gcm.replicated key=s.fsm.gcm.replicated key ∧
      t.detector.w.lookup key=s.detector.w.lookup key := by
  cases step_steps hs with
  | @delete data op ops gcm stage done =>
    refine ⟨?_,rfl⟩
    show gcm.replicated key=s.fsm.gcm.replicated key
    have allowed := h.allowed data (op::ops) stage op List.mem_cons_self
    cases op with
    | set m => exact allowed.elim
    | notify k u => exact allowed.elim
    | delNodeAddr k node =>
      cases done
      exact GossipCacheManager.replicated_delNodeAddr s.fsm.gcm k node key
    | delKey k =>
      cases done
      have other : key≠k := by
        intro same
        exact live (same ▸ absent k (by simp only [ScavengePass.deletes,stage]))
      rw [GossipCacheManager.replicated_delKey,if_neg other]
  | keepKey stage => exact ⟨rfl,rfl⟩
  | @delKey data k keys stage missing =>
    refine ⟨rfl,?_⟩
    have other : key≠k := by
      intro same
      exact live (same ▸ absent k (by simp only [ScavengePass.deletes,stage,missing,if_true]))
    show (s.detector.w.erase k).lookup key=s.detector.w.lookup key
    rw [lookup_erase_ite,if_neg other]
  | _ => rcases pass with pass|pass <;> cases pass

/-- A pass deletes the state of absent keys only, exactly when no key that it deletes has been
created since it copied the cache. -/
theorem deletes_absent_iff (fsm : Fsm) (detector : Detector) (es : List PassEvent) :
    Along step DeletesAbsent ⟨fsm,detector,.start,[]⟩ es ↔
      Along step NotCreatedSince ⟨fsm,detector,.start,[]⟩ es := by
  refine along_congr step Tracks DeletesAbsent NotCreatedSince ?_
    (fun s e t h hs => h.step hs) es _ (tracks_start fsm detector)
  intro s e h
  refine forall_congr' (fun key => forall_congr' (fun hd => ?_))
  rw [h.deletes hd]
  cases lastOf (LogEntryData.valueOf key) s.since with
  | none => simp
  | some value =>
    cases value with
    | none => simp
    | some v => simp

/-- The key 107 is set, gets a status and a first sample while a pass goes on with a copy that
does not have it: the pass deletes the status, and then the sample. -/
theorem live_key_dropped :
    ∃ s t,run step ⟨.new,.new 3 2,.start,[]⟩ [.cloneCache,.apply ⟨.set,[107],[118]⟩,
        .apply ⟨.notifyStatus,[107],gossipDown⟩,.ping [107] gossipDown 1,.members [],
        .cloneGossip [([107],[])]]=some s ∧
      run step s [.delete,.cloneDetector [[107]],.delKey]=some t ∧
      (s.fsm.cm.data.get? [107]=some [118] ∧ s.deletes .delete=some [107] ∧
        (s.fsm.gcm.replicated [107]).prevConsensus=gossipDown) ∧
      t.fsm.cm.data.get? [107]=some [118] ∧
        (t.fsm.gcm.replicated [107]).prevConsensus=[] ∧ t.detector.w.lookup [107]=none := by
  have before : (run step ⟨.new,.new 3 2,.start,[]⟩ [.cloneCache,.apply ⟨.set,[107],[118]⟩,
      .apply ⟨.notifyStatus,[107],gossipDown⟩,.ping [107] gossipDown 1,.members [],
      .cloneGossip [([107],[])]]).map (fun s => (s.fsm.cm.data.get? [107],s.deletes .delete,
        (s.fsm.gcm.replicated [107]).prevConsensus))=
      some (some [118],some [107],gossipDown) := by decide +kernel
  have after : (run step ⟨.new,.new 3 2,.start,[]⟩ ([.cloneCache,.apply ⟨.set,[107],[118]⟩,
      .apply ⟨.notifyStatus,[107],gossipDown⟩,.ping [107] gossipDown 1,.members [],
      .cloneGossip [([107],[])]]++[.delete,.cloneDetector [[107]],.delKey])).map (fun t =>
        (t.fsm.cm.data.get? [107],(t.fsm.gcm.replicated [107]).prevConsensus,
          (t.detector.w.lookup [107]).isNone))=some (some [118],[],true) := by decide +kernel
  obtain ⟨s,hs,first⟩ := Option.map_eq_some_iff.mp before
  rw [run_append,hs,Option.bind_some] at after
  obtain ⟨t,ht,second⟩ := Option.map_eq_some_iff.mp after
  simp only [Prod.mk.injEq,Option.isNone_iff_eq_none] at first second
  exact ⟨s,t,hs,ht,first,second⟩

end ScavengePass

end StCache
