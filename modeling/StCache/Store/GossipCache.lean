import StCache.Framework.GoMap
import StCache.Framework.Strconv
import StCache.Framework.Clock

namespace StCache

/-- A status is any text: detector samples are whatever a script printed. -/
abbrev GossipStatus := GoString

def gossipUp : GossipStatus := goStr "UP"
def gossipDown : GossipStatus := goStr "DOWN"
def gossipEmpty : GossipStatus := goStr "EMPTY"
def gossipLessThanMinsample : GossipStatus := goStr "LESS_THAN_MINSAMPLE"
def gossipNotFillSamples : GossipStatus := goStr "NOT_FILL_SAMPLES"
def gossipNoEmptyInSamples : GossipStatus := goStr "NO_EMPTY_IN_SAMPLES"
def gossipEmptyRecover : GossipStatus := goStr "EMPTY_RECOVER"

structure GossipStatusAndTimeStamp where
  gossipStatus : GossipStatus
  timeStamp : Int64
  deriving DecidableEq

/-- What a node knows about one key: four fields written through the raft log
and the latest report of every gossip member. -/
structure GossipConsensus where
  prevEventTime : GoTime := .zero
  prevConsensus : GossipStatus := []
  empty : Bool := false
  emptyTime : GoTime := .zero
  consensus : GoMap GoString GossipStatusAndTimeStamp := .nil
  deriving DecidableEq

structure MyBroadcastMessage where
  timeStamp : Int64
  node : GoString
  key : GoString
  value : GoString
  status : GossipStatus
  deriving DecidableEq

/-- `data` is allocated by the constructor and never reassigned. -/
structure GossipCacheManager where
  data : Table GoString GossipConsensus
  deriving DecidableEq

namespace GossipCacheManager

def new : GossipCacheManager := ⟨∅⟩

/-- Writes the report into the entry and hands it to `SetBroadcasts`. None is the
panic of assigning to a consensus map that was never allocated. -/
def accept (c : GossipCacheManager) (v : GossipConsensus) (m : MyBroadcastMessage) :
    Option (GossipCacheManager × List MyBroadcastMessage) :=
  (v.consensus.set m.node ⟨m.status,m.timeStamp⟩).map
    (fun reports => (⟨c.data.insert m.key {v with consensus := reports}⟩,[m]))

/-- `Set(key,value,nodeAddr,timestamp,status)` with its arguments in the order of
a gossip message. The second result is what goes to `SetBroadcasts`. -/
def set (c : GossipCacheManager) (m : MyBroadcastMessage) :
    Option (GossipCacheManager × List MyBroadcastMessage) :=
  match c.data.lookup m.key with
  | some v =>
    match v.consensus.get? m.node with
    | some old => if old.timeStamp < m.timeStamp then c.accept v m else some (c,[])
    | none => c.accept v m
  | none =>
    some (⟨c.data.insert m.key
      {consensus := .alloc (Finmap.insert m.node ⟨m.status,m.timeStamp⟩ ∅)}⟩,[m])

/-- The four setters of the raft fields: change the field of an existing entry,
else create an entry with every other field zero and no consensus map. -/
def setField (c : GossipCacheManager) (key : GoString)
    (write : GossipConsensus → GossipConsensus) : GossipCacheManager :=
  match c.data.lookup key with
  | some v => ⟨c.data.insert key (write v)⟩
  | none => ⟨c.data.insert key (write {})⟩

def setPreviousConsensus (c : GossipCacheManager) (key : GoString) (status : GossipStatus) :=
  c.setField key (fun v => {v with prevConsensus := status})
def setPreviousEventTime (c : GossipCacheManager) (key : GoString) (eventTime : GoTime) :=
  c.setField key (fun v => {v with prevEventTime := eventTime})
def setEmpty (c : GossipCacheManager) (key : GoString) (empty : Bool) :=
  c.setField key (fun v => {v with empty := empty})
def setEmptyTime (c : GossipCacheManager) (key : GoString) (emptyTime : GoTime) :=
  c.setField key (fun v => {v with emptyTime := emptyTime})

def delNodeAddr (c : GossipCacheManager) (key nodeAddr : GoString) : GossipCacheManager :=
  match c.data.lookup key with
  | some v => ⟨c.data.insert key {v with consensus := v.consensus.delete nodeAddr}⟩
  | none => c

def delKey (c : GossipCacheManager) (key : GoString) : GossipCacheManager :=
  ⟨c.data.erase key⟩

end GossipCacheManager

/-- The deep copy of one entry: its consensus map is always allocated. -/
def GossipConsensus.copy (v : GossipConsensus) : GossipConsensus :=
  {v with consensus := .alloc v.consensus.table}


/-- One update that FSM.Apply makes to the raft fields of a key. -/
inductive Notify where
  | status (s : GossipStatus)
  | eventTime (t : GoTime)
  | empty (b : Bool)
  | emptyTime (t : GoTime)
  deriving DecidableEq

/-- The fields of an entry that are written through the raft log only. -/
structure Replicated where
  prevConsensus : GossipStatus := []
  prevEventTime : GoTime := .zero
  empty : Bool := false
  emptyTime : GoTime := .zero
  deriving DecidableEq

def Notify.write : Notify → Replicated → Replicated
  | .status s,r => {r with prevConsensus := s}
  | .eventTime t,r => {r with prevEventTime := t}
  | .empty b,r => {r with empty := b}
  | .emptyTime t,r => {r with emptyTime := t}

def GossipConsensus.replicated (v : GossipConsensus) : Replicated :=
  ⟨v.prevConsensus,v.prevEventTime,v.empty,v.emptyTime⟩

@[simp] theorem GossipConsensus.copy_replicated (v : GossipConsensus) :
    v.copy.replicated=v.replicated := rfl

namespace GossipCacheManager

/-- The entry of a key, an absent one read as the zero values. -/
def entry (c : GossipCacheManager) (key : GoString) : GossipConsensus :=
  (c.data.lookup key).getD {}

def replicated (c : GossipCacheManager) (key : GoString) : Replicated := (c.entry key).replicated

def report (c : GossipCacheManager) (key node : GoString) : Option GossipStatusAndTimeStamp :=
  (c.entry key).consensus.get? node

def notify (c : GossipCacheManager) (key : GoString) : Notify → GossipCacheManager
  | .status s => c.setPreviousConsensus key s
  | .eventTime t => c.setPreviousEventTime key t
  | .empty b => c.setEmpty key b
  | .emptyTime t => c.setEmptyTime key t

theorem setField_data (c : GossipCacheManager) (key : GoString)
    (write : GossipConsensus → GossipConsensus) :
    (c.setField key write).data=c.data.insert key (write (c.entry key)) := by
  unfold setField entry
  cases c.data.lookup key <;> rfl

theorem entry_insert (t : Table GoString GossipConsensus) (key k : GoString)
    (v : GossipConsensus) :
    (GossipCacheManager.mk (t.insert key v)).entry k=
      if k=key then v else (GossipCacheManager.mk t).entry k := by
  simp only [entry,lookup_insert_ite]
  split_ifs <;> rfl

theorem notify_data (c : GossipCacheManager) (key : GoString) (u : Notify) :
    ∃ v,(c.notify key u).data=c.data.insert key v ∧
      v.replicated=u.write (c.replicated key) ∧ v.consensus=(c.entry key).consensus := by
  cases u <;> exact ⟨_,setField_data c key _,rfl,rfl⟩

theorem entry_notify_consensus (c : GossipCacheManager) (key k : GoString) (u : Notify) :
    ((c.notify key u).entry k).consensus=(c.entry k).consensus := by
  obtain ⟨v,hd,-,hc⟩ := notify_data c key u
  have he : (c.notify key u).entry k=if k=key then v else c.entry k := by
    rw [←entry_insert c.data key k v,←hd]
  rw [he]
  split_ifs with h
  · rw [hc,h]
  · rfl

@[simp] theorem report_notify (c : GossipCacheManager) (key k node : GoString) (u : Notify) :
    (c.notify key u).report k node=c.report k node := by
  rw [report,entry_notify_consensus,report]

theorem replicated_notify (c : GossipCacheManager) (key k : GoString) (u : Notify) :
    (c.notify key u).replicated k=
      if k=key then u.write (c.replicated key) else c.replicated k := by
  obtain ⟨v,hd,hr,-⟩ := notify_data c key u
  have he : (c.notify key u).entry k=if k=key then v else c.entry k := by
    rw [←entry_insert c.data key k v,←hd]
  rw [replicated,he]
  split_ifs
  · exact hr
  · rfl

theorem lookup_notify_isSome (c : GossipCacheManager) (key k : GoString) (u : Notify) :
    ((c.notify key u).data.lookup k).isSome=(decide (k=key) || (c.data.lookup k).isSome) := by
  obtain ⟨v,hd,-,-⟩ := notify_data c key u
  rw [hd,lookup_insert_ite]
  split_ifs with h <;> simp [h]

/-- An accepted report goes into the consensus map of its entry and nowhere else. -/
theorem accept_data (c d : GossipCacheManager) (v : GossipConsensus) (m : MyBroadcastMessage)
    (bs : List MyBroadcastMessage) (hv : c.data.lookup m.key=some v)
    (ha : c.accept v m=some (d,bs)) :
    bs=[m] ∧ ∃ w,d.data=c.data.insert m.key w ∧ w.replicated=c.replicated m.key ∧
      ∃ t,w.consensus=.alloc t ∧ ∀ n,t.lookup n=
        if n=m.node then some ⟨m.status,m.timeStamp⟩ else c.report m.key n := by
  have he : c.entry m.key=v := by simp [entry,hv]
  simp only [accept,Option.map_eq_some_iff,Prod.mk.injEq] at ha
  obtain ⟨reports,hr,rfl,rfl⟩ := ha
  cases hc : v.consensus with
  | nil => simp [hc] at hr
  | alloc t =>
    simp only [hc,GoMap.set_alloc,Option.some.injEq] at hr
    refine ⟨rfl,_,rfl,?_,_,hr.symm,?_⟩
    · rw [replicated,he]
      rfl
    · intro n
      rw [lookup_insert_ite,report,he,hc,GoMap.get?_alloc]

/-- Everything an accepted or ignored report can do to the store. -/
theorem set_cases (c d : GossipCacheManager) (m : MyBroadcastMessage)
    (bs : List MyBroadcastMessage) (h : c.set m=some (d,bs)) :
    (d=c ∧ bs=[] ∧ ∃ old,c.report m.key m.node=some old ∧ ¬old.timeStamp < m.timeStamp) ∨
    (bs=[m] ∧ (∀ old,c.report m.key m.node=some old → old.timeStamp < m.timeStamp) ∧
      ∃ v,d.data=c.data.insert m.key v ∧ v.replicated=c.replicated m.key ∧
        ∃ t,v.consensus=.alloc t ∧ ∀ n,t.lookup n=
          if n=m.node then some ⟨m.status,m.timeStamp⟩ else c.report m.key n) := by
  unfold set at h
  cases hv : c.data.lookup m.key with
  | none =>
    have he : c.entry m.key={} := by simp [entry,hv]
    simp only [hv,Option.some.injEq,Prod.mk.injEq] at h
    obtain ⟨rfl,rfl⟩ := h
    refine Or.inr ⟨rfl,?_,_,rfl,?_,_,rfl,?_⟩
    · intro old ho
      simp [report,he] at ho
    · rw [replicated,he]
      rfl
    · intro n
      rw [report,he,lookup_insert_ite,Finmap.lookup_empty,GoMap.get?_nil]
  | some v =>
    have he : c.entry m.key=v := by simp [entry,hv]
    simp only [hv] at h
    cases ho : v.consensus.get? m.node with
    | none =>
      simp only [ho] at h
      obtain ⟨hb,hw⟩ := accept_data c d v m bs hv h
      refine Or.inr ⟨hb,?_,hw⟩
      intro old hr
      rw [report,he,ho] at hr
      cases hr
    | some old =>
      simp only [ho] at h
      split_ifs at h with hlt
      · obtain ⟨hb,hw⟩ := accept_data c d v m bs hv h
        refine Or.inr ⟨hb,?_,hw⟩
        intro old' hr
        rw [report,he,ho] at hr
        cases hr
        exact hlt
      · simp only [Option.some.injEq,Prod.mk.injEq] at h
        exact Or.inl ⟨h.1.symm,h.2.symm,old,by rw [report,he,ho],hlt⟩

theorem replicated_set (c d : GossipCacheManager) (m : MyBroadcastMessage)
    (bs : List MyBroadcastMessage) (h : c.set m=some (d,bs)) (k : GoString) :
    d.replicated k=c.replicated k := by
  rcases set_cases c d m bs h with ⟨rfl,-⟩|⟨-,-,v,hd,hr,-⟩
  · rfl
  · have he : d.entry k=if k=m.key then v else c.entry k := by
      rw [←entry_insert c.data m.key k v,←hd]
    rw [replicated,he]
    split_ifs with hk
    · rw [hr,hk]
    · rfl

/-- Newest wins: a report replaces only a strictly older one of the same node. -/
def winner (m : MyBroadcastMessage) : Option GossipStatusAndTimeStamp → GossipStatusAndTimeStamp
  | none => ⟨m.status,m.timeStamp⟩
  | some old => if old.timeStamp < m.timeStamp then ⟨m.status,m.timeStamp⟩ else old

theorem report_set (c d : GossipCacheManager) (m : MyBroadcastMessage)
    (bs : List MyBroadcastMessage) (h : c.set m=some (d,bs)) (k n : GoString) :
    d.report k n=if k=m.key ∧ n=m.node then some (winner m (c.report m.key m.node))
      else c.report k n := by
  rcases set_cases c d m bs h with ⟨rfl,-,old,ho,hlt⟩|⟨-,hnew,v,hd,-,t,hc,hl⟩
  · split_ifs with hk
    · rw [hk.1,hk.2,ho,winner,if_neg hlt]
    · rfl
  · have he : d.entry k=if k=m.key then v else c.entry k := by
      rw [←entry_insert c.data m.key k v,←hd]
    rw [report,he]
    by_cases hk : k=m.key
    · rw [if_pos hk,hc,GoMap.get?_alloc,hl n,hk]
      by_cases hn : n=m.node
      · simp only [hn,and_self,if_true]
        cases ho : c.report m.key m.node with
        | none => rfl
        | some old => rw [winner,if_pos (hnew old ho)]
      · simp [hn]
    · simp [hk,report]

theorem broadcast_of_set (c d : GossipCacheManager) (m : MyBroadcastMessage)
    (bs : List MyBroadcastMessage) (h : c.set m=some (d,bs)) : ∀ x∈bs,x=m := by
  rcases set_cases c d m bs h with ⟨-,hb,-⟩|⟨hb,-⟩
  · simp [hb]
  · simp [hb]

/-- The report that an accepted message leaves. -/
theorem report_of_accepted {c d : GossipCacheManager} {m : MyBroadcastMessage}
    (h : c.set m=some (d,[m])) : d.report m.key m.node=some ⟨m.status,m.timeStamp⟩ := by
  rw [c.report_set d m [m] h,if_pos ⟨rfl,rfl⟩]
  rcases c.set_cases d m [m] h with ⟨-,none',-⟩|⟨-,newer,-⟩
  · cases none'
  · cases before : c.report m.key m.node with
    | none => rfl
    | some old => rw [winner,if_pos (newer old before)]

/-- The only panic: an entry that a raft field setter created without a map. -/
theorem set_eq_none (c : GossipCacheManager) (m : MyBroadcastMessage) :
    c.set m=none ↔ ∃ v,c.data.lookup m.key=some v ∧ v.consensus=.nil := by
  unfold set
  cases hv : c.data.lookup m.key with
  | none => simp
  | some v =>
    cases hc : v.consensus with
    | nil => simp [accept,hc]
    | alloc t =>
      cases ho : t.lookup m.node with
      | none => simp [accept,hc,ho]
      | some old =>
        simp only [hc,GoMap.get?_alloc,ho]
        split_ifs <;> simp [accept,hc]

theorem lookup_delKey (c : GossipCacheManager) (key k : GoString) :
    (c.delKey key).data.lookup k=if k=key then none else c.data.lookup k :=
  lookup_erase_ite c.data key k

theorem entry_delKey (c : GossipCacheManager) (key k : GoString) :
    (c.delKey key).entry k=if k=key then {} else c.entry k := by
  rw [entry,lookup_delKey]
  split_ifs <;> rfl

theorem replicated_delKey (c : GossipCacheManager) (key k : GoString) :
    (c.delKey key).replicated k=if k=key then {} else c.replicated k := by
  rw [replicated,entry_delKey]
  split_ifs <;> rfl

theorem entry_delNodeAddr (c : GossipCacheManager) (key node k : GoString) :
    (c.delNodeAddr key node).entry k=if k=key then
        {c.entry k with consensus := (c.entry k).consensus.delete node} else c.entry k := by
  unfold delNodeAddr
  cases hv : c.data.lookup key with
  | none =>
    split_ifs with h
    · subst k
      simp [entry,hv,GoMap.delete]
    · rfl
  | some v =>
    change (GossipCacheManager.mk _).entry k=_
    rw [entry_insert]
    split_ifs with h
    · subst k
      simp [entry,hv]
    · rfl

@[simp] theorem replicated_delNodeAddr (c : GossipCacheManager) (key node k : GoString) :
    (c.delNodeAddr key node).replicated k=c.replicated k := by
  rw [replicated,entry_delNodeAddr]
  split_ifs <;> rfl

/-- A deletion of another key leaves the report. -/
theorem report_delKey (c : GossipCacheManager) {key node k : GoString} (other : k≠key) :
    (c.delKey k).report key node=c.report key node := by
  rw [report,entry_delKey,if_neg other.symm,report]

/-- A deletion of another pair leaves the report. -/
theorem report_delNodeAddr (c : GossipCacheManager) {key node k n : GoString}
    (other : ¬(k=key ∧ n=node)) : (c.delNodeAddr k n).report key node=c.report key node := by
  rw [report,entry_delNodeAddr,report]
  split_ifs with hk
  · have hn : node≠n := fun e => other ⟨hk.symm,e.symm⟩
    rw [GoMap.get?_delete,if_neg hn]
  · rfl

end GossipCacheManager

end StCache
