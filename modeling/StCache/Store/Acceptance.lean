import StCache.Store.ReplicaAgreement

namespace StCache

namespace GossipCacheManager

/-- Set stores the report and hands it to SetBroadcasts. -/
def Accepts (c : GossipCacheManager) (m : MyBroadcastMessage) : Prop :=
  ∃ d,c.set m=some (d,[m])

/-- A report of the pair is stored that is at least this new. -/
def HasReport (c : GossipCacheManager) (key node : GoString) (ts : Int64) : Prop :=
  ∃ r,c.report key node=some r ∧ ts ≤ r.timeStamp

theorem HasReport.set {c d : GossipCacheManager} {key node : GoString} {ts : Int64}
    {m : MyBroadcastMessage} {bs : List MyBroadcastMessage} (h : c.HasReport key node ts)
    (hset : c.set m=some (d,bs)) : d.HasReport key node ts := by
  obtain ⟨r,hr,hts⟩ := h
  rw [HasReport,report_set c d m bs hset key node]
  split_ifs with about
  · rw [about.1,about.2] at hr
    rw [hr,winner]
    split_ifs with newer
    · exact ⟨_,rfl,Int64.le_trans hts (Int64.le_of_lt newer)⟩
    · exact ⟨r,rfl,hts⟩
  · exact ⟨r,hr,hts⟩

/-- Accepted or not, a report leaves one that is at least as new. -/
theorem hasReport_set {c d : GossipCacheManager} {m : MyBroadcastMessage}
    {bs : List MyBroadcastMessage} (hset : c.set m=some (d,bs)) :
    d.HasReport m.key m.node m.timeStamp := by
  rw [HasReport,report_set c d m bs hset m.key m.node,if_pos ⟨rfl,rfl⟩]
  refine ⟨_,rfl,?_⟩
  cases c.report m.key m.node with
  | none => exact Int64.le_refl _
  | some old =>
    rw [winner]
    split_ifs with newer
    · exact Int64.le_refl _
    · exact Int64.not_lt.mp newer

/-- What Set broadcasts is newer than everything the store has of the pair. -/
theorem HasReport.lt_of_set {c d : GossipCacheManager} {ts : Int64} {m : MyBroadcastMessage}
    {bs : List MyBroadcastMessage} (h : c.HasReport m.key m.node ts)
    (hset : c.set m=some (d,bs)) (queued : bs≠[]) : ts < m.timeStamp := by
  obtain ⟨r,hr,hts⟩ := h
  rcases set_cases c d m bs hset with ⟨-,empty,-⟩|⟨-,newer,-⟩
  · exact absurd empty queued
  · exact Int64.lt_of_le_of_lt hts (newer r hr)

theorem HasReport.notify {c : GossipCacheManager} {key node : GoString} {ts : Int64}
    (h : c.HasReport key node ts) (k : GoString) (u : Notify) :
    (c.notify k u).HasReport key node ts := by
  rw [HasReport,report_notify]
  exact h

theorem HasReport.delKey {c : GossipCacheManager} {key node k : GoString} {ts : Int64}
    (h : c.HasReport key node ts) (other : k≠key) : (c.delKey k).HasReport key node ts := by
  rw [HasReport,c.report_delKey other]
  exact h

theorem HasReport.delNodeAddr {c : GossipCacheManager} {key node k n : GoString} {ts : Int64}
    (h : c.HasReport key node ts) (other : ¬(k=key ∧ n=node)) :
    (c.delNodeAddr k n).HasReport key node ts := by
  rw [HasReport,c.report_delNodeAddr other]
  exact h

end GossipCacheManager

/-- The critical sections of gossipCacheManager that write. -/
inductive StoreOp where
  | set (m : MyBroadcastMessage)
  | notify (key : GoString) (u : Notify)
  | delNodeAddr (key node : GoString)
  | delKey (key : GoString)
  deriving DecidableEq

/-- None is the panic of Set on an entry without a map. -/
def StoreOp.step (c : GossipCacheManager) : StoreOp → Option GossipCacheManager
  | .set m => (c.set m).map Prod.fst
  | .notify key u => some (c.notify key u)
  | .delNodeAddr key node => some (c.delNodeAddr key node)
  | .delKey key => some (c.delKey key)

/-- The operation removes the report of the pair. -/
def StoreOp.Deletes (key node : GoString) : StoreOp → Prop
  | .delNodeAddr k n => k=key ∧ n=node
  | .delKey k => k=key
  | _ => False

/-- The deletions one pass makes after it has copied the cache, the members and the
store; other operations may come between them. -/
def scavengeOps (data : Table GoString GoString) (members : List GoString)
    (order : List (GoString × List GoString)) : List StoreOp :=
  order.flatMap (fun p => match data.lookup p.1 with
    | none => [.delKey p.1]
    | some _ => (p.2.filter (fun n => !existsIn n members)).map (.delNodeAddr p.1))

theorem run_delNodeAddr (members : List GoString) (key : GoString) (nodes : List GoString)
    (c : GossipCacheManager) :
    run StoreOp.step c ((nodes.filter (fun n => !existsIn n members)).map (.delNodeAddr key))=
      some (nodes.foldl (fun c node =>
        if existsIn node members then c else c.delNodeAddr key node) c) := by
  induction nodes generalizing c with
  | nil => rfl
  | cons n nodes ih =>
    by_cases hn : existsIn n members=true
    · simpa [hn] using ih c
    · simpa [hn,run_cons,StoreOp.step] using ih (c.delNodeAddr key n)

/-- An undisturbed pass makes exactly these deletions. -/
theorem run_scavengeOps (data : Table GoString GoString) (members : List GoString)
    (order : List (GoString × List GoString)) (c : GossipCacheManager) :
    run StoreOp.step c (scavengeOps data members order)=some (c.scavenge data members order) := by
  induction order generalizing c with
  | nil => rfl
  | cons p order ih =>
    have head : run StoreOp.step c (scavengeOps data members [p])=
        some (c.scavengeKey data members p.1 p.2) := by
      simp only [scavengeOps,List.flatMap_cons,List.flatMap_nil,List.append_nil,
        GossipCacheManager.scavengeKey]
      cases data.lookup p.1 with
      | none => rfl
      | some v => exact run_delNodeAddr members p.1 p.2 c
    have split : scavengeOps data members (p::order)=
        scavengeOps data members [p]++scavengeOps data members order := by
      simp [scavengeOps]
    rw [split,run_append,head,Option.bind_some,ih]
    rfl

/-- A report stays until the pair is deleted or a newer one comes. -/
theorem GossipCacheManager.HasReport.step {c d : GossipCacheManager} {key node : GoString}
    {ts : Int64} (h : c.HasReport key node ts) (op : StoreOp) (keeps : ¬op.Deletes key node)
    (hs : op.step c=some d) : d.HasReport key node ts := by
  cases op with
  | set m =>
    obtain ⟨⟨d',bs⟩,hset,rfl⟩ := Option.map_eq_some_iff.mp hs
    exact h.set hset
  | notify k u =>
    cases hs
    exact h.notify k u
  | delNodeAddr k n =>
    cases hs
    exact h.delNodeAddr keeps
  | delKey k =>
    cases hs
    exact h.delKey keeps

theorem GossipCacheManager.HasReport.run {c d : GossipCacheManager} {key node : GoString}
    {ts : Int64} (h : c.HasReport key node ts) (ops : List StoreOp)
    (keeps : ∀ op∈ops,¬op.Deletes key node) (hr : run StoreOp.step c ops=some d) :
    d.HasReport key node ts :=
  run_invariant StoreOp.step (fun _ op => ¬op.Deletes key node)
    (fun c => c.HasReport key node ts) (fun _ op _ h keep hs => h.step op keep hs) ops c d h
    (along_of_forall StoreOp.step _ c ops keeps) hr

/-- Of two reports of a pair that a node accepts, the later one is newer, or the
scavenger deleted the pair in between. -/
theorem accepted_newer_or_scavenged (before between : List StoreOp) (x y : MyBroadcastMessage)
    (c d : GossipCacheManager) (hc : run StoreOp.step .new before=some c) (hx : c.Accepts x)
    (hd : run StoreOp.step .new (before++.set x::between)=some d) (hy : d.Accepts y)
    (same : x.key=y.key ∧ x.node=y.node) :
    x.timeStamp < y.timeStamp ∨ ∃ op∈between,op.Deletes x.key x.node := by
  by_cases deleted : ∃ op∈between,op.Deletes x.key x.node
  · exact .inr deleted
  · have keeps : ∀ op∈between,¬op.Deletes x.key x.node := fun op hop hdel => deleted ⟨op,hop,hdel⟩
    obtain ⟨c',hset⟩ := hx
    obtain ⟨d',hset'⟩ := hy
    rw [run_append,hc,Option.bind_some,run_cons,StoreOp.step,hset,Option.map_some,
      Option.bind_some] at hd
    have stored := (GossipCacheManager.hasReport_set hset).run between keeps hd
    rw [same.1,same.2] at stored
    exact .inl (stored.lt_of_set hset' (by simp))

/-- A report of node n2 about key k. -/
def reportOf (ts : Int64) : MyBroadcastMessage := ⟨ts,goStr "n2",goStr "k",goStr "v",gossipUp⟩

theorem accepted_newer_or_scavenged_kept :
    (reportOf 5).timeStamp < (reportOf 9).timeStamp ∨
      ∃ op∈[StoreOp.delKey (goStr "j")],op.Deletes (goStr "k") (goStr "n2") :=
  accepted_newer_or_scavenged [] [.delKey (goStr "j")] (reportOf 5) (reportOf 9) .new _ rfl
    ⟨_,rfl⟩ rfl ⟨_,rfl⟩ ⟨rfl,rfl⟩

/-- An older report is accepted again after a pass that removed the newer one, be it
for a node that departed or for a key that was deleted. -/
theorem scavenged_report_returns :
    (∃ f g,run Fsm.nodeStep .new [.apply ⟨.set,goStr "k",goStr "v"⟩]=some f ∧
      f.gcm.set (reportOf 9)=some (g,[reportOf 9])) ∧
    (∃ f g,run Fsm.nodeStep .new [.apply ⟨.set,goStr "k",goStr "v"⟩,.report (reportOf 9),
        .scavenge [goStr "n1"] [(goStr "k",[goStr "n2"])]]=some f ∧
      f.gcm.set (reportOf 5)=some (g,[reportOf 5])) ∧
    ∃ f g,run Fsm.nodeStep .new [.apply ⟨.set,goStr "k",goStr "v"⟩,.report (reportOf 9),
        .apply ⟨.delete,goStr "k",[]⟩,
        .scavenge [goStr "n1",goStr "n2"] [(goStr "k",[goStr "n2"])]]=some f ∧
      f.gcm.set (reportOf 5)=some (g,[reportOf 5]) :=
  ⟨⟨_,_,rfl,rfl⟩,⟨_,_,rfl,rfl⟩,⟨_,_,rfl,rfl⟩⟩

end StCache
