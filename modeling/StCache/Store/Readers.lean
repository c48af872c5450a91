import StCache.Store.Acceptance

namespace StCache

def gossipKeyNodeNotExists : GossipStatus := goStr "KEY_NODE_NOT_EXISTS"

structure TempGossipStatusAndTimeStamp where
  gossipStatus : GossipStatus
  timeStamp : GoString
  deriving DecidableEq

/-- The exported copy of an entry, for the JSON encoder. -/
structure TempGossipConsensus where
  prevEventTime : GoTime := .zero
  prevConsensus : GossipStatus := []
  empty : Bool := false
  emptyTime : GoTime := .zero
  consensus : GoMap GoString TempGossipStatusAndTimeStamp := .nil
  deriving DecidableEq

/-- The orders in which one call ranges over the store and over the reports of each key. -/
structure RangeOrder (c : GossipCacheManager) where
  keys : List (GoString × GossipConsensus)
  nodes : GoString → List (GoString × GossipStatusAndTimeStamp)
  keys_enumerate : Enumerates keys c.data
  nodes_enumerate : ∀ key v,c.data.lookup key=some v → Enumerates (nodes key) v.consensus.table

theorem RangeOrder.nonempty (c : GossipCacheManager) : Nonempty (RangeOrder c) := by
  obtain ⟨keys,hk⟩ := exists_enumerates c.data
  have reports : ∀ key,∃ l,∀ v,c.data.lookup key=some v → Enumerates l v.consensus.table := by
    intro key
    cases c.data.lookup key with
    | none => exact ⟨[],nofun⟩
    | some v =>
      obtain ⟨l,hl⟩ := exists_enumerates v.consensus.table
      refine ⟨l,?_⟩
      intro w hw
      cases hw
      exact hl
  choose nodes hn using reports
  exact ⟨⟨keys,nodes,hk,hn⟩⟩

/-- One round of Clone's loop, with the reports in the order they are visited. -/
def GossipConsensus.clone (v : GossipConsensus)
    (nodes : List (GoString × GossipStatusAndTimeStamp)) : GossipConsensus :=
  {prevConsensus := v.prevConsensus
   prevEventTime := v.prevEventTime
   emptyTime := v.emptyTime
   empty := v.empty
   consensus := .alloc (insertAll ∅ (nodes.map (fun p => (p.1,p.2))))}

/-- One round of Marshal's loop, and the body of GetKey. `format` is the text that
`Format("2006-01-02 15:04:05")` gives a time in the zone of the node. -/
def GossipConsensus.temp (format : GoTime → GoString) (v : GossipConsensus)
    (nodes : List (GoString × GossipStatusAndTimeStamp)) : TempGossipConsensus :=
  {prevConsensus := v.prevConsensus
   prevEventTime := v.prevEventTime
   empty := v.empty
   emptyTime := v.emptyTime
   consensus := .alloc (insertAll ∅ (nodes.map (fun p =>
     (p.1,⟨p.2.gossipStatus,format (.ofNano p.2.timeStamp)⟩))))}

namespace GossipCacheManager

def getKeyNode (c : GossipCacheManager) (key nodeAddr : GoString) : GossipStatus := Id.run do
  let mut ret : GossipStatus := []
  if let some v := c.data.lookup key then
    if let some r := v.consensus.get? nodeAddr then
      ret := r.gossipStatus
  -- the source assigns here once more, after both tests and not in their else branches
  ret := gossipKeyNodeNotExists
  return ret

def clone (c : GossipCacheManager) (order : RangeOrder c) : Table GoString GossipConsensus :=
  insertAll ∅ (order.keys.map (fun p => (p.1,p.2.clone (order.nodes p.1))))

/-- The map that Marshal hands to the JSON encoder. -/
def marshalMap (format : GoTime → GoString) (c : GossipCacheManager) (order : RangeOrder c) :
    Table GoString TempGossipConsensus :=
  insertAll ∅ (order.keys.map (fun p => (p.1,p.2.temp format (order.nodes p.1))))

/-- The copy and the error text; an absent key gives a copy with zero fields and no reports. -/
def getKey (format : GoTime → GoString) (c : GossipCacheManager) (order : RangeOrder c)
    (key : GoString) : TempGossipConsensus × Option GoString :=
  match c.data.lookup key with
  | some v => (v.temp format (order.nodes key),none)
  | none => ({consensus := .alloc ∅},some (goStr "key "++key++goStr " not found"))

end GossipCacheManager

/-- What a reader shows of a key: the raft fields, the nodes with a report and their status. -/
@[ext] structure KeyView where
  replicated : Replicated
  status : GoString → Option GossipStatus

def GossipConsensus.view (v : GossipConsensus) : KeyView :=
  ⟨v.replicated,fun node => (v.consensus.get? node).map (·.gossipStatus)⟩

def TempGossipConsensus.view (v : TempGossipConsensus) : KeyView :=
  ⟨⟨v.prevConsensus,v.prevEventTime,v.empty,v.emptyTime⟩,
    fun node => (v.consensus.get? node).map (·.gossipStatus)⟩

/-- The status shown for a node, in the words of GetKeyNode. -/
def shownStatus (view : Option KeyView) (node : GoString) : GossipStatus :=
  (view.bind (fun v => v.status node)).getD gossipKeyNodeNotExists

/-- The copy that quorum checks work on is what Clone's loop builds. -/
theorem GossipConsensus.clone_eq_copy {v : GossipConsensus}
    {nodes : List (GoString × GossipStatusAndTimeStamp)}
    (h : Enumerates nodes v.consensus.table) : v.clone nodes=v.copy := by
  have same : insertAll ∅ (nodes.map (fun p => (p.1,p.2)))=v.consensus.table := by
    apply Finmap.ext_lookup
    intro node
    rw [h.lookup_insertAll (fun _ r => r) node,Option.map_id']
  rw [clone,same,copy]

theorem GossipConsensus.copy_view (v : GossipConsensus) : v.copy.view=v.view := by
  apply KeyView.ext
  · rfl
  · funext node
    show (v.consensus.table.lookup node).map (·.gossipStatus)=_
    rw [GoMap.lookup_table]
    rfl

/-- The exported copy shows the same fields and statuses; only time stamps become texts. -/
theorem GossipConsensus.temp_view (format : GoTime → GoString) {v : GossipConsensus}
    {nodes : List (GoString × GossipStatusAndTimeStamp)}
    (h : Enumerates nodes v.consensus.table) : (v.temp format nodes).view=v.view := by
  apply KeyView.ext
  · rfl
  · funext node
    have copied := h.lookup_insertAll (fun _ r => TempGossipStatusAndTimeStamp.mk r.gossipStatus
      (format (.ofNano r.timeStamp))) node
    rw [GoMap.lookup_table] at copied
    show (Finmap.lookup node (insertAll ∅ _)).map TempGossipStatusAndTimeStamp.gossipStatus=_
    rw [copied,Option.map_map]
    rfl

namespace GossipCacheManager

/-- What the store itself holds of a key. -/
def keyView (c : GossipCacheManager) (key : GoString) : Option KeyView :=
  (c.data.lookup key).map GossipConsensus.view

def cloneView (c : GossipCacheManager) (order : RangeOrder c) (key : GoString) :
    Option KeyView := ((c.clone order).lookup key).map GossipConsensus.view

def marshalView (format : GoTime → GoString) (c : GossipCacheManager) (order : RangeOrder c)
    (key : GoString) : Option KeyView :=
  ((c.marshalMap format order).lookup key).map TempGossipConsensus.view

/-- A key that GetKey reports as an error is not shown. -/
def getKeyView (format : GoTime → GoString) (c : GossipCacheManager) (order : RangeOrder c)
    (key : GoString) : Option KeyView :=
  if (c.getKey format order key).2.isSome then none
  else some (c.getKey format order key).1.view

theorem clone_lookup (c : GossipCacheManager) (order : RangeOrder c) (key : GoString) :
    (c.clone order).lookup key=(c.data.lookup key).map GossipConsensus.copy := by
  rw [clone,order.keys_enumerate.lookup_insertAll (fun k v => v.clone (order.nodes k)) key]
  apply Option.map_congr
  intro v hv
  exact GossipConsensus.clone_eq_copy (order.nodes_enumerate key v hv)

theorem cloneView_eq (c : GossipCacheManager) (order : RangeOrder c) (key : GoString) :
    c.cloneView order key=c.keyView key := by
  rw [cloneView,clone_lookup,Option.map_map,keyView]
  apply Option.map_congr
  intro v _
  exact v.copy_view

theorem marshalView_eq (format : GoTime → GoString) (c : GossipCacheManager)
    (order : RangeOrder c) (key : GoString) :
    c.marshalView format order key=c.keyView key := by
  rw [marshalView,marshalMap,
    order.keys_enumerate.lookup_insertAll (fun k v => v.temp format (order.nodes k)) key,
    Option.map_map,keyView]
  apply Option.map_congr
  intro v hv
  exact GossipConsensus.temp_view format (order.nodes_enumerate key v hv)

theorem getKeyView_eq (format : GoTime → GoString) (c : GossipCacheManager)
    (order : RangeOrder c) (key : GoString) :
    c.getKeyView format order key=c.keyView key := by
  rw [getKeyView,getKey,keyView]
  cases found : c.data.lookup key with
  | none => rfl
  | some v =>
    exact congrArg some (GossipConsensus.temp_view format (order.nodes_enumerate key v found))

theorem getKeyNode_eq (c : GossipCacheManager) (key nodeAddr : GoString) :
    c.getKeyNode key nodeAddr=gossipKeyNodeNotExists := by
  unfold getKeyNode
  cases c.data.lookup key with
  | none => rfl
  | some v =>
    dsimp only
    cases v.consensus.get? nodeAddr <;> rfl

theorem shownStatus_keyView (c : GossipCacheManager) (key node : GoString) :
    shownStatus (c.keyView key) node=
      ((c.report key node).map (·.gossipStatus)).getD gossipKeyNodeNotExists := by
  rw [shownStatus,keyView,report,entry]
  cases c.data.lookup key <;> rfl

/-- The four readers agree on a key and a node; each loop has an iteration order of its own. -/
structure ViewsAgree (format : GoTime → GoString) (c : GossipCacheManager)
    (cloned marshalled got : RangeOrder c) (key node : GoString) : Prop where
  stored : c.getKeyNode key node=
    ((c.report key node).map (·.gossipStatus)).getD gossipKeyNodeNotExists
  clone_status : shownStatus (c.cloneView cloned key) node=c.getKeyNode key node
  marshal_status : shownStatus (c.marshalView format marshalled key) node=c.getKeyNode key node
  getKey_status : shownStatus (c.getKeyView format got key) node=c.getKeyNode key node
  marshal_clone : c.marshalView format marshalled key=c.cloneView cloned key
  getKey_clone : c.getKeyView format got key=c.cloneView cloned key

/-- The three copies agree with the store in every state. GetKeyNode answers
KEY_NODE_NOT_EXISTS whatever it finds, so it agrees with them on a pair just if the pair has
no report, or one with that very status. -/
theorem views_agree_iff (format : GoTime → GoString) (c : GossipCacheManager)
    (cloned marshalled got : RangeOrder c) (key node : GoString) :
    ViewsAgree format c cloned marshalled got key node ↔
      ∀ r,c.report key node=some r → r.gossipStatus=gossipKeyNodeNotExists := by
  constructor
  · intro agree r stored
    have right := agree.stored
    rw [getKeyNode_eq,stored] at right
    exact right.symm
  · intro absent
    have right : ((c.report key node).map (·.gossipStatus)).getD gossipKeyNodeNotExists=
        c.getKeyNode key node := by
      rw [getKeyNode_eq]
      cases stored : c.report key node with
      | none => rfl
      | some r => exact absent r stored
    have shown : shownStatus (c.keyView key) node=c.getKeyNode key node := by
      rw [shownStatus_keyView,right]
    exact {
      stored := right.symm
      clone_status := by rw [cloneView_eq,shown]
      marshal_status := by rw [marshalView_eq,shown]
      getKey_status := by rw [getKeyView_eq,shown]
      marshal_clone := by rw [marshalView_eq,cloneView_eq]
      getKey_clone := by rw [getKeyView_eq,cloneView_eq]}

/-- After the first report of a node every copy shows it UP; GetKeyNode knows nothing of it. -/
theorem getKeyNode_loses_report :
    ∃ c,run StoreOp.step .new [.set ⟨1,goStr "n1",goStr "k",goStr "v",gossipUp⟩]=some c ∧
      Nonempty (RangeOrder c) ∧
      c.getKeyNode (goStr "k") (goStr "n1")=gossipKeyNodeNotExists ∧
      gossipUp≠gossipKeyNodeNotExists ∧
      ∀ format (order : RangeOrder c),
        shownStatus (c.cloneView order (goStr "k")) (goStr "n1")=gossipUp ∧
        shownStatus (c.marshalView format order (goStr "k")) (goStr "n1")=gossipUp ∧
        shownStatus (c.getKeyView format order (goStr "k")) (goStr "n1")=gossipUp := by
  refine ⟨⟨Finmap.insert (goStr "k")
    {consensus := .alloc (Finmap.insert (goStr "n1") ⟨gossipUp,1⟩ ∅)} ∅⟩,by decide +kernel,
    RangeOrder.nonempty _,by decide +kernel,by decide +kernel,?_⟩
  intro format order
  rw [cloneView_eq,marshalView_eq,getKeyView_eq,shownStatus_keyView]
  decide +kernel

end GossipCacheManager
end StCache
