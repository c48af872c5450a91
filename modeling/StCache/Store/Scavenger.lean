import StCache.Store.Fsm

namespace StCache

/-- The loop of Exists. -/
def existsIn (ele : GoString) : List GoString → Bool
  | [] => false
  | v::slice => if v=ele then true else existsIn ele slice

namespace GossipCacheManager

/-- The body of the scavenger's loop for one key and the nodes its cloned entry
lists, in the order the map iteration gives them. -/
def scavengeKey (data : Table GoString GoString) (members : List GoString)
    (c : GossipCacheManager) (key : GoString) (nodes : List GoString) : GossipCacheManager :=
  match data.lookup key with
  | none => c.delKey key
  | some _ => nodes.foldl (fun c node =>
      if existsIn node members then c else c.delNodeAddr key node) c

/-- The gossip half of one pass; data is the copy of the cache map. -/
def scavenge (c : GossipCacheManager) (data : Table GoString GoString)
    (members : List GoString) (order : List (GoString × List GoString)) : GossipCacheManager :=
  order.foldl (fun c p => c.scavengeKey data members p.1 p.2) c

/-- An order in which the pass may visit the clone it takes. -/
def ScavengeOrder (c : GossipCacheManager) (order : List (GoString × List GoString)) : Prop :=
  KeyOrder (order.map Prod.fst) c.data ∧
    ∀ p∈order,KeyOrder p.2 (c.entry p.1).consensus.table

instance (c : GossipCacheManager) (order : List (GoString × List GoString)) :
    Decidable (c.ScavengeOrder order) :=
  inferInstanceAs (Decidable (_ ∧ _))

theorem replicated_foldl_delNodeAddr (members : List GoString) (key : GoString)
    (nodes : List GoString) (c : GossipCacheManager) (k : GoString) :
    (nodes.foldl (fun c node =>
      if existsIn node members then c else c.delNodeAddr key node) c).replicated k=
      c.replicated k := by
  induction nodes generalizing c with
  | nil => rfl
  | cons node nodes ih =>
    rw [List.foldl_cons,ih]
    split_ifs <;> simp

theorem replicated_scavengeKey (data : Table GoString GoString) (members : List GoString)
    (c : GossipCacheManager) (key : GoString) (nodes : List GoString) (k : GoString) :
    (c.scavengeKey data members key nodes).replicated k=
      if k=key ∧ data.lookup key=none then {} else c.replicated k := by
  unfold scavengeKey
  cases data.lookup key with
  | none => simpa using replicated_delKey c key k
  | some v => simpa using replicated_foldl_delNodeAddr members key nodes c k

theorem replicated_scavenge_order (data : Table GoString GoString) (members : List GoString)
    (order : List (GoString × List GoString)) (c : GossipCacheManager) (k : GoString) :
    (c.scavenge data members order).replicated k=
      if k∈order.map Prod.fst ∧ data.lookup k=none then {} else c.replicated k := by
  induction order generalizing c with
  | nil => simp [scavenge]
  | cons p order ih =>
    have tail := ih (c.scavengeKey data members p.1 p.2)
    rw [scavenge] at tail ⊢
    rw [List.foldl_cons,tail,replicated_scavengeKey]
    by_cases hk : k=p.1
    · subst k
      by_cases hd : data.lookup p.1=none <;> simp [hd]
    · simp only [List.map_cons,List.mem_cons,hk,false_or,false_and,if_false]

/-- A pass drops the entry, and with it the replicated fields, of every key that
is not in the cache map, and keeps the fields of all others. -/
theorem replicated_scavenge (c : GossipCacheManager) (data : Table GoString GoString)
    (members : List GoString) (order : List (GoString × List GoString))
    (h : c.ScavengeOrder order) (k : GoString) :
    (c.scavenge data members order).replicated k=
      if data.lookup k=none then {} else c.replicated k := by
  simp only [replicated_scavenge_order,h.1.mem_iff]
  by_cases hd : data.lookup k=none
  · cases hl : c.data.lookup k with
    | none => simp [hd,replicated,entry,hl,GossipConsensus.replicated]
    | some v => simp [hd]
  · simp [hd]

end GossipCacheManager

end StCache
