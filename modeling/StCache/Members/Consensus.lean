import Mathlib.Data.List.Sort
import Mathlib.Data.List.TakeWhile
import Mathlib.Data.Multiset.Count
import StCache.Store.Codec
import StCache.Store.Scavenger

namespace StCache

/-- The colon before a port. -/
def colon : UInt8 := 58

/-- `strings.Split(node,":")` gives two parts: the first one. -/
def readIP (node : GoString) : Option GoString :=
  match node.splitOn colon with
  | [ip,_] => some ip
  | _ => none

/-- The loop of getIP: any other address is logged and left out. -/
def getIP (nodes : List GoString) : List GoString := nodes.filterMap readIP

/-- sort.Strings -/
def sortStrings (l : List GoString) : List GoString := l.insertionSort KeyLe

/-- SliceEqual; none is a nil slice. -/
def sliceEqual (a b : Option (List GoString)) : Bool :=
  if a.isNone≠b.isNone then false
  else if (a.getD []).length≠(b.getD []).length then false
  else ((a.getD []).zip (b.getD [])).all (fun p => p.1=p.2)

/-- How fmt prints a slice of strings. -/
def formatStrings (l : List GoString) : GoString := 91::(List.intercalate [32] l++[93])

structure HttpAnswer where
  status : Nat
  body : GoString
  deriving DecidableEq

/-- The answer of doMembersConsensus when nothing differs. -/
def membersAgree : HttpAnswer := ⟨200,goStr "ok\n"⟩

/-- The two lists are what stCached.Members and the gossip node's Members return. -/
def doMembersConsensus (raftMembers gossipMembers : List GoString) : HttpAnswer :=
  let raftMembers := sortStrings (getIP raftMembers)
  let gossipMembers := sortStrings (getIP gossipMembers)
  if !sliceEqual (some raftMembers) (some gossipMembers) then
    ⟨500,goStr "error raft members "++formatStrings raftMembers++
      goStr " , gossip members "++formatStrings gossipMembers++goStr " differ\n"⟩
  else membersAgree

/-- The hosts that one pass of reJoinGossipNodes joins. -/
def reJoinGossipNodes (raftMembers gossipMembers : List GoString) : List GoString :=
  (getIP raftMembers).filter (fun node => !existsIn node (getIP gossipMembers))

/-- The part of an address before its port. -/
def host (address : GoString) : GoString :=
  ((address.reverse.dropWhile (fun b => b≠colon)).drop 1).reverse

/-- How often each host occurs. -/
def hosts (members : List GoString) : Multiset GoString := Multiset.ofList (members.map host)

theorem host_append (ip : GoString) {port : GoString} (plain : colon∉port) :
    host (ip++colon::port)=ip := by
  have skipped : port.reverse.dropWhile (fun b => decide (b≠colon))=[] := by
    rw [List.dropWhile_eq_nil_iff]
    intro b hb
    have differ : b≠colon := fun same => plain (same ▸ List.mem_reverse.mp hb)
    simpa using differ
  have order : (ip++colon::port).reverse=port.reverse++colon::ip.reverse := by simp
  rw [host,order,List.dropWhile_append,skipped]
  simp

theorem split_plain {s : GoString} (plain : colon∉s) : s.splitOn colon=[s] := by
  refine List.splitOnP_eq_singleton ?_
  intro b hb
  have differ : b≠colon := fun same => plain (same ▸ hb)
  simpa using differ

theorem split_first {ip : GoString} (plain : colon∉ip) (rest : GoString) :
    (ip++colon::rest).splitOn colon=ip::rest.splitOn colon := by
  refine List.splitOnP_append_cons_of_forall_mem ?_ colon (by simp) rest
  intro b hb
  have differ : b≠colon := fun same => plain (same ▸ hb)
  simpa using differ

/-- getIP reads the host of the addresses with exactly one colon. -/
theorem readIP_eq (node : GoString) :
    readIP node=if node.count colon=1 then some (host node) else none := by
  by_cases first : colon∈node
  · obtain ⟨ip,rest,rfl,plain⟩ := List.eq_append_cons_of_mem first
    have before : ip.count colon=0 := List.count_eq_zero.mpr plain
    rw [readIP,split_first plain,List.count_append,before,List.count_cons_self]
    by_cases second : colon∈rest
    · have more : 0 < rest.count colon := List.count_pos_iff.mpr second
      obtain ⟨x,y,rfl,plain'⟩ := List.eq_append_cons_of_mem second
      rw [split_first plain',if_neg (by omega)]
      cases parts : y.splitOn colon with
      | nil => exact absurd parts (List.splitOnP_ne_nil _ y)
      | cons z zs => rfl
    · rw [split_plain second,List.count_eq_zero.mpr second,host_append ip second]
      rfl
  · rw [readIP,split_plain first,List.count_eq_zero.mpr first]
    rfl

theorem getIP_eq (nodes : List GoString) :
    getIP nodes=(nodes.filter (fun a => a.count colon=1)).map host := by
  induction nodes with
  | nil => rfl
  | cons node nodes ih =>
    rw [getIP] at ih ⊢
    rw [List.filterMap_cons,readIP_eq,ih]
    by_cases one : node.count colon=1
    · simp [one]
    · simp [one]

theorem sortStrings_eq_iff (a b : List GoString) : sortStrings a=sortStrings b ↔ a.Perm b := by
  have perm (l : List GoString) : (sortStrings l).Perm l := List.perm_insertionSort KeyLe l
  have sorted (l : List GoString) : (sortStrings l).Pairwise KeyLe :=
    List.pairwise_insertionSort KeyLe l
  constructor
  · intro same
    have both := perm a
    rw [same] at both
    exact both.symm.trans (perm b)
  · intro same
    exact ((perm a).trans (same.trans (perm b).symm)).eq_of_pairwise' (sorted a) (sorted b)

theorem sliceEqual_iff (a b : List GoString) : sliceEqual (some a) (some b)=true ↔ a=b := by
  have elements : a.length=b.length → ((a.zip b).all (fun p => p.1=p.2)=true ↔ a=b) := by
    induction a generalizing b with
    | nil =>
      intro size
      have empty : b=[] := List.length_eq_zero_iff.mp size.symm
      simp [empty]
    | cons x a ih =>
      intro size
      cases b with
      | nil => cases size
      | cons y b => simpa using fun _ => ih b (by simpa using size)
  by_cases size : a.length=b.length
  · simpa [sliceEqual,size] using elements size
  · have differ : a≠b := fun same => size (congrArg List.length same)
    simp [sliceEqual,size,differ]

theorem consensus_iff_perm (raftMembers gossipMembers : List GoString) :
    doMembersConsensus raftMembers gossipMembers=membersAgree ↔
      (getIP raftMembers).Perm (getIP gossipMembers) := by
  rw [←sortStrings_eq_iff,←sliceEqual_iff,doMembersConsensus]
  cases sliceEqual (some (sortStrings (getIP raftMembers)))
      (some (sortStrings (getIP gossipMembers))) with
  | true => simp
  | false => simp [membersAgree]

/-- The check answers ok exactly when the hosts of the members with a single colon in their
address are the same on both sides, each as often. -/
theorem doMembersConsensus_iff (raftMembers gossipMembers : List GoString) :
    doMembersConsensus raftMembers gossipMembers=membersAgree ↔
      hosts (raftMembers.filter (fun a => a.count colon=1))=
        hosts (gossipMembers.filter (fun a => a.count colon=1)) := by
  rw [consensus_iff_perm,getIP_eq,getIP_eq,hosts,hosts,Multiset.coe_eq_coe]

/-- A raft member with an IPv6 address that gossip does not know is not noticed. -/
theorem doMembersConsensus_skips :
    doMembersConsensus [goStr "10.0.0.1:7000",goStr "[::1]:7000"] [goStr "10.0.0.1:8000"]=
        membersAgree ∧
      hosts [goStr "10.0.0.1:7000",goStr "[::1]:7000"]≠hosts [goStr "10.0.0.1:8000"] := by
  decide +kernel

theorem existsIn_iff (ele : GoString) (slice : List GoString) :
    existsIn ele slice=true ↔ ele∈slice := by
  induction slice with
  | nil => simp [existsIn]
  | cons v slice ih =>
    rw [existsIn,List.mem_cons]
    split_ifs with same
    · exact iff_of_true rfl (Or.inl same.symm)
    · rw [ih]
      exact ⟨Or.inr,fun h => h.resolve_left (fun e => same e.symm)⟩

theorem mem_reJoinGossipNodes (raftMembers gossipMembers : List GoString) (h : GoString) :
    h∈reJoinGossipNodes raftMembers gossipMembers ↔
      h∈getIP raftMembers ∧ h∉getIP gossipMembers := by
  rw [reJoinGossipNodes,List.mem_filter,Bool.not_eq_true',←existsIn_iff h (getIP gossipMembers),
    Bool.not_eq_true]

/-- Where the check finds no difference there is nothing to repair. -/
theorem reJoinGossipNodes_of_agree {raftMembers gossipMembers : List GoString}
    (agree : doMembersConsensus raftMembers gossipMembers=membersAgree) :
    reJoinGossipNodes raftMembers gossipMembers=[] := by
  rw [List.eq_nil_iff_forall_not_mem]
  intro h join
  rw [mem_reJoinGossipNodes] at join
  exact join.2 (((consensus_iff_perm raftMembers gossipMembers).mp agree).mem_iff.mp join.1)

/-- The last colon of an address ends its host. -/
theorem count_eq_one_iff {address : GoString} (port : colon∈address) :
    address.count colon=1 ↔ colon∉host address := by
  obtain ⟨rest,ip,order,plain⟩ := List.eq_append_cons_of_mem (List.mem_reverse.mpr port)
  have whole : address=ip.reverse++colon::rest.reverse := by
    rw [←List.reverse_reverse address,order]
    simp
  have plain' : colon∉rest.reverse := fun h => plain (List.mem_reverse.mp h)
  rw [whole,host_append _ plain',List.count_append,List.count_cons_self,
    List.count_eq_zero.mpr plain',←List.count_eq_zero]
  omega

/-- getIP sees the hosts that have no colon themselves. -/
theorem mem_getIP {members : List GoString} (addresses : ∀ a∈members,colon∈a) (h : GoString) :
    h∈getIP members ↔ h∈hosts members ∧ colon∉h := by
  rw [getIP_eq,hosts,Multiset.mem_coe,List.mem_map,List.mem_map]
  constructor
  · rintro ⟨a,ha,rfl⟩
    obtain ⟨member,one⟩ := List.mem_filter.mp ha
    have plain := (count_eq_one_iff (addresses a member)).mp (by simpa using one)
    exact ⟨⟨a,member,rfl⟩,plain⟩
  · rintro ⟨⟨a,member,rfl⟩,plain⟩
    have one := (count_eq_one_iff (addresses a member)).mpr plain
    exact ⟨a,List.mem_filter.mpr ⟨member,by simpa using one⟩,rfl⟩

/-- A raft host that has a colon, or that gossip knows, is there as often as in raft. -/
def KnownAsOften (raftMembers gossipMembers : List GoString) : Prop :=
  ∀ h∈hosts raftMembers,colon∈h ∨ h∈hosts gossipMembers →
    (hosts raftMembers).count h ≤ (hosts gossipMembers).count h

instance (raftMembers gossipMembers : List GoString) :
    Decidable (KnownAsOften raftMembers gossipMembers) :=
  inferInstanceAs (Decidable (∀ h∈hosts raftMembers,_ → _))

/-- A host that raft has more often than gossip is joined, unless getIP leaves it out or the
gossip node knows it already. -/
theorem mem_reJoin_iff {raftMembers gossipMembers : List GoString}
    (addresses : ∀ a∈raftMembers++gossipMembers,colon∈a) {h : GoString}
    (more : (hosts gossipMembers).count h<(hosts raftMembers).count h) :
    h∈reJoinGossipNodes raftMembers gossipMembers ↔ ¬(colon∈h ∨ h∈hosts gossipMembers) := by
  have member : h∈hosts raftMembers := Multiset.count_pos.mp (by omega)
  rw [mem_reJoinGossipNodes,mem_getIP (fun a ha => addresses a (List.mem_append_left _ ha)),
    mem_getIP (fun a ha => addresses a (List.mem_append_right _ ha))]
  tauto

/-- The repair loop covers what the check reports exactly when no host that it cannot join is
missing among the gossip members. -/
theorem reJoin_covers_iff (raftMembers gossipMembers : List GoString)
    (addresses : ∀ a∈raftMembers++gossipMembers,colon∈a) :
    ((∀ h,doMembersConsensus raftMembers gossipMembers≠membersAgree →
          (hosts gossipMembers).count h<(hosts raftMembers).count h →
          h∈reJoinGossipNodes raftMembers gossipMembers) ∧
        (reJoinGossipNodes raftMembers gossipMembers=[] →
          hosts raftMembers ≤ hosts gossipMembers)) ↔
      KnownAsOften raftMembers gossipMembers := by
  constructor
  · rintro ⟨joins,contained⟩ h member known
    by_contra less
    have more := Nat.lt_of_not_le less
    by_cases agree : doMembersConsensus raftMembers gossipMembers=membersAgree
    · have all := contained (reJoinGossipNodes_of_agree agree)
      exact less (Multiset.le_iff_count.mp all h)
    · exact (mem_reJoin_iff addresses more).mp (joins h agree more) known
  · intro known
    have joins (h : GoString) (more : (hosts gossipMembers).count h<(hosts raftMembers).count h) :
        h∈reJoinGossipNodes raftMembers gossipMembers := by
      rw [mem_reJoin_iff addresses more]
      intro either
      have member : h∈hosts raftMembers := Multiset.count_pos.mp (by omega)
      exact Nat.not_le_of_lt more (known h member either)
    refine ⟨fun h _ more => joins h more,fun none' => ?_⟩
    rw [Multiset.le_iff_count]
    intro h
    by_contra less
    have join := joins h (Nat.lt_of_not_le less)
    simp [none'] at join

/-- A node that gossip does not know yet. -/
theorem reJoin_covers_iff_missing :
    (∀ a∈[goStr "10.0.0.1:7000",goStr "10.0.0.2:7000"]++[goStr "10.0.0.1:8000"],colon∈a) ∧
    ∀ h,doMembersConsensus [goStr "10.0.0.1:7000",goStr "10.0.0.2:7000"] [goStr "10.0.0.1:8000"]≠
          membersAgree →
        (hosts [goStr "10.0.0.1:8000"]).count h<
          (hosts [goStr "10.0.0.1:7000",goStr "10.0.0.2:7000"]).count h →
      h∈reJoinGossipNodes [goStr "10.0.0.1:7000",goStr "10.0.0.2:7000"]
        [goStr "10.0.0.1:8000"] := by
  have addresses : ∀ a∈[goStr "10.0.0.1:7000",goStr "10.0.0.2:7000"]++[goStr "10.0.0.1:8000"],
      colon∈a := by decide +kernel
  exact ⟨addresses,((reJoin_covers_iff _ _ addresses).mpr (by decide +kernel)).1⟩

/-- Two nodes of one host in raft and one of them in gossip: the check fails, nothing is joined. -/
theorem reJoin_uncovered :
    doMembersConsensus [goStr "127.0.0.1:7000",goStr "127.0.0.1:7001"] [goStr "127.0.0.1:8000"]≠
        membersAgree ∧
      (hosts [goStr "127.0.0.1:8000"]).count (goStr "127.0.0.1")<
        (hosts [goStr "127.0.0.1:7000",goStr "127.0.0.1:7001"]).count (goStr "127.0.0.1") ∧
      reJoinGossipNodes [goStr "127.0.0.1:7000",goStr "127.0.0.1:7001"] [goStr "127.0.0.1:8000"]=
        [] := by
  decide +kernel

end StCache
