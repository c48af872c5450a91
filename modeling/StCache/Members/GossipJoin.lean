import Mathlib.Algebra.GroupWithZero.Nat
import Mathlib.Algebra.BigOperators.Group.List.Basic
import StCache.Members.Consensus

namespace StCache

section Join
variable (resolveAddr : GoString → Option (List GoString)) (pushPullNode : GoString → Bool)

/-- The inner loop of memberlist's Join: the count, and whether there was an error. -/
def joinAddr (r : Nat × Bool) (addr : GoString) : Nat × Bool :=
  if pushPullNode addr then (r.1+1,r.2) else (r.1,true)

def joinHost (r : Nat × Bool) (exist : GoString) : Nat × Bool :=
  match resolveAddr exist with
  | none => (r.1,true)
  | some addrs => addrs.foldl (joinAddr pushPullNode) r

/-- memberlist's Join: the errors are dropped once one address was reached. -/
def memberlistJoin (existing : List GoString) : Nat × Bool :=
  let r := existing.foldl (joinHost resolveAddr pushPullNode) (0,false)
  (r.1,r.2 && r.1=0)

/-- The comma between two peers. -/
def comma : UInt8 := 44

def doGossipJoin (nodes : GoString) : GoString :=
  let peers := nodes.splitOn comma
  let r := memberlistJoin resolveAddr pushPullNode peers
  if r.2=true then goStr "internal error\n"
  else if r.1≠peers.length then goStr "internal error\n"
  else goStr "ok\n"

/-- How many addresses of a peer answer. -/
def answering (peer : GoString) : Nat := ((resolveAddr peer).getD []).countP pushPullNode

variable {resolveAddr pushPullNode}

theorem foldl_joinAddr_fst (addrs : List GoString) (r : Nat × Bool) :
    (addrs.foldl (joinAddr pushPullNode) r).1=r.1+addrs.countP pushPullNode := by
  induction addrs generalizing r with
  | nil => rfl
  | cons addr addrs ih =>
    rw [List.foldl_cons,ih,List.countP_cons,joinAddr]
    split_ifs <;> omega

theorem joinHost_fst (r : Nat × Bool) (peer : GoString) :
    (joinHost resolveAddr pushPullNode r peer).1=r.1+answering resolveAddr pushPullNode peer := by
  rw [joinHost,answering]
  cases resolveAddr peer with
  | none => rfl
  | some addrs => exact foldl_joinAddr_fst addrs r

theorem foldl_joinHost_fst (peers : List GoString) (r : Nat × Bool) :
    (peers.foldl (joinHost resolveAddr pushPullNode) r).1=
      r.1+(peers.map (answering resolveAddr pushPullNode)).sum := by
  induction peers generalizing r with
  | nil => rfl
  | cons p peers ih =>
    rw [List.foldl_cons,ih,joinHost_fst,List.map_cons,List.sum_cons,Nat.add_assoc]

/-- The answer is ok exactly if as many addresses answer as there are peers. -/
theorem doGossipJoin_ok_iff (nodes : GoString) :
    doGossipJoin resolveAddr pushPullNode nodes=goStr "ok\n" ↔
      ((nodes.splitOn comma).map (answering resolveAddr pushPullNode)).sum=
        (nodes.splitOn comma).length := by
  have count : ((nodes.splitOn comma).foldl (joinHost resolveAddr pushPullNode) (0,false)).1=
      0+((nodes.splitOn comma).map (answering resolveAddr pushPullNode)).sum :=
    foldl_joinHost_fst _ (0,false)
  have some' : 0<(nodes.splitOn comma).length := List.length_pos_of_ne_nil (List.splitOnP_ne_nil _ _)
  rw [Nat.zero_add] at count
  rw [doGossipJoin,memberlistJoin]
  dsimp only
  rw [count]
  split_ifs with failed fewer
  · have none := of_decide_eq_true (Bool.and_eq_true_iff.mp failed).2
    exact iff_of_false (by decide) (by omega)
  · exact iff_of_false (by decide) fewer
  · exact iff_of_true rfl (not_not.mp fewer)

/-- Two addresses of one peer make up for another peer that does not answer. -/
example : doGossipJoin (fun p => if p=[97] then some [[1],[2]] else none) (fun _ => true)
    [97,comma,98]=goStr "ok\n" := by
  decide

end Join

end StCache
