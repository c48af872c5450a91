import Mathlib.Data.List.Perm.Lattice
import Mathlib.Data.Prod.Lex

namespace StCache
namespace Transmit

/-- An entry of the queue. -/
structure Limited (B : Type) where
  transmits : Nat
  msgLen : Nat
  id : Nat
  b : B
  deriving DecidableEq

section Tree
variable {B : Type}

/-- `Less`: fewer transmits come first, then longer messages, then later ids. -/
def Limited.less (x y : Limited B) : Bool :=
  if x.transmits < y.transmits then true
  else if y.transmits < x.transmits then false
  else if y.msgLen < x.msgLen then true
  else if x.msgLen < y.msgLen then false
  else y.id < x.id

/-- The place of an entry in the tree. -/
def Limited.place (x : Limited B) : ℕ ×ₗ ℕᵒᵈ ×ₗ ℕᵒᵈ :=
  toLex (x.transmits,toLex (OrderDual.toDual x.msgLen,OrderDual.toDual x.id))

theorem Limited.less_iff (x y : Limited B) : x.less y=true ↔ x.place < y.place := by
  rw [less,place,place,Prod.Lex.toLex_lt_toLex,Prod.Lex.toLex_lt_toLex,OrderDual.toDual_lt_toDual,
    OrderDual.toDual_lt_toDual,OrderDual.toDual_inj]
  split_ifs <;> simp <;> omega

theorem Limited.place_eq_iff (x y : Limited B) :
    x.place=y.place ↔ x.transmits=y.transmits ∧ x.msgLen=y.msgLen ∧ x.id=y.id := by
  simp [place,Prod.ext_iff]

theorem Limited.transmits_le {x y : Limited B} (h : x.place < y.place) :
    x.transmits ≤ y.transmits := by
  rw [←less_iff,less] at h
  split_ifs at h <;> omega

/-- Each place is taken once, and the items are in order. -/
def Sorted (t : List (Limited B)) : Prop := t.Pairwise (fun x y => x.place < y.place)

/-- An item in the same place goes. -/
def replaceOrInsert (x : Limited B) : List (Limited B) → List (Limited B)
  | [] => [x]
  | y::t => if x.less y then x::y::t else if y.less x then y::replaceOrInsert x t else x::t

/-- The item in this place goes. -/
def delete (x : Limited B) : List (Limited B) → List (Limited B)
  | [] => []
  | y::t => if x.less y then y::t else if y.less x then y::delete x t else t

/-- The items in another place. -/
def others (x : Limited B) (t : List (Limited B)) : List (Limited B) :=
  t.filter (fun y => y.place≠x.place)

theorem mem_others {x y : Limited B} {t : List (Limited B)} :
    y∈others x t ↔ y∈t ∧ y.place≠x.place := by
  rw [others,List.mem_filter,decide_eq_true_eq]

theorem others_eq_self {x : Limited B} {t : List (Limited B)}
    (h : ∀ y∈t,x.place < y.place) : others x t=t := by
  rw [others,List.filter_eq_self]
  intro y hy
  exact decide_eq_true (ne_of_gt (h y hy))

theorem others_cons_of_ne {x y : Limited B} (t : List (Limited B)) (h : y.place≠x.place) :
    others x (y::t)=y::others x t := by
  simp [others,h]

theorem others_cons_of_eq {x y : Limited B} (t : List (Limited B)) (h : y.place=x.place) :
    others x (y::t)=others x t := by
  simp [others,h]

theorem Sorted.others {x : Limited B} {t : List (Limited B)} (h : Sorted t) :
    Sorted (others x t) :=
  h.sublist List.filter_sublist

/-- The three places an item can have next to another one, as the tree finds them. -/
theorem place_cases (x y : Limited B) :
    (x.less y=true ∧ x.place < y.place) ∨
      (x.less y=false ∧ y.less x=true ∧ y.place < x.place) ∨
      (x.less y=false ∧ y.less x=false ∧ y.place=x.place) := by
  rcases lt_trichotomy x.place y.place with lt|eq|gt
  · exact Or.inl ⟨(x.less_iff y).mpr lt,lt⟩
  · have irrefl (u v : Limited B) (same : u.place=v.place) : u.less v=false := by
      rw [Bool.eq_false_iff]
      intro less
      exact absurd ((u.less_iff v).mp less) (same ▸ lt_irrefl _)
    exact Or.inr (Or.inr ⟨irrefl x y eq,irrefl y x eq.symm,eq.symm⟩)
  · have first : x.less y=false := by
      rw [Bool.eq_false_iff]
      intro less
      exact absurd ((x.less_iff y).mp less) (not_lt_of_gt gt)
    exact Or.inr (Or.inl ⟨first,(y.less_iff x).mpr gt,gt⟩)

theorem below_cons {x y : Limited B} {t : List (Limited B)} (lt : x.place < y.place)
    (above : ∀ z∈t,y.place < z.place) : ∀ z∈y::t,x.place < z.place := by
  intro z hz
  cases List.mem_cons.mp hz with
  | inl first => exact first ▸ lt
  | inr later => exact lt_trans lt (above z later)

theorem delete_eq {t : List (Limited B)} (h : Sorted t) (x : Limited B) :
    delete x t=others x t := by
  induction t with
  | nil => rfl
  | cons y t ih =>
    obtain ⟨above,sorted⟩ := List.pairwise_cons.mp h
    rw [delete]
    rcases place_cases x y with ⟨less,lt⟩|⟨less,more,gt⟩|⟨less,more,eq⟩
    · rw [if_pos less,others_eq_self (below_cons lt above)]
    · rw [if_neg (by simp [less]),if_pos more,ih sorted,others_cons_of_ne t (ne_of_lt gt)]
    · rw [if_neg (by simp [less]),if_neg (by simp [more]),others_cons_of_eq t eq]
      have all : ∀ z∈t,x.place < z.place := fun z hz => eq ▸ above z hz
      exact (others_eq_self all).symm

theorem replaceOrInsert_perm {t : List (Limited B)} (h : Sorted t) (x : Limited B) :
    (replaceOrInsert x t).Perm (x::others x t) := by
  induction t with
  | nil => exact List.Perm.refl _
  | cons y t ih =>
    obtain ⟨above,sorted⟩ := List.pairwise_cons.mp h
    rw [replaceOrInsert]
    rcases place_cases x y with ⟨less,lt⟩|⟨less,more,gt⟩|⟨less,more,eq⟩
    · rw [if_pos less,others_eq_self (below_cons lt above)]
    · rw [if_neg (by simp [less]),if_pos more,others_cons_of_ne t (ne_of_lt gt)]
      exact ((ih sorted).cons y).trans (List.Perm.swap x y _)
    · rw [if_neg (by simp [less]),if_neg (by simp [more]),others_cons_of_eq t eq]
      have all : ∀ z∈t,x.place < z.place := fun z hz => eq ▸ above z hz
      rw [others_eq_self all]

theorem mem_replaceOrInsert {t : List (Limited B)} (h : Sorted t) {x y : Limited B} :
    y∈replaceOrInsert x t ↔ y=x ∨ (y∈t ∧ y.place≠x.place) := by
  rw [(replaceOrInsert_perm h x).mem_iff,List.mem_cons,mem_others]

theorem Sorted.replaceOrInsert {t : List (Limited B)} (h : Sorted t) (x : Limited B) :
    Sorted (replaceOrInsert x t) := by
  induction t with
  | nil => exact List.pairwise_singleton _ _
  | cons y t ih =>
    obtain ⟨above,sorted⟩ := List.pairwise_cons.mp h
    rw [Transmit.replaceOrInsert]
    rcases place_cases x y with ⟨less,lt⟩|⟨less,more,gt⟩|⟨less,more,eq⟩
    · rw [if_pos less]
      exact List.pairwise_cons.mpr ⟨below_cons lt above,h⟩
    · rw [if_neg (by simp [less]),if_pos more]
      refine List.pairwise_cons.mpr ⟨?_,ih sorted⟩
      intro z hz
      cases (mem_replaceOrInsert sorted).mp hz with
      | inl new => exact new ▸ gt
      | inr old => exact above z old.1
    · rw [if_neg (by simp [less]),if_neg (by simp [more])]
      exact List.pairwise_cons.mpr ⟨fun z hz => eq ▸ above z hz,sorted⟩

/-- Taking an item out of the tree leaves the others. -/
theorem perm_delete {t : List (Limited B)} (h : Sorted t) {x : Limited B} (hx : x∈t) :
    t.Perm (x::delete x t) := by
  rw [delete_eq h]
  induction t with
  | nil => cases hx
  | cons y t ih =>
    obtain ⟨above,sorted⟩ := List.pairwise_cons.mp h
    cases List.mem_cons.mp hx with
    | inl first =>
      subst first
      rw [others_cons_of_eq t rfl,others_eq_self above]
    | inr later =>
      rw [others_cons_of_ne t (ne_of_lt (above x later))]
      exact ((ih sorted later).cons y).trans (List.Perm.swap x y _)

/-- An item is known by its place. -/
theorem Sorted.eq_of_place {t : List (Limited B)} (h : Sorted t) {x y : Limited B} (hx : x∈t)
    (hy : y∈t) (same : x.place=y.place) : x=y := by
  induction t with
  | nil => cases hx
  | cons z t ih =>
    obtain ⟨above,sorted⟩ := List.pairwise_cons.mp h
    cases List.mem_cons.mp hx with
    | inl first =>
      cases List.mem_cons.mp hy with
      | inl second => rw [first,second]
      | inr later => exact absurd same (first ▸ ne_of_lt (above y later))
    | inr later =>
      cases List.mem_cons.mp hy with
      | inl second => exact absurd same (second ▸ ne_of_gt (above x later))
      | inr later' => exact ih sorted later later'

end Tree

/-- What the queue asks of a message: its length and which older messages it makes obsolete. -/
structure Broadcast (B : Type) where
  size : B → Nat
  invalidates : B → B → Bool

/-- The tree, seen as the increasing list of its items, and the last id that was given. -/
structure Queue (B : Type) where
  tq : List (Limited B) := []
  idGen : Nat := 0
  deriving DecidableEq

/-- The arguments of GetBroadcasts, and the limit it computes from the number of nodes. -/
structure Call where
  overhead : Int
  limit : Int
  transmitLimit : Int
  deriving DecidableEq

/-- The local variables of GetBroadcasts. -/
structure Gather (B : Type) where
  queue : Queue B
  bytesUsed : Int := 0
  toSend : List B := []
  reinsert : List (Limited B) := []

section Operations
variable {B : Type}

/-- `math.MaxInt64` -/
def maxId : Nat := 9223372036854775807

/-- The ids start again when the tree gets empty. -/
def Queue.deleteItem (q : Queue B) (cur : Limited B) : Queue B :=
  ⟨delete cur q.tq,if (delete cur q.tq).isEmpty then 0 else q.idGen⟩

def Queue.addItem (q : Queue B) (cur : Limited B) : Queue B :=
  {q with tq := replaceOrInsert cur q.tq}

/-- The id of the next message. -/
def Queue.nextId (q : Queue B) : Nat := if q.idGen=maxId then 1 else q.idGen+1

/-- The entry of a new message. -/
def Queue.entry (k : Broadcast B) (q : Queue B) (b : B) : Limited B := ⟨0,k.size b,q.nextId,b⟩

/-- QueueBroadcast for messages without a name: what the message invalidates is looked up in
the whole tree. -/
def Queue.queueBroadcast (k : Broadcast B) (q : Queue B) (b : B) : Queue B :=
  ((q.tq.filter (fun cur => k.invalidates b cur.b)).foldl deleteItem
    {q with idGen := q.nextId}).addItem (q.entry k b)

/-- The room that is left for one more message. -/
def Gather.free (call : Call) (g : Gather B) : Int := call.limit-g.bytesUsed-call.overhead

/-- The first item of a tier that fits. The bounds of AscendRange have the largest id and length
there are, so that between them is what has this many transmits and is not too long. -/
def pick (k : Broadcast B) (transmits : Nat) (free : Int) (tq : List (Limited B)) :
    Option (Limited B) :=
  tq.find? (fun cur => (cur.transmits=transmits && (cur.msgLen : Int)≤free) &&
    (k.size cur.b : Int)≤free)

/-- The item in its next tier, if it has not reached the limit. -/
def requeued (call : Call) (keep : Limited B) : Option (Limited B) :=
  if call.transmitLimit≤keep.transmits+1 then none
  else some {keep with transmits := keep.transmits+1}

/-- One message more. -/
def Gather.take (k : Broadcast B) (call : Call) (g : Gather B) (keep : Limited B) : Gather B :=
  {queue := g.queue.deleteItem keep
   bytesUsed := g.bytesUsed+(call.overhead+k.size keep.b)
   toSend := g.toSend++[keep.b]
   reinsert := g.reinsert++(requeued call keep).toList}

/-- The loop of GetBroadcasts; every round takes an item or goes on to the next tier. -/
def gather (k : Broadcast B) (call : Call) (maxTr : Nat) : Nat → Nat → Gather B → Gather B
  | 0,_,g => g
  | rounds+1,transmits,g =>
    if maxTr < transmits then g
    else if g.free call≤0 then g
    else match pick k transmits (g.free call) g.queue.tq with
      | none => gather k call maxTr rounds (transmits+1) g
      | some keep => gather k call maxTr rounds transmits (g.take k call keep)

/-- GetBroadcasts: the queue it leaves and the messages it returns. -/
def Queue.getBroadcasts (k : Broadcast B) (call : Call) (q : Queue B) : Queue B × List B :=
  match q.tq.head?,q.tq.getLast? with
  | some first,some last =>
    let g := gather k call last.transmits (last.transmits+1-first.transmits+q.tq.length)
      first.transmits {queue := q}
    (g.reinsert.foldl addItem g.queue,g.toSend)
  | _,_ => (q,[])

end Operations
end Transmit
end StCache
