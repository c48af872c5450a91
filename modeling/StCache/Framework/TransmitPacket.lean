import Mathlib.Algebra.GroupWithZero.Nat
import Mathlib.Algebra.Order.BigOperators.Group.List
import Mathlib.Algebra.Order.Group.Nat
import Mathlib.Data.List.Perm.Subperm
import StCache.Framework.TransmitQueue

namespace StCache
namespace Transmit

variable {B : Type}

/-- The tree is in order and every entry has the length of its message. -/
structure Queue.Ok (k : Broadcast B) (q : Queue B) : Prop where
  sorted : Sorted q.tq
  lengths : ∀ x∈q.tq,x.msgLen=k.size x.b

theorem Queue.ok_empty (k : Broadcast B) : Queue.Ok k {} :=
  ⟨List.Pairwise.nil,fun _ hx => nomatch hx⟩

/-- Deleting a list of items leaves what has another place than each of them. -/
theorem foldl_deleteItem (gone : List (Limited B)) (q : Queue B) (h : Sorted q.tq) :
    (gone.foldl Queue.deleteItem q).tq=q.tq.filter (fun y => ∀ x∈gone,y.place≠x.place) := by
  induction gone generalizing q with
  | nil => simp
  | cons x gone ih =>
    have here : (q.deleteItem x).tq=others x q.tq := delete_eq h x
    rw [List.foldl_cons,ih (q.deleteItem x) (by rw [here]; exact h.others),here,others,
      List.filter_filter]
    apply List.filter_congr
    intro y _
    simp [Bool.and_comm]

theorem queueBroadcast_tq (k : Broadcast B) {q : Queue B} (h : Sorted q.tq) (b : B) :
    (q.queueBroadcast k b).tq=
      replaceOrInsert (q.entry k b) (q.tq.filter (fun cur => k.invalidates b cur.b=false)) := by
  have kept : ((q.tq.filter (fun cur => k.invalidates b cur.b)).foldl Queue.deleteItem
      {q with idGen := q.nextId}).tq=q.tq.filter (fun cur => k.invalidates b cur.b=false) := by
    rw [foldl_deleteItem _ ⟨q.tq,q.nextId⟩ h]
    apply List.filter_congr
    intro y hy
    apply Bool.eq_iff_iff.mpr
    rw [decide_eq_true_eq,decide_eq_true_eq]
    constructor
    · intro apart
      cases obsolete : k.invalidates b y.b with
      | false => rfl
      | true => exact absurd rfl (apart y (List.mem_filter.mpr ⟨hy,obsolete⟩))
    · intro valid x hx same
      obtain ⟨hx,obsolete⟩ := List.mem_filter.mp hx
      rw [h.eq_of_place hy hx same,obsolete] at valid
      cases valid
  rw [Queue.queueBroadcast,Queue.addItem,kept]

/-- Every entry that the new message does not make obsolete stays, unless the new entry gets
its place. -/
theorem mem_queueBroadcast (k : Broadcast B) {q : Queue B} (h : Sorted q.tq) (b : B)
    (y : Limited B) : y∈(q.queueBroadcast k b).tq ↔ y=q.entry k b ∨
      (y∈q.tq ∧ k.invalidates b y.b=false ∧ y.place≠(q.entry k b).place) := by
  have sorted : Sorted (q.tq.filter (fun cur => k.invalidates b cur.b=false)) :=
    h.sublist List.filter_sublist
  rw [queueBroadcast_tq k h,mem_replaceOrInsert sorted,List.mem_filter,decide_eq_true_eq,and_assoc]

theorem queueBroadcast_subperm (k : Broadcast B) {q : Queue B} (h : Sorted q.tq) (b : B) :
    (q.queueBroadcast k b).tq.Subperm
      (q.entry k b::q.tq.filter (fun cur => k.invalidates b cur.b=false)) := by
  have sorted : Sorted (q.tq.filter (fun cur => k.invalidates b cur.b=false)) :=
    h.sublist List.filter_sublist
  rw [queueBroadcast_tq k h,(replaceOrInsert_perm sorted _).subperm_right]
  exact (List.filter_sublist.cons_cons _).subperm

theorem Queue.Ok.queueBroadcast {k : Broadcast B} {q : Queue B} (h : q.Ok k) (b : B) :
    (q.queueBroadcast k b).Ok k := by
  refine ⟨?_,?_⟩
  · rw [queueBroadcast_tq k h.sorted]
    exact Sorted.replaceOrInsert (h.sorted.sublist List.filter_sublist) _
  · intro y hy
    cases (mem_queueBroadcast k h.sorted b y).mp hy with
    | inl new =>
      subst new
      rfl
    | inr old => exact h.lengths y old.1

/-- The bytes of a packet. -/
def packetLen (k : Broadcast B) (call : Call) : List B → Int
  | [] => 0
  | b::l => call.overhead+k.size b+packetLen k call l

theorem packetLen_snoc (k : Broadcast B) (call : Call) (l : List B) (b : B) :
    packetLen k call (l++[b])=packetLen k call l+(call.overhead+k.size b) := by
  induction l with
  | nil => simp [packetLen]
  | cons c l ih =>
    rw [List.cons_append,packetLen,packetLen,ih]
    omega

/-- What holds of the loop of GetBroadcasts on the tree t, when it has come to this tier and
has taken these items. -/
structure Gathered (k : Broadcast B) (call : Call) (t : List (Limited B)) (transmits : Nat)
    (taken : List (Limited B)) (g : Gather B) : Prop where
  sorted : Sorted g.queue.tq
  parts : t.Perm (taken++g.queue.tq)
  toSend : g.toSend=taken.map Limited.b
  reinsert : g.reinsert=taken.filterMap (requeued call)
  bytesUsed : g.bytesUsed=packetLen k call g.toSend
  fits : taken≠[] → g.bytesUsed ≤ call.limit
  tiers : ∀ x∈taken,x.transmits≤transmits
  passed : ∀ y∈g.queue.tq,y.transmits<transmits → g.free call < k.size y.b
  fair : ∀ x∈taken,∀ y∈g.queue.tq,y.transmits<x.transmits → k.size x.b<k.size y.b

section Loop
variable {k : Broadcast B} {call : Call} {t taken : List (Limited B)} {transmits : Nat}
  {g : Gather B}

theorem pick_some {free : Int} {tq : List (Limited B)} {keep : Limited B}
    (h : pick k transmits free tq=some keep) :
    keep∈tq ∧ keep.transmits=transmits ∧ (k.size keep.b : Int)≤free := by
  have test := List.find?_some h
  simp only [Bool.and_eq_true,decide_eq_true_eq] at test
  exact ⟨List.mem_of_find?_eq_some h,test.1.1,test.2⟩

theorem pick_none {free : Int} {tq : List (Limited B)} (h : pick k transmits free tq=none)
    {y : Limited B} (hy : y∈tq) (length : y.msgLen=k.size y.b) (tier : y.transmits=transmits) :
    free < k.size y.b := by
  have test := List.find?_eq_none.mp h y hy
  simp only [Bool.and_eq_true,decide_eq_true_eq,length,tier,true_and,and_self,not_le] at test
  exact test

theorem Gathered.mem (h : Gathered k call t transmits taken g) {y : Limited B}
    (hy : y∈g.queue.tq) : y∈t :=
  h.parts.mem_iff.mpr (List.mem_append_right taken hy)

theorem Gathered.take (h : Gathered k call t transmits taken g) (overhead : 0 ≤ call.overhead)
    {keep : Limited B} (hp : pick k transmits (g.free call) g.queue.tq=some keep) :
    Gathered k call t transmits (taken++[keep]) (g.take k call keep) := by
  obtain ⟨mem,tier,short⟩ := pick_some hp
  have left : (g.take k call keep).queue.tq=others keep g.queue.tq := delete_eq h.sorted keep
  have stays {y : Limited B} (hy : y∈(g.take k call keep).queue.tq) : y∈g.queue.tq := by
    rw [left] at hy
    exact (mem_others.mp hy).1
  have room : g.free call=call.limit-g.bytesUsed-call.overhead := rfl
  have less : (g.take k call keep).free call≤g.free call := by
    show call.limit-(g.bytesUsed+(call.overhead+k.size keep.b))-call.overhead≤_
    rw [room]
    omega
  refine ⟨?_,?_,?_,?_,?_,?_,?_,?_,?_⟩
  · rw [left]
    exact h.sorted.others
  · have split : g.queue.tq.Perm (keep::(g.take k call keep).queue.tq) := perm_delete h.sorted mem
    rw [List.append_assoc,List.singleton_append]
    exact h.parts.trans (split.append_left taken)
  · rw [Gather.take,h.toSend,List.map_append,List.map_singleton]
  · rw [Gather.take,h.reinsert,List.filterMap_append]
    cases again : requeued call keep <;> simp [again]
  · show g.bytesUsed+(call.overhead+k.size keep.b)=packetLen k call (g.toSend++[keep.b])
    rw [packetLen_snoc,h.bytesUsed]
  · intro _
    show g.bytesUsed+(call.overhead+k.size keep.b) ≤ call.limit
    rw [room] at short
    omega
  · intro x hx
    cases List.mem_append.mp hx with
    | inl before => exact h.tiers x before
    | inr new => rw [List.mem_singleton.mp new,tier]
  · intro y hy lower
    exact lt_of_le_of_lt less (h.passed y (stays hy) lower)
  · intro x hx y hy lower
    cases List.mem_append.mp hx with
    | inl before => exact h.fair x before y (stays hy) lower
    | inr new =>
      rw [List.mem_singleton.mp new] at lower ⊢
      have long := h.passed y (stays hy) (tier ▸ lower)
      omega

theorem Gathered.next (h : Gathered k call t transmits taken g)
    (lengths : ∀ x∈t,x.msgLen=k.size x.b)
    (hp : pick k transmits (g.free call) g.queue.tq=none) :
    Gathered k call t (transmits+1) taken g := by
  refine {h with tiers := ?_,passed := ?_}
  · intro x hx
    exact Nat.le_succ_of_le (h.tiers x hx)
  · intro y hy lower
    cases Nat.lt_succ_iff_lt_or_eq.mp lower with
    | inl lower => exact h.passed y hy lower
    | inr tier => exact pick_none hp hy (lengths y (h.mem hy)) tier

/-- The loop ends by itself, and then nothing that is left fits. -/
theorem gather_gathered (overhead : 0 ≤ call.overhead) (lengths : ∀ x∈t,x.msgLen=k.size x.b)
    {maxTr : Nat} (top : ∀ x∈t,x.transmits ≤ maxTr) (rounds : Nat)
    (h : Gathered k call t transmits taken g)
    (enough : maxTr+1-transmits+g.queue.tq.length ≤ rounds) :
    ∃ transmits' taken',Gathered k call t transmits' taken' (gather k call maxTr rounds transmits g) ∧
      ∀ y∈(gather k call maxTr rounds transmits g).queue.tq,
        0<(gather k call maxTr rounds transmits g).free call →
          (gather k call maxTr rounds transmits g).free call < k.size y.b := by
  induction rounds generalizing transmits taken g with
  | zero =>
    refine ⟨transmits,taken,h,?_⟩
    intro y hy _
    have bound := top y (h.mem hy)
    exact h.passed y hy (by omega)
  | succ rounds ih =>
    rw [gather]
    split_ifs with done full
    · refine ⟨transmits,taken,h,?_⟩
      intro y hy _
      exact h.passed y hy (lt_of_le_of_lt (top y (h.mem hy)) done)
    · exact ⟨transmits,taken,h,fun y _ room => absurd room (not_lt_of_ge full)⟩
    · cases hp : pick k transmits (g.free call) g.queue.tq with
      | none => exact ih (h.next lengths hp) (by omega)
      | some keep =>
        have split := perm_delete h.sorted (pick_some hp).1
        have shorter : g.queue.tq.length=(g.take k call keep).queue.tq.length+1 := split.length_eq
        exact ih (h.take overhead hp) (by omega)

end Loop

theorem foldl_addItem_tq (xs : List (Limited B)) (q : Queue B) :
    (xs.foldl Queue.addItem q).tq=xs.foldl (fun t x => replaceOrInsert x t) q.tq := by
  induction xs generalizing q with
  | nil => rfl
  | cons x xs ih => exact ih (q.addItem x)

theorem sorted_foldl_replaceOrInsert (xs t : List (Limited B)) (h : Sorted t) :
    Sorted (xs.foldl (fun t x => replaceOrInsert x t) t) := by
  induction xs generalizing t with
  | nil => exact h
  | cons x xs ih => exact ih _ (h.replaceOrInsert x)

theorem foldl_replaceOrInsert_subperm (xs t : List (Limited B)) (h : Sorted t) :
    (xs.foldl (fun t x => replaceOrInsert x t) t).Subperm (xs++t) := by
  induction xs generalizing t with
  | nil => exact List.Subperm.refl _
  | cons x xs ih =>
    have rest := ih (replaceOrInsert x t) (h.replaceOrInsert x)
    have here : (xs++replaceOrInsert x t).Subperm (xs++x::t) := by
      rw [List.subperm_append_left,(replaceOrInsert_perm h x).subperm_right]
      exact (List.filter_sublist.cons_cons x).subperm
    exact (rest.trans here).trans List.perm_middle.subperm

/-- What is in the tree stays, unless an item that is put in has its place. -/
theorem mem_foldl_replaceOrInsert (xs t : List (Limited B)) (h : Sorted t) {y : Limited B}
    (hy : y∈t) : y∈xs.foldl (fun t x => replaceOrInsert x t) t ∨ ∃ x∈xs,x.place=y.place := by
  induction xs generalizing t with
  | nil => exact Or.inl hy
  | cons x xs ih =>
    by_cases same : y.place=x.place
    · exact Or.inr ⟨x,List.mem_cons_self,same.symm⟩
    · have stays := (mem_replaceOrInsert h).mpr (Or.inr ⟨hy,same⟩)
      refine (ih (replaceOrInsert x t) (h.replaceOrInsert x) stays).imp_right ?_
      rintro ⟨z,hz,there⟩
      exact ⟨z,List.mem_cons_of_mem x hz,there⟩

/-- What one call of GetBroadcasts takes from the queue and what it leaves. -/
structure Packet (k : Broadcast B) (call : Call) (q : Queue B) (taken left : List (Limited B)) :
    Prop where
  parts : q.tq.Perm (taken++left)
  sorted : Sorted left
  sent : (q.getBroadcasts k call).2=taken.map Limited.b
  queue : (q.getBroadcasts k call).1.tq=
    (taken.filterMap (requeued call)).foldl (fun t x => replaceOrInsert x t) left
  fits : taken≠[] → packetLen k call (taken.map Limited.b) ≤ call.limit
  full : ∀ y∈left,0<call.limit-packetLen k call (taken.map Limited.b)-call.overhead →
    call.limit-packetLen k call (taken.map Limited.b)-call.overhead < k.size y.b
  fair : ∀ x∈taken,∀ y∈left,y.transmits<x.transmits → k.size x.b<k.size y.b

theorem Sorted.transmits_le_last {t : List (Limited B)} (h : Sorted t) {last : Limited B}
    (hl : t.getLast?=some last) {x : Limited B} (hx : x∈t) : x.transmits≤last.transmits := by
  obtain ⟨front,rfl⟩ := List.getLast?_eq_some_iff.mp hl
  cases List.mem_append.mp hx with
  | inl before =>
    exact Limited.transmits_le ((List.pairwise_append.mp h).2.2 x before last List.mem_cons_self)
  | inr last' => rw [List.mem_singleton.mp last']

theorem Queue.Ok.packet {k : Broadcast B} {q : Queue B} (h : q.Ok k) (call : Call)
    (overhead : 0 ≤ call.overhead) : ∃ taken left,Packet k call q taken left := by
  cases hf : q.tq with
  | nil =>
    have result : q.getBroadcasts k call=(q,[]) := by rw [Queue.getBroadcasts,hf]; rfl
    refine ⟨[],[],?_⟩
    constructor <;> simp [result,hf,Sorted]
  | cons first rest =>
    have head : q.tq.head?=some first := by rw [hf]; rfl
    obtain ⟨last,hl⟩ : ∃ last,q.tq.getLast?=some last := by
      rw [hf]
      exact ⟨_,List.getLast?_eq_some_getLast (List.cons_ne_nil _ _)⟩
    have start : Gathered k call q.tq first.transmits [] {queue := q} := by
      refine ⟨h.sorted,List.Perm.refl _,rfl,rfl,rfl,fun ne => absurd rfl ne,nofun,?_,nofun⟩
      intro y hy lower
      rw [hf] at hy
      have sorted := h.sorted
      rw [hf] at sorted
      cases List.mem_cons.mp hy with
      | inl same => exact absurd lower (same ▸ Nat.lt_irrefl _)
      | inr later =>
        have higher := Limited.transmits_le ((List.pairwise_cons.mp sorted).1 y later)
        omega
    obtain ⟨transmits,taken,packed,full⟩ := gather_gathered overhead h.lengths
      (fun x hx => h.sorted.transmits_le_last hl hx)
      (last.transmits+1-first.transmits+q.tq.length) start (Nat.le_refl _)
    have result : q.getBroadcasts k call=
        ((gather k call last.transmits (last.transmits+1-first.transmits+q.tq.length)
            first.transmits {queue := q}).reinsert.foldl Queue.addItem
          (gather k call last.transmits (last.transmits+1-first.transmits+q.tq.length)
            first.transmits {queue := q}).queue,
        (gather k call last.transmits (last.transmits+1-first.transmits+q.tq.length)
          first.transmits {queue := q}).toSend) := by
      rw [Queue.getBroadcasts,head,hl]
    refine ⟨taken,_,packed.parts,packed.sorted,?_,?_,?_,?_,packed.fair⟩
    · rw [result,packed.toSend]
    · rw [result,foldl_addItem_tq,packed.reinsert]
    · intro some'
      rw [←packed.toSend,←packed.bytesUsed]
      exact packed.fits some'
    · rw [←packed.toSend,←packed.bytesUsed]
      exact full

section Packet
variable {k : Broadcast B} {call : Call} {q : Queue B} {taken left : List (Limited B)}

/-- The queue after the call has nothing but what was left and what goes to its next tier. -/
theorem Packet.subperm (h : Packet k call q taken left) :
    (q.getBroadcasts k call).1.tq.Subperm (taken.filterMap (requeued call)++left) := by
  rw [h.queue]
  exact foldl_replaceOrInsert_subperm _ _ h.sorted

theorem requeued_some {x y : Limited B} (h : requeued call x=some y) :
    x.transmits+1 < call.transmitLimit ∧ y={x with transmits := x.transmits+1} := by
  rw [requeued] at h
  split_ifs at h with done
  cases h
  exact ⟨by omega,rfl⟩

theorem requeued_messages (call : Call) (taken : List (Limited B)) :
    ((taken.filterMap (requeued call)).map Limited.b).Sublist (taken.map Limited.b) := by
  induction taken with
  | nil => exact List.Sublist.refl _
  | cons x taken ih =>
    rw [List.map_cons]
    cases again : requeued call x with
    | none =>
      rw [List.filterMap_cons_none again]
      exact ih.cons x.b
    | some y =>
      rw [List.filterMap_cons_some again,List.map_cons,(requeued_some again).2]
      exact ih.cons_cons x.b

/-- No message comes into the queue by a call. -/
theorem Packet.messages (h : Packet k call q taken left) :
    ((q.getBroadcasts k call).1.tq.map Limited.b).Subperm (q.tq.map Limited.b) := by
  obtain ⟨kept,perm,sub⟩ := h.subperm
  have after : ((q.getBroadcasts k call).1.tq.map Limited.b).Subperm
      ((taken.filterMap (requeued call)).map Limited.b++left.map Limited.b) := by
    rw [←List.map_append]
    exact ⟨kept.map Limited.b,perm.map Limited.b,sub.map Limited.b⟩
  have before := h.parts.map Limited.b
  rw [List.map_append] at before
  have moved := (requeued_messages call taken).append_right (left.map Limited.b)
  exact after.trans (moved.subperm.trans before.symm.subperm)

/-- Every message of a packet was queued. -/
theorem Packet.sent_subperm (h : Packet k call q taken left) :
    (q.getBroadcasts k call).2.Subperm (q.tq.map Limited.b) := by
  rw [h.sent]
  have before := h.parts.map Limited.b
  rw [List.map_append] at before
  exact (List.sublist_append_left _ _).subperm.trans before.symm.subperm

theorem Packet.ok (h : Packet k call q taken left) (ok : q.Ok k) :
    (q.getBroadcasts k call).1.Ok k := by
  refine ⟨?_,?_⟩
  · rw [h.queue]
    exact sorted_foldl_replaceOrInsert _ _ h.sorted
  · intro y hy
    have old {x : Limited B} (hx : x∈taken++left) : x.msgLen=k.size x.b :=
      ok.lengths x (h.parts.mem_iff.mpr hx)
    cases List.mem_append.mp (h.subperm.subset hy) with
    | inl again =>
      obtain ⟨x,hx,requeue⟩ := List.mem_filterMap.mp again
      have same : x.msgLen=k.size x.b := old (List.mem_append_left left hx)
      rw [(requeued_some requeue).2]
      exact same
    | inr stays => exact old (List.mem_append_right taken stays)

/-- How often the messages that pass a test may still be sent. -/
def credit (T : Nat) (p : B → Bool) (t : List (Limited B)) : Nat :=
  (t.map (fun x => if p x.b then T-x.transmits else 0)).sum

theorem credit_cons (T : Nat) (p : B → Bool) (x : Limited B) (t : List (Limited B)) :
    credit T p (x::t)=(if p x.b then T-x.transmits else 0)+credit T p t := by
  rw [credit,List.map_cons,List.sum_cons,credit]

theorem credit_append (T : Nat) (p : B → Bool) (t u : List (Limited B)) :
    credit T p (t++u)=credit T p t+credit T p u := by
  rw [credit,List.map_append,List.sum_append,credit,credit]

theorem credit_subperm (T : Nat) (p : B → Bool) {t u : List (Limited B)} (h : t.Subperm u) :
    credit T p t ≤ credit T p u := by
  obtain ⟨m,perm,sub⟩ := h
  have same : credit T p m=credit T p t := (perm.map _).sum_eq
  rw [←same]
  exact (sub.map _).sum_le_sum (fun _ _ => Nat.zero_le _)

theorem credit_queueBroadcast (T : Nat) (p : B → Bool) (h : Sorted q.tq) (b : B) :
    credit T p (q.queueBroadcast k b).tq≤(if p b then T else 0)+credit T p q.tq := by
  have fewer := credit_subperm T p (queueBroadcast_subperm k h b)
  have kept := credit_subperm T p
    (List.filter_sublist (p := fun cur => k.invalidates b cur.b=false) (l := q.tq)).subperm
  rw [credit_cons] at fewer
  exact fewer.trans (Nat.add_le_add_left kept _)

/-- A message that is sent uses up one unit of its credit, whether it is queued again or not. -/
theorem credit_taken {T : Nat} (call : Call) (p : B → Bool) (taken : List (Limited B))
    (few : ∀ x∈taken,x.transmits<T) :
    credit T p (taken.filterMap (requeued call))+(taken.map Limited.b).countP p≤
      credit T p taken := by
  induction taken with
  | nil => exact Nat.le_refl _
  | cons x taken ih =>
    have rest := ih (fun y hy => few y (List.mem_cons_of_mem x hy))
    have here := few x List.mem_cons_self
    rw [List.map_cons,List.countP_cons,credit_cons]
    cases again : requeued call x with
    | none =>
      rw [List.filterMap_cons_none again]
      split_ifs <;> omega
    | some y =>
      rw [List.filterMap_cons_some again,(requeued_some again).2]
      have moved : credit T p ({x with transmits := x.transmits+1}::
            taken.filterMap (requeued call))=
          (if p x.b then T-(x.transmits+1) else 0)+
            credit T p (taken.filterMap (requeued call)) := credit_cons T p _ _
      rw [moved]
      split_ifs <;> omega

theorem Packet.credit {T : Nat} (h : Packet k call q taken left) (p : B → Bool)
    (few : ∀ x∈q.tq,x.transmits<T) :
    credit T p (q.getBroadcasts k call).1.tq+(q.getBroadcasts k call).2.countP p≤
      credit T p q.tq := by
  have used := credit_taken call p taken
    (fun x hx => few x (h.parts.mem_iff.mpr (List.mem_append_left left hx)))
  have after := credit_subperm T p h.subperm
  have before := credit_subperm T p h.parts.symm.subperm
  rw [credit_append] at after before
  rw [h.sent]
  omega

theorem Packet.few {T : Nat} (h : Packet k call q taken left) (most : call.transmitLimit≤T)
    (few : ∀ x∈q.tq,x.transmits<T) : ∀ x∈(q.getBroadcasts k call).1.tq,x.transmits<T := by
  intro y hy
  cases List.mem_append.mp (h.subperm.subset hy) with
  | inl again =>
    obtain ⟨x,-,requeue⟩ := List.mem_filterMap.mp again
    obtain ⟨below,rfl⟩ := requeued_some requeue
    show x.transmits+1 < T
    omega
  | inr stays => exact few y (h.parts.mem_iff.mpr (List.mem_append_right taken stays))

end Packet

end Transmit
end StCache
