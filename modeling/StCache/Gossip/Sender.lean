import StCache.Framework.TransmitPacket
import StCache.Gossip.Outgoing
import StCache.Gossip.Wire

namespace StCache

/-- What the queue asks of a report. -/
def asBroadcast : Transmit.Broadcast MyBroadcastMessage :=
  ⟨fun m => m.message.length,MyBroadcastMessage.invalidates⟩

theorem message_pos (m : MyBroadcastMessage) : 0 < m.message.length := by
  rw [MyBroadcastMessage.message,Json.writeObject]
  simp

/-- The queue of a node, what SetBroadcasts was given and what GetBroadcasts has returned. -/
structure Sender where
  queue : Transmit.Queue MyBroadcastMessage := {}
  queued : List MyBroadcastMessage := []
  packets : List (List MyBroadcastMessage) := []
  deriving DecidableEq

namespace Sender

def queueBroadcast (s : Sender) (m : MyBroadcastMessage) : Sender :=
  {s with queue := s.queue.queueBroadcast asBroadcast m,queued := s.queued++[m]}

def setBroadcasts (s : Sender) (broadcasts : List MyBroadcastMessage) : Sender :=
  broadcasts.foldl queueBroadcast s

def getBroadcasts (s : Sender) (call : Transmit.Call) : Sender :=
  {s with queue := (s.queue.getBroadcasts asBroadcast call).1
          packets := s.packets++[(s.queue.getBroadcasts asBroadcast call).2]}

/-- The messages of the queue, without their order. -/
def messages (s : Sender) : TransmitLimitedQueue := (s.queue.tq.map Transmit.Limited.b : List _)

/-- The queue is in order, and what was sent and may still be sent is paid for: each call of
QueueBroadcast pays for T transmissions. -/
structure Paid (T : Nat) (s : Sender) : Prop where
  ok : s.queue.Ok asBroadcast
  few : ∀ x∈s.queue.tq,x.transmits<T
  paid : ∀ p : MyBroadcastMessage → Bool,s.packets.flatten.countP p+
    Transmit.credit T p s.queue.tq≤T*s.queued.countP p

theorem paid_new (T : Nat) : Paid T {} :=
  ⟨Transmit.Queue.ok_empty asBroadcast,nofun,fun _ => Nat.le_refl _⟩

theorem Paid.queueBroadcast {T : Nat} {s : Sender} (h : s.Paid T) (positive : 0<T)
    (m : MyBroadcastMessage) : (s.queueBroadcast m).Paid T := by
  refine ⟨h.ok.queueBroadcast m,?_,?_⟩
  · intro x hx
    cases (Transmit.mem_queueBroadcast asBroadcast h.ok.sorted m x).mp hx with
    | inl new =>
      subst new
      exact positive
    | inr old => exact h.few x old.1
  · intro p
    have before := h.paid p
    have added := Transmit.credit_queueBroadcast (k := asBroadcast) T p h.ok.sorted m
    show s.packets.flatten.countP p+Transmit.credit T p (s.queue.queueBroadcast asBroadcast m).tq≤
      T*(s.queued++[m]).countP p
    rw [List.countP_append,Nat.mul_add,List.countP_singleton]
    split_ifs at added ⊢ <;> omega

theorem Paid.setBroadcasts {T : Nat} {s : Sender} (h : s.Paid T) (positive : 0<T)
    (bs : List MyBroadcastMessage) : (s.setBroadcasts bs).Paid T := by
  induction bs generalizing s with
  | nil => exact h
  | cons m bs ih => exact ih (h.queueBroadcast positive m)

theorem Paid.getBroadcasts {T : Nat} {s : Sender} (h : s.Paid T) {call : Transmit.Call}
    (overhead : 0 ≤ call.overhead) (most : call.transmitLimit≤T) : (s.getBroadcasts call).Paid T := by
  obtain ⟨taken,left,packet⟩ := h.ok.packet call overhead
  refine ⟨packet.ok h.ok,packet.few most h.few,?_⟩
  intro p
  have before := h.paid p
  have used := packet.credit p h.few
  show (s.packets++[(s.queue.getBroadcasts asBroadcast call).2]).flatten.countP p+
    Transmit.credit T p (s.queue.getBroadcasts asBroadcast call).1.tq≤T*s.queued.countP p
  rw [List.flatten_append,List.countP_append,List.flatten_singleton]
  omega

/-- A report is sent at most T times for each time it was queued. -/
theorem Paid.sent_le {T : Nat} {s : Sender} (h : s.Paid T) (p : MyBroadcastMessage → Bool) :
    s.packets.flatten.countP p≤T*s.queued.countP p :=
  Nat.le_trans (Nat.le_add_right _ _) (h.paid p)

theorem setBroadcasts_ok (s : Sender) (h : s.queue.Ok asBroadcast) (bs : List MyBroadcastMessage) :
    (s.setBroadcasts bs).queue.Ok asBroadcast := by
  induction bs generalizing s with
  | nil => exact h
  | cons m bs ih => exact ih (s.queueBroadcast m) (h.queueBroadcast m)

theorem queued_setBroadcasts (s : Sender) (bs : List MyBroadcastMessage) :
    (s.setBroadcasts bs).queued=s.queued++bs := by
  induction bs generalizing s with
  | nil => exact (List.append_nil _).symm
  | cons m bs ih =>
    have rest := ih (s.queueBroadcast m)
    rw [setBroadcasts,List.foldl_cons,←setBroadcasts,rest]
    exact List.append_assoc s.queued [m] bs

theorem packets_setBroadcasts (s : Sender) (bs : List MyBroadcastMessage) :
    (s.setBroadcasts bs).packets=s.packets := by
  induction bs generalizing s with
  | nil => rfl
  | cons m bs ih => exact ih (s.queueBroadcast m)

/-- Up to a report that loses its place, the queue is what the message leaves of it. -/
theorem messages_queueBroadcast {s : Sender} (ok : s.queue.Ok asBroadcast) (m : MyBroadcastMessage) :
    (s.queueBroadcast m).messages ≤ s.messages.queueBroadcast m := by
  obtain ⟨kept,perm,sub⟩ := Transmit.queueBroadcast_subperm asBroadcast ok.sorted m
  have fewer : ((s.queue.queueBroadcast asBroadcast m).tq.map Transmit.Limited.b).Subperm
      (m::(s.queue.tq.map Transmit.Limited.b).filter (fun x => m.invalidates x=false)) := by
    rw [List.filter_map]
    exact ⟨kept.map Transmit.Limited.b,perm.map _,sub.map _⟩
  rw [TransmitLimitedQueue.queueBroadcast,messages,messages,Multiset.filter_coe,Multiset.cons_coe,
    Multiset.coe_le]
  exact fewer

theorem messages_getBroadcasts {s : Sender} (ok : s.queue.Ok asBroadcast) {call : Transmit.Call}
    (overhead : 0 ≤ call.overhead) : (s.getBroadcasts call).messages ≤ s.messages := by
  obtain ⟨taken,left,packet⟩ := ok.packet call overhead
  rw [messages,messages,Multiset.coe_le]
  exact packet.messages

/-- No entry loses its place to the report, unless the report makes it obsolete. -/
def Spares (s : Sender) (m : MyBroadcastMessage) : Prop :=
  ∀ x∈s.queue.tq,x.place=(s.queue.entry asBroadcast m).place →
    m.invalidates x.b=true ∨ x.b=m

instance (s : Sender) (m : MyBroadcastMessage) : Decidable (s.Spares m) :=
  inferInstanceAs (Decidable (∀ x∈_,_))

/-- Every report that was queued was sent, is queued, or is obsolete; and what is not in its first
tier was sent. -/
structure Whole (s : Sender) : Prop where
  ok : s.queue.Ok asBroadcast
  kept : ∀ m∈s.queued,m∈s.packets.flatten ∨ (∃ x∈s.queue.tq,x.b=m) ∨
    ∃ y∈s.queued,y.invalidates m=true
  sent : ∀ x∈s.queue.tq,0<x.transmits → x.b∈s.packets.flatten

theorem Whole.queueBroadcast {s : Sender} (h : s.Whole) {m : MyBroadcastMessage}
    (spares : s.Spares m) : (s.queueBroadcast m).Whole := by
  have member := Transmit.mem_queueBroadcast asBroadcast h.ok.sorted m
  have here : s.queue.entry asBroadcast m∈(s.queueBroadcast m).queue.tq :=
    (member _).mpr (Or.inl rfl)
  have new : m∈(s.queueBroadcast m).queued := List.mem_append_right _ List.mem_cons_self
  refine ⟨h.ok.queueBroadcast m,?_,?_⟩
  · intro x hx
    cases List.mem_append.mp hx with
    | inr last =>
      rw [List.mem_singleton.mp last]
      exact Or.inr (Or.inl ⟨_,here,rfl⟩)
    | inl old =>
      rcases h.kept x old with sent|⟨y,hy,rfl⟩|⟨y,hy,obsolete⟩
      · exact Or.inl sent
      · cases invalid : m.invalidates y.b with
        | true => exact Or.inr (Or.inr ⟨m,new,invalid⟩)
        | false =>
          by_cases there : y.place=(s.queue.entry asBroadcast m).place
          · cases spares y hy there with
            | inl obsolete => exact Or.inr (Or.inr ⟨m,new,obsolete⟩)
            | inr same => exact Or.inr (Or.inl ⟨_,here,same.symm⟩)
          · exact Or.inr (Or.inl ⟨y,(member y).mpr (Or.inr ⟨hy,invalid,there⟩),rfl⟩)
      · exact Or.inr (Or.inr ⟨y,List.mem_append_left _ hy,obsolete⟩)
  · intro x hx positive
    cases (member x).mp hx with
    | inl first =>
      rw [first] at positive
      exact absurd positive (Nat.lt_irrefl 0)
    | inr old => exact h.sent x old.1 positive

theorem Whole.getBroadcasts {s : Sender} (h : s.Whole) {call : Transmit.Call}
    (overhead : 0 ≤ call.overhead) : (s.getBroadcasts call).Whole := by
  obtain ⟨taken,left,packet⟩ := h.ok.packet call overhead
  have before {m : MyBroadcastMessage} (hm : m∈s.packets.flatten) :
      m∈(s.getBroadcasts call).packets.flatten := by
    show m∈(s.packets++[_]).flatten
    rw [List.flatten_append]
    exact List.mem_append_left _ hm
  have now {x : Transmit.Limited MyBroadcastMessage} (hx : x∈taken) :
      x.b∈(s.getBroadcasts call).packets.flatten := by
    show x.b∈(s.packets++[(s.queue.getBroadcasts asBroadcast call).2]).flatten
    rw [List.flatten_append,List.flatten_singleton,packet.sent]
    exact List.mem_append_right _ (List.mem_map.mpr ⟨x,hx,rfl⟩)
  refine ⟨packet.ok h.ok,?_,?_⟩
  · intro m hm
    rcases h.kept m hm with sent|⟨x,hx,rfl⟩|obsolete
    · exact Or.inl (before sent)
    · cases List.mem_append.mp (packet.parts.mem_iff.mp hx) with
      | inl goes => exact Or.inl (now goes)
      | inr stays =>
        -- an entry that a requeued one displaces is in a later tier, so it was sent before
        rcases Transmit.mem_foldl_replaceOrInsert (taken.filterMap (Transmit.requeued call)) left
          packet.sorted stays with there|⟨y,hy,same⟩
        · refine Or.inr (Or.inl ⟨x,?_,rfl⟩)
          show x∈(s.queue.getBroadcasts asBroadcast call).1.tq
          rw [packet.queue]
          exact there
        · obtain ⟨z,-,again⟩ := List.mem_filterMap.mp hy
          have tier : y.transmits=z.transmits+1 := by rw [(Transmit.requeued_some again).2]
          have equal := ((y.place_eq_iff x).mp same).1
          exact Or.inl (before (h.sent x hx (by omega)))
    · exact Or.inr (Or.inr obsolete)
  · intro x hx positive
    cases List.mem_append.mp (packet.subperm.subset hx) with
    | inl again =>
      obtain ⟨y,hy,requeue⟩ := List.mem_filterMap.mp again
      have same : x.b=y.b := by rw [(Transmit.requeued_some requeue).2]
      rw [same]
      exact now hy
    | inr stays =>
      have old := packet.parts.mem_iff.mpr (List.mem_append_right taken stays)
      exact before (h.sent x old positive)

end Sender

end StCache
