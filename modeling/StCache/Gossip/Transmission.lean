import StCache.Gossip.Sender
import StCache.Store.Acceptance

namespace StCache

/-- The store of a node and its sender. -/
structure Transmitter where
  gcm : GossipCacheManager := .new
  sender : Sender := {}

inductive TransmitterEvent where
  | set (m : MyBroadcastMessage)
  | notify (key : GoString) (u : Notify)
  | delNodeAddr (key node : GoString)
  | delKey (key : GoString)
  | getBroadcasts (call : Transmit.Call)
  deriving DecidableEq

/-- The event deletes nothing from the store. -/
def TransmitterEvent.Keeps : TransmitterEvent → Prop
  | .delNodeAddr _ _ => False
  | .delKey _ => False
  | _ => True

instance : DecidablePred TransmitterEvent.Keeps
  | .set _ | .notify _ _ | .getBroadcasts _ => isTrue trivial
  | .delNodeAddr _ _ | .delKey _ => isFalse id

/-- A GetBroadcasts counts an overhead for each message. -/
def TransmitterEvent.Sized : TransmitterEvent → Prop
  | .getBroadcasts call => 0 ≤ call.overhead
  | _ => True

instance : DecidablePred TransmitterEvent.Sized
  | .getBroadcasts call => inferInstanceAs (Decidable (0 ≤ call.overhead))
  | .set _ | .notify _ _ | .delNodeAddr _ _ | .delKey _ => isTrue trivial

/-- A GetBroadcasts allows for at most T transmissions of a message. -/
def TransmitterEvent.Within (T : Nat) : TransmitterEvent → Prop
  | .getBroadcasts call => call.transmitLimit≤T
  | _ => True

instance (T : Nat) : DecidablePred (TransmitterEvent.Within T)
  | .getBroadcasts call => inferInstanceAs (Decidable (call.transmitLimit≤T))
  | .set _ | .notify _ _ | .delNodeAddr _ _ | .delKey _ => isTrue trivial

namespace Transmitter

def step (s : Transmitter) : TransmitterEvent → Option Transmitter
  | .set m => (s.gcm.set m).map (fun r => ⟨r.1,s.sender.setBroadcasts r.2⟩)
  | .notify key u => some {s with gcm := s.gcm.notify key u}
  | .delNodeAddr key node => some {s with gcm := s.gcm.delNodeAddr key node}
  | .delKey key => some {s with gcm := s.gcm.delKey key}
  | .getBroadcasts call => some {s with sender := s.sender.getBroadcasts call}

theorem ok_step {s t : Transmitter} {e : TransmitterEvent} (h : s.sender.queue.Ok asBroadcast)
    (sized : e.Sized) (hs : s.step e=some t) : t.sender.queue.Ok asBroadcast := by
  cases e with
  | set m =>
    obtain ⟨⟨d,bs⟩,-,rfl⟩ := Option.map_eq_some_iff.mp hs
    exact s.sender.setBroadcasts_ok h bs
  | notify | delNodeAddr | delKey =>
    cases hs
    exact h
  | getBroadcasts call =>
    cases hs
    obtain ⟨taken,left,packet⟩ := h.packet call sized
    exact packet.ok h

theorem ok_run {es : List TransmitterEvent} {s : Transmitter} (sized : ∀ e∈es,e.Sized)
    (hr : run step {} es=some s) : s.sender.queue.Ok asBroadcast :=
  run_invariant step (fun _ e => e.Sized) (fun s => s.sender.queue.Ok asBroadcast)
    (fun _ _ _ h ok hs => ok_step h ok hs) es {} s (Transmit.Queue.ok_empty asBroadcast)
    (along_of_forall step _ _ es sized) hr

theorem paid_step {T : Nat} (positive : 0<T) {s t : Transmitter} {e : TransmitterEvent}
    (h : s.sender.Paid T) (ok : e.Sized ∧ e.Within T) (hs : s.step e=some t) :
    t.sender.Paid T := by
  cases e with
  | set m =>
    obtain ⟨⟨d,bs⟩,hset,rfl⟩ := Option.map_eq_some_iff.mp hs
    exact h.setBroadcasts positive bs
  | notify | delNodeAddr | delKey =>
    cases hs
    exact h
  | getBroadcasts call =>
    cases hs
    exact h.getBroadcasts ok.1 ok.2

theorem paid_run {T : Nat} (positive : 0<T) {es : List TransmitterEvent} {s : Transmitter}
    (sized : ∀ e∈es,e.Sized) (within : ∀ e∈es,e.Within T) (hr : run step {} es=some s) :
    s.sender.Paid T :=
  run_invariant step (fun _ e => e.Sized ∧ e.Within T) (fun s => s.sender.Paid T)
    (fun _ _ _ h ok hs => paid_step positive h ok hs) es {} s (Sender.paid_new T)
    (along_of_forall step _ _ es (fun e he => ⟨sized e he,within e he⟩)) hr

/-- What was queued without deletions: of each reporter and key ever newer reports, none newer
than the stored one. -/
structure Increasing (s : Transmitter) : Prop where
  stored : ∀ m∈s.sender.queued,s.gcm.HasReport m.key m.node m.timeStamp
  newer : s.sender.queued.Pairwise (fun x y => x.subject=y.subject → x.timeStamp < y.timeStamp)

theorem Increasing.set {s : Transmitter} (h : s.Increasing) {m : MyBroadcastMessage}
    {d : GossipCacheManager} {bs : List MyBroadcastMessage} (hset : s.gcm.set m=some (d,bs)) :
    Increasing ⟨d,s.sender.setBroadcasts bs⟩ := by
  have only := s.gcm.broadcast_of_set d m bs hset
  refine ⟨?_,?_⟩
  · intro x hx
    rw [Sender.queued_setBroadcasts] at hx
    cases List.mem_append.mp hx with
    | inl old => exact (h.stored x old).set hset
    | inr new =>
      rw [only x new]
      exact GossipCacheManager.hasReport_set hset
  · rw [Sender.queued_setBroadcasts,List.pairwise_append]
    refine ⟨h.newer,?_,?_⟩
    · rcases s.gcm.set_cases d m bs hset with ⟨-,hb,-⟩|⟨hb,-⟩ <;> simp [hb]
    · intro x hx y hy same
      obtain ⟨node,key⟩ := Prod.mk.inj same
      have before := h.stored x hx
      have new := only y hy
      rw [key,node,new] at before
      rw [new]
      exact before.lt_of_set hset (List.ne_nil_of_mem hy)

theorem Increasing.step {s t : Transmitter} (h : s.Increasing) {e : TransmitterEvent}
    (keeps : e.Keeps) (hs : s.step e=some t) : t.Increasing := by
  cases e with
  | set m =>
    obtain ⟨⟨d,bs⟩,hset,rfl⟩ := Option.map_eq_some_iff.mp hs
    exact h.set hset
  | notify key u =>
    cases hs
    exact ⟨fun m hm => (h.stored m hm).notify key u,h.newer⟩
  | delNodeAddr | delKey => exact keeps.elim
  | getBroadcasts call =>
    cases hs
    exact ⟨h.stored,h.newer⟩

theorem Increasing.nodup {s : Transmitter} (h : s.Increasing) : s.sender.queued.Nodup := by
  refine h.newer.imp ?_
  intro x y newer same
  exact absurd (newer (congrArg _ same)) (same ▸ Int64.lt_irrefl)

theorem increasing_run {es : List TransmitterEvent} {s : Transmitter} (keeps : ∀ e∈es,e.Keeps)
    (hr : run step {} es=some s) : s.Increasing :=
  run_invariant step (fun _ e => e.Keeps) Increasing (fun _ _ _ h ok hs => h.step ok hs) es {} s
    ⟨nofun,List.Pairwise.nil⟩ (along_of_forall step _ _ es keeps) hr

/-- Each report is in at most T packets for each time it was accepted; without deletions it is
accepted once. T is a bound on the transmit limits of the calls. -/
theorem report_transmissions (T : Nat) (positive : 0<T) (es : List TransmitterEvent)
    (sized : ∀ e∈es,e.Sized) (within : ∀ e∈es,e.Within T) (s : Transmitter)
    (hr : run step {} es=some s) (m : MyBroadcastMessage) :
    s.sender.packets.flatten.count m≤T*s.sender.queued.count m ∧
      ((∀ e∈es,e.Keeps) → s.sender.packets.flatten.count m≤T) := by
  have most := (paid_run positive sized within hr).sent_le (· == m)
  refine ⟨most,?_⟩
  intro keeps
  have once := List.nodup_iff_count_le_one.mp (increasing_run keeps hr).nodup m
  calc s.sender.packets.flatten.count m≤T*s.sender.queued.count m := most
    _ ≤ T*1 := Nat.mul_le_mul_left T once
    _ = T := Nat.mul_one T

/-- Two reports of one pair; the newer one goes out in two calls and is not queued a third time. -/
def retransmitted : List TransmitterEvent :=
  [.set ⟨7,[1],[97],[],[85]⟩,.getBroadcasts ⟨2,100,2⟩,.set ⟨9,[1],[97],[],[68]⟩,
    .getBroadcasts ⟨2,100,2⟩,.getBroadcasts ⟨2,100,2⟩,.getBroadcasts ⟨2,100,2⟩]

theorem report_transmissions_twice :
    ∃ s,run step {} retransmitted=some s ∧
      s.sender.packets=[[⟨7,[1],[97],[],[85]⟩],[⟨9,[1],[97],[],[68]⟩],[⟨9,[1],[97],[],[68]⟩],[]] ∧
      s.sender.packets.flatten.count ⟨9,[1],[97],[],[68]⟩≤2 := by
  have ends : (run step {} retransmitted).map (fun s => s.sender.packets)=
      some [[⟨7,[1],[97],[],[85]⟩],[⟨9,[1],[97],[],[68]⟩],[⟨9,[1],[97],[],[68]⟩],[]] := by
    decide +kernel
  obtain ⟨s,hs,packets⟩ := Option.map_eq_some_iff.mp ends
  refine ⟨s,hs,packets,?_⟩
  exact (report_transmissions 2 (by decide) retransmitted (by decide) (by decide) s hs _).2 (by decide)

/-- The packet of a call never exceeds its limit; no report that stays behind would have fitted in
as well; and one that was sent more often goes first only if it is shorter. -/
theorem packets_full (es : List TransmitterEvent) (sized : ∀ e∈es,e.Sized)
    (s : Transmitter) (hr : run step {} es=some s) (call : Transmit.Call)
    (overhead : 0 ≤ call.overhead) :
    ∃ taken left,s.sender.queue.tq.Perm (taken++left) ∧
      (s.sender.queue.getBroadcasts asBroadcast call).2=taken.map Transmit.Limited.b ∧
      (taken≠[] → Transmit.packetLen asBroadcast call (taken.map Transmit.Limited.b) ≤ call.limit) ∧
      (∀ y∈left,call.limit < Transmit.packetLen asBroadcast call (taken.map Transmit.Limited.b)+
        (call.overhead+y.b.message.length)) ∧
      ∀ x∈taken,∀ y∈left,y.transmits<x.transmits → x.b.message.length<y.b.message.length := by
  have ok := ok_run sized hr
  obtain ⟨taken,left,packet⟩ := ok.packet call overhead
  refine ⟨taken,left,packet.parts,packet.sent,packet.fits,?_,packet.fair⟩
  intro y hy
  have full := packet.full y hy
  have long := message_pos y.b
  have size : asBroadcast.size y.b=y.b.message.length := rfl
  rw [size] at full
  omega

/-- Two reports are queued and the packet has room for one. -/
theorem packets_full_one :
    ∃ s taken left,run step {} [.set ⟨7,[1],[97],[],[85]⟩,.set ⟨7,[1],[98],[],[85]⟩]=some s ∧
      s.sender.queue.tq.Perm (taken++left) ∧
      (s.sender.queue.getBroadcasts asBroadcast ⟨2,100,4⟩).2=taken.map Transmit.Limited.b ∧
      ∀ y∈left,100 < Transmit.packetLen asBroadcast ⟨2,100,4⟩ (taken.map Transmit.Limited.b)+
        (2+(y.b.message.length : Int)) := by
  have ends : (run step {} [.set ⟨7,[1],[97],[],[85]⟩,.set ⟨7,[1],[98],[],[85]⟩]).isSome=true := by
    decide +kernel
  obtain ⟨s,hs⟩ := Option.isSome_iff_exists.mp ends
  obtain ⟨taken,left,parts,sent,-,full,-⟩ :=
    packets_full _ (by decide) s hs ⟨2,100,4⟩ (by decide)
  exact ⟨s,taken,left,hs,parts,sent,full⟩

/-- The report fits into a packet of its own. -/
def Fits (call : Transmit.Call) (m : MyBroadcastMessage) : Prop :=
  call.overhead+m.message.length ≤ call.limit

/-- As long as a report is queued that fits into a packet, the packet is not empty. -/
theorem sends_fitting {s : Sender} (ok : s.queue.Ok asBroadcast) {call : Transmit.Call}
    (overhead : 0 ≤ call.overhead) {x : Transmit.Limited MyBroadcastMessage} (hx : x∈s.queue.tq)
    (fits : Fits call x.b) : (s.queue.getBroadcasts asBroadcast call).2≠[] := by
  obtain ⟨taken,left,packet⟩ := ok.packet call overhead
  intro none
  have empty : taken=[] := by
    have sent := packet.sent
    rw [none] at sent
    exact List.map_eq_nil_iff.mp sent.symm
  have stays : x∈left := by
    have mem := packet.parts.mem_iff.mp hx
    rwa [empty,List.nil_append] at mem
  have full := packet.full x stays
  have long := message_pos x.b
  have size : asBroadcast.size x.b=x.b.message.length := rfl
  rw [empty,List.map_nil,Transmit.packetLen,size] at full
  rw [Fits] at fits
  omega

/-- What is queued after a call was queued before. -/
theorem mem_getBroadcasts {s : Sender} (ok : s.queue.Ok asBroadcast) {call : Transmit.Call}
    (overhead : 0 ≤ call.overhead) {x : Transmit.Limited MyBroadcastMessage}
    (hx : x∈(s.getBroadcasts call).queue.tq) : ∃ y∈s.queue.tq,y.b=x.b := by
  obtain ⟨taken,left,packet⟩ := ok.packet call overhead
  have member := packet.messages.subset (List.mem_map.mpr ⟨x,hx,rfl⟩)
  obtain ⟨y,hy,same⟩ := List.mem_map.mp member
  exact ⟨y,hy,same⟩

theorem getBroadcasts_ok {s : Sender} (ok : s.queue.Ok asBroadcast) {call : Transmit.Call}
    (overhead : 0 ≤ call.overhead) : (s.getBroadcasts call).queue.Ok asBroadcast := by
  obtain ⟨taken,left,packet⟩ := ok.packet call overhead
  exact packet.ok ok

theorem drained_stays {call : Transmit.Call} (overhead : 0 ≤ call.overhead) (n : Nat) (s : Sender)
    (ok : s.queue.Ok asBroadcast) (none : ∀ x∈s.queue.tq,¬Fits call x.b) :
    ∀ x∈((fun s => Sender.getBroadcasts s call)^[n] s).queue.tq,¬Fits call x.b := by
  induction n generalizing s with
  | zero => exact none
  | succ n ih =>
    refine ih (s.getBroadcasts call) (getBroadcasts_ok ok overhead) ?_
    intro x hx
    obtain ⟨y,hy,same⟩ := mem_getBroadcasts ok overhead hx
    exact same ▸ none y hy

/-- Every call uses up credit while something fits. -/
theorem drained {T : Nat} {call : Transmit.Call} (overhead : 0 ≤ call.overhead)
    (most : call.transmitLimit≤T) (n : Nat) (s : Sender) (h : s.Paid T)
    (credit : Transmit.credit T (fun _ => true) s.queue.tq≤n) :
    ∀ x∈((fun s => Sender.getBroadcasts s call)^[n] s).queue.tq,¬Fits call x.b := by
  induction n generalizing s with
  | zero =>
    intro x hx _
    change x∈s.queue.tq at hx
    have here := h.few x hx
    have some' := Transmit.credit_subperm T (fun _ => true) (List.singleton_subperm_iff.mpr hx)
    rw [Transmit.credit_cons,if_pos rfl] at some'
    omega
  | succ n ih =>
    by_cases fitting : ∃ x∈s.queue.tq,Fits call x.b
    · obtain ⟨x,hx,fits⟩ := fitting
      obtain ⟨taken,left,packet⟩ := h.ok.packet call overhead
      have used := packet.credit (fun _ => true) h.few
      have sent := List.length_pos_iff.mpr (sends_fitting h.ok overhead hx fits)
      rw [List.countP_true] at used
      refine ih (s.getBroadcasts call) (h.getBroadcasts overhead most) ?_
      show Transmit.credit T (fun _ => true) (s.queue.getBroadcasts asBroadcast call).1.tq≤n
      omega
    · have none : ∀ x∈s.queue.tq,¬Fits call x.b := fun x hx fits => fitting ⟨x,hx,fits⟩
      exact drained_stays overhead (n+1) s h.ok none

/-- If nothing new is queued, the queue drains: after T calls for each queued report only those
are left that are too long for a packet. -/
theorem queue_drains (T : Nat) (positive : 0<T) (es : List TransmitterEvent)
    (sized : ∀ e∈es,e.Sized) (within : ∀ e∈es,e.Within T) (s : Transmitter)
    (hr : run step {} es=some s) (call : Transmit.Call) (overhead : 0 ≤ call.overhead)
    (most : call.transmitLimit≤T) (n : Nat) (often : T*s.sender.queue.tq.length≤n) :
    ∀ x∈((fun s => Sender.getBroadcasts s call)^[n] s.sender).queue.tq,
      call.limit < call.overhead+x.b.message.length := by
  have paid := paid_run positive sized within hr
  have bound : Transmit.credit T (fun _ => true) s.sender.queue.tq≤T*s.sender.queue.tq.length := by
    induction s.sender.queue.tq with
    | nil => exact Nat.zero_le _
    | cons x t ih =>
      have split : Transmit.credit T (fun _ => true) (x::t)=
        T-x.transmits+Transmit.credit T (fun _ => true) t := rfl
      rw [split,List.length_cons,Nat.mul_succ]
      omega
  intro x hx
  have none := drained overhead most n s.sender paid (Nat.le_trans bound often) x hx
  rw [Fits] at none
  omega

/-- Of two queued reports one is too long; the other is gone after a few calls. -/
theorem queue_drains_two :
    ∃ s,run step {} [.set ⟨7,[1],[97],[],[85]⟩,.set ⟨7,[1],[98],[98,98,98,98,98],[85]⟩]=some s ∧
      (((fun s => Sender.getBroadcasts s ⟨2,70,4⟩)^[8] s.sender).queue.tq.map
        (fun x => x.b.key))=[[98]] ∧
      ∀ x∈((fun s => Sender.getBroadcasts s ⟨2,70,4⟩)^[8] s.sender).queue.tq,
        70<2+(x.b.message.length : Int) := by
  have ends : (run step {} [.set ⟨7,[1],[97],[],[85]⟩,
      .set ⟨7,[1],[98],[98,98,98,98,98],[85]⟩]).map (fun s => (s.sender.queue.tq.length,
        ((fun s => Sender.getBroadcasts s ⟨2,70,4⟩)^[8] s.sender).queue.tq.map (fun x => x.b.key)))=
      some (2,[[98]]) := by decide +kernel
  obtain ⟨s,hs,facts⟩ := Option.map_eq_some_iff.mp ends
  obtain ⟨two,keys⟩ := Prod.mk.inj facts
  refine ⟨s,hs,keys,?_⟩
  exact queue_drains 4 (by decide) _ (by decide) (by decide) s hs ⟨2,70,4⟩ (by decide) (by decide) 8
    (by rw [two])

/-- The node as the queue sees it that may drop anything. -/
def outgoing (s : Transmitter) : Outgoing := ⟨s.gcm,s.sender.messages⟩

theorem refines_step {s t : Transmitter} (ok : s.sender.queue.Ok asBroadcast) {e : TransmitterEvent}
    (keeps : e.Keeps) (sized : e.Sized) (hs : s.step e=some t) :
    ∃ as,run Outgoing.step s.outgoing as=some t.outgoing := by
  cases e with
  | set m =>
    obtain ⟨⟨d,bs⟩,hset,rfl⟩ := Option.map_eq_some_iff.mp hs
    have first : s.outgoing.step (.set m)=some ⟨d,s.sender.messages.setBroadcasts bs⟩ := by
      show (s.gcm.set m).map _=_
      rw [hset]
      rfl
    rcases s.gcm.set_cases d m bs hset with ⟨-,rfl,-⟩|⟨rfl,-,-⟩
    · refine ⟨[.set m],?_⟩
      rw [run_cons,first]
      rfl
    · -- the report that loses its place to the new one is dropped by a GetBroadcasts
      refine ⟨[.set m,.getBroadcasts (s.sender.queueBroadcast m).messages],?_⟩
      have less := Sender.messages_queueBroadcast ok m
      have second : Outgoing.step ⟨d,s.sender.messages.setBroadcasts [m]⟩
          (.getBroadcasts (s.sender.queueBroadcast m).messages)=
            some ⟨d,(s.sender.queueBroadcast m).messages⟩ := by
        rw [Outgoing.step]
        exact if_pos less
      rw [run_cons,first,Option.bind_some,run_cons,second]
      rfl
  | notify key u =>
    cases hs
    exact ⟨[.notify key u],rfl⟩
  | delNodeAddr | delKey => exact keeps.elim
  | getBroadcasts call =>
    cases hs
    have less := Sender.messages_getBroadcasts ok sized
    refine ⟨[.getBroadcasts (s.sender.getBroadcasts call).messages],?_⟩
    have only : s.outgoing.step (.getBroadcasts (s.sender.getBroadcasts call).messages)=
        some ⟨s.gcm,(s.sender.getBroadcasts call).messages⟩ := by
      rw [Outgoing.step]
      exact if_pos less
    rw [run_cons,only]
    rfl

/-- Refinement: every run without deletions is one of the node whose queue may drop anything. -/
theorem refines_run {es : List TransmitterEvent} (keeps : ∀ e∈es,e.Keeps)
    (sized : ∀ e∈es,e.Sized) {s : Transmitter} (hr : run step {} es=some s) :
    ∃ as,run Outgoing.step {} as=some s.outgoing := by
  have both := run_invariant step (fun _ e => e.Keeps ∧ e.Sized)
    (fun s => s.sender.queue.Ok asBroadcast ∧ ∃ as,run Outgoing.step {} as=some s.outgoing)
    (fun s e t h ok hs => ?_) es {} s ⟨Transmit.Queue.ok_empty asBroadcast,[],rfl⟩
    (along_of_forall step _ _ es (fun e he => ⟨keeps e he,sized e he⟩)) hr
  · exact both.2
  · obtain ⟨inOrder,as,before⟩ := h
    obtain ⟨more,after⟩ := refines_step inOrder ok.1 ok.2 hs
    refine ⟨ok_step inOrder ok.2 hs,as++more,?_⟩
    rw [run_append,before,Option.bind_some,after]

theorem newest_run {es : List TransmitterEvent} (keeps : ∀ e∈es,e.Keeps)
    (sized : ∀ e∈es,e.Sized) {s : Transmitter} (hr : run step {} es=some s) : s.outgoing.Newest := by
  obtain ⟨as,abstract⟩ := refines_run keeps sized hr
  exact run_invariant Outgoing.step (fun _ _ => True) Outgoing.Newest (fun _ _ _ h _ hs => h.step hs)
    as {} s.outgoing ⟨Multiset.nodup_zero,fun m hm => absurd hm (by simp)⟩
    (along_of_forall _ _ _ as (by simp)) abstract

/-- What goes out is current: a packet has at most one report of each reporter and key, and it is
the one that the store has at this moment. -/
theorem packets_newest (es : List TransmitterEvent) (keeps : ∀ e∈es,e.Keeps)
    (sized : ∀ e∈es,e.Sized) (s : Transmitter) (hr : run step {} es=some s) (call : Transmit.Call)
    (overhead : 0 ≤ call.overhead) :
    ((s.sender.queue.getBroadcasts asBroadcast call).2.map MyBroadcastMessage.subject).Nodup ∧
      ∀ m∈(s.sender.queue.getBroadcasts asBroadcast call).2,
        s.gcm.report m.key m.node=some ⟨m.status,m.timeStamp⟩ := by
  have newest := newest_run keeps sized hr
  obtain ⟨taken,left,packet⟩ := (ok_run sized hr).packet call overhead
  have queued := packet.sent_subperm
  refine ⟨?_,?_⟩
  · obtain ⟨sent,perm,sub⟩ := queued
    have single : ((s.sender.queue.tq.map Transmit.Limited.b).map
        MyBroadcastMessage.subject).Nodup := newest.single
    exact (perm.map MyBroadcastMessage.subject).nodup_iff.mp (single.sublist (sub.map _))
  · intro m hm
    exact newest.stored m (queued.subset hm)

/-- A newer report has taken the place of the older one when the packet is made. -/
theorem packets_newest_replaced :
    ∃ s,run step {} [.set ⟨7,[1],[97],[],[85]⟩,.set ⟨9,[1],[97],[],[68]⟩]=some s ∧
      (s.sender.queue.getBroadcasts asBroadcast ⟨2,200,4⟩).2=[⟨9,[1],[97],[],[68]⟩] ∧
      ∀ m∈(s.sender.queue.getBroadcasts asBroadcast ⟨2,200,4⟩).2,
        s.gcm.report m.key m.node=some ⟨m.status,m.timeStamp⟩ := by
  have ends : (run step {} [.set ⟨7,[1],[97],[],[85]⟩,.set ⟨9,[1],[97],[],[68]⟩]).map
      (fun s => (s.sender.queue.getBroadcasts asBroadcast ⟨2,200,4⟩).2)=
        some [⟨9,[1],[97],[],[68]⟩] := by decide +kernel
  obtain ⟨s,hs,packet⟩ := Option.map_eq_some_iff.mp ends
  exact ⟨s,hs,packet,(packets_newest _ (by decide) (by decide) s hs ⟨2,200,4⟩ (by decide)).2⟩

/-- A new report drops from the queue what it makes obsolete, and one thing more: the ids start
again whenever the tree gets empty, so an entry that was never sent may have the id and the length
of the new one, and then it loses its place. -/
theorem set_drops_iff (es : List TransmitterEvent) (sized : ∀ e∈es,e.Sized) (s t : Transmitter)
    (hr : run step {} es=some s) (m : MyBroadcastMessage) (accepted : s.gcm.Accepts m)
    (hs : s.step (.set m)=some t) (x : Transmit.Limited MyBroadcastMessage)
    (hx : x∈s.sender.queue.tq) :
    x∉t.sender.queue.tq ↔ x.b≠m ∧ (m.invalidates x.b=true ∨
      (x.transmits=0 ∧ x.msgLen=m.message.length ∧ x.id=s.sender.queue.nextId)) := by
  obtain ⟨d,hset⟩ := accepted
  have after : t=⟨d,s.sender.setBroadcasts [m]⟩ := by
    rw [step,hset] at hs
    exact (Option.some.inj hs).symm
  have member := Transmit.mem_queueBroadcast asBroadcast (ok_run sized hr).sorted m x
  have place := x.place_eq_iff (s.sender.queue.entry asBroadcast m)
  have obsolete : asBroadcast.invalidates m x.b=m.invalidates x.b := rfl
  have self : m.invalidates m=false := by simp [MyBroadcastMessage.invalidates]
  rw [after]
  show x∉(s.sender.queue.queueBroadcast asBroadcast m).tq ↔ _
  rw [member,obsolete]
  constructor
  · intro gone
    have differs : x.b≠m := by
      intro same
      refine gone ?_
      by_cases there : x.place=(s.sender.queue.entry asBroadcast m).place
      · obtain ⟨transmits,msgLen,id'⟩ := place.mp there
        refine Or.inl ?_
        calc x=⟨x.transmits,x.msgLen,x.id,x.b⟩ := rfl
          _=s.sender.queue.entry asBroadcast m := by rw [transmits,msgLen,id',same]; rfl
      · exact Or.inr ⟨hx,same ▸ self,there⟩
    refine ⟨differs,?_⟩
    cases invalid : m.invalidates x.b with
    | true => exact Or.inl rfl
    | false =>
      refine Or.inr ?_
      by_cases there : x.place=(s.sender.queue.entry asBroadcast m).place
      · exact place.mp there
      · exact absurd (Or.inr ⟨hx,invalid,there⟩) gone
  · rintro ⟨differs,why⟩ stays
    cases stays with
    | inl new =>
      rw [new] at differs
      exact differs rfl
    | inr old =>
      cases why with
      | inl invalid =>
        rw [old.2.1] at invalid
        cases invalid
      | inr there => exact old.2.2 (place.mpr there)

/-- The third report after the queue was empty has the id of the report that emptied it. -/
theorem set_drops_iff_unsent :
    ∃ s t,run step {} [.set ⟨7,[1],[97],[],[85]⟩,.set ⟨9,[1],[97],[],[68]⟩,
        .set ⟨9,[1],[98],[],[68]⟩]=some s ∧
      s.step (.set ⟨9,[1],[99],[],[68]⟩)=some t ∧
      ⟨0,65,2,⟨9,[1],[97],[],[68]⟩⟩∈s.sender.queue.tq ∧
      ⟨0,65,2,⟨9,[1],[97],[],[68]⟩⟩∉t.sender.queue.tq := by
  have ends : (run step {} [.set ⟨7,[1],[97],[],[85]⟩,.set ⟨9,[1],[97],[],[68]⟩,
      .set ⟨9,[1],[98],[],[68]⟩]).bind (fun s => (s.gcm.set ⟨9,[1],[99],[],[68]⟩).map (fun r =>
        (s.sender.queue.tq,s.sender.queue.nextId,r.2)))=
      some ([⟨0,65,2,⟨9,[1],[97],[],[68]⟩⟩,⟨0,65,1,⟨9,[1],[98],[],[68]⟩⟩],2,
        [⟨9,[1],[99],[],[68]⟩]) := by decide +kernel
  obtain ⟨s,hs,facts⟩ := Option.bind_eq_some_iff.mp ends
  obtain ⟨⟨d,bs⟩,hset,facts⟩ := Option.map_eq_some_iff.mp facts
  obtain ⟨tree,next,sent⟩ := Prod.mk.inj facts |>.imp id Prod.mk.inj
  have stepped : s.step (.set ⟨9,[1],[99],[],[68]⟩)=some ⟨d,s.sender.setBroadcasts bs⟩ := by
    rw [step,hset]
    rfl
  have here : ⟨0,65,2,⟨9,[1],[97],[],[68]⟩⟩∈s.sender.queue.tq := by
    rw [tree]
    exact List.mem_cons_self
  have accepted : s.gcm.Accepts ⟨9,[1],[99],[],[68]⟩ := ⟨d,sent ▸ hset⟩
  refine ⟨s,_,hs,stepped,here,?_⟩
  refine (set_drops_iff _ (by decide) s _ hs _ accepted stepped _ here).mpr ⟨by decide,Or.inr ?_⟩
  exact ⟨rfl,by decide +kernel,next.symm⟩

end Transmitter

end StCache
