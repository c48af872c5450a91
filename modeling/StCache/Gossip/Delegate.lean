import StCache.Framework.JsonValue
import StCache.Framework.Runs
import StCache.Store.GossipCache

namespace StCache

/-- The members of a gossip message on the wire. -/
inductive MessageField where
  | timeStamp
  | node
  | key
  | value
  | status

def messageField (name : GoString) : Option MessageField :=
  let folded := Json.foldName name
  if folded="timestamp".toList then some .timeStamp
  else if folded="node".toList then some .node
  else if folded="key".toList then some .key
  else if folded="value".toList then some .value
  else if folded="status".toList then some .status
  else none

/-- One member of the object. Unknown names are skipped and null leaves a field as it is;
none is a value of the wrong kind or a number that is no int64. -/
def decodeMember (m : MyBroadcastMessage) (p : GoString × Json.Value) : Option MyBroadcastMessage :=
  match messageField p.1,p.2 with
  | none,_ => some m
  | some _,.null => some m
  | some .timeStamp,.number text => (parseInt text).map (fun i => {m with timeStamp := i})
  | some .node,.string s => some {m with node := s}
  | some .key,.string s => some {m with key := s}
  | some .value,.string s => some {m with value := s}
  | some .status,.string s => some {m with status := s}
  | some _,_ => none

def decodeMembers (ps : List (GoString × Json.Value)) : Option MyBroadcastMessage :=
  ps.foldlM decodeMember ⟨0,[],[],[],[]⟩

/-- `json.Unmarshal(data,&msg)` for a pointer msg: null sets the pointer to nil. -/
def decodeValue : Json.Value → Option (Option MyBroadcastMessage)
  | .null => some none
  | .object ps => (decodeMembers ps).map some
  | _ => none

/-- The returned pointer; none is the result (nil,false). -/
def parseMyBroadcastMessage (data : GoString) : Option (Option MyBroadcastMessage) :=
  (Json.parse data).bind decodeValue

structure MyDelegate where
  msgs : List MyBroadcastMessage := []
  deriving DecidableEq

namespace MyDelegate

/-- `*v` is read whenever the parser reports success; none is the panic on a nil pointer. -/
def notifyMsg (d : MyDelegate) (msg : GoString) : Option MyDelegate :=
  match parseMyBroadcastMessage msg with
  | none => some d
  | some none => none
  | some (some v) => some {d with msgs := d.msgs++[v]}

def getMessages (d : MyDelegate) : List MyBroadcastMessage × MyDelegate :=
  (d.msgs,{d with msgs := []})

end MyDelegate

/-- The bytes are a JSON object whose members decode to the message. -/
def DecodesTo (data : GoString) (m : MyBroadcastMessage) : Prop :=
  ∃ ps,Json.Denotes data (.object ps) ∧ decodeMembers ps=some m

/-- Only null and objects decode without an error. -/
theorem decodeValue_some {v : Json.Value} {r : Option MyBroadcastMessage}
    (h : decodeValue v=some r) :
    v=.null ∧ r=none ∨ ∃ ps m,v=.object ps ∧ decodeMembers ps=some m ∧ r=some m := by
  unfold decodeValue at h
  split at h
  · exact Or.inl ⟨rfl,(Option.some.inj h).symm⟩
  · next ps =>
    rw [Option.map_eq_some_iff] at h
    obtain ⟨m,hm,h⟩ := h
    exact Or.inr ⟨ps,m,rfl,hm,h.symm⟩
  · cases h

theorem parseMyBroadcastMessage_iff (data : GoString) (m : MyBroadcastMessage) :
    parseMyBroadcastMessage data=some (some m) ↔ DecodesTo data m := by
  rw [parseMyBroadcastMessage,Option.bind_eq_some_iff]
  constructor
  · intro h
    obtain ⟨v,hv,decoded⟩ := h
    cases decodeValue_some decoded with
    | inl null => cases null.2
    | inr object =>
      obtain ⟨ps,x,shape,hx,same⟩ := object
      rw [shape,Json.parse_iff] at hv
      exact ⟨ps,hv,hx.trans same.symm⟩
  · intro h
    obtain ⟨ps,hv,decoded⟩ := h
    refine ⟨.object ps,(Json.parse_iff data _).mpr hv,?_⟩
    rw [decodeValue,decoded,Option.map_some]

theorem parseMyBroadcastMessage_nil_iff (data : GoString) :
    parseMyBroadcastMessage data=some none ↔ Json.isNull data=true := by
  rw [← Json.parse_null_iff,parseMyBroadcastMessage,Option.bind_eq_some_iff]
  constructor
  · intro h
    obtain ⟨v,hv,decoded⟩ := h
    cases decodeValue_some decoded with
    | inl null => exact null.1 ▸ hv
    | inr object =>
      obtain ⟨ps,x,-,-,same⟩ := object
      cases same
  · intro h
    exact ⟨.null,h,rfl⟩

/-- The delegate, with the batches its callers were handed. -/
structure Inbox where
  delegate : MyDelegate := {}
  handed : List (List MyBroadcastMessage) := []
  deriving DecidableEq

inductive InboxOp where
  | notifyMsg (msg : GoString)
  | getMessages

namespace Inbox

/-- The mutex makes every call one step. -/
def step (s : Inbox) : InboxOp → Option Inbox
  | .notifyMsg msg => (s.delegate.notifyMsg msg).map (fun d => {s with delegate := d})
  | .getMessages =>
    some {delegate := s.delegate.getMessages.2,handed := s.handed++[s.delegate.getMessages.1]}

/-- Every message handed out or still pending, in order. -/
def messages (s : Inbox) : List MyBroadcastMessage := s.handed.flatten++s.delegate.msgs

/-- A delivery returns. It appends the message the bytes decode to, or leaves the list as
it is when they decode to none. -/
def Intact (s : Inbox) : InboxOp → Prop
  | .notifyMsg msg => ∃ d,s.delegate.notifyMsg msg=some d ∧
      ((∃ m,DecodesTo msg m ∧ d.msgs=s.delegate.msgs++[m]) ∨
        (¬∃ m,DecodesTo msg m) ∧ d.msgs=s.delegate.msgs)
  | .getMessages => s.delegate.getMessages.1=s.delegate.msgs ∧ s.delegate.getMessages.2.msgs=[]

/-- The messages the delivered bytes decode to, in the order of arrival. -/
def arrivals (ops : List InboxOp) : List MyBroadcastMessage :=
  ops.flatMap (fun
    | .notifyMsg msg => (parseMyBroadcastMessage msg).join.toList
    | .getMessages => [])

/-- The calls all return, and what was handed out followed by what is pending is what was
there before followed by the arrivals. -/
def HandsOut (s : Inbox) (ops : List InboxOp) : Prop :=
  ∃ t,run step s ops=some t ∧ t.messages=s.messages++arrivals ops

end Inbox

theorem MyDelegate.notifyMsg_panics_iff (d : MyDelegate) (msg : GoString) :
    d.notifyMsg msg=none ↔ Json.isNull msg=true := by
  rw [← parseMyBroadcastMessage_nil_iff,notifyMsg]
  split
  · next h => simp [h]
  · next h => simp [h]
  · next v h => simp [h]

namespace Inbox

theorem intact_of_not_null (s : Inbox) (op : InboxOp)
    (h : ∀ msg,op=.notifyMsg msg → Json.isNull msg=false) : Intact s op := by
  cases op with
  | getMessages => exact ⟨rfl,rfl⟩
  | notifyMsg msg =>
    cases parsed : parseMyBroadcastMessage msg with
    | none =>
      refine ⟨s.delegate,by rw [MyDelegate.notifyMsg,parsed],Or.inr ⟨?_,rfl⟩⟩
      rintro ⟨m,hm⟩
      rw [← parseMyBroadcastMessage_iff,parsed] at hm
      cases hm
    | some v =>
      cases v with
      | none =>
        have null := (parseMyBroadcastMessage_nil_iff msg).mp parsed
        rw [h msg rfl] at null
        cases null
      | some m =>
        exact ⟨_,by rw [MyDelegate.notifyMsg,parsed],
          Or.inl ⟨m,(parseMyBroadcastMessage_iff msg m).mp parsed,rfl⟩⟩

theorem messages_step (s t : Inbox) (op : InboxOp) (h : s.step op=some t) :
    t.messages=s.messages++arrivals [op] := by
  cases op with
  | getMessages =>
    rw [← Option.some.inj h]
    simp [messages,arrivals,MyDelegate.getMessages]
  | notifyMsg msg =>
    rw [step,Option.map_eq_some_iff] at h
    obtain ⟨d,hd,h⟩ := h
    rw [← h]
    unfold MyDelegate.notifyMsg at hd
    split at hd
    · next parsed =>
      rw [← Option.some.inj hd]
      simp [messages,arrivals,parsed]
    · cases hd
    · next v parsed =>
      rw [← Option.some.inj hd]
      simp [messages,arrivals,parsed]

theorem messages_run (s t : Inbox) (ops : List InboxOp) (h : run step s ops=some t) :
    t.messages=s.messages++arrivals ops := by
  induction ops generalizing s with
  | nil =>
    rw [run_nil] at h
    rw [← Option.some.inj h]
    simp [arrivals]
  | cons op ops ih =>
    rw [run_cons,Option.bind_eq_some_iff] at h
    obtain ⟨u,hu,h⟩ := h
    have split : arrivals (op::ops)=arrivals [op]++arrivals ops := by
      simp [arrivals]
    rw [ih u h,messages_step s u op hu,split,List.append_assoc]

theorem run_isSome_iff (s : Inbox) (ops : List InboxOp) :
    (∃ t,run step s ops=some t) ↔ ∀ msg,InboxOp.notifyMsg msg∈ops → Json.isNull msg=false := by
  induction ops generalizing s with
  | nil => simp
  | cons op ops ih =>
    have head : (∃ u,s.step op=some u) ↔ ∀ msg,op=.notifyMsg msg → Json.isNull msg=false := by
      cases op with
      | getMessages => simp [step]
      | notifyMsg msg =>
        have panics := s.delegate.notifyMsg_panics_iff msg
        cases called : s.delegate.notifyMsg msg with
        | none => simp [step,called,panics.mp called]
        | some d =>
          have safe : Json.isNull msg=false := by
            rw [called] at panics
            simpa using panics
          simp [step,called,safe]
    constructor
    · rintro ⟨t,h⟩ msg mem
      rw [run_cons,Option.bind_eq_some_iff] at h
      obtain ⟨u,hu,h⟩ := h
      rw [List.mem_cons] at mem
      cases mem with
      | inl first => exact head.mp ⟨u,hu⟩ msg first.symm
      | inr later => exact (ih u).mp ⟨t,h⟩ msg later
    · intro h
      obtain ⟨u,hu⟩ := head.mpr (fun msg first => h msg (by simp [first]))
      obtain ⟨t,ht⟩ := (ih u).mpr (fun msg mem => h msg (by simp [mem]))
      exact ⟨t,by rw [run_cons,hu,Option.bind_some,ht]⟩

end Inbox

/-- Deliveries and fetches in any order, from any state. -/
theorem inbox_intact_iff (s : Inbox) (ops : List InboxOp) :
    (Along Inbox.step Inbox.Intact s ops ∧ s.HandsOut ops) ↔
      ∀ msg,InboxOp.notifyMsg msg∈ops → Json.isNull msg=false := by
  constructor
  · rintro ⟨-,t,ht,-⟩
    exact (Inbox.run_isSome_iff s ops).mp ⟨t,ht⟩
  · intro h
    constructor
    · have each := along_of_forall Inbox.step
        (fun op => ∀ msg,op=.notifyMsg msg → Json.isNull msg=false) s ops
        (fun op mem msg same => h msg (same ▸ mem))
      exact along_mono _ _ _ (fun u op ok => u.intact_of_not_null op ok) s ops each
    · obtain ⟨t,ht⟩ := (Inbox.run_isSome_iff s ops).mpr h
      exact ⟨t,ht,Inbox.messages_run s t ops ht⟩

/-- Four bytes of valid JSON stop the process. -/
theorem null_packet_panics : Inbox.step {} (.notifyMsg (goStr "null"))=none := by
  decide +kernel

end StCache
