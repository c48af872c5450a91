import StCache.Framework.JsonText
import StCache.Gossip.Delegate
import StCache.Store.Codec

namespace StCache

namespace MyBroadcastMessage

/-- Message: the fields of the struct in their order. -/
def message (m : MyBroadcastMessage) : GoString :=
  Json.writeObject [("timestamp".toList,formatInt m.timeStamp),
    ("node".toList,Json.text (runes m.node)),("key".toList,Json.text (runes m.key)),
    ("value".toList,Json.text (runes m.value)),("status".toList,Json.text (runes m.status))]

/-- The message with its strings as JSON can carry them. -/
def coerced (m : MyBroadcastMessage) : MyBroadcastMessage :=
  ⟨m.timeStamp,coerce m.node,coerce m.key,coerce m.value,coerce m.status⟩

/-- All strings of the message are valid UTF-8. -/
def Utf8 (m : MyBroadcastMessage) : Prop :=
  ValidUtf8 m.node ∧ ValidUtf8 m.key ∧ ValidUtf8 m.value ∧ ValidUtf8 m.status

theorem coerced_eq_iff (m : MyBroadcastMessage) : m.coerced=m ↔ m.Utf8 := by
  rw [Utf8,validUtf8_iff,validUtf8_iff,validUtf8_iff,validUtf8_iff]
  cases m
  simp [coerced]

/-- The members of the text, with the values they are read as. -/
theorem parse_message (m : MyBroadcastMessage) :
    Json.parse m.message=some (.object [(utf8 "timestamp".toList,.number (formatInt m.timeStamp)),
      (utf8 "node".toList,.string (coerce m.node)),(utf8 "key".toList,.string (coerce m.key)),
      (utf8 "value".toList,.string (coerce m.value)),
      (utf8 "status".toList,.string (coerce m.status))]) := by
  refine Json.parse_writeObject
    [("timestamp".toList,formatInt m.timeStamp,.number (formatInt m.timeStamp)),
      ("node".toList,Json.text (runes m.node),.string (coerce m.node)),
      ("key".toList,Json.text (runes m.key),.string (coerce m.key)),
      ("value".toList,Json.text (runes m.value),.string (coerce m.value)),
      ("status".toList,Json.text (runes m.status),.string (coerce m.status))] ?_
  intro q hq
  simp only [List.mem_cons,List.not_mem_nil,or_false] at hq
  rcases hq with rfl|rfl|rfl|rfl|rfl
  · exact Json.reads_formatInt m.timeStamp
  · exact Json.reads_text (runes m.node)
  · exact Json.reads_text (runes m.key)
  · exact Json.reads_text (runes m.value)
  · exact Json.reads_text (runes m.status)

/-- A receiver reads the message with every byte that is no UTF-8 replaced. -/
theorem parseMyBroadcastMessage_message (m : MyBroadcastMessage) :
    parseMyBroadcastMessage m.message=some (some m.coerced) := by
  have timeStamp : messageField (utf8 "timestamp".toList)=some .timeStamp := by
    rw [messageField,Json.foldName,runes_utf8]
    rfl
  have node : messageField (utf8 "node".toList)=some .node := by
    rw [messageField,Json.foldName,runes_utf8]
    rfl
  have key : messageField (utf8 "key".toList)=some .key := by
    rw [messageField,Json.foldName,runes_utf8]
    rfl
  have value : messageField (utf8 "value".toList)=some .value := by
    rw [messageField,Json.foldName,runes_utf8]
    rfl
  have status : messageField (utf8 "status".toList)=some .status := by
    rw [messageField,Json.foldName,runes_utf8]
    rfl
  rw [parseMyBroadcastMessage,parse_message,Option.bind_some,decodeValue,decodeMembers]
  simp only [List.foldlM_cons,List.foldlM_nil,decodeMember,timeStamp,node,key,value,status,
    parseInt_formatInt]
  rfl

end MyBroadcastMessage

/-- A message comes back from its own text, and leaves with a receiver what it left with the
originator, exactly when its strings are valid UTF-8. -/
theorem receivers_store_iff (m : MyBroadcastMessage) :
    (parseMyBroadcastMessage m.message=some (some m) ∧
      ∀ (own own' other other' : GossipCacheManager) (msg : MyBroadcastMessage),
        own.set m=some (own',[m]) → parseMyBroadcastMessage m.message=some (some msg) →
        other.set msg=some (other',[msg]) →
        other'.report m.key m.node=own'.report m.key m.node) ↔ m.Utf8 := by
  rw [m.parseMyBroadcastMessage_message,←m.coerced_eq_iff]
  constructor
  · intro h
    exact Option.some.inj (Option.some.inj h.1)
  · intro same
    refine ⟨by rw [same],?_⟩
    intro own own' other other' msg sent read stored
    have equal : msg=m := by
      rw [same] at read
      exact (Option.some.inj (Option.some.inj read)).symm
    subst equal
    rw [GossipCacheManager.report_of_accepted stored,GossipCacheManager.report_of_accepted sent]

/-- A script prints the byte 255: the originator stores it, everyone else stores U+FFFD. -/
theorem receivers_store_other :
    ∃ own other msg,GossipCacheManager.new.set ⟨1,[97],[107],[118],[255]⟩=
        some (own,[⟨1,[97],[107],[118],[255]⟩]) ∧
      parseMyBroadcastMessage (MyBroadcastMessage.message ⟨1,[97],[107],[118],[255]⟩)=
        some (some msg) ∧
      GossipCacheManager.new.set msg=some (other,[msg]) ∧
      own.report [107] [97]=some ⟨[255],1⟩ ∧ other.report [107] [97]=some ⟨[239,191,189],1⟩ := by
  have read : MyBroadcastMessage.coerced ⟨1,[97],[107],[118],[255]⟩=
      ⟨1,[97],[107],[118],[239,191,189]⟩ := by decide +kernel
  refine ⟨_,_,_,rfl,MyBroadcastMessage.parseMyBroadcastMessage_message _,by rw [read]; rfl,?_,?_⟩
  · decide +kernel
  · decide +kernel

end StCache
