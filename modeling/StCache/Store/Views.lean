import StCache.Store.Http

namespace StCache

namespace CacheManager

def getKey (c : CacheManager) (key : GoString) : Except GoString GoString :=
  match c.data.get? key with
  | some value => .ok value
  | none => .error (goStr "key "++key++goStr " not found")

/-- A map with one key. -/
def single (key value : GoString) : GoMap GoString GoString :=
  .alloc ((∅ : Table GoString GoString).insert key value)

end CacheManager

def doStatus (cm : CacheManager) : GoString := cm.marshal jsonMap

def doStatusForKey (cm : CacheManager) (key : GoString) : GoString :=
  match cm.getKey key with
  | .error err => err
  | .ok value => jsonMap.marshal (CacheManager.single key value)

/-- What raft hands to the state machine of a node: the data of a log entry, or the bytes
of a snapshot. -/
inductive FsmEvent where
  | apply (data : GoString)
  | restore (serialized : GoString)

def FsmEvent.step (f : Fsm) : FsmEvent → Option Fsm
  | .apply data => f.apply unmarshalEntry data
  | .restore serialized => some (f.restore jsonMap serialized)

/-- Every key and every value of the cache is valid UTF-8. A restored null leaves a nil map,
which has no keys. -/
def Readable (c : CacheManager) : Prop :=
  ∀ k v,c.data.get? k=some v → ValidUtf8 k ∧ ValidUtf8 v

theorem Readable.replay {c d : CacheManager} {e : LogEntryData} (h : Readable c) (he : e.Utf8)
    (hs : c.replay e=some d) : Readable d := by
  unfold CacheManager.replay at hs
  split at hs
  · intro k v hv
    rw [CacheManager.get?_set c d e.key e.value k hs] at hv
    split_ifs at hv with same
    · cases hv
      exact ⟨same ▸ he.1,he.2⟩
    · exact h k v hv
  · cases hs
    intro k v hv
    rw [CacheManager.get?_del] at hv
    split_ifs at hv
    exact h k v hv
  · cases hs
    exact h

theorem mapMember_texts {ps : List (GoString × Json.Value)} {qs : List (GoString × GoString)}
    (texts : Json.Texts ps) (h : ps.mapM mapMember=some qs) :
    ∀ q∈qs,ValidUtf8 q.1 ∧ ValidUtf8 q.2 := by
  induction ps generalizing qs with
  | nil =>
    cases h
    intro q hq
    cases hq
  | cons p ps ih =>
    rw [List.mapM_cons] at h
    obtain ⟨q,hq,h⟩ := Option.bind_eq_some_iff.mp h
    obtain ⟨rest,hr,h⟩ := Option.bind_eq_some_iff.mp h
    cases h
    obtain ⟨⟨cs,name⟩,string⟩ := texts p List.mem_cons_self
    have first : ValidUtf8 q.1 ∧ ValidUtf8 q.2 := by
      unfold mapMember at hq
      split at hq
      · next s hp =>
        cases hq
        obtain ⟨ds,rfl⟩ := string s hp
        exact ⟨name ▸ validUtf8_utf8 cs,validUtf8_utf8 ds⟩
      · cases hq
        exact ⟨name ▸ validUtf8_utf8 cs,validUtf8_utf8 []⟩
      · cases hq
    exact List.forall_mem_cons.mpr
      ⟨first,ih (fun x hx => texts x (List.mem_cons_of_mem p hx)) hr⟩

theorem utf8Table_insertAll {t : Table GoString GoString} (h : Utf8Table t)
    {qs : List (GoString × GoString)} (valid : ∀ q∈qs,ValidUtf8 q.1 ∧ ValidUtf8 q.2) :
    Utf8Table (insertAll t qs) := by
  induction qs generalizing t with
  | nil => exact h
  | cons q qs ih =>
    have first := valid q List.mem_cons_self
    exact ih (h.insert first.1 first.2) (fun x hx => valid x (List.mem_cons_of_mem q hx))

theorem utf8Table_empty : Utf8Table ∅ := by
  intro k v h
  simp at h

/-- Whatever bytes a node restores, what it reads from them is valid UTF-8. -/
theorem readable_decoded {serialized : GoString} {data : GoMap GoString GoString}
    (h : jsonMap.decode serialized=some data) : Readable ⟨data⟩ := by
  obtain ⟨⟨v,rest⟩,read,h⟩ := Option.bind_eq_some_iff.mp h
  unfold mapValue at h
  split at h
  · cases h
    intro k v hv
    cases hv
  · next ps shape =>
    obtain rfl : v=.object ps := shape
    obtain ⟨qs,hq,same⟩ := Option.map_eq_some_iff.mp h
    cases same
    have texts := Json.parseValue_object _ serialized rest ps read
    intro k v hv
    exact utf8Table_insertAll utf8Table_empty (mapMember_texts texts hq) k v hv
  · cases h

theorem Readable.step {f g : Fsm} {e : FsmEvent} (h : Readable f.cm) (hs : e.step f=some g) :
    Readable g.cm := by
  cases e with
  | apply data =>
    obtain ⟨e,he,hs⟩ := Option.bind_eq_some_iff.mp hs
    exact h.replay (unmarshalEntry_utf8 data e he) ((Fsm.applyEntry_some f g e).mp hs).1
  | restore serialized =>
    cases hs
    change Readable (f.cm.unMarshal jsonMap serialized)
    unfold CacheManager.unMarshal
    split
    · exact h
    · next data read => exact readable_decoded read

theorem readable_run {es : List FsmEvent} {f : Fsm}
    (hr : run FsmEvent.step .new es=some f) : Readable f.cm := by
  have fresh : Readable CacheManager.new := by
    intro k v h
    cases h
  exact run_invariant _ (fun _ _ => True) (fun f => Readable f.cm)
    (fun _ _ _ h _ hs => h.step hs) es .new f fresh
    (along_of_forall _ _ _ es (fun _ _ => trivial)) hr

theorem decode_doStatus {cm : CacheManager} (readable : Readable cm) :
    jsonMap.decode (doStatus cm)=some cm.data := by
  cases cm with
  | mk data =>
    cases data with
    | nil => decide +kernel
    | alloc t => exact jsonMap_roundTrips t readable

/-- The text of an error is no JSON. -/
theorem decode_notFound (text : GoString) : jsonMap.decode (107::text)=none := by
  have space : Json.isSpace 107=false := by decide
  have none : Json.decode (107::text)=none := by
    rw [Json.decode,Json.parseValue,Json.skip_cons _ _ space]
    rfl
  simp only [jsonMap,none,Option.bind_none]

theorem decode_doStatusForKey {cm : CacheManager} (readable : Readable cm) (key : GoString) :
    jsonMap.decode (doStatusForKey cm key)=(cm.data.get? key).map (CacheManager.single key) := by
  cases found : cm.data.get? key with
  | none =>
    rw [doStatusForKey,CacheManager.getKey,found]
    exact decode_notFound _
  | some value =>
    have both := readable key value found
    rw [doStatusForKey,CacheManager.getKey,found]
    exact jsonMap_roundTrips _ (utf8Table_empty.insert both.1 both.2)

/-- Whatever log entries a node has applied and whatever snapshots it has restored: the text
of /status decodes to its cache, and that of /status/{key} to the entry of the key alone, or
to nothing if there is none. -/
theorem status_views_exact (es : List FsmEvent) (f : Fsm)
    (hr : run FsmEvent.step .new es=some f) :
    jsonMap.decode (doStatus f.cm)=some f.cm.data ∧
      ∀ key,jsonMap.decode (doStatusForKey f.cm key)=
        (f.cm.data.get? key).map (CacheManager.single key) :=
  ⟨decode_doStatus (readable_run hr),decode_doStatusForKey (readable_run hr)⟩

/-- Key a with a line separator in its value. -/
def lineEntry : GoString := marshalEntry (goStr "SET") (goStr "a") (goStr "x\u2028y")

/-- A member that no field has, and a Kelvin sign in the name of the second field. -/
def kelvinEntry : GoString :=
  goStr "\x7b\"n\":[7,null],\"Cmd\":\"SET\",\"\u212aey\":\"b\",\"Value\":\"w\"\x7d"

/-- A node restores a snapshot with two keys, then sets one of them and a third one. -/
theorem status_views_exact_three :
    ∃ f,run FsmEvent.step .new [.restore (goStr "\x7b\"b\":\"v\",\"c\":null\x7d\n"),.apply lineEntry,
        .apply kelvinEntry]=some f ∧
      jsonMap.decode (doStatus f.cm)=some f.cm.data ∧
      f.cm.data.get? (goStr "a")=some (goStr "x\u2028y") ∧
      f.cm.data.get? (goStr "b")=some (goStr "w") ∧ f.cm.data.get? (goStr "c")=some [] ∧
      doStatusForKey f.cm (goStr "a")=goStr "\x7b\"a\":\"x\\u2028y\"\x7d" ∧
      jsonMap.decode (doStatusForKey f.cm (goStr "b"))=
        some (CacheManager.single (goStr "b") (goStr "w")) ∧
      jsonMap.decode (doStatusForKey f.cm (goStr "d"))=none := by
  have keys : (run FsmEvent.step .new [.restore (goStr "\x7b\"b\":\"v\",\"c\":null\x7d\n"),
      .apply lineEntry,.apply kelvinEntry]).map (fun f =>
        (["a","b","c","d"].map (fun key => f.cm.data.get? (goStr key)),
          doStatusForKey f.cm (goStr "a")))=
      some ([some (goStr "x\u2028y"),some (goStr "w"),some [],none],
        goStr "\x7b\"a\":\"x\\u2028y\"\x7d") := by
    decide +kernel
  obtain ⟨f,hr,same⟩ := Option.map_eq_some_iff.mp keys
  simp only [Prod.mk.injEq,List.map_cons,List.map_nil,List.cons.injEq,and_true] at same
  obtain ⟨⟨a,b,c,d⟩,text⟩ := same
  obtain ⟨all,views⟩ := status_views_exact _ f hr
  refine ⟨f,hr,all,a,b,c,text,?_,?_⟩
  · rw [views,b]
    rfl
  · rw [views,d]
    rfl

end StCache
