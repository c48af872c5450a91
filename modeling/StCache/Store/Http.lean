import StCache.Store.LatePersist

namespace StCache

/-- What raft.Apply comes back with. An entry whose future failed may be committed
all the same. -/
inductive ApplyFuture where
  | applied
  | failed (committed : Bool)
  deriving DecidableEq

/-- What a handler meets besides its query: the write flag, the leader that raft
knows of and the future of its entry. -/
structure HttpContext where
  enableWrite : Bool
  leader : GoString
  future : ApplyFuture
  deriving DecidableEq

/-- The text a handler writes and the entry it got into the log. -/
structure Handled where
  response : GoString
  entry : Option GoString
  deriving DecidableEq

def ApplyFuture.handled (future : ApplyFuture) (eventBytes : GoString) : Handled :=
  match future with
  | .applied => ⟨goStr "ok\n",some eventBytes⟩
  | .failed committed => ⟨goStr "internal error\n",if committed then some eventBytes else none⟩

def doGet (cm : CacheManager) (key : GoString) : GoString :=
  if key=[] then [] else cm.get key++goStr "\n"

def doSet (h : HttpContext) (key value : GoString) : Handled :=
  if h.enableWrite=false then
    ⟨goStr "write method not allowed, leader is "++h.leader++goStr "\n",none⟩
  else if key=[] ∨ value=[] then ⟨goStr "param error\n",none⟩
  else h.future.handled (marshalEntry (goStr "SET") key value)

def doDel (h : HttpContext) (key : GoString) : Handled :=
  if h.enableWrite=false then
    ⟨goStr "delete method not allowed, leader is "++h.leader++goStr "\n",none⟩
  else if key=[] then ⟨[],none⟩
  else h.future.handled (marshalEntry (goStr "DELETE") key [])

inductive WriteRequest where
  | set (key value : GoString)
  | del (key : GoString)
  deriving DecidableEq

/-- A request and what its handler met. -/
structure HttpCall where
  context : HttpContext
  request : WriteRequest
  deriving DecidableEq

def HttpCall.handled (c : HttpCall) : Handled :=
  match c.request with
  | .set key value => doSet c.context key value
  | .del key => doDel c.context key

def HttpCall.Acknowledged (c : HttpCall) : Prop := c.handled.response=goStr "ok\n"

instance (c : HttpCall) : Decidable c.Acknowledged := inferInstanceAs (Decidable (_=_))

/-- A replica applies the entry of the request. -/
def HttpCall.step (f : Fsm) (c : HttpCall) : Option Fsm :=
  match c.handled.entry with
  | none => some f
  | some data => f.apply unmarshalEntry data

/-- What a request makes of a key's value, none where it names another key. -/
def WriteRequest.valueOf (key : GoString) : WriteRequest → Option (Option GoString)
  | .set k value => if k=key then some (some value) else none
  | .del k => if k=key then some none else none

/-- The value of the last request that names the key. -/
def answerOf (key : GoString) (calls : List HttpCall) : GoString :=
  ((lastOf (fun c => c.request.valueOf key) calls).join).getD []

/-- Every key reads as the requests say, byte for byte. -/
def KeyValue (calls : List HttpCall) : Prop :=
  ∃ f,run HttpCall.step .new calls=some f ∧
    ∀ key,key≠[] → doGet f.cm key=answerOf key calls++goStr "\n"

/-- What a request must keep to for its effect on the cache to be the one it
names: a doSet has valid UTF-8 only, and a doDel with an invalid key does not meet
the key that JSON replaces it by. -/
def Utf8Safe (f : Fsm) (c : HttpCall) : Prop :=
  match c.request with
  | .set key value => ValidUtf8 key ∧ ValidUtf8 value
  | .del key => ValidUtf8 key ∨ f.cm.data.get? (coerce key)=none

instance (f : Fsm) : (c : HttpCall) → Decidable (Utf8Safe f c)
  | ⟨_,.set _ _⟩ => inferInstanceAs (Decidable (_ ∧ _))
  | ⟨_,.del _⟩ => inferInstanceAs (Decidable (_ ∨ _))

theorem coerce_coerce (s : GoString) : coerce (coerce s)=coerce s :=
  coerce_valid _ (validUtf8_utf8 (runes s))

theorem coerce_ne_nil {s : GoString} (h : s≠[]) : coerce s≠[] := by
  cases s with
  | nil => exact absurd rfl h
  | cons b s =>
    have first (c : Char) (cs : List Char) : utf8 (c::cs)≠[] := by
      intro he
      have text : utf8 (c::cs)=String.utf8EncodeChar c++utf8 cs := rfl
      rw [text,List.append_eq_nil_iff] at he
      exact String.utf8EncodeChar_ne_nil he.1
    rw [coerce,runes,List.length_cons,runesFrom]
    cases firstRune (b::s) with
    | some c => exact first c _
    | none => exact first replacement _

/-- A cache that only requests wrote: valid keys, and no empty value. -/
def Written (c : CacheManager) : Prop :=
  c.data≠.nil ∧ ∀ k v,c.data.get? k=some v → coerce k=k ∧ v≠[]

theorem ApplyFuture.handled_ok {future : ApplyFuture} {data : GoString}
    (h : (future.handled data).response=goStr "ok\n") :
    future.handled data=⟨goStr "ok\n",some data⟩ := by
  cases future with
  | applied => rfl
  | failed committed =>
    have differ : goStr "internal error\n"≠goStr "ok\n" := by decide
    exact absurd h differ

theorem doSet_ok {h : HttpContext} {key value : GoString}
    (ok : (doSet h key value).response=goStr "ok\n") :
    key≠[] ∧ value≠[] ∧
      (doSet h key value).entry=some (marshalEntry (goStr "SET") key value) := by
  unfold doSet at ok ⊢
  split_ifs at ok ⊢ with refused empty
  · have first : (some 119 : Option UInt8)=some 111 := congrArg List.head? ok
    exact absurd first (by decide)
  · exact absurd ok (by decide)
  · rw [not_or] at empty
    exact ⟨empty.1,empty.2,by rw [ApplyFuture.handled_ok ok]⟩

theorem doDel_ok {h : HttpContext} {key : GoString} (ok : (doDel h key).response=goStr "ok\n") :
    key≠[] ∧ (doDel h key).entry=some (marshalEntry (goStr "DELETE") key []) := by
  unfold doDel at ok ⊢
  split_ifs at ok ⊢ with refused empty
  · have first : (some 100 : Option UInt8)=some 111 := congrArg List.head? ok
    exact absurd first (by decide)
  · exact absurd ok (by decide)
  · exact ⟨empty,by rw [ApplyFuture.handled_ok ok]⟩

/-- The entry as a replica decodes it. -/
def WriteRequest.logged : WriteRequest → LogEntryData
  | .set key value => ⟨.set,coerce key,coerce value⟩
  | .del key => ⟨.delete,coerce key,[]⟩

/-- The parameters a handler insists on. -/
def WriteRequest.Complete : WriteRequest → Prop
  | .set key value => key≠[] ∧ value≠[]
  | .del key => key≠[]

theorem HttpCall.Acknowledged.step_eq {c : HttpCall} (ack : c.Acknowledged) (f : Fsm) :
    HttpCall.step f c=f.applyEntry c.request.logged ∧ c.request.Complete := by
  obtain ⟨h,r⟩ := c
  cases r with
  | set key value =>
    obtain ⟨hk,hv,entry⟩ := doSet_ok ack
    have text : coerce (goStr "SET")=goStr "SET" := coerce_valid _ ⟨_,rfl⟩
    have named : Command.ofText (goStr "SET")=.set := by decide
    refine ⟨?_,hk,hv⟩
    simp only [HttpCall.step,HttpCall.handled,entry,Fsm.apply,unmarshalEntry_coerce,text,named,
      Option.bind_some,WriteRequest.logged]
  | del key =>
    obtain ⟨hk,entry⟩ := doDel_ok ack
    have text : coerce (goStr "DELETE")=goStr "DELETE" := coerce_valid _ ⟨_,rfl⟩
    have blank : coerce []=[] := rfl
    have named : Command.ofText (goStr "DELETE")=.delete := by decide
    refine ⟨?_,hk⟩
    simp only [HttpCall.step,HttpCall.handled,entry,Fsm.apply,unmarshalEntry_coerce,text,blank,named,
      Option.bind_some,WriteRequest.logged]

theorem Written.replay {c : CacheManager} (w : Written c) {r : WriteRequest} (full : r.Complete) :
    ∃ d,c.replay r.logged=some d ∧ Written d := by
  obtain ⟨⟨t⟩|⟨t⟩⟩ := c
  · exact absurd rfl w.1
  have stored (k v : GoString) (h : t.lookup k=some v) : coerce k=k ∧ v≠[] := w.2 k v h
  cases r with
  | set key value =>
    refine ⟨⟨.alloc (t.insert (coerce key) (coerce value))⟩,rfl,nofun,?_⟩
    intro k v hl
    rw [GoMap.get?_alloc,lookup_insert_ite] at hl
    split_ifs at hl with he
    · cases hl
      exact ⟨he ▸ coerce_coerce key,coerce_ne_nil full.2⟩
    · exact stored k v hl
  | del key =>
    refine ⟨⟨.alloc (t.erase (coerce key))⟩,rfl,nofun,?_⟩
    intro k v hl
    rw [GoMap.get?_alloc,lookup_erase_ite] at hl
    split_ifs at hl
    exact stored k v hl

/-- A replica takes an acknowledged request, with the effect of its logged entry. -/
theorem HttpCall.Acknowledged.step {c : HttpCall} (ack : c.Acknowledged) (f : Fsm)
    (w : Written f.cm) :
    ∃ g,HttpCall.step f c=some g ∧ Written g.cm ∧
      ∀ key,g.cm.data.get? key=(c.request.logged.valueOf key).getD (f.cm.data.get? key) := by
  obtain ⟨same,full⟩ := ack.step_eq f
  obtain ⟨d,hd,wd⟩ := w.replay full
  refine ⟨⟨d,f.gcm.replay c.request.logged⟩,?_,wd,?_⟩
  · rw [same]
    exact (Fsm.applyEntry_some f _ _).mpr ⟨hd,rfl⟩
  · intro key
    exact CacheManager.get?_replay key f.cm _ d hd

theorem answerOf_snoc (key : GoString) (calls : List HttpCall) (c : HttpCall) :
    answerOf key (calls++[c])=
      ((c.request.valueOf key).map (fun value => value.getD [])).getD (answerOf key calls) := by
  rw [answerOf,lastOf_snoc]
  cases c.request.valueOf key <;> rfl

/-- The request decides the answer for the key it names and for no other. -/
theorem answerOf_request (k : GoString) (calls : List HttpCall) (h : HttpContext)
    (r : WriteRequest) {key : GoString} {value : Option GoString}
    (names : ∀ x,r.valueOf x=if key=x then some value else none) :
    answerOf k (calls++[⟨h,r⟩])=if k=key then value.getD [] else answerOf k calls := by
  rw [answerOf_snoc,names]
  by_cases he : k=key
  · simp [he]
  · simp [he,Ne.symm he]

theorem Written.get_invalid {c : CacheManager} (w : Written c) {key : GoString}
    (invalid : coerce key≠key) : c.get key=[] := by
  cases hl : c.data.get? key with
  | none => simp [CacheManager.get,hl]
  | some v => exact absurd (w.2 key v hl).1 invalid

/-- The cache answers every key as the requests so far say. -/
def Answers (c : CacheManager) (calls : List HttpCall) : Prop :=
  ∀ key,key≠[] → c.get key=answerOf key calls

/-- One more doSet leaves every answer right exactly when JSON keeps its key and its
value as they are. -/
theorem Answers.set_iff {c d : CacheManager} {calls : List HttpCall} (w : Written c)
    (right : Answers c calls) (h : HttpContext) {key value : GoString} (hk : key≠[])
    (hv : value≠[])
    (get : ∀ k,d.get k=if k=coerce key then coerce value else c.get k) :
    Answers d (calls++[⟨h,.set key value⟩]) ↔ coerce key=key ∧ coerce value=value := by
  have answer (k : GoString) : answerOf k (calls++[⟨h,.set key value⟩])=
      if k=key then value else answerOf k calls :=
    answerOf_request k calls h (.set key value) (fun _ => rfl)
  constructor
  · intro all
    have own := all key hk
    rw [answer,if_pos rfl,get] at own
    by_cases he : key=coerce key
    · rw [if_pos he] at own
      exact ⟨he.symm,own⟩
    · rw [if_neg he,w.get_invalid (Ne.symm he)] at own
      exact absurd own.symm hv
  · rintro ⟨ek,ev⟩ k hk'
    rw [answer,get,ek,ev,right k hk']

/-- One more doDel leaves every answer right exactly when JSON keeps its key, or
replaces it by one that is not stored. -/
theorem Answers.del_iff {c d : CacheManager} {calls : List HttpCall} (w : Written c)
    (right : Answers c calls) (h : HttpContext) {key : GoString} (hk : key≠[])
    (get : ∀ k,d.get k=if k=coerce key then [] else c.get k) :
    Answers d (calls++[⟨h,.del key⟩]) ↔
      coerce key=key ∨ c.data.get? (coerce key)=none := by
  have answer (k : GoString) : answerOf k (calls++[⟨h,.del key⟩])=
      if k=key then [] else answerOf k calls :=
    answerOf_request k calls h (.del key) (fun _ => rfl)
  constructor
  · intro all
    by_cases he : coerce key=key
    · exact .inl he
    · have other := all (coerce key) (coerce_ne_nil hk)
      rw [answer,if_neg he,get,if_pos rfl,←right _ (coerce_ne_nil hk)] at other
      cases hl : c.data.get? (coerce key) with
      | none => exact .inr rfl
      | some v =>
        have stored : c.get (coerce key)=v := by simp [CacheManager.get,hl]
        exact absurd (stored.symm.trans other.symm) (w.2 _ v hl).2
  · intro kept k hk'
    rw [answer,get]
    by_cases he : coerce key=key
    · rw [he,right k hk']
    · have missing : c.get (coerce key)=[] := by
        simp [CacheManager.get,kept.resolve_left he]
      by_cases hc : k=coerce key
      · have differ : k≠key := fun same => he (hc.symm.trans same)
        rw [if_pos hc,if_neg differ,←right k hk',hc,missing]
      · rw [if_neg hc]
        by_cases same : k=key
        · rw [if_pos same,same]
          exact w.get_invalid he
        · rw [if_neg same,right k hk']

/-- Get after an entry that writes one key of the cache. -/
theorem get_of_valueOf {c d : CacheManager} {e : LogEntryData} {key : GoString}
    {value : Option GoString} (writes : ∀ k,e.valueOf k=if key=k then some value else none)
    (get : ∀ k,d.data.get? k=(e.valueOf k).getD (c.data.get? k)) (k : GoString) :
    d.get k=if k=key then value.getD [] else c.get k := by
  rw [CacheManager.get,get,writes]
  by_cases he : k=key
  · rw [if_pos he.symm,if_pos he]
    rfl
  · rw [if_neg (Ne.symm he),if_neg he]
    rfl

theorem Answers.step_iff {f g : Fsm} {c : HttpCall} {calls : List HttpCall} (w : Written f.cm)
    (right : Answers f.cm calls) (full : c.request.Complete)
    (get : ∀ key,g.cm.data.get? key=(c.request.logged.valueOf key).getD (f.cm.data.get? key)) :
    Answers g.cm (calls++[c]) ↔ Utf8Safe f c := by
  obtain ⟨h,r⟩ := c
  cases r with
  | set key value =>
    simp only [Utf8Safe,validUtf8_iff]
    have writes (k : GoString) : (WriteRequest.set key value).logged.valueOf k=
        if coerce key=k then some (some (coerce value)) else none := rfl
    exact Answers.set_iff w right h full.1 full.2 (get_of_valueOf writes get)
  | del key =>
    simp only [Utf8Safe,validUtf8_iff]
    have writes (k : GoString) : (WriteRequest.del key).logged.valueOf k=
        if coerce key=k then some none else none := rfl
    exact Answers.del_iff w right h full (get_of_valueOf writes get)

theorem keyValue_of_run {f : Fsm} {calls : List HttpCall}
    (hr : run HttpCall.step .new calls=some f) : KeyValue calls ↔ Answers f.cm calls := by
  have line (key : GoString) (hk : key≠[]) :
      doGet f.cm key=answerOf key calls++goStr "\n" ↔ f.cm.get key=answerOf key calls := by
    rw [doGet,if_neg hk,List.append_left_inj]
  constructor
  · rintro ⟨g,hg,all⟩ key hk
    obtain rfl : f=g := Option.some.inj (hr.symm.trans hg)
    exact (line key hk).mp (all key hk)
  · intro all
    exact ⟨f,hr,fun key hk => (line key hk).mpr (all key hk)⟩

theorem run_acknowledged (calls : List HttpCall) (ack : ∀ c∈calls,c.Acknowledged) :
    ∃ f,run HttpCall.step .new calls=some f ∧ Written f.cm := by
  induction calls using List.reverseRecOn with
  | nil => exact ⟨.new,rfl,nofun,fun k v h => by simp [Fsm.new,CacheManager.new,GoMap.make] at h⟩
  | append_singleton calls c ih =>
    obtain ⟨f,hr,w⟩ := ih (fun x hx => ack x (by simp [hx]))
    obtain ⟨g,hg,wg,-⟩ := (ack c (by simp)).step f w
    exact ⟨g,(run_snoc _ _ _ _ _).mpr ⟨f,hr,hg⟩,wg⟩

/-- The API behaves as a map from keys to values after each of a sequence of
acknowledged requests exactly when every doSet has valid UTF-8 only and every doDel
with an invalid key misses the key that JSON replaces it by. -/
theorem keyValue_iff (calls : List HttpCall) (ack : ∀ c∈calls,c.Acknowledged) :
    (∀ done,done <+: calls → KeyValue done) ↔ Along HttpCall.step Utf8Safe .new calls := by
  induction calls using List.reverseRecOn with
  | nil =>
    have empty : KeyValue [] := by
      refine (keyValue_of_run rfl).mpr ?_
      intro key _
      rfl
    exact ⟨fun _ => trivial,fun _ done hd => (List.prefix_nil.mp hd) ▸ empty⟩
  | append_singleton calls c ih =>
    have before : ∀ x∈calls,x.Acknowledged := fun x hx => ack x (by simp [hx])
    have last : c.Acknowledged := ack c (by simp)
    obtain ⟨f,hr,w⟩ := run_acknowledged calls before
    obtain ⟨g,hg,-,get⟩ := last.step f w
    have whole := (run_snoc HttpCall.step .new g calls c).mpr ⟨f,hr,hg⟩
    have safe : (∀ u,run HttpCall.step .new calls=some u → Utf8Safe u c) ↔ Utf8Safe f c :=
      ⟨fun all => all f hr,fun ok u hu => Option.some.inj (hr.symm.trans hu) ▸ ok⟩
    rw [along_snoc,safe,←ih before]
    constructor
    · intro all
      have now := all calls (List.prefix_append calls [c])
      have next := all (calls++[c]) (List.prefix_refl _)
      rw [keyValue_of_run hr] at now
      rw [keyValue_of_run whole,Answers.step_iff w now (last.step_eq f).2 get] at next
      exact ⟨fun done hd => all done (hd.trans (List.prefix_append calls [c])),next⟩
    · rintro ⟨all,ok⟩ done hd
      rcases List.prefix_concat_iff.mp hd with rfl|hd
      · have now := all calls (List.prefix_refl _)
        rw [keyValue_of_run hr] at now
        rw [keyValue_of_run whole,Answers.step_iff w now (last.step_eq f).2 get]
        exact ok
      · exact all done hd

/-- A leader whose entries are committed. -/
def leading : HttpContext := ⟨true,goStr "127.0.0.1:7000",.applied⟩

/-- Valid keys and values, and one doDel of an invalid key that meets nothing. -/
def served : List HttpCall :=
  [⟨leading,.set (goStr "k") (goStr "é")⟩,⟨leading,.set (goStr "j") (goStr "v")⟩,
    ⟨leading,.del [255]⟩,⟨leading,.del (goStr "k")⟩]

theorem keyValue_iff_valid : (∀ c∈served,c.Acknowledged) ∧ KeyValue served := by
  have ack : ∀ c∈served,c.Acknowledged := by decide +kernel
  have safe : Along HttpCall.step Utf8Safe .new served := by decide +kernel
  exact ⟨ack,(keyValue_iff served ack).mpr safe served (List.prefix_refl served)⟩

/-- A key that is no UTF-8 is set and acknowledged, but reads as empty; the value
is found under U+FFFD, which no request named. -/
theorem invalid_key_unreadable :
    HttpCall.Acknowledged ⟨leading,.set [255] (goStr "v")⟩ ∧
      answerOf [255] [⟨leading,.set [255] (goStr "v")⟩]=goStr "v" ∧
      (run HttpCall.step .new [⟨leading,.set [255] (goStr "v")⟩]).map
        (fun f => (doGet f.cm [255],doGet f.cm (utf8 [replacement])))=
          some (goStr "\n",goStr "v\n") := by
  decide +kernel

end StCache
