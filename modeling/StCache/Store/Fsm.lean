import StCache.Store.Cache
import StCache.Store.GossipCache

namespace StCache

/-- `other` stands for every command text the switch of Apply does not name. -/
inductive Command where
  | set
  | delete
  | notifyStatus
  | notifyTime
  | notifyEmpty
  | notifyEmptyTime
  | other
  deriving DecidableEq

structure LogEntryData where
  cmd : Command
  key : GoString
  value : GoString
  deriving DecidableEq

/-- The two stores that one replica's state machine writes. -/
structure Fsm where
  cm : CacheManager
  gcm : GossipCacheManager
  deriving DecidableEq

namespace Fsm

def new : Fsm := ⟨.new,.new⟩

/-- The switch of FSM.Apply. A value that does not parse is only logged; none is
the panic of a SET on a nil cache map. -/
def applyEntry (f : Fsm) (e : LogEntryData) : Option Fsm :=
  match e.cmd with
  | .set => (f.cm.set e.key e.value).map (fun cm => {f with cm := cm})
  | .delete => some {f with cm := f.cm.del e.key}
  | .notifyStatus => some {f with gcm := f.gcm.setPreviousConsensus e.key e.value}
  | .notifyTime =>
    match parseInt e.value with
    | none => some f
    | some timeStamp =>
      some {f with gcm := f.gcm.setPreviousEventTime e.key (.ofNano timeStamp)}
  | .notifyEmpty =>
    match parseBool e.value with
    | none => some f
    | some empty => some {f with gcm := f.gcm.setEmpty e.key empty}
  | .notifyEmptyTime =>
    match parseInt e.value with
    | none => some f
    | some timeStamp => some {f with gcm := f.gcm.setEmptyTime e.key (.ofNano timeStamp)}
  | .other => some f

/-- FSM.Apply on raw log data; an entry that does not decode panics. -/
def apply (unmarshal : GoString → Option LogEntryData) (f : Fsm) (data : GoString) : Option Fsm :=
  (unmarshal data).bind f.applyEntry

end Fsm

/-- The raft field update an entry carries, if any. -/
def LogEntryData.update (e : LogEntryData) : Option Notify :=
  match e.cmd with
  | .notifyStatus => some (.status e.value)
  | .notifyTime => (parseInt e.value).map (fun ts => .eventTime (.ofNano ts))
  | .notifyEmpty => (parseBool e.value).map .empty
  | .notifyEmptyTime => (parseInt e.value).map (fun ts => .emptyTime (.ofNano ts))
  | _ => none

/-- The update of one key, none for entries about other keys. -/
def LogEntryData.updateOf (e : LogEntryData) (key : GoString) : Option Notify :=
  if e.key=key then e.update else none

def CacheManager.replay (c : CacheManager) (e : LogEntryData) : Option CacheManager :=
  match e.cmd with
  | .set => c.set e.key e.value
  | .delete => some (c.del e.key)
  | _ => some c

def GossipCacheManager.replay (c : GossipCacheManager) (e : LogEntryData) : GossipCacheManager :=
  match e.update with
  | none => c
  | some u => c.notify e.key u

/-- SET and DELETE touch the cache map only, the notify commands the gossip store
only, so an entry acts on the two stores separately. -/
theorem Fsm.applyEntry_eq (f : Fsm) (e : LogEntryData) :
    f.applyEntry e=(f.cm.replay e).map (fun cm => ⟨cm,f.gcm.replay e⟩) := by
  unfold applyEntry CacheManager.replay GossipCacheManager.replay LogEntryData.update
  cases e.cmd with
  | set => rfl
  | delete => rfl
  | notifyStatus => rfl
  | notifyTime => cases parseInt e.value <;> rfl
  | notifyEmpty => cases parseBool e.value <;> rfl
  | notifyEmptyTime => cases parseInt e.value <;> rfl
  | other => rfl

theorem Fsm.applyEntry_some (f g : Fsm) (e : LogEntryData) :
    f.applyEntry e=some g ↔ f.cm.replay e=some g.cm ∧ g.gcm=f.gcm.replay e := by
  rw [applyEntry_eq,Option.map_eq_some_iff]
  constructor
  · rintro ⟨cm,hcm,rfl⟩
    exact ⟨hcm,rfl⟩
  · rintro ⟨hcm,hg⟩
    exact ⟨g.cm,hcm,by rw [←hg]⟩

@[simp] theorem GossipCacheManager.report_replay (c : GossipCacheManager) (e : LogEntryData)
    (key node : GoString) : (c.replay e).report key node=c.report key node := by
  unfold replay
  cases e.update <;> simp

/-- Effect of an entry on the replicated fields of any key. -/
theorem GossipCacheManager.replicated_replay (c : GossipCacheManager) (e : LogEntryData)
    (key : GoString) :
    (c.replay e).replicated key=match e.updateOf key with
      | none => c.replicated key
      | some u => u.write (c.replicated key) := by
  unfold replay LogEntryData.updateOf
  cases hu : e.update with
  | none => split_ifs <;> rfl
  | some u =>
    by_cases hk : e.key=key
    · subst key
      simp [replicated_notify]
    · have hn : key≠e.key := fun h => hk h.symm
      simp [replicated_notify,hk,hn]

end StCache
