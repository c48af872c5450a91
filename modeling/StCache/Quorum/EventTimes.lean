import StCache.Framework.WallClock
import StCache.Quorum.Pacing
import StCache.Store.Http

namespace StCache

/-- The text of the command that logs the time of a check. -/
def CheckKind.timeText : CheckKind → GoString
  | .event => goStr "NOTIFY_TIME"
  | .empty => goStr "NOTIFY_EMPTY_TIME"

/-- The log entry that checkEvent or checkEmpty submits at this time. -/
def CheckKind.timeData (kind : CheckKind) (key : GoString) (ts : Int64) : GoString :=
  marshalEntry kind.timeText key (formatInt ts)

/-- The time of a check that a replica has for a key. -/
def Fsm.eventTime (f : Fsm) (kind : CheckKind) (key : GoString) : GoTime :=
  kind.time (f.gcm.replicated key)

theorem unmarshalEntry_timeData (kind : CheckKind) (key : GoString) (ts : Int64) :
    unmarshalEntry (kind.timeData key ts)=some ⟨kind.timeCommand,coerce key,formatInt ts⟩ := by
  have command : Command.ofText (coerce kind.timeText)=kind.timeCommand := by
    cases kind <;> decide +kernel
  rw [CheckKind.timeData,unmarshalEntry_coerce,command,coerce_valid _ (validUtf8_formatInt ts)]

/-- No time is refused, and what is stored is the time that `time.Unix` makes of it. -/
theorem apply_timeData (kind : CheckKind) (f : Fsm) (key : GoString) (ts : Int64) :
    ∃ g,f.apply unmarshalEntry (kind.timeData key ts)=some g ∧
      g.eventTime kind (coerce key)=(WallTime.ofNano ts).instant := by
  have stamp : LogEntryData.stampOf kind (coerce key)
      ⟨kind.timeCommand,coerce key,formatInt ts⟩=some ts := by
    rw [LogEntryData.stampOf,if_pos ⟨rfl,rfl⟩,parseInt_formatInt]
  have cache : f.cm.replay ⟨kind.timeCommand,coerce key,formatInt ts⟩=some f.cm := by
    cases kind <;> rfl
  refine ⟨⟨f.cm,f.gcm.replay ⟨kind.timeCommand,coerce key,formatInt ts⟩⟩,?_,?_⟩
  · rw [Fsm.apply,unmarshalEntry_timeData,Option.bind_some,Fsm.applyEntry_eq,cache]
    rfl
  · rw [Fsm.eventTime,time_replay,stamp,WallTime.instant_ofNano]

/-- Event times survive the log exactly: each is stored with its nanoseconds, a report is
considered exactly when it is later, and the stored times are in the order of their
nanoseconds. -/
theorem event_times_exact (kind kind' : CheckKind) (f f' : Fsm) (key key' : GoString)
    (ts ts' : Int64) :
    ∃ g g',f.apply unmarshalEntry (kind.timeData key ts)=some g ∧
      f'.apply unmarshalEntry (kind'.timeData key' ts')=some g' ∧
      (g.eventTime kind (coerce key)=(WallTime.ofNano ts).instant ∧
        g'.eventTime kind' (coerce key')=(WallTime.ofNano ts').instant) ∧
      ((g.eventTime kind (coerce key)).unixNano=ts ∧ (WallTime.ofNano ts).unixNano=ts) ∧
      (∀ (now : GoString → Int64) (node : GoString) (r : GossipStatusAndTimeStamp),
        fresh (g.eventTime kind (coerce key)) now (node,r)=true ↔ ts.toInt < r.timeStamp.toInt ∧
          (now node).toInt-r.timeStamp.toInt ≤ staleInfoInterval) ∧
      ((WallTime.ofNano ts).before (WallTime.ofNano ts')=true ↔ ts.toInt<ts'.toInt) := by
  obtain ⟨g,applied,stored⟩ := apply_timeData kind f key ts
  obtain ⟨g',applied',stored'⟩ := apply_timeData kind' f' key' ts'
  have nano (t : Int64) : (WallTime.ofNano t).instant.unixNano=t := by
    rw [WallTime.instant_ofNano,GoTime.ofNano_unixNano]
  refine ⟨g,g',applied,applied',⟨stored,stored'⟩,⟨?_,?_⟩,?_,?_⟩
  · rw [stored,nano]
  · rw [←WallTime.unixNano_instant,nano]
  · intro now node r
    rw [fresh_iff,stored,nano,Int64.lt_iff_toInt_lt]
  · rw [WallTime.before_iff,WallTime.instant_ofNano,WallTime.instant_ofNano,GoTime.ofNano_ns,
      GoTime.ofNano_ns]

end StCache
