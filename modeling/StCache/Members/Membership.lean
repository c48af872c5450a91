import StCache.Members.LogRecord

namespace StCache

namespace MemberCall

def peerAddress : MemberCall → GoString
  | .join peer => peer
  | .leave peer => peer

/-- What is asked of a configuration. -/
def Done (servers : List Server) : MemberCall → Prop
  | .join peer => ⟨.voter,peer,peer⟩∈servers
  | .leave peer => ∀ s∈servers,s.id≠peer

instance (servers : List Server) : (c : MemberCall) → Decidable (c.Done servers)
  | .join _ => inferInstanceAs (Decidable (_∈_))
  | .leave _ => inferInstanceAs (Decidable (∀ s∈_,_))

/-- The call is done, and no other server is touched. -/
structure Makes (c : MemberCall) (current next : List Server) : Prop where
  done : c.Done next
  others : otherServers c.peerAddress next=otherServers c.peerAddress current

def request : MemberCall → ChangeRequest
  | .join peer => {command := .addStaging,serverID := peer,serverAddress := peer}
  | .leave peer => {command := .removeServer,serverID := peer}

def notAllowed : MemberCall → GoString
  | .join _ => goStr "raft join method not allowed, leader is "
  | .leave _ => goStr "raft leave method not allowed, leader is "

theorem request_serverID (c : MemberCall) : c.request.serverID=c.peerAddress := by
  cases c <;> rfl

theorem handle_eq (c : MemberCall) (enableWrite : Bool) (leader : GoString) :
    c.handle enableWrite leader=
      memberHandler c.notAllowed (fun _ => c.request) enableWrite leader c.peerAddress := by
  cases c <;> rfl

theorem handle_ok {c : MemberCall} {enableWrite : Bool} {leader : GoString} {req : ChangeRequest}
    (h : c.handle enableWrite leader=.ok req) : req=c.request := by
  rw [handle_eq,memberHandler] at h
  split_ifs at h
  exact (Except.ok.inj h).symm

/-- A handler that stops before raft does not say ok. -/
theorem handle_error {c : MemberCall} {enableWrite : Bool} {leader text : GoString}
    (h : c.handle enableWrite leader=.error text) : text≠goStr "ok\n" := by
  rw [handle_eq,memberHandler] at h
  have first (rest : GoString) : 114::rest≠goStr "ok\n" := by
    intro same
    exact absurd (List.cons.inj same).1 (by decide)
  split_ifs at h
  · cases Except.error.inj h
    cases c with
    | join peer => exact first _
    | leave peer => exact first _
  · cases Except.error.inj h
    decide

end MemberCall

theorem mem_updateFirst {p : Server → Bool} {f : Server → Server} {servers : List Server}
    (found : ∃ s∈servers,p s=true) : ∃ s,p s=true ∧ f s∈updateFirst p f servers := by
  induction servers with
  | nil =>
    obtain ⟨s,hs,-⟩ := found
    exact absurd hs List.not_mem_nil
  | cons s servers ih =>
    rw [updateFirst]
    by_cases hp : p s=true
    · rw [if_pos hp]
      exact ⟨s,hp,List.mem_cons_self⟩
    · obtain ⟨x,hx,px⟩ := found
      have later : x∈servers := (List.mem_cons.mp hx).resolve_left (fun same => hp (same ▸ px))
      obtain ⟨y,py,hy⟩ := ih ⟨x,later,px⟩
      rw [if_neg hp]
      exact ⟨y,py,List.mem_cons_of_mem s hy⟩

theorem mem_addServer (id address : GoString) (servers : List Server) :
    ⟨.voter,id,address⟩∈addServer .voter (fun s => s.suffrage=.voter) id address servers := by
  rw [addServer]
  split_ifs with found
  · obtain ⟨s,hs,there⟩ := mem_updateFirst (p := fun s => decide (s.id=id))
      (f := fun s => if decide (s.suffrage=.voter)=true then {s with address := address}
        else ⟨.voter,id,address⟩) (List.any_eq_true.mp found)
    have named : s.id=id := by simpa using hs
    by_cases voter : s.suffrage=.voter
    · have same : ({s with address := address} : Server)=⟨.voter,id,address⟩ := by rw [voter,named]
      rw [if_pos (decide_eq_true voter),same] at there
      exact there
    · rw [if_neg (by simpa using voter)] at there
      exact there
  · exact List.mem_append_right servers List.mem_cons_self

theorem forall_eraseP_id {servers : List Server} (ids : (servers.map Server.id).Nodup)
    (id : GoString) : ∀ s∈servers.eraseP (fun s => s.id=id),s.id≠id := by
  induction servers with
  | nil =>
    intro s hs
    exact absurd hs List.not_mem_nil
  | cons x servers ih =>
    rw [List.map_cons,List.nodup_cons] at ids
    intro s hs
    by_cases first : x.id=id
    · rw [List.eraseP_cons_of_pos (by simpa using first)] at hs
      intro same
      exact ids.1 (List.mem_map.mpr ⟨s,hs,same.trans first.symm⟩)
    · rw [List.eraseP_cons_of_neg (by simpa using first)] at hs
      rcases List.mem_cons.mp hs with rfl|later
      · exact first
      · exact ih ids.2 s later

theorem MemberCall.makes (c : MemberCall) {current : List Server}
    (ids : (current.map Server.id).Nodup) : c.Makes current (c.request.change current) := by
  refine ⟨?_,?_⟩
  · cases c with
    | join peer => exact mem_addServer peer peer current
    | leave peer => exact forall_eraseP_id ids peer
  · rw [←c.request_serverID]
    exact otherServers_change c.request current

/-- The call was made by the configuration at the index. -/
def Applied (log : List LogEntry) (index : Nat) (c : MemberCall) : Prop :=
  ∃ before entry after servers,log=before++entry::after ∧ index=before.length+1 ∧
    entry.data=.configuration servers ∧ c.Makes (scan before).latest servers

namespace Applied
variable {log : List LogEntry} {index : Nat} {c : MemberCall}

theorem append (h : Applied log index c) (entries : List LogEntry) :
    Applied (log++entries) index c := by
  obtain ⟨before,entry,after,servers,rfl,place,he,made⟩ := h
  exact ⟨before,entry,after++entries,servers,List.append_assoc _ _ _,place,he,made⟩

end Applied

/-- The calls answered with ok. -/
def acknowledged (answers : List (MemberCall × GoString)) : List MemberCall :=
  (answers.filter (fun a => a.2=goStr "ok\n")).map Prod.fst

theorem acknowledged_append (xs ys : List (MemberCall × GoString)) :
    acknowledged (xs++ys)=acknowledged xs++acknowledged ys := by
  rw [acknowledged,List.filter_append,List.map_append]
  rfl

theorem acknowledged_failed {ys : List (MemberCall × GoString)}
    (failed : ∀ y∈ys,y.2≠goStr "ok\n") (xs : List (MemberCall × GoString)) :
    acknowledged (xs++ys)=acknowledged xs := by
  have none : ys.filter (fun a => a.2=goStr "ok\n")=[] := by
    rw [List.filter_eq_nil_iff]
    intro y hy
    simpa using failed y hy
  rw [acknowledged_append,acknowledged.eq_def ys,none]
  exact List.append_nil _

theorem acknowledged_ok (xs : List (MemberCall × GoString)) (c : MemberCall) :
    acknowledged (xs++[(c,goStr "ok\n")])=acknowledged xs++[c] := by
  rw [acknowledged_append]
  simp [acknowledged]

/-- The one call that waits for the latest configuration to be committed. -/
structure Waits (log : List LogEntry) (c : Configurations) (known : Nat)
    (inflight : List (Nat × MemberCall)) (call : MemberCall) : Prop where
  alone : inflight=[(c.latestIndex,call)]
  unknown : known<c.latestIndex
  outstanding : c.committedIndex<c.latestIndex
  applied : Applied log c.latestIndex call

namespace Raft

def Tracks (s : Raft) : Prop :=
  Tracked s.log s.configurations s.commitIndex s.known s.snapshot s.pending s.compacted

/-- What the server holds for its callers. -/
def Serves (s : Raft) : Prop :=
  s.inflight=[] ∨ ∃ call,Waits s.log s.configurations s.known s.inflight call

structure Sound (s : Raft) : Prop where
  tracks : s.Tracks
  serves : s.Serves
  idle : s.startIndex=none → s.inflight=[]

/-- What the server relies on where it follows: the leader's log is made by the same rules and does
not contradict what is committed, and a snapshot finds a follower that is behind it and takes no
snapshot itself. -/
def Relies (s : Raft) : RaftEvent → Prop
  | .appendEntries a =>
    s.currentTerm ≤ a.term → s.Matches a →
      ∀ new∈newEntries s.compacted s.log a.prevLogEntry a.entries,
        s.configurations.committedIndex ≤ new.1 ∧ s.known ≤ new.1 ∧
          Chained (s.log.take new.1++new.2)
  | .installSnapshot r =>
    s.currentTerm ≤ r.term → (s.startIndex=none ∨ s.currentTerm < r.term) ∧ s.pending=none ∧
      s.known ≤ r.history.length ∧ s.log.length ≤ r.history.length ∧ Chained r.history ∧
      r.snapshot.configurations=(scan r.history).settle ∧ r.configurationIndex≠0
  | _ => True

variable {s t : Raft}

theorem sound_init (localID : GoString) (trailingLogs : Nat) :
    Sound {localID := localID,trailingLogs := trailingLogs} := by
  refine ⟨⟨chained_nil,.inl rfl,Nat.le_refl 0,Nat.le_refl 0,fun _ => rfl,rfl,Nat.le_refl 0,?_,
    Nat.le_refl 0⟩,.inl rfl,fun _ => rfl⟩
  intro p hp
  cases hp

theorem Sound.follow (h : s.Sound) (term : Nat) : (s.follow term).Sound :=
  ⟨h.tracks,.inl rfl,fun _ => rfl⟩

theorem Sound.dispatchLog (h : s.Sound) (leads : s.startIndex≠none) : (s.dispatchLog .other).Sound := by
  have same : StCache.scan (s.log++[⟨s.currentTerm,.other⟩])=StCache.scan s.log :=
    scan_other s.log _ rfl
  refine ⟨h.tracks.append (h.tracks.chained.snoc ?_) ?_ (.inl rfl),?_,fun none => absurd none leads⟩
  · intro servers none
    cases none
  · rw [Mirrors,same]
    exact h.tracks.mirrors
  · rcases h.serves with free|⟨call,w⟩
    · exact .inl free
    · exact .inr ⟨call,w.alone,w.unknown,w.outstanding,w.applied.append _⟩

theorem Sound.takeOver (h : s.Sound) : s.takeOver.Sound := by
  have started : Sound {s with startIndex := some (s.log.length+1)} :=
    ⟨h.tracks,h.serves,fun none => absurd none (Option.some_ne_none _)⟩
  exact started.dispatchLog (Option.some_ne_none _)

theorem Sound.setConfiguration (h : s.Sound) {c : MemberCall} {servers : List Server}
    (leads : s.startIndex≠none)
    (stable : s.configurations.latestIndex=s.configurations.committedIndex)
    (next : nextConfiguration s.configurations.latest s.configurations.latestIndex c.request=
      .ok servers) : (s.setConfiguration c servers).Sound := by
  have latest := h.tracks.mirrors.latest
  have short := scan_latestIndex_le s.log
  -- Nothing is in flight: what is in flight is not committed yet.
  have free : s.inflight=[] := by
    rcases h.serves with none|⟨call,w⟩
    · exact none
    · exact absurd stable.symm (Nat.ne_of_lt w.outstanding)
  refine ⟨h.tracks.append (h.tracks.chained.snoc ?_) (h.tracks.mirrors.change stable rfl)
    (.inr (Nat.lt_succ_self _)),.inr ⟨c,?_,?_,?_,?_⟩,fun none => absurd none leads⟩
  · intro new hn
    cases hn
    rw [←latest.1]
    exact ⟨_,_,next⟩
  · show s.inflight++[(s.log.length+1,c)]=[(s.log.length+1,c)]
    rw [free,List.nil_append]
  · exact Nat.lt_succ_of_le h.tracks.bounded
  · show s.configurations.committedIndex<s.log.length+1
    rw [←stable,latest.2]
    exact Nat.lt_succ_of_le short
  · obtain ⟨-,rfl,-⟩ := (nextConfiguration_ok_iff _ _ _ _).mp next
    refine ⟨s.log,_,[],_,rfl,rfl,rfl,?_⟩
    rw [latest.1]
    exact c.makes h.tracks.chained.ids

/-- The latest configuration is committed. -/
theorem Sound.respond_settled (h : s.Sound) {index : Nat} (grows : s.commitIndex ≤ index)
    (short : index ≤ s.log.length) (reached : s.configurations.latestIndex ≤ index) :
    ((s.setCommitIndex index).settle.respond).Sound := by
  have free : s.inflight.filter (fun f => index<f.1)=[] := by
    rcases h.serves with none|⟨call,w⟩
    · rw [none,List.filter_nil]
    · rw [w.alone,List.filter_eq_nil_iff]
      intro f hf
      cases List.mem_singleton.mp hf
      simpa using reached
  exact ⟨h.tracks.commit grows short h.tracks.mirrors.settle (fun _ => rfl),.inl free,fun _ => free⟩

/-- Other entries are committed: the call that waits goes on waiting. -/
theorem Sound.respond_other (h : s.Sound) {index : Nat} (grows : s.commitIndex ≤ index)
    (short : index ≤ s.log.length)
    (other : ¬(s.commitIndex<s.configurations.latestIndex ∧ s.configurations.latestIndex ≤ index)) :
    ((s.setCommitIndex index).respond).Sound := by
  refine ⟨h.tracks.commit grows short h.tracks.mirrors ?_,?_,fun none => ?_⟩
  · intro reached
    refine h.tracks.settled ?_
    have old : s.configurations.latestIndex ≤ s.commitIndex ∨
        s.configurations.latestIndex ≤ s.snapshot.index := by
      rcases le_max_iff.mp reached with now|saved
      · exact .inl (Nat.le_of_not_lt (fun late => other ⟨late,now⟩))
      · exact .inr saved
    exact le_max_iff.mpr old
  · rcases h.serves with none|⟨call,w⟩
    · refine .inl ?_
      show s.inflight.filter (fun f => index<f.1)=[]
      rw [none,List.filter_nil]
    · have early : index<s.configurations.latestIndex := by
        have late := Nat.lt_of_le_of_lt h.tracks.committed w.unknown
        exact Nat.lt_of_not_le (fun reached => other ⟨late,reached⟩)
      refine .inr ⟨call,?_,Nat.max_lt.mpr ⟨w.unknown,early⟩,w.outstanding,w.applied⟩
      show s.inflight.filter (fun f => index<f.1)=[(s.configurations.latestIndex,call)]
      rw [w.alone,List.filter_cons_of_pos (by simpa using early),List.filter_nil]
  · show s.inflight.filter (fun f => index<f.1)=[]
    rw [h.idle none,List.filter_nil]

theorem Sound.leaderCommit (h : s.Sound) {index : Nat} (grows : s.commitIndex ≤ index)
    (short : index ≤ s.log.length) : (s.leaderCommit index).Sound := by
  rw [Raft.leaderCommit]
  split_ifs with reached
  · have settled := h.respond_settled grows short reached.2
    rw [Raft.checkVote]
    split_ifs
    · exact settled
    · have follows := settled.follow (s.setCommitIndex index).settle.respond.currentTerm
      exact ⟨follows.tracks,follows.serves,follows.idle⟩
  · exact h.respond_other grows short reached

/-- A follower's record, where no call waits. -/
structure Follows (s : Raft) : Prop where
  tracks : s.Tracks
  idle : s.inflight=[]

theorem Follows.sound (h : s.Follows) : s.Sound := ⟨h.tracks,.inl h.idle,fun _ => h.idle⟩

theorem Follows.truncate (h : s.Follows) {kept : Nat}
    (committed : s.configurations.committedIndex ≤ kept) (known : s.known ≤ kept) :
    (s.truncate kept).Follows := by
  rw [Raft.truncate]
  split_ifs
  · exact ⟨h.tracks.truncate committed known,h.idle⟩
  · exact h

theorem truncate_log (s : Raft) (kept : Nat) : (s.truncate kept).log=s.log.take kept := by
  rw [Raft.truncate]
  split_ifs with cut
  · rfl
  · exact (List.take_of_length_le (Nat.le_of_not_lt cut)).symm

theorem Follows.store (h : s.Follows) {entries : List LogEntry}
    (chained : Chained (s.log++entries)) : (s.store entries).Follows :=
  ⟨h.tracks.append chained (h.tracks.mirrors.store entries)
    (s.configurations.processEntries_latest s.log.length entries),h.idle⟩

theorem Follows.followerCommit (h : s.Follows) (leaderCommitIndex : Nat) :
    (s.followerCommit leaderCommitIndex).Follows := by
  rw [Raft.followerCommit]
  split_ifs with new
  · have grows : s.commitIndex ≤ min leaderCommitIndex s.log.length :=
      Nat.le_min.mpr ⟨Nat.le_of_lt new,h.tracks.committed.trans h.tracks.bounded⟩
    have short := Nat.min_le_right leaderCommitIndex s.log.length
    rw [Raft.settleReached]
    split_ifs with reached
    · exact ⟨h.tracks.commit grows short h.tracks.mirrors.settle (fun _ => rfl),h.idle⟩
    · refine ⟨h.tracks.commit grows short h.tracks.mirrors (fun either => ?_),h.idle⟩
      refine h.tracks.settled (le_max_iff.mpr (.inr ?_))
      exact (le_max_iff.mp either).resolve_left reached
  · exact h

theorem Sound.appendEntries (h : s.Sound) (a : AppendEntriesRequest)
    (relies : s.Relies (.appendEntries a)) : (s.appendEntries a).Sound := by
  rw [Raft.appendEntries]
  split_ifs with old
  · exact h
  · have follows : (s.follow a.term).Follows := ⟨h.tracks,rfl⟩
    rw [Raft.receiveEntries]
    split_ifs with agree
    · cases found : newEntries s.compacted s.log a.prevLogEntry a.entries with
      | none =>
        rw [show newEntries (s.follow a.term).compacted (s.follow a.term).log a.prevLogEntry
          a.entries=none from found]
        exact follows.sound
      | some new =>
        rw [show newEntries (s.follow a.term).compacted (s.follow a.term).log a.prevLogEntry
          a.entries=some new from found]
        obtain ⟨committed,known,chained⟩ := relies (Nat.le_of_not_lt old) agree new found
        refine (((follows.truncate committed known).store ?_).followerCommit _).sound
        rw [truncate_log]
        exact chained
    · exact follows.sound

theorem Follows.restoreSnapshot (h : s.Follows) {r : InstallSnapshotRequest} (free : s.pending=none)
    (known : s.known ≤ r.history.length) (behind : s.log.length ≤ r.history.length)
    (chained : Chained r.history) (records : r.snapshot.configurations=(scan r.history).settle) :
    (s.restoreSnapshot r).Follows := by
  have tracks := h.tracks
  rw [Tracks,free] at tracks
  refine ⟨?_,h.idle⟩
  rw [Tracks,Raft.restoreSnapshot,List.drop_eq_nil_of_le behind,List.append_nil,free]
  exact tracks.install chained rfl records known

theorem Sound.installSnapshot (h : s.Sound) (r : InstallSnapshotRequest)
    (relies : s.Relies (.installSnapshot r)) : (s.installSnapshot r).Sound := by
  rw [Raft.installSnapshot]
  split_ifs with old new
  · exact h
  · obtain ⟨-,free,known,behind,chained,records,-⟩ := relies (Nat.le_of_not_lt old)
    have follows : (s.follow r.term).Follows := ⟨h.tracks,rfl⟩
    exact (follows.restoreSnapshot free known behind chained records).sound
  · obtain ⟨role,free,known,behind,chained,records,-⟩ := relies (Nat.le_of_not_lt old)
    have follows : s.Follows := ⟨h.tracks,h.idle (role.resolve_right new)⟩
    exact (follows.restoreSnapshot free known behind chained records).sound

theorem Sound.bootstrap (h : s.Sound) {address : GoString} (idle : s.startIndex=none)
    (fresh : s.log=[]) (checked : checkConfiguration [⟨.voter,s.localID,address⟩]=.ok ()) :
    (s.bootstrap address).Sound := by
  have next : Succeeds [] [⟨.voter,s.localID,address⟩] := by
    refine ⟨0,{command := .addStaging,serverID := s.localID,serverAddress := address},?_⟩
    rw [nextConfiguration_ok_iff]
    exact ⟨.inl rfl,rfl,(checkConfiguration_ok_iff _).mp checked⟩
  have follows : Follows {s with currentTerm := 1} := ⟨h.tracks,h.idle idle⟩
  refine (follows.store (h.tracks.chained.snoc ?_)).sound
  intro servers same
  cases same
  rw [fresh]
  exact next

/-- What one step can be. -/
inductive Steps (s : Raft) : RaftEvent → Raft → Prop
  | founds {address : GoString} (idle : s.startIndex=none) (term : s.currentTerm=0)
    (fresh : s.log=[]) (checked : checkConfiguration [⟨.voter,s.localID,address⟩]=.ok ()) :
    Steps s (.bootstrap address) (s.bootstrap address)
  | leads (idle : s.startIndex=none) : Steps s .elected s.takeOver
  | refuses {enableWrite received : Bool} {leader text : GoString} {c : MemberCall}
    (failed : text≠goStr "ok\n") : Steps s (.call enableWrite leader received c) (s.answer c text)
  | changes {enableWrite received : Bool} {leader : GoString} {c : MemberCall} {start : Nat}
    {servers : List Server} (leads : s.startIndex=some start) (stable : s.Stable start)
    (next : nextConfiguration s.configurations.latest s.configurations.latestIndex c.request=
      .ok servers) : Steps s (.call enableWrite leader received c) (s.setConfiguration c servers)
  | dispatches (leads : s.startIndex≠none) : Steps s .dispatch (s.dispatchLog .other)
  | commits (index : Nat) {start : Nat} (leads : s.startIndex=some start) (grows : s.commitIndex < index)
    (short : index ≤ s.log.length) : Steps s (.commit index) (s.leaderCommit index)
  | stepsDown (term : Nat) (later : s.currentTerm≤term) : Steps s (.stepDown term) (s.follow term)
  | hears {term : Nat} : Steps s (.heartbeat term) {s with currentTerm := term}
  | receives (a : AppendEntriesRequest) : Steps s (.appendEntries a) (s.appendEntries a)
  | installs (r : InstallSnapshotRequest) : Steps s (.installSnapshot r) (s.installSnapshot r)
  | takes {index : Nat} (may : s.MaySnapshot index) :
    Steps s (.takeSnapshot index) (s.takeSnapshot index)
  | cancels : Steps s .cancelSnapshot {s with pending := none}
  | closes {p : Snapshot} (taken : s.pending=some p) :
    Steps s .closeSnapshot {s with snapshot := p,pending := none}
  | compacts : Steps s .compactLogs s.compactLogs
  | restarts : Steps s .restart s.restart

theorem call_steps {enableWrite received : Bool} {leader : GoString} {c : MemberCall}
    (hs : s.process (.call enableWrite leader received c)=some t) :
    s.Steps (.call enableWrite leader received c) t := by
  rw [process] at hs
  cases handled : c.handle enableWrite leader with
  | error text =>
    rw [handled] at hs
    cases hs
    exact .refuses (MemberCall.handle_error handled)
  | ok req =>
    rw [handled] at hs
    cases MemberCall.handle_ok handled
    dsimp only at hs
    by_cases lost : received=false
    · rw [if_pos lost] at hs
      cases hs
      exact .refuses (by decide)
    · rw [if_neg lost] at hs
      cases leads : s.startIndex with
      | none =>
        rw [leads] at hs
        cases hs
        exact .refuses (by decide)
      | some start =>
        rw [leads] at hs
        dsimp only at hs
        split_ifs at hs with stable
        cases hs
        rw [appendConfigurationEntry]
        cases next : nextConfiguration s.configurations.latest s.configurations.latestIndex
          c.request with
        | error e => exact .refuses (by decide)
        | ok servers => exact .changes leads stable next

theorem process_steps {e : RaftEvent} (hs : s.process e=some t) : s.Steps e t := by
  cases e with
  | bootstrap address =>
    rw [process] at hs
    split_ifs at hs with fresh
    cases hs
    exact .founds fresh.1 fresh.2.1 fresh.2.2.1 fresh.2.2.2.2
  | elected =>
    rw [process] at hs
    split_ifs at hs with idle
    cases hs
    exact .leads idle
  | call enableWrite leader received c => exact call_steps hs
  | dispatch =>
    rw [process] at hs
    split_ifs at hs with leads
    cases hs
    refine .dispatches (fun none => ?_)
    rw [none] at leads
    cases leads
  | commit index =>
    rw [process] at hs
    cases leads : s.startIndex with
    | none =>
      rw [leads] at hs
      cases hs
    | some start =>
      rw [leads] at hs
      dsimp only at hs
      split_ifs at hs with range
      cases hs
      exact .commits index leads range.1 range.2.2
  | stepDown term =>
    rw [process] at hs
    split_ifs at hs with later
    cases hs
    exact .stepsDown term later
  | heartbeat term =>
    cases hs
    exact .hears
  | appendEntries a =>
    rw [process] at hs
    split_ifs at hs
    cases hs
    exact .receives a
  | installSnapshot r =>
    cases hs
    exact .installs r
  | takeSnapshot index =>
    rw [process] at hs
    split_ifs at hs with may
    cases hs
    exact .takes may
  | cancelSnapshot =>
    cases hs
    exact .cancels
  | closeSnapshot =>
    obtain ⟨p,taken,rfl⟩ := Option.map_eq_some_iff.mp hs
    exact .closes taken
  | compactLogs =>
    cases hs
    exact .compacts
  | restart =>
    rw [process] at hs
    split_ifs at hs
    cases hs
    exact .restarts

theorem step_steps {e : RaftEvent} (hs : s.step e=some t) : s.Steps e t := by
  rw [step] at hs
  split_ifs at hs
  exact process_steps hs

theorem Sound.step {e : RaftEvent} (h : s.Sound) (relies : s.Relies e) (hs : s.step e=some t) :
    t.Sound := by
  cases step_steps hs with
  | founds idle _ fresh checked => exact h.bootstrap idle fresh checked
  | leads => exact h.takeOver
  | refuses => exact ⟨h.tracks,h.serves,h.idle⟩
  | changes leads stable next =>
    exact h.setConfiguration (fun none => Option.some_ne_none _ (leads.symm.trans none)) stable.1 next
  | dispatches leads => exact h.dispatchLog leads
  | commits index _ grows short => exact h.leaderCommit grows.le short
  | stepsDown term => exact h.follow term
  | hears => exact ⟨h.tracks,h.serves,h.idle⟩
  | receives a => exact h.appendEntries a relies
  | installs r => exact h.installSnapshot r relies
  | takes may =>
    obtain ⟨-,-,above,below,committed⟩ := may
    exact ⟨h.tracks.take above below committed,h.serves,h.idle⟩
  | cancels => exact ⟨h.tracks.cancel,h.serves,h.idle⟩
  | closes taken => exact ⟨h.tracks.close taken,h.serves,h.idle⟩
  | compacts =>
    rw [compactLogs]
    split_ifs
    · exact h
    · exact ⟨h.tracks.compact _,h.serves,h.idle⟩
  | restarts => exact ⟨h.tracks.restart,.inl rfl,fun _ => rfl⟩

theorem sound_run {localID : GoString} {trailingLogs : Nat} {es : List RaftEvent}
    (relies : Along Raft.step Relies {localID := localID,trailingLogs := trailingLogs} es)
    (hr : run Raft.step {localID := localID,trailingLogs := trailingLogs} es=some s) : s.Sound :=
  run_invariant Raft.step Relies Sound (fun _ _ _ h relies hs => h.step relies hs) es _ s
    (sound_init localID trailingLogs) relies hr

/-- What the entries of a request leave alone. -/
theorem receiveEntries_frame (s : Raft) (a : AppendEntriesRequest) :
    ∃ log configurations commitIndex known,s.receiveEntries a=
      {s with
        log := log
        configurations := configurations
        commitIndex := commitIndex
        known := known} := by
  rw [receiveEntries]
  split_ifs
  · split
    · exact ⟨_,_,_,_,rfl⟩
    · rw [followerCommit,settleReached,truncate]
      split_ifs <;> exact ⟨_,_,_,_,rfl⟩
  · exact ⟨_,_,_,_,rfl⟩

/-- The calls that have an answer or wait for one. -/
def held (s : Raft) : List MemberCall := s.answers.map Prod.fst++s.inflight.map Prod.snd

theorem held_follow (s : Raft) (term : Nat) : (s.follow term).held=s.held := by
  simp [held,Raft.follow,Function.comp_def]

theorem held_respond (s : Raft) : s.respond.held.Perm s.held := by
  have split := List.filter_append_perm (fun f : Nat × MemberCall => decide (f.1 ≤ s.commitIndex))
    s.inflight
  have rest : s.inflight.filter (fun f => decide (s.commitIndex<f.1))=
      s.inflight.filter (fun f => !decide (f.1 ≤ s.commitIndex)) := by
    refine List.filter_congr (fun f _ => ?_)
    rw [←decide_not,decide_eq_decide]
    exact Nat.not_le.symm
  rw [held,respond,rest,List.map_append,List.map_map,held,List.append_assoc]
  refine List.Perm.append_left _ ?_
  have moved := split.map Prod.snd
  rw [List.map_append] at moved
  exact moved

theorem held_leaderCommit (s : Raft) (index : Nat) : (s.leaderCommit index).held.Perm s.held := by
  rw [leaderCommit]
  split_ifs
  · rw [checkVote]
    split_ifs
    · exact held_respond _
    · have follows := held_follow (s.setCommitIndex index).settle.respond
        (s.setCommitIndex index).settle.respond.currentTerm
      exact (List.Perm.of_eq follows).trans (held_respond _)
  · exact held_respond _

end Raft

/-- The calls of an event. -/
def RaftEvent.calls : RaftEvent → List MemberCall
  | .call _ _ _ c => [c]
  | _ => []

namespace Raft
variable {s t : Raft}

theorem Steps.held {e : RaftEvent} (h : s.Steps e t) : t.held.Subperm (s.held++e.calls) := by
  -- Only a call adds something.
  have calm (less : t.held.Subperm s.held) : t.held.Subperm (s.held++e.calls) :=
    less.trans (List.sublist_append_left _ _).subperm
  cases h with
  | refuses =>
    refine List.Perm.subperm ?_
    rw [Raft.held,answer,List.map_append,List.append_assoc,Raft.held,List.append_assoc]
    exact List.perm_append_comm.append_left _
  | changes =>
    refine List.Perm.subperm ?_
    rw [Raft.held,setConfiguration,List.map_append,←List.append_assoc]
    exact List.Perm.refl _
  | commits index => exact calm (held_leaderCommit s index).subperm
  | stepsDown term => exact calm (List.Perm.of_eq (held_follow s term)).subperm
  | receives a =>
    refine calm ?_
    rw [appendEntries]
    split_ifs
    · exact List.Subperm.refl _
    · obtain ⟨log,c,i,k,same⟩ := (s.follow a.term).receiveEntries_frame a
      rw [same]
      exact (List.Perm.of_eq (held_follow s a.term)).subperm
  | installs r =>
    refine calm ?_
    rw [installSnapshot]
    split_ifs
    · exact List.Subperm.refl _
    · exact (List.Perm.of_eq (held_follow s r.term)).subperm
    · exact List.Subperm.refl _
  | compacts =>
    refine calm ?_
    rw [compactLogs]
    split_ifs <;> exact List.Subperm.refl _
  | restarts => exact calm (List.Sublist.append_left (List.nil_sublist _) _).subperm
  | _ => exact calm (List.Subperm.refl _)

theorem acknowledged_follow (s : Raft) (term : Nat) :
    acknowledged (s.follow term).answers=acknowledged s.answers := by
  refine acknowledged_failed ?_ s.answers
  intro y hy
  obtain ⟨f,-,rfl⟩ := List.mem_map.mp hy
  show goStr "internal error\n"≠goStr "ok\n"
  decide

/-- The call whose configuration is committed is answered. -/
theorem Serves.answered (h : s.Serves) (index : Nat) :
    acknowledged (s.answers++
        (s.inflight.filter (fun f => f.1 ≤ index)).map (fun f => (f.2,goStr "ok\n")))=
      acknowledged s.answers ∨
    ∃ c,acknowledged (s.answers++
        (s.inflight.filter (fun f => f.1 ≤ index)).map (fun f => (f.2,goStr "ok\n")))=
        acknowledged s.answers++[c] ∧
      Waits s.log s.configurations s.known s.inflight c ∧ s.configurations.latestIndex ≤ index := by
  rcases h with none|⟨c,w⟩
  · refine .inl ?_
    rw [none,List.filter_nil,List.map_nil,List.append_nil]
  · by_cases reached : s.configurations.latestIndex ≤ index
    · refine .inr ⟨c,?_,w,reached⟩
      rw [w.alone,List.filter_cons_of_pos (by simpa using reached),List.filter_nil,
        List.map_singleton,acknowledged_ok]
    · refine .inl ?_
      rw [w.alone,List.filter_cons_of_neg (by simpa using reached),List.filter_nil,List.map_nil,
        List.append_nil]

theorem leaderCommit_fields (s : Raft) (index : Nat) :
    acknowledged (s.leaderCommit index).answers=acknowledged (s.answers++
        (s.inflight.filter (fun f => f.1 ≤ index)).map (fun f => (f.2,goStr "ok\n"))) ∧
      (s.leaderCommit index).commitIndex=index ∧ (s.leaderCommit index).log=s.log ∧
      (s.leaderCommit index).localID=s.localID ∧
      (s.leaderCommit index).currentTerm=s.currentTerm := by
  rw [leaderCommit]
  split_ifs
  · rw [checkVote]
    split_ifs
    · exact ⟨rfl,rfl,rfl,rfl,rfl⟩
    · have follows := acknowledged_follow (s.setCommitIndex index).settle.respond
        (s.setCommitIndex index).settle.respond.currentTerm
      exact ⟨follows,rfl,rfl,rfl,rfl⟩
  · exact ⟨rfl,rfl,rfl,rfl,rfl⟩

end Raft

end StCache
