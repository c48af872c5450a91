import StCache.Framework.Runs
import StCache.Members.Configuration

namespace StCache

inductive LogData where
  | configuration (servers : List Server)
  | other
  deriving DecidableEq

structure LogEntry where
  term : Nat
  data : LogData
  deriving DecidableEq

structure Configurations where
  committed : List Server := []
  committedIndex : Nat := 0
  latest : List Server := []
  latestIndex : Nat := 0
  deriving DecidableEq

namespace Configurations

/-- The latest configuration becomes the committed one. -/
def settle (c : Configurations) : Configurations :=
  {c with committed := c.latest,committedIndex := c.latestIndex}

/-- The latest configuration is taken back. -/
def revert (c : Configurations) : Configurations :=
  {c with latest := c.committed,latestIndex := c.committedIndex}

/-- The log is cut after the given index. -/
def truncate (c : Configurations) (kept : Nat) : Configurations :=
  if kept+1 ≤ c.latestIndex then c.revert else c

def processConfigurationLogEntry (c : Configurations) (index : Nat) (entry : LogEntry) :
    Configurations :=
  match entry.data with
  | .configuration servers => {c.settle with latest := servers,latestIndex := index}
  | .other => c

/-- The entries that follow the given index. -/
def processEntries (c : Configurations) : Nat → List LogEntry → Configurations
  | _,[] => c
  | index,entry::entries =>
    processEntries (c.processConfigurationLogEntry (index+1) entry) (index+1) entries

end Configurations

/-- NewRaft's scan through the log. -/
def scan (log : List LogEntry) : Configurations := ({} : Configurations).processEntries 0 log

/-- The loop of appendEntries: how much of the log stays, and which entries are new. It ends where an
entry is no longer stored. -/
def newEntries (compacted : Nat) (log : List LogEntry) :
    Nat → List LogEntry → Option (Nat × List LogEntry)
  | _,[] => some (log.length,[])
  | index,entry::entries =>
    match log[index]? with
    | none => some (log.length,entry::entries)
    | some storeEntry =>
      if index<compacted then none
      else if entry.term≠storeEntry.term then some (index,entry::entries)
      else newEntries compacted log (index+1) entries

def hasVote (servers : List Server) (id : GoString) : Bool :=
  match servers.find? (fun s => s.id=id) with
  | some s => s.suffrage=.voter
  | none => false

/-- The two handlers differ in the text of their refusal and in the change they ask for. -/
def memberHandler (notAllowed : GoString) (change : GoString → ChangeRequest) (enableWrite : Bool)
    (leader peerAddress : GoString) : Except GoString ChangeRequest :=
  if enableWrite=false then .error (notAllowed++leader++goStr "\n")
  else if peerAddress=[] then .error (goStr "invalid peerAddress\n")
  else .ok (change peerAddress)

def doJoin : Bool → GoString → GoString → Except GoString ChangeRequest :=
  memberHandler (goStr "raft join method not allowed, leader is ")
    (fun peer => {command := .addStaging,serverID := peer,serverAddress := peer})

def doLeave : Bool → GoString → GoString → Except GoString ChangeRequest :=
  memberHandler (goStr "raft leave method not allowed, leader is ")
    (fun peer => {command := .removeServer,serverID := peer})

inductive MemberCall where
  | join (peerAddress : GoString)
  | leave (peerAddress : GoString)
  deriving DecidableEq

def MemberCall.handle (enableWrite : Bool) (leader : GoString) :
    MemberCall → Except GoString ChangeRequest
  | .join peer => doJoin enableWrite leader peer
  | .leave peer => doLeave enableWrite leader peer

structure AppendEntriesRequest where
  term : Nat
  prevLogEntry : Nat
  prevLogTerm : Nat
  entries : List LogEntry
  leaderCommitIndex : Nat
  deriving DecidableEq

/-- A snapshot of the server with these entries; its last index and term are those of the last of
them. -/
structure InstallSnapshotRequest where
  term : Nat
  history : List LogEntry
  configuration : List Server
  configurationIndex : Nat
  deriving DecidableEq

/-- What raft itself keeps in a snapshot; index 0 stands for none. -/
structure Snapshot where
  index : Nat := 0
  configuration : List Server := []
  configurationIndex : Nat := 0
  deriving DecidableEq

def Snapshot.configurations (p : Snapshot) : Configurations :=
  ⟨p.configuration,p.configurationIndex,p.configuration,p.configurationIndex⟩

def InstallSnapshotRequest.snapshot (r : InstallSnapshotRequest) : Snapshot :=
  ⟨r.history.length,r.configuration,r.configurationIndex⟩

/-- A server. The log has all entries from index 1 on: those up to compacted are no longer stored, and
those up to installed came with a snapshot. The field startIndex is that of the leader's commitment;
known is the highest index that the server has known to be committed, over its restarts. -/
structure Raft where
  localID : GoString
  trailingLogs : Nat := 10240
  currentTerm : Nat := 0
  log : List LogEntry := []
  compacted : Nat := 0
  installed : Nat := 0
  snapshot : Snapshot := {}
  pending : Option Snapshot := none
  configurations : Configurations := {}
  commitIndex : Nat := 0
  startIndex : Option Nat := none
  inflight : List (Nat × MemberCall) := []
  answers : List (MemberCall × GoString) := []
  known : Nat := 0
  shutdown : Bool := false
  deriving DecidableEq

inductive RaftEvent where
  | bootstrap (address : GoString)
  | elected
  | call (enableWrite : Bool) (leader : GoString) (received : Bool) (c : MemberCall)
  | dispatch
  | commit (index : Nat)
  | stepDown (term : Nat)
  | heartbeat (term : Nat)
  | appendEntries (a : AppendEntriesRequest)
  | installSnapshot (r : InstallSnapshotRequest)
  | takeSnapshot (index : Nat)
  | cancelSnapshot
  | closeSnapshot
  | compactLogs
  | restart
  deriving DecidableEq

/-- Whether the main loop takes the event. -/
def RaftEvent.inLoop : RaftEvent → Bool
  | .call enableWrite leader received c => received && (c.handle enableWrite leader).isOk
  | .cancelSnapshot => false
  | .closeSnapshot => false
  | .compactLogs => false
  | .restart => false
  | _ => true

namespace Raft

def answer (s : Raft) (c : MemberCall) (text : GoString) : Raft :=
  {s with answers := s.answers++[(c,text)]}

def internalError (s : Raft) (c : MemberCall) : Raft := s.answer c (goStr "internal error\n")

/-- A follower of the term; what a leader had in flight is answered with an error. -/
def follow (s : Raft) (term : Nat) : Raft :=
  {s with
    currentTerm := term
    startIndex := none
    inflight := []
    answers := s.answers++s.inflight.map (fun f => (f.2,goStr "internal error\n"))}

def dispatchLog (s : Raft) (data : LogData) : Raft :=
  {s with log := s.log++[⟨s.currentTerm,data⟩]}

def setConfiguration (s : Raft) (c : MemberCall) (servers : List Server) : Raft :=
  {s.dispatchLog (.configuration servers) with
    configurations :=
      {s.configurations with latest := servers,latestIndex := s.log.length+1}
    inflight := s.inflight++[(s.log.length+1,c)]}

def appendConfigurationEntry (s : Raft) (c : MemberCall) (req : ChangeRequest) : Raft :=
  match nextConfiguration s.configurations.latest s.configurations.latestIndex req with
  | .error _ => s.internalError c
  | .ok servers => s.setConfiguration c servers

def setCommitIndex (s : Raft) (index : Nat) : Raft :=
  {s with commitIndex := index,known := max s.known index}

/-- The leader's answers to what is committed. -/
def respond (s : Raft) : Raft :=
  {s with
    inflight := s.inflight.filter (fun f => s.commitIndex<f.1)
    answers := s.answers++
      (s.inflight.filter (fun f => f.1 ≤ s.commitIndex)).map (fun f => (f.2,goStr "ok\n"))}

def settle (s : Raft) : Raft := {s with configurations := s.configurations.settle}

/-- A leader without a vote in the committed configuration shuts down. -/
def checkVote (s : Raft) : Raft :=
  if hasVote s.configurations.committed s.localID then s
  else {s.follow s.currentTerm with shutdown := true}

/-- The case of commitCh in leaderLoop. -/
def leaderCommit (s : Raft) (index : Nat) : Raft :=
  if s.commitIndex<s.configurations.latestIndex ∧ s.configurations.latestIndex ≤ index then
    (s.setCommitIndex index).settle.respond.checkVote
  else (s.setCommitIndex index).respond

def truncate (s : Raft) (kept : Nat) : Raft :=
  if kept<s.log.length then
    {s with log := s.log.take kept,configurations := s.configurations.truncate kept}
  else s

def store (s : Raft) (entries : List LogEntry) : Raft :=
  {s with
    log := s.log++entries
    configurations := s.configurations.processEntries s.log.length entries}

def settleReached (s : Raft) : Raft :=
  if s.configurations.latestIndex ≤ s.commitIndex then s.settle else s

def followerCommit (s : Raft) (leaderCommitIndex : Nat) : Raft :=
  if s.commitIndex<leaderCommitIndex then
    (s.setCommitIndex (min leaderCommitIndex s.log.length)).settleReached
  else s

/-- An entry that is still stored. -/
def getLog (s : Raft) (index : Nat) : Option LogEntry :=
  if index ≤ s.compacted then none else s.log[index-1]?

/-- The last entry is known without the log store. -/
def prevLog (s : Raft) (index : Nat) : Option LogEntry :=
  if index=s.log.length then s.log.getLast? else s.getLog index

/-- The check of the previous entry. -/
def Matches (s : Raft) (a : AppendEntriesRequest) : Prop :=
  a.prevLogEntry=0 ∨ (s.prevLog a.prevLogEntry).map LogEntry.term=some a.prevLogTerm

instance (s : Raft) (a : AppendEntriesRequest) : Decidable (s.Matches a) :=
  inferInstanceAs (Decidable (_ ∨ _))

/-- What appendEntries does once the request's term is accepted. -/
def receiveEntries (s : Raft) (a : AppendEntriesRequest) : Raft :=
  if s.Matches a then
    match newEntries s.compacted s.log a.prevLogEntry a.entries with
    | none => s
    | some new => ((s.truncate new.1).store new.2).followerCommit a.leaderCommitIndex
  else s

def appendEntries (s : Raft) (a : AppendEntriesRequest) : Raft :=
  if a.term<s.currentTerm then s else (s.follow a.term).receiveEntries a

/-- The request makes the server read what it had before its log came with a snapshot. -/
def ReadsReplaced (s : Raft) (a : AppendEntriesRequest) : Prop :=
  s.currentTerm ≤ a.term ∧ a.prevLogEntry<s.installed ∧ (a.prevLogEntry≠0 ∨ a.entries≠[])

instance (s : Raft) (a : AppendEntriesRequest) : Decidable (s.ReadsReplaced a) :=
  inferInstanceAs (Decidable (_ ∧ _))

/-- The snapshot takes the place of the log up to its index. -/
def restoreSnapshot (s : Raft) (r : InstallSnapshotRequest) : Raft :=
  {s with
    log := r.history++s.log.drop r.history.length
    compacted := r.history.length
    installed := r.history.length
    snapshot := r.snapshot
    configurations := r.snapshot.configurations
    known := max s.known r.history.length}

/-- Only a newer term makes the server a follower. -/
def installSnapshot (s : Raft) (r : InstallSnapshotRequest) : Raft :=
  if r.term<s.currentTerm then s
  else if s.currentTerm < r.term then (s.follow r.term).restoreSnapshot r
  else s.restoreSnapshot r

/-- The highest index that the state machine can have reached. -/
def applied (s : Raft) : Nat := max s.commitIndex s.snapshot.index

/-- The conditions of takeSnapshot, where the state machine has come to the index. -/
def MaySnapshot (s : Raft) (index : Nat) : Prop :=
  s.pending=none ∧ index≠0 ∧ s.snapshot.index ≤ index ∧ index ≤ s.applied ∧
    s.configurations.committedIndex ≤ index

instance (s : Raft) (index : Nat) : Decidable (s.MaySnapshot index) :=
  inferInstanceAs (Decidable (_ ∧ _))

def takeSnapshot (s : Raft) (index : Nat) : Raft :=
  {s with pending := some ⟨index,s.configurations.committed,s.configurations.committedIndex⟩}

def compactLogs (s : Raft) : Raft :=
  if s.log.length ≤ s.trailingLogs then s
  else
    {s with compacted := max s.compacted (min s.snapshot.index (s.log.length-s.trailingLogs))}

def bootstrap (s : Raft) (address : GoString) : Raft :=
  {s with currentTerm := 1}.store [⟨1,.configuration [⟨.voter,s.localID,address⟩]⟩]

/-- NewRaft takes the configuration of the snapshot and goes through the log after it. -/
def restart (s : Raft) : Raft :=
  {s with
    configurations :=
      s.snapshot.configurations.processEntries s.snapshot.index (s.log.drop s.snapshot.index)
    pending := none
    commitIndex := 0
    startIndex := none
    inflight := []
    shutdown := false}

/-- The test of configurationChangeChIfStable. -/
def Stable (s : Raft) (startIndex : Nat) : Prop :=
  s.configurations.latestIndex=s.configurations.committedIndex ∧ startIndex ≤ s.commitIndex

instance (s : Raft) (startIndex : Nat) : Decidable (s.Stable startIndex) :=
  inferInstanceAs (Decidable (_ ∧ _))

/-- A follower's test before it stands for election. -/
def MayStand (s : Raft) : Prop :=
  s.configurations.latestIndex≠0 ∧
    ¬(s.configurations.latestIndex=s.configurations.committedIndex ∧
      hasVote s.configurations.latest s.localID=false)

instance (s : Raft) : Decidable s.MayStand := inferInstanceAs (Decidable (_ ∧ _))

/-- What runLeader begins with, in the term that the candidate is in already. -/
def takeOver (s : Raft) : Raft :=
  {s with startIndex := some (s.log.length+1)}.dispatchLog .other

/-- A restart without the entries after the snapshot panics. Requests that read what a snapshot has
replaced are left out. -/
def process (s : Raft) : RaftEvent → Option Raft
  | .bootstrap address =>
    if s.startIndex=none ∧ s.currentTerm=0 ∧ s.log=[] ∧ s.snapshot.index=0 ∧
        checkConfiguration [⟨.voter,s.localID,address⟩]=.ok () then
      some (s.bootstrap address)
    else none
  | .elected => if s.startIndex=none then some s.takeOver else none
  | .call enableWrite leader received c =>
    match c.handle enableWrite leader with
    | .error text => some (s.answer c text)
    | .ok req =>
      if received=false then some (s.internalError c)
      else
        match s.startIndex with
        | none => some (s.internalError c)
        | some start => if s.Stable start then some (s.appendConfigurationEntry c req) else none
  | .dispatch => if s.startIndex.isSome then some (s.dispatchLog .other) else none
  | .commit index =>
    match s.startIndex with
    | none => none
    | some start =>
      if s.commitIndex < index ∧ start ≤ index ∧ index ≤ s.log.length then some (s.leaderCommit index)
      else none
  | .stepDown term => if s.currentTerm≤term then some (s.follow term) else none
  -- On the goroutine of its connection; the main loop can have come to a later term since its test.
  | .heartbeat term => some {s with currentTerm := term}
  | .appendEntries a => if s.ReadsReplaced a then none else some (s.appendEntries a)
  | .installSnapshot r => some (s.installSnapshot r)
  | .takeSnapshot index => if s.MaySnapshot index then some (s.takeSnapshot index) else none
  | .cancelSnapshot => some {s with pending := none}
  | .closeSnapshot => s.pending.map (fun p => {s with snapshot := p,pending := none})
  | .compactLogs => some s.compactLogs
  | .restart => if s.compacted ≤ s.snapshot.index then some s.restart else none

/-- After a shutdown the main loop is gone. -/
def step (s : Raft) (e : RaftEvent) : Option Raft :=
  if s.shutdown=true ∧ e.inLoop=true then none else s.process e

end Raft

end StCache
