import StCache.Framework.Ballots
import StCache.Members.Raft

namespace StCache

structure RequestVoteRequest where
  term : Nat
  candidate : GoString
  lastLogIndex : Nat
  lastLogTerm : Nat
  deriving DecidableEq

structure RequestVoteResponse where
  term : Nat
  granted : Bool
  deriving DecidableEq

/-- What the disk does for a vote: it takes both writes or only that of the term, takes none, or
does not even show the last vote. A crash between the writes is the second one and a restart. -/
inductive VoteDisk where
  | both
  | termOnly
  | unwritable
  | unreadable
  deriving DecidableEq

/-- The variables of runCandidate: the voters whose result has not come, and those that granted
their vote; and the configuration in which the election is held. -/
structure Tally where
  request : RequestVoteRequest
  awaited : List GoString
  granted : List GoString := []
  votesNeeded : Nat
  servers : List Server
  deriving DecidableEq

inductive RaftState where
  | follower
  | candidate
  | leader
  deriving DecidableEq

/-- The function that the main loop is in. It waits there, and looks at the state after each case. -/
inductive MainLoop where
  | runFollower
  | runCandidate (tally : Tally)
  | runLeader
  deriving DecidableEq

/-- The assignment that comes next. -/
inductive HeartbeatPhase where
  | setState
  | setCurrentTerm
  | setLeader
  deriving DecidableEq

/-- A heartbeat that is being processed, on the goroutine of its connection. -/
structure Heartbeat where
  leader : GoString
  term : Nat
  phase : HeartbeatPhase
  deriving DecidableEq

/-- A server and its part in elections. The last vote is on the disk; without a candidate there it
reads as nil. -/
structure Elector where
  raft : Raft
  state : RaftState := .follower
  loop : MainLoop := .runFollower
  leader : GoString := []
  lastVoteTerm : Nat := 0
  lastVoteCand : GoString := []
  heartbeats : List Heartbeat := []
  deriving DecidableEq

def lastTerm (log : List LogEntry) : Nat := (log.getLast?.map LogEntry.term).getD 0

/-- The two tests by which requestVote rejects a candidate for its log. -/
def Outdated (req : RequestVoteRequest) (log : List LogEntry) : Prop :=
  req.lastLogTerm<lastTerm log ∨ (lastTerm log=req.lastLogTerm ∧ req.lastLogIndex<log.length)

instance (req : RequestVoteRequest) (log : List LogEntry) : Decidable (Outdated req log) :=
  inferInstanceAs (Decidable (_ ∨ _))

/-- The voters in the order of the configuration. -/
def voterIDs (servers : List Server) : List GoString :=
  (servers.filter (fun s => s.suffrage=.voter)).map Server.id

namespace Elector

/-- The known leader is cleared. -/
def setState (s : Elector) (state : RaftState) : Elector := {s with state := state,leader := []}

/-- A follower of the given leader, in the main loop too. -/
def become (s : Elector) (leader : GoString) (raft : Raft) : Elector :=
  {s with raft := raft,state := .follower,loop := .runFollower,leader := leader}

def follow (s : Elector) (term : Nat) : Elector := s.become [] (s.raft.follow term)

/-- The conditions of the loops, after a case: a heartbeat has made the server a follower. -/
def leave (s : Elector) : Elector :=
  match s.loop,s.state with
  | .runCandidate _,.follower => {s with loop := .runFollower}
  | .runLeader,.follower =>
    s.become (if s.leader=s.raft.localID then [] else s.leader) (s.raft.follow s.raft.currentTerm)
  | _,_ => s

/-- The tests of appendEntries in processHeartbeat. -/
def processHeartbeat (s : Elector) (leader : GoString) (term : Nat) : Elector :=
  if term<s.raft.currentTerm then s
  else if s.raft.currentTerm<term ∨ s.state≠.follower then
    {s with heartbeats := s.heartbeats++[⟨leader,term,.setState⟩]}
  else {s with heartbeats := s.heartbeats++[⟨leader,term,.setLeader⟩]}

/-- Its next assignment. -/
def assign (s : Elector) (i : Nat) (b : Heartbeat) : Elector :=
  match b.phase with
  | .setState =>
    {s.setState .follower with heartbeats := s.heartbeats.set i {b with phase := .setCurrentTerm}}
  | .setCurrentTerm =>
    {s with
      raft := {s.raft with currentTerm := b.term}
      heartbeats := s.heartbeats.set i {b with phase := .setLeader}}
  | .setLeader => {s with leader := b.leader,heartbeats := s.heartbeats.eraseIdx i}

/-- The server and whether its vote is written. -/
def persistVote (s : Elector) (term : Nat) (candidate : GoString) : VoteDisk → Elector × Bool
  | .both => ({s with lastVoteTerm := term,lastVoteCand := candidate},true)
  | .termOnly => ({s with lastVoteTerm := term},false)
  | _ => (s,false)

/-- The end of requestVote, in the term of the request. -/
def castVote (s : Elector) (req : RequestVoteRequest) (disk : VoteDisk) : Elector × Bool :=
  if disk=.unreadable then (s,false)
  else if s.lastVoteTerm=req.term ∧ s.lastVoteCand≠[] then
    (s,decide (s.lastVoteCand=req.candidate))
  else if Outdated req s.raft.log then (s,false)
  else s.persistVote req.term req.candidate disk

/-- A request for a vote brings the server to its term. -/
def reach (s : Elector) (term : Nat) : Elector :=
  if s.raft.currentTerm<term then s.follow term else s

def requestVote (s : Elector) (req : RequestVoteRequest) (disk : VoteDisk) : Elector × Bool :=
  if s.leader≠[] ∧ s.leader≠req.candidate then (s,false)
  else if req.term<s.raft.currentTerm then (s,false)
  else (s.reach req.term).castVote req disk

def voteRequest (s : Elector) : RequestVoteRequest :=
  ⟨s.raft.currentTerm,s.raft.localID,s.raft.log.length,lastTerm s.raft.log⟩

def nextTerm (s : Elector) : Elector :=
  {s with raft := {s.raft with currentTerm := s.raft.currentTerm+1}}

/-- Whether the server has a vote of its own. -/
def Votes (s : Elector) : Prop := (voterIDs s.raft.configurations.latest).contains s.raft.localID=true

instance (s : Elector) : Decidable s.Votes := inferInstanceAs (Decidable (_=_))

/-- Its own vote in electSelf. -/
def voteSelf (s : Elector) (disk : VoteDisk) : Elector × Bool :=
  if s.Votes then s.persistVote s.raft.currentTerm s.raft.localID disk else (s,true)

/-- The voters that electSelf asks; it stops where its own vote is not written. -/
def peers (s : Elector) (written : Bool) : List GoString :=
  if written then (voterIDs s.raft.configurations.latest).filter (fun id => id≠s.raft.localID)
  else (voterIDs s.raft.configurations.latest).takeWhile (fun id => id≠s.raft.localID)

/-- Without its own vote a candidate has no channel for results. -/
def tally (s : Elector) (written : Bool) : Tally :=
  {request := s.voteRequest
   awaited := if written then voterIDs s.raft.configurations.latest else []
   votesNeeded := quorumSize s.raft.configurations.latest
   servers := s.raft.configurations.latest}

def stand (s : Elector) (written : Bool) : Elector := {s with loop := .runCandidate (s.tally written)}

def win (s : Elector) : Elector :=
  {s with raft := s.raft.takeOver,state := .leader,loop := .runLeader,leader := s.raft.localID}

/-- What happens besides elections. -/
def step (s : Elector) (leader : GoString) : RaftEvent → Option Elector
  | .elected => none
  | .heartbeat _ => none
  | .bootstrap address =>
    if s.loop=.runFollower then (s.raft.step (.bootstrap address)).map (fun r => {s with raft := r})
    else none
  | .appendEntries a =>
    (s.raft.step (.appendEntries a)).map
      (fun r => if a.term<s.raft.currentTerm then s.leave else s.become leader r)
  | .installSnapshot a =>
    (s.raft.step (.installSnapshot a)).map
      (fun r =>
        if a.term<s.raft.currentTerm then s.leave
        else if s.raft.currentTerm<a.term then s.become leader r
        else {s with raft := r,leader := leader}.leave)
  | .stepDown term =>
    if s.loop=.runLeader ∧ term=s.raft.currentTerm then
      (s.raft.step (.stepDown term)).map (s.become [])
    else none
  | .commit index =>
    (s.raft.step (.commit index)).map
      (fun r => if r.startIndex=none then s.become [] r else {s with raft := r}.leave)
  | .restart => (s.raft.step .restart).map (fun r => {s.become [] r with heartbeats := []})
  | e =>
    (s.raft.step e).map (fun r => if e.inLoop then {s with raft := r}.leave else {s with raft := r})

end Elector

namespace Tally

/-- One result is read from the channel. -/
def count (t : Tally) (voter : GoString) (granted : Bool) : Tally :=
  {t with
    awaited := t.awaited.erase voter
    granted := if granted then t.granted++[voter] else t.granted}

end Tally

/-- The result of a request, with the log that its voter had. -/
structure Vote where
  voter : GoString
  request : RequestVoteRequest
  response : RequestVoteResponse
  log : List LogEntry
  deriving DecidableEq

/-- The results as a ledger. -/
def ballots : Ballots.Reading Vote GoString RequestVoteRequest GoString :=
  {voter := Vote.voter
   request := Vote.request
   granted := fun x => x.response.granted
   passed := fun x => ¬Outdated x.request x.log
   term := RequestVoteRequest.term
   candidate := RequestVoteRequest.candidate
   nobody := []}

/-- An election that was won, and the configuration in which it was held. -/
structure Win where
  request : RequestVoteRequest
  servers : List Server
  deriving DecidableEq

/-- All servers, the requests on their way, and what has happened: the elections, the results, the
votes of which the disk has only the term, and the elections won. -/
structure Elections where
  server : GoString → Elector := fun n => {raft := {localID := n}}
  requests : List (GoString × RequestVoteRequest) := []
  elections : List RequestVoteRequest := []
  votes : List Vote := []
  torn : List (GoString × Nat) := []
  wins : List Win := []

/-- Requests, results and heartbeats are named by their place in the lists. -/
inductive ElectionEvent where
  | timeout (n : GoString) (disk : VoteDisk)
  | requestVote (i : Nat) (disk : VoteDisk)
  | voteResult (n : GoString) (i : Nat)
  | voteError (n voter : GoString)
  | heartbeat (n leader : GoString) (term : Nat)
  | assign (n : GoString) (i : Nat)
  | other (n leader : GoString) (e : RaftEvent)
  deriving DecidableEq

namespace Elections

def put (s : Elections) (n : GoString) (e : Elector) : Elections :=
  {s with server := Function.update s.server n e}

/-- The vote of server n of which the disk has only the term. -/
def tornBy (n : GoString) (before after : Elector) (written : Bool) : List (GoString × Nat) :=
  if after.lastVoteTerm≠before.lastVoteTerm ∧ written=false then [(n,after.lastVoteTerm)] else []

/-- What the candidate puts into its own channel. -/
def ownVote (n : GoString) (e : Elector) (written : Bool) : List Vote :=
  if e.Votes ∧ written=true then [⟨n,e.voteRequest,⟨e.raft.currentTerm,true⟩,e.raft.log⟩] else []

/-- A candidate enters runCandidate. -/
def electSelf (s : Elections) (n : GoString) (candidate : Elector) (disk : VoteDisk) : Elections :=
  let e := candidate.nextTerm
  let voted := e.voteSelf disk
  {s.put n (voted.1.stand voted.2) with
    requests := s.requests++(e.peers voted.2).map (fun peer => (peer,e.voteRequest))
    elections := s.elections++[e.voteRequest]
    votes := s.votes++ownVote n e voted.2
    torn := s.torn++tornBy n e voted.1 voted.2}

def answer (s : Elections) (voter : GoString) (req : RequestVoteRequest) (disk : VoteDisk) :
    Elections :=
  let answered := (s.server voter).requestVote req disk
  let e := answered.1.leave
  {s.put voter e with
    votes := s.votes++[⟨voter,req,⟨e.raft.currentTerm,answered.2⟩,(s.server voter).raft.log⟩]
    torn := s.torn++tornBy voter (s.server voter) e answered.2}

/-- The case of voteCh in runCandidate. It does not look at the state. -/
def count (s : Elections) (n : GoString) (tally : Tally) (voter : GoString)
    (resp : RequestVoteResponse) : Elections :=
  let e := s.server n
  if e.raft.currentTerm < resp.term then s.put n (e.follow resp.term)
  else if (tally.count voter resp.granted).votesNeeded≤(tally.count voter resp.granted).granted.length
  then {s.put n e.win with wins := s.wins++[⟨tally.request,tally.servers⟩]}
  else s.put n {e with loop := .runCandidate (tally.count voter resp.granted)}.leave

def step (s : Elections) : ElectionEvent → Option Elections
  | .timeout n disk =>
    if n=[] ∨ (s.server n).raft.shutdown=true then none
    else
      match (s.server n).loop with
      | .runFollower =>
        if (s.server n).raft.MayStand then
          some (s.electSelf n ((s.server n).setState .candidate) disk)
        else some (s.put n {s.server n with leader := []})
      | .runCandidate _ =>
        if (s.server n).state=.candidate then some (s.electSelf n (s.server n) disk)
        else some (s.put n (s.server n).leave)
      | .runLeader => none
  | .requestVote i disk =>
    (s.requests[i]?).bind (fun p =>
      if (s.server p.1).raft.shutdown=true then none else some (s.answer p.1 p.2 disk))
  | .voteResult n i =>
    match (s.server n).loop with
    | .runCandidate tally =>
      (s.votes[i]?).bind (fun vote =>
        if tally.awaited.contains vote.voter=true ∧ vote.request=tally.request then
          some (s.count n tally vote.voter vote.response)
        else none)
    | _ => none
  | .voteError n voter =>
    match (s.server n).loop with
    | .runCandidate tally =>
      if tally.awaited.contains voter=true ∧ voter≠n then
        some (s.count n tally voter ⟨tally.request.term,false⟩)
      else none
    | _ => none
  | .heartbeat n leader term =>
    if (s.server n).raft.shutdown=true then none
    else some (s.put n ((s.server n).processHeartbeat leader term))
  | .assign n i => ((s.server n).heartbeats[i]?).map (fun b => s.put n ((s.server n).assign i b))
  | .other n leader e => ((s.server n).step leader e).map (s.put n)

/-- No heartbeat of server n is being processed. -/
def Quiet (s : Elections) (n : GoString) : Prop := (s.server n).heartbeats=[]

instance (s : Elections) (n : GoString) : Decidable (s.Quiet n) := inferInstanceAs (Decidable (_=_))

/-- Server n is a candidate, or the event does not make it a leader. -/
def Earned (s : Elections) (n : GoString) (e : ElectionEvent) : Prop :=
  (s.server n).state=.candidate ∨ ∀ t∈s.step e,(t.server n).state≠.leader

instance (s : Elections) (n : GoString) (e : ElectionEvent) : Decidable (s.Earned n e) :=
  inferInstanceAs (Decidable (_ ∨ ∀ t∈s.step e,(t.server n).state≠.leader))

/-- A heartbeat is processed while the main loop of its server waits and no other one is, and a
candidate that it has made a follower does not count its last vote. -/
def Regular (s : Elections) : ElectionEvent → Prop
  | .timeout n _ => s.Quiet n
  | .requestVote i _ => ∀ p∈s.requests[i]?,s.Quiet p.1
  | .voteResult n i => s.Quiet n ∧ s.Earned n (.voteResult n i)
  | .voteError n voter => s.Quiet n ∧ s.Earned n (.voteError n voter)
  | .heartbeat n _ _ => s.Quiet n
  | .assign _ _ => True
  | .other n _ e => e.inLoop=true → s.Quiet n

instance (s : Elections) : (e : ElectionEvent) → Decidable (s.Regular e)
  | .timeout n _ => inferInstanceAs (Decidable (s.Quiet n))
  | .requestVote i _ => inferInstanceAs (Decidable (∀ p∈s.requests[i]?,s.Quiet p.1))
  | .voteResult n i => inferInstanceAs (Decidable (s.Quiet n ∧ s.Earned n (.voteResult n i)))
  | .voteError n voter => inferInstanceAs (Decidable (s.Quiet n ∧ s.Earned n (.voteError n voter)))
  | .heartbeat n _ _ => inferInstanceAs (Decidable (s.Quiet n))
  | .assign _ _ => inferInstanceAs (Decidable True)
  | .other n _ e => inferInstanceAs (Decidable (e.inLoop=true → s.Quiet n))

end Elections

end StCache
