import StCache.Quorum.Shell
import StCache.Quorum.Verdict
import StCache.Store.Fsm

namespace StCache

/-- Which of the two checks of quorumCheck1 acts on a key. -/
inductive CheckKind where
  | event
  | empty
  deriving DecidableEq

/-- The local variables of a check that goes on to write to the log: the cloned
entry, the clock at its reports, and what it decided. A pending decision records
the status without a notification. -/
structure Decision where
  kind : CheckKind
  pending : Bool
  key : GoString
  v : GossipConsensus
  now : GoString → Int64
  status : GossipStatus

/-- A command that went over cmdCh, with the check it comes from. -/
structure Sent where
  decision : Decision
  stamp : Int64
  value : GoString
  command : TimeoutShellCmd

/-- A finished script and what its worker puts on resultCh. -/
structure Finished where
  sent : Sent
  outcome : ShellOutcome
  result : ShellCmdResult

/-- What is left to do in one pass of quorumCheck1. -/
inductive Stmt where
  | barrier
  | clone
  | checkEvent (key : GoString) (v : GossipConsensus)
  | checkEmpty (key : GoString) (v : GossipConsensus)
  | stamp (d : Decision)
  | submitTime (d : Decision) (ts : Int64)
  | submitStatus (d : Decision)
  | build (d : Decision) (ts : Int64)
  | send (x : Sent)

/-- What the environment chooses when the pass takes its next step. -/
inductive TickInput where
  | barrier (ok : Bool)
  | order (o : List (GoString × GossipConsensus))
  | check (now : Int64) (sc : Scan)
  | clock (now : Int64)
  | go

/-- What a step of the checker does to the outside. A submission of quorumCheck2
carries the script it answers. -/
inductive Effect where
  | silent
  | submit (e : LogEntryData) (source : Option Finished)
  | sent (x : Sent)
  | ran (x : Sent)

/-- What a script has done when ShellCmdTimeout returns. -/
def Sent.effect (x : Sent) (o : ShellOutcome) : Effect := if o.started then .ran x else .silent

/-- What the other end of cmdCh receives. -/
def Effect.received : Effect → List Sent
  | .sent x => [x]
  | _ => []

/-- The part of checkEvent before its first log entry. -/
def checkEvent (cfg : QuorumConfig) (key : GoString) (v : GossipConsensus) (now : Int64)
    (sc : Scan) : List Stmt :=
  if since now v.prevEventTime<seconds cfg.eventInterval then []
  else
    let r := hasEvent cfg.quorum v sc
    (if r.pending then [.stamp ⟨.event,true,key,v,sc.now,r.status⟩] else [])++
      (if r.hasEvent then [.stamp ⟨.event,false,key,v,sc.now,r.status⟩] else [])

def checkEmpty (cfg : QuorumConfig) (key : GoString) (v : GossipConsensus) (now : Int64)
    (sc : Scan) : List Stmt :=
  if since now v.emptyTime<seconds cfg.eventInterval then []
  else
    let r := emptyRecover cfg.quorum v sc
    (if r.2=gossipEmpty then
      if v.empty then [] else [.stamp ⟨.empty,false,key,v,sc.now,r.2⟩] else [])++
    (if r.1 then
      if v.empty then [.stamp ⟨.empty,false,key,v,sc.now,gossipEmptyRecover⟩] else [] else [])

/-- The NOTIFY_TIME or NOTIFY_EMPTY_TIME entry of a decision. -/
def Decision.timeEntry (d : Decision) (ts : Int64) : LogEntryData :=
  ⟨match d.kind with | .event => .notifyTime | .empty => .notifyEmptyTime,d.key,formatInt ts⟩

/-- The entry quorumCheck2 submits for a result. -/
def resultEntry (output : ShellCmdResult) : LogEntryData :=
  if output.status=gossipEmpty then ⟨.notifyEmpty,output.key,formatBool true⟩
  else if output.status=gossipEmptyRecover then ⟨.notifyEmpty,output.key,formatBool false⟩
  else ⟨.notifyStatus,output.key,output.status⟩

/-- The command is built from the value the key has at this moment. -/
def Decision.toSent (cfg : QuorumConfig) (d : Decision) (ts : Int64) (cm : CacheManager) : Sent :=
  ⟨d,ts,cm.get d.key,
    ⟨d.key,d.status,notificationScriptTimeout,
      notificationFormat cfg.notificationScript d.key (cm.get d.key) d.status⟩⟩

/-- The checker's three goroutines: the rest of the current pass, the commands
waiting for a worker, the scripts that run, and the results not yet taken. -/
structure Checker where
  writable : Bool := false
  tick : List Stmt := []
  cmds : List Sent := []
  running : List Sent := []
  results : List Finished := []

/-- notifyFollower: without write permission nothing reaches raft. Its error is
only logged by every caller, so the pass continues either way. -/
def Checker.notifyFollower (c : Checker) (e : LogEntryData) (source : Option Finished) : Effect :=
  if c.writable then .submit e source else .silent

/-- One step of the pass: the statements that replace the first one. -/
def Checker.exec (cfg : QuorumConfig) (f : Fsm) (c : Checker) :
    Stmt → TickInput → Option (List Stmt × Effect)
  -- a Barrier that fails ends the pass
  | .barrier,.barrier ok => some (if ok then [.clone] else [],.silent)
  | .clone,.order o =>
    if Enumerates o f.gcm.data then
      some (o.flatMap (fun p => [.checkEvent p.1 p.2.copy,.checkEmpty p.1 p.2.copy]),.silent)
    else none
  | .checkEvent key v,.check now sc =>
    if sc.Valid v v.prevEventTime then some (checkEvent cfg key v now sc,.silent) else none
  | .checkEmpty key v,.check now sc =>
    if sc.Valid v v.emptyTime then some (checkEmpty cfg key v now sc,.silent) else none
  | .stamp d,.clock now => some ([.submitTime d now],.silent)
  | .submitTime d ts,.go =>
    some ([if d.pending then .submitStatus d else .build d ts],
      c.notifyFollower (d.timeEntry ts) none)
  | .submitStatus d,.go => some ([],c.notifyFollower ⟨.notifyStatus,d.key,d.status⟩ none)
  | .build d ts,.go => some ([.send (d.toSent cfg ts f.cm)],.silent)
  | .send x,.go => some ([],.sent x)
  | _,_ => none

inductive Action where
  | enter
  | tick (input : TickInput)
  | start (i : Nat)
  | finish (i : Nat) (o : ShellOutcome)
  | record (i : Nat)

/-- `enter` is quorumCheck1 past its permission test, `start` a worker of
doTimeoutShellCmd past its own, `finish` the return of its ShellCmdTimeout, `record`
one round of quorumCheck2. A script has run unless command.Start failed. -/
def Checker.step (cfg : QuorumConfig) (f : Fsm) (c : Checker) :
    Action → Option (Checker × Effect)
  | .enter =>
    match c.tick,c.writable with
    | [],true => some ({c with tick := [.barrier]},.silent)
    | _,_ => none
  | .tick input =>
    match c.tick with
    | [] => none
    | st::rest => (c.exec cfg f st input).map (fun r =>
        ({c with tick := r.1++rest,cmds := c.cmds++r.2.received},r.2))
  | .start i =>
    match c.cmds[i]? with
    | none => none
    | some x =>
      if c.writable then
        some ({c with cmds := c.cmds.eraseIdx i,running := c.running++[x]},.silent)
      else some ({c with cmds := c.cmds.eraseIdx i},.silent)
  | .finish i o =>
    match c.running[i]? with
    | none => none
    | some x =>
      some ({c with running := c.running.eraseIdx i,
                    results := c.results++[⟨x,o,x.command.run o⟩]},x.effect o)
  | .record i =>
    match c.results[i]? with
    | none => none
    | some r =>
      some ({c with results := c.results.eraseIdx i},
        c.notifyFollower (resultEntry r.result) (some r))

end StCache
