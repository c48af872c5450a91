import StCache.Store.GossipCache

namespace StCache

/-- What os/exec and the clock make of one script: it cannot be started, it
ends before the timeout, or it is interrupted and killed at the timeout. -/
inductive ShellOutcome where
  | notStarted
  | exited (code : Int) (stdout stderr : GoString)
  | timedOut (stdout stderr : GoString)
  deriving DecidableEq

def ShellOutcome.started : ShellOutcome → Bool
  | .notStarted => false
  | _ => true

/-- The script was started and exited with status zero before its timeout. -/
def ShellOutcome.succeeded : ShellOutcome → Bool
  | .exited code _ _ => code=0
  | _ => false

structure ShellOutput where
  stdout : GoString
  stderr : GoString
  err : Option GoString
  deriving DecidableEq

/-- ShellCmdTimeout: only an empty command name sets the error; what Start and
Wait return is dropped. -/
def shellCmdTimeout (cmd : GoString) (o : ShellOutcome) : ShellOutput :=
  if cmd=[] then ⟨[],[],some (goStr "cannot run a empty command")⟩
  else
    match o with
    | .notStarted => ⟨[],[],none⟩
    | .exited _ stdout stderr => ⟨stdout,stderr,none⟩
    | .timedOut stdout stderr => ⟨stdout,stderr,none⟩

structure TimeoutShellCmd where
  key : GoString
  status : GossipStatus
  timeout : Int
  cmd : GoString
  deriving DecidableEq

structure ShellCmdResult where
  key : GoString
  status : GossipStatus
  stdout : GoString
  stderr : GoString
  err : Option GoString
  deriving DecidableEq

def notificationScriptTimeout : Int := 60

/-- `fmt.Sprintf("%s %s %s %s",script,key,value,status)` -/
def notificationFormat (script key value status : GoString) : GoString :=
  script++32::(key++32::(value++32::status))

/-- The worker of doTimeoutShellCmd on a command it may run. -/
def TimeoutShellCmd.run (tsc : TimeoutShellCmd) (o : ShellOutcome) : ShellCmdResult :=
  let r := shellCmdTimeout (goStr "sh") o
  ⟨tsc.key,tsc.status,r.stdout,r.stderr,r.err⟩

end StCache
