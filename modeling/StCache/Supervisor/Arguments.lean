import StCache.Framework.Strconv
import StCache.Framework.Strtok

namespace StCache

/-- What getopt_long returns: exec has no optarg when it is given as -e. -/
inductive Opt where
  | exec (optarg : Option GoString)
  | daemon
  | other
  deriving DecidableEq

/-- The outcome of parseopt; crashed is strdup of a null pointer. -/
inductive Parsed where
  | ok (daemonize : Bool) (cmdopt : List GoString)
  | failed (stderr : GoString)
  | crashed
  deriving DecidableEq

def maxOpt : Nat := 256

def usage (argv0 : GoString) : GoString :=
  goStr "Usage : "++argv0++goStr " [--daemon] --exec=\"command arg1 arg2 arg3 ...\"\n"

/-- The delimiters `" \t\n"`. -/
def blank (b : UInt8) : Bool := b=32 || b=9 || b=10

/-- The loop over the tokens and the checks behind it: cmdopt has room for maxOpt+1 pointers, the
last of which has to stay null. -/
def parseCommand (daemonize : Bool) (cmdstr : GoString) : Parsed :=
  let cmdopt := strtoks blank (maxOpt+1) cmdstr
  match cmdopt.head? with
  | none => .failed (goStr "Error, cmd should not be empty.\n")
  | some cmd =>
    if cmd.length=0 then .failed (goStr "Error, cmd should not be empty.\n")
    else if cmdopt.length=maxOpt+1 then .failed (goStr "Argument too long\n")
    else .ok daemonize cmdopt

/-- The loop over the options. -/
def parseopt (argv0 : GoString) (daemonize : Bool) (cmdstr : Option GoString) : List Opt → Parsed
  | .exec none::_ => .crashed
  | .exec (some optarg)::opts => parseopt argv0 daemonize (some optarg) opts
  | .daemon::opts => parseopt argv0 true cmdstr opts
  | .other::_ => .failed (usage argv0)
  | [] =>
    match cmdstr with
    | none => .failed (usage argv0)
    | some s => parseCommand daemonize s

/-- The command that counts is the last one given. -/
def command : List Opt → Option GoString
  | [] => none
  | .exec optarg::opts => (command opts).or optarg
  | _::opts => command opts

theorem length_wordsOf_pos {s w : GoString} (hw : w∈wordsOf blank s) : w.length≠0 := by
  have full := (List.mem_filter.mp hw).2
  intro empty
  rw [List.length_eq_zero_iff.mp empty] at full
  cases full

/-- A command is accepted if it has between 1 and 256 words. -/
theorem parseCommand_ok_iff (daemonize d : Bool) (s : GoString) (cmdopt : List GoString) :
    parseCommand daemonize s=.ok d cmdopt ↔
      d=daemonize ∧ cmdopt=wordsOf blank s ∧ 0<cmdopt.length ∧ cmdopt.length ≤ maxOpt := by
  unfold parseCommand
  rw [strtoks_eq]
  cases hw : wordsOf blank s with
  | nil =>
    refine iff_of_false nofun ?_
    rintro ⟨-,rfl,some,-⟩
    cases some
  | cons w ws =>
    have full : w.length≠0 := length_wordsOf_pos (hw ▸ List.mem_cons_self)
    simp only [List.take_succ_cons,List.head?_cons,full,if_false,List.length_cons,List.length_take,
      Nat.add_right_cancel_iff]
    by_cases long : maxOpt≤ws.length
    · rw [if_pos (Nat.min_eq_left long)]
      refine iff_of_false nofun ?_
      rintro ⟨-,rfl,-,short⟩
      rw [List.length_cons] at short
      omega
    · rw [if_neg (by omega),List.take_of_length_le (by omega),Parsed.ok.injEq]
      constructor
      · rintro ⟨rfl,rfl⟩
        exact ⟨rfl,rfl,Nat.succ_pos _,by rw [List.length_cons]; omega⟩
      · rintro ⟨rfl,rfl,-⟩
        exact ⟨rfl,rfl⟩

/-- What the loop over the options comes to, from any point of it. -/
theorem parseopt_loop_iff (argv0 : GoString) (opts : List Opt) (daemonize : Bool)
    (cmdstr : Option GoString) (d : Bool) (cmdopt : List GoString) :
    parseopt argv0 daemonize cmdstr opts=.ok d cmdopt ↔
      .other∉opts ∧ .exec none∉opts ∧ ∃ s,(command opts).or cmdstr=some s ∧
        parseCommand (daemonize || decide (.daemon∈opts)) s=.ok d cmdopt := by
  induction opts generalizing daemonize cmdstr with
  | nil => cases cmdstr <;> simp [parseopt,command]
  | cons opt opts ih =>
    cases opt with
    | exec optarg =>
      cases optarg with
      | none => simp [parseopt]
      | some arg => simp [parseopt,ih,command]
    | daemon => simp [parseopt,ih,command]
    | other => simp [parseopt]

/-- parseopt accepts exactly the options without an unknown one or a bare -e whose last command has
1 to 256 words, and hands execvp these words: any such words, joined with blanks, come back. -/
theorem parseopt_ok_iff (argv0 : GoString) (opts : List Opt) (d : Bool) (cmdopt : List GoString) :
    (parseopt argv0 false none opts=.ok d cmdopt ↔
      .other∉opts ∧ .exec none∉opts ∧ d=decide (.daemon∈opts) ∧
        ∃ s,command opts=some s ∧ cmdopt=wordsOf blank s ∧ 0<cmdopt.length ∧
          cmdopt.length ≤ maxOpt) ∧
    ((∀ w∈cmdopt,w≠[] ∧ ∀ b∈w,blank b=false) → 0<cmdopt.length → cmdopt.length ≤ maxOpt →
      parseopt argv0 false none [.exec (some ([32].intercalate cmdopt))]=.ok false cmdopt) := by
  constructor
  · rw [parseopt_loop_iff]
    simp only [Option.or_none,Bool.false_or,parseCommand_ok_iff]
    tauto
  · intro plain nonempty short
    rw [parseopt_loop_iff]
    refine ⟨by simp,by simp,_,rfl,(parseCommand_ok_iff _ _ _ _).mpr ?_⟩
    exact ⟨by simp,(wordsOf_intercalate rfl cmdopt plain).symm,nonempty,short⟩

def serviceWords : List GoString := [goStr "./CouchbaseHAService",goStr "-quorum",goStr "3"]

theorem parseopt_ok_iff_service :
    parseopt (goStr "./hypervisor") false none
        [.exec (some (goStr "./CouchbaseHAService -quorum 3"))]=.ok false serviceWords := by
  have joined : goStr "./CouchbaseHAService -quorum 3"=[32].intercalate serviceWords := by
    decide +kernel
  rw [joined]
  exact (parseopt_ok_iff _ [] false serviceWords).2 (by decide +kernel) (by decide) (by decide)

end StCache
