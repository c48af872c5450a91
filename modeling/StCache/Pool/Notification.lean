import StCache.Pool.Notifier
import StCache.Quorum.Due

namespace StCache

/-- The result that a submission of quorumCheck2 answers. -/
def Effect.answered : Effect → List Finished
  | .submit _ source => source.toList
  | _ => []

/-- What the steps so far sent on cmdCh, ran and submitted. -/
def sentBy (shown : List Effect) : List Sent := shown.flatMap Effect.received

def ranBy (shown : List Effect) : List Sent := shown.flatMap Effect.started

def answeredBy (shown : List Effect) : List Finished := shown.flatMap Effect.answered

section Shown
variable (shown : List Effect) (eff : Effect)

theorem sentBy_visible : sentBy (shown++eff.visible)=sentBy shown++eff.received := by
  cases eff <;> simp [sentBy,Effect.visible,Effect.received]

theorem ranBy_visible : ranBy (shown++eff.visible)=ranBy shown++eff.started := by
  cases eff <;> simp [ranBy,Effect.visible,Effect.started]

theorem answeredBy_visible : answeredBy (shown++eff.visible)=answeredBy shown++eff.answered := by
  cases eff <;> simp [answeredBy,Effect.visible,Effect.answered]

end Shown

/-- The command of a result, if its script has run. -/
def Finished.ran (r : Finished) : Option Sent := if r.outcome.started then some r.sent else none

theorem Finished.sent_of_ran {r : Finished} {x : Sent} (h : r.ran=some x) : r.sent=x := by
  rw [Finished.ran] at h
  split_ifs at h
  exact Option.some.inj h

/-- The results whose script has run are among the results. -/
theorem answered_ran (rs : List Finished) :
    (rs.filterMap Finished.ran).Subperm (rs.map Finished.sent) := by
  induction rs with
  | nil => exact List.Subperm.refl _
  | cons r rs ih =>
    cases hr : r.ran with
    | none =>
      rw [List.filterMap_cons_none hr]
      exact ih.trans (List.sublist_cons_self _ _).subperm
    | some x =>
      rw [List.filterMap_cons_some hr,List.map_cons,Finished.sent_of_ran hr]
      exact (List.subperm_cons x).mpr ih

def Job.sent : Job → Sent
  | .test x => x
  | .script x => x
  | .offer r => r.sent

def Job.ran : Job → Option Sent
  | .offer r => r.ran
  | _ => none

theorem Job.sent_of_ran {job : Job} {x : Sent} (h : job.ran=some x) : job.sent=x := by
  cases job with
  | test | script => cases h
  | offer r => exact r.sent_of_ran h

/-- The end of a script shows whether it has run. -/
theorem Sent.effect_started (x : Sent) (o : ShellOutcome) (result : ShellCmdResult) :
    (x.effect o).started=(Finished.ran ⟨x,o,result⟩).toList ∧ (x.effect o).answered=[] := by
  unfold Sent.effect Finished.ran
  split_ifs <;> exact ⟨rfl,rfl⟩

section Jobs
variable {a : Multiset Job} {x : Sent} {r : Finished}

theorem ran_test : (Job.test x::ₘa).filterMap Job.ran=a.filterMap Job.ran :=
  Multiset.filterMap_cons_none _ _ rfl

theorem ran_script : (Job.script x::ₘa).filterMap Job.ran=a.filterMap Job.ran :=
  Multiset.filterMap_cons_none _ _ rfl

theorem ran_offer : (Job.offer r::ₘa).filterMap Job.ran=r.ran.toList+a.filterMap Job.ran := by
  cases hr : r.ran with
  | none =>
    rw [Multiset.filterMap_cons_none (f := Job.ran) (Job.offer r) a hr]
    exact (zero_add _).symm
  | some x =>
    rw [Multiset.filterMap_cons_some Job.ran (Job.offer r) a hr]
    rfl

end Jobs

/-- The pass itself runs no script and answers no result. -/
theorem Executes.quiet {cfg : QuorumConfig} {f : Fsm} {c : Checker} {st : Stmt} {input : TickInput}
    {sts : List Stmt} {eff : Effect} (h : Executes cfg f c st input sts eff) :
    eff.started=[] ∧ eff.answered=[] := by
  have submits (e : LogEntryData) :
      (c.notifyFollower e none).started=[] ∧ (c.notifyFollower e none).answered=[] := by
    unfold Checker.notifyFollower
    split_ifs <;> exact ⟨rfl,rfl⟩
  cases h with
  | submitPending d ts => exact submits _
  | submitTime d ts => exact submits _
  | submitStatus d => exact submits _
  | barrier | failed | clone | checkEvent | checkEmpty | stamp | build | send => exact ⟨rfl,rfl⟩

namespace Notifier

/-- Commands on their way, from cmdCh to the submission of their result. -/
def holds (s : Notifier) : Multiset Sent :=
  s.workers.inputs.map Job.sent+s.recorder.held.map Finished.sent

/-- Those of them whose script has run. -/
def ended (s : Notifier) : Multiset Sent :=
  s.workers.inputs.filterMap Job.ran+s.recorder.held.filterMap Finished.ran

theorem ended_le_holds (s : Notifier) : s.ended ≤ s.holds := by
  have jobs (a : Multiset Job) : a.filterMap Job.ran≤a.map Job.sent := by
    induction a using Multiset.induction with
    | empty => exact le_refl _
    | cons job a ih =>
      rw [Multiset.map_cons]
      cases hj : job.ran with
      | none =>
        rw [Multiset.filterMap_cons_none _ _ hj]
        exact ih.trans (Multiset.le_cons_self _ _)
      | some x =>
        rw [Multiset.filterMap_cons_some _ _ _ hj,Job.sent_of_ran hj]
        exact (Multiset.cons_le_cons_iff x).mpr ih
  exact add_le_add (jobs _) (Multiset.coe_le.mpr (answered_ran _))

/-- What came in since the state s is on its way or answered, each command as often as it was sent;
and what ran since is a part of that. -/
structure Conserves (s t : Notifier) (shown : List Effect) : Prop where
  sent : s.holds+sentBy shown=t.holds+(answeredBy shown).map Finished.sent
  ran : s.ended+ranBy shown=t.ended+(answeredBy shown).filterMap Finished.ran

variable {cfg : QuorumConfig} {s t : Notifier} {env : Setting} {a : NotifierAction} {eff : Effect}
  {shown : List Effect}

/-- One step moves at most one command, by one place. -/
theorem Steps.moves (hs : s.Steps cfg env a t eff) (permitted : env.writable=true) :
    s.holds+eff.received=t.holds+eff.answered.map Finished.sent ∧
      s.ended+eff.started=t.ended+eff.answered.filterMap Finished.ran := by
  have stays {w : Workers Job} (same : w.inputs=s.workers.inputs) :
      s.holds+0=holds {s with workers := w}+0 ∧ s.ended+0=ended {s with workers := w}+0 := by
    simp only [holds,ended,same,and_self]
  cases hs with
  | enter => exact ⟨rfl,rfl⟩
  | leave free => simp only [holds,ended,free]; exact ⟨rfl,rfl⟩
  | dispatch w hw => exact stays (Workers.inputs_dispatch hw)
  | cancel w hw => exact stays (Workers.inputs_cancel hw)
  | release i w hw => exact stays (Workers.inputs_release hw)
  | drop i x w hi denied hw => exact absurd (permitted.symm.trans denied) (by decide)
  | tick st rest input sts eff w ht hx ha =>
    obtain ⟨started,answered⟩ := (Checker.exec_executes _ _ _ _ _ _ _ hx).quiet
    rw [started,answered]
    cases eff with
    | silent | submit | ran => exact stays (congrArg Workers.inputs (Option.some.inj ha).symm)
    | sent x =>
      have more := Workers.inputs_receive ((s.accept_one x).symm.trans ha)
      simp only [holds,ended,more,Multiset.map_cons,ran_test]
      refine ⟨?_,rfl⟩
      show _+([x] : List Sent)=x::ₘ_+_+0
      rw [add_zero,Multiset.coe_singleton,add_comm,Multiset.singleton_add,Multiset.cons_add]
  | start i x w hi _ hw =>
    have moved := Workers.inputs_work hi hw
    have sent := congrArg (Multiset.map Job.sent) moved
    have ran := congrArg (Multiset.filterMap Job.ran) moved
    rw [Multiset.map_cons,Multiset.map_cons] at sent
    rw [ran_test,ran_script] at ran
    have same := (Multiset.cons_inj_right x).mp sent
    simp only [holds,ended,same,ran]
    exact ⟨rfl,rfl⟩
  | script i x o w hi hw =>
    have moved := Workers.inputs_work hi hw
    have sent := congrArg (Multiset.map Job.sent) moved
    have ran := congrArg (Multiset.filterMap Job.ran) moved
    rw [Multiset.map_cons,Multiset.map_cons] at sent
    rw [ran_script,ran_offer] at ran
    obtain ⟨started,answered⟩ := x.effect_started o (x.command.run o)
    have same := (Multiset.cons_inj_right x).mp sent
    rw [x.effect_received,started,answered]
    simp only [holds,ended,same,ran]
    refine ⟨rfl,?_⟩
    rw [add_right_comm,add_comm (Multiset.filterMap Job.ran _)]
    exact (add_zero _).symm
  | receive i r w hi free hw =>
    have moved := Workers.inputs_finish hi hw
    have sent := congrArg (Multiset.map Job.sent) moved
    have ran := congrArg (Multiset.filterMap Job.ran) moved
    rw [Multiset.map_cons] at sent
    rw [ran_offer] at ran
    simp only [holds,ended,free,←sent,←ran]
    constructor
    · show r.sent::ₘ_+0+0=_+([r.sent] : List Sent)+0
      rw [add_zero,add_zero,add_zero,Multiset.coe_singleton,add_comm,Multiset.singleton_add]
    · show (r.ran.toList : Multiset Sent)+_+0+0=_+(List.filterMap Finished.ran [r] : List Sent)+0
      rw [add_zero,add_zero,add_zero,add_comm]
      cases hr : r.ran <;> simp [hr]
  | record r held =>
    have submits : (permission env).notifyFollower (resultEntry r.result) (some r)=
        .submit (resultEntry r.result) (some r) := if_pos permitted
    simp only [holds,ended,submits,held]
    constructor
    · exact add_right_comm _ _ _
    · exact add_right_comm _ _ _

theorem conserves_refl (s : Notifier) : s.Conserves s [] := ⟨rfl,rfl⟩

theorem Conserves.step {u : Notifier} (h : s.Conserves t shown) (hs : t.Steps cfg env a u eff)
    (permitted : env.writable=true) : s.Conserves u (shown++eff.visible) := by
  obtain ⟨sent,ran⟩ := hs.moves permitted
  constructor
  · rw [sentBy_visible,answeredBy_visible,List.map_append,←Multiset.coe_add,←Multiset.coe_add,
      ←add_assoc,h.sent,add_right_comm,sent,add_right_comm,add_assoc]
  · rw [ranBy_visible,answeredBy_visible,List.filterMap_append,←Multiset.coe_add,
      ←Multiset.coe_add,←add_assoc,h.ran,add_right_comm,ran,add_right_comm,add_assoc]

theorem conserves_run {es : List (Setting × NotifierAction)}
    (hr : run (traced Effect.visible (step cfg)) (s,[]) es=some (t,shown))
    (permitted : ∀ e∈es,e.1.writable=true) : s.Conserves t shown :=
  traced_invariant Effect.visible (step cfg) (fun env _ => env.writable=true) s.Conserves
    (fun _ _ _ _ _ _ h allowed hs => h.step (step_steps hs) allowed) es s t [] shown
    (conserves_refl s) permitted hr

/-- With nothing left to do no command is on its way. -/
theorem Reached.empty (h : s.Reached) (zero : s.left=0) : s.holds=0 ∧ s.ended=0 := by
  rw [left] at zero
  obtain ⟨idle,released,still⟩ := Workers.left_eq_zero (show s.workers.left Job.weight=0 by omega)
  obtain ⟨none,-⟩ := h.sound.at_rest idle released still
  have held : s.recorder.held=[] := List.length_eq_zero_iff.mp (by omega)
  simp [holds,ended,none,held]

end Notifier

/-- Each command is answered once: while the node may write, the results submitted and the scripts
that ran are a part of the commands sent, and when nothing is left to do there is one result for
each command, and the scripts that ran are those that could be started. -/
theorem notifier_exactly_once (cfg : QuorumConfig) (es : List (Setting × NotifierAction))
    (permitted : ∀ e∈es,e.1.writable=true) (s : Notifier) (effects : List Effect)
    (hr : run (traced Effect.visible (Notifier.step cfg)) ({},[]) es=some (s,effects)) :
    ((answeredBy effects).map Finished.sent).Subperm (sentBy effects) ∧
    (ranBy effects).Subperm (sentBy effects) ∧
    (s.left=0 → ((answeredBy effects).map Finished.sent).Perm (sentBy effects) ∧
      (ranBy effects).Perm ((answeredBy effects).filterMap Finished.ran)) := by
  have conserves := Notifier.conserves_run hr permitted
  have sent : (sentBy effects : Multiset Sent)=s.holds+(answeredBy effects).map Finished.sent := by
    rw [←conserves.sent]
    exact (zero_add _).symm
  have ran : (ranBy effects : Multiset Sent)=s.ended+(answeredBy effects).filterMap Finished.ran := by
    rw [←conserves.ran]
    exact (zero_add _).symm
  refine ⟨?_,?_,?_⟩
  · rw [←Multiset.coe_le,sent]
    exact Multiset.le_add_left _ _
  · rw [←Multiset.coe_le,sent,ran]
    exact add_le_add s.ended_le_holds (Multiset.coe_le.mpr (answered_ran _))
  · intro zero
    obtain ⟨holds,ended⟩ := (Notifier.reached_run hr).empty zero
    rw [holds,zero_add] at sent
    rw [ended,zero_add] at ran
    exact ⟨Multiset.coe_eq_coe.mp sent.symm,Multiset.coe_eq_coe.mp ran⟩

/-- What follows the clone in a whole pass that sends one command, and the command's way to
quorumCheck2, with the permission kept. -/
def downPass (o : ShellOutcome) : List (Setting × NotifierAction) :=
  [.tick (.check 63000000000 (soloScan 62 63 gossipDown)),.tick (.clock 63000000000),.tick .go,
    .tick .go,.tick .go,.tick (.check 63000000000 (soloScan 62 63 gossipDown)),.dispatch,.dispatch,
    .dispatch,.test 0,.script 0 o,.receive 0,.release 0,.record,.release 0,.release 0].map
      (fun a => (⟨downFsm,true⟩,a))

def downOrder : List (GoString × GossipConsensus) :=
  [(goStr "k",soloEntry (.ofNano 2000000000) gossipUp 62 gossipDown)]

/-- The beginning of a pass, up to its clone. -/
def opening : List (Setting × NotifierAction) :=
  [(⟨downFsm,true⟩,.enter),(⟨downFsm,true⟩,.tick (.barrier true))]

/-- The command is answered, and it has run unless sh could not be started. -/
theorem notifier_exactly_once_kept :
    (∃ s effects,run (traced Effect.visible (Notifier.step soloConfig)) ({},[])
        (opening++(⟨downFsm,true⟩,.tick (.order downOrder))::downPass (.exited 0 [] []))=
          some (s,effects) ∧ (sentBy effects).length=1 ∧ (ranBy effects).length=1 ∧
      ((answeredBy effects).map Finished.sent).Perm (sentBy effects) ∧
      (ranBy effects).Perm ((answeredBy effects).filterMap Finished.ran)) ∧
    ∃ s effects,run (traced Effect.visible (Notifier.step soloConfig)) ({},[])
        (opening++(⟨downFsm,true⟩,.tick (.order downOrder))::downPass .notStarted)=
          some (s,effects) ∧ (sentBy effects).length=1 ∧ ranBy effects=[] ∧
      ((answeredBy effects).map Finished.sent).Perm (sentBy effects) := by
  constructor
  · have done : (run (traced Effect.visible (Notifier.step soloConfig)) ({},[])
        (opening++(⟨downFsm,true⟩,.tick (.order downOrder))::downPass (.exited 0 [] []))).map
          (fun p => (p.1.left,(sentBy p.2).length,(ranBy p.2).length))=some (0,1,1) := by
      decide +kernel
    obtain ⟨⟨s,effects⟩,hr,facts⟩ := Option.map_eq_some_iff.mp done
    simp only [Prod.mk.injEq] at facts
    obtain ⟨zero,one,ran⟩ := facts
    obtain ⟨-,-,same⟩ := notifier_exactly_once soloConfig _ (by decide) s effects hr
    exact ⟨s,effects,hr,one,ran,same zero⟩
  · have done : (run (traced Effect.visible (Notifier.step soloConfig)) ({},[])
        (opening++(⟨downFsm,true⟩,.tick (.order downOrder))::downPass .notStarted)).map
          (fun p => (p.1.left,(sentBy p.2).length,(ranBy p.2).length))=some (0,1,0) := by
      decide +kernel
    obtain ⟨⟨s,effects⟩,hr,facts⟩ := Option.map_eq_some_iff.mp done
    simp only [Prod.mk.injEq] at facts
    obtain ⟨zero,one,none⟩ := facts
    obtain ⟨-,-,same⟩ := notifier_exactly_once soloConfig _ (by decide) s effects hr
    exact ⟨s,effects,hr,one,List.length_eq_zero_iff.mp none,(same zero).1⟩

/-- The clock readings of the action lie between lo and hi. -/
def NotifierAction.Between (lo hi : Int64) : NotifierAction → Prop
  | .tick input => input.Between lo hi
  | _ => True

namespace Notifier

/-- The pass is past its clone and on its way with the notification. -/
structure Passes (kind : CheckKind) (key : GoString) (v : GossipConsensus) (status : GossipStatus)
    (s : Notifier) (shown : List Effect) : Prop where
  cloned : ∀ st∈s.tick,¬st.Opens
  underway : Underway kind key v status s.tick (sentBy shown)

section Passes
variable {cfg : QuorumConfig} {kind : CheckKind} {key : GoString} {v : GossipConsensus}
  {status : GossipStatus} {lo hi : Int64} {s t : Notifier} {env : Setting} {a : NotifierAction}
  {eff : Effect} {shown : List Effect}

/-- The goroutines of the pool and quorumCheck2 send nothing on cmdCh. -/
theorem Passes.beside (h : Passes kind key v status s shown) {w : Workers Job} {q : Recorder}
    (silent : eff.received=[]) :
    Passes kind key v status {s with workers := w,recorder := q} (shown++eff.visible) := by
  refine ⟨h.cloned,?_⟩
  rw [sentBy_visible,silent,List.append_nil]
  exact h.underway

theorem Passes.step (h : Passes kind key v status s shown) (due : Due cfg v lo hi status kind)
    (hq : 1 ≤ cfg.quorum) (same : a≠.enter) (clock : a.Between lo hi)
    (hs : s.Steps cfg env a t eff) : Passes kind key v status t (shown++eff.visible) := by
  cases hs with
  | enter => exact absurd rfl same
  | tick st rest input sts eff w ht hx ha =>
    have executes := Checker.exec_executes _ _ _ _ _ _ _ hx
    have cloned := h.cloned
    have underway := h.underway
    rw [ht] at cloned underway
    have later := cloned st List.mem_cons_self
    constructor
    · intro next hn
      rcases List.mem_append.mp hn with new|old
      · exact executes.past (fun first => later (.inl first)) next new
      · exact cloned next (List.mem_cons_of_mem st old)
    · rw [sentBy_visible]
      exact underway.step executes (fun first => later (.inr first)) due hq clock
  | dispatch | cancel | start | drop | receive | leave | release => exact h.beside rfl
  | script i x o => exact h.beside (x.effect_received o)
  | record => exact h.beside ((permission env).notifyFollower_received _ _)

theorem Passes.run {es : List (Setting × NotifierAction)} {before : List Effect}
    (h : Passes kind key v status s before) (due : Due cfg v lo hi status kind) (hq : 1 ≤ cfg.quorum)
    (pass : ∀ e∈es,e.2≠.enter ∧ e.2.Between lo hi)
    (hr : StCache.run (traced Effect.visible (Notifier.step cfg)) (s,before) es=some (t,shown)) :
    Passes kind key v status t shown :=
  traced_invariant Effect.visible (Notifier.step cfg) (fun _ a => a≠.enter ∧ a.Between lo hi)
    (Passes kind key v status)
    (fun _ _ _ _ _ _ h inside hs => h.step due hq inside.1 inside.2 (step_steps hs)) es s t before
    shown h pass hr

/-- The clone of a store that holds the entry. -/
theorem passes_clone {o : List (GoString × GossipConsensus)} (ht : s.tick=[.clone])
    (stored : env.fsm.gcm.data.lookup key=some v)
    (hs : s.Steps cfg env (.tick (.order o)) t eff) :
    eff=.silent ∧ Passes kind key v.copy status t [] := by
  cases hs with
  | tick st rest input sts eff w hd hx ha =>
    rw [ht,List.cons.injEq] at hd
    obtain ⟨rfl,rfl⟩ := hd
    cases Checker.exec_executes _ _ _ _ _ _ _ hx with
    | clone o ho =>
      refine ⟨rfl,?_,?_⟩
      · rw [List.append_nil]
        exact (Checker.exec_executes _ _ _ _ _ _ _ hx).past (by simp)
      · rw [List.append_nil]
        exact underway_cloneChecks ho stored kind status

end Passes

end Notifier

/-- If every result for the command comes from a script that has run, so many have run. -/
theorem count_ran [DecidableEq Sent] (x : Sent) (rs : List Finished)
    (all : ∀ r∈rs,r.sent=x → r.outcome.started=true) :
    (rs.map Finished.sent).count x≤(rs.filterMap Finished.ran).count x := by
  induction rs with
  | nil => exact Nat.le_refl _
  | cons r rs ih =>
    have rest := ih (fun q hq => all q (List.mem_cons_of_mem r hq))
    by_cases about : r.sent=x
    · have ran : r.ran=some x := by
        rw [Finished.ran,if_pos (all r List.mem_cons_self about),about]
      rw [List.map_cons,List.filterMap_cons_some ran,about,List.count_cons_self,List.count_cons_self]
      exact Nat.succ_le_succ rest
    · rw [List.map_cons,List.count_cons_of_ne about]
      cases hr : r.ran with
      | none => rw [List.filterMap_cons_none hr]; exact rest
      | some y => rw [List.filterMap_cons_some hr]; exact rest.trans (List.count_le_count_cons)

/-- A command sent on the way to an idle pipeline is answered, and not by an older run of its
script. -/
theorem Notifier.Conserves.answers {s t : Notifier} {shown : List Effect} {x : Sent}
    (h : s.Conserves t shown) (holds : t.holds=0) (ended : t.ended=0) (mem : x∈sentBy shown) :
    ∃ r∈answeredBy shown,r.sent=x ∧ (r.outcome.started=true → x∈ranBy shown) := by
  classical
  have sent := h.sent
  have ran := h.ran
  rw [holds,zero_add] at sent
  rw [ended,zero_add] at ran
  by_contra none
  push Not at none
  -- each of its results comes from a run, and none of these runs is new
  have once : x∈(answeredBy shown).map Finished.sent := by
    rw [←Multiset.mem_coe,←sent]
    exact Multiset.mem_add.mpr (.inr mem)
  obtain ⟨r,hr,about⟩ := List.mem_map.mp once
  have old : x∉ranBy shown := (none r hr about).2
  have counts := count_ran x (answeredBy shown) (fun q hq about => (none q hq about).1)
  rw [←Multiset.coe_count,←Multiset.coe_count,←sent,←ran,Multiset.count_add,Multiset.count_add,
    Multiset.count_eq_zero.mpr (show x∉(ranBy shown : Multiset Sent) from old)] at counts
  have before := Multiset.count_le_of_le x s.ended_le_holds
  have now : 1≤Multiset.count x (sentBy shown : Multiset Sent) := Multiset.one_le_count_iff_mem.mpr mem
  omega

/-- A pass misses no transition: if the entry it clones is due for the whole pass, it sends exactly
one command about that check of the key, and while the node may write the result of that command is
submitted before the pipeline is idle again; its script has run unless it could not be started. -/
theorem pass_notifies_due (cfg : QuorumConfig) (hq : 1 ≤ cfg.quorum) (kind : CheckKind)
    (key : GoString) (v : GossipConsensus) (status : GossipStatus) (lo hi : Int64)
    (due : Due cfg v lo hi status kind) (es : List (Setting × NotifierAction)) (s : Notifier)
    (before : List Effect)
    (hs : run (traced Effect.visible (Notifier.step cfg)) ({},[]) es=some (s,before))
    (clone : s.tick=[.clone]) (env : Setting) (stored : env.fsm.gcm.data.lookup key=some v)
    (o : List (GoString × GossipConsensus)) (fs : List (Setting × NotifierAction))
    (pass : ∀ e∈fs,e.2≠.enter ∧ e.2.Between lo hi) (t : Notifier) (shown : List Effect)
    (hr : run (traced Effect.visible (Notifier.step cfg)) (s,[]) ((env,.tick (.order o))::fs)=
      some (t,shown))
    (done : t.tick=[]) :
    ∃ x,(sentBy shown).filter (fun x => x.decision.about kind key)=[x] ∧
      x.decision.status=status ∧
      ((∀ e∈(env,.tick (.order o))::fs,e.1.writable=true) → t.left=0 →
        ∃ r∈answeredBy shown,r.sent=x ∧ (r.outcome.started=true → x∈ranBy shown)) := by
  have whole := hr
  rw [run_cons] at hr
  obtain ⟨⟨u,first⟩,hfirst,hr⟩ := Option.bind_eq_some_iff.mp hr
  obtain ⟨eff,hu,rfl⟩ := traced_some hfirst
  obtain ⟨rfl,passes⟩ : eff=.silent ∧ Notifier.Passes kind key v.copy status u [] :=
    Notifier.passes_clone clone stored (Notifier.step_steps hu)
  have last := passes.run (due_copy due) hq pass hr
  cases last.underway with
  | left st one =>
    rw [done] at one
    cases one
  | sent x none one leads =>
    refine ⟨x,one,leads.status,?_⟩
    intro permitted zero
    obtain ⟨holds,ended⟩ := ((Notifier.reached_run hs).run whole).empty zero
    have mem : x∈sentBy shown := (List.mem_filter.mp (one ▸ List.mem_cons_self)).1
    exact (Notifier.conserves_run whole permitted).answers holds ended mem

theorem pass_notifies_due_down :
    ∃ s t shown x,run (traced Effect.visible (Notifier.step soloConfig)) ({},[]) opening=
        some (s,[]) ∧
      run (traced Effect.visible (Notifier.step soloConfig)) (s,[])
        ((⟨downFsm,true⟩,.tick (.order downOrder))::downPass (.exited 0 [] []))=some (t,shown) ∧
      (sentBy shown).filter (fun x => x.decision.about .event (goStr "k"))=[x] ∧
      x.decision.status=gossipDown ∧
      ∃ r∈answeredBy shown,r.sent=x ∧ (r.outcome.started=true → x∈ranBy shown) := by
  have done : (run (traced Effect.visible (Notifier.step soloConfig)) ({tick := [.clone]},[])
      ((⟨downFsm,true⟩,.tick (.order downOrder))::downPass (.exited 0 [] []))).map
        (fun p => (p.1.left,p.1.tick.length))=some (0,0) := by
    decide +kernel
  obtain ⟨⟨t,shown⟩,hr,facts⟩ := Option.map_eq_some_iff.mp done
  obtain ⟨zero,none⟩ := Prod.mk.inj facts
  have reached : Reaches soloConfig.quorum
      (soloEntry (.ofNano 2000000000) gossipUp 62 gossipDown) (.ofNano 2000000000)
      (fun _ => 63000000000) gossipDown := by
    decide +kernel
  have due : Due soloConfig (soloEntry (.ofNano 2000000000) gossipUp 62 gossipDown) 63000000000
      63000000000 gossipDown .event :=
    ⟨by decide +kernel,reached,fun x hx => reaches_unique (by decide +kernel) reached hx,
      .inr ⟨rfl,rfl⟩⟩
  have pass : ∀ e∈downPass (.exited 0 [] []),e.2≠.enter ∧ e.2.Between 63000000000 63000000000 := by
    simp [downPass,NotifierAction.Between,TickInput.Between,soloScan]
  obtain ⟨x,one,status,later⟩ := pass_notifies_due soloConfig (by decide) .event (goStr "k") _ _ _ _
    due opening {tick := [.clone]} [] rfl rfl ⟨downFsm,true⟩ rfl downOrder
    (downPass (.exited 0 [] [])) pass t shown hr (List.length_eq_zero_iff.mp none)
  exact ⟨_,t,shown,x,rfl,hr,one,status,later (by decide) zero⟩

end StCache
