import StCache.Members.Election
import StCache.Members.Membership

namespace StCache

/-- The events that leave the term and the role. -/
def RaftEvent.calm : RaftEvent → Bool
  | .call _ _ _ _ => true
  | .dispatch => true
  | .takeSnapshot _ => true
  | .cancelSnapshot => true
  | .closeSnapshot => true
  | .compactLogs => true
  | _ => false

namespace Raft
variable {s t : Raft}

theorem appendEntries_fields {a : AppendEntriesRequest} (late : ¬a.term<s.currentTerm) :
    (s.appendEntries a).localID=s.localID ∧ (s.appendEntries a).currentTerm=a.term ∧
      (s.appendEntries a).startIndex=none := by
  rw [appendEntries,if_neg late]
  obtain ⟨log,c,i,k,same⟩ := (s.follow a.term).receiveEntries_frame a
  rw [same]
  exact ⟨rfl,rfl,rfl⟩

/-- Only a leader's configurations change. -/
theorem Steps.calm {e : RaftEvent} (h : s.Steps e t) (calm : e.calm=true) :
    t.localID=s.localID ∧ t.currentTerm=s.currentTerm ∧ t.startIndex=s.startIndex ∧
      (s.startIndex=none → t.configurations=s.configurations) := by
  cases h with
  | changes leads =>
    exact ⟨rfl,rfl,rfl,fun none => absurd (leads.symm.trans none) (Option.some_ne_none _)⟩
  | compacts =>
    rw [compactLogs]
    split_ifs <;> exact ⟨rfl,rfl,rfl,fun _ => rfl⟩
  | refuses => exact ⟨rfl,rfl,rfl,fun _ => rfl⟩
  | dispatches => exact ⟨rfl,rfl,rfl,fun _ => rfl⟩
  | takes => exact ⟨rfl,rfl,rfl,fun _ => rfl⟩
  | cancels => exact ⟨rfl,rfl,rfl,fun _ => rfl⟩
  | closes => exact ⟨rfl,rfl,rfl,fun _ => rfl⟩
  | _ => cases calm

end Raft

namespace Elector

def lastVote (s : Elector) : Nat × GoString := (s.lastVoteTerm,s.lastVoteCand)

/-- Only runLeader has a commitment, and runFollower is left for another state only. -/
structure Placed (s : Elector) : Prop where
  start : s.loop≠.runLeader → s.raft.startIndex=none
  follows : s.loop=.runFollower → s.state=.follower

/-- One heartbeat at a time is processed, and nothing has come between its tests and its
assignments. -/
structure Handled (s : Elector) : Prop where
  single : s.heartbeats.length≤1
  term : ∀ b∈s.heartbeats,b.phase≠.setLeader → s.raft.currentTerm≤b.term
  state : ∀ b∈s.heartbeats,b.phase=.setCurrentTerm → s.state=.follower

/-- What every step that starts no election and wins none does to a server. -/
structure Goes (s t : Elector) : Prop where
  localID : t.raft.localID=s.raft.localID
  term : s.raft.currentTerm≤t.raft.currentTerm
  tally : ∀ y,t.loop=.runCandidate y → s.loop=.runCandidate y
  stands : t.state=.candidate → s.state=.candidate ∧ t.raft.currentTerm=s.raft.currentTerm
  leads : t.state=.leader → s.state=.leader ∧ t.raft.currentTerm=s.raft.currentTerm
  placed : t.Placed
  handled : t.Handled

variable {s t : Elector}

theorem handled_quiet (quiet : s.heartbeats=[]) : s.Handled := by
  refine ⟨?_,?_,?_⟩
  · rw [quiet]
    exact Nat.zero_le 1
  · intro b there
    rw [quiet] at there
    cases there
  · intro b there
    rw [quiet] at there
    cases there

/-- The role stays. -/
theorem goes_same {raft : Raft} (leader : GoString) (placed : s.Placed) (handled : s.Handled)
    (localID : raft.localID=s.raft.localID) (term : raft.currentTerm=s.raft.currentTerm)
    (start : s.loop≠.runLeader → raft.startIndex=none) :
    s.Goes {s with raft := raft,leader := leader} := by
  refine ⟨localID,term.ge,fun _ h => h,fun h => ⟨h,term⟩,fun h => ⟨h,term⟩,
    ⟨start,placed.follows⟩,handled.single,?_,handled.state⟩
  show ∀ b∈s.heartbeats,b.phase≠.setLeader → raft.currentTerm≤b.term
  rw [term]
  exact handled.term

theorem goes_refl (placed : s.Placed) (handled : s.Handled) : s.Goes s :=
  goes_same s.leader placed handled rfl rfl placed.start

/-- The server becomes a follower. -/
theorem goes_become (leader : GoString) {raft : Raft} (quiet : s.heartbeats=[])
    (localID : raft.localID=s.raft.localID) (term : s.raft.currentTerm ≤ raft.currentTerm)
    (start : raft.startIndex=none) : s.Goes (s.become leader raft) := by
  refine ⟨localID,term,?_,?_,?_,⟨fun _ => start,fun _ => rfl⟩,handled_quiet quiet⟩
  · intro y h
    cases h
  · intro h
    cases h
  · intro h
    cases h

theorem goes_follow {term : Nat} (quiet : s.heartbeats=[]) (later : s.raft.currentTerm≤term) :
    s.Goes (s.follow term) :=
  goes_become [] quiet rfl later rfl

/-- What leaving a loop changes. -/
theorem leave_frame (s : Elector) :
    s.leave.raft.localID=s.raft.localID ∧ s.leave.raft.currentTerm=s.raft.currentTerm ∧
      s.leave.raft.configurations=s.raft.configurations ∧ s.leave.state=s.state ∧
      s.leave.heartbeats=s.heartbeats ∧ s.leave.lastVote=s.lastVote ∧
      (s.leave.loop=s.loop ∧ s.leave.raft=s.raft ∨
        (s.leave.loop=.runFollower ∧ s.state=.follower) ∧ (s.leave.raft=s.raft ∧ s.loop≠.runLeader ∨
          s.leave.raft=s.raft.follow s.raft.currentTerm)) := by
  rw [leave]
  split
  next loop state =>
    refine ⟨rfl,rfl,rfl,rfl,rfl,rfl,.inr ⟨⟨rfl,state⟩,.inl ⟨rfl,fun leads => ?_⟩⟩⟩
    rw [loop] at leads
    cases leads
  next loop state => exact ⟨rfl,rfl,rfl,state.symm,rfl,rfl,.inr ⟨⟨rfl,state⟩,.inr rfl⟩⟩
  next => exact ⟨rfl,rfl,rfl,rfl,rfl,rfl,.inl ⟨rfl,rfl⟩⟩

theorem Goes.leave (h : s.Goes t) : s.Goes t.leave := by
  obtain ⟨localID,term,-,state,heartbeats,-,left⟩ := t.leave_frame
  refine ⟨localID.trans h.localID,?_,?_,?_,?_,⟨?_,?_⟩,?_,?_,?_⟩
  · rw [term]
    exact h.term
  · intro y role
    rcases left with ⟨stays,-⟩|⟨⟨gone,-⟩,-⟩
    · exact h.tally y (stays.symm.trans role)
    · rw [gone] at role
      cases role
  · rw [state,term]
    exact h.stands
  · rw [state,term]
    exact h.leads
  · intro other
    rcases left with ⟨stays,raft⟩|⟨-,⟨raft,free⟩|raft⟩
    · rw [raft]
      exact h.placed.start (stays ▸ other)
    · rw [raft]
      exact h.placed.start free
    · rw [raft]
      rfl
  · intro role
    rw [state]
    rcases left with ⟨stays,-⟩|⟨⟨-,follower⟩,-⟩
    · exact h.placed.follows (stays.symm.trans role)
    · exact follower
  · rw [heartbeats]
    exact h.handled.single
  · rw [heartbeats,term]
    exact h.handled.term
  · rw [heartbeats,state]
    exact h.handled.state

theorem leave_sound (h : s.raft.Sound) : s.leave.raft.Sound := by
  obtain ⟨-,-,-,-,-,-,⟨-,raft⟩|⟨-,⟨raft,-⟩|raft⟩⟩ := s.leave_frame
  · rw [raft]
    exact h
  · rw [raft]
    exact h
  · rw [raft]
    exact h.follow _

theorem assign_goes {i : Nat} {b : Heartbeat} (placed : s.Placed) (handled : s.Handled)
    (there : s.heartbeats[i]?=some b) : s.Goes (s.assign i b) := by
  obtain ⟨only,first⟩ : s.heartbeats=[b] ∧ i=0 := by
    obtain ⟨short,found⟩ := List.getElem?_eq_some_iff.mp there
    have zero : i=0 := Nat.lt_one_iff.mp (Nat.lt_of_lt_of_le short handled.single)
    subst zero
    obtain ⟨x,same⟩ := List.length_eq_one_iff.mp (Nat.le_antisymm handled.single short)
    refine ⟨?_,rfl⟩
    rw [same] at there ⊢
    rw [Option.some.inj there]
  subst first
  have mine : b∈s.heartbeats := by
    rw [only]
    exact List.mem_singleton_self b
  rw [assign,only]
  cases phase : b.phase with
  | setState =>
    refine ⟨rfl,Nat.le_refl _,fun _ h => h,fun h => (by cases h),fun h => (by cases h),
      ⟨placed.start,fun _ => rfl⟩,Nat.le_refl 1,?_,fun _ _ _ => rfl⟩
    intro x hx _
    cases List.mem_singleton.mp hx
    refine handled.term b mine (fun other => ?_)
    rw [phase] at other
    cases other
  | setCurrentTerm =>
    have follower := handled.state b mine phase
    refine ⟨rfl,?_,fun _ h => h,fun h => ?_,fun h => ?_,⟨placed.start,placed.follows⟩,Nat.le_refl 1,?_,
      fun _ _ _ => follower⟩
    · refine handled.term b mine (fun other => ?_)
      rw [phase] at other
      cases other
    · cases follower.symm.trans h
    · cases follower.symm.trans h
    · intro x hx other
      cases List.mem_singleton.mp hx
      exact absurd rfl other
  | setLeader =>
    refine ⟨rfl,Nat.le_refl _,fun _ h => h,fun h => ⟨h,rfl⟩,fun h => ⟨h,rfl⟩,
      ⟨placed.start,placed.follows⟩,Nat.zero_le 1,?_,?_⟩
    · intro x hx
      cases hx
    · intro x hx
      cases hx

/-- A step that starts no election, wins none and casts no vote, for a server that relies on what it
is sent. -/
structure Moves (s t : Elector) (relies : Prop) : Prop where
  goes : s.Goes t
  kept : t.lastVote=s.lastVote
  sound : relies → s.raft.Sound → t.raft.Sound
  stands : relies → ∀ y,t.loop=.runCandidate y →
    t.raft.configurations=s.raft.configurations ∨ t.raft.configurations.latestIndex≠0

theorem Moves.leave {relies : Prop} (h : s.Moves t relies) : s.Moves t.leave relies := by
  obtain ⟨-,-,configurations,-,-,kept,left⟩ := t.leave_frame
  refine ⟨h.goes.leave,kept.trans h.kept,fun ok sound => leave_sound (h.sound ok sound),?_⟩
  intro ok y role
  rw [configurations]
  rcases left with ⟨stays,-⟩|⟨⟨gone,-⟩,-⟩
  · exact h.stands ok y (stays.symm.trans role)
  · rw [gone] at role
    cases role

theorem moves_become (leader : GoString) {raft : Raft} {relies : Prop} (quiet : s.heartbeats=[])
    (localID : raft.localID=s.raft.localID) (term : s.raft.currentTerm ≤ raft.currentTerm)
    (start : raft.startIndex=none) (sound : relies → s.raft.Sound → raft.Sound) :
    s.Moves (s.become leader raft) relies := by
  refine ⟨goes_become leader quiet localID term start,rfl,sound,?_⟩
  intro _ y role
  cases role

theorem moves_refl {relies : Prop} (placed : s.Placed) (handled : s.Handled) : s.Moves s relies :=
  ⟨goes_refl placed handled,rfl,fun _ sound => sound,fun _ _ _ => .inl rfl⟩

theorem heartbeat_moves {b : Heartbeat} {relies : Prop} (placed : s.Placed) (quiet : s.heartbeats=[])
    (term : s.raft.currentTerm≤b.term) (first : b.phase≠.setCurrentTerm) :
    s.Moves {s with heartbeats := s.heartbeats++[b]} relies := by
  refine ⟨⟨rfl,Nat.le_refl _,fun _ h => h,fun h => ⟨h,rfl⟩,fun h => ⟨h,rfl⟩,
    ⟨placed.start,placed.follows⟩,?_,?_,?_⟩,rfl,fun _ sound => sound,fun _ _ _ => .inl rfl⟩
  · rw [quiet]
    exact Nat.le_refl 1
  · intro x there _
    rw [quiet] at there
    cases List.mem_singleton.mp there
    exact term
  · intro x there next
    rw [quiet] at there
    cases List.mem_singleton.mp there
    exact absurd next first

theorem processHeartbeat_moves {relies : Prop} (placed : s.Placed) (quiet : s.heartbeats=[])
    (leader : GoString) (term : Nat) : s.Moves (s.processHeartbeat leader term) relies := by
  rw [processHeartbeat]
  split_ifs with old newer
  · exact moves_refl placed (handled_quiet quiet)
  · exact heartbeat_moves placed quiet (Nat.le_of_not_lt old) (fun h => by cases h)
  · exact heartbeat_moves placed quiet (Nat.le_of_not_lt old) (fun h => by cases h)

theorem assign_moves {i : Nat} {b : Heartbeat} {relies : Prop} (placed : s.Placed)
    (handled : s.Handled) (there : s.heartbeats[i]?=some b) : s.Moves (s.assign i b) relies := by
  have goes := assign_goes placed handled there
  rw [assign] at goes ⊢
  cases phase : b.phase with
  | setState | setLeader =>
    rw [phase] at goes
    exact ⟨goes,rfl,fun _ sound => sound,fun _ _ _ => .inl rfl⟩
  | setCurrentTerm =>
    rw [phase] at goes
    exact ⟨goes,rfl,fun _ sound => ⟨sound.tracks,sound.serves,sound.idle⟩,fun _ _ _ => .inl rfl⟩

/-- The events without a line of their own. -/
theorem calm_moves {e : RaftEvent} {raft : Raft} (placed : s.Placed) (handled : s.Handled)
    (calm : e.calm=true) (hr : s.raft.step e=some raft) :
    s.Moves (if e.inLoop then {s with raft := raft}.leave else {s with raft := raft})
      (s.raft.Relies e) := by
  obtain ⟨localID,term,start,same⟩ := (Raft.step_steps hr).calm calm
  have moves : s.Moves {s with raft := raft} (s.raft.Relies e) := by
    refine ⟨goes_same s.leader placed handled localID term
      (fun other => start.trans (placed.start other)),rfl,
      fun relies sound => sound.step relies hr,fun _ y role => .inl (same (placed.start ?_))⟩
    intro leads
    rw [show s.loop=.runCandidate y from role] at leads
    cases leads
  split_ifs
  · exact moves.leave
  · exact moves

theorem install_moves {leader : GoString} {r : InstallSnapshotRequest} (placed : s.Placed)
    (quiet : s.heartbeats=[]) (hs : s.step leader (.installSnapshot r)=some t) :
    s.Moves t (s.raft.Relies (.installSnapshot r)) := by
  obtain ⟨raft,hr,rfl⟩ := Option.map_eq_some_iff.mp hs
  have sound : s.raft.Relies (.installSnapshot r) → s.raft.Sound → raft.Sound :=
    fun relies sound => sound.step relies hr
  cases Raft.step_steps hr with
  | installs =>
    rw [Raft.installSnapshot] at sound ⊢
    split_ifs at sound ⊢ with old newer
    · exact (moves_refl placed (handled_quiet quiet)).leave
    · exact moves_become leader quiet rfl (Nat.le_of_lt newer) rfl sound
    · refine Moves.leave ⟨goes_same leader placed (handled_quiet quiet) rfl rfl placed.start,rfl,
        sound,?_⟩
      intro relies y _
      obtain ⟨-,-,-,-,-,-,some⟩ := relies (Nat.le_of_not_lt old)
      exact .inr some

theorem step_moves {leader : GoString} {e : RaftEvent} (placed : s.Placed) (handled : s.Handled)
    (quiet : e.inLoop=true → s.heartbeats=[]) (hs : s.step leader e=some t) :
    s.Moves t (s.raft.Relies e) := by
  cases e with
  | elected | heartbeat term => cases hs
  | bootstrap address =>
    rw [step] at hs
    split_ifs at hs with follows
    have follower := placed.follows follows
    obtain ⟨raft,hr,rfl⟩ := Option.map_eq_some_iff.mp hs
    have sound : s.raft.Relies (.bootstrap address) → s.raft.Sound → raft.Sound :=
      fun relies sound => sound.step relies hr
    cases Raft.step_steps hr with
    | founds start term =>
      refine ⟨⟨rfl,?_,fun _ h => h,?_,?_,⟨fun _ => start,placed.follows⟩,handled_quiet (quiet rfl)⟩,rfl,
        sound,?_⟩
      · rw [term]
        exact Nat.zero_le _
      · intro h
        cases follower.symm.trans h
      · intro h
        cases follower.symm.trans h
      · intro _ y h
        cases follows.symm.trans h
  | call enableWrite leader' received c | dispatch | takeSnapshot index | cancelSnapshot
  | closeSnapshot | compactLogs =>
    obtain ⟨raft,hr,rfl⟩ := Option.map_eq_some_iff.mp hs
    exact calm_moves placed handled rfl hr
  | commit index =>
    obtain ⟨raft,hr,rfl⟩ := Option.map_eq_some_iff.mp hs
    have sound : s.raft.Relies (.commit index) → s.raft.Sound → raft.Sound :=
      fun relies sound => sound.step relies hr
    cases Raft.step_steps hr with
    | commits _ leads =>
      obtain ⟨-,-,-,localID,term⟩ := Raft.leaderCommit_fields s.raft index
      have role : s.loop=.runLeader := by
        by_contra other
        rw [placed.start other] at leads
        cases leads
      split_ifs with lost
      · exact moves_become [] (quiet rfl) localID term.ge lost sound
      · refine Moves.leave ⟨goes_same s.leader placed handled localID term
          (fun other => absurd role other),rfl,sound,fun _ y stands => ?_⟩
        cases role.symm.trans stands
  | stepDown term =>
    rw [step] at hs
    split_ifs at hs with leads
    obtain ⟨raft,hr,rfl⟩ := Option.map_eq_some_iff.mp hs
    have sound : s.raft.Relies (.stepDown term) → s.raft.Sound → raft.Sound :=
      fun relies sound => sound.step relies hr
    cases Raft.step_steps hr with
    | stepsDown _ later => exact moves_become [] (quiet rfl) rfl later rfl sound
  | appendEntries a =>
    obtain ⟨raft,hr,rfl⟩ := Option.map_eq_some_iff.mp hs
    have sound : s.raft.Relies (.appendEntries a) → s.raft.Sound → raft.Sound :=
      fun relies sound => sound.step relies hr
    cases Raft.step_steps hr with
    | receives =>
      split_ifs with old
      · exact (moves_refl placed handled).leave
      · obtain ⟨localID,term,start⟩ := Raft.appendEntries_fields old
        exact moves_become leader (quiet rfl) localID (term.ge.trans' (Nat.le_of_not_lt old)) start
          sound
  | installSnapshot r => exact install_moves placed (quiet rfl) hs
  | restart =>
    obtain ⟨raft,hr,rfl⟩ := Option.map_eq_some_iff.mp hs
    have sound : s.raft.Relies .restart → s.raft.Sound → raft.Sound :=
      fun relies sound => sound.step relies hr
    cases Raft.step_steps hr with
    | restarts =>
      refine ⟨⟨rfl,Nat.le_refl _,?_,?_,?_,⟨fun _ => rfl,fun _ => rfl⟩,handled_quiet rfl⟩,rfl,sound,?_⟩
      · intro y h
        cases h
      · intro h
        cases h
      · intro h
        cases h
      · intro _ y h
        cases h

/-- What requestVote does: it rejects the request, repeats the last vote, or votes; when only the
term of the vote gets to the disk, it does not grant it. -/
inductive Answers (s : Elector) (req : RequestVoteRequest) : Elector → Bool → Prop
  | rejects {t : Elector} (goes : s.Goes t) (kept : t.lastVote=s.lastVote) : Answers s req t false
  | repeats {t : Elector} (goes : s.Goes t) (kept : t.lastVote=s.lastVote)
    (same : s.lastVote=(req.term,req.candidate)) : Answers s req t true
  | votes {t : Elector} (goes : s.Goes t) (reached : t.raft.currentTerm=req.term)
    (free : ¬(s.lastVoteTerm=req.term ∧ s.lastVoteCand≠[])) (fresh : ¬Outdated req s.raft.log)
    (new : t.lastVote=(req.term,req.candidate)) : Answers s req t true
  | tears {t : Elector} (goes : s.Goes t) (reached : t.raft.currentTerm=req.term)
    (free : ¬(s.lastVoteTerm=req.term ∧ s.lastVoteCand≠[]))
    (new : t.lastVote=(req.term,s.lastVoteCand)) : Answers s req t false

theorem reach_goes {term : Nat} (placed : s.Placed) (quiet : s.heartbeats=[])
    (later : s.raft.currentTerm≤term) :
    s.Goes (s.reach term) ∧ (s.reach term).lastVote=s.lastVote ∧
      (s.reach term).raft.currentTerm=term ∧ (s.reach term).raft.log=s.raft.log := by
  rw [reach]
  split_ifs with newer
  · exact ⟨goes_follow quiet later,rfl,rfl,rfl⟩
  · exact ⟨goes_refl placed (handled_quiet quiet),rfl,
      Nat.le_antisymm later (Nat.le_of_not_lt newer),rfl⟩

/-- Writing a vote moves nothing else. -/
theorem Goes.vote (h : s.Goes t) (term : Nat) (candidate : GoString) :
    s.Goes {t with lastVoteTerm := term,lastVoteCand := candidate} :=
  ⟨h.localID,h.term,h.tally,h.stands,h.leads,⟨h.placed.start,h.placed.follows⟩,
    ⟨h.handled.single,h.handled.term,h.handled.state⟩⟩

theorem requestVote_answers (placed : s.Placed) (quiet : s.heartbeats=[]) (req : RequestVoteRequest)
    (disk : VoteDisk) : Answers s req (s.requestVote req disk).1 (s.requestVote req disk).2 := by
  have refl := goes_refl placed (handled_quiet quiet)
  rw [requestVote]
  split_ifs with led old
  · exact .rejects refl rfl
  · exact .rejects refl rfl
  obtain ⟨goes,kept,reached,log⟩ := reach_goes placed quiet (Nat.le_of_not_lt old)
  have term : (s.reach req.term).lastVoteTerm=s.lastVoteTerm := congrArg Prod.fst kept
  have cand : (s.reach req.term).lastVoteCand=s.lastVoteCand := congrArg Prod.snd kept
  rw [castVote,term,cand,log]
  split_ifs with unread voted outdated
  · exact .rejects goes kept
  · by_cases same : s.lastVoteCand=req.candidate
    · rw [decide_eq_true same]
      exact .repeats goes kept (by rw [lastVote,voted.1,same])
    · rw [decide_eq_false same]
      exact .rejects goes kept
  · exact .rejects goes kept
  · cases disk with
    | both => exact .votes (goes.vote _ _) reached voted outdated rfl
    | termOnly =>
      exact .tears (goes.vote req.term (s.reach req.term).lastVoteCand) reached voted
        (congrArg (Prod.mk req.term) cand)
    | unwritable => exact .rejects goes kept
    | unreadable => exact .rejects goes kept

theorem Answers.leave {req : RequestVoteRequest} {granted : Bool} (h : s.Answers req t granted) :
    s.Answers req t.leave granted := by
  obtain ⟨-,term,-,-,-,vote,-⟩ := t.leave_frame
  cases h with
  | rejects goes kept => exact .rejects goes.leave (vote.trans kept)
  | repeats goes kept same => exact .repeats goes.leave (vote.trans kept) same
  | votes goes reached free fresh new =>
    exact .votes goes.leave (term.trans reached) free fresh (vote.trans new)
  | tears goes reached free new => exact .tears goes.leave (term.trans reached) free (vote.trans new)

theorem Answers.goes {req : RequestVoteRequest} {granted : Bool} (h : s.Answers req t granted) :
    s.Goes t := by
  cases h with
  | rejects goes => exact goes
  | repeats goes => exact goes
  | votes goes => exact goes
  | tears goes => exact goes

/-- What electSelf does with the server's own vote, if it has one. -/
inductive SelfVotes (s : Elector) : Elector → Bool → Prop
  | none {t : Elector} (own : ¬s.Votes) (kept : t.lastVote=s.lastVote) : SelfVotes s t true
  | votes {t : Elector} (own : s.Votes) (new : t.lastVote=(s.raft.currentTerm,s.raft.localID)) :
    SelfVotes s t true
  | tears {t : Elector} (new : t.lastVote=(s.raft.currentTerm,s.lastVoteCand)) : SelfVotes s t false
  | fails {t : Elector} (kept : t.lastVote=s.lastVote) : SelfVotes s t false

theorem voteSelf_votes (s : Elector) (disk : VoteDisk) :
    SelfVotes s (s.voteSelf disk).1 (s.voteSelf disk).2 := by
  rw [voteSelf]
  split_ifs with own
  · cases disk with
    | both => exact .votes own rfl
    | termOnly => exact .tears rfl
    | unwritable => exact .fails rfl
    | unreadable => exact .fails rfl
  · exact .none own rfl

theorem voteSelf_frame (s : Elector) (disk : VoteDisk) :
    (s.voteSelf disk).1.raft=s.raft ∧ (s.voteSelf disk).1.state=s.state ∧
      (s.voteSelf disk).1.heartbeats=s.heartbeats := by
  rw [voteSelf]
  split_ifs
  · cases disk <;> exact ⟨rfl,rfl,rfl⟩
  · exact ⟨rfl,rfl,rfl⟩

end Elector

namespace Elections

/-- What the servers rely on where they follow. -/
def Relies (s : Elections) : ElectionEvent → Prop
  | .other n _ e => (s.server n).raft.Relies e
  | _ => True

/-- Server e is n as it enters runCandidate. -/
structure Enters (s : Elections) (n : GoString) (e : Elector) : Prop where
  raft : e.raft=(s.server n).raft
  kept : e.lastVote=(s.server n).lastVote
  state : e.state=.candidate
  quiet : e.heartbeats=[]
  role : (s.server n).loop≠.runLeader
  stands : (s.server n).raft.MayStand ∨ ∃ tally,(s.server n).loop=.runCandidate tally

/-- What one step can be. -/
inductive Steps (s : Elections) (ev : ElectionEvent) : Elections → Prop
  | moves (n : GoString) (e : Elector) (moves : (s.server n).Moves e (s.Relies ev)) :
    Steps s ev (s.put n e)
  | elects (n : GoString) (e : Elector) (disk : VoteDisk) (named : n≠[]) (enters : s.Enters n e) :
    Steps s ev (s.electSelf n e disk)
  | answers (voter : GoString) (req : RequestVoteRequest) (disk : VoteDisk)
    (asked : (voter,req)∈s.requests) (quiet : s.Quiet voter) : Steps s ev (s.answer voter req disk)
  | counts (n : GoString) (tally : Tally) (voter : GoString) (granted : Bool)
    (role : (s.server n).loop=.runCandidate tally) (quiet : s.Quiet n) (awaited : voter∈tally.awaited)
    (real : granted=true → ballots.Granted s.votes voter tally.request) :
    Steps s ev (s.put n {s.server n with loop := .runCandidate (tally.count voter granted)}.leave)
  | wins (n : GoString) (tally : Tally) (voter : GoString) (granted : Bool)
    (role : (s.server n).loop=.runCandidate tally) (state : (s.server n).state=.candidate)
    (quiet : s.Quiet n) (awaited : voter∈tally.awaited)
    (real : granted=true → ballots.Granted s.votes voter tally.request)
    (enough : tally.votesNeeded≤(tally.count voter granted).granted.length) :
    Steps s ev {s.put n (s.server n).win with wins := s.wins++[⟨tally.request,tally.servers⟩]}

variable {s t : Elections} {ev : ElectionEvent}

theorem count_steps {n voter : GoString} {tally : Tally} {resp : RequestVoteResponse}
    (role : (s.server n).loop=.runCandidate tally) (quiet : s.Quiet n)
    (earned : (s.server n).state=.candidate ∨
      ((s.count n tally voter resp).server n).state≠.leader) (awaited : voter∈tally.awaited)
    (real : resp.granted=true → ballots.Granted s.votes voter tally.request) :
    s.Steps ev (s.count n tally voter resp) := by
  rw [count] at earned ⊢
  dsimp only at earned ⊢
  split_ifs at earned ⊢ with newer enough
  · refine .moves n _ (Elector.moves_become [] quiet rfl (Nat.le_of_lt newer) rfl ?_)
    exact fun _ sound => sound.follow _
  · refine .wins n tally voter resp.granted role (earned.resolve_right (fun other => ?_)) quiet awaited
      real enough
    refine other ?_
    show (Function.update s.server n (s.server n).win n).state=.leader
    rw [Function.update_self]
    rfl
  · exact .counts n tally voter resp.granted role quiet awaited real

theorem timeout_steps {n : GoString} {disk : VoteDisk} (placed : (s.server n).Placed)
    (quiet : s.Quiet n) (hs : s.step (.timeout n disk)=some t) : s.Steps (.timeout n disk) t := by
  have handled := Elector.handled_quiet quiet
  rw [step] at hs
  by_cases gone : n=[] ∨ (s.server n).raft.shutdown=true
  · rw [if_pos gone] at hs
    cases hs
  rw [if_neg gone] at hs
  have named : n≠[] := fun empty => gone (.inl empty)
  cases role : (s.server n).loop with
  | runFollower =>
    rw [role] at hs
    dsimp only at hs
    split_ifs at hs with may
    · cases hs
      refine .elects n _ disk named ⟨rfl,rfl,rfl,quiet,fun leads => ?_,.inl may⟩
      cases role.symm.trans leads
    · cases hs
      exact .moves n _ ⟨Elector.goes_same [] placed handled rfl rfl placed.start,rfl,
        fun _ sound => sound,fun _ _ _ => .inl rfl⟩
  | runCandidate tally =>
    rw [role] at hs
    dsimp only at hs
    split_ifs at hs with stands
    · cases hs
      refine .elects n _ disk named ⟨rfl,rfl,stands,quiet,fun leads => ?_,.inr ⟨tally,role⟩⟩
      cases role.symm.trans leads
    · cases hs
      exact .moves n _ (Elector.moves_refl placed handled).leave
  | runLeader =>
    rw [role] at hs
    cases hs

theorem step_steps (placed : ∀ n,(s.server n).Placed) (handled : ∀ n,(s.server n).Handled)
    (regular : s.Regular ev) (hs : s.step ev=some t) : s.Steps ev t := by
  cases ev with
  | timeout n disk => exact timeout_steps (placed n) regular hs
  | requestVote i disk =>
    obtain ⟨⟨voter,req⟩,found,hs⟩ := Option.bind_eq_some_iff.mp hs
    split_ifs at hs
    cases hs
    exact .answers voter req disk (List.mem_of_getElem? found) (regular (voter,req) found)
  | voteResult n i =>
    obtain ⟨quiet,earned⟩ := regular
    have won := earned.imp_right (fun none => none t hs)
    rw [step] at hs
    cases role : (s.server n).loop with
    | runFollower | runLeader =>
      rw [role] at hs
      cases hs
    | runCandidate tally =>
      rw [role] at hs
      obtain ⟨vote,found,hs⟩ := Option.bind_eq_some_iff.mp hs
      split_ifs at hs with valid
      cases hs
      refine count_steps role quiet won (List.contains_iff_mem.mp valid.1) (fun granted => ?_)
      exact ⟨vote,List.mem_of_getElem? found,rfl,valid.2,granted⟩
  | voteError n voter =>
    obtain ⟨quiet,earned⟩ := regular
    have won := earned.imp_right (fun none => none t hs)
    rw [step] at hs
    cases role : (s.server n).loop with
    | runFollower | runLeader =>
      rw [role] at hs
      cases hs
    | runCandidate tally =>
      rw [role] at hs
      dsimp only at hs
      split_ifs at hs with awaited
      cases hs
      refine count_steps role quiet won (List.contains_iff_mem.mp awaited.1) (fun granted => ?_)
      cases granted
  | heartbeat n leader term =>
    rw [step] at hs
    split_ifs at hs
    cases hs
    exact .moves n _ (Elector.processHeartbeat_moves (placed n) regular leader term)
  | assign n i =>
    obtain ⟨b,found,rfl⟩ := Option.map_eq_some_iff.mp hs
    exact .moves n _ (Elector.assign_moves (placed n) (handled n) found)
  | other n leader e =>
    obtain ⟨e',he,rfl⟩ := Option.map_eq_some_iff.mp hs
    exact .moves n e' (Elector.step_moves (placed n) (handled n) regular he)

end Elections

end StCache
