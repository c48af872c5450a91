import StCache.Members.ElectionSafety

namespace StCache

namespace Elector
variable {s t : Elector}

theorem castVote_raft (s : Elector) (req : RequestVoteRequest) (disk : VoteDisk) :
    (s.castVote req disk).1.raft=s.raft := by
  rw [castVote]
  split_ifs
  · rfl
  · rfl
  · rfl
  · cases disk <;> rfl

theorem requestVote_raft (s : Elector) (req : RequestVoteRequest) (disk : VoteDisk) :
    (s.requestVote req disk).1.raft=s.raft ∨
      (s.requestVote req disk).1.raft=s.raft.follow req.term := by
  rw [requestVote]
  split_ifs
  · exact .inl rfl
  · exact .inl rfl
  · rw [castVote_raft,reach]
    split_ifs
    · exact .inr rfl
    · exact .inl rfl

/-- A server whose configurations are as they have to be; a candidate has one, and stands in one that
passes the check. -/
structure Member (s : Elector) : Prop where
  sound : s.raft.Sound
  known : ∀ y,s.loop=.runCandidate y →
    s.raft.configurations.latestIndex≠0 ∧ checkConfiguration y.servers=.ok ()

theorem Member.moves {relies : Prop} (h : s.Member) (ok : relies) (moves : s.Moves t relies) :
    t.Member := by
  refine ⟨moves.sound ok h.sound,fun y role => ?_⟩
  obtain ⟨known,checked⟩ := h.known y (moves.goes.tally y role)
  refine ⟨?_,checked⟩
  rcases moves.stands ok y role with same|new
  · rw [same]
    exact known
  · exact new

theorem Member.leave (h : s.Member) : s.leave.Member := by
  obtain ⟨-,-,configurations,-,-,-,left⟩ := s.leave_frame
  refine ⟨leave_sound h.sound,fun y role => ?_⟩
  rw [configurations]
  rcases left with ⟨stays,-⟩|⟨⟨gone,-⟩,-⟩
  · exact h.known y (stays.symm.trans role)
  · cases gone.symm.trans role

theorem Member.requestVote (h : s.Member) (placed : s.Placed) (quiet : s.heartbeats=[])
    (req : RequestVoteRequest) (disk : VoteDisk) : (s.requestVote req disk).1.Member := by
  have goes := (requestVote_answers placed quiet req disk).goes
  refine ⟨?_,fun y role => ?_⟩
  · rcases s.requestVote_raft req disk with same|follows
    · rw [same]
      exact h.sound
    · rw [follows]
      exact h.sound.follow req.term
  · have before := h.known y (goes.tally y role)
    rcases s.requestVote_raft req disk with same|follows
    · rw [same]
      exact before
    · rw [follows]
      exact before

end Elector

namespace Elections

structure Members (s : Elections) : Prop where
  member : ∀ n,(s.server n).Member
  won : ∀ w∈s.wins,checkConfiguration w.servers=.ok ()

variable {s t : Elections}

theorem Members.update (h : s.Members) {n : GoString} {e : Elector} (member : e.Member) :
    ∀ m,(Function.update s.server n e m).Member :=
  (Function.forall_update_iff s.server (fun _ x => x.Member)).mpr ⟨member,fun m _ => h.member m⟩

theorem Members.elects (h : s.Members) {n : GoString} {c : Elector} (disk : VoteDisk)
    (enters : s.Enters n c) : (s.electSelf n c disk).Members := by
  have raft := (c.nextTerm.voteSelf_frame disk).1
  have same : ((c.nextTerm.voteSelf disk).1).raft.configurations=
      (s.server n).raft.configurations := by
    rw [raft]
    show c.raft.configurations=(s.server n).raft.configurations
    rw [enters.raft]
  have known : (s.server n).raft.configurations.latestIndex≠0 := by
    rcases enters.stands with may|⟨tally,role⟩
    · exact may.1
    · exact ((h.member n).known tally role).1
  have member : ((c.nextTerm.voteSelf disk).1.stand (c.nextTerm.voteSelf disk).2).Member := by
    refine ⟨?_,fun y role => ?_⟩
    · show (c.nextTerm.voteSelf disk).1.raft.Sound
      rw [raft]
      have sound := (h.member n).sound
      rw [←enters.raft] at sound
      exact ⟨sound.tracks,sound.serves,sound.idle⟩
    · cases role
      refine ⟨?_,?_⟩
      · show (c.nextTerm.voteSelf disk).1.raft.configurations.latestIndex≠0
        rw [same]
        exact known
      · show checkConfiguration (c.nextTerm.voteSelf disk).1.raft.configurations.latest=.ok ()
        rw [same]
        exact (h.member n).sound.tracks.checked known
  exact ⟨h.update member,h.won⟩

theorem Members.wins (h : s.Members) {n : GoString} {tally : Tally}
    (role : (s.server n).loop=.runCandidate tally) :
    Members {s.put n (s.server n).win with wins := s.wins++[⟨tally.request,tally.servers⟩]} := by
  have member := h.member n
  have winner : (s.server n).win.Member := by
    refine ⟨member.sound.takeOver,fun y other => ?_⟩
    cases other
  refine ⟨h.update winner,fun w there => ?_⟩
  rcases List.mem_append.mp there with old|new
  · exact h.won w old
  · rw [List.mem_singleton.mp new]
    exact (member.known tally role).2

theorem Members.step {ev : ElectionEvent} (h : s.Members) (sound : s.Sound) (regular : s.Regular ev)
    (relies : s.Relies ev) (hs : s.step ev=some t) : t.Members := by
  cases step_steps sound.standing.placed sound.standing.handled regular hs with
  | moves n e moves => exact ⟨h.update ((h.member n).moves relies moves),h.won⟩
  | elects n e disk named enters => exact h.elects disk enters
  | answers voter req disk asked quiet =>
    exact ⟨h.update ((h.member voter).requestVote (sound.standing.placed voter) quiet req disk).leave,
      h.won⟩
  | counts n tally voter granted role =>
    have member : Elector.Member
        {s.server n with loop := .runCandidate (tally.count voter granted)} := by
      refine ⟨(h.member n).sound,fun y same => ?_⟩
      cases same
      exact (h.member n).known tally role
    exact ⟨h.update member.leave,h.won⟩
  | wins n tally voter granted role => exact h.wins role

end Elections

end StCache
