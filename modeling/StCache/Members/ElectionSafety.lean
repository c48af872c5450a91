import StCache.Members.ElectionSteps

namespace StCache

/-- The voter has granted its vote when its log was not ahead of the candidate's. -/
def Checked (votes : List Vote) (voter : GoString) (req : RequestVoteRequest) : Prop :=
  ∃ vote∈votes,vote.voter=voter ∧ vote.request=req ∧ vote.response.granted=true ∧
    ¬Outdated vote.request vote.log

instance (votes : List Vote) (voter : GoString) (req : RequestVoteRequest) :
    Decidable (Checked votes voter req) := inferInstanceAs (Decidable (∃ vote∈votes,_))

def Elector.disk (s : Elector) : Ballots.Disk GoString :=
  ⟨s.lastVoteTerm,s.lastVoteCand,s.raft.currentTerm⟩

theorem disk_update (server : GoString → Elector) (n : GoString) (e : Elector) :
    Elector.disk∘Function.update server n e=Function.update (Elector.disk∘server) n e.disk :=
  Function.comp_update Elector.disk server n e

/-- The disks of all servers stand for the votes they have granted. -/
def Voting (server : GoString → Elector) (votes : List Vote) (torn : List (GoString × Nat)) : Prop :=
  ballots.Voting (Elector.disk∘server) votes torn

section Votes
variable {server : GoString → Elector} {votes : List Vote} {torn : List (GoString × Nat)}
  {n : GoString} {e : Elector} {x : Vote}

theorem Voting.update (h : Voting server votes torn) (kept : e.lastVote=(server n).lastVote)
    (term : (server n).raft.currentTerm≤e.raft.currentTerm) :
    Voting (Function.update server n e) votes torn := by
  rw [Voting,disk_update]
  exact Ballots.Reading.Voting.update h (congrArg Prod.fst kept) (congrArg Prod.snd kept) term

/-- A new vote, written to the disk. -/
theorem Voting.cast (h : Voting server votes torn) (voter : x.voter=n)
    (granted : x.response.granted=true) (fresh : ¬Outdated x.request x.log)
    (named : x.request.candidate≠[]) (new : e.lastVote=(x.request.term,x.request.candidate))
    (reached : x.request.term≤e.raft.currentTerm)
    (older : ∀ req,ballots.Granted votes n req → req.term<x.request.term) :
    Voting (Function.update server n e) (votes++[x]) torn := by
  rw [Voting,disk_update]
  exact Ballots.Reading.Voting.cast h voter granted fresh named (congrArg Prod.fst new)
    (congrArg Prod.snd new) reached older

/-- The last vote is granted once more. -/
theorem Voting.again (h : Voting server votes torn) (voter : x.voter=n)
    (named : x.request.candidate≠[])
    (same : (server n).lastVote=(x.request.term,x.request.candidate))
    (kept : e.lastVote=(server n).lastVote)
    (term : (server n).raft.currentTerm≤e.raft.currentTerm)
    (once : ∀ req,ballots.Granted votes n req → req.candidate=x.request.candidate →
      req.term=x.request.term → req=x.request) :
    Voting (Function.update server n e) (votes++[x]) torn := by
  rw [Voting,disk_update]
  exact Ballots.Reading.Voting.again h voter named (congrArg Prod.fst same)
    (congrArg Prod.snd same) (congrArg Prod.fst kept) (congrArg Prod.snd kept) term once

/-- Only the term of a new vote is written. -/
theorem Voting.tear {term : Nat} (h : Voting server votes torn) (new : e.lastVoteTerm=term)
    (reached : term≤e.raft.currentTerm)
    (older : ∀ req,ballots.Granted votes n req → req.term<term) :
    Voting (Function.update server n e) votes (torn++[(n,term)]) := by
  rw [Voting,disk_update]
  exact Ballots.Reading.Voting.tear h new reached older

end Votes

/-- What a candidate has counted. -/
structure Counts (votes : List Vote) (n : GoString) (y : Tally) : Prop where
  candidate : y.request.candidate=n
  needed : y.votesNeeded=quorumSize y.servers
  within : (y.granted++y.awaited).Subperm (voterIDs y.servers)
  granted : ∀ v∈y.granted,ballots.Granted votes v y.request

/-- The votes that won an election. -/
def Elected (votes : List Vote) (w : Win) : Prop :=
  ∃ g : List GoString,g.Subperm (voterIDs w.servers) ∧ quorumSize w.servers≤g.length ∧
    ∀ v∈g,ballots.Granted votes v w.request

/-- The role of server n. In runCandidate it may be a follower already, in another term. -/
structure Role (votes : List Vote) (wins : List Win) (n : GoString) (e : Elector) : Prop where
  tally : ∀ y,e.loop=.runCandidate y → Counts votes n y
  stands : ∀ y,e.loop=.runCandidate y → e.state=.candidate → y.request.term=e.raft.currentTerm
  leads : e.state=.leader → ∃ w∈wins,w.request.candidate=n ∧ w.request.term=e.raft.currentTerm

structure Counting (server : GoString → Elector) (votes : List Vote) (wins : List Win) : Prop where
  role : ∀ n,Role votes wins n (server n)
  won : ∀ w∈wins,Elected votes w

section Roles
variable {server : GoString → Elector} {votes : List Vote} {wins : List Win} {n : GoString}
  {e : Elector}

theorem Role.append (h : Role votes wins n e) (more : List Vote) (wins' : List Win) :
    Role (votes++more) (wins++wins') n e := by
  refine ⟨fun y hy => ?_,h.stands,fun hl => ?_⟩
  · have counts := h.tally y hy
    exact ⟨counts.candidate,counts.needed,counts.within,
      fun v hv => (counts.granted v hv).append more⟩
  · obtain ⟨w,hw,rest⟩ := h.leads hl
    exact ⟨w,List.mem_append_left wins' hw,rest⟩

theorem Role.goes {e' : Elector} (h : Role votes wins n e) (goes : e.Goes e') :
    Role votes wins n e' := by
  refine ⟨fun y hy => h.tally y (goes.tally y hy),fun y hy now => ?_,fun hl => ?_⟩
  · obtain ⟨before,term⟩ := goes.stands now
    rw [term]
    exact h.stands y (goes.tally y hy) before
  · obtain ⟨before,term⟩ := goes.leads hl
    rw [term]
    exact h.leads before

/-- A server changes, and more votes and wins are known. -/
theorem Counting.step (h : Counting server votes wins) (more : List Vote) (new : List Win)
    (role : Role (votes++more) (wins++new) n e) (won : ∀ w∈new,Elected (votes++more) w) :
    Counting (Function.update server n e) (votes++more) (wins++new) := by
  refine ⟨(Function.forall_update_iff server (Role (votes++more) (wins++new))).mpr
    ⟨role,fun m _ => (h.role m).append more new⟩,fun w hw => ?_⟩
  rcases List.mem_append.mp hw with old|now
  · obtain ⟨g,within,enough,granted⟩ := h.won w old
    exact ⟨g,within,enough,fun v hv => (granted v hv).append more⟩
  · exact won w now

/-- The votes that a candidate has after one more result. -/
theorem Counts.count {y : Tally} {voter : GoString} {granted : Bool} (h : Counts votes n y)
    (awaited : voter∈y.awaited) (real : granted=true → ballots.Granted votes voter y.request) :
    Counts votes n (y.count voter granted) := by
  refine ⟨h.candidate,h.needed,?_,?_⟩
  · refine List.Subperm.trans ?_ h.within
    have split := List.perm_cons_erase awaited
    cases granted with
    | true =>
      show ((y.granted++[voter])++y.awaited.erase voter).Subperm (y.granted++y.awaited)
      rw [List.append_assoc]
      exact (split.symm.append_left y.granted).subperm
    | false => exact (List.Sublist.append_left (List.erase_sublist) y.granted).subperm
  · intro v hv
    cases granted with
    | true =>
      rcases List.mem_append.mp hv with old|new
      · exact h.granted v old
      · rw [List.mem_singleton.mp new]
        exact real rfl
    | false => exact h.granted v hv

theorem Counts.elected {y : Tally} (h : Counts votes n y)
    (enough : y.votesNeeded≤y.granted.length) : Elected votes ⟨y.request,y.servers⟩ := by
  refine ⟨y.granted,?_,?_,h.granted⟩
  · exact (List.sublist_append_left y.granted y.awaited).subperm.trans h.within
  · rw [←h.needed]
    exact enough

end Roles

/-- Who stands, and for which term. -/
structure Standing (server : GoString → Elector) (elections : List RequestVoteRequest)
    (requests : List (GoString × RequestVoteRequest)) (votes : List Vote) : Prop where
  named : ∀ n,(server n).raft.localID=n
  placed : ∀ n,(server n).Placed
  handled : ∀ n,(server n).Handled
  stood : ∀ req∈elections,req.candidate≠[] ∧ req.term≤(server req.candidate).raft.currentTerm
  once : ∀ a∈elections,∀ b∈elections,a.candidate=b.candidate → a.term=b.term → a=b
  asked : ∀ p∈requests,p.2∈elections
  answered : ∀ vote∈votes,vote.request∈elections

section Candidates
variable {server : GoString → Elector} {elections : List RequestVoteRequest}
  {requests : List (GoString × RequestVoteRequest)} {votes : List Vote} {n : GoString} {e : Elector}

theorem update_term (term : (server n).raft.currentTerm≤e.raft.currentTerm) (m : GoString) :
    (server m).raft.currentTerm≤(Function.update server n e m).raft.currentTerm := by
  by_cases same : m=n
  · rw [same,Function.update_self]
    exact term
  · rw [Function.update_of_ne same]

theorem Standing.update (h : Standing server elections requests votes)
    (localID : e.raft.localID=(server n).raft.localID) (placed : e.Placed) (handled : e.Handled)
    (term : (server n).raft.currentTerm≤e.raft.currentTerm) :
    Standing (Function.update server n e) elections requests votes := by
  refine ⟨?_,?_,?_,?_,h.once,h.asked,h.answered⟩
  · exact (Function.forall_update_iff server (fun m x => x.raft.localID=m)).mpr
      ⟨localID.trans (h.named n),fun m _ => h.named m⟩
  · exact (Function.forall_update_iff server (fun _ x => x.Placed)).mpr
      ⟨placed,fun m _ => h.placed m⟩
  · exact (Function.forall_update_iff server (fun _ x => x.Handled)).mpr
      ⟨handled,fun m _ => h.handled m⟩
  · intro req stood
    obtain ⟨named,reached⟩ := h.stood req stood
    exact ⟨named,reached.trans (update_term term req.candidate)⟩

theorem Standing.goes (h : Standing server elections requests votes) (goes : (server n).Goes e) :
    Standing (Function.update server n e) elections requests votes :=
  h.update goes.localID goes.placed goes.handled goes.term

theorem Standing.snoc {x : Vote} (h : Standing server elections requests votes)
    (known : x.request∈elections) : Standing server elections requests (votes++[x]) := by
  refine ⟨h.named,h.placed,h.handled,h.stood,h.once,h.asked,fun vote there => ?_⟩
  rcases List.mem_append.mp there with old|new
  · exact h.answered vote old
  · rw [List.mem_singleton.mp new]
    exact known

/-- A server stands for a term it has not been in, perhaps with its own vote. -/
theorem Standing.stand {req : RequestVoteRequest} (h : Standing server elections requests votes)
    (named : req.candidate≠[])
    (fresh : ∀ a∈elections,a.candidate=req.candidate → a.term < req.term)
    (reached : req.term≤(server req.candidate).raft.currentTerm) (peers : List GoString)
    {more : List Vote} (own : ∀ x∈more,x.request=req) :
    Standing server (elections++[req]) (requests++peers.map (fun peer => (peer,req)))
      (votes++more) := by
  have last : req∈elections++[req] := List.mem_append_right elections (List.mem_singleton_self req)
  refine ⟨h.named,h.placed,h.handled,?_,?_,?_,?_⟩
  · intro a ha
    rcases List.mem_append.mp ha with old|new
    · exact h.stood a old
    · rw [List.mem_singleton.mp new]
      exact ⟨named,reached⟩
  · intro a ha b hb same term
    rcases List.mem_append.mp ha with ha|ha <;> rcases List.mem_append.mp hb with hb|hb
    · exact h.once a ha b hb same term
    · rw [List.mem_singleton.mp hb] at same term
      exact absurd term (fresh a ha same).ne
    · rw [List.mem_singleton.mp ha] at same term
      exact absurd term.symm (fresh b hb same.symm).ne
    · rw [List.mem_singleton.mp ha,List.mem_singleton.mp hb]
  · intro p hp
    rcases List.mem_append.mp hp with old|new
    · exact List.mem_append_left _ (h.asked p old)
    · obtain ⟨peer,-,rfl⟩ := List.mem_map.mp new
      exact last
  · intro x hx
    rcases List.mem_append.mp hx with old|new
    · exact List.mem_append_left _ (h.answered x old)
    · rw [own x new]
      exact last

end Candidates

namespace Elections

structure Sound (s : Elections) : Prop where
  standing : Standing s.server s.elections s.requests s.votes
  voting : Voting s.server s.votes s.torn
  counting : Counting s.server s.votes s.wins

variable {s t : Elections}

theorem sound_init : Sound {} := by
  refine ⟨⟨fun _ => rfl,fun _ => ⟨fun _ => rfl,fun _ => rfl⟩,fun _ => Elector.handled_quiet rfl,
      ?_,?_,?_,?_⟩,
    ⟨fun n => Ballots.Reading.kept_nil n 0,?_,?_⟩,⟨fun n => ⟨?_,?_,?_⟩,?_⟩⟩
  · intro req there
    cases there
  · intro a there
    cases there
  · intro p there
    cases there
  · intro vote there
    cases there
  · intro v a b granted
    exact absurd granted (Ballots.Reading.not_granted_nil v a)
  · intro v req granted
    exact absurd granted (Ballots.Reading.not_granted_nil v req)
  · intro y role
    cases role
  · intro y role
    cases role
  · intro role
    cases role
  · intro w there
    cases there

theorem Sound.goes (h : s.Sound) {n : GoString} {e : Elector} (goes : (s.server n).Goes e)
    (kept : e.lastVote=(s.server n).lastVote) : (s.put n e).Sound := by
  refine ⟨h.standing.goes goes,h.voting.update kept goes.term,?_⟩
  have counting := h.counting.step [] [] (((h.counting.role n).append [] []).goes goes)
    (fun w there => absurd there List.not_mem_nil)
  rw [List.append_nil,List.append_nil] at counting
  exact counting

theorem Sound.answers (h : s.Sound) {voter : GoString} {req : RequestVoteRequest}
    (asked : (voter,req)∈s.requests) (quiet : s.Quiet voter) (disk : VoteDisk) :
    (s.answer voter req disk).Sound := by
  have known : req∈s.elections := h.standing.asked _ asked
  have named := (h.standing.stood req known).1
  have before := (h.voting.kept voter).voted
  have once : ∀ a,ballots.Granted s.votes voter a → a.candidate=req.candidate → a.term=req.term → a=req := by
    rintro a ⟨vote,there,-,rfl,-⟩
    exact h.standing.once _ (h.standing.answered vote there) req known
  have counting : ∀ {e : Elector} (x : Vote),(s.server voter).Goes e →
      Counting (Function.update s.server voter e) (s.votes++[x]) s.wins := by
    intro e x goes
    have more := h.counting.step [x] [] (((h.counting.role voter).append [x] []).goes goes)
      (fun w there => absurd there List.not_mem_nil)
    rw [List.append_nil] at more
    exact more
  have standing : ∀ {e : Elector} (x : Vote),x.request=req → (s.server voter).Goes e →
      Standing (Function.update s.server voter e) s.elections s.requests (s.votes++[x]) := by
    intro e x same goes
    refine (h.standing.goes goes).snoc ?_
    rw [same]
    exact known
  have answers := (Elector.requestVote_answers (h.standing.placed voter) quiet req disk).leave
  rw [answer]
  generalize ((s.server voter).requestVote req disk).1.leave=e at answers ⊢
  generalize ((s.server voter).requestVote req disk).2=granted at answers ⊢
  cases answers with
  | rejects goes kept =>
    rw [tornBy,if_neg (fun torn => torn.1 (congrArg Prod.fst kept)),List.append_nil]
    exact ⟨standing _ rfl goes,(h.voting.update kept goes.term).refuse rfl,counting _ goes⟩
  | repeats goes kept same =>
    rw [tornBy,if_neg (fun torn => torn.1 (congrArg Prod.fst kept)),List.append_nil]
    exact ⟨standing _ rfl goes,h.voting.again rfl named same kept goes.term once,counting _ goes⟩
  | votes goes reached free fresh new =>
    rw [tornBy,if_neg (fun torn => Bool.noConfusion torn.2),List.append_nil]
    have late := before.trans (goes.term.trans reached.le)
    exact ⟨standing _ rfl goes,h.voting.cast rfl rfl fresh named new reached.ge
      (fun _ granted => h.voting.older free late granted),counting _ goes⟩
  | tears goes reached free new =>
    have late := before.trans (goes.term.trans reached.le)
    have newTerm : e.lastVoteTerm=req.term := congrArg Prod.fst new
    by_cases again : e.lastVoteTerm=(s.server voter).lastVoteTerm
    · have kept : e.lastVote=(s.server voter).lastVote := by
        rw [new,Elector.lastVote,←again,newTerm]
      rw [tornBy,if_neg (fun torn => torn.1 again),List.append_nil]
      exact ⟨standing _ rfl goes,(h.voting.update kept goes.term).refuse rfl,counting _ goes⟩
    · have torn := h.voting.tear newTerm reached.ge
        (fun _ granted => h.voting.older free late granted)
      rw [tornBy,if_pos ⟨again,rfl⟩,newTerm]
      exact ⟨standing _ rfl goes,torn.refuse rfl,counting _ goes⟩

theorem role_stand (votes : List Vote) (wins : List Win) {n : GoString} {e : Elector}
    (named : e.raft.localID=n) (state : e.state=.candidate) (written : Bool) :
    Role votes wins n (e.stand written) := by
  refine ⟨fun y role => ?_,fun y role _ => ?_,fun leads => ?_⟩
  · cases role
    refine ⟨named,rfl,?_,fun v there => absurd there List.not_mem_nil⟩
    cases written with
    | true => exact List.Subperm.refl _
    | false => exact List.nil_subperm
  · cases role
    rfl
  · cases state.symm.trans leads

/-- A server stands for its next term. What becomes of its own vote is in the votes and on its
disk. -/
theorem Sound.stand (h : s.Sound) {n : GoString} {c e : Elector} (named : n≠[])
    (enters : s.Enters n c) (raft : e.raft=c.nextTerm.raft) (state : e.state=c.state)
    (heartbeats : e.heartbeats=c.heartbeats) (written : Bool) (peers : List GoString)
    {more : List Vote} {torn : List (GoString × Nat)}
    (own : ∀ x∈more,x.request=c.nextTerm.voteRequest)
    (voting : Voting (Function.update s.server n (e.stand written)) (s.votes++more) torn) :
    Sound ⟨Function.update s.server n (e.stand written),
      s.requests++peers.map (fun peer => (peer,c.nextTerm.voteRequest)),
      s.elections++[c.nextTerm.voteRequest],s.votes++more,torn,s.wins⟩ := by
  have name : c.nextTerm.voteRequest.candidate=n :=
    (congrArg Raft.localID enters.raft).trans (h.standing.named n)
  have localID : e.raft.localID=n := by
    rw [raft]
    exact name
  have term : e.raft.currentTerm=c.nextTerm.voteRequest.term := by
    rw [raft]
    rfl
  have later : (s.server n).raft.currentTerm<c.nextTerm.voteRequest.term := by
    rw [←enters.raft]
    exact Nat.lt_succ_self _
  have start : e.raft.startIndex=none := by
    rw [raft]
    exact (congrArg Raft.startIndex enters.raft).trans ((h.standing.placed n).start enters.role)
  have quiet : e.heartbeats=[] := heartbeats.trans enters.quiet
  have moved := h.standing.update (e := e.stand written) (localID.trans (h.standing.named n).symm)
    ⟨fun _ => start,fun follows => by cases follows⟩ (Elector.handled_quiet quiet)
    (later.le.trans term.ge)
  refine ⟨moved.stand ?_ ?_ ?_ peers own,voting,?_⟩
  · rw [name]
    exact named
  · intro a there same
    have reached := (h.standing.stood a there).2
    rw [same,name] at reached
    exact Nat.lt_of_le_of_lt reached later
  · rw [name,Function.update_self]
    exact term.ge
  · have counting := h.counting.step more []
      (role_stand _ _ localID (state.trans enters.state) written)
      (fun w there => absurd there List.not_mem_nil)
    rw [List.append_nil] at counting
    exact counting

theorem Sound.elects (h : s.Sound) {n : GoString} {c : Elector} (disk : VoteDisk) (named : n≠[])
    (enters : s.Enters n c) : (s.electSelf n c disk).Sound := by
  have before := (h.voting.kept n).voted
  have name : c.nextTerm.voteRequest.candidate=n :=
    (congrArg Raft.localID enters.raft).trans (h.standing.named n)
  have next : c.nextTerm.voteRequest.term=(s.server n).raft.currentTerm+1 :=
    congrArg (fun r : Raft => r.currentTerm+1) enters.raft
  have older : ∀ req,ballots.Granted s.votes n req → req.term<c.nextTerm.voteRequest.term := by
    intro req granted
    rw [next]
    exact Nat.lt_succ_of_le (((h.voting.kept n).kept req granted).2.1.trans before)
  have nothing : ∀ x∈([] : List Vote),x.request=c.nextTerm.voteRequest :=
    fun x there => absurd there List.not_mem_nil
  have votes := c.nextTerm.voteSelf_votes disk
  obtain ⟨raft,state,heartbeats⟩ := c.nextTerm.voteSelf_frame disk
  rw [electSelf]
  generalize c.nextTerm.voteSelf disk=voted at votes raft state heartbeats ⊢
  obtain ⟨e,written⟩ := voted
  dsimp only at votes raft state heartbeats ⊢
  have reached : c.nextTerm.voteRequest.term≤e.raft.currentTerm := by
    rw [raft]
    exact Nat.le_refl _
  have later : (s.server n).raft.currentTerm≤e.raft.currentTerm :=
    (Nat.le_succ _).trans (next.ge.trans reached)
  cases votes with
  | none own kept =>
    rw [ownVote,if_neg (fun voted => own voted.1),tornBy,
      if_neg (fun torn => torn.1 (congrArg Prod.fst kept))]
    refine h.stand named enters raft state heartbeats true _ nothing ?_
    rw [List.append_nil,List.append_nil]
    exact h.voting.update (kept.trans enters.kept) later
  | votes own new =>
    rw [ownVote,if_pos ⟨own,rfl⟩,tornBy,if_neg (fun torn => Bool.noConfusion torn.2)]
    refine h.stand named enters raft state heartbeats true _ ?_ ?_
    · intro x there
      rw [List.mem_singleton.mp there]
    · rw [List.append_nil]
      refine h.voting.cast rfl rfl ?_ ?_ new reached older
      · rintro (ahead|⟨-,ahead⟩)
        · exact Nat.lt_irrefl _ ahead
        · exact Nat.lt_irrefl _ ahead
      · exact fun empty => named (name.symm.trans empty)
  | tears new =>
    have newTerm : e.lastVoteTerm=c.nextTerm.voteRequest.term := congrArg Prod.fst new
    have same : c.nextTerm.lastVoteTerm=(s.server n).lastVoteTerm := congrArg Prod.fst enters.kept
    have newer : e.lastVoteTerm≠c.nextTerm.lastVoteTerm := by
      rw [newTerm,next,same]
      exact (Nat.lt_succ_of_le before).ne'
    rw [ownVote,if_neg (fun voted => Bool.noConfusion voted.2),tornBy,if_pos ⟨newer,rfl⟩,newTerm]
    refine h.stand named enters raft state heartbeats false _ nothing ?_
    rw [List.append_nil]
    exact h.voting.tear newTerm reached older
  | fails kept =>
    rw [ownVote,if_neg (fun voted => Bool.noConfusion voted.2),tornBy,
      if_neg (fun torn => torn.1 (congrArg Prod.fst kept))]
    refine h.stand named enters raft state heartbeats false _ nothing ?_
    rw [List.append_nil,List.append_nil]
    exact h.voting.update (kept.trans enters.kept) later

theorem put_put (s : Elections) (n : GoString) (e x : Elector) : (s.put n e).put n x=s.put n x := by
  rw [put,put,put]
  exact congrArg (fun server => {s with server := server}) (Function.update_idem e x s.server)

theorem Sound.leaves {n : GoString} {e : Elector} (sound : (s.put n e).Sound) :
    (s.put n e.leave).Sound := by
  have now : (s.put n e).server n=e := by
    show Function.update s.server n e n=e
    rw [Function.update_self]
  have placed := sound.standing.placed n
  have handled := sound.standing.handled n
  rw [now] at placed handled
  have left := sound.goes (n := n) (e := e.leave)
  rw [now,put_put] at left
  exact left (Elector.goes_refl placed handled).leave e.leave_frame.2.2.2.2.2.1

/-- One more result is counted. -/
theorem Sound.counts (h : s.Sound) {n voter : GoString} {tally : Tally} {granted : Bool}
    (role : (s.server n).loop=.runCandidate tally) (quiet : s.Quiet n) (awaited : voter∈tally.awaited)
    (real : granted=true → ballots.Granted s.votes voter tally.request) :
    (s.put n {s.server n with loop := .runCandidate (tally.count voter granted)}).Sound := by
  have before := h.counting.role n
  have start : (s.server n).raft.startIndex=none := by
    refine (h.standing.placed n).start (fun leads => ?_)
    cases role.symm.trans leads
  refine ⟨h.standing.update rfl ⟨fun _ => start,fun follows => by cases follows⟩
    (Elector.handled_quiet quiet) (Nat.le_refl _),h.voting.update rfl (Nat.le_refl _),?_⟩
  have counting := h.counting.step (n := n)
    (e := {s.server n with loop := .runCandidate (tally.count voter granted)}) [] [] ?_
    (fun w there => absurd there List.not_mem_nil)
  · rw [List.append_nil,List.append_nil] at counting
    exact counting
  · rw [List.append_nil,List.append_nil]
    refine ⟨fun y same => ?_,fun y same now => ?_,before.leads⟩
    · cases same
      exact (before.tally tally role).count awaited real
    · cases same
      exact before.stands tally role now

theorem Sound.wins (h : s.Sound) {n voter : GoString} {tally : Tally} {granted : Bool}
    (role : (s.server n).loop=.runCandidate tally) (state : (s.server n).state=.candidate)
    (quiet : s.Quiet n) (awaited : voter∈tally.awaited)
    (real : granted=true → ballots.Granted s.votes voter tally.request)
    (enough : tally.votesNeeded≤(tally.count voter granted).granted.length) :
    Sound {s.put n (s.server n).win with wins := s.wins++[⟨tally.request,tally.servers⟩]} := by
  have counts := ((h.counting.role n).tally tally role).count awaited real
  have term := (h.counting.role n).stands tally role state
  refine ⟨h.standing.update rfl ⟨fun other => absurd rfl other,fun follows => by cases follows⟩
    (Elector.handled_quiet quiet) (Nat.le_refl _),h.voting.update rfl (Nat.le_refl _),?_⟩
  have counting := h.counting.step (n := n) (e := (s.server n).win) []
    [⟨tally.request,tally.servers⟩] ?_ ?_
  · rw [List.append_nil] at counting
    exact counting
  · refine ⟨fun y same => (by cases same),fun y same => (by cases same),fun _ => ?_⟩
    exact ⟨_,List.mem_append_right _ (List.mem_singleton_self _),counts.candidate,term⟩
  · intro w there
    rw [List.mem_singleton.mp there,List.append_nil]
    exact counts.elected enough

theorem Sound.step {e : ElectionEvent} (h : s.Sound) (regular : s.Regular e) (hs : s.step e=some t) :
    t.Sound := by
  cases step_steps h.standing.placed h.standing.handled regular hs with
  | moves n e moves => exact h.goes moves.goes moves.kept
  | elects n e disk named enters => exact h.elects disk named enters
  | answers voter req disk asked quiet => exact h.answers asked quiet disk
  | counts n tally voter granted role quiet awaited real =>
    exact (h.counts role quiet awaited real).leaves
  | wins n tally voter granted role state quiet awaited real enough =>
    exact h.wins role state quiet awaited real enough

theorem sound_run {es : List ElectionEvent} (regular : Along Elections.step Regular {} es)
    (hr : run Elections.step {} es=some s) : s.Sound :=
  run_invariant Elections.step Regular Sound (fun _ _ _ h regular hs => h.step regular hs) es _ s
    sound_init regular hr

end Elections

/-- The same configuration, or one accepted change between them. -/
def OneApart (a b : List Server) : Prop := a=b ∨ Succeeds a b ∨ Succeeds b a

theorem OneApart.voters {a b : List Server} (h : OneApart a b) :
    ∃ id,(voters a).erase id=(StCache.voters b).erase id := by
  rcases h with rfl|next|next
  · exact ⟨[],rfl⟩
  · exact next.voters
  · obtain ⟨id,same⟩ := next.voters
    exact ⟨id,same.symm⟩

theorem OneApart.meet {a b : List Server} (h : OneApart a b) (ha : checkConfiguration a=.ok ())
    (hb : checkConfiguration b=.ok ()) {S T : Finset GoString} (hS : Quorum a S)
    (hT : Quorum b T) : (S∩T).Nonempty := by
  obtain ⟨id,same⟩ := h.voters
  exact majorities_meet same (hS.majority ((checkConfiguration_ok_iff a).mp ha).ids)
    (hT.majority ((checkConfiguration_ok_iff b).mp hb).ids)

/-- The votes that won are those of a quorum. -/
theorem Elected.quorum {votes : List Vote} {w : Win} (h : Elected votes w)
    (checked : checkConfiguration w.servers=.ok ()) :
    ∃ S,Quorum w.servers S ∧ ∀ v∈S,ballots.Granted votes v w.request := by
  obtain ⟨g,within,enough,granted⟩ := h
  have ids := ((checkConfiguration_ok_iff w.servers).mp checked).ids
  have distinct : (voterIDs w.servers).Nodup :=
    ids.sublist (List.filter_sublist.map Server.id)
  have single : g.Nodup := by
    obtain ⟨l,perm,sub⟩ := within
    exact perm.nodup_iff.mp (distinct.sublist sub)
  refine ⟨g.toFinset,⟨?_,?_⟩,fun v there => granted v (List.mem_toFinset.mp there)⟩
  · intro v there
    exact List.mem_toFinset.mpr (within.subset (List.mem_toFinset.mp there))
  · rw [List.toFinset_card_of_nodup single]
    exact enough

/-- Some voter has voted for both winners. -/
theorem Elections.Sound.single {s : Elections} (h : s.Sound) {w x : Win} (hw : w∈s.wins)
    (hx : x∈s.wins) (same : w.request.term=x.request.term) (near : OneApart w.servers x.servers)
    (okw : checkConfiguration w.servers=.ok ()) (okx : checkConfiguration x.servers=.ok ()) :
    w.request.candidate=x.request.candidate := by
  obtain ⟨S,hS,grantedS⟩ := (h.counting.won w hw).quorum okw
  obtain ⟨T,hT,grantedT⟩ := (h.counting.won x hx).quorum okx
  obtain ⟨v,both⟩ := near.meet okw okx hS hT
  obtain ⟨inS,inT⟩ := Finset.mem_inter.mp both
  exact h.voting.single v _ _ (grantedS v inS) (grantedT v inT) same

/-- The servers a, b and c. -/
def trio : List Server := [⟨.voter,[97],[97]⟩,⟨.voter,[98],[98]⟩,⟨.voter,[99],[99]⟩]

/-- The log of a, which founded the cluster and let b and c join. -/
def trioLog : List LogEntry :=
  [⟨1,.configuration (trio.take 1)⟩,⟨2,.other⟩,⟨2,.configuration (trio.take 2)⟩,
    ⟨2,.configuration trio⟩]

def foundingRun : List ElectionEvent :=
  [.other [97] [] (.bootstrap [97]),.timeout [97] .both,.voteResult [97] 0,
    .other [97] [] (.commit 2),.other [97] [] (.call true [] true (.join [98])),
    .other [98] [97] (.appendEntries ⟨2,0,0,trioLog.take 3,2⟩),.other [97] [] (.commit 3),
    .other [97] [] (.call true [] true (.join [99])),
    .other [98] [97] (.appendEntries ⟨2,3,2,trioLog.drop 3,3⟩),
    .other [99] [97] (.appendEntries ⟨2,0,0,trioLog,3⟩),.other [97] [] (.commit 4),
    .heartbeat [98] [97] 2,.assign [98] 0]

/-- The server a stands for term 3 and has the vote of b on its way, when c is elected in term 4. -/
def rivals : List ElectionEvent :=
  foundingRun++[.other [97] [] (.stepDown 2),.other [98] [] .restart,.timeout [97] .both,
    .requestVote 0 .both,.voteResult [97] 1,.timeout [99] .both,.timeout [99] .both,
    .requestVote 5 .both,.voteResult [99] 4,.voteResult [99] 5]

/-- The condition is needed. A heartbeat of c makes a follower of a, which still waits in runCandidate;
there it counts the vote of b and becomes a leader of term 4 beside c. -/
example : ∃ s,run Elections.step {} (rivals++[.heartbeat [97] [99] 4,.assign [97] 0,.assign [97] 0,
    .assign [97] 0,.voteResult [97] 2])=some s ∧ (s.server [97]).state=.leader ∧
    (s.server [99]).state=.leader ∧ (s.server [97]).raft.currentTerm=4 ∧
    (s.server [99]).raft.currentTerm=4 := ⟨_,rfl,rfl,rfl,rfl,rfl⟩

/-- The vote is counted between two assignments of the heartbeat. -/
example : ∃ s,run Elections.step {} (rivals++[.heartbeat [97] [99] 4,.assign [97] 0,
    .voteResult [97] 2,.assign [97] 0])=some s ∧ (s.server [97]).state=.leader ∧
    (s.server [99]).state=.leader ∧ (s.server [97]).raft.currentTerm=4 ∧
    (s.server [99]).raft.currentTerm=4 := ⟨_,rfl,rfl,rfl,rfl,rfl⟩

end StCache
