import StCache.Members.Raft

namespace StCache

namespace Configurations

theorem processEntries_append (c : Configurations) (index : Nat) (xs ys : List LogEntry) :
    c.processEntries index (xs++ys)=(c.processEntries index xs).processEntries (index+xs.length) ys := by
  induction xs generalizing c index with
  | nil => rfl
  | cons x xs ih =>
    rw [List.cons_append,processEntries,processEntries,ih,List.length_cons,Nat.add_assoc,
      Nat.add_comm 1]

/-- The latest configuration stays, or is one of the entries. -/
theorem processEntries_latest (c : Configurations) (index : Nat) (entries : List LogEntry) :
    c.processEntries index entries=c ∨ index<(c.processEntries index entries).latestIndex := by
  induction entries generalizing c index with
  | nil => exact .inl rfl
  | cons entry entries ih =>
    rw [processEntries]
    rcases ih (c.processConfigurationLogEntry (index+1) entry) (index+1) with same|later
    · rw [same,processConfigurationLogEntry]
      cases entry.data with
      | configuration servers => exact .inr (Nat.lt_succ_self index)
      | other => exact .inl rfl
    · exact .inr (Nat.lt_of_succ_lt later)

end Configurations

theorem scan_snoc (log : List LogEntry) (entry : LogEntry) :
    scan (log++[entry])=(scan log).processConfigurationLogEntry (log.length+1) entry := by
  rw [scan,Configurations.processEntries_append,Nat.zero_add]
  rfl

theorem scan_configuration (log : List LogEntry) (entry : LogEntry) (servers : List Server)
    (he : entry.data=.configuration servers) :
    scan (log++[entry])={(scan log).settle with latest := servers,latestIndex := log.length+1} := by
  rw [scan_snoc,Configurations.processConfigurationLogEntry,he]

theorem scan_other (log : List LogEntry) (entry : LogEntry) (he : entry.data=.other) :
    scan (log++[entry])=scan log := by
  rw [scan_snoc,Configurations.processConfigurationLogEntry,he]

theorem scan_latestIndex_le (log : List LogEntry) : (scan log).latestIndex≤log.length := by
  induction log using List.reverseRecOn with
  | nil => exact Nat.le_refl 0
  | append_singleton log entry ih =>
    rw [List.length_append,List.length_singleton]
    cases he : entry.data with
    | configuration servers => rw [scan_configuration log entry servers he]
    | other =>
      rw [scan_other log entry he]
      omega

theorem scan_ordered (log : List LogEntry) :
    scan log={} ∨ (scan log).committedIndex<(scan log).latestIndex := by
  induction log using List.reverseRecOn with
  | nil => exact .inl rfl
  | append_singleton log entry ih =>
    cases he : entry.data with
    | configuration servers =>
      rw [scan_configuration log entry servers he]
      exact .inr (Nat.lt_succ_of_le (scan_latestIndex_le log))
    | other =>
      rw [scan_other log entry he]
      exact ih

/-- A shorter log has the same configurations, or one configuration less. -/
theorem scan_take (log : List LogEntry) (k : Nat) :
    ((scan log).latestIndex≤k → scan (log.take k)=scan log) ∧
      ((scan log).committedIndex≤k → k<(scan log).latestIndex →
        (scan (log.take k)).settle=(scan log).revert) := by
  induction log using List.reverseRecOn with
  | nil =>
    rw [List.take_nil]
    exact ⟨fun _ => rfl,fun _ _ => rfl⟩
  | append_singleton log entry ih =>
    by_cases whole : log.length<k
    · have bound := scan_latestIndex_le (log++[entry])
      rw [List.length_append,List.length_singleton] at bound
      rw [List.take_of_length_le (by simp; omega)]
      exact ⟨fun _ => rfl,fun _ late => by omega⟩
    · rw [List.take_append_of_le_length (by omega)]
      cases he : entry.data with
      | configuration servers =>
        rw [scan_configuration log entry servers he]
        refine ⟨fun late => absurd late (by dsimp only; omega),fun early _ => ?_⟩
        rw [ih.1 early]
        rfl
      | other =>
        rw [scan_other log entry he]
        exact ih

/-- The configurations beside a log are those in it, the latest one perhaps known to be
committed. -/
def Mirrors (c : Configurations) (log : List LogEntry) : Prop := c=scan log ∨ c=(scan log).settle

namespace Mirrors
variable {c : Configurations} {log : List LogEntry}

theorem latest (h : Mirrors c log) :
    c.latest=(scan log).latest ∧ c.latestIndex=(scan log).latestIndex := by
  rcases h with rfl|rfl <;> exact ⟨rfl,rfl⟩

theorem settle_eq (h : Mirrors c log) : c.settle=(scan log).settle := by
  rcases h with rfl|rfl <;> rfl

theorem settle (h : Mirrors c log) : Mirrors c.settle log := .inr h.settle_eq

/-- Where the latest configuration is the committed one, nothing else is recorded. -/
theorem settled (h : Mirrors c log) (same : c.committedIndex=c.latestIndex) : c=(scan log).settle := by
  rcases h with rfl|rfl
  · rcases scan_ordered log with empty|ordered
    · rw [empty]
      rfl
    · exact absurd same (Nat.ne_of_lt ordered)
  · rfl

theorem process (h : Mirrors c log) (entry : LogEntry) :
    Mirrors (c.processConfigurationLogEntry (log.length+1) entry) (log++[entry]) := by
  cases he : entry.data with
  | configuration servers =>
    refine .inl ?_
    rw [scan_configuration log entry servers he,←h.settle_eq,
      Configurations.processConfigurationLogEntry,he]
  | other =>
    rw [Mirrors,scan_other log entry he,Configurations.processConfigurationLogEntry,he]
    exact h

theorem store (h : Mirrors c log) (entries : List LogEntry) :
    Mirrors (c.processEntries log.length entries) (log++entries) := by
  induction entries generalizing c log with
  | nil =>
    rw [List.append_nil]
    exact h
  | cons entry entries ih =>
    have rest := ih (h.process entry)
    rw [List.length_append,List.append_assoc] at rest
    exact rest

theorem truncate (h : Mirrors c log) {k : Nat} (above : c.committedIndex≤k) :
    Mirrors (c.truncate k) (log.take k) := by
  have cut := scan_take log k
  rw [Configurations.truncate]
  split_ifs with late
  · rcases h with rfl|rfl
    · exact .inr (cut.2 above late).symm
    · exact absurd (Nat.lt_of_lt_of_le late above) (Nat.lt_irrefl _)
  · rw [h.latest.2] at late
    rw [Mirrors,cut.1 (by omega)]
    exact h

/-- A leader adds a configuration to a settled record. -/
theorem change (h : Mirrors c log) (settled : c.latestIndex=c.committedIndex) {entry : LogEntry}
    {servers : List Server} (he : entry.data=.configuration servers) :
    Mirrors {c with latest := servers,latestIndex := log.length+1} (log++[entry]) := by
  refine .inl ?_
  rw [scan_configuration log entry servers he,h.settled settled.symm]

/-- The committed configuration was the latest at every index between its own and the next. -/
theorem committed_at (h : Mirrors c log) {k : Nat} (above : c.committedIndex≤k)
    (settled : c.latestIndex≤k → c.committedIndex=c.latestIndex) :
    c.committed=(scan (log.take k)).latest ∧ c.committedIndex=(scan (log.take k)).latestIndex := by
  have cut := scan_take log k
  by_cases reached : c.latestIndex≤k
  · have same := h.settled (settled reached)
    rw [h.latest.2] at reached
    rw [cut.1 reached,same]
    exact ⟨rfl,rfl⟩
  · rcases h with rfl|rfl
    · have before := cut.2 above (Nat.lt_of_not_le reached)
      exact ⟨(congrArg Configurations.latest before).symm,
        (congrArg Configurations.latestIndex before).symm⟩
    · exact absurd above reached

end Mirrors

/-- Every configuration in the log is one accepted change away from the one before it. -/
def Chained (log : List LogEntry) : Prop :=
  ∀ before entry after servers,log=before++entry::after → entry.data=.configuration servers →
    Succeeds (scan before).latest servers

theorem chained_nil : Chained [] := by
  intro before entry after servers split
  exact absurd split.symm (by simp)

theorem Chained.snoc {log : List LogEntry} {e : LogEntry} (h : Chained log)
    (next : ∀ servers,e.data=.configuration servers → Succeeds (scan log).latest servers) :
    Chained (log++[e]) := by
  intro before entry after servers split he
  rcases List.eq_nil_or_concat after with rfl|⟨after,last,rfl⟩
  · obtain ⟨rfl,same⟩ := List.append_inj' split rfl
    cases same
    exact next servers he
  · rw [List.concat_eq_append,←List.cons_append,←List.append_assoc] at split
    obtain ⟨shorter,-⟩ := List.append_inj' split rfl
    exact h before entry after servers shorter he

theorem Chained.take {log : List LogEntry} (h : Chained log) (k : Nat) : Chained (log.take k) := by
  intro before entry after servers split he
  refine h before entry (after++log.drop k) servers ?_ he
  rw [←List.cons_append,←List.append_assoc,←split,List.take_append_drop]

theorem Chained.scan {log : List LogEntry} (h : Chained log) :
    scan log={} ∨ Succeeds (scan log).committed (StCache.scan log).latest := by
  induction log using List.reverseRecOn with
  | nil => exact .inl rfl
  | append_singleton log entry ih =>
    have shorter := h.take log.length
    rw [List.take_left] at shorter
    cases he : entry.data with
    | configuration servers =>
      rw [scan_configuration log entry servers he]
      exact .inr (h log entry [] servers rfl he)
    | other =>
      rw [scan_other log entry he]
      exact ih shorter

theorem Chained.ids {log : List LogEntry} (h : Chained log) :
    ((StCache.scan log).latest.map Server.id).Nodup := by
  rcases h.scan with empty|next
  · rw [empty]
    exact List.nodup_nil
  · exact next.wellFormed.ids

theorem Chained.committed_ids {log : List LogEntry} (h : Chained log) :
    ((StCache.scan log).committed.map Server.id).Nodup := by
  induction log using List.reverseRecOn with
  | nil => exact List.nodup_nil
  | append_singleton log entry ih =>
    have shorter := h.take log.length
    rw [List.take_left] at shorter
    cases he : entry.data with
    | configuration servers =>
      rw [scan_configuration log entry servers he]
      exact shorter.ids
    | other =>
      rw [scan_other log entry he]
      exact ih shorter

namespace Snapshot

/-- The snapshot has the configuration that was the latest at its index. -/
def Records (p : Snapshot) (log : List LogEntry) : Prop :=
  p.configurations=(scan (log.take p.index)).settle

theorem Records.congr {p : Snapshot} {log log' : List LogEntry} (h : p.Records log)
    (same : log'.take p.index=log.take p.index) : p.Records log' := by
  rw [Records,same]
  exact h

end Snapshot

theorem take_agree {log log' : List LogEntry} {i k : Nat} (same : log'.take k=log.take k)
    (hi : i≤k) : log'.take i=log.take i := by
  have shorter := congrArg (List.take i) same
  rw [List.take_take,List.take_take,Nat.min_eq_left hi] at shorter
  exact shorter

/-- The record of the configurations and the snapshots follow the log. -/
structure Tracked (log : List LogEntry) (c : Configurations) (commitIndex known : Nat)
    (snapshot : Snapshot) (pending : Option Snapshot) (compacted : Nat) : Prop where
  chained : Chained log
  mirrors : Mirrors c log
  committed : commitIndex ≤ known
  bounded : known ≤ log.length
  settled : c.latestIndex ≤ max commitIndex snapshot.index → c.committedIndex=c.latestIndex
  recorded : snapshot.Records log
  reached : snapshot.index ≤ known
  taken : ∀ p∈pending,p.Records log ∧ snapshot.index ≤ p.index ∧
    p.index ≤ max commitIndex snapshot.index
  stored : compacted ≤ snapshot.index

namespace Tracked
variable {log : List LogEntry} {c : Configurations} {commitIndex known : Nat} {snapshot : Snapshot}
  {pending : Option Snapshot} {compacted : Nat}

theorem applied (h : Tracked log c commitIndex known snapshot pending compacted) :
    max commitIndex snapshot.index ≤ known :=
  Nat.max_le.mpr ⟨h.committed,h.reached⟩

theorem checked (h : Tracked log c commitIndex known snapshot pending compacted)
    (some : c.latestIndex≠0) : checkConfiguration c.latest=.ok () := by
  rw [checkConfiguration_ok_iff,h.mirrors.latest.1]
  rcases h.chained.scan with empty|next
  · rw [h.mirrors.latest.2,empty] at some
    exact absurd rfl some
  · exact next.wellFormed

theorem voters (h : Tracked log c commitIndex known snapshot pending compacted) :
    ∃ id,(voters c.committed).erase id=(StCache.voters c.latest).erase id := by
  rcases h.mirrors with same|settled
  · rw [same]
    rcases h.chained.scan with empty|next
    · rw [empty]
      exact ⟨[],rfl⟩
    · exact next.voters
  · rw [settled]
    exact ⟨[],rfl⟩

theorem ids (h : Tracked log c commitIndex known snapshot pending compacted) :
    (c.committed.map Server.id).Nodup ∧ (c.latest.map Server.id).Nodup := by
  rw [h.mirrors.latest.1]
  refine ⟨?_,h.chained.ids⟩
  rcases h.mirrors with same|settled
  · rw [same]
    exact h.chained.committed_ids
  · rw [settled]
    exact h.chained.ids

/-- The quorums of the committed and of the latest configuration meet. -/
theorem meet (h : Tracked log c commitIndex known snapshot pending compacted) {S T : Finset GoString}
    (hS : Quorum c.committed S) (hT : Quorum c.latest T) : (S∩T).Nonempty := by
  obtain ⟨id,same⟩ := h.voters
  exact majorities_meet same (hS.majority h.ids.1) (hT.majority h.ids.2)

/-- The log changes after what is known to be committed. -/
theorem relog {log' : List LogEntry} {c' : Configurations}
    (h : Tracked log c commitIndex known snapshot pending compacted) (chained : Chained log')
    (mirrors : Mirrors c' log') (same : log'.take known=log.take known) (long : known ≤ log'.length)
    (settled : c'.latestIndex ≤ max commitIndex snapshot.index → c'.committedIndex=c'.latestIndex) :
    Tracked log' c' commitIndex known snapshot pending compacted := by
  refine ⟨chained,mirrors,h.committed,long,settled,?_,h.reached,?_,h.stored⟩
  · exact h.recorded.congr (take_agree same h.reached)
  · intro p hp
    obtain ⟨recorded,above,below⟩ := h.taken p hp
    exact ⟨recorded.congr (take_agree same (below.trans h.applied)),above,below⟩

theorem append {c' : Configurations} {entries : List LogEntry}
    (h : Tracked log c commitIndex known snapshot pending compacted)
    (chained : Chained (log++entries)) (mirrors : Mirrors c' (log++entries))
    (settled : c'=c ∨ log.length < c'.latestIndex) :
    Tracked (log++entries) c' commitIndex known snapshot pending compacted := by
  refine h.relog chained mirrors (List.take_append_of_le_length h.bounded) ?_ ?_
  · rw [List.length_append]
    exact h.bounded.trans (Nat.le_add_right _ _)
  · intro reached
    rcases settled with rfl|later
    · exact h.settled reached
    · exact absurd (reached.trans (h.applied.trans h.bounded)) (Nat.not_le_of_lt later)

theorem truncate {kept : Nat} (h : Tracked log c commitIndex known snapshot pending compacted)
    (above : c.committedIndex ≤ kept) (keeps : known ≤ kept) :
    Tracked (log.take kept) (c.truncate kept) commitIndex known snapshot pending compacted := by
  refine h.relog (h.chained.take kept) (h.mirrors.truncate above) ?_ ?_ ?_
  · rw [List.take_take,Nat.min_eq_left keeps]
  · rw [List.length_take]
    exact Nat.le_min.mpr ⟨keeps,h.bounded⟩
  · rw [Configurations.truncate]
    split_ifs
    · exact fun _ => rfl
    · exact h.settled

/-- The commit index grows. -/
theorem commit {c' : Configurations} {index : Nat}
    (h : Tracked log c commitIndex known snapshot pending compacted) (grows : commitIndex ≤ index)
    (short : index ≤ log.length) (mirrors : Mirrors c' log)
    (settled : c'.latestIndex ≤ max index snapshot.index → c'.committedIndex=c'.latestIndex) :
    Tracked log c' index (max known index) snapshot pending compacted := by
  refine ⟨h.chained,mirrors,Nat.le_max_right _ _,Nat.max_le.mpr ⟨h.bounded,short⟩,settled,
    h.recorded,h.reached.trans (Nat.le_max_left _ _),?_,h.stored⟩
  intro p hp
  obtain ⟨recorded,above,below⟩ := h.taken p hp
  exact ⟨recorded,above,below.trans (max_le_max_right snapshot.index grows)⟩

theorem take {index : Nat} (h : Tracked log c commitIndex known snapshot pending compacted)
    (above : snapshot.index ≤ index) (below : index ≤ max commitIndex snapshot.index)
    (committed : c.committedIndex ≤ index) :
    Tracked log c commitIndex known snapshot (some ⟨index,c.committed,c.committedIndex⟩)
      compacted := by
  refine ⟨h.chained,h.mirrors,h.committed,h.bounded,h.settled,h.recorded,h.reached,?_,h.stored⟩
  intro p hp
  cases Option.mem_some.mp hp
  refine ⟨?_,above,below⟩
  obtain ⟨servers,place⟩ :=
    h.mirrors.committed_at committed (fun reached => h.settled (reached.trans below))
  rw [Snapshot.Records,Snapshot.configurations,servers,place]
  rfl

theorem cancel (h : Tracked log c commitIndex known snapshot pending compacted) :
    Tracked log c commitIndex known snapshot none compacted := by
  refine ⟨h.chained,h.mirrors,h.committed,h.bounded,h.settled,h.recorded,h.reached,?_,h.stored⟩
  intro q hq
  cases hq

theorem close {p : Snapshot} (h : Tracked log c commitIndex known snapshot pending compacted)
    (hp : p∈pending) : Tracked log c commitIndex known p none compacted := by
  obtain ⟨recorded,above,below⟩ := h.taken p hp
  refine ⟨h.chained,h.mirrors,h.committed,h.bounded,?_,recorded,below.trans h.applied,?_,
    h.stored.trans above⟩
  · intro reached
    exact h.settled (reached.trans (Nat.max_le.mpr ⟨Nat.le_max_left _ _,below⟩))
  · intro q hq
    cases hq

theorem compact (h : Tracked log c commitIndex known snapshot pending compacted) (limit : Nat) :
    Tracked log c commitIndex known snapshot pending (max compacted (min snapshot.index limit)) :=
  ⟨h.chained,h.mirrors,h.committed,h.bounded,h.settled,h.recorded,h.reached,h.taken,
    Nat.max_le.mpr ⟨h.stored,Nat.min_le_left _ _⟩⟩

/-- After a restart the record is made from the snapshot and the log after it. -/
theorem restart (h : Tracked log c commitIndex known snapshot pending compacted) :
    Tracked log (snapshot.configurations.processEntries snapshot.index (log.drop snapshot.index)) 0
      known snapshot none compacted := by
  have length : (log.take snapshot.index).length=snapshot.index := by
    rw [List.length_take]
    exact Nat.min_eq_left (h.reached.trans h.bounded)
  have first : Mirrors snapshot.configurations (log.take snapshot.index) := .inr h.recorded
  have all := first.store (log.drop snapshot.index)
  rw [length,List.take_append_drop] at all
  refine ⟨h.chained,all,Nat.zero_le _,h.bounded,?_,h.recorded,h.reached,?_,h.stored⟩
  · intro reached
    rw [Nat.zero_max] at reached
    rcases snapshot.configurations.processEntries_latest snapshot.index (log.drop snapshot.index)
      with same|later
    · rw [same]
      rfl
    · exact absurd reached (Nat.not_le_of_lt later)
  · intro p hp
    cases hp

/-- A snapshot takes the place of the log. -/
theorem install {history : List LogEntry} {p : Snapshot}
    (h : Tracked log c commitIndex known snapshot none compacted) (chained : Chained history)
    (index : p.index=history.length) (records : p.configurations=(StCache.scan history).settle)
    (long : known ≤ history.length) :
    Tracked history p.configurations commitIndex (max known history.length) p none
      history.length := by
  refine ⟨chained,.inr records,h.committed.trans (Nat.le_max_left _ _),
    Nat.max_le.mpr ⟨long,Nat.le_refl _⟩,fun _ => rfl,?_,index.le.trans (Nat.le_max_right _ _),?_,
    index.ge⟩
  · rw [Snapshot.Records,index,List.take_length]
    exact records
  · intro q hq
    cases hq

end Tracked

end StCache
