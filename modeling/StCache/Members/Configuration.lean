import StCache.Framework.Majority
import StCache.Framework.Strconv

namespace StCache

inductive Suffrage where
  | voter
  | nonvoter
  | staging
  deriving DecidableEq

structure Server where
  suffrage : Suffrage
  id : GoString
  address : GoString
  deriving DecidableEq

inductive ChangeCommand where
  | addStaging
  | addNonvoter
  | demoteVoter
  | removeServer
  | promote
  deriving DecidableEq

structure ChangeRequest where
  command : ChangeCommand
  serverID : GoString
  serverAddress : GoString := []
  prevIndex : Nat := 0
  deriving DecidableEq

inductive ConfigError where
  | changed (prevIndex currentIndex : Nat)
  | emptyID
  | emptyAddress (server : Server)
  | duplicateID (id : GoString)
  | duplicateAddress (address : GoString)
  | noVoter
  deriving DecidableEq

/-- The loop of checkConfiguration. -/
def checkServers (idSet addressSet : List GoString) (voters : Nat) :
    List Server → Except ConfigError Unit
  | [] => if voters=0 then .error .noVoter else .ok ()
  | server::servers =>
    if server.id=[] then .error .emptyID
    else if server.address=[] then .error (.emptyAddress server)
    else if idSet.contains server.id=true then .error (.duplicateID server.id)
    else if addressSet.contains server.address=true then .error (.duplicateAddress server.address)
    else checkServers (server.id::idSet) (server.address::addressSet)
      (if server.suffrage=.voter then voters+1 else voters) servers

def checkConfiguration (servers : List Server) : Except ConfigError Unit := checkServers [] [] 0 servers

/-- Changes the first server that passes the test. -/
def updateFirst (p : Server → Bool) (f : Server → Server) : List Server → List Server
  | [] => []
  | server::servers => if p server then f server::servers else server::updateFirst p f servers

/-- The two additions differ in the suffrage they give, and in which servers they leave theirs. -/
def addServer (suffrage : Suffrage) (keeps : Server → Bool) (id address : GoString)
    (servers : List Server) : List Server :=
  if servers.any (fun s => s.id=id) then
    updateFirst (fun s => s.id=id)
      (fun s => if keeps s then {s with address := address} else ⟨suffrage,id,address⟩) servers
  else servers++[⟨suffrage,id,address⟩]

/-- The switch of nextConfiguration. -/
def ChangeRequest.change (req : ChangeRequest) (servers : List Server) : List Server :=
  match req.command with
  | .addStaging =>
    addServer .voter (fun s => s.suffrage=.voter) req.serverID req.serverAddress servers
  | .addNonvoter =>
    addServer .nonvoter (fun s => s.suffrage≠.nonvoter) req.serverID req.serverAddress servers
  | .demoteVoter =>
    updateFirst (fun s => s.id=req.serverID) (fun s => {s with suffrage := .nonvoter}) servers
  | .removeServer => servers.eraseP (fun s => s.id=req.serverID)
  | .promote =>
    updateFirst (fun s => decide (s.id=req.serverID) && decide (s.suffrage=.staging))
      (fun s => {s with suffrage := .voter}) servers

def nextConfiguration (current : List Server) (currentIndex : Nat) (req : ChangeRequest) :
    Except ConfigError (List Server) :=
  if 0 < req.prevIndex ∧ req.prevIndex≠currentIndex then .error (.changed req.prevIndex currentIndex)
  else
    match checkConfiguration (req.change current) with
    | .error e => .error e
    | .ok _ => .ok (req.change current)

/-- The servers whose vote counts. -/
def voters (servers : List Server) : Finset GoString :=
  ((servers.filter (fun s => s.suffrage=.voter)).map Server.id).toFinset

def quorumSize (servers : List Server) : Nat :=
  servers.countP (fun s => s.suffrage=.voter)/2+1

/-- What checkConfiguration checks. -/
structure WellFormed (servers : List Server) : Prop where
  filled : ∀ s∈servers,s.id≠[] ∧ s.address≠[]
  ids : (servers.map Server.id).Nodup
  addresses : (servers.map Server.address).Nodup
  voter : ∃ s∈servers,s.suffrage=.voter

theorem checkServers_ok_iff (servers : List Server) (idSet addressSet : List GoString) (n : Nat) :
    checkServers idSet addressSet n servers=.ok () ↔
      (∀ s∈servers,s.id≠[] ∧ s.address≠[] ∧ s.id∉idSet ∧ s.address∉addressSet) ∧
        (servers.map Server.id).Nodup ∧ (servers.map Server.address).Nodup ∧
        (n≠0 ∨ ∃ s∈servers,s.suffrage=.voter) := by
  induction servers generalizing idSet addressSet n with
  | nil =>
    simp only [checkServers]
    split_ifs with h <;> simp [h]
  | cons s servers ih =>
    rw [checkServers]
    by_cases h1 : s.id=[]
    · simp [h1]
    by_cases h2 : s.address=[]
    · simp [h1,h2]
    by_cases h3 : s.id∈idSet
    · simp [h1,h2,h3]
    by_cases h4 : s.address∈addressSet
    · simp [h1,h2,h3,h4]
    rw [if_neg h1,if_neg h2,if_neg (by simpa using h3),if_neg (by simpa using h4),ih,List.map_cons,List.map_cons,List.nodup_cons,
      List.nodup_cons]
    constructor
    · rintro ⟨each,ids,addresses,voter⟩
      refine ⟨List.forall_mem_cons.mpr ⟨⟨h1,h2,h3,h4⟩,?_⟩,⟨?_,ids⟩,⟨?_,addresses⟩,?_⟩
      · intro x hx
        obtain ⟨id,address,newID,newAddress⟩ := each x hx
        exact ⟨id,address,fun old => newID (List.mem_cons_of_mem _ old),
          fun old => newAddress (List.mem_cons_of_mem _ old)⟩
      · intro again
        obtain ⟨x,hx,same⟩ := List.mem_map.mp again
        exact (each x hx).2.2.1 (same ▸ List.mem_cons_self)
      · intro again
        obtain ⟨x,hx,same⟩ := List.mem_map.mp again
        exact (each x hx).2.2.2 (same ▸ List.mem_cons_self)
      · by_cases hv : s.suffrage=.voter
        · exact .inr ⟨s,List.mem_cons_self,hv⟩
        · rw [if_neg hv] at voter
          exact voter.imp id (fun ⟨x,hx,h⟩ => ⟨x,List.mem_cons_of_mem _ hx,h⟩)
    · rintro ⟨each,⟨newID,ids⟩,⟨newAddress,addresses⟩,voter⟩
      refine ⟨?_,ids,addresses,?_⟩
      · intro x hx
        obtain ⟨id,address,freeID,freeAddress⟩ := each x (List.mem_cons_of_mem _ hx)
        refine ⟨id,address,?_,?_⟩
        · rw [List.mem_cons]
          rintro (same|old)
          · exact newID (List.mem_map.mpr ⟨x,hx,same⟩)
          · exact freeID old
        · rw [List.mem_cons]
          rintro (same|old)
          · exact newAddress (List.mem_map.mpr ⟨x,hx,same⟩)
          · exact freeAddress old
      · by_cases hv : s.suffrage=.voter
        · rw [if_pos hv]
          exact .inl (Nat.succ_ne_zero n)
        · rw [if_neg hv]
          refine voter.imp id (fun ⟨x,hx,h⟩ => ⟨x,?_,h⟩)
          exact (List.mem_cons.mp hx).resolve_left (fun same => hv (same ▸ h))

theorem checkConfiguration_ok_iff (servers : List Server) :
    checkConfiguration servers=.ok () ↔ WellFormed servers := by
  rw [checkConfiguration,checkServers_ok_iff]
  constructor
  · rintro ⟨each,ids,addresses,voter⟩
    exact ⟨fun s hs => ⟨(each s hs).1,(each s hs).2.1⟩,ids,addresses,
      voter.resolve_left (fun none => none rfl)⟩
  · intro h
    exact ⟨fun s hs => ⟨(h.filled s hs).1,(h.filled s hs).2,List.not_mem_nil,List.not_mem_nil⟩,
      h.ids,h.addresses,.inr h.voter⟩

/-- A change is made exactly when its result is well-formed. -/
theorem nextConfiguration_ok_iff (current next : List Server) (currentIndex : Nat)
    (req : ChangeRequest) :
    nextConfiguration current currentIndex req=.ok next ↔
      (req.prevIndex=0 ∨ req.prevIndex=currentIndex) ∧ next=req.change current ∧ WellFormed next := by
  rw [nextConfiguration]
  split_ifs with stale
  · refine iff_of_false nofun ?_
    rintro ⟨fresh,-⟩
    omega
  · cases checked : checkConfiguration (req.change current) with
    | error e =>
      refine iff_of_false nofun ?_
      rintro ⟨-,rfl,formed⟩
      rw [(checkConfiguration_ok_iff _).mpr formed] at checked
      cases checked
    | ok u =>
      have formed := (checkConfiguration_ok_iff _).mp checked
      constructor
      · intro h
        cases h
        exact ⟨by omega,rfl,formed⟩
      · rintro ⟨-,rfl,-⟩
        rfl

/-- The servers with another ID. -/
def otherServers (id : GoString) (servers : List Server) : List Server :=
  servers.filter (fun s => s.id≠id)

theorem otherServers_cons (id : GoString) (s : Server) (servers : List Server) :
    otherServers id (s::servers)=if s.id=id then otherServers id servers else s::otherServers id servers := by
  by_cases h : s.id=id <;> simp [otherServers,h]

theorem otherServers_updateFirst {id : GoString} {p : Server → Bool} {f : Server → Server}
    (named : ∀ s,p s=true → s.id=id ∧ (f s).id=id) (servers : List Server) :
    otherServers id (updateFirst p f servers)=otherServers id servers := by
  induction servers with
  | nil => rfl
  | cons s servers ih =>
    rw [updateFirst]
    by_cases hp : p s=true
    · obtain ⟨old,new⟩ := named s hp
      rw [if_pos hp,otherServers_cons,otherServers_cons,if_pos new,if_pos old]
    · rw [if_neg hp,otherServers_cons,otherServers_cons,ih]

theorem otherServers_eraseP {id : GoString} {p : Server → Bool} (named : ∀ s,p s=true → s.id=id)
    (servers : List Server) : otherServers id (servers.eraseP p)=otherServers id servers := by
  induction servers with
  | nil => rfl
  | cons s servers ih =>
    by_cases hp : p s=true
    · rw [List.eraseP_cons_of_pos hp,otherServers_cons,if_pos (named s hp)]
    · rw [List.eraseP_cons_of_neg hp,otherServers_cons,otherServers_cons,ih]

theorem otherServers_addServer (suffrage : Suffrage) (keeps : Server → Bool) (id address : GoString)
    (servers : List Server) :
    otherServers id (addServer suffrage keeps id address servers)=otherServers id servers := by
  rw [addServer]
  split_ifs with found
  · refine otherServers_updateFirst ?_ servers
    intro s hs
    have same : s.id=id := by simpa using hs
    refine ⟨same,?_⟩
    by_cases hk : keeps s=true
    · rw [if_pos hk]
      exact same
    · rw [if_neg hk]
  · simp [otherServers,List.filter_append]

/-- A change concerns the server it names only. -/
theorem otherServers_change (req : ChangeRequest) (servers : List Server) :
    otherServers req.serverID (req.change servers)=otherServers req.serverID servers := by
  rw [ChangeRequest.change]
  cases req.command with
  | addStaging => exact otherServers_addServer _ _ _ _ _
  | addNonvoter => exact otherServers_addServer _ _ _ _ _
  | demoteVoter =>
    refine otherServers_updateFirst ?_ servers
    intro s hs
    have same : s.id=req.serverID := by simpa using hs
    exact ⟨same,same⟩
  | removeServer => exact otherServers_eraseP (fun s hs => by simpa using hs) servers
  | promote =>
    refine otherServers_updateFirst ?_ servers
    intro s hs
    have same : s.id=req.serverID ∧ s.suffrage=.staging := by simpa using hs
    exact ⟨same.1,same.1⟩

theorem voters_erase (id : GoString) (servers : List Server) :
    (voters servers).erase id=voters (otherServers id servers) := by
  ext x
  simp only [voters,otherServers,Finset.mem_erase,List.mem_toFinset,List.mem_map,List.mem_filter,
    decide_eq_true_eq]
  constructor
  · rintro ⟨other,s,⟨hs,hv⟩,rfl⟩
    exact ⟨s,⟨⟨hs,other⟩,hv⟩,rfl⟩
  · rintro ⟨s,⟨⟨hs,other⟩,hv⟩,rfl⟩
    exact ⟨other,s,⟨hs,hv⟩,rfl⟩

theorem quorumSize_eq {servers : List Server} (ids : (servers.map Server.id).Nodup) :
    quorumSize servers=(voters servers).card/2+1 := by
  have distinct : ((servers.filter (fun s => s.suffrage=.voter)).map Server.id).Nodup :=
    ids.sublist (List.filter_sublist.map Server.id)
  rw [quorumSize,voters,List.toFinset_card_of_nodup distinct,List.length_map,
    List.countP_eq_length_filter]

/-- What one accepted change leads from and to. -/
def Succeeds (current next : List Server) : Prop :=
  ∃ currentIndex req,nextConfiguration current currentIndex req=.ok next

theorem Succeeds.wellFormed {current next : List Server} (h : Succeeds current next) :
    WellFormed next := by
  obtain ⟨i,req,h⟩ := h
  exact ((nextConfiguration_ok_iff current next i req).mp h).2.2

theorem Succeeds.voters {current next : List Server} (h : Succeeds current next) :
    ∃ id,(voters current).erase id=(StCache.voters next).erase id := by
  obtain ⟨i,req,h⟩ := h
  obtain ⟨-,rfl,-⟩ := (nextConfiguration_ok_iff current next i req).mp h
  exact ⟨req.serverID,by rw [voters_erase,voters_erase,otherServers_change]⟩

/-- A quorum as quorumSize counts it. -/
def Quorum (servers : List Server) (S : Finset GoString) : Prop :=
  S⊆voters servers ∧ quorumSize servers≤S.card

instance (servers : List Server) (S : Finset GoString) : Decidable (Quorum servers S) :=
  inferInstanceAs (Decidable (_ ∧ _))

theorem Quorum.majority {servers : List Server} {S : Finset GoString} (h : Quorum servers S)
    (ids : (servers.map Server.id).Nodup) : Majority (voters servers) S := by
  refine ⟨h.1,?_⟩
  rw [←quorumSize_eq ids]
  exact h.2

end StCache
