import MinRender.Framework.Runs
import MinRender.Monitor.PeerManager

/-!
# Who says where a peer is

The peer map next to the endpoint files its node has read so far, over every
order of discovery passes, UDP messages, status answers with any body and farm
restarts. Three inputs write an entry; only one of them is allowed to say who
the peer is and where it listens.
-/

namespace MinRender.PeerAuthority
open PeerManager Table

/-- The peer map, and every endpoint read so far with the directory under
`nodes` its file was in. -/
structure World where
  pm : PeerManager := {}
  read : List (String × String) := []

/-- A directory entry of `nodes` with the text of its endpoint file, parsed;
`none` where there is none or it does not parse. -/
abbrev EndpointFile := String × Option Json

inductive Event
  | start (nodeId : String) (localTags : List String)
  | discover (files : List EndpointFile)
  | heartbeat (hb : Heartbeat) (nowMs : Int)
  | goodbye (id : String)
  | nodeState (id state : String)
  | silence (nowMs : Int)
  /-- `/api/status` of a polled peer; `none` where there is no answer, or one
  that does not parse. -/
  | answered (id : String) (body : Option Json) (nowMs : Int)
  | forget (hasEndpoint : String → Bool)
  | recomputeLeader

/-- What an endpoint file says. -/
def endpoint? (file : EndpointFile) : Option PeerEndpoint :=
  file.2.bind fun j => (PeerEndpoint.fromJson j).toOption

/-- The status a body carries. -/
def status? (body : Option Json) : Option PeerInfo :=
  body.bind fun j => (PeerInfo.fromJson j).toOption

/-- The address an endpoint file gives. -/
def address (ep : PeerEndpoint) : String := ep.ip ++ ":" ++ toString ep.port

/-- What a discovery pass reads: the file of every directory but the node's
own. -/
def addresses (nodeId : String) (files : List EndpointFile) : List (String × String) :=
  files.filterMap fun file =>
    if file.1 = nodeId then none
    else (endpoint? file).map fun ep => (file.1, address ep)

def step (w : World) : Event → World
  | .start nodeId localTags => { w with pm := w.pm.start nodeId localTags }
  | .discover files =>
      { pm := w.pm.discoverPeers (files.map fun file => (file.1, endpoint? file))
        read := w.read ++ addresses w.pm.nodeId files }
  | .heartbeat hb nowMs => { w with pm := w.pm.processUdpHeartbeat hb nowMs }
  | .goodbye id => { w with pm := w.pm.processUdpGoodbye id }
  | .nodeState id state => { w with pm := w.pm.setPeerNodeState id state }
  | .silence nowMs => { w with pm := w.pm.clearUdpContact nowMs }
  | .answered id body nowMs => { w with pm := w.pm.pollPeer id (status? body) nowMs }
  | .forget hasEndpoint => { w with pm := w.pm.removeStalePeers hasEndpoint }
  | .recomputeLeader => { w with pm := w.pm.recomputeLeader }

def machine : Machine World Event := ⟨fun w e => some (step w e)⟩

def start : World := {}

/-! ## The authority of `endpoint.json` -/

/-- The entry is the peer of its key, at an address read from that peer's
endpoint file. -/
def Vouched (read : List (String × String)) (entry : String × PeerInfo) : Prop :=
  entry.2.nodeId = entry.1 ∧ (entry.1, entry.2.endpoint) ∈ read

def Authoritative (w : World) : Prop := ∀ entry ∈ w.pm.peers, Vouched w.read entry

/-- A status answered for a peer of the map names that peer, and an address
read from its endpoint file. -/
def AnswersForItself (w : World) (e : Event) (_ : World) : Prop :=
  ∀ id body nowMs, e = .answered id body nowMs → id ∈ w.pm.peers.map (·.1) →
    ∀ status, status? body = some status →
      status.nodeId = id ∧ (id, status.endpoint) ∈ w.read

/-! ## What each writer leaves of an entry -/

variable {pm : PeerManager} {read : List (String × String)} {w : World}

/-- A change of an entry that leaves its identity and its address alone. -/
def KeepsAddress (f : PeerInfo → PeerInfo) : Prop :=
  ∀ info, (f info).nodeId = info.nodeId ∧ (f info).endpoint = info.endpoint

theorem Vouched.keep {f : PeerInfo → PeerInfo} (hf : KeepsAddress f)
    {key : String} {info : PeerInfo} (h : Vouched read (key, info)) :
    Vouched read (key, f info) := by
  obtain ⟨hid, hread⟩ := h
  obtain ⟨hid', hend'⟩ := hf info
  exact ⟨hid'.trans hid, hend' ▸ hread⟩

theorem vouched_modifyPeer {id : String} {f : PeerInfo → PeerInfo}
    (hf : KeepsAddress f) (h : ∀ entry ∈ pm.peers, Vouched read entry) :
    ∀ entry ∈ (pm.modifyPeer id f).peers, Vouched read entry := by
  intro entry hentry
  obtain ⟨old, hold, rfl | rfl⟩ := mem_modifyPeer hentry
  · exact h _ hold
  · exact (h _ hold).keep hf

/-- The entries under a key are changed. -/
theorem mem_modifyPeer_of_mem {id : String} {f : PeerInfo → PeerInfo} {info : PeerInfo}
    (h : (id, info) ∈ pm.peers) : (id, f info) ∈ (pm.modifyPeer id f).peers :=
  mem_update.mpr ⟨(id, info), h, by simp⟩

theorem vouched_discoverPeer {dir : String} {file : Option PeerEndpoint}
    (hread : dir ≠ pm.nodeId → ∀ ep, file = some ep → (dir, address ep) ∈ read)
    (h : ∀ entry ∈ pm.peers, Vouched read entry) :
    ∀ entry ∈ (pm.discoverPeer dir file).peers, Vouched read entry := by
  unfold discoverPeer
  cases file with
  | none => exact h
  | some ep =>
      simp only []
      split
      · exact h
      rename_i hown
      have haddress := hread (fun hself => hown (.inl hself)) ep rfl
      have hname : ep.nodeId = dir := by
        by_contra hne
        exact hown (.inr hne)
      split
      · -- a known peer: its identity stays, its address is the file's
        intro entry hentry
        obtain ⟨old, hold, hcases⟩ := mem_update.mp hentry
        split at hcases
        · rename_i hkey
          rw [← hcases]
          have hdir : old.1 = dir := of_decide_eq_true hkey
          exact ⟨(h old hold).1, hdir ▸ haddress⟩
        · exact hcases ▸ h old hold
      · intro entry hentry
        rcases (List.mem_orderedInsert _).mp hentry with rfl | hold
        · exact ⟨hname, haddress⟩
        · exact h entry hold

theorem vouched_discoverPeers {files : List (String × Option PeerEndpoint)}
    (hread : ∀ file ∈ files, file.1 ≠ pm.nodeId → ∀ ep, file.2 = some ep →
      (file.1, address ep) ∈ read)
    (h : ∀ entry ∈ pm.peers, Vouched read entry) :
    ∀ entry ∈ (pm.discoverPeers files).peers, Vouched read entry := by
  unfold discoverPeers
  induction files generalizing pm with
  | nil => exact h
  | cons file files ih =>
      have hself : (pm.discoverPeer file.1 file.2).nodeId = pm.nodeId :=
        (@discoverPeers_self pm [file]).1
      refine ih (fun f hf hne => hread f (List.mem_cons_of_mem _ hf) (hself ▸ hne)) ?_
      exact vouched_discoverPeer (hread file List.mem_cons_self) h

/-- The verdict on a polled peer is no change of its address. -/
theorem keepsAddress_deadVerdict (nowMs : Int) :
    KeepsAddress fun info => deadVerdict info nowMs := by
  intro info
  show (deadVerdict info nowMs).nodeId = _ ∧ (deadVerdict info nowMs).endpoint = _
  unfold deadVerdict
  simp only []
  split
  · exact ⟨rfl, rfl⟩
  · exact ⟨rfl, rfl⟩

/-- A merged status brings its own identity and address. -/
theorem polledInfo_status {info status : PeerInfo} {nowMs : Int} :
    (deadVerdict (polledInfo info (some status) nowMs) nowMs).nodeId = status.nodeId ∧
      (deadVerdict (polledInfo info (some status) nowMs) nowMs).endpoint =
        status.endpoint :=
  keepsAddress_deadVerdict nowMs (polledInfo info (some status) nowMs)

/-! ## Every step -/

/-- Only an answer has to be for itself. -/
theorem answersForItself_of_ne {e : Event} {w' : World}
    (hne : ∀ id body nowMs, e ≠ .answered id body nowMs) : AnswersForItself w e w' :=
  fun id body nowMs he => absurd he (hne id body nowMs)

/-- A discovery pass vouches for the addresses it reads. -/
theorem authoritative_discover {files : List EndpointFile}
    (h : Authoritative w) : Authoritative (step w (.discover files)) := by
  refine vouched_discoverPeers ?_ ?_
  · intro file hfile hne ep hep
    obtain ⟨f, hf, rfl⟩ := List.mem_map.mp hfile
    refine List.mem_append_right _ (List.mem_filterMap.mpr ⟨f, hf, ?_⟩)
    have hsaid : endpoint? f = some ep := hep
    rw [if_neg hne, hsaid]
    rfl
  · intro entry hentry
    exact ⟨(h entry hentry).1, List.mem_append_left _ (h entry hentry).2⟩

/-- A merged status is vouched for exactly when it answers for its own peer. -/
theorem authoritative_answered_iff {id : String} {body : Option Json} {nowMs : Int}
    (h : Authoritative w) :
    AnswersForItself w (.answered id body nowMs) (step w (.answered id body nowMs)) ↔
      Authoritative (step w (.answered id body nowMs)) := by
  cases hbody : status? body with
  | none =>
      refine iff_of_true (fun id' body' nowMs' he _ status hstatus => ?_) ?_
      · cases he
        rw [hbody] at hstatus
        cases hstatus
      · show ∀ entry ∈ (w.pm.pollPeer id (status? body) nowMs).peers, _
        rw [hbody]
        refine vouched_modifyPeer (fun info => ?_) h
        exact keepsAddress_deadVerdict nowMs (polledInfo info none nowMs)
  | some status =>
      constructor
      · intro hcond entry hentry
        obtain ⟨old, hold, hcases⟩ := mem_update.mp hentry
        rw [← hcases]
        split
        · rename_i hkey
          have hkey : old.1 = id := of_decide_eq_true hkey
          obtain ⟨hid, hend⟩ := hcond id body nowMs rfl
            (List.mem_map.mpr ⟨old, hold, hkey⟩) status hbody
          rw [hbody]
          refine ⟨?_, ?_⟩
          · rw [hkey]
            exact polledInfo_status.1.trans hid
          · show (old.1, (deadVerdict _ nowMs).endpoint) ∈ w.read
            rw [hkey, polledInfo_status.2]
            exact hend
        · exact h old hold
      · intro hauth id' body' nowMs' he hmem status' hstatus
        cases he
        obtain ⟨⟨key, info⟩, hinfo, hkey⟩ := List.mem_map.mp hmem
        have hkey : key = id := hkey
        subst hkey
        rw [hbody] at hstatus
        cases hstatus
        have hpolled := hauth _ (mem_modifyPeer_of_mem hinfo)
        rw [hbody] at hpolled
        exact ⟨polledInfo_status.1.symm.trans hpolled.1,
          polledInfo_status.2 ▸ hpolled.2⟩

/-- **A step keeps the map authoritative exactly when a status it merges
answers for its own peer.** -/
theorem authoritative_step_iff {e : Event} (h : Authoritative w) :
    AnswersForItself w e (step w e) ↔ Authoritative (step w e) := by
  cases e with
  | answered id body nowMs => exact authoritative_answered_iff h
  | start nodeId localTags => exact iff_of_true (answersForItself_of_ne (by simp)) h
  | discover files =>
      exact iff_of_true (answersForItself_of_ne (by simp)) (authoritative_discover h)
  | heartbeat | goodbye | nodeState =>
      exact iff_of_true (answersForItself_of_ne (by simp))
        (vouched_modifyPeer (fun _ => ⟨rfl, rfl⟩) h)
  | silence nowMs =>
      refine iff_of_true (answersForItself_of_ne (by simp)) fun entry hentry => ?_
      obtain ⟨old, hold, hcases⟩ := mem_update.mp hentry
      rw [← hcases]
      split
      · exact (h old hold).keep (f := fun info => { info with hasUdpContact := false })
          fun _ => ⟨rfl, rfl⟩
      · exact h old hold
  | forget hasEndpoint =>
      exact iff_of_true (answersForItself_of_ne (by simp)) fun entry hentry =>
        h entry (List.mem_filter.mp hentry).1
  | recomputeLeader =>
      refine iff_of_true (answersForItself_of_ne (by simp)) fun entry hentry => ?_
      obtain ⟨old, hold, rfl⟩ := List.mem_map.mp hentry
      exact h old hold

theorem authoritative_start : Authoritative start := fun entry hentry => by
  cases hentry

/-- **The endpoint files are the only authority exactly in the runs where every
status merged answers for its own peer.** Over every order of discovery passes,
heartbeats, goodbyes, status answers with any body, forgotten peers, elections
and restarts: in every state each entry is the peer of its key at an address
read from its endpoint file, if and only if each status merged for a peer of
the map names that peer and such an address. -/
theorem authority_iff_answers (es : List Event) :
    machine.Along AnswersForItself start es ↔
      machine.Along (fun _ _ w => Authoritative w) start es := by
  have hstep : ∀ w e w', Authoritative w → machine.step w e = some w' →
      (AnswersForItself w e w' ↔ Authoritative w') := by
    intro w e w' h hs
    cases hs
    exact authoritative_step_iff h
  constructor
  · refine Machine.Along.mono (fun w e w' h hs hcond => ?_) authoritative_start
    have hauth := (hstep w e w' h hs).mp hcond
    exact ⟨hauth, hauth⟩
  · refine Machine.Along.mono (fun w e w' h hs hauth => ?_) authoritative_start
    exact ⟨(hstep w e w' h hs).mpr hauth, hauth⟩

/-! ## A peer that answers for another address -/

/-- `w1` is discovered at its own address and answers a poll with another. -/
def redirected : List Event :=
  [.discover [("w1", some (.obj [("node_id", .str "w1"), ("ip", .str "10.0.0.5")]))],
    .answered "w1" (some (.obj [("node_id", .str "w1"), ("endpoint", .str "10.0.0.66:80")]))
      1000]

/-- **An answer redirects the peer**: it replaces the whole entry, its address
included. -/
theorem answer_redirects_peer :
    ¬ ∀ es, machine.Along (fun _ _ w => Authoritative w) start es := by
  intro h
  refine Machine.Along.refute redirected.dropLast
    (redirected.getLast (by decide))
    (fun _ u => u.pm.peers.any fun entry => (entry.1, entry.2.endpoint) ∉ u.read) ?_ ?_
    (h redirected)
  · intro t u hbad hgood
    obtain ⟨entry, hentry, hout⟩ := List.any_eq_true.mp hbad
    exact of_decide_eq_true hout (hgood entry hentry).2
  · decide

end MinRender.PeerAuthority
