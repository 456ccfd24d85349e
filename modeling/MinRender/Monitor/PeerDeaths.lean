import MinRender.Monitor.PeerAuthority

/-!
# The evidence for a death

The peer map next to everything that happened to it, over every order of
discovery passes, heartbeats, goodbyes, status answers with any body and any
clock readings. A peer dies of its own goodbye or of silence, and what counts as
silence is what its entry remembers.
-/

namespace MinRender.PeerDeaths
open PeerManager PeerAuthority Table

/-- The peer map, and every event so far with the map it met, newest first. -/
structure World where
  now : PeerAuthority.World := {}
  log : List (PeerManager × Event) := []

def step (w : World) (e : Event) : World where
  now := PeerAuthority.step w.now e
  log := (w.now.pm, e) :: w.log

def machine : Machine World Event := ⟨fun w e => some (step w e)⟩

def start : World := {}

/-! ## Histories -/

/-- The map has an entry for the peer. -/
def knows (pm : PeerManager) (id : String) : Bool := pm.peers.any (·.1 = id)

/-- A heartbeat of the peer, or a poll it answers with a status. -/
def heardFrom (id : String) : Event → Bool
  | .heartbeat hb _ => hb.nodeId = id
  | .answered id' body _ => id' = id && (status? body).isSome
  | _ => false

/-- A poll of the peer that it does not answer with a status. -/
def failedPoll (id : String) : Event → Bool
  | .answered id' body _ => id' = id && (status? body).isNone
  | _ => false

/-- The polls of the peer that failed since it was last heard from. -/
def failuresSince (id : String) (log : List (PeerManager × Event)) : Nat :=
  (log.takeWhile fun s => !heardFrom id s.2).countP fun s => knows s.1 id && failedPoll id s.2

/-- The clock reading of a heartbeat of the peer. -/
def contact? (id : String) : Event → Option Int
  | .heartbeat hb nowMs => if hb.nodeId = id then some nowMs else none
  | _ => none

/-- The clock reading of the last heartbeat recorded for the peer since it was
last discovered. -/
def lastContact (id : String) : List (PeerManager × Event) → Option Int
  | [] => none
  | (pm, e) :: log =>
      if knows pm id then (contact? id e).or (lastContact id log) else none

/-- The readings of all heartbeats recorded for the peer. -/
def contacts (id : String) (log : List (PeerManager × Event)) : List Int :=
  log.filterMap fun s => if knows s.1 id then contact? id s.2 else none

/-- The peer is alive in one map and dead in the other. -/
def Dies (id : String) (pm pm' : PeerManager) : Prop :=
  (∃ info, (id, info) ∈ pm.peers ∧ info.isAlive = true) ∧
    ∃ info, (id, info) ∈ pm'.peers ∧ info.isAlive = false

/-- A peer dies of its goodbye, or at a failed poll on this evidence. -/
def DiesOf (evidence : String → Int → List (PeerManager × Event) → Prop)
    (w : World) (e : Event) (w' : World) : Prop :=
  ∀ id, Dies id w.now.pm w'.now.pm → e = .goodbye id ∨
    ∃ body nowMs, e = .answered id body nowMs ∧ status? body = none ∧ evidence id nowMs w'.log

/-- Three failed polls, and no heartbeat ever recorded in the ten seconds
before. -/
structure TenSecondsSilent (id : String) (nowMs : Int) (log : List (PeerManager × Event)) :
    Prop where
  failures : 3 ≤ failuresSince id log
  silence : ∀ t ∈ contacts id log, ¬ (t ≤ nowMs ∧ nowMs - t < 10000)

/-- Three failed polls, and the last heartbeat that the entry has a positive
reading of is ten seconds old. -/
structure EntrySilent (id : String) (nowMs : Int) (log : List (PeerManager × Event)) : Prop where
  failures : 3 ≤ failuresSince id log
  silence : ∀ t, lastContact id log = some t → 0 < t → 10000 ≤ nowMs - t

/-! ## The vitals of a peer -/

/-- What an entry says about the life of its peer. -/
structure Vitals where
  alive : Bool := true
  failures : Int := 0
  contactMs : Int := 0
deriving DecidableEq, Repr

def vitals (info : PeerInfo) : Vitals :=
  ⟨info.isAlive, info.failedPolls, info.lastUdpContactMs⟩

namespace Vitals

/-- The verdict on a peer that fails one more poll. -/
def Condemned (v : Vitals) (nowMs : Int) : Prop :=
  3 ≤ v.failures + 1 ∧ v.alive = true ∧ ¬ (0 < v.contactMs ∧ nowMs - v.contactMs < 10000)

instance (v : Vitals) (nowMs : Int) : Decidable (v.Condemned nowMs) :=
  inferInstanceAs (Decidable (_ ∧ _ ∧ ¬ _))

def missed (v : Vitals) (nowMs : Int) : Vitals :=
  if v.Condemned nowMs then { v with alive := false, failures := v.failures + 1 }
  else { v with failures := v.failures + 1 }

/-- The vitals of a peer after an event. -/
def after (id : String) (v : Vitals) : Event → Vitals
  | .heartbeat hb nowMs => if hb.nodeId = id then ⟨true, 0, nowMs⟩ else v
  | .goodbye id' => if id' = id then { v with alive := false } else v
  | .answered id' body nowMs =>
      if id' = id then
        if (status? body).isSome then { v with alive := true, failures := 0 } else v.missed nowMs
      else v
  | _ => v

end Vitals

variable {pm : PeerManager} {w : World} {e : Event} {id : String}

theorem knows_of_mem {entry : String × PeerInfo} (h : entry ∈ pm.peers) :
    knows pm entry.1 = true :=
  List.any_eq_true.mpr ⟨entry, h, decide_eq_true rfl⟩

theorem knows_iff : knows pm id = true ↔ id ∈ pm.peers.map (·.1) := by
  unfold knows
  rw [List.any_eq_true, List.mem_map]
  exact exists_congr fun entry => and_congr_right fun _ => decide_eq_true_iff

/-- No change of an entry changes the keys. -/
theorem keys_modifyPeer (f : PeerInfo → PeerInfo) :
    (pm.modifyPeer id f).peers.map (·.1) = pm.peers.map (·.1) :=
  map_update (f := fun entry : String × PeerInfo => (entry.1, f entry.2)) (·.1) (fun _ => rfl)
    pm.peers

theorem vitals_missed (info : PeerInfo) (nowMs : Int) :
    vitals (deadVerdict (polledInfo info none nowMs) nowMs) = (vitals info).missed nowMs := by
  have hsame : (3 ≤ (polledInfo info none nowMs).failedPolls ∧
      (polledInfo info none nowMs).isAlive = true ∧
        ¬ (0 < (polledInfo info none nowMs).lastUdpContactMs ∧
          nowMs - (polledInfo info none nowMs).lastUdpContactMs < 10000)) =
      (vitals info).Condemned nowMs := rfl
  unfold deadVerdict Vitals.missed
  dsimp only
  by_cases hdead : (vitals info).Condemned nowMs
  · rw [if_pos hdead, if_pos (hsame ▸ hdead)]
    rfl
  · rw [if_neg hdead, if_neg (hsame ▸ hdead)]
    rfl

theorem vitals_answered (info status : PeerInfo) (nowMs : Int) :
    vitals (deadVerdict (polledInfo info (some status) nowMs) nowMs) =
      { vitals info with alive := true, failures := 0 } := by
  unfold deadVerdict
  dsimp only
  split
  · rename_i hdead
    exact absurd hdead.1 (show ¬ (3 : Int) ≤ 0 by decide)
  · rfl

/-! ## Where entries come from -/

/-- An entry after an event: a new one, or an old one and what the event makes
of its vitals. -/
def From (pm : PeerManager) (next : String → Vitals → Vitals) (entry : String × PeerInfo) : Prop :=
  (knows pm entry.1 = false ∧ vitals entry.2 = {}) ∨
    ∃ info, (entry.1, info) ∈ pm.peers ∧ vitals entry.2 = next entry.1 (vitals info)

theorem from_update {p : String × PeerInfo → Bool} {f : PeerInfo → PeerInfo}
    {next : String → Vitals → Vitals} {entry : String × PeerInfo}
    (h : entry ∈ update p (fun old => (old.1, f old.2)) pm.peers)
    (hhit : ∀ old ∈ pm.peers, p old = true → vitals (f old.2) = next old.1 (vitals old.2))
    (hmiss : ∀ old ∈ pm.peers, p old = false → vitals old.2 = next old.1 (vitals old.2)) :
    From pm next entry := by
  obtain ⟨old, hold, hcases⟩ := mem_update.mp h
  rw [← hcases]
  cases hp : p old with
  | true => exact .inr ⟨old.2, hold, hhit old hold hp⟩
  | false => exact .inr ⟨old.2, hold, hmiss old hold hp⟩

theorem from_modifyPeer {f : PeerInfo → PeerInfo} {next : String → Vitals → Vitals}
    {entry : String × PeerInfo} (h : entry ∈ (pm.modifyPeer id f).peers)
    (hhit : ∀ info, vitals (f info) = next id (vitals info))
    (hmiss : ∀ id' v, id ≠ id' → v = next id' v) : From pm next entry := by
  refine from_update h (fun old _ hkey => ?_) fun old _ hkey => ?_
  · rw [of_decide_eq_true hkey]
    exact hhit old.2
  · exact hmiss old.1 _ (Ne.symm (of_decide_eq_false hkey))

theorem from_discoverPeer {dir : String} {file : Option PeerEndpoint}
    {entry : String × PeerInfo} (h : entry ∈ (pm.discoverPeer dir file).peers) :
    From pm (fun _ v => v) entry := by
  have hsame : ∀ entry ∈ pm.peers, From pm (fun _ v => v) entry :=
    fun old hold => .inr ⟨old.2, hold, rfl⟩
  unfold discoverPeer at h
  cases file with
  | none => exact hsame entry h
  | some ep =>
      dsimp only at h
      split at h
      · exact hsame entry h
      split at h
      · exact from_modifyPeer h (fun _ => rfl) fun _ _ _ => rfl
      · rename_i hnew
        rcases (List.mem_orderedInsert _).mp h with rfl | hold
        · exact .inl ⟨Bool.eq_false_iff.mpr hnew, rfl⟩
        · exact hsame entry hold

/-- No pass forgets a peer. -/
theorem knows_discoverPeer {dir : String} {file : Option PeerEndpoint}
    (h : knows pm id = true) : knows (pm.discoverPeer dir file) id = true := by
  unfold discoverPeer
  cases file with
  | none => exact h
  | some ep =>
      dsimp only
      split
      · exact h
      split
      · rw [knows_iff] at h ⊢
        rwa [keys_modifyPeer]
      · obtain ⟨entry, hentry, hid⟩ := List.any_eq_true.mp h
        exact List.any_eq_true.mpr ⟨entry, (List.mem_orderedInsert _).mpr (.inr hentry), hid⟩

theorem from_discoverPeers {files : List (String × Option PeerEndpoint)}
    {entry : String × PeerInfo} (h : entry ∈ (pm.discoverPeers files).peers) :
    From pm (fun _ v => v) entry := by
  unfold discoverPeers at h
  induction files generalizing pm with
  | nil => exact .inr ⟨entry.2, h, rfl⟩
  | cons file files ih =>
      rcases ih h with ⟨hunknown, hfresh⟩ | ⟨info, hinfo, hvitals⟩
      · refine .inl ⟨Bool.eq_false_iff.mpr fun hknown => ?_, hfresh⟩
        rw [knows_discoverPeer hknown] at hunknown
        cases hunknown
      · rcases from_discoverPeer hinfo with ⟨hunknown, hfresh⟩ | ⟨old, hold, hsame⟩
        · exact .inl ⟨hunknown, hvitals.trans hfresh⟩
        · exact .inr ⟨old, hold, hvitals.trans hsame⟩

/-- **What every event makes of the entries.** -/
theorem from_step {w : PeerAuthority.World} {entry : String × PeerInfo}
    (h : entry ∈ (PeerAuthority.step w e).pm.peers) :
    From w.pm (fun id v => v.after id e) entry := by
  cases e with
  | start nodeId localTags => exact .inr ⟨entry.2, h, rfl⟩
  | discover files => exact from_discoverPeers h
  | heartbeat hb nowMs =>
      exact from_modifyPeer h (fun _ => (if_pos rfl).symm) fun _ _ hne => (if_neg hne).symm
  | goodbye id =>
      exact from_modifyPeer h (fun _ => (if_pos rfl).symm) fun _ _ hne => (if_neg hne).symm
  | nodeState id state => exact from_modifyPeer h (fun _ => rfl) fun _ _ _ => rfl
  | silence nowMs =>
      exact from_update (f := fun info => { info with hasUdpContact := false }) h
        (fun _ _ _ => rfl) fun _ _ _ => rfl
  | answered id body nowMs =>
      refine from_modifyPeer h (fun info => ?_) fun _ _ hne => (if_neg hne).symm
      refine Eq.trans ?_ (if_pos rfl).symm
      cases status? body with
      | none => exact vitals_missed info nowMs
      | some status => exact vitals_answered info status nowMs
  | forget hasEndpoint => exact .inr ⟨entry.2, (List.mem_filter.mp h).1, rfl⟩
  | recomputeLeader =>
      obtain ⟨old, hold, rfl⟩ := List.mem_map.mp h
      exact .inr ⟨old.2, hold, rfl⟩

theorem keys_discoverPeer {dir : String} {file : Option PeerEndpoint}
    (h : (pm.peers.map (·.1)).Nodup) : ((pm.discoverPeer dir file).peers.map (·.1)).Nodup := by
  unfold discoverPeer
  cases file with
  | none => exact h
  | some ep =>
      dsimp only
      split
      · exact h
      split
      · rwa [keys_modifyPeer]
      · rename_i hnew
        have hunknown : dir ∉ pm.peers.map (·.1) := fun hmem => hnew (knows_iff.mpr hmem)
        have hperm : ∀ entry, (pm.peers.orderedInsert (fun a b => a.1 ≤ b.1) entry).Perm
            (entry :: pm.peers) := fun entry => List.perm_orderedInsert _ entry pm.peers
        refine ((hperm _).map (·.1)).nodup_iff.mpr ?_
        exact List.nodup_cons.mpr ⟨hunknown, h⟩

/-- Every peer has one entry. -/
theorem keys_step {w : PeerAuthority.World} (h : (w.pm.peers.map (·.1)).Nodup) :
    ((PeerAuthority.step w e).pm.peers.map (·.1)).Nodup := by
  cases e with
  | start nodeId localTags => exact h
  | discover files =>
      show ((w.pm.discoverPeers _).peers.map (·.1)).Nodup
      unfold discoverPeers
      generalize files.map (fun file => (file.1, endpoint? file)) = read
      generalize w.pm = pm at h
      induction read generalizing pm with
      | nil => exact h
      | cons file read ih => exact ih _ (keys_discoverPeer h)
  | heartbeat | goodbye | nodeState | answered => exact (keys_modifyPeer _).symm ▸ h
  | silence nowMs =>
      exact (map_update (f := fun entry : String × PeerInfo =>
        (entry.1, { entry.2 with hasUdpContact := false })) (·.1) (fun _ => rfl) _).symm ▸ h
  | forget hasEndpoint => exact (List.filter_sublist.map _).nodup h
  | recomputeLeader =>
      show ((w.pm.peers.map fun entry => _).map _).Nodup
      rwa [List.map_map]

/-! ## What the log says -/

/-- The vitals of a peer, as its history has them. -/
structure Backed (log : List (PeerManager × Event)) (id : String) (v : Vitals) : Prop where
  failures : v.failures ≤ failuresSince id log
  contact : v.contactMs = (lastContact id log).getD 0

variable {log : List (PeerManager × Event)} {v : Vitals}

theorem failuresSince_heard (h : heardFrom id e = true) :
    failuresSince id ((pm, e) :: log) = 0 := by
  unfold failuresSince
  rw [List.takeWhile_cons_of_neg (by simp [h])]
  rfl

/-- Only a heartbeat changes the last contact. -/
theorem lastContact_cons (hknown : knows pm id = true) (h : contact? id e = none) :
    lastContact id ((pm, e) :: log) = lastContact id log := by
  rw [lastContact, if_pos hknown, h]
  rfl

theorem failuresSince_cons (h : heardFrom id e = false) :
    failuresSince id ((pm, e) :: log) =
      failuresSince id log + if knows pm id && failedPoll id e then 1 else 0 := by
  unfold failuresSince
  rw [List.takeWhile_cons_of_pos (by simp [h]), List.countP_cons]

/-- What is remembered of a peer that the event does not concern, or only
ends. -/
theorem Backed.quiet (h : Backed log id v) (hknown : knows pm id = true)
    (hheard : heardFrom id e = false) {alive : Bool} :
    Backed ((pm, e) :: log) id { v with alive } := by
  refine ⟨?_, h.contact.trans (congrArg (Option.getD · 0) ?_)⟩
  · rw [failuresSince_cons hheard]
    have := h.failures
    show v.failures ≤ _
    omega
  · refine (lastContact_cons hknown ?_).symm
    cases e with
    | heartbeat hb nowMs => exact if_neg (of_decide_eq_false hheard)
    | _ => rfl

theorem backed_new (hunknown : knows pm id = false) : Backed ((pm, e) :: log) id {} where
  failures := Int.natCast_nonneg _
  contact := by
    rw [lastContact, if_neg (by simp [hunknown])]
    rfl

theorem Vitals.missed_counts (v : Vitals) (nowMs : Int) :
    (v.missed nowMs).failures = v.failures + 1 ∧ (v.missed nowMs).contactMs = v.contactMs := by
  unfold Vitals.missed
  split
  · exact ⟨rfl, rfl⟩
  · exact ⟨rfl, rfl⟩

/-- A failed poll is counted. -/
theorem Backed.missed {body : Option Json} {nowMs : Int} (h : Backed log id v)
    (hknown : knows pm id = true) (hquiet : heardFrom id (.answered id body nowMs) = false) :
    Backed ((pm, .answered id body nowMs) :: log) id (v.missed nowMs) := by
  obtain ⟨hfailures, hcontact⟩ := v.missed_counts nowMs
  have hfailed : failedPoll id (.answered id body nowMs) = true := by
    simpa [heardFrom, failedPoll] using hquiet
  refine ⟨?_, ?_⟩
  · rw [hfailures, failuresSince_cons hquiet, hknown, hfailed]
    have := h.failures
    simp only [Bool.and_self, if_true]
    omega
  · rw [hcontact, lastContact_cons hknown rfl]
    exact h.contact

/-- The log keeps up with the vitals. -/
theorem Backed.after (h : Backed log id v) (hknown : knows pm id = true) :
    Backed ((pm, e) :: log) id (v.after id e) := by
  by_cases hheard : heardFrom id e = true
  · cases e with
    | heartbeat hb nowMs =>
        have hid : hb.nodeId = id := of_decide_eq_true hheard
        refine ⟨?_, ?_⟩
        · rw [Vitals.after, if_pos hid, failuresSince_heard hheard]
          rfl
        · rw [Vitals.after, if_pos hid, lastContact, if_pos hknown, contact?, if_pos hid]
          rfl
    | answered id' body nowMs =>
        obtain ⟨hid, hread⟩ := Bool.and_eq_true_iff.mp hheard
        rw [Vitals.after, if_pos (of_decide_eq_true hid), if_pos hread]
        refine ⟨?_, ?_⟩
        · rw [failuresSince_heard hheard]
          rfl
        · rw [lastContact_cons hknown rfl]
          exact h.contact
    | _ => cases hheard
  · have hquiet := Bool.eq_false_iff.mpr hheard
    cases e with
    | heartbeat hb nowMs =>
        rw [Vitals.after, if_neg (of_decide_eq_false hquiet)]
        exact h.quiet hknown hquiet
    | goodbye id' =>
        rw [Vitals.after]
        split
        · exact h.quiet hknown hquiet
        · exact h.quiet hknown hquiet
    | answered id' body nowMs =>
        rw [Vitals.after]
        split
        · rename_i hid
          have hnone : ¬ (status? body).isSome = true := fun hread =>
            hheard (Bool.and_eq_true_iff.mpr ⟨decide_eq_true hid, hread⟩)
          rw [if_neg hnone]
          subst hid
          exact h.missed hknown hquiet
        · exact h.quiet hknown hquiet
    | start | discover | nodeState | silence | forget | recomputeLeader =>
        exact h.quiet hknown hquiet

/-- One entry a peer, and what each remembers is in the log. -/
structure Remembers (w : World) : Prop where
  keys : (w.now.pm.peers.map (·.1)).Nodup
  backed : ∀ entry ∈ w.now.pm.peers, Backed w.log entry.1 (vitals entry.2)

theorem Remembers.step (h : Remembers w) : Remembers (PeerDeaths.step w e) where
  keys := keys_step h.keys
  backed entry hentry := by
    rcases from_step hentry with ⟨hunknown, hfresh⟩ | ⟨info, hinfo, hvitals⟩
    · rw [hfresh]
      exact backed_new hunknown
    · rw [hvitals]
      exact (h.backed _ hinfo).after (knows_of_mem hinfo)

/-- Two entries of a peer are one. -/
theorem Remembers.unique (h : Remembers w) {info info' : PeerInfo}
    (hinfo : (id, info) ∈ w.now.pm.peers) (hinfo' : (id, info') ∈ w.now.pm.peers) :
    info = info' :=
  congrArg Prod.snd (List.inj_on_of_nodup_map h.keys hinfo hinfo' rfl)

/-- What ends a life. -/
theorem after_dead (halive : v.alive = true) (h : (v.after id e).alive = false) :
    e = .goodbye id ∨ ∃ body nowMs, e = .answered id body nowMs ∧ status? body = none ∧
      v.Condemned nowMs := by
  cases e with
  | goodbye id' =>
      rw [Vitals.after] at h
      split at h
      · rename_i hid
        exact .inl (hid ▸ rfl)
      · rw [halive] at h
        cases h
  | answered id' body nowMs =>
      rw [Vitals.after] at h
      split at h
      · rename_i hid
        subst hid
        split at h
        · cases h
        · rename_i hnone
          refine .inr ⟨body, nowMs, rfl, by simpa using hnone, ?_⟩
          by_contra hspared
          rw [Vitals.missed, if_neg hspared] at h
          exact absurd (halive.symm.trans h) (by decide)
      · rw [halive] at h
        cases h
  | heartbeat hb nowMs =>
      rw [Vitals.after] at h
      split at h
      · cases h
      · rw [halive] at h
        cases h
  | start | discover | nodeState | silence | forget | recomputeLeader =>
      exact absurd (halive.symm.trans h) (by decide)

/-- **A peer is declared dead only on evidence**: by its goodbye, or at a failed
poll that makes three since it was last heard from, when the last heartbeat its
entry has a positive reading of is at least ten seconds old. -/
theorem deaths_have_evidence (es : List Event) : machine.Along (DiesOf EntrySilent) start es := by
  have hstep : ∀ w e w', Remembers w → machine.step w e = some w' →
      DiesOf EntrySilent w e w' ∧ Remembers w' := by
    intro w e w' h hs
    cases hs
    refine ⟨?_, h.step⟩
    rintro id ⟨⟨info, hinfo, halive⟩, info', hinfo', hdead⟩
    rcases from_step hinfo' with ⟨hunknown, -⟩ | ⟨old, hold, hvitals⟩
    · rw [knows_of_mem hinfo] at hunknown
      cases hunknown
    · cases h.unique hinfo hold
      have hafter : ((vitals info).after id e).alive = false :=
        (congrArg Vitals.alive hvitals).symm.trans hdead
      rcases after_dead halive hafter with hbye | ⟨body, nowMs, rfl, hnone, hverdict⟩
      · exact .inl hbye
      · refine .inr ⟨body, nowMs, rfl, hnone, ?_, ?_⟩
        · have hbacked : (vitals info).failures ≤ failuresSince id w.log :=
            (h.backed _ hinfo).failures
          have hcount : failuresSince id (PeerDeaths.step w (.answered id body nowMs)).log =
              failuresSince id w.log + 1 := by
            refine (failuresSince_cons (by simp [heardFrom, hnone])).trans ?_
            simp [knows_of_mem hinfo, failedPoll, hnone]
          have hthree := hverdict.1
          rw [hcount]
          omega
        · intro t ht hpos
          have hlast : lastContact id w.log = some t :=
            (lastContact_cons (knows_of_mem hinfo) rfl).symm.trans ht
          have hcontact := (h.backed _ hinfo).contact
          rw [hlast, Option.getD_some] at hcontact
          have hsilent := hverdict.2.2
          rw [hcontact] at hsilent
          omega
  refine Machine.Along.always hstep ?_
  exact ⟨List.nodup_nil, fun entry hentry => by cases hentry⟩

/-! ## Heartbeats that the verdict does not see -/

/-- The endpoint file of a peer. -/
def w1File : List EndpointFile :=
  [("w1", some (.obj [("node_id", .str "w1"), ("ip", .str "10.0.0.5")]))]

/-- A worker says goodbye, is forgotten and discovered again, and answers no
poll. -/
def restarted : List Event :=
  [.discover w1File, .heartbeat { nodeId := "w1" } 100000, .goodbye "w1", .forget fun _ => false,
    .discover w1File, .answered "w1" none 103000, .answered "w1" none 106000]

/-- The clock is set back between two heartbeats. -/
def setBack : List Event :=
  [.discover w1File, .heartbeat { nodeId := "w1" } 110000, .heartbeat { nodeId := "w1" } 101000,
    .answered "w1" none 111500, .answered "w1" none 111600]

/-- The clock reads nothing positive. -/
def atZero : List Event :=
  [.discover w1File, .heartbeat { nodeId := "w1" } 0, .answered "w1" none 100,
    .answered "w1" none 200]

/-- The peer dies although a heartbeat is less than ten seconds old. -/
def diesEarly (id : String) (nowMs : Int) (w w' : World) : Bool :=
  w.now.pm.peers.any (fun entry => entry.1 = id ∧ entry.2.isAlive = true) &&
    w'.now.pm.peers.any (fun entry => entry.1 = id ∧ entry.2.isAlive = false) &&
    (contacts id w'.log).any fun t => t ≤ nowMs ∧ nowMs - t < 10000

theorem not_silent {nowMs : Int} {body : Option Json} {w w' : World}
    (h : diesEarly id nowMs w w' = true) :
    ¬ DiesOf TenSecondsSilent w (.answered id body nowMs) w' := by
  intro hdies
  obtain ⟨hboth, hrecent⟩ := Bool.and_eq_true_iff.mp h
  obtain ⟨halive, hdead⟩ := Bool.and_eq_true_iff.mp hboth
  obtain ⟨⟨key, info⟩, hinfo, hlive⟩ := List.any_eq_true.mp halive
  obtain ⟨⟨key', info'⟩, hinfo', hgone⟩ := List.any_eq_true.mp hdead
  obtain ⟨t, ht, hclose⟩ := List.any_eq_true.mp hrecent
  have hlive : key = id ∧ info.isAlive = true := of_decide_eq_true hlive
  have hgone : key' = id ∧ info'.isAlive = false := of_decide_eq_true hgone
  rw [hlive.1] at hinfo
  rw [hgone.1] at hinfo'
  rcases hdies id ⟨⟨info, hinfo, hlive.2⟩, info', hinfo', hgone.2⟩ with
    hbye | ⟨_, _, he, -, hevidence⟩
  · cases hbye
  · cases he
    exact hevidence.silence t ht (of_decide_eq_true hclose)

/-- **Peers are declared dead that are not silent**: with the entry its
heartbeats are forgotten, the verdict reads the last of them only, and zero is
no reading. -/
theorem heartbeats_are_overlooked :
    ¬ machine.Along (DiesOf TenSecondsSilent) start (restarted ++ [.answered "w1" none 109000]) ∧
    ¬ machine.Along (DiesOf TenSecondsSilent) start (setBack ++ [.answered "w1" none 111700]) ∧
    ¬ machine.Along (DiesOf TenSecondsSilent) start (atZero ++ [.answered "w1" none 300]) := by
  refine ⟨?_, ?_, ?_⟩
  · exact Machine.Along.refute restarted _ (diesEarly "w1" 109000)
      (fun _ _ hbad => not_silent hbad) (by decide)
  · exact Machine.Along.refute setBack _ (diesEarly "w1" 111700)
      (fun _ _ hbad => not_silent hbad) (by decide)
  · exact Machine.Along.refute atZero _ (diesEarly "w1" 300)
      (fun _ _ hbad => not_silent hbad) (by decide)

end MinRender.PeerDeaths
