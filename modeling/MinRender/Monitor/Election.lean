import Mathlib.Data.List.Sort
import Mathlib.Data.Bool.Basic
import Mathlib.Data.Prod.Lex
import Mathlib.Data.String.Basic
import MinRender.Core.Config
import MinRender.Framework.Runs
import MinRender.Monitor.PeerManager

/-!
# Leader election

The nodes of a farm, each with its configuration and its own peer map. A node
ranks itself by the tags it started with and the others by the tags they
report, so the module compares the two sources and says when all nodes elect
the same leader.
-/

namespace MinRender.Election
open PeerManager

/-! ## The ranking -/

/-- The ranking as a linear order: the candidate with the smallest rank wins. -/
def rank (c : Candidate) : Bool ×ₗ Bool ×ₗ String :=
  toLex (!c.hasLeaderTag, toLex (c.hasNoLeaderTag, c.id))

theorem before_iff {a b : Candidate} : a.before b = true ↔ rank a < rank b := by
  unfold Candidate.before rank
  rw [Prod.Lex.toLex_lt_toLex, Prod.Lex.toLex_lt_toLex]
  cases a.hasLeaderTag <;> cases b.hasLeaderTag <;> cases a.hasNoLeaderTag <;>
    cases b.hasNoLeaderTag <;> simp

theorem id_eq_of_rank_eq {a b : Candidate} (h : rank a = rank b) : a.id = b.id := by
  unfold rank at h
  simp only [EmbeddingLike.apply_eq_iff_eq, Prod.mk.injEq] at h
  exact h.2.2

/-- Of two candidates with different ids one comes first. -/
theorem before_of_not {a b : Candidate} (hid : a.id ≠ b.id)
    (h : b.before a = false) : a.before b = true := by
  rw [before_iff]
  have hle : rank a ≤ rank b := by
    rw [← not_lt, ← before_iff, h]
    exact Bool.false_ne_true
  exact lt_of_le_of_ne hle fun he => hid (id_eq_of_rank_eq he)

instance : Std.Total fun a b : Candidate => ¬ b.before a = true where
  total a b := by
    rw [before_iff, before_iff, not_lt, not_lt]
    exact le_total _ _

instance : IsTrans Candidate fun a b : Candidate => ¬ b.before a = true where
  trans a b c := by
    rw [before_iff, before_iff, before_iff, not_lt, not_lt, not_lt]
    exact le_trans

/-- The elected candidate comes after no other. -/
theorem exists_elected (pm : PeerManager) : ∃ c ∈ pm.candidates, pm.elected = c.id ∧
    ∀ d ∈ pm.candidates, d.before c = false := by
  unfold elected
  have hperm := List.perm_insertionSort (fun a b : Candidate => ¬ b.before a = true)
    pm.candidates
  have hsorted := List.pairwise_insertionSort (fun a b : Candidate => ¬ b.before a = true)
    pm.candidates
  cases hs : pm.candidates.insertionSort fun a b => ¬ b.before a = true with
  | nil =>
      rw [hs] at hperm
      cases hperm.symm.eq_nil
  | cons c rest =>
      rw [hs] at hperm hsorted
      refine ⟨c, hperm.mem_iff.mp List.mem_cons_self, rfl, fun d hd => ?_⟩
      rcases List.mem_cons.mp (hperm.mem_iff.mpr hd) with rfl | hrest
      · rw [← Bool.not_eq_true, before_iff]
        exact lt_irrefl _
      · exact Bool.not_eq_true _ ▸ (List.pairwise_cons.mp hsorted).1 d hrest

/-- **Who is elected**: the candidate that comes before every other. -/
theorem elected_eq_iff {pm : PeerManager} {l : Candidate} (hl : l ∈ pm.candidates)
    (hid : ∀ c ∈ pm.candidates, ∀ d ∈ pm.candidates, c.id = d.id → c = d) :
    pm.elected = l.id ↔ ∀ c ∈ pm.candidates, c.id ≠ l.id → l.before c = true := by
  obtain ⟨c, hc, helected, hfirst⟩ := exists_elected pm
  rw [helected]
  constructor
  · intro hcl d hd hne
    have : c = l := hid c hc l hl hcl
    subst this
    exact before_of_not hne.symm (hfirst d hd)
  · intro hall
    by_contra hne
    have := hall c hc hne
    rw [hfirst l hl] at this
    cases this

/-! ## The farm -/

/-- A running node: the tags it started the farm with, its configuration, the
tags of its latest `/api/status` answer, and its peer map. -/
structure Node where
  startTags : List String
  config : Config
  reported : Option (List String) := none
  pm : PeerManager

/-- The running nodes, and the statuses they answered that a poll may still
bring in. -/
structure World where
  node : String → Option Node
  answers : List (String × PeerInfo)

inductive Event
  | startFarm (id : String) (config : Config)
  /-- a restart in place: the peer map stays -/
  | restartFarm (id : String)
  | stopFarm (id : String)
  | setTags (id : String) (tags : List String)
  | postConfig (id body : String)
  | answersStatus (id : String) (rest : PeerInfo)
  /-- a turn of the node's peer thread, or a UDP message -/
  | peers (id : String) (u : Update)

/-- `/api/status`: the tags are those of the configuration; `rest` is what the
election does not read. -/
def buildLocalPeerInfo (id : String) (config : Config) (rest : PeerInfo) : PeerInfo :=
  { rest with nodeId := id, tags := config.tags, isLocal := true, isAlive := true }

def Node.started (id : String) (config : Config) (pm : PeerManager) : Node where
  startTags := config.tags
  config := config
  pm := pm.start id config.tags

def World.setNode (w : World) (id : String) (n : Option Node) : World :=
  { w with node := Function.update w.node id n }

/-- A status merged into a peer map was answered by that peer. -/
def World.Answered (w : World) : Update → Prop
  | .polled b (some info) _ => ∃ answer ∈ w.answers, answer.1 = b ∧ answer.2 = info
  | _ => True

instance (w : World) (u : Update) : Decidable (w.Answered u) := by
  unfold World.Answered
  split <;> infer_instance

/-- Only a running node moves, and only a node that is not running starts. -/
def step (T : JsonText) (w : World) : Event → Option World
  | .startFarm id config =>
      match w.node id with
      | none => some (w.setNode id (some (.started id config {})))
      | some _ => none
  | .restartFarm id => do
      let n ← w.node id
      return w.setNode id (some (.started id n.config n.pm))
  | .stopFarm id => do
      let _ ← w.node id
      return w.setNode id none
  | .setTags id tags => do
      let n ← w.node id
      return w.setNode id (some { n with config := n.config.setTags tags })
  | .postConfig id body => do
      let n ← w.node id
      return w.setNode id (some { n with config := (n.config.postConfig T body).1 })
  | .answersStatus id rest => do
      let n ← w.node id
      let info := buildLocalPeerInfo id n.config rest
      return { w.setNode id (some { n with reported := some info.tags }) with
        answers := (id, info) :: w.answers }
  | .peers id u => do
      let n ← w.node id
      if w.Answered u then some (w.setNode id (some { n with pm := n.pm.apply u })) else none

def machine (T : JsonText) : Machine World Event := ⟨step T⟩

def start : World := ⟨fun _ => none, []⟩

/-! ## Agreement -/

/-- Each node's peer map marks exactly the other running nodes alive, and holds
the tags each reported in its latest status. -/
structure Converged (w : World) : Prop where
  alive : ∀ a n, w.node a = some n → ∀ b,
    (∃ entry ∈ n.pm.peers, entry.1 = b ∧ entry.2.isAlive = true) ↔
      b ≠ a ∧ (w.node b).isSome
  tags : ∀ a n, w.node a = some n → ∀ entry ∈ n.pm.peers, entry.2.isAlive = true →
    ∀ m, w.node entry.1 = some m → m.reported = some entry.2.tags

/-- The leader `recomputeLeader` makes of each node is the same running node,
and only that one has `isLeader`. -/
def Agrees (w : World) : Prop :=
  ∀ a, (w.node a).isSome → ∃ l, (w.node l).isSome ∧
    ∀ b n, w.node b = some n → n.pm.recomputeLeader.leaderId = l ∧
      (n.pm.recomputeLeader.isLeader = true ↔ b = l)

/-- The candidate a node is to itself. -/
def own (id : String) (n : Node) : Candidate := .of id n.startTags

/-- The candidate a node is to the others. -/
def seen (id : String) (n : Node) : Candidate := .of id (n.reported.getD [])

/-- A running node that by its own tags comes before each other node's reported
ones, and by its reported tags before the others' own and reported ones. -/
structure Outranks (w : World) (l : String) (nl : Node) : Prop where
  own : ∀ b n, w.node b = some n → b ≠ l → (own l nl).before (seen b n) = true
  seen : ∀ b n, w.node b = some n → b ≠ l →
    (Election.seen l nl).before (Election.own b n) = true
  third : ∀ a b n, (w.node a).isSome → w.node b = some n → a ≠ l → b ≠ l → a ≠ b →
    (Election.seen l nl).before (Election.seen b n) = true

def Outranked (w : World) : Prop :=
  ∀ a, (w.node a).isSome → ∃ l nl, w.node l = some nl ∧ Outranks w l nl

/-! ## What every node knows of itself -/

/-- A node ranks itself under its own id and the tags it started with. -/
def Inv (w : World) : Prop :=
  ∀ id n, w.node id = some n → n.pm.nodeId = id ∧ n.pm.localTags = n.startTags

theorem Inv.setNode {w : World} {id : String} {n : Option Node} (h : Inv w)
    (hn : ∀ m, n = some m → m.pm.nodeId = id ∧ m.pm.localTags = m.startTags) :
    Inv (w.setNode id n) := by
  intro id' m hm
  by_cases hid : id' = id
  · subst hid
    exact hn m (by simpa [World.setNode] using hm)
  · exact h id' m (by simpa [World.setNode, hid] using hm)

theorem inv_keeps {T : JsonText} : (machine T).Keeps Inv := by
  intro w e w' h hstep
  cases e with
  | startFarm id config =>
      simp only [machine, step] at hstep
      split at hstep
      · cases hstep
        refine h.setNode fun m hm => ?_
        cases hm
        exact ⟨rfl, rfl⟩
      · cases hstep
  | restartFarm id =>
      obtain ⟨n, hn, hstep⟩ := Option.bind_eq_some_iff.mp hstep
      cases hstep
      refine h.setNode fun m hm => ?_
      cases hm
      exact ⟨rfl, rfl⟩
  | stopFarm id =>
      obtain ⟨n, hn, hstep⟩ := Option.bind_eq_some_iff.mp hstep
      cases hstep
      exact h.setNode fun m hm => by cases hm
  | setTags id tags =>
      obtain ⟨n, hn, hstep⟩ := Option.bind_eq_some_iff.mp hstep
      cases hstep
      refine h.setNode fun m hm => ?_
      cases hm
      exact h id n hn
  | postConfig id body =>
      obtain ⟨n, hn, hstep⟩ := Option.bind_eq_some_iff.mp hstep
      cases hstep
      refine h.setNode fun m hm => ?_
      cases hm
      exact h id n hn
  | answersStatus id rest =>
      obtain ⟨n, hn, hstep⟩ := Option.bind_eq_some_iff.mp hstep
      cases hstep
      refine Inv.setNode (w := w) h fun m hm => ?_
      cases hm
      exact h id n hn
  | peers id u =>
      obtain ⟨n, hn, hstep⟩ := Option.bind_eq_some_iff.mp hstep
      split at hstep
      · cases hstep
        refine h.setNode fun m hm => ?_
        cases hm
        -- no input from the farm names the node itself or its tags
        obtain ⟨hid, htags⟩ := h id n hn
        exact ⟨apply_self.1.trans hid, apply_self.2.trans htags⟩
      · cases hstep

/-! ## Agreement in a converged farm -/

variable {w : World}

/-- A converged node ranks itself by its own tags and every other running node
by the reported ones. -/
theorem mem_candidates (h : Inv w) (hc : Converged w) {a : String} {n : Node}
    (ha : w.node a = some n) {c : Candidate} :
    c ∈ n.pm.candidates ↔ c = own a n ∨ ∃ b m, b ≠ a ∧ w.node b = some m ∧ c = seen b m := by
  obtain ⟨hid, htags⟩ := h a n ha
  have hseen : ∀ entry ∈ n.pm.peers, entry.2.isAlive = true → ∀ m,
      w.node entry.1 = some m → Candidate.of entry.1 entry.2.tags = seen entry.1 m := by
    intro entry hentry halive m hm
    rw [seen, hc.tags a n ha entry hentry halive m hm, Option.getD_some]
  rw [candidates, List.mem_cons, hid, htags, List.mem_map]
  refine or_congr Iff.rfl ⟨?_, ?_⟩
  · rintro ⟨entry, hentry, rfl⟩
    obtain ⟨hmem, halive⟩ := List.mem_filter.mp hentry
    obtain ⟨hne, hrun⟩ := (hc.alive a n ha entry.1).mp ⟨entry, hmem, rfl, halive⟩
    obtain ⟨m, hm⟩ := Option.isSome_iff_exists.mp hrun
    exact ⟨entry.1, m, hne, hm, hseen entry hmem halive m hm⟩
  · rintro ⟨b, m, hne, hm, rfl⟩
    obtain ⟨entry, hmem, rfl, halive⟩ :=
      (hc.alive a n ha b).mpr ⟨hne, Option.isSome_iff_exists.mpr ⟨m, hm⟩⟩
    exact ⟨entry, List.mem_filter.mpr ⟨hmem, halive⟩, hseen entry hmem halive m hm⟩

/-- The candidate that `x` is in the ranking of `a`. -/
def ballot (a x : String) (n : Node) : Candidate := if x = a then own x n else seen x n

theorem ballot_id {a x : String} {n : Node} : (ballot a x n).id = x := by
  unfold ballot
  split
  · rfl
  · rfl

theorem mem_candidates_ballot (h : Inv w) (hc : Converged w) {a : String} {n : Node}
    (ha : w.node a = some n) {c : Candidate} :
    c ∈ n.pm.candidates ↔ ∃ x m, w.node x = some m ∧ c = ballot a x m := by
  rw [mem_candidates h hc ha]
  constructor
  · rintro (rfl | ⟨b, m, hne, hm, rfl⟩)
    · exact ⟨a, n, ha, by rw [ballot, if_pos rfl]⟩
    · exact ⟨b, m, hm, by rw [ballot, if_neg hne]⟩
  · rintro ⟨x, m, hm, rfl⟩
    by_cases hxa : x = a
    · subst hxa
      rw [ha] at hm
      cases hm
      exact .inl (by rw [ballot, if_pos rfl])
    · exact .inr ⟨x, m, hxa, hm, by rw [ballot, if_neg hxa]⟩

/-- **Whom a converged node elects**: the running node whose candidate comes
before all others in its ranking. -/
theorem elected_iff (h : Inv w) (hc : Converged w) {a : String} {n : Node}
    (ha : w.node a = some n) {l : String} :
    n.pm.elected = l ↔ ∃ nl, w.node l = some nl ∧
      ∀ x m, w.node x = some m → x ≠ l → (ballot a l nl).before (ballot a x m) = true := by
  have hmem := fun c => mem_candidates_ballot h hc ha (c := c)
  have hid : ∀ c ∈ n.pm.candidates, ∀ d ∈ n.pm.candidates, c.id = d.id → c = d := by
    intro c hcm d hdm hcd
    obtain ⟨x, m, hm, rfl⟩ := (hmem c).mp hcm
    obtain ⟨y, m', hm', rfl⟩ := (hmem d).mp hdm
    rw [ballot_id, ballot_id] at hcd
    subst hcd
    rw [hm] at hm'
    cases hm'
    rfl
  have hball : ∀ nl, w.node l = some nl → (n.pm.elected = l ↔
      ∀ x m, w.node x = some m → x ≠ l →
        (ballot a l nl).before (ballot a x m) = true) := by
    intro nl hl
    have hiff := elected_eq_iff ((hmem _).mpr ⟨l, nl, hl, rfl⟩) hid
    rw [ballot_id] at hiff
    rw [hiff]
    constructor
    · intro hall x m hm hne
      exact hall _ ((hmem _).mpr ⟨x, m, hm, rfl⟩) (by rwa [ballot_id])
    · intro hall c hcm hne
      obtain ⟨x, m, hm, rfl⟩ := (hmem c).mp hcm
      rw [ballot_id] at hne
      exact hall x m hm hne
  constructor
  · intro helected
    obtain ⟨c, hcm, hcid, -⟩ := exists_elected n.pm
    obtain ⟨x, m, hm, rfl⟩ := (hmem c).mp hcm
    rw [ballot_id, helected] at hcid
    subst hcid
    exact ⟨m, hm, (hball m hm).mp helected⟩
  · rintro ⟨nl, hl, hall⟩
    exact (hball nl hl).mpr hall

/-- Coming first in everyone's ranking is outranking. -/
theorem outranks_iff {l : String} {nl : Node} (hl : w.node l = some nl) :
    Outranks w l nl ↔ ∀ a, (w.node a).isSome → ∀ x m, w.node x = some m → x ≠ l →
      (ballot a l nl).before (ballot a x m) = true := by
  constructor
  · intro h a ha x m hm hne
    unfold ballot
    by_cases hla : l = a
    · subst hla
      rw [if_pos rfl, if_neg hne]
      exact h.own x m hm hne
    · rw [if_neg hla]
      by_cases hxa : x = a
      · rw [if_pos hxa]
        exact h.seen x m hm hne
      · rw [if_neg hxa]
        exact h.third a x m ha hm (Ne.symm hla) hne (Ne.symm hxa)
  · intro h
    have hrun : ∀ {x m}, w.node x = some m → (w.node x).isSome :=
      fun hm => Option.isSome_iff_exists.mpr ⟨_, hm⟩
    refine ⟨?_, ?_, ?_⟩
    · intro b n hb hne
      have := h l (hrun hl) b n hb hne
      rwa [ballot, if_pos rfl, ballot, if_neg hne] at this
    · intro b n hb hne
      have := h b (hrun hb) b n hb hne
      rwa [ballot, if_neg (Ne.symm hne), ballot, if_pos rfl] at this
    · intro a b n ha hb hal hbl hab
      have := h a ha b n hb hbl
      rwa [ballot, if_neg (Ne.symm hal), ballot, if_neg (Ne.symm hab)] at this

/-- **A converged farm agrees exactly when one node outranks the others by both
of its tag lists.** -/
theorem agrees_iff_outranked (h : Inv w) (hc : Converged w) : Agrees w ↔ Outranked w := by
  unfold Agrees Outranked
  refine forall_congr' fun a => forall_congr' fun ha => ?_
  have hleader : ∀ l b n, w.node b = some n → (n.pm.recomputeLeader.leaderId = l ∧
      (n.pm.recomputeLeader.isLeader = true ↔ b = l) ↔ n.pm.elected = l) := by
    intro l b n hb
    have hself := (h b n hb).1
    simp only [recomputeLeader, decide_eq_true_eq, hself]
    constructor
    · exact fun hl => hl.1
    · rintro rfl
      exact ⟨rfl, eq_comm⟩
  constructor
  · rintro ⟨l, hl, hall⟩
    obtain ⟨nl, hnl⟩ := Option.isSome_iff_exists.mp hl
    refine ⟨l, nl, hnl, (outranks_iff hnl).mpr fun b hb => ?_⟩
    obtain ⟨n, hn⟩ := Option.isSome_iff_exists.mp hb
    obtain ⟨nl', hnl', hfirst⟩ :=
      (elected_iff h hc hn).mp ((hleader l b n hn).mp (hall b n hn))
    rw [hnl] at hnl'
    cases hnl'
    exact hfirst
  · rintro ⟨l, nl, hnl, hout⟩
    refine ⟨l, Option.isSome_iff_exists.mpr ⟨nl, hnl⟩, fun b n hb => ?_⟩
    refine (hleader l b n hb).mpr ((elected_iff h hc hb).mpr ⟨nl, hnl, ?_⟩)
    exact (outranks_iff hnl).mp hout b (Option.isSome_iff_exists.mpr ⟨n, hb⟩)

/-- **Leader election agrees exactly in the runs where, whenever the farm has
converged, one node outranks the others by both of its tag lists.** Over every
order of farm starts, restarts and stops, tag edits, status answers and peer
updates: in every converged state all nodes elect one running node, if and only
if some running node comes first both by the tags it started with and by the
tags it reports, each against the tags the others are ranked by there. -/
theorem agreement_iff_outranked (T : JsonText) (es : List Event) :
    (machine T).Along (fun _ _ w => Converged w → Outranked w) start es ↔
      (machine T).Along (fun _ _ w => Converged w → Agrees w) start es := by
  refine Machine.Along.congr inv_keeps (fun w e w' h hstep => ?_) fun id n hn => by cases hn
  exact forall_congr' fun hc => (agrees_iff_outranked (inv_keeps w e w' h hstep) hc).symm

/-! ## A leader tag set while the farm runs -/

/-- The node an event is about. -/
def Event.id : Event → String
  | .startFarm id _ | .restartFarm id | .stopFarm id | .setTags id _ | .postConfig id _
  | .answersStatus id _ | .peers id _ => id

/-- An event leaves the other nodes alone. -/
theorem step_node_ne {T : JsonText} {w' : World} {e : Event} {x : String}
    (hstep : step T w e = some w') (hx : x ≠ e.id) : w'.node x = w.node x := by
  cases e with
  | startFarm id config =>
      simp only [step] at hstep
      split at hstep
      · cases hstep
        exact Function.update_of_ne hx _ _
      · cases hstep
  | peers id u =>
      obtain ⟨n, -, hstep⟩ := Option.bind_eq_some_iff.mp hstep
      split at hstep
      · cases hstep
        exact Function.update_of_ne hx _ _
      · cases hstep
  | _ =>
      obtain ⟨n, -, hstep⟩ := Option.bind_eq_some_iff.mp hstep
      cases hstep
      exact Function.update_of_ne hx _ _

/-- Only nodes that a run is about are running after it. -/
theorem running_of_run {T : JsonText} {u : World} {x : String} {es : List Event}
    (hrun : (machine T).run w es = some u) (hx : ∀ e ∈ es, x ≠ e.id) :
    u.node x = w.node x := by
  induction es generalizing w with
  | nil =>
      cases hrun
      rfl
  | cons e es ih =>
      obtain ⟨w', hstep, hrun⟩ := Option.bind_eq_some_iff.mp hrun
      obtain ⟨hxe, hxs⟩ := List.forall_mem_cons.mp hx
      rw [ih hrun hxs, step_node_ne hstep hxe]

/-- `Converged`, for a farm whose running nodes are among `ids`. -/
def convergedOn (w : World) (ids : List String) : Bool :=
  ids.all fun a => (w.node a).all fun n =>
    (n.pm.peers.all fun entry => !entry.2.isAlive ||
      (entry.1 ≠ a && (w.node entry.1).any fun m => m.reported = some entry.2.tags)) &&
    ids.all fun b => b = a || (w.node b).isNone ||
      n.pm.peers.any fun entry => entry.1 = b && entry.2.isAlive

theorem converged_of_on {ids : List String} (hids : ∀ x, (w.node x).isSome → x ∈ ids)
    (h : convergedOn w ids = true) : Converged w := by
  have hnode : ∀ a n, w.node a = some n →
      (∀ entry ∈ n.pm.peers, entry.2.isAlive = true →
        entry.1 ≠ a ∧ ∃ m, w.node entry.1 = some m ∧ m.reported = some entry.2.tags) ∧
      ∀ b ∈ ids, b ≠ a → (w.node b).isSome →
        ∃ entry ∈ n.pm.peers, entry.1 = b ∧ entry.2.isAlive = true := by
    intro a n ha
    have hall := List.all_eq_true.mp h a (hids a (ha ▸ rfl))
    rw [ha, Option.all_some, Bool.and_eq_true] at hall
    obtain ⟨hpeers, hothers⟩ := hall
    constructor
    · intro entry hentry halive
      have := List.all_eq_true.mp hpeers entry hentry
      rw [halive, Bool.not_true, Bool.false_or, Bool.and_eq_true, decide_eq_true_eq,
        Option.any_eq_true] at this
      obtain ⟨hne, m, hm, htags⟩ := this
      exact ⟨hne, m, hm, of_decide_eq_true htags⟩
    · intro b hb hne hrun
      have := List.all_eq_true.mp hothers b hb
      rw [decide_eq_false hne, Bool.false_or, Option.isNone_eq_false_iff.mpr hrun,
        Bool.false_or, List.any_eq_true] at this
      obtain ⟨entry, hentry, hcond⟩ := this
      rw [Bool.and_eq_true, decide_eq_true_eq] at hcond
      exact ⟨entry, hentry, hcond⟩
  refine ⟨fun a n ha b => ⟨?_, ?_⟩, ?_⟩
  · rintro ⟨entry, hentry, rfl, halive⟩
    obtain ⟨hne, m, hm, -⟩ := (hnode a n ha).1 entry hentry halive
    exact ⟨hne, hm ▸ rfl⟩
  · rintro ⟨hne, hrun⟩
    exact (hnode a n ha).2 b (hids b hrun) hne hrun
  · intro a n ha entry hentry halive m hm
    obtain ⟨-, m', hm', htags⟩ := (hnode a n ha).1 entry hentry halive
    rw [hm] at hm'
    cases hm'
    exact htags

/-- A library that parses nothing; no body is posted below. -/
def mute : JsonText where
  parse _ := none
  dump _ := ""

/-- Two nodes without tags meet; then `n2` gets the `leader` tag in Settings
and reports it. -/
def leaderTagged : List Event :=
  [.startFarm "n1" {}, .startFarm "n2" {},
    .peers "n1" (.discover [("n2", some { nodeId := "n2", ip := "10.0.0.2" })]),
    .peers "n2" (.discover [("n1", some { nodeId := "n1", ip := "10.0.0.1" })]),
    .setTags "n2" ["leader"], .answersStatus "n1" {}, .answersStatus "n2" {},
    .peers "n1" (.polled "n2"
      (some (buildLocalPeerInfo "n2" { tags := ["leader"] } {})) 2000)]

def lastPoll : Event :=
  .peers "n2" (.polled "n1" (some (buildLocalPeerInfo "n1" {} {})) 2000)

/-- **A tag given to a running node splits the farm**: `n1` elects `n2` for its
tag, and `n2`, which still ranks itself without it, elects `n1`; the farm has no
leader. -/
theorem leader_tag_splits_the_farm :
    ¬ ∀ T es, (machine T).Along (fun _ _ w => Converged w → Agrees w) start es := by
  intro h
  refine Machine.Along.refute_run leaderTagged lastPoll
    (fun _ u => convergedOn u ["n1", "n2"] &&
      ((u.node "n1").any fun n => n.pm.elected = "n2") &&
      (u.node "n2").any fun n => n.pm.elected = "n1") ?_ ?_ (h mute _)
  · intro t u hrun hstep hbad hgood
    rw [Bool.and_eq_true, Bool.and_eq_true, Option.any_eq_true, Option.any_eq_true] at hbad
    obtain ⟨⟨hconv, n₁, hn₁, h₁⟩, n₂, hn₂, h₂⟩ := hbad
    have hfull : (machine mute).run start (leaderTagged ++ [lastPoll]) = some u := by
      rw [Machine.run_append, hrun]
      simp [Machine.run_cons, hstep]
    have hids : ∀ x, (u.node x).isSome → x ∈ ["n1", "n2"] := by
      intro x hx
      by_contra hout
      rw [running_of_run hfull] at hx
      · cases hx
      · have hall : ∀ e ∈ leaderTagged ++ [lastPoll], e.id ∈ ["n1", "n2"] := by decide
        exact fun e he hxe => hout (hxe ▸ hall e he)
    obtain ⟨l, -, hl⟩ := hgood (converged_of_on hids hconv) "n1" (hn₁ ▸ rfl)
    have hl₁ : n₁.pm.elected = l := (hl "n1" n₁ hn₁).1
    have hl₂ : n₂.pm.elected = l := (hl "n2" n₂ hn₂).1
    rw [of_decide_eq_true h₁] at hl₁
    rw [of_decide_eq_true h₂, ← hl₁] at hl₂
    exact absurd hl₂ (by decide)
  · decide

end MinRender.Election
