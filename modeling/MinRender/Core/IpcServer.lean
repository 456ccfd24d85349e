import MinRender.Framework.Framing
import MinRender.Framework.Runs

/-!
# The pipe from the agent

What `IpcServer::receive` makes of the bytes that `write_message` put on one
connection, over every way they arrive and every place a read gives up, and
what the reader thread hands on until the connection is dropped.
-/

namespace MinRender.IpcServer
open Framing

/-- 16 MiB -/
def maxMessage : Nat := 16 * 1024 * 1024

/-- How one turn of the loop in `readExact` ends. -/
inductive Read
  /-- Up to `n` of the bytes on hand. -/
  | got (n : Nat)
  /-- The timeout, a stop or another error. On Windows the read it cancels may
  have taken up to `lost` bytes by then. -/
  | gaveUp (lost : Nat)
  /-- The other end is gone. -/
  | closed

structure Connection where
  connected : Bool := true
  /-- The bytes written and not read yet. -/
  stream : Bytes

def Connection.drop (conn : Connection) : Connection := { conn with connected := false }

def Connection.skip (conn : Connection) (n : Nat) : Connection :=
  { conn with stream := conn.stream.drop n }

inductive Outcome
  | done (bytes : Bytes)
  | failed
  /-- It has not returned yet. -/
  | waiting

/-- `readExact` of `count` bytes with `bytes` of them read, through the turns
`reads`; those left over are for the next call. -/
def readExact (conn : Connection) (count : Nat) (bytes : Bytes) :
    List Read → Outcome × Connection × List Read
  | [] => (if bytes.length < count then .waiting else .done bytes, conn, [])
  | read :: reads =>
      if bytes.length < count then
        let missing := count - bytes.length
        match read with
        | .got n =>
            let fragment := conn.stream.take (min n missing)
            readExact (conn.skip (min n missing)) count (bytes ++ fragment) reads
        | .gaveUp lost => (.failed, conn.skip (min lost missing), reads)
        | .closed => (.failed, conn.drop, reads)
      else (.done bytes, conn, read :: reads)

/-- `receive`: what it returns and what it leaves of the connection, `none`
where it has not returned yet. -/
def receive (conn : Connection) (reads : List Read) : Option (Option Bytes × Connection) :=
  if !conn.connected then some (none, conn)
  else
    match readExact conn 4 [] reads with
    | (.waiting, _, _) => none
    | (.failed, conn, _) => some (none, conn)
    | (.done header, conn, reads) =>
        let len := ofLeBytes header
        if maxMessage < len then some (none, conn.drop)
        else
          match readExact conn len [] reads with
          | (.waiting, _, _) => none
          | (.failed, conn, _) => some (none, conn.drop)
          | (.done payload, conn, _) => some (some payload, conn)

/-- `write_message` -/
def writeMessage (payload : Bytes) : Bytes := leBytes 4 payload.length ++ payload

/-! ## The reader thread -/

/-- A payload small enough to be accepted. -/
structure Payload where
  bytes : Bytes
  fits : bytes.length ≤ maxMessage

/-- One connection: what was written on it, and what was queued for
`update`. -/
structure World where
  conn : Connection
  received : List Bytes := []

inductive Event
  /-- A call of `receive` by `ipcThreadFunc`, with the turns of its reads. -/
  | receive (reads : List Read)
  /-- A write of another thread failed. -/
  | writeFailed

def step (w : World) : Event → Option World
  | .receive reads =>
      if !w.conn.connected then none
      else
        (receive w.conn reads).map fun (message, conn) =>
          { conn, received := w.received ++ message.toList }
  | .writeFailed => some { w with conn := w.conn.drop }

def machine : Machine World Event := ⟨step⟩

/-- The agent is connected and writes each payload. -/
def start (sent : List Payload) : World where
  conn := { stream := sent.flatMap fun p => writeMessage p.bytes }

/-! ## Received in order -/

def ReceivedInOrder (sent : List Payload) (w : World) : Prop :=
  w.received <+: sent.map (·.bytes)

/-- Whether the reads of a header give up with some of its four bytes taken, of
`len` bytes on hand and after `taken` of them. -/
def cutsHeader (len : Nat) : Nat → List Read → Bool
  | taken, .got n :: reads => cutsHeader len (taken + n) reads
  | taken, .gaveUp lost :: _ => min taken len < 4 && 0 < min (taken + lost) len
  | _, _ => false

/-- No header is cut short while the connection stays up. -/
def headersWhole (w : World) : Event → Bool
  | .receive reads => !cutsHeader w.conn.stream.length 0 reads
  | .writeFailed => true

/-! ## One read -/

variable {conn conn' : Connection} {count : Nat} {bytes bs : Bytes} {reads rest : List Read}

/-- A read that completes took the next bytes of the stream. -/
theorem readExact_done (h : readExact conn count bytes reads = (.done bs, conn', rest))
    (hle : bytes.length ≤ count) :
    bs.length = count ∧ conn'.connected = conn.connected ∧
      bytes ++ conn.stream = bs ++ conn'.stream := by
  induction reads generalizing conn bytes with
  | nil =>
      unfold readExact at h
      split at h
      · cases h
      · cases h
        exact ⟨by omega, rfl, rfl⟩
  | cons read reads ih =>
      unfold readExact at h
      split at h
      · cases read with
        | got n =>
            have hshort : (bytes ++ conn.stream.take (min n (count - bytes.length))).length ≤
                count := by
              rw [List.length_append, List.length_take]
              omega
            obtain ⟨hlen, hconn, hstream⟩ := ih h hshort
            refine ⟨hlen, hconn, ?_⟩
            rw [← hstream, List.append_assoc]
            congr 1
            exact (List.take_append_drop _ _).symm
        | gaveUp lost => cases h
        | closed => cases h
      · cases h
        exact ⟨by omega, rfl, rfl⟩

/-- A read of the header that fails with the connection up gave up; where it
does not cut the header short it took nothing. -/
theorem readExact_failed {len taken : Nat}
    (h : readExact conn 4 bytes reads = (.failed, conn', rest)) (hup : conn'.connected)
    (hlen : len = bytes.length + conn.stream.length)
    (htaken : bytes.length = min 4 (min taken len))
    (hwhole : cutsHeader len taken reads = false) :
    bytes = [] ∧ conn'.stream = conn.stream := by
  induction reads generalizing conn bytes taken with
  | nil =>
      unfold readExact at h
      split at h
      · cases h
      · cases h
  | cons read reads ih =>
      unfold readExact at h
      split at h
      · rename_i hmissing
        cases read with
        | got n =>
            have hleft : (conn.skip (min n (4 - bytes.length))).stream.length =
                conn.stream.length - min n (4 - bytes.length) := List.length_drop
            have hgot : (bytes ++ conn.stream.take (min n (4 - bytes.length))).length =
                bytes.length + min (min n (4 - bytes.length)) conn.stream.length := by
              rw [List.length_append, List.length_take]
            have hrest : cutsHeader len (taken + n) reads = false := hwhole
            obtain ⟨hnone, hstream⟩ := ih h (by omega) (by omega) hrest
            obtain ⟨hbytes, hfragment⟩ := List.append_eq_nil_iff.mp hnone
            refine ⟨hbytes, hstream.trans ?_⟩
            calc conn.stream.drop (min n (4 - bytes.length))
                = conn.stream.take (min n (4 - bytes.length)) ++
                    conn.stream.drop (min n (4 - bytes.length)) := by rw [hfragment]; rfl
              _ = conn.stream := List.take_append_drop _ _
        | gaveUp lost =>
            have hcut : min taken len < 4 → ¬ 0 < min (taken + lost) len := by
              simpa [cutsHeader] using hwhole
            have hnone := hcut (by omega)
            cases h
            refine ⟨List.length_eq_zero_iff.mp (by omega), ?_⟩
            show conn.stream.drop _ = conn.stream
            by_cases hl : lost = 0
            · rw [hl, Nat.zero_min, List.drop_zero]
            · have hempty : conn.stream = [] := List.length_eq_zero_iff.mp (by omega)
              rw [hempty, List.drop_nil]
        | closed =>
            cases h
            cases hup
      · cases h

/-! ## One message -/

variable {sent : List Payload} {w w' : World}

/-- The stream is at the message after the last one received. -/
def InStep (sent : List Payload) (w : World) : Prop :=
  ∃ rest, sent.map (·.bytes) = w.received ++ rest ∧ w.conn.stream = frames 4 rest

/-- What holds between the calls of `receive`. -/
def Inv (sent : List Payload) (w : World) : Prop :=
  ReceivedInOrder sent w ∧ (w.conn.connected → InStep sent w)

theorem payload_fits {payloads : List Bytes} {p : Bytes}
    (h : sent.map (·.bytes) = payloads) (hp : p ∈ payloads) : p.length ≤ maxMessage := by
  obtain ⟨q, -, rfl⟩ := List.mem_map.mp (h ▸ hp)
  exact q.fits

/-- **One call of `receive` on a stream in step.** -/
theorem receive_spec {left : List Bytes} {message : Option Bytes}
    (hfits : ∀ p ∈ left, p.length ≤ maxMessage) (hstream : conn.stream = frames 4 left)
    (hwhole : cutsHeader conn.stream.length 0 reads = false) (hup : conn.connected)
    (h : receive conn reads = some (message, conn')) :
    (∃ p ps, left = p :: ps ∧ message = some p ∧ conn'.stream = frames 4 ps) ∨
      (message = none ∧ (conn'.connected → conn'.stream = frames 4 left)) := by
  unfold receive at h
  rw [if_neg (by simp [hup])] at h
  split at h
  · cases h
  · rename_i conn₁ rest₁ hheader
    cases h
    right
    refine ⟨rfl, fun hstill => ?_⟩
    rw [(readExact_failed hheader hstill (Nat.zero_add _).symm (by simp) hwhole).2, hstream]
  · rename_i header conn₁ rest₁ hheader
    obtain ⟨hlen, hconn, hbytes⟩ := readExact_done hheader (Nat.zero_le _)
    rw [List.nil_append, hstream] at hbytes
    obtain ⟨p, ps, hleft, hp, hrest⟩ := of_header (by decide) hlen hbytes
    have hpfits : p.length ≤ maxMessage := hfits p (hleft ▸ List.mem_cons_self)
    have hdecode : ofLeBytes header = p.length := by
      rw [hp]
      exact ofLeBytes_leBytes (Nat.lt_of_le_of_lt hpfits (by decide))
    simp only [hdecode] at h
    rw [if_neg (Nat.not_lt.mpr hpfits)] at h
    split at h
    · cases h
    · cases h
      exact .inr ⟨rfl, fun hstill => absurd hstill Bool.false_ne_true⟩
    · rename_i payload conn₂ rest₂ hpayload
      cases h
      left
      obtain ⟨hplen, -, hpbytes⟩ := readExact_done hpayload (Nat.zero_le _)
      rw [List.nil_append, hrest] at hpbytes
      obtain ⟨hsame, hstream'⟩ := List.append_inj hpbytes hplen.symm
      exact ⟨p, ps, hleft, by rw [hsame], hstream'.symm⟩

/-! ## Every run -/

theorem inv_step {e : Event} (hi : Inv sent w) (hs : step w e = some w')
    (hwhole : headersWhole w e) : Inv sent w' := by
  obtain ⟨hinOrder, hstep⟩ := hi
  cases e with
  | writeFailed =>
      cases hs
      exact ⟨hinOrder, fun hstill => absurd hstill Bool.false_ne_true⟩
  | receive reads =>
      by_cases hup : w.conn.connected
      · simp only [step, hup, Bool.not_true, Bool.false_eq_true, if_false] at hs
        obtain ⟨left, hsent, hstream⟩ := hstep hup
        obtain ⟨⟨message, conn'⟩, hreceive, rfl⟩ := Option.map_eq_some_iff.mp hs
        have hfits : ∀ p ∈ left, p.length ≤ maxMessage := fun p hp =>
          payload_fits hsent (List.mem_append_right _ hp)
        have hcut : cutsHeader w.conn.stream.length 0 reads = false := by
          simpa [headersWhole] using hwhole
        rcases receive_spec hfits hstream hcut hup hreceive with
          ⟨p, ps, rfl, rfl, hrest⟩ | ⟨rfl, hrest⟩
        · -- the next payload
          have hsent' : sent.map (·.bytes) = (w.received ++ [p]) ++ ps := by
            rw [List.append_assoc, hsent]
            rfl
          exact ⟨⟨ps, hsent'.symm⟩, fun _ => ⟨ps, hsent', hrest⟩⟩
        · -- nothing, with the stream where it was
          have hreceived : w.received ++ (none : Option Bytes).toList = w.received :=
            List.append_nil _
          refine ⟨?_, fun hstill => ⟨left, ?_, hrest hstill⟩⟩
          · unfold ReceivedInOrder
            rw [hreceived]
            exact hinOrder
          · rw [hreceived]
            exact hsent
      · simp [step, hup] at hs

theorem inv_start (sent : List Payload) : Inv sent (start sent) := by
  refine ⟨List.nil_prefix, fun _ => ⟨_, rfl, ?_⟩⟩
  exact (List.flatMap_map (fun p : Payload => p.bytes) (frame 4) sent).symm

/-- **The server hands on a prefix of what was sent in every run in which no
header is cut short.** For every sequence of payloads, every fragmentation of
the stream and every placement of timeouts: as long as no read of a header
gives up after taking some of its bytes, the payloads received are in order,
unaltered, none skipped and none invented, in every state. -/
theorem prefix_of_headers_whole (sent : List Payload) (es : List Event)
    (h : machine.Along (fun w e _ => headersWhole w e) (start sent) es) :
    machine.Along (fun _ _ w => ReceivedInOrder sent w) (start sent) es := by
  refine Machine.Along.mono (fun w e w' hi hs hwhole => ?_) (inv_start sent) h
  have hi' := inv_step hi hs hwhole
  exact ⟨hi'.1, hi'⟩

/-! ## A header cut short -/

/-- `{}` and `[]` -/
def twoMessages : List Payload := [⟨[123, 125], by decide⟩, ⟨[91, 93], by decide⟩]

/-- The second message comes in two fragments, the timeout strikes between
messages only. -/
theorem two_messages_arrive :
    machine.Along (fun _ _ w => ReceivedInOrder twoMessages w) (start twoMessages)
      [.receive [.got 4, .got 2], .receive [.gaveUp 0], .receive [.got 3, .got 1, .got 2]] := by
  refine prefix_of_headers_whole twoMessages _ ?_
  exact Machine.Along.of_check (fun w e _ => headersWhole w e) (fun _ _ _ h => h) (by decide)

/-- **A message is skipped**: two timeouts strike after three bytes each, and the
first message is gone. -/
theorem timeouts_skip_message :
    ¬ ∀ sent es, machine.Along (fun _ _ w => ReceivedInOrder sent w) (start sent) es := by
  intro h
  refine Machine.Along.refute [.receive [.got 3, .gaveUp 0], .receive [.got 3, .gaveUp 0]]
    (.receive [.got 4, .got 2]) (fun _ u => u.received = [[91, 93]]) ?_ ?_
    (h twoMessages _)
  · intro t u hbad hgood
    have hreceived : u.received = [[91, 93]] := of_decide_eq_true hbad
    unfold ReceivedInOrder at hgood
    rw [hreceived] at hgood
    exact absurd hgood (by decide)
  · decide

end MinRender.IpcServer
