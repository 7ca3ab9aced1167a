import QuicTransport.Proofs.ConnectionSteps
import QuicTransport.Proofs.HandshakeRecord

set_option autoImplicit false

/-! # One connection, seen with the other side

What a handshake keeps, its connection keeps. Packets wait in queues until they are processed, so
the frames in them must still be good when their turn comes. They are, because what a frame says
about the two records remains true when either record grows (`Carried.mono_log`,
`Carried.mono_peer`).

A connection leaves its handshake only when the handshake is done, and then both sides have all
messages. -/

namespace QuicTransport

open HandshakeSetup (Found)

namespace Connection

/-! ## Messages -/

section Taken

variable {Memory : Type}

/-- The messages that a frame of a packet with a long header completes. -/
def takenByFrame (setup : HandshakeSetup Memory) (epoch : Epoch) (h : Handshake Memory) :
    Frame → List Found
  | .crypto offset data => setup.takenByCrypto h .inbound epoch offset data
  | _ => []

/-- The messages that frames complete, up to the first that fails. What that one completes before it
fails counts. -/
def takenByFrames (setup : HandshakeSetup Memory) (epoch : Epoch) :
    List Frame → Handshake Memory → List Found
  | [], _ => []
  | f :: fs, h =>
    takenByFrame setup epoch h f
      ++ match handshakeFrame setup epoch h f with
        | (.ok _, h') => takenByFrames setup epoch fs h'
        | (.error _, _) => []

/-- The messages that a packet completes during the handshake. -/
def takenByPacket (setup : HandshakeSetup Memory) (h : Handshake Memory) (p : Packet) :
    List Found :=
  match p.type with
  | .oneRtt => []
  | _ =>
    match p.epoch? with
    | some epoch => takenByFrames setup epoch (beforeClosing p.frames) h
    | none => []

/-- The messages that are taken when the packet at the front of the queue is processed. -/
def takenInbound (c : Connection Memory) : List Found :=
  match c.phase, c.buffered with
  | .handshaking h, p :: _ => takenByPacket c.setup h p
  | _, _ => []

/-- The messages that CRYPTO data of our own complete. -/
def takenOutbound (c : Connection Memory) (epoch : Epoch) (offset : Nat) (data : Bytes) :
    List Found :=
  match c.phase with
  | .handshaking h => c.setup.takenByCrypto h .outbound epoch offset data
  | _ => []

end Taken

/-! ## What is sent -/

theorem sentBy_append (d : Direction) (front back : List Directive) :
    sentBy d (.ok (front ++ back)) = sentBy d (.ok front) ++ sentBy d (.ok back) :=
  List.flatMap_append

/-- An active connection answers without frames. -/
theorem sentBy_activeFrames (s : Side) (frames : List Frame) :
    sentBy .inbound (activeFrames s frames) = [] := by
  have hframe : ∀ f front, activeFrame s f = .ok front → sentBy .inbound (.ok front) = [] := by
    intro f front hfront
    cases f with
    | handshakeDone =>
      cases s with
      | client =>
        cases hfront
        rfl
      | server => cases hfront
    | _ => cases hfront <;> rfl
  induction frames with
  | nil => rfl
  | cons f fs ih =>
    rw [activeFrames]
    cases hfront : activeFrame s f with
    | error e => rfl
    | ok front =>
      cases hback : activeFrames s fs with
      | error e => rfl
      | ok back =>
        rw [hback] at ih
        change sentBy .inbound (.ok (front ++ back)) = []
        rw [sentBy_append, hframe f front hfront, ih, List.append_nil]

end Connection

/-! ## Frames of the other side -/

/-- The frames of a packet that is on its way to a side. -/
def Packet.IsCarried (p : Packet) (s : Side) (log peer : List Found) : Prop :=
  ∃ e, p.epoch? = some e ∧ ∀ f ∈ p.frames, Carried s log peer (e, f)

theorem Packet.IsCarried.mono_log {p : Packet} {s : Side} {log peer : List Found}
    (h : p.IsCarried s log peer) (more : List Found) : p.IsCarried s (log ++ more) peer := by
  obtain ⟨e, he, hframes⟩ := h
  exact ⟨e, he, fun f hf => (hframes f hf).mono_log more⟩

theorem Packet.IsCarried.mono_peer {p : Packet} {s : Side} {log peer : List Found}
    (h : p.IsCarried s log peer) (more : List Found) : p.IsCarried s log (peer ++ more) := by
  obtain ⟨e, he, hframes⟩ := h
  exact ⟨e, he, fun f hf => (hframes f hf).mono_peer more⟩

/-- No side closes the connection. -/
theorem isClosing_of_carried {s : Side} {log peer : List Found} {e : Epoch} {f : Frame}
    (h : Carried s log peer (e, f)) : Connection.isClosing f = false := by
  cases f with
  | connectionClose close => exact h.elim
  | _ => rfl

theorem not_any_isClosing {s : Side} {log peer : List Found} {e : Epoch} {frames : List Frame}
    (h : ∀ f ∈ frames, Carried s log peer (e, f)) : frames.any Connection.isClosing = false := by
  rw [List.any_eq_false]
  intro f hf
  rw [isClosing_of_carried (h f hf)]
  decide

variable {s : Side} {setup : HandshakeSetup Unit} {h : Handshake Unit} {log peer : List Found}

/-- A frame of the other side, in a packet with a long header. -/
theorem HandshakeSound.handshakeFrame (hside : setup.side = s) (hparser : setup.parser = .framing)
    (hsound : HandshakeSound s h log peer) (hlog : LogSound s log peer)
    (hpeer : LogSound s.opposite peer log) {epoch : Epoch} {f : Frame}
    (hf : Carried s.opposite peer log (epoch, f)) :
    OperationSound s .inbound (Connection.handshakeFrame setup epoch h f)
      (log ++ Connection.takenByFrame setup epoch h f) peer := by
  cases f with
  | crypto offset data =>
    refine hsound.processCrypto hside hparser hlog hpeer ?_
    intro _ hlt
    rcases hf with hpiece | hdone
    · exact hpiece
    · omega
  | handshakeDone =>
    obtain ⟨hserver, hdone⟩ := hf
    have hclient : s = .client := by
      cases s with
      | client => rfl
      | server => cases hserver
    subst hclient
    unfold Connection.handshakeFrame Connection.takenByFrame
    dsimp only
    rw [hside, List.append_nil]
    exact hsound.processDone hlog hdone
  | newToken token =>
    unfold Connection.handshakeFrame Connection.takenByFrame
    rw [List.append_nil]
    exact ⟨hsound, hlog, fun sent hsent => by cases hsent⟩
  | _ => exact hf.elim

theorem HandshakeSound.handshakeFrames (hside : setup.side = s) (hparser : setup.parser = .framing)
    {epoch : Epoch} {frames : List Frame} (hsound : HandshakeSound s h log peer)
    (hlog : LogSound s log peer) (hpeer : LogSound s.opposite peer log)
    (hframes : ∀ f ∈ frames, Carried s.opposite peer log (epoch, f)) :
    OperationSound s .inbound (Connection.handshakeFrames setup epoch frames h)
      (log ++ Connection.takenByFrames setup epoch frames h) peer := by
  induction frames generalizing h log with
  | nil =>
    rw [Connection.takenByFrames, List.append_nil]
    exact ⟨hsound, hlog, fun sent hsent => by cases hsent⟩
  | cons f fs ih =>
    have hfirst := hsound.handshakeFrame hside hparser hlog hpeer (hframes f List.mem_cons_self)
    rw [Connection.handshakeFrames, Connection.takenByFrames, ← List.append_assoc]
    rcases hframe : Connection.handshakeFrame setup epoch h f with ⟨answer, h'⟩
    rw [hframe] at hfirst
    cases answer with
    | error e =>
      rw [List.append_nil]
      exact hfirst
    | ok front =>
      -- the frames that follow were sent before, so they are still good with the longer record
      have hrest := ih hfirst.state hfirst.record (hpeer.mono _) fun g hg =>
        (hframes g (List.mem_cons_of_mem f hg)).mono_peer _
      dsimp only [Outcome.andThen]
      rcases hmore : Connection.handshakeFrames setup epoch fs h' with ⟨more, h''⟩
      rw [hmore] at hrest
      cases more with
      | error e => exact hrest
      | ok back =>
        refine ⟨hrest.state, hrest.record, ?_⟩
        intro sent hsent
        rw [Connection.sentBy_append] at hsent
        rcases List.mem_append.1 hsent with hsent | hsent
        · exact (hfirst.sent sent hsent).mono_log _
        · exact hrest.sent sent hsent

/-! ## One connection -/

/-- What is known about the stage of a connection. -/
def PhaseSound (s : Side) (phase : Phase Unit) (log peer : List Found) : Prop :=
  match phase with
  | .idle => log = []
  | .handshaking h => HandshakeSound s h log peer
  | .active => 7 ≤ log.length ∧ 7 ≤ peer.length
  | .sentDisconnect => False
  | .receivedDisconnect => False

theorem PhaseSound.mono {phase : Phase Unit} (hphase : PhaseSound s phase log peer)
    (more : List Found) : PhaseSound s phase log (peer ++ more) := by
  cases phase with
  | idle => exact hphase
  | handshaking h => exact HandshakeSound.mono hphase more
  | active =>
    refine ⟨hphase.1, ?_⟩
    have hpeer := hphase.2
    rw [List.length_append]
    omega
  | sentDisconnect => exact hphase
  | receivedDisconnect => exact hphase

/-- A connection, the record of its handshake and the record of the other side. -/
structure ConnectionSound (s : Side) (c : Connection Unit) (log peer : List Found) : Prop where
  side : c.setup.side = s
  parser : c.setup.parser = .framing
  record : LogSound s log peer
  phase : PhaseSound s c.phase log peer
  /-- The packets that wait bear what the other side has sent. -/
  buffered : ∀ p ∈ c.buffered, p.IsCarried s.opposite peer log
  deferred : ∀ p ∈ c.deferred, p.IsCarried s.opposite peer log

theorem ConnectionSound.mono {c : Connection Unit} (hc : ConnectionSound s c log peer)
    (more : List Found) : ConnectionSound s c log (peer ++ more) where
  side := hc.side
  parser := hc.parser
  record := hc.record.mono more
  phase := hc.phase.mono more
  buffered := fun p hp => (hc.buffered p hp).mono_log more
  deferred := fun p hp => (hc.deferred p hp).mono_log more

/-- A connection after an operation, and what is sent. -/
structure CallSound (s : Side) (d : Direction) (answer : Result (List Directive))
    (c : Connection Unit) (log peer : List Found) : Prop where
  state : ConnectionSound s c log peer
  sent : ∀ sent ∈ sentBy d answer, Carried s log peer sent

/-- An operation that changes nothing and sends nothing. -/
theorem ConnectionSound.callSound {c : Connection Unit} (hc : ConnectionSound s c log peer)
    {d : Direction} {answer : Result (List Directive)} (hanswer : sentBy d answer = []) :
    CallSound s d answer c log peer := by
  refine ⟨hc, fun sent hsent => ?_⟩
  rw [hanswer] at hsent
  cases hsent

theorem ConnectionSound.withHandshake {c : Connection Unit} (hc : ConnectionSound s c log peer)
    {more : List Found} (hlog : LogSound s (log ++ more) peer)
    (hsound : HandshakeSound s h (log ++ more) peer) :
    ConnectionSound s (c.withHandshake h) (log ++ more) peer where
  side := hc.side
  parser := hc.parser
  record := hlog
  phase := hsound
  buffered := fun p hp => (hc.buffered p hp).mono_peer more
  deferred := fun p hp => (hc.deferred p hp).mono_peer more

theorem ConnectionSound.settle {c : Connection Unit} (hc : ConnectionSound s c log peer)
    {d : Direction} {o : Outcome (Handshake Unit) (List Directive)} {more : List Found}
    (ho : OperationSound s d o (log ++ more) peer) :
    CallSound s d (c.settle o).1 (c.settle o).2 (log ++ more) peer := by
  have hkept := hc.withHandshake ho.record ho.state
  cases c.settleStep o with
  | failed hanswer hstep =>
    subst hanswer
    rw [hstep]
    exact hkept.callSound rfl
  | stayed hanswer _ hstep =>
    subst hanswer
    rw [hstep]
    exact ⟨hkept, ho.sent⟩
  | completed hanswer hprogress hstep =>
    subst hanswer
    rw [hstep]
    -- the handshake is done: its place is taken by the lengths of the records
    refine ⟨⟨hc.side, hc.parser, ho.record, ho.state.complete ho.record hprogress, ?_,
      List.forall_mem_nil _⟩, fun sent hsent => ?_⟩
    · exact List.forall_mem_append.2 ⟨hkept.deferred, hkept.buffered⟩
    · rw [Connection.sentBy_append] at hsent
      rcases List.mem_append.1 hsent with hsent | hsent
      · exact ho.sent sent hsent
      · cases hsent

/-! ## Operations

Each operation keeps what is known about the connection, for the record with the messages that it
takes, and what it sends may be relied on. -/

theorem ConnectionSound.beginHandshake {c : Connection Unit} (hc : ConnectionSound s c log peer) :
    ConnectionSound s c.beginHandshake.2 log peer := by
  rcases c.beginHandshake_cases with ⟨hidle, hstep⟩ | ⟨e, hstep⟩
  · have hphase := hc.phase
    rw [hidle] at hphase
    change log = [] at hphase
    subst hphase
    have hstart : ConnectionSound s (c.withHandshake c.setup.start) ([] ++ []) peer :=
      hc.withHandshake hc.record (handshakeSound_start s peer)
    rw [hstep]
    exact ⟨hstart.side, hstart.parser, hstart.record, hstart.phase, hstart.buffered,
      hstart.deferred⟩
  · rw [hstep]
    exact hc

theorem ConnectionSound.bufferPacket {c : Connection Unit} (hc : ConnectionSound s c log peer)
    {p : Packet} (hp : p.IsCarried s.opposite peer log) :
    ConnectionSound s (c.bufferPacket p).2 log peer := by
  cases c.bufferStep p with
  | accepted _ _ hstep =>
    rw [hstep]
    exact ⟨hc.side, hc.parser, hc.record, hc.phase,
      List.forall_mem_append.2 ⟨hc.buffered, List.forall_mem_singleton.2 hp⟩, hc.deferred⟩
  | full _ _ hstep | refused _ hstep =>
    rw [hstep]
    exact hc

theorem ConnectionSound.processOutbound {c : Connection Unit} (hc : ConnectionSound s c log peer)
    (hpeer : LogSound s.opposite peer log) (epoch : Epoch) (offset : Nat) (data : Bytes) :
    CallSound s .outbound (c.processOutbound (.crypto offset data) epoch).1
      (c.processOutbound (.crypto offset data) epoch).2
      (log ++ c.takenOutbound epoch offset data) peer := by
  have hsound := hc.phase
  unfold Connection.takenOutbound
  change CallSound s .outbound (c.call (.outbound (.crypto offset data) epoch)).1
    (c.call (.outbound (.crypto offset data) epoch)).2 _ peer
  cases c.outboundStep (.crypto offset data) epoch with
  | refused hwhy hstep =>
    have hnothing : ∀ h, c.phase ≠ .handshaking h := by
      intro h hphase
      cases hwhy (by rw [hphase]; rfl)
    rw [hstep]
    split
    · next h hphase => exact absurd hphase (hnothing h)
    · rw [List.append_nil]
      exact hc.callSound rfl
  | closed _ hclosing _ => cases hclosing
  | crypto hphase hcrypto hstep =>
    cases hcrypto
    rw [hphase] at hsound
    rw [hstep, hphase]
    exact hc.settle (HandshakeSound.processCrypto hc.side hc.parser hsound hc.record hpeer nofun)
  | plain _ hplain _ _ => exact absurd rfl (hplain offset data)
  | sent hphase hstep =>
    rw [hphase] at hsound
    rw [hstep, hphase, List.append_nil]
    refine ⟨hc, fun sent hsent => ?_⟩
    rw [List.mem_singleton.1 hsent]
    exact Or.inr hsound.2

theorem ConnectionSound.handshakeLong {c : Connection Unit} (hc : ConnectionSound s c log peer)
    (hpeer : LogSound s.opposite peer log) (hsound : HandshakeSound s h log peer) {epoch : Epoch}
    {frames : List Frame} (hframes : ∀ f ∈ frames, Carried s.opposite peer log (epoch, f)) :
    CallSound s .inbound (c.handshakeLong h epoch frames).1 (c.handshakeLong h epoch frames).2
      (log ++ Connection.takenByFrames c.setup epoch (Connection.beforeClosing frames) h) peer := by
  have hopen := not_any_isClosing hframes
  unfold Connection.handshakeLong
  rw [hopen, Connection.beforeClosing_of_any_eq_false hopen]
  exact hc.settle (hsound.handshakeFrames hc.side hc.parser hc.record hpeer hframes)

theorem ConnectionSound.handshakeShort {c : Connection Unit} (hc : ConnectionSound s c log peer)
    (hsound : HandshakeSound s h log peer) {p : Packet} (hp : p.IsCarried s.opposite peer log) :
    CallSound s .inbound (c.handshakeShort h p).1 (c.handshakeShort h p).2 log peer := by
  -- a packet with HANDSHAKE_DONE in it is sent by a server that has all messages
  have hdone : c.setup.side = .client → p.frames.any Frame.isHandshakeDone = true →
      OperationSound s .inbound h.processDone (log ++ []) peer := by
    intro hside hany
    obtain rfl : s = .client := hc.side.symm.trans hside
    obtain ⟨f, hf, hdone⟩ := List.any_eq_true.1 hany
    obtain ⟨e, _, hframes⟩ := hp
    have hcarried := hframes f hf
    rw [List.append_nil]
    cases f with
    | handshakeDone => exact hsound.processDone hc.record hcarried.2
    | _ => cases hdone
  cases c.shortStep h p with
  | setAside _ hstep =>
    rw [hstep]
    -- the packet moves from one queue to the other
    have hmoved : ConnectionSound s { c with deferred := c.deferred ++ [p] } log peer :=
      ⟨hc.side, hc.parser, hc.record, hc.phase, hc.buffered,
        List.forall_mem_append.2 ⟨hc.deferred, List.forall_mem_singleton.2 hp⟩⟩
    exact hmoved.callSound rfl
  | confirmed hside hany hdue hstep =>
    have hback : ConnectionSound s { c with buffered := p :: c.buffered } log peer :=
      ⟨hc.side, hc.parser, hc.record, hc.phase, List.forall_mem_cons.2 ⟨hp, hc.buffered⟩,
        hc.deferred⟩
    have hsettled := hback.settle (hdone hside hany)
    rw [Handshake.processDone, if_pos hdue, List.append_nil] at hsettled
    rw [hstep]
    exact hsettled
  | undue hside hany hdue hstep =>
    have hsettled := hc.settle (hdone hside hany)
    rw [Handshake.processDone, if_neg hdue, List.append_nil] at hsettled
    rw [hstep]
    exact hsettled
  | missing _ _ hstep =>
    rw [hstep]
    exact hc.callSound rfl

theorem ConnectionSound.handshakePacket {c : Connection Unit} (hc : ConnectionSound s c log peer)
    (hpeer : LogSound s.opposite peer log) (hsound : HandshakeSound s h log peer) {p : Packet}
    (hp : p.IsCarried s.opposite peer log) :
    CallSound s .inbound (c.handshakePacket h p).1 (c.handshakePacket h p).2
      (log ++ Connection.takenByPacket c.setup h p) peer := by
  have hshort := hc.handshakeShort hsound hp
  obtain ⟨e, he, hframes⟩ := hp
  cases p with
  | oneRtt q =>
    unfold Connection.takenByPacket
    dsimp only [Packet.type]
    rw [List.append_nil]
    exact hshort
  | initial q =>
    cases he
    exact hc.handshakeLong hpeer hsound hframes
  | handshake q =>
    cases he
    exact hc.handshakeLong hpeer hsound hframes
  | versionNegotiation q => cases he

theorem ConnectionSound.activePacket {c : Connection Unit} (hc : ConnectionSound s c log peer)
    {p : Packet} (hp : p.IsCarried s.opposite peer log) :
    CallSound s .inbound (c.activePacket p).1 (c.activePacket p).2 log peer := by
  obtain ⟨e, he, hframes⟩ := hp
  cases c.activeStep p with
  | failed _ hstep =>
    rw [hstep]
    exact hc.callSound rfl
  | closed _ hclosing _ => cases (not_any_isClosing hframes).symm.trans hclosing
  | answered hanswer _ hstep =>
    have hnothing := Connection.sentBy_activeFrames c.side (Connection.beforeClosing p.frames)
    rw [hanswer] at hnothing
    rw [hstep]
    refine hc.callSound ?_
    rw [Connection.sentBy_append, hnothing]
    rfl

theorem ConnectionSound.processInbound {c : Connection Unit} (hc : ConnectionSound s c log peer)
    (hpeer : LogSound s.opposite peer log) :
    CallSound s .inbound (c.processInbound.1.map (·.getD [])) c.processInbound.2
      (log ++ c.takenInbound) peer := by
  have hsound := hc.phase
  have hdequeue : ∀ p rest, c.buffered = p :: rest →
      p.IsCarried s.opposite peer log
        ∧ ConnectionSound s { c with buffered := rest } log peer := by
    intro p rest hqueue
    have hall := hc.buffered
    rw [hqueue] at hall
    obtain ⟨hp, hrest⟩ := List.forall_mem_cons.1 hall
    exact ⟨hp, hc.side, hc.parser, hc.record, hc.phase, hrest, hc.deferred⟩
  change CallSound s .inbound (c.call .process).1 (c.call .process).2 _ peer
  cases c.processStep with
  | refused hclosed hstep =>
    have hnothing : c.takenInbound = [] := by
      unfold Connection.takenInbound
      cases hphase : c.phase with
      | handshaking h =>
        rw [hphase] at hclosed
        cases hclosed
      | _ => rfl
    rw [hstep, hnothing, List.append_nil]
    exact hc.callSound rfl
  | nothing _ hqueue hstep =>
    have hnothing : c.takenInbound = [] := by
      unfold Connection.takenInbound
      rw [hqueue]
      cases c.phase <;> rfl
    rw [hstep, hnothing, List.append_nil]
    exact hc.callSound rfl
  | @handshake h p rest hphase hqueue hstep =>
    obtain ⟨hp, hrest⟩ := hdequeue p rest hqueue
    have htaken : c.takenInbound = Connection.takenByPacket c.setup h p := by
      simp [Connection.takenInbound, hphase, hqueue]
    rw [hphase] at hsound
    rw [hstep, htaken]
    exact hrest.handshakePacket hpeer hsound hp
  | @active p rest hphase hqueue hstep =>
    obtain ⟨hp, hrest⟩ := hdequeue p rest hqueue
    have hnothing : c.takenInbound = [] := by simp [Connection.takenInbound, hphase]
    rw [hstep, hnothing, List.append_nil]
    exact hrest.activePacket hp

end QuicTransport
