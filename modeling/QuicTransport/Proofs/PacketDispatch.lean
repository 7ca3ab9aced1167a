import QuicTransport.Proofs.PacketQueue

set_option autoImplicit false

/-! # Packets are processed once and in order

A packet that was put into the queue is still there, or its frames have been processed. What that
means is read off what the frames bring about: the handshake is asked for what is in the packets
that it gets (`Connection.asks_of_call`), and the layer above gets what is in the packets of an
active connection (`Connection.forwarded_of_call`). Together with the walk of the queues this is the
whole way of a packet (`Connection.queue_of_calls`). -/

namespace QuicTransport

/-- Whether the call comes from an inbound frame. -/
def HandshakeCall.isInbound : HandshakeCall → Bool
  | .crypto d _ _ _ => d == .inbound
  | .done => true

namespace Connection

variable {Memory : Type}

/-! ## Effects of packets -/

/-- What a packet asks of the handshake. -/
def asksOf (setup : HandshakeSetup Memory) : Dispatcher × Packet → List HandshakeCall
  | (.handshake, p) =>
    match p.epoch? with
    | some epoch => p.frames.flatMap (frameCalls setup epoch)
    | none => []
  | (.confirmation, _) => [.done]
  | (.active, _) => []

/-- What a packet has for the layer above. -/
def forwardsOf : Dispatcher × Packet → List Frame
  | (.active, p) => p.frames.filter isForwarded
  | _ => []

/-- What a call answers because of an inbound packet. -/
def answeredBy (c : Connection Memory) : ConnectionCall → List Directive
  | .process =>
    match (c.call .process).1 with
    | .ok directives => directives
    | .error _ => []
  | _ => []

/-- What several calls answer because of inbound packets. -/
def answered (c : Connection Memory) : List ConnectionCall → List Directive
  | [] => []
  | x :: calls => c.answeredBy x ++ (c.call x).2.answered calls

theorem filter_isInbound_frameCalls (setup : HandshakeSetup Memory) (epoch : Epoch) (f : Frame) :
    (frameCalls setup epoch f).filter HandshakeCall.isInbound = frameCalls setup epoch f := by
  cases f with
  | crypto offset data => rfl
  | handshakeDone =>
    unfold frameCalls
    cases setup.side <;> rfl
  | _ => rfl

theorem filter_isInbound_asksOf (setup : HandshakeSetup Memory) (x : Dispatcher × Packet) :
    (asksOf setup x).filter HandshakeCall.isInbound = asksOf setup x := by
  obtain ⟨d, p⟩ := x
  cases d with
  | handshake =>
    rw [asksOf]
    cases p.epoch? with
    | none => rfl
    | some epoch => simp [List.filter_flatMap, filter_isInbound_frameCalls]
  | confirmation | active => rfl

/-- Frames that do not fail ask all that they have to ask. -/
theorem framesCalls_of_ok {setup : HandshakeSetup Memory} {epoch : Epoch} {frames : List Frame}
    {h h' : Handshake Memory} {directives : List Directive}
    (hok : handshakeFrames setup epoch frames h = (.ok directives, h')) :
    framesCalls setup epoch frames h = frames.flatMap (frameCalls setup epoch) := by
  induction frames generalizing h directives with
  | nil => rfl
  | cons f fs ih =>
    obtain ⟨front, middle, back, hfront, hback, rfl⟩ := Outcome.andThen_eq_ok.1 hok
    rw [framesCalls, List.flatMap_cons, hfront]
    exact congrArg (frameCalls setup epoch f ++ ·) (ih hback)

/-- A packet that leaves the connection open is processed to its end. -/
theorem framesCalls_of_handshakeLong {c c' : Connection Memory} {h : Handshake Memory}
    {epoch : Epoch} {frames : List Frame} {directives : List Directive}
    (hok : c.handshakeLong h epoch frames = (.ok directives, c'))
    (hopen : c'.phase.isClosed = false) :
    framesCalls c.setup epoch (beforeClosing frames) h =
      frames.flatMap (frameCalls c.setup epoch) := by
  cases c.longStep h epoch frames with
  | closed _ _ hstep =>
    cases hstep.symm.trans hok
    cases hopen
  | settled hstops hstep =>
    rw [hstep] at hok
    rcases hframes : handshakeFrames c.setup epoch (beforeClosing frames) h with ⟨answer, h'⟩
    rw [hframes] at hok
    cases answer with
    | error e => cases hok
    | ok sent =>
      have hany : frames.any isClosing = false := by
        by_contra hclosing
        obtain ⟨e, h'', herror⟩ := hstops (Bool.not_eq_false _ ▸ hclosing)
        cases hframes.symm.trans herror
      rw [framesCalls_of_ok hframes, beforeClosing_of_any_eq_false hany]

section Calls

variable {c c' : Connection Memory} {directives : List Directive}

theorem packetCalls_of_ok {h : Handshake Memory} (hphase : c.phase = .handshaking h) {p : Packet}
    {rest : List Packet} (hqueue : c.buffered = p :: rest)
    (hok : handshakePacket { c with buffered := rest } h p = (.ok directives, c'))
    (hopen : c'.phase.isClosed = false) :
    packetCalls c.setup h p = (c.passage .process).dispatched.flatMap (asksOf c.setup) := by
  have hlong : p.isLong = true → (c.passage .process).dispatched.flatMap (asksOf c.setup) =
      asksOf c.setup (.handshake, p) := by
    intro hp
    simp [passage, hphase, hqueue, hp]
  cases p with
  | versionNegotiation q => cases hok
  | oneRtt q =>
    have hshort : handshakeShort { c with buffered := rest } h (.oneRtt q) = (.ok directives, c') :=
      hok
    unfold packetCalls passage
    rw [hphase, hqueue]
    cases shortStep { c with buffered := rest } h (.oneRtt q) with
    | setAside hside _ =>
      have hserver : c.setup.side = .server := hside
      simp [Packet.type, Packet.isLong, PacketType.isLong, side, hserver]
    | confirmed hside hdone _ _ =>
      have hclient : c.setup.side = .client := hside
      simp [Packet.type, Packet.isLong, PacketType.isLong, side, hclient, hdone, asksOf]
    | undue _ _ _ hstep | missing _ _ hstep => cases hstep.symm.trans hshort
  | initial q =>
    rw [hlong rfl]
    exact framesCalls_of_handshakeLong (c := { c with buffered := rest }) hok hopen
  | handshake q =>
    rw [hlong rfl]
    exact framesCalls_of_handshakeLong (c := { c with buffered := rest }) hok hopen

/-- The handshake is asked for what is in the packets that it gets. -/
theorem asks_of_call {x : ConnectionCall} (hok : c.call x = (.ok directives, c'))
    (hopen : c'.phase.isClosed = false) :
    (c.asks x).filter HandshakeCall.isInbound =
      (c.passage x).dispatched.flatMap (asksOf c.setup) := by
  cases x with
  | begin | disconnect =>
    unfold asks
    cases c.phase <;> rfl
  | buffer p =>
    have hnone : (c.passage (.buffer p)).dispatched = [] := by
      rw [passage]
      split <;> rfl
    rw [hnone]
    unfold asks
    cases c.phase <;> rfl
  | outbound f epoch =>
    have hnone : ∀ h, (c.asked h (.outbound f epoch)).filter HandshakeCall.isInbound = [] := by
      intro h
      cases f <;> rfl
    unfold asks
    cases c.phase with
    | handshaking h => exact hnone h
    | _ => rfl
  | process =>
    cases c.processStep with
    | refused _ hstep => cases hstep.symm.trans hok
    | nothing _ hqueue _ =>
      unfold asks asked passage
      rw [hqueue]
      cases c.phase <;> rfl
    | @handshake h p rest hphase hqueue hstep =>
      have hcalls := packetCalls_of_ok hphase hqueue (hstep.symm.trans hok) hopen
      have hasked : c.asks .process = packetCalls c.setup h p := by
        simp [asks, asked, hphase, hqueue]
      simp [hasked, hcalls, List.filter_flatMap, filter_isInbound_asksOf]
    | active hphase hqueue _ => simp [asks, passage, hphase, hqueue, asksOf]

/-- Before the connection is active, nothing goes to the layer above. -/
theorem forwarded_of_handshakePacket {h : Handshake Memory} (hphase : c.phase = .handshaking h)
    {p : Packet} (hok : c.handshakePacket h p = (.ok directives, c')) :
    forwarded directives = [] := by
  cases p with
  | versionNegotiation q => cases hok
  | initial q | handshake q | oneRtt q => exact (handshakeLets hphase rfl hok).forwards

/-- A packet that leaves the connection open is passed on to its end. -/
theorem forwarded_of_activePacket {p : Packet} (hok : c.activePacket p = (.ok directives, c'))
    (hopen : c'.phase.isClosed = false) : forwarded directives = p.frames.filter isForwarded := by
  cases c.activeStep p with
  | failed _ hstep => cases hstep.symm.trans hok
  | closed _ _ hstep =>
    cases hstep.symm.trans hok
    cases hopen
  | answered _ hany _ => rw [(activeLets hok).forwards, beforeClosing_of_any_eq_false hany]

theorem forwarded_of_process (hok : c.call .process = (.ok directives, c'))
    (hopen : c'.phase.isClosed = false) :
    forwarded directives = (c.passage .process).dispatched.flatMap forwardsOf := by
  cases c.processStep with
  | refused _ hstep => cases hstep.symm.trans hok
  | nothing _ hqueue hstep =>
    have hnothing : (c.passage .process).dispatched = [] := by
      rw [passage, hqueue]
      cases c.phase <;> rfl
    cases hstep.symm.trans hok
    rw [hnothing]
    rfl
  | @handshake h p rest hphase hqueue hstep =>
    rw [forwarded_of_handshakePacket (c := { c with buffered := rest }) hphase
      (hstep.symm.trans hok)]
    cases hlong : p.isLong <;> cases hside : c.side <;>
      simp [passage, hphase, hqueue, hlong, hside, forwardsOf]
  | @active p rest hphase hqueue hstep =>
    rw [forwarded_of_activePacket (c := { c with buffered := rest }) (hstep.symm.trans hok) hopen]
    simp [passage, hphase, hqueue, forwardsOf]

/-- The layer above gets what is in the packets of an active connection. -/
theorem forwarded_of_call {x : ConnectionCall} (hok : c.call x = (.ok directives, c'))
    (hopen : c'.phase.isClosed = false) :
    forwarded (c.answeredBy x) = (c.passage x).dispatched.flatMap forwardsOf := by
  cases x with
  | process =>
    rw [answeredBy, hok]
    exact forwarded_of_process hok hopen
  | buffer p =>
    have hnone : (c.passage (.buffer p)).dispatched = [] := by
      rw [passage]
      split <;> rfl
    rw [hnone]
    rfl
  | begin | outbound _ _ | disconnect => rfl

end Calls

/-! ## Runs -/

section Runs

variable {c : Connection Memory} {calls : List ConnectionCall}

/-- Over a run without failures, the handshake is asked for what is in the packets that it gets. -/
theorem asks_of_run (hok : ∀ entry ∈ c.journal calls, entry.answer.isOk = true)
    (hopen : (c.run calls).phase.isClosed = false) :
    (c.asksAll calls).filter HandshakeCall.isInbound =
      (c.passages calls).dispatched.flatMap (asksOf c.setup) := by
  induction calls generalizing c with
  | nil => rfl
  | cons x calls ih =>
    obtain ⟨hnow, hlater⟩ := List.forall_mem_cons.1 hok
    obtain ⟨directives, hanswer⟩ := Result.exists_of_isOk hnow
    have hfirst := asks_of_call (Prod.ext hanswer rfl) (isClosed_eq_false_of_run hopen)
    have hrest := ih hlater hopen
    rw [setup_call] at hrest
    rw [asksAll, passages, List.filter_append, hfirst, hrest, Passage.dispatched_append,
      List.flatMap_append]

/-- And the layer above gets what is in the packets of the active connection. -/
theorem forwarded_of_run (hok : ∀ entry ∈ c.journal calls, entry.answer.isOk = true)
    (hopen : (c.run calls).phase.isClosed = false) :
    forwarded (c.answered calls) = (c.passages calls).dispatched.flatMap forwardsOf := by
  induction calls generalizing c with
  | nil => rfl
  | cons x calls ih =>
    obtain ⟨hnow, hlater⟩ := List.forall_mem_cons.1 hok
    obtain ⟨directives, hanswer⟩ := Result.exists_of_isOk hnow
    have hfirst := forwarded_of_call (Prod.ext hanswer rfl) (isClosed_eq_false_of_run hopen)
    rw [answered, passages, forwarded_append, hfirst, ih hlater hopen, Passage.dispatched_append,
      List.flatMap_append]

end Runs

/-- The way of the packets through a connection, over all calls. The queues keep within the limit. A
packet is set aside only by a server in its handshake and only if it is a 1-RTT packet, and what is
set aside was accepted before all that waits. An open connection refuses a packet exactly if it has
as many as it may, and is then as it was.

As long as no call fails and the connection is not closed, the accepted packets of each kind are
those that were processed, in this order, followed by those that are still there. The handshake gets
packets with a long header only. A client looks for HANDSHAKE_DONE once, in the first 1-RTT packet,
and that does not count as processing. What is processed has its effect on the handshake or on the
layer above, once and in this order. -/
theorem queue_of_calls {setup : HandshakeSetup Memory} {start : Connection Memory}
    (hstart : ofSetup setup = .ok start) (calls : List ConnectionCall) :
    let c := start.run calls
    let m := start.passages calls
    let present := c.deferred ++ c.buffered
    c.waiting ≤ setup.config.maxBufferedPackets
      ∧ (c.deferred ≠ [] → setup.side = .server ∧ c.phase.stage = .handshaking)
      ∧ (∀ p ∈ c.deferred, p.isLong = false)
      ∧ (c.phase.stage = .handshaking → ∃ early, m.accepted = early ++ c.buffered
        ∧ c.deferred = if setup.side = .server then early.filter (fun p => !p.isLong) else [])
      ∧ (∀ p c', c.bufferPacket p = (.ok false, c') ↔
        c.phase.isOpen = true ∧ c.waiting = setup.config.maxBufferedPackets ∧ c' = c)
      ∧ ((∀ entry ∈ start.journal calls, entry.answer.isOk = true) →
        c.phase.isClosed = false →
        (∀ long, QueueState.ofKind long m.accepted =
            QueueState.ofKind long m.processed ++ QueueState.ofKind long present)
          ∧ m.accepted.Perm (m.processed ++ present)
          ∧ (∀ p, (.handshake, p) ∈ m.dispatched → p.isLong = true)
          ∧ m.confirmations.length ≤ 1
          ∧ m.confirmations <+: QueueState.ofKind false m.accepted
          ∧ (∀ p ∈ m.confirmations,
            setup.side = .client ∧ p.frames.any Frame.isHandshakeDone = true)
          ∧ (start.asksAll calls).filter HandshakeCall.isInbound =
            m.dispatched.flatMap (asksOf setup)
          ∧ forwarded (start.answered calls) = m.dispatched.flatMap forwardsOf) := by
  intro c m present
  obtain rfl := eq_of_ofSetup hstart
  have hkept := (QueueState.kept_start setup.side setup.config.maxBufferedPackets).walk
    (walk_run true { setup } calls fun _ _ _ => rfl)
  rw [Passage.empty_append] at hkept
  have hbounded : c.waiting ≤ setup.config.maxBufferedPackets := by
    have hlength := hkept.bounded
    rwa [QueueState.all, List.length_append, Nat.add_comm] at hlength
  have hsetup : c.setup = setup := ((embedded_start setup).run calls).keeps
  refine ⟨hbounded, fun hdeferred => ?_, hkept.isLong_eq_false, fun hstage => ?_,
    fun p c' => ?_, fun hok hopen => ?_⟩
  · have hstage : c.phase.stage = .handshaking := by
      by_contra hother
      exact hdeferred (hkept.late hother)
    refine ⟨?_, hstage⟩
    by_contra hclient
    obtain ⟨early, _, hearly⟩ := hkept.early (congrArg Stage.isEarly hstage)
    rw [if_neg hclient] at hearly
    exact hdeferred hearly
  · exact hkept.early (congrArg Stage.isEarly hstage)
  · rw [bufferPacket_full_iff, hsetup]
    have hfull : setup.config.maxBufferedPackets ≤ c.waiting
        ↔ c.waiting = setup.config.maxBufferedPackets :=
      ⟨fun h => Nat.le_antisymm hbounded h, fun h => Nat.le_of_eq h.symm⟩
    rw [hfull]
  · have hwalk := walk_run false { setup } calls fun entry hentry hfailed => by
      cases (hok entry hentry).symm.trans hfailed
    have hbalanced := (QueueState.balanced_start setup.side).walk
      (QueueState.kept_start setup.side setup.config.maxBufferedPackets) hwalk
    rw [Passage.empty_append] at hbalanced
    have horder := hbalanced.order (c.phase.isClosed_stage.trans hopen)
    obtain ⟨hlength, hprefix, hclient⟩ := hbalanced.confirmed
    exact ⟨horder, QueueState.perm_of_ofKind horder, hbalanced.handshake, hlength, hprefix, hclient,
      asks_of_run hok hopen, forwarded_of_run hok hopen⟩

/-- Two 1-RTT packets overtake the client's Finished. A server sets both aside, and comes back to
them in their order once it is active. -/
theorem queue_of_calls_overtaken :
    let data (offset : Nat) : Packet :=
      Conversation.bearer (.stream ⟨0, offset, false, true, false, [1, 2, 3]⟩) .application
    let hello := Conversation.bearer (.crypto 0 (Message.frame .clientHello [])) .initial
    let finished := Conversation.bearer (.crypto 0 (Message.frame .finished [])) .handshake
    let calls : List ConnectionCall :=
      serverFlight ++ [.buffer (data 0), .process, .buffer (data 3), .buffer finished, .process,
        .process, .process]
    let c := plainServer.run calls
    let m := plainServer.passages calls
    c.phase.isActive = true ∧ c.buffered = [data 3] ∧ m.accepted = [hello, data 0, data 3, finished]
      ∧ QueueState.ofKind false m.accepted =
        QueueState.ofKind false m.processed ++ QueueState.ofKind false [data 3]
      ∧ m.accepted.Perm (m.processed ++ [data 3])
      ∧ forwarded (plainServer.answered calls) = (data 0).frames := by
  intro data hello finished calls c m
  have hok : (plainServer.journal calls).all (fun entry => entry.answer.isOk) = true := by
    decide +kernel
  have hopen : c.phase.isClosed = false := by decide +kernel
  have hleft : c.deferred ++ c.buffered = [data 3] := by decide +kernel
  have hdispatched :
      m.dispatched = [(.handshake, hello), (.handshake, finished), (.active, data 0)] := by
    decide +kernel
  have hstart : ofSetup plainServer.setup = .ok plainServer := rfl
  obtain ⟨_, _, _, _, _, hbalanced⟩ := queue_of_calls hstart calls
  obtain ⟨horder, hperm, _, _, _, _, _, hforwarded⟩ := hbalanced (List.all_eq_true.1 hok) hopen
  rw [hleft] at horder hperm
  refine ⟨by decide +kernel, by decide +kernel, by decide +kernel, horder false, hperm, ?_⟩
  rw [hforwarded, hdispatched]
  rfl

end Connection

end QuicTransport
