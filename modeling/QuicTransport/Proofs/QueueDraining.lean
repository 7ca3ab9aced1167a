import QuicTransport.Proofs.PacketQueue

set_option autoImplicit false

/-! # Draining the queue of inbound packets

An owner processes packets until none is left. Processing may put packets back, so the queue need
not get shorter: a client that finds HANDSHAKE_DONE puts the packet in front again, and a server
that completes the handshake comes back to all that it has set aside. Both happen on the way from
the handshake to the active connection, and from there no way leads back. A packet that waits during
the handshake therefore counts twice, one that was set aside counts once (`QueueState.potential`),
and every packet that is taken leaves less to do (`QueueState.Taken.potential_lt`).

The packets that are taken come in two rounds. The first is from the front of the queue as it was,
the second begins with the active connection and takes nothing twice
(`QueueState.Drained.rounds`). -/

namespace QuicTransport

namespace QueueState

/-! ## Taking a packet -/

/-- A call takes a packet from the front of the queue of an open connection. -/
inductive Taken (p : Packet) : QueueState → QueueState → Prop
  | processed (deferred rest : List Packet) :
    Taken p ⟨.handshaking, deferred, p :: rest⟩ ⟨.handshaking, deferred, rest⟩
  | setAside (deferred rest : List Packet) :
    Taken p ⟨.handshaking, deferred, p :: rest⟩ ⟨.handshaking, deferred ++ [p], rest⟩
  | completed (deferred rest : List Packet) :
    Taken p ⟨.handshaking, deferred, p :: rest⟩ ⟨.active, [], deferred ++ rest⟩
  | putBack (deferred rest : List Packet) :
    Taken p ⟨.handshaking, deferred, p :: rest⟩ ⟨.active, [], deferred ++ p :: rest⟩
  | active (deferred rest : List Packet) :
    Taken p ⟨.active, deferred, p :: rest⟩ ⟨.active, deferred, rest⟩
  | closed {stage : Stage} (hopen : stage = .handshaking ∨ stage = .active)
    (deferred rest : List Packet) :
    Taken p ⟨stage, deferred, p :: rest⟩ ⟨.receivedDisconnect, [], []⟩

/-- How many packets can still be taken. -/
def potential (q : QueueState) : Nat :=
  match q.stage with
  | .handshaking => 2 * q.buffered.length + q.deferred.length
  | .active => q.buffered.length
  | _ => 0

theorem potential_le (q : QueueState) :
    q.potential ≤ 2 * q.buffered.length + q.deferred.length := by
  unfold potential
  split <;> omega

theorem Taken.potential_lt {p : Packet} {q q' : QueueState} (h : Taken p q q') :
    q'.potential < q.potential := by
  cases h with
  | closed hopen deferred rest =>
    rcases hopen with rfl | rfl
    · simp only [potential, List.length_cons]
      omega
    · simp [potential]
  | _ => simp [potential] <;> omega

/-! ## Taking several packets -/

/-- Packets are taken one after the other, and nothing else happens. -/
inductive Drained : QueueState → List Packet → QueueState → Prop
  | nil (q : QueueState) : Drained q [] q
  | cons {q q' q'' : QueueState} {p : Packet} {packets : List Packet} (htaken : Taken p q q')
    (hmore : Drained q' packets q'') : Drained q (p :: packets) q''

theorem Drained.length_add_potential_le {q q' : QueueState} {packets : List Packet}
    (h : Drained q packets q') : packets.length + q'.potential ≤ q.potential := by
  induction h with
  | nil => simp
  | cons htaken _ ih =>
    have hlt := htaken.potential_lt
    rw [List.length_cons]
    omega

/-- What is taken comes in two rounds. The first goes through the queue, and the second through what
was set aside and the queue. Once the connection is active there is only one round. -/
theorem Drained.rounds {q q' : QueueState} {packets : List Packet} (h : Drained q packets q') :
    ∃ first second, packets = first ++ second ∧ first <+: q.buffered
      ∧ second.Sublist (q.deferred ++ q.buffered) ∧ (q.stage ≠ .handshaking → second = []) := by
  induction h with
  | nil q => exact ⟨[], [], by simp⟩
  | @cons q q' q'' p packets htaken hmore ih =>
    obtain ⟨first, second, rfl, hfirst, hsecond, hround⟩ := ih
    cases htaken with
    | processed deferred rest =>
      refine ⟨p :: first, second, rfl, by simpa using hfirst, ?_, fun h => absurd rfl h⟩
      exact hsecond.trans (List.Sublist.append_left (List.sublist_cons_self p rest) deferred)
    | setAside deferred rest =>
      refine ⟨p :: first, second, rfl, by simpa using hfirst, ?_, fun h => absurd rfl h⟩
      simpa using hsecond
    | completed deferred rest =>
      -- the second round begins here
      obtain rfl := hround (by simp)
      refine ⟨[p], first, by simp, by simp, ?_, fun h => absurd rfl h⟩
      exact hfirst.sublist.trans (List.Sublist.append_left (List.sublist_cons_self p rest) deferred)
    | putBack deferred rest =>
      obtain rfl := hround (by simp)
      exact ⟨[p], first, by simp, by simp, hfirst.sublist, fun h => absurd rfl h⟩
    | active deferred rest =>
      obtain rfl := hround (by simp)
      exact ⟨p :: first, [], by simp, by simpa using hfirst, by simp, fun _ => rfl⟩
    | closed hopen deferred rest =>
      obtain rfl := hround (by simp)
      obtain rfl := List.prefix_nil.1 hfirst
      exact ⟨[p], [], by simp, by simp, by simp, fun _ => rfl⟩

end QueueState

/-! ## One call -/

namespace Connection

open QueueState (Taken Drained)

variable {Memory : Type} {c : Connection Memory}

theorem taken_settle {p : Packet} {rest : List Packet} (hstage : c.phase.stage = .handshaking)
    (hqueue : c.buffered = p :: rest) (o : Outcome (Handshake Memory) (List Directive)) :
    Taken p c.queueState (settle { c with buffered := rest } o).2.queueState := by
  rw [queueState_of_stage hstage, hqueue]
  cases settleStep { c with buffered := rest } o with
  | failed _ hstep | stayed _ _ hstep =>
    rw [hstep]
    exact .processed _ _
  | completed _ _ hstep =>
    rw [hstep]
    exact .completed _ _

theorem taken_handshakeLong {p : Packet} {rest : List Packet}
    (hstage : c.phase.stage = .handshaking) (hqueue : c.buffered = p :: rest) (h : Handshake Memory)
    (epoch : Epoch) (frames : List Frame) :
    Taken p c.queueState
      (handshakeLong { c with buffered := rest } h epoch frames).2.queueState := by
  cases longStep { c with buffered := rest } h epoch frames with
  | closed _ _ hstep =>
    rw [hstep, queueState_of_stage hstage, hqueue]
    exact .closed (Or.inl rfl) _ _
  | settled _ hstep =>
    rw [hstep]
    exact taken_settle hstage hqueue _

theorem taken_handshakeShort {p : Packet} {rest : List Packet}
    (hstage : c.phase.stage = .handshaking) (hqueue : c.buffered = p :: rest)
    (h : Handshake Memory) :
    Taken p c.queueState (handshakeShort { c with buffered := rest } h p).2.queueState := by
  have hleft : queueState { c with buffered := rest } = ⟨.handshaking, c.deferred, rest⟩ :=
    queueState_of_stage hstage
  rw [queueState_of_stage hstage, hqueue]
  cases shortStep { c with buffered := rest } h p with
  | setAside _ hstep =>
    have hmoved : queueState { c with buffered := rest, deferred := c.deferred ++ [p] } =
        ⟨.handshaking, c.deferred ++ [p], rest⟩ := queueState_of_stage hstage
    rw [hstep, hmoved]
    exact .setAside _ _
  | confirmed _ _ _ hstep =>
    rw [hstep]
    exact .putBack _ _
  | undue _ _ _ hstep =>
    rw [hstep]
    exact .processed _ _
  | missing _ _ hstep =>
    rw [hstep, hleft]
    exact .processed _ _

theorem taken_handshakePacket {p : Packet} {rest : List Packet}
    (hstage : c.phase.stage = .handshaking) (hqueue : c.buffered = p :: rest)
    (h : Handshake Memory) :
    Taken p c.queueState (handshakePacket { c with buffered := rest } h p).2.queueState := by
  cases p with
  | initial q => exact taken_handshakeLong hstage hqueue h .initial q.frames
  | handshake q => exact taken_handshakeLong hstage hqueue h .handshake q.frames
  | oneRtt q => exact taken_handshakeShort hstage hqueue h
  | versionNegotiation q =>
    have hleft : queueState { c with buffered := rest } = ⟨.handshaking, c.deferred, rest⟩ :=
      queueState_of_stage hstage
    have hpacket : (handshakePacket { c with buffered := rest } h (.versionNegotiation q)).2
        = { c with buffered := rest } := rfl
    rw [queueState_of_stage hstage, hqueue, hpacket, hleft]
    exact .processed _ _

theorem taken_activePacket {p : Packet} {rest : List Packet} (hstage : c.phase.stage = .active)
    (hqueue : c.buffered = p :: rest) :
    Taken p c.queueState (activePacket { c with buffered := rest } p).2.queueState := by
  have hleft : queueState { c with buffered := rest } = ⟨.active, c.deferred, rest⟩ :=
    queueState_of_stage hstage
  rw [queueState_of_stage hstage, hqueue]
  cases activeStep { c with buffered := rest } p with
  | failed _ hstep | answered _ _ hstep =>
    rw [hstep, hleft]
    exact .active _ _
  | closed _ _ hstep =>
    rw [hstep]
    exact .closed (Or.inr rfl) _ _

/-- The packet that the next call takes from the queue. -/
def nextPacket? (c : Connection Memory) : Option Packet :=
  if c.phase.isOpen then c.buffered.head? else none

/-- A call takes the packet in front, or it has nothing to process and leaves everything as it
was. -/
inductive DrainStep (c : Connection Memory) : Prop
  | taken {p : Packet} (hnext : c.nextPacket? = some p)
    (htaken : Taken p c.queueState c.processInbound.2.queueState)
    (hanswer : c.processInbound.1 ≠ .ok none) : DrainStep c
  | empty (hnext : c.nextPacket? = none) (hqueue : c.buffered = [])
    (hstep : c.processInbound = (.ok none, c)) : DrainStep c
  | refused {e : Error} (hnext : c.nextPacket? = none) (hstep : c.processInbound = (.error e, c)) :
    DrainStep c

theorem map_some_ne_ok_none (answer : Result (List Directive)) : answer.map some ≠ .ok none := by
  cases answer <;> simp [Except.map]

theorem drainStep (c : Connection Memory) : DrainStep c := by
  cases hopen : c.phase.isOpen with
  | false => exact .refused (by simp [nextPacket?, hopen]) (by simp [processInbound, hopen]; rfl)
  | true =>
    cases hqueue : c.buffered with
    | nil =>
      have hnext : c.nextPacket? = none := by simp [nextPacket?, hqueue]
      exact .empty hnext hqueue (by simp [processInbound, hopen, hqueue])
    | cons p rest =>
      have hnext : c.nextPacket? = some p := by simp [nextPacket?, hopen, hqueue]
      rcases Phase.handshaking_or_active_of_isOpen hopen with ⟨h, hphase⟩ | hphase
      · have hstage : c.phase.stage = .handshaking := congrArg Phase.stage hphase
        refine .taken hnext ?_ ?_
        · rw [processInbound_of_handshaking hphase hqueue]
          exact taken_handshakePacket hstage hqueue h
        · rw [processInbound_of_handshaking hphase hqueue]
          exact map_some_ne_ok_none _
      · have hstage : c.phase.stage = .active := congrArg Phase.stage hphase
        refine .taken hnext ?_ ?_
        · rw [processInbound_of_active hphase hqueue]
          exact taken_activePacket hstage hqueue
        · rw [processInbound_of_active hphase hqueue]
          exact map_some_ne_ok_none _

/-! ## Many calls -/

/-- The connection after `n` calls that process what is in the queue, and nothing else. -/
def drained (c : Connection Memory) : Nat → Connection Memory
  | 0 => c
  | n + 1 => c.processInbound.2.drained n

theorem drained_eq_run (c : Connection Memory) (n : Nat) :
    c.drained n = c.run (List.replicate n .process) := by
  induction n generalizing c with
  | zero => rfl
  | succ n ih =>
    rw [drained, ih, List.replicate_succ]
    rfl

/-- What these calls answer. -/
def drainAnswers (c : Connection Memory) : Nat → List (Result (Option (List Directive)))
  | 0 => []
  | n + 1 => c.processInbound.1 :: c.processInbound.2.drainAnswers n

/-- The packets that they take from the queue. -/
def drainPackets (c : Connection Memory) : Nat → List Packet
  | 0 => []
  | n + 1 => c.nextPacket?.toList ++ c.processInbound.2.drainPackets n

/-- Whether an answer is about a packet that was processed. -/
def isProcessed : Result (Option (List Directive)) → Bool
  | .ok (some _) => true
  | _ => false

/-- Draining takes packets, and calls that take none change nothing. -/
theorem drained_queueState (c : Connection Memory) (n : Nat) :
    Drained c.queueState (c.drainPackets n) (c.drained n).queueState := by
  induction n generalizing c with
  | zero => exact .nil _
  | succ n ih =>
    rw [drainPackets, drained]
    cases c.drainStep with
    | taken hnext htaken _ =>
      rw [hnext]
      exact .cons htaken (ih _)
    | empty hnext _ hstep | refused hnext hstep =>
      rw [hnext, hstep]
      exact ih c

/-- Each answer about a packet has taken one. -/
theorem countP_drainAnswers_le (c : Connection Memory) (n : Nat) :
    (c.drainAnswers n).countP isProcessed ≤ (c.drainPackets n).length := by
  induction n generalizing c with
  | zero => simp [drainAnswers, drainPackets]
  | succ n ih =>
    rw [drainAnswers, drainPackets, List.countP_cons, List.length_append]
    cases c.drainStep with
    | taken hnext _ _ =>
      have hmore := ih c.processInbound.2
      rw [hnext]
      by_cases hanswer : isProcessed c.processInbound.1 = true <;> simp [hanswer] <;> omega
    | empty hnext _ hstep | refused hnext hstep =>
      rw [hnext, hstep]
      simpa [isProcessed] using ih c

/-- After at most as many packets as can be taken a call finds the queue empty or fails. -/
theorem exists_drain_stop (c : Connection Memory) :
    ∃ m ≤ c.queueState.potential, (∀ answer ∈ c.drainAnswers m, isProcessed answer = true)
      ∧ ((c.drained m).processInbound = (.ok none, c.drained m) ∧ (c.drained m).buffered = []
        ∨ ∃ e, (c.drained m).processInbound.1 = .error e) := by
  induction hpotential : c.queueState.potential using Nat.strong_induction_on generalizing c with
  | _ bound ih =>
    cases c.drainStep with
    | empty _ hqueue hstep =>
      exact ⟨0, Nat.zero_le _, by simp [drainAnswers], Or.inl ⟨hstep, hqueue⟩⟩
    | @refused e _ hstep =>
      exact ⟨0, Nat.zero_le _, by simp [drainAnswers], Or.inr ⟨e, by rw [drained, hstep]⟩⟩
    | taken _ htaken hanswer =>
      cases hresult : c.processInbound.1 with
      | error e => exact ⟨0, Nat.zero_le _, by simp [drainAnswers], Or.inr ⟨e, hresult⟩⟩
      | ok result =>
        have hprocessed : isProcessed c.processInbound.1 = true := by
          rw [hresult]
          cases result with
          | none => exact absurd hresult hanswer
          | some directives => rfl
        have hlt := htaken.potential_lt
        obtain ⟨m, hm, hall, hstop⟩ := ih _ (hpotential ▸ hlt) c.processInbound.2 rfl
        exact ⟨m + 1, by omega, by simpa [drainAnswers, hprocessed] using hall, hstop⟩

/-- Draining ends. A packet that waits is processed at most twice and one that was set aside at most
once, however many calls are made, and before there are more of them the queue is empty, a call
fails, or the connection is closed and the next call fails for that. -/
theorem draining_ends (c : Connection Memory) :
    let most := 2 * c.buffered.length + c.deferred.length
    (∃ m ≤ most, (∀ answer ∈ c.drainAnswers m, ∃ directives, answer = .ok (some directives))
        ∧ ((c.drained m).processInbound = (.ok none, c.drained m) ∧ (c.drained m).buffered = []
          ∨ ∃ e, (c.drained m).processInbound.1 = .error e))
      ∧ ∀ n, (c.drainAnswers n).countP isProcessed ≤ most
        ∧ (∃ first second, c.drainPackets n = first ++ second ∧ first <+: c.buffered
          ∧ second.Sublist (c.deferred ++ c.buffered))
        ∧ ∀ p, (c.drainPackets n).count p ≤ 2 * c.buffered.count p + c.deferred.count p := by
  intro most
  have hmost : c.queueState.potential ≤ most := c.queueState.potential_le
  refine ⟨?_, ?_⟩
  · obtain ⟨m, hm, hall, hstop⟩ := c.exists_drain_stop
    refine ⟨m, hm.trans hmost, ?_, hstop⟩
    intro answer hanswer
    have hprocessed := hall answer hanswer
    unfold isProcessed at hprocessed
    split at hprocessed
    · exact ⟨_, rfl⟩
    · cases hprocessed
  · intro n
    have hdrained := c.drained_queueState n
    obtain ⟨first, second, hpackets, hfirst, hsecond, _⟩ := hdrained.rounds
    refine ⟨?_, ⟨first, second, hpackets, hfirst, hsecond⟩, ?_⟩
    · have hanswers := c.countP_drainAnswers_le n
      have hlength := hdrained.length_add_potential_le
      omega
    · intro p
      have honce : first.count p ≤ c.buffered.count p := hfirst.sublist.count_le p
      have hagain : second.count p ≤ (c.deferred ++ c.buffered).count p := hsecond.count_le p
      rw [List.count_append] at hagain
      rw [hpackets, List.count_append]
      omega

end Connection

end QuicTransport
