import QuicTransport.Proofs.DirectiveSources
import QuicTransport.Proofs.LostSteps

set_option autoImplicit false

/-! # The life of a connection

A connection is idle, handshaking, active and closed, in this order, and may be closed from each of
the other stages. The two directives that go with a change of stage are given exactly when the stage
changes: `installStreamMuxer` when the handshake is complete, and `disconnect` when the connection
is closed. Both come last.

What a call can do is said once (`LifeStep`): it is refused, it fails on the way, it leaves the
stage as it is, or it makes one of three changes. All that is known about a single call follows from
that, and what is known about a run follows by induction over its calls. -/

namespace QuicTransport

/-! ## Stages -/

/-- The stage of a connection, without the handshake that may be under way. -/
inductive Stage where
  | idle
  | handshaking
  | active
  | sentDisconnect
  | receivedDisconnect
deriving DecidableEq, Repr

namespace Stage

/-- Whether the connection is closed. -/
def isClosed : Stage → Bool
  | .sentDisconnect => true
  | .receivedDisconnect => true
  | _ => false

/-- Whether the connection has still to become active. -/
def isEarly : Stage → Bool
  | .idle => true
  | .handshaking => true
  | _ => false

/-- The stages that may come next. A peer that nothing has been heard of cannot close the
connection. -/
def next : Stage → List Stage
  | .idle => [.handshaking, .sentDisconnect]
  | .handshaking => [.active, .sentDisconnect, .receivedDisconnect]
  | .active => [.sentDisconnect, .receivedDisconnect]
  | .sentDisconnect => []
  | .receivedDisconnect => []

end Stage

namespace Phase

variable {Memory : Type}

def stage : Phase Memory → Stage
  | .idle => .idle
  | .handshaking _ => .handshaking
  | .active => .active
  | .sentDisconnect => .sentDisconnect
  | .receivedDisconnect => .receivedDisconnect

theorem isClosed_stage (phase : Phase Memory) : phase.stage.isClosed = phase.isClosed := by
  cases phase <;> rfl

/-- This endpoint can always close a connection. -/
theorem sentDisconnect_mem_next {phase : Phase Memory} (h : phase.isClosed = false) :
    .sentDisconnect ∈ phase.stage.next := by
  cases phase with
  | sentDisconnect | receivedDisconnect => cases h
  | _ => simp [stage, Stage.next]

theorem isOpen_eq_true_iff {phase : Phase Memory} :
    phase.isOpen = true ↔ phase.stage = .handshaking ∨ phase.stage = .active := by
  cases phase <;> simp [isOpen, stage]

end Phase

/-! ## Directives -/

namespace Directive

/-- Whether the directive goes with a change of stage. -/
def marksStage : Directive → Bool
  | .installStreamMuxer => true
  | .disconnect => true
  | _ => false

/-- Whether the directive passes on what only an active connection gets: data of a stream, or a
token. -/
def forwardsData : Directive → Bool
  | .forwardFrame (.stream _) => true
  | .forwardFrame (.newToken _) => true
  | _ => false

end Directive

/-- The directives are such as may be given at any time of a stage. -/
def Stage.Permits (s : Stage) (directives : List Directive) : Prop :=
  ∀ d ∈ directives, d.marksStage = false ∧ (d.forwardsData = true → s = .active)

namespace Stage

variable {s : Stage}

theorem permits_nil : s.Permits [] := nofun

theorem permits_singleton {d : Directive} (hmarks : d.marksStage = false)
    (hforwards : d.forwardsData = true → s = .active) : s.Permits [d] := by
  intro d' hd
  rw [List.mem_singleton.1 hd]
  exact ⟨hmarks, hforwards⟩

theorem permits_emit (e : Epoch) (frames : List Frame) : s.Permits [.emit e frames] :=
  permits_singleton rfl nofun

theorem permits_append {front back : List Directive} :
    s.Permits (front ++ back) ↔ s.Permits front ∧ s.Permits back :=
  List.forall_mem_append

theorem Permits.notMem {directives : List Directive} (h : s.Permits directives) {d : Directive}
    (hd : d.marksStage = true) : d ∉ directives := by
  intro hmem
  rw [(h d hmem).1] at hd
  cases hd

/-- A change of stage is marked by what comes last, and by nothing else. -/
theorem Permits.mem_concat_iff {directives : List Directive} (h : s.Permits directives)
    {d last : Directive} (hd : d.marksStage = true) : d ∈ directives ++ [last] ↔ d = last := by
  rw [List.mem_append, List.mem_singleton]
  exact or_iff_right (h.notMem hd)

theorem active_mem_next_iff : .active ∈ s.next ↔ s = .handshaking := by
  cases s <;> decide

theorem isEarly_of_isClosed (h : s.isClosed = true) : s.isEarly = false := by
  cases s <;> first | rfl | cases h

theorem isClosed_of_mem_next {s' : Stage} (h : s' ∈ s.next) : s.isClosed = false := by
  cases s <;> first | rfl | cases h

end Stage

/-- What the directives of a call say about the change of stage that the call has made. -/
structure Stage.Marks (s s' : Stage) (directives : List Directive) : Prop where
  stage : s' = s ∨ s' ∈ s.next
  disconnect_mem_iff : .disconnect ∈ directives ↔ s.isClosed = false ∧ s'.isClosed = true
  /-- Nothing comes after it. -/
  disconnect_last : .disconnect ∈ directives →
    ∃ front, directives = front ++ [.disconnect] ∧ .disconnect ∉ front
  installStreamMuxer_mem_iff : .installStreamMuxer ∈ directives ↔ s = .handshaking ∧ s' = .active

/-! ## What is told in each stage -/

/-- Messages bring neither a change of stage nor data of a stream. -/
theorem Stage.permits_of_ofHandshake (s : Stage) {directives : List Directive}
    (h : ∀ d ∈ directives, d.OfHandshake) : s.Permits directives := by
  intro d hd
  cases h d hd with
  | _ => exact ⟨rfl, nofun⟩

namespace Connection

variable {Memory : Type}

theorem permits_activeFrames {side : Side} {frames : List Frame} {directives : List Directive}
    (hok : activeFrames side frames = .ok directives) : Stage.active.Permits directives := by
  rw [(activeFrames_ok hok).2]
  exact List.forall_mem_map.2 fun f _ => ⟨rfl, fun _ => rfl⟩

/-! ## One call -/

/-- What a call can do to a connection. -/
inductive LifeStep (c : Connection Memory) : Outcome (Connection Memory) (List Directive) → Prop
  /-- It has no effect. -/
  | refused (e : Error) : LifeStep c (.error e, c)
  /-- It has some effect, but then it fails. -/
  | failed {e : Error} {c' : Connection Memory} (hopen : c.phase.isOpen = true)
    (hstage : c'.phase.stage = c.phase.stage) : LifeStep c (.error e, c')
  | stayed {directives : List Directive} {c' : Connection Memory} (hopen : c.phase.isOpen = true)
    (hstage : c'.phase.stage = c.phase.stage) (hpermits : c.phase.stage.Permits directives) :
    LifeStep c (.ok directives, c')
  /-- The handshake begins. -/
  | begun {c' : Connection Memory} (hidle : c.phase.stage = .idle)
    (hstage : c'.phase.stage = .handshaking) : LifeStep c (.ok [], c')
  /-- The handshake is complete. -/
  | completed {directives : List Directive} {c' : Connection Memory}
    (hhandshaking : c.phase.stage = .handshaking) (hstage : c'.phase.stage = .active)
    (hpermits : c.phase.stage.Permits directives) :
    LifeStep c (.ok (directives ++ [.installStreamMuxer]), c')
  /-- The connection is closed. Nothing waits any longer. -/
  | closed {directives : List Directive} {phase : Phase Memory}
    (hnext : phase.stage ∈ c.phase.stage.next) (hclosed : phase.isClosed = true)
    (hpermits : c.phase.stage.Permits directives) :
    LifeStep c (.ok (directives ++ [.disconnect]), c.close phase)

namespace LifeStep

variable {c : Connection Memory}

/-- The packets that waited before do not matter to an open connection. -/
theorem of_buffered {queue : List Packet} {o : Outcome (Connection Memory) (List Directive)}
    (h : LifeStep { c with buffered := queue } o) (hopen : c.phase.isOpen = true) :
    LifeStep c o := by
  cases h with
  | refused e => exact .failed hopen rfl
  | failed _ hstage => exact .failed hopen hstage
  | stayed _ hstage hpermits => exact .stayed hopen hstage hpermits
  | begun hidle hstage => exact .begun hidle hstage
  | completed hhandshaking hstage hpermits => exact .completed hhandshaking hstage hpermits
  | closed hnext hclosed hpermits => exact .closed hnext hclosed hpermits

theorem settle (hstage : c.phase.stage = .handshaking)
    {o : Outcome (Handshake Memory) (List Directive)}
    (hpermits : ∀ directives, o.1 = .ok directives → c.phase.stage.Permits directives) :
    LifeStep c (c.settle o) := by
  have hopen : c.phase.isOpen = true := Phase.isOpen_eq_true_iff.2 (Or.inl hstage)
  cases c.settleStep o with
  | failed _ hstep =>
    rw [hstep]
    exact .failed hopen hstage.symm
  | stayed ho _ hstep =>
    rw [hstep]
    exact .stayed hopen hstage.symm (hpermits _ (congrArg Prod.fst ho))
  | completed ho _ hstep =>
    rw [hstep]
    exact .completed hstage rfl (hpermits _ (congrArg Prod.fst ho))

theorem handshakeLong (hstage : c.phase.stage = .handshaking) (h : Handshake Memory)
    (epoch : Epoch) (frames : List Frame) : LifeStep c (c.handshakeLong h epoch frames) := by
  have hpermits : ∀ directives,
      (handshakeFrames c.setup epoch (beforeClosing frames) h).1 = .ok directives →
        c.phase.stage.Permits directives :=
    fun directives hok => Stage.permits_of_ofHandshake _
      (tells_handshakeFrames c.setup epoch (beforeClosing frames) h directives hok)
  cases c.longStep h epoch frames with
  | closed _ hframes hstep =>
    have hnext : .receivedDisconnect ∈ c.phase.stage.next := by
      rw [hstage]
      decide
    rw [hstep]
    exact .closed hnext rfl (hpermits _ (congrArg Prod.fst hframes))
  | settled _ hstep =>
    rw [hstep]
    exact settle hstage hpermits

theorem handshakeShort (hstage : c.phase.stage = .handshaking) (h : Handshake Memory)
    (p : Packet) : LifeStep c (c.handshakeShort h p) := by
  have hopen : c.phase.isOpen = true := Phase.isOpen_eq_true_iff.2 (Or.inl hstage)
  cases c.shortStep h p with
  | setAside _ hstep =>
    rw [hstep]
    exact .stayed hopen rfl Stage.permits_nil
  | confirmed _ _ _ hstep =>
    have hcompleted : LifeStep c (.ok ([] ++ [.installStreamMuxer]),
        activated { c with buffered := p :: c.buffered }) :=
      .completed hstage rfl Stage.permits_nil
    rw [hstep]
    exact hcompleted
  | undue _ _ _ hstep =>
    rw [hstep]
    exact .failed hopen hstage.symm
  | missing _ _ hstep =>
    rw [hstep]
    exact .refused _

theorem handshakePacket (hstage : c.phase.stage = .handshaking) (h : Handshake Memory)
    (p : Packet) : LifeStep c (c.handshakePacket h p) := by
  cases p with
  | oneRtt q => exact handshakeShort hstage h (.oneRtt q)
  | versionNegotiation q => exact .refused _
  | initial q => exact handshakeLong hstage h .initial q.frames
  | handshake q => exact handshakeLong hstage h .handshake q.frames

theorem activePacket (hstage : c.phase.stage = .active) (p : Packet) :
    LifeStep c (c.activePacket p) := by
  have hpermits : ∀ directives,
      activeFrames c.side (beforeClosing p.frames) = .ok directives →
        c.phase.stage.Permits directives :=
    fun directives hframes => hstage ▸ permits_activeFrames hframes
  cases c.activeStep p with
  | failed _ hstep =>
    rw [hstep]
    exact .refused _
  | closed hframes _ hstep =>
    have hnext : .receivedDisconnect ∈ c.phase.stage.next := by
      rw [hstage]
      decide
    rw [hstep]
    exact .closed hnext rfl (hpermits _ hframes)
  | answered hframes _ hstep =>
    rw [hstep]
    exact .stayed (Phase.isOpen_eq_true_iff.2 (Or.inr hstage)) rfl
      (Stage.permits_append.2 ⟨hpermits _ hframes, Stage.permits_emit _ _⟩)

theorem begin (c : Connection Memory) : LifeStep c (c.call .begin) := by
  rcases c.beginHandshake_cases with ⟨hidle, hstep⟩ | ⟨e, hstep⟩
  · rw [Connection.call, hstep]
    exact .begun (congrArg Phase.stage hidle) rfl
  · rw [Connection.call, hstep]
    exact .refused e

theorem buffer (c : Connection Memory) (p : Packet) : LifeStep c (c.call (.buffer p)) := by
  cases c.bufferStep p with
  | accepted hopen _ hstep | full hopen _ hstep =>
    rw [Connection.call, hstep]
    exact .stayed hopen rfl Stage.permits_nil
  | refused _ hstep =>
    rw [Connection.call, hstep]
    exact .refused _

theorem process (c : Connection Memory) : LifeStep c (c.call .process) := by
  cases c.processStep with
  | refused _ hstep =>
    rw [hstep]
    exact .refused _
  | nothing hopen _ hstep =>
    rw [hstep]
    exact .stayed hopen rfl Stage.permits_nil
  | @handshake h p rest hphase _ hstep =>
    have hstage : c.phase.stage = .handshaking := congrArg Phase.stage hphase
    rw [hstep]
    exact of_buffered (handshakePacket (c := { c with buffered := rest }) hstage h p)
      (Phase.isOpen_eq_true_iff.2 (Or.inl hstage))
  | @active p rest hphase _ hstep =>
    have hstage : c.phase.stage = .active := congrArg Phase.stage hphase
    rw [hstep]
    exact of_buffered (activePacket (c := { c with buffered := rest }) hstage p)
      (Phase.isOpen_eq_true_iff.2 (Or.inr hstage))

theorem outbound (c : Connection Memory) (f : Frame) (epoch : Epoch) :
    LifeStep c (c.call (.outbound f epoch)) := by
  cases c.outboundStep f epoch with
  | refused _ hstep =>
    rw [hstep]
    exact .refused _
  | closed hopen _ hstep =>
    have hclosed : LifeStep c (.ok ([.emit epoch [f]] ++ [.disconnect]), c.close .sentDisconnect) :=
      .closed (Phase.sentDisconnect_mem_next hopen) rfl (Stage.permits_emit _ _)
    rw [hstep]
    exact hclosed
  | crypto hphase _ hstep =>
    rw [hstep]
    exact settle (congrArg Phase.stage hphase) fun directives hok => Stage.permits_of_ofHandshake _
      (HandshakeSetup.tells_processCrypto _ _ _ _ _ directives hok)
  | plain hphase _ _ hstep =>
    rw [hstep]
    refine settle (congrArg Phase.stage hphase) fun directives hok => ?_
    cases hok
    exact Stage.permits_emit _ _
  | sent hphase hstep =>
    rw [hstep]
    exact .stayed (Phase.isOpen_eq_true_iff.2 (Or.inr (congrArg Phase.stage hphase))) rfl
      (Stage.permits_emit _ _)

theorem disconnect (c : Connection Memory) : LifeStep c (c.call .disconnect) := by
  rcases c.disconnect_cases with ⟨hopen, hstep⟩ | ⟨_, hstep⟩
  · have hclosed : LifeStep c (.ok ([] ++ [.disconnect]), c.close .sentDisconnect) :=
      .closed (Phase.sentDisconnect_mem_next hopen) rfl Stage.permits_nil
    rw [Connection.call, hstep]
    exact hclosed
  · rw [Connection.call, hstep]
    exact .refused _

theorem call (c : Connection Memory) (x : ConnectionCall) : LifeStep c (c.call x) := by
  cases x with
  | begin => exact begin c
  | buffer p => exact buffer c p
  | process => exact process c
  | outbound f epoch => exact outbound c f epoch
  | disconnect => exact disconnect c

/-! ### What follows from it -/

variable {c' : Connection Memory} {directives : List Directive}

/-- A failure leaves the stage as it is. -/
theorem stage_eq_of_error {e : Error} (h : LifeStep c (.error e, c')) :
    c'.phase.stage = c.phase.stage := by
  cases h with
  | refused => rfl
  | failed _ hstage => exact hstage

theorem marks (h : LifeStep c (.ok directives, c')) :
    c.phase.stage.Marks c'.phase.stage directives := by
  cases h with
  | stayed _ hstage hpermits =>
    rw [hstage]
    have hnone : .disconnect ∉ directives := hpermits.notMem rfl
    refine ⟨Or.inl rfl, iff_of_false hnone ?_, fun hmem => absurd hmem hnone,
      iff_of_false (hpermits.notMem rfl) ?_⟩
    · rintro ⟨hopen, hclosed⟩
      cases hopen.symm.trans hclosed
    · rintro ⟨hhandshaking, hactive⟩
      cases hhandshaking.symm.trans hactive
  | begun hidle hstage =>
    rw [hidle, hstage]
    exact ⟨by decide, by decide, nofun, by decide⟩
  | completed hhandshaking hstage hpermits =>
    rw [hhandshaking, hstage]
    refine ⟨Or.inr (by decide), (hpermits.mem_concat_iff rfl).trans (by decide), fun hmem => ?_,
      (hpermits.mem_concat_iff rfl).trans (by decide)⟩
    cases (hpermits.mem_concat_iff rfl).1 hmem
  | @closed _ phase hnext hclosed hpermits =>
    have hstage : phase.stage.isClosed = true := phase.isClosed_stage.trans hclosed
    refine ⟨Or.inr hnext, iff_of_true ((hpermits.mem_concat_iff rfl).2 rfl)
      ⟨Stage.isClosed_of_mem_next hnext, hstage⟩, fun _ => ⟨_, rfl, hpermits.notMem rfl⟩,
      (hpermits.mem_concat_iff rfl).trans (iff_of_false nofun ?_)⟩
    rintro ⟨_, hactive⟩
    rw [show phase.stage = .active from hactive] at hstage
    cases hstage

theorem forwardsData (h : LifeStep c (.ok directives, c')) {d : Directive} (hd : d ∈ directives)
    (hforwards : d.forwardsData = true) : c.phase.stage = .active := by
  cases h with
  | stayed _ _ hpermits =>
    exact (hpermits d hd).2 hforwards
  | begun =>
    cases hd
  | completed _ _ hpermits | closed _ _ hpermits =>
    rcases List.mem_append.1 hd with hd | hd
    · exact (hpermits d hd).2 hforwards
    · rw [List.mem_singleton.1 hd] at hforwards
      cases hforwards

/-- `installStreamMuxer` is given at most once, and only to a connection that is not active yet. -/
theorem count_add_le (h : LifeStep c (.ok directives, c')) :
    directives.count .installStreamMuxer + c'.phase.stage.isEarly.toNat
      ≤ c.phase.stage.isEarly.toNat := by
  cases h with
  | stayed _ hstage hpermits =>
    rw [hstage, List.count_eq_zero.2 (hpermits.notMem rfl), Nat.zero_add]
  | begun hidle hstage =>
    rw [hidle, hstage]
    decide
  | completed hhandshaking hstage hpermits =>
    rw [hhandshaking, hstage, List.count_append, List.count_eq_zero.2 (hpermits.notMem rfl)]
    decide
  | @closed _ phase hnext hclosed hpermits =>
    have hlate : (c.close phase).phase.stage.isEarly = false :=
      Stage.isEarly_of_isClosed (phase.isClosed_stage.trans hclosed)
    rw [hlate, List.count_append, List.count_eq_zero.2 (hpermits.notMem rfl)]
    exact Nat.zero_le _

end LifeStep

/-- A connection that has not begun still has its parser, and nothing waits in a connection that is
not open. -/
structure Orderly (c : Connection Memory) : Prop where
  holdsParser : c.phase.stage = .idle → c.holdsParser = true
  queues : c.phase.isOpen = false → c.buffered = [] ∧ c.deferred = []

theorem orderly_start (setup : HandshakeSetup Memory) : Orderly { setup } where
  holdsParser := fun _ => rfl
  queues := fun _ => ⟨rfl, rfl⟩

theorem orderly_of_isOpen {c : Connection Memory} (h : c.phase.isOpen = true) : Orderly c where
  holdsParser := by
    intro hidle
    rcases Phase.isOpen_eq_true_iff.1 h with hstage | hstage <;> cases hidle.symm.trans hstage
  queues := by
    intro hclosed
    cases hclosed.symm.trans h

theorem LifeStep.orderly {c : Connection Memory} {o : Outcome (Connection Memory) (List Directive)}
    (h : LifeStep c o) (hc : Orderly c) : Orderly o.2 := by
  cases h with
  | refused => exact hc
  | failed hopen hstage | stayed hopen hstage _ =>
    rw [Phase.isOpen_eq_true_iff, ← hstage] at hopen
    exact orderly_of_isOpen (Phase.isOpen_eq_true_iff.2 hopen)
  | begun _ hstage => exact orderly_of_isOpen (Phase.isOpen_eq_true_iff.2 (Or.inl hstage))
  | completed _ hstage _ => exact orderly_of_isOpen (Phase.isOpen_eq_true_iff.2 (Or.inr hstage))
  | @closed _ phase _ hclosed _ =>
    refine ⟨fun hidle => ?_, fun _ => ⟨rfl, rfl⟩⟩
    cases phase with
    | sentDisconnect | receivedDisconnect => cases hidle
    | _ => cases hclosed

theorem Orderly.run {c : Connection Memory} (hc : Orderly c) (calls : List ConnectionCall) :
    Orderly (c.run calls) := by
  induction calls generalizing c with
  | nil => exact hc
  | cons x calls ih => exact ih ((LifeStep.call c x).orderly hc)

/-- The parser is there when it is needed, so an idle connection begins its handshake. -/
theorem Orderly.beginHandshake_eq {c : Connection Memory} (hc : Orderly c) :
    c.beginHandshake.1 = if c.phase.stage = .idle then .ok ()
      else .error (.invalidStateTransition c.phase.text "handshaking") := by
  unfold beginHandshake
  split
  · next hidle =>
    have hstage : c.phase.stage = .idle := congrArg Phase.stage hidle
    rw [if_pos (hc.holdsParser hstage), if_pos hstage]
  · next hbegun =>
    have hstage : c.phase.stage ≠ .idle := by
      intro hidle
      generalize c.phase = phase at hidle hbegun
      cases phase <;> first | exact hbegun rfl | cases hidle
    rw [if_neg hstage]

/-- What is asked of a connection that is not open is refused. -/
structure RefusesPackets (c : Connection Memory) : Prop where
  bufferPacket : ∀ p, c.bufferPacket p = (.error (.contractViolation "buffer_inbound_packet"), c)
  processInbound :
    c.processInbound = (.error (.contractViolation "process_inbound_frame"), c)
  processOutbound : ∀ f epoch,
    c.processOutbound f epoch = (.error (.contractViolation "process_outbound_frame"), c)

theorem refusesPackets_of_isOpen_eq_false {c : Connection Memory} (h : c.phase.isOpen = false) :
    RefusesPackets c where
  bufferPacket := fun p => by simp [Connection.bufferPacket, h]
  processInbound := by simp [Connection.processInbound, h]
  processOutbound := fun f epoch => by simp [Connection.processOutbound, h]

/-! ## Runs -/

theorem returned_journal_of_ok {c c' : Connection Memory} {x : ConnectionCall}
    {directives : List Directive} (h : c.call x = (.ok directives, c'))
    (calls : List ConnectionCall) :
    returned (c.journal (x :: calls)) = directives ++ returned (c'.journal calls) := by
  rw [journal, h]
  rfl

theorem returned_journal_of_error {c c' : Connection Memory} {x : ConnectionCall} {e : Error}
    (h : c.call x = (.error e, c')) (calls : List ConnectionCall) :
    returned (c.journal (x :: calls)) = returned (c'.journal calls) := by
  rw [journal, h]
  rfl

theorem LifeStep.of_eq {c c' : Connection Memory} {x : ConnectionCall}
    {answer : Result (List Directive)} (h : c.call x = (answer, c')) : LifeStep c (answer, c') :=
  h ▸ LifeStep.call c x

/-- Over all calls, `installStreamMuxer` is given at most once, and not at all to a connection that
has been active before. -/
theorem count_installStreamMuxer_le (c : Connection Memory) (calls : List ConnectionCall) :
    (returned (c.journal calls)).count .installStreamMuxer ≤ c.phase.stage.isEarly.toNat := by
  induction calls generalizing c with
  | nil => exact Nat.zero_le _
  | cons x calls ih =>
    rcases hcall : c.call x with ⟨answer, c'⟩
    have hlater := ih c'
    cases answer with
    | error e =>
      rw [returned_journal_of_error hcall, ← (LifeStep.of_eq hcall).stage_eq_of_error]
      exact hlater
    | ok directives =>
      have hnow := (LifeStep.of_eq hcall).count_add_le
      rw [returned_journal_of_ok hcall, List.count_append]
      omega

/-- A connection that has become active has given `installStreamMuxer` on the way. -/
theorem installStreamMuxer_mem_returned {c : Connection Memory} {calls : List ConnectionCall}
    (hactive : (c.run calls).phase.stage = .active) :
    c.phase.stage = .active ∨ .installStreamMuxer ∈ returned (c.journal calls) := by
  induction calls generalizing c with
  | nil => exact Or.inl hactive
  | cons x calls ih =>
    rcases hcall : c.call x with ⟨answer, c'⟩
    have hlater : c'.phase.stage = .active ∨ .installStreamMuxer ∈ returned (c'.journal calls) := by
      rw [run, hcall] at hactive
      exact ih hactive
    cases answer with
    | error e =>
      rw [returned_journal_of_error hcall, ← (LifeStep.of_eq hcall).stage_eq_of_error]
      exact hlater
    | ok directives =>
      rw [returned_journal_of_ok hcall, List.mem_append]
      rcases hlater with hnow | hlater
      · -- the connection is active now: it was so before, or this call has made it so
        have hmarks := (LifeStep.of_eq hcall).marks
        rcases hmarks.stage with hsame | hnext
        · exact Or.inl (hsame.symm.trans hnow)
        · rw [hnow, Stage.active_mem_next_iff] at hnext
          exact Or.inr (Or.inl (hmarks.installStreamMuxer_mem_iff.2 ⟨hnext, hnow⟩))
      · exact Or.inr (Or.inr hlater)

/-- A connection of which nothing has happened, once its configuration has been accepted. -/
theorem eq_of_ofSetup {setup : HandshakeSetup Memory} {start : Connection Memory}
    (h : ofSetup setup = .ok start) : start = { setup } := by
  unfold ofSetup at h
  cases hcheck : setup.config.check with
  | error e =>
    rw [hcheck] at h
    cases h
  | ok _ =>
    rw [hcheck] at h
    exact (Except.ok.inj h).symm

/-- The life of a connection that has been accepted, over all calls. A call that fails leaves the
stage as it is, and a call that does not fail marks the change that it makes. A connection that is
not open holds no packets and refuses them. Until the handshake has begun, it can begin. The layer
of streams is installed once at most, and before it is given any data. -/
theorem lifecycle_of_calls {setup : HandshakeSetup Memory} {start : Connection Memory}
    (hstart : ofSetup setup = .ok start) (calls : List ConnectionCall) :
    let c := start.run calls
    let entries := start.journal calls
    (∀ x e c', c.call x = (.error e, c') → c'.phase.stage = c.phase.stage)
      ∧ (∀ x directives c', c.call x = (.ok directives, c') →
        c.phase.stage.Marks c'.phase.stage directives)
      ∧ (c.phase.isOpen = false →
        c.buffered = [] ∧ c.deferred = [] ∧ c.RefusesPackets)
      ∧ (c.beginHandshake.1 = if c.phase.stage = .idle then .ok ()
        else .error (.invalidStateTransition c.phase.text "handshaking"))
      ∧ c.beginHandshake.1 ≠ .error (.contractViolation "TLS parser already consumed")
      ∧ (returned entries).count .installStreamMuxer ≤ 1
      ∧ ∀ x directives c', c.call x = (.ok directives, c') →
        ∀ d ∈ directives, d.forwardsData = true → .installStreamMuxer ∈ returned entries := by
  intro c entries
  obtain rfl := eq_of_ofSetup hstart
  have hc : Orderly c := (orderly_start setup).run calls
  refine ⟨fun x e c' h => (LifeStep.of_eq h).stage_eq_of_error,
    fun x directives c' h => (LifeStep.of_eq h).marks, fun hclosed => ?_, hc.beginHandshake_eq, ?_,
    count_installStreamMuxer_le _ calls, ?_⟩
  · obtain ⟨hbuffered, hdeferred⟩ := hc.queues hclosed
    exact ⟨hbuffered, hdeferred, refusesPackets_of_isOpen_eq_false hclosed⟩
  · rw [hc.beginHandshake_eq]
    split <;> nofun
  · intro x directives c' h d hd hforwards
    have hactive : c.phase.stage = .active := (LifeStep.of_eq h).forwardsData hd hforwards
    exact (installStreamMuxer_mem_returned hactive).resolve_left nofun

/-- A server completes its handshake, passes on the data of a stream, and is closed. -/
theorem lifecycle_of_calls_server :
    let chunk : StreamChunk := ⟨0, 0, false, true, true, [1, 2, 3]⟩
    let finished := Frame.crypto 0 (Message.frame .finished [])
    let calls : List ConnectionCall :=
      serverFlight ++ [.buffer (Conversation.bearer finished .handshake), .process,
        .buffer (Conversation.bearer (.stream chunk) .application)]
    let c := plainServer.run calls
    c.phase.isActive = true
      ∧ (c.call .process).1 = .ok [.forwardFrame (.stream chunk), .emit .application []]
      ∧ (returned (plainServer.journal calls)).count .installStreamMuxer = 1
      ∧ (c.call .disconnect).1 = .ok [.disconnect]
      ∧ (c.call .disconnect).2.RefusesPackets := by
  intro chunk finished calls c
  have hstart : ofSetup plainServer.setup = .ok plainServer := rfl
  have hprocess : (c.call .process).1 =
      .ok [.forwardFrame (.stream chunk), .emit .application []] := by decide +kernel
  obtain ⟨_, _, _, _, _, hle, hforwards⟩ := lifecycle_of_calls hstart calls
  have hmem : .installStreamMuxer ∈ returned (plainServer.journal calls) :=
    hforwards .process _ _ (Prod.ext hprocess rfl) _ List.mem_cons_self rfl
  have hclosed : (plainServer.run (calls ++ [.disconnect])).phase.isOpen = false := by
    decide +kernel
  obtain ⟨_, _, hrefuses, _⟩ := lifecycle_of_calls hstart (calls ++ [.disconnect])
  refine ⟨by decide +kernel, hprocess, ?_, by decide +kernel, (hrefuses hclosed).2.2⟩
  exact Nat.le_antisymm hle (List.count_pos_iff.2 hmem)

end Connection

end QuicTransport
