import QuicTransport.Proofs.DirectiveTrace
import QuicTransport.Proofs.FrameLegality

set_option autoImplicit false

/-! # The handshake inside a connection

As long as its handshake is under way, a call of a connection asks a few things of the handshake,
and passes on what it is told. What is asked is written down here (`Connection.asked`). So a handshake
inside a connection is one that has been called on its own (`Embedded`), and what is known about
handshakes holds inside of connections. -/

namespace QuicTransport

namespace Connection

variable {Memory : Type}

/-! ## What is asked of the handshake -/

/-- What a frame of a packet with a long header asks. -/
def frameCalls (setup : HandshakeSetup Memory) (epoch : Epoch) : Frame → List HandshakeCall
  | .crypto offset data => [.crypto .inbound epoch offset data]
  | .handshakeDone =>
    match setup.side with
    | .server => []
    | .client => [.done]
  | _ => []

/-- What frames ask, up to the first that fails. -/
def framesCalls (setup : HandshakeSetup Memory) (epoch : Epoch) :
    List Frame → Handshake Memory → List HandshakeCall
  | [], _ => []
  | f :: fs, h =>
    frameCalls setup epoch f
      ++ match handshakeFrame setup epoch h f with
        | (.ok _, h') => framesCalls setup epoch fs h'
        | (.error _, _) => []

/-- What a packet asks. -/
def packetCalls (setup : HandshakeSetup Memory) (h : Handshake Memory) (p : Packet) :
    List HandshakeCall :=
  match p.type with
  | .oneRtt =>
    match setup.side with
    | .server => []
    | .client => if p.frames.any Frame.isHandshakeDone then [.done] else []
  | _ =>
    match p.epoch? with
    | some epoch => framesCalls setup epoch (beforeClosing p.frames) h
    | none => []

/-- What a frame of our own asks. -/
def outboundCalls (epoch : Epoch) : Frame → List HandshakeCall
  | .crypto offset data => [.crypto .outbound epoch offset data]
  | _ => []

/-- What a call of a connection asks of its handshake. -/
def asked (c : Connection Memory) (h : Handshake Memory) : ConnectionCall → List HandshakeCall
  | .process =>
    match c.buffered with
    | [] => []
    | p :: _ => packetCalls c.setup h p
  | .outbound f epoch => outboundCalls epoch f
  | _ => []

/-! ## Operations on the handshake -/

/-- An operation leaves the handshake as some calls do. If it does not fail, neither do they, and
their answers are in its own. -/
structure Carries (setup : HandshakeSetup Memory) (h : Handshake Memory)
    (calls : List HandshakeCall) (o : Outcome (Handshake Memory) (List Directive)) : Prop where
  state : o.2 = setup.run h calls
  answer : ∀ directives, o.1 = .ok directives →
    ∃ front, setup.answers h calls = .ok front ∧ front.Sublist directives

section Operations

variable {setup : HandshakeSetup Memory} {h : Handshake Memory} {epoch : Epoch}

/-- Nothing is asked. -/
theorem carries_nil (answer : Result (List Directive)) : Carries setup h [] (answer, h) where
  state := rfl
  answer := fun directives _ => ⟨[], rfl, List.nil_sublist directives⟩

theorem carries_single (x : HandshakeCall) : Carries setup h [x] (setup.call h x) where
  state := rfl
  answer := by
    intro directives hok
    refine ⟨directives, ?_, List.Sublist.refl _⟩
    exact HandshakeSetup.answers_cons_eq_ok.2
      ⟨directives, [], hok, rfl, (List.append_nil _).symm⟩

theorem carries_handshakeFrame (f : Frame) :
    Carries setup h (frameCalls setup epoch f) (handshakeFrame setup epoch h f) := by
  cases f with
  | crypto offset data => exact carries_single (.crypto .inbound epoch offset data)
  | handshakeDone =>
    unfold frameCalls handshakeFrame
    cases hside : setup.side with
    | server => exact carries_nil _
    | client => exact carries_single .done
  | _ => exact carries_nil _

theorem carries_handshakeFrames (frames : List Frame) :
    Carries setup h (framesCalls setup epoch frames h) (handshakeFrames setup epoch frames h) := by
  induction frames generalizing h with
  | nil => exact carries_nil _
  | cons f fs ih =>
    have hfirst : Carries setup h (frameCalls setup epoch f) (handshakeFrame setup epoch h f) :=
      carries_handshakeFrame f
    rw [framesCalls, handshakeFrames]
    rcases hframe : handshakeFrame setup epoch h f with ⟨answer, h'⟩
    rw [hframe] at hfirst
    have hstate : h' = setup.run h (frameCalls setup epoch f) := hfirst.state
    cases answer with
    | error e =>
      rw [List.append_nil]
      refine ⟨hstate, ?_⟩
      intro directives hok
      cases hok
    | ok front =>
      have hrest : Carries setup h' (framesCalls setup epoch fs h')
          (handshakeFrames setup epoch fs h') := ih
      dsimp only [Outcome.andThen]
      rcases hmore : handshakeFrames setup epoch fs h' with ⟨more, h''⟩
      rw [hmore] at hrest
      have hend : h'' =
          setup.run h (frameCalls setup epoch f ++ framesCalls setup epoch fs h') := by
        rw [setup.run_append, ← hstate]
        exact hrest.state
      cases more with
      | error e =>
        refine ⟨hend, ?_⟩
        intro directives hok
        cases hok
      | ok back =>
        refine ⟨hend, ?_⟩
        intro directives hok
        cases hok
        obtain ⟨first, hfront, hsub⟩ := hfirst.answer front rfl
        obtain ⟨second, hback, hsub'⟩ := hrest.answer back rfl
        refine ⟨first ++ second, HandshakeSetup.answers_append hfront ?_, hsub.append hsub'⟩
        rwa [← hstate]

end Operations

/-! ## Calls -/

end Connection

/-- What a stage says about a handshake that has been called on its own. -/
def Phase.Embeds {Memory : Type} (setup : HandshakeSetup Memory) (h : Handshake Memory) :
    Phase Memory → Prop
  | .idle => h = setup.start
  | .handshaking h' => h' = h
  | .active => h.progress = .done
  | .sentDisconnect => True
  | .receivedDisconnect => True

namespace Connection

variable {Memory : Type}

/-- A call of a connection does to its handshake what some calls do. If it fails, the handshake goes
on as these have left it, and otherwise their answers are in its own. -/
structure Follows (setup : HandshakeSetup Memory) (h : Handshake Memory)
    (calls : List HandshakeCall) (o : Outcome (Connection Memory) (List Directive)) : Prop where
  keeps : o.2.setup = setup
  phase : o.2.phase.Embeds setup (setup.run h calls)
  failed : ∀ e, o.1 = .error e → o.2.phase = .handshaking (setup.run h calls)
  answer : ∀ directives, o.1 = .ok directives →
    ∃ front, setup.answers h calls = .ok front ∧ front.Sublist directives

section Follows

variable {c : Connection Memory} {h : Handshake Memory} {calls : List HandshakeCall}

/-- The handshake stays as it is. -/
theorem follows_of_same {c' : Connection Memory} (hsetup : c'.setup = c.setup)
    (hphase : c'.phase = .handshaking h) (answer : Result (List Directive)) :
    Follows c.setup h [] (answer, c') where
  keeps := hsetup
  phase := by
    rw [hphase]
    exact rfl
  failed := fun _ _ => hphase
  answer := fun directives _ => ⟨[], rfl, List.nil_sublist directives⟩

theorem Carries.failed {e : Error} {h' : Handshake Memory}
    (ho : Carries c.setup h calls (.error e, h')) :
    Follows c.setup h calls (.error e, c.withHandshake h') where
  keeps := rfl
  phase := ho.state
  failed := fun _ _ => congrArg Phase.handshaking ho.state
  answer := fun _ hok => by cases hok

/-- The handshake is given up. -/
theorem Carries.closed {directives more : List Directive} {h' : Handshake Memory}
    (ho : Carries c.setup h calls (.ok directives, h')) {phase : Phase Memory}
    (hclosed : phase.isClosed = true) :
    Follows c.setup h calls (.ok (directives ++ more), c.close phase) where
  keeps := rfl
  phase := by cases phase <;> first | exact trivial | cases hclosed
  failed := fun _ herror => by cases herror
  answer := by
    intro sent hok
    cases hok
    obtain ⟨front, hfront, hsub⟩ := ho.answer directives rfl
    exact ⟨front, hfront, hsub.trans (List.sublist_append_left _ _)⟩

theorem Carries.settle {o : Outcome (Handshake Memory) (List Directive)}
    (ho : Carries c.setup h calls o) : Follows c.setup h calls (c.settle o) := by
  cases c.settleStep o with
  | failed hanswer hstep =>
    subst hanswer
    rw [hstep]
    exact ho.failed
  | @stayed directives h' hanswer _ hstep =>
    subst hanswer
    have hstate : h' = c.setup.run h calls := ho.state
    rw [hstep]
    exact ⟨rfl, hstate, nofun, ho.answer⟩
  | @completed directives h' hanswer hdone hstep =>
    subst hanswer
    have hstate : h' = c.setup.run h calls := ho.state
    rw [hstep]
    refine ⟨rfl, ?_, nofun, fun sent hok => ?_⟩
    · rw [← hstate]
      exact hdone
    · cases hok
      obtain ⟨front, hfront, hsub⟩ := ho.answer directives rfl
      exact ⟨front, hfront, hsub.trans (List.sublist_append_left _ _)⟩

theorem follows_handshakeLong (c : Connection Memory) (h : Handshake Memory) (epoch : Epoch)
    (frames : List Frame) :
    Follows c.setup h (framesCalls c.setup epoch (beforeClosing frames) h)
      (c.handshakeLong h epoch frames) := by
  have hcarries : Carries c.setup h (framesCalls c.setup epoch (beforeClosing frames) h)
      (handshakeFrames c.setup epoch (beforeClosing frames) h) :=
    carries_handshakeFrames _
  cases c.longStep h epoch frames with
  | closed _ hframes hstep =>
    rw [hframes] at hcarries
    rw [hstep]
    exact hcarries.closed rfl
  | settled _ hstep =>
    rw [hstep]
    exact hcarries.settle

theorem follows_handshakeShort (hphase : c.phase = .handshaking h) (p : Packet) :
    Follows c.setup h
      (match c.setup.side with
        | .server => []
        | .client => if p.frames.any Frame.isHandshakeDone then [.done] else [])
      (c.handshakeShort h p) := by
  have hdone : Carries c.setup h [.done] h.processDone := carries_single .done
  cases c.shortStep h p with
  | setAside hside hstep =>
    have hsame : ({ c with deferred := c.deferred ++ [p] } : Connection Memory).phase =
        .handshaking h := hphase
    rw [hstep, hside]
    exact follows_of_same rfl hsame _
  | confirmed hside hany hdue hstep =>
    rw [Handshake.processDone, if_pos hdue] at hdone
    rw [hstep, hside, hany]
    exact Carries.settle (c := { c with buffered := p :: c.buffered }) hdone
  | undue hside hany hdue hstep =>
    rw [Handshake.processDone, if_neg hdue] at hdone
    rw [hstep, hside, hany]
    exact hdone.failed
  | missing hside hnone hstep =>
    rw [hstep, hside, hnone]
    exact follows_of_same (c := c) rfl hphase _

theorem follows_handshakePacket (hphase : c.phase = .handshaking h) (p : Packet) :
    Follows c.setup h (packetCalls c.setup h p) (c.handshakePacket h p) := by
  cases p with
  | oneRtt q => exact follows_handshakeShort hphase (.oneRtt q)
  | versionNegotiation q => exact follows_of_same (c := c) rfl hphase _
  | initial q => exact follows_handshakeLong c h .initial q.frames
  | handshake q => exact follows_handshakeLong c h .handshake q.frames

theorem follows_process (hphase : c.phase = .handshaking h) :
    Follows c.setup h (c.asked h .process) (c.call .process) := by
  cases c.processStep with
  | refused hclosed _ =>
    rw [hphase] at hclosed
    cases hclosed
  | nothing _ hqueue hstep =>
    rw [hstep, asked, hqueue]
    exact follows_of_same (c := c) rfl hphase _
  | @handshake h' p rest hphase' hqueue hstep =>
    cases hphase.symm.trans hphase'
    rw [hstep, asked, hqueue]
    exact follows_handshakePacket (c := { c with buffered := rest }) hphase p
  | active hactive _ _ => cases hphase.symm.trans hactive

theorem outboundCalls_eq_nil {epoch : Epoch} {f : Frame}
    (h : ∀ offset data, f ≠ .crypto offset data) : outboundCalls epoch f = [] := by
  cases f with
  | crypto offset data => exact absurd rfl (h offset data)
  | _ => rfl

theorem follows_outbound (hphase : c.phase = .handshaking h) (f : Frame) (epoch : Epoch) :
    Follows c.setup h (c.asked h (.outbound f epoch)) (c.call (.outbound f epoch)) := by
  change Follows c.setup h (outboundCalls epoch f) (c.call (.outbound f epoch))
  cases c.outboundStep f epoch with
  | refused hwhy hstep =>
    have hnothing : outboundCalls epoch f = [] := by
      refine outboundCalls_eq_nil ?_
      rintro offset data rfl
      cases hwhy (by rw [hphase]; rfl)
    rw [hstep, hnothing]
    exact follows_of_same (c := c) rfl hphase _
  | closed _ hclosing hstep =>
    have hnothing : outboundCalls epoch f = [] := by
      refine outboundCalls_eq_nil ?_
      rintro offset data rfl
      cases hclosing
    have hnil : Carries c.setup h [] (.ok [.emit epoch [f]], h) := carries_nil _
    rw [hstep, hnothing]
    exact hnil.closed rfl
  | crypto hphase' hcrypto hstep =>
    cases hphase.symm.trans hphase'
    subst hcrypto
    rw [hstep]
    exact Carries.settle (carries_single (.crypto .outbound epoch _ _))
  | plain hphase' hplain _ hstep =>
    cases hphase.symm.trans hphase'
    rw [hstep, outboundCalls_eq_nil hplain]
    exact Carries.settle (carries_nil _)
  | sent hactive _ => cases hphase.symm.trans hactive

theorem phase_bufferPacket (c : Connection Memory) (p : Packet) :
    (c.bufferPacket p).2.setup = c.setup ∧ (c.bufferPacket p).2.phase = c.phase := by
  cases c.bufferStep p with
  | accepted _ _ hstep | full _ _ hstep | refused _ hstep =>
    rw [hstep]
    exact ⟨rfl, rfl⟩

/-- During the handshake every call does to it what is asked. -/
theorem follows_call (hphase : c.phase = .handshaking h) (x : ConnectionCall) :
    Follows c.setup h (c.asked h x) (c.call x) := by
  cases x with
  | begin =>
    unfold call
    rcases c.beginHandshake_cases with ⟨hidle, _⟩ | ⟨e, hstep⟩
    · cases hphase.symm.trans hidle
    · rw [hstep]
      exact follows_of_same (c := c) rfl hphase _
  | buffer p =>
    obtain ⟨hsetup, hsame⟩ := phase_bufferPacket c p
    exact follows_of_same hsetup (hsame.trans hphase) _
  | process => exact follows_process hphase
  | outbound f epoch => exact follows_outbound hphase f epoch
  | disconnect =>
    have hnil : Carries c.setup h [] (.ok [], h) := carries_nil _
    unfold call
    rcases c.disconnect_cases with ⟨_, hstep⟩ | ⟨hclosed, _⟩
    · rw [hstep]
      exact hnil.closed rfl
    · rw [hphase] at hclosed
      cases hclosed

/-- What happens to the stage of a connection outside of the handshake: it stays, or the handshake
begins, or the connection is closed. A failure leaves it as it is. -/
structure PhaseStep (c : Connection Memory) (o : Outcome (Connection Memory) (List Directive)) :
    Prop where
  keeps : o.2.setup = c.setup
  phase : o.2.phase = c.phase ∨ c.phase = .idle ∧ o.2.phase = .handshaking c.setup.start
    ∨ o.2.phase.isClosed = true
  failed : ∀ e, o.1 = .error e → o.2.phase = c.phase

theorem phaseStep_of_same {c' : Connection Memory} (hsetup : c'.setup = c.setup)
    (hphase : c'.phase = c.phase) (answer : Result (List Directive)) :
    PhaseStep c (answer, c') where
  keeps := hsetup
  phase := Or.inl hphase
  failed := fun _ _ => hphase

theorem phaseStep_close (c : Connection Memory) {phase : Phase Memory}
    (hclosed : phase.isClosed = true) (directives : List Directive) :
    PhaseStep c (.ok directives, c.close phase) where
  keeps := rfl
  phase := Or.inr (Or.inr hclosed)
  failed := nofun

theorem phaseStep_begin (c : Connection Memory) : PhaseStep c (c.call .begin) := by
  unfold call
  rcases c.beginHandshake_cases with ⟨hidle, hstep⟩ | ⟨e, hstep⟩
  · rw [hstep]
    exact ⟨rfl, Or.inr (Or.inl ⟨hidle, rfl⟩), nofun⟩
  · rw [hstep]
    exact phaseStep_of_same rfl rfl _

theorem phaseStep_disconnect (c : Connection Memory) : PhaseStep c (c.call .disconnect) := by
  unfold call
  rcases c.disconnect_cases with ⟨_, hstep⟩ | ⟨_, hstep⟩
  · rw [hstep]
    exact phaseStep_close c rfl _
  · rw [hstep]
    exact phaseStep_of_same rfl rfl _

theorem phaseStep_activePacket (c : Connection Memory) (p : Packet) :
    PhaseStep c (c.activePacket p) := by
  cases c.activeStep p with
  | closed _ _ hstep =>
    rw [hstep]
    exact phaseStep_close c rfl _
  | failed _ hstep | answered _ _ hstep =>
    rw [hstep]
    exact phaseStep_of_same rfl rfl _

theorem phaseStep_process (hphase : ∀ h, c.phase ≠ .handshaking h) :
    PhaseStep c (c.call .process) := by
  cases c.processStep with
  | refused _ hstep | nothing _ _ hstep =>
    rw [hstep]
    exact phaseStep_of_same rfl rfl _
  | handshake hhandshaking _ _ => exact absurd hhandshaking (hphase _)
  | @active p rest _ _ hstep =>
    have hpacket := phaseStep_activePacket { c with buffered := rest } p
    rw [hstep]
    exact ⟨hpacket.keeps, hpacket.phase, hpacket.failed⟩

theorem phaseStep_outbound (hphase : ∀ h, c.phase ≠ .handshaking h) (f : Frame) (epoch : Epoch) :
    PhaseStep c (c.call (.outbound f epoch)) := by
  cases c.outboundStep f epoch with
  | refused _ hstep | sent _ hstep =>
    rw [hstep]
    exact phaseStep_of_same rfl rfl _
  | closed _ _ hstep =>
    rw [hstep]
    exact phaseStep_close c rfl _
  | crypto hhandshaking _ _ | plain hhandshaking _ _ _ => exact absurd hhandshaking (hphase _)

theorem phaseStep_call (hphase : ∀ h, c.phase ≠ .handshaking h) (x : ConnectionCall) :
    PhaseStep c (c.call x) := by
  cases x with
  | begin => exact phaseStep_begin c
  | buffer p =>
    obtain ⟨hsetup, hsame⟩ := phase_bufferPacket c p
    exact phaseStep_of_same hsetup hsame _
  | process => exact phaseStep_process hphase
  | outbound f epoch => exact phaseStep_outbound hphase f epoch
  | disconnect => exact phaseStep_disconnect c

end Follows

/-! ## Runs -/

/-- What a call asks of the handshake, if there is one. -/
def asks (c : Connection Memory) (x : ConnectionCall) : List HandshakeCall :=
  match c.phase with
  | .handshaking h => c.asked h x
  | _ => []

/-- The moves that a call makes the handshake take, whether it fails in the end or not. -/
def moves (c : Connection Memory) (x : ConnectionCall) : List Move :=
  match c.phase with
  | .handshaking h => c.setup.history h (c.asked h x)
  | _ => []

/-- Outside of the handshake nothing is asked of it, and it does not move. -/
theorem asks_moves_eq_nil {c : Connection Memory} (hphase : ∀ h, c.phase ≠ .handshaking h)
    (x : ConnectionCall) : c.asks x = [] ∧ c.moves x = [] := by
  unfold asks moves
  split
  · next h hhandshaking => exact absurd hhandshaking (hphase h)
  · exact ⟨rfl, rfl⟩

/-- What several calls ask. -/
def asksAll (c : Connection Memory) : List ConnectionCall → List HandshakeCall
  | [] => []
  | x :: calls => c.asks x ++ (c.call x).2.asksAll calls

/-- The handshake of a connection has been called in this way, from its start on. -/
structure Embedded (setup : HandshakeSetup Memory) (c : Connection Memory)
    (asked : List HandshakeCall) : Prop where
  keeps : c.setup = setup
  phase : c.phase.Embeds setup (setup.run setup.start asked)

theorem embedded_start (setup : HandshakeSetup Memory) : Embedded setup { setup } [] where
  keeps := rfl
  phase := rfl

/-- The handshake that is under way is the one that has been called. -/
theorem Embedded.eq_run {setup : HandshakeSetup Memory} {c : Connection Memory}
    {asked : List HandshakeCall} (hc : Embedded setup c asked) {h : Handshake Memory}
    (hphase : c.phase = .handshaking h) : h = setup.run setup.start asked := by
  have hstage := hc.phase
  rw [hphase] at hstage
  exact hstage

theorem Embedded.call {setup : HandshakeSetup Memory} {c : Connection Memory}
    {asked : List HandshakeCall} (hc : Embedded setup c asked) (x : ConnectionCall) :
    Embedded setup (c.call x).2 (asked ++ c.asks x)
      ∧ setup.history setup.start (asked ++ c.asks x) =
        setup.history setup.start asked ++ c.moves x := by
  by_cases hphase : ∃ h, c.phase = .handshaking h
  · obtain ⟨h, hphase⟩ := hphase
    have hrun := hc.eq_run hphase
    obtain rfl := hc.keeps
    have hfollows := follows_call hphase x
    unfold asks moves
    rw [hphase]
    refine ⟨⟨hfollows.keeps, ?_⟩, ?_⟩
    · rw [c.setup.run_append, ← hrun]
      exact hfollows.phase
    · rw [c.setup.history_append, ← hrun]
  · rw [not_exists] at hphase
    obtain ⟨rfl, hstage⟩ := hc
    have hstep := phaseStep_call hphase x
    obtain ⟨hasks, hmoves⟩ := asks_moves_eq_nil hphase x
    rw [hasks, hmoves, List.append_nil, List.append_nil]
    refine ⟨⟨hstep.keeps, ?_⟩, rfl⟩
    rcases hstep.phase with hsame | ⟨hidle, hbegun⟩ | hclosed
    · rw [hsame]
      exact hstage
    · rw [hidle] at hstage
      rw [hbegun]
      exact Eq.symm hstage
    · generalize (c.call x).2.phase = phase at hclosed
      cases phase <;> first | exact trivial | cases hclosed

theorem Embedded.run {setup : HandshakeSetup Memory} {c : Connection Memory}
    {asked : List HandshakeCall} (hc : Embedded setup c asked) (calls : List ConnectionCall) :
    Embedded setup (c.run calls) (asked ++ c.asksAll calls) := by
  induction calls generalizing c asked with
  | nil =>
    rw [asksAll, List.append_nil]
    exact hc
  | cons x calls ih =>
    rw [asksAll, ← List.append_assoc]
    exact ih (hc.call x).1

end Connection

end QuicTransport
