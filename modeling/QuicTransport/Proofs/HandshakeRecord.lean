import QuicTransport.Proofs.HandshakeTrace
import QuicTransport.Proofs.MessageFraming
import QuicTransport.Proofs.TiledStream

set_option autoImplicit false

/-! # One side of a handshake, seen with the other

Two sides take part in a handshake, and each has its own record of messages. Here one of them takes
steps and the other stands still. What a side has received are whole messages from the record of the
other. They may wait in any order, but a message is only taken at its turn, and its turn is told by
its author and kind. So the message that is taken is the one that stands at the same place in the
other record (`LogSound.agree`).

Once all seven messages have been taken, nothing more is asked of what arrives. -/

namespace QuicTransport

open HandshakeSetup (Found)

/-! ## Records -/

/-- The messages of one author that travel in an epoch, in order: the author's CRYPTO stream. -/
def authored (s : Side) (e : Epoch) (log : List Found) : List Bytes :=
  (log.filter fun m => m.expectation.author = s ∧ m.expectation.kind.epoch = e).map Found.message

theorem authored_append (s : Side) (e : Epoch) (log more : List Found) :
    authored s e (log ++ more) = authored s e log ++ authored s e more := by
  rw [authored, List.filter_append, List.map_append]
  rfl

theorem authored_singleton (s : Side) (e : Epoch) (m : Found) :
    authored s e [m] =
      if m.expectation.author = s ∧ m.expectation.kind.epoch = e then [m.message] else [] := by
  unfold authored
  split
  · next h => simp [h.1, h.2]
  · next h => simp [h]

theorem exists_of_mem_authored {s : Side} {e : Epoch} {log : List Found} {bs : Bytes}
    (h : bs ∈ authored s e log) :
    ∃ m ∈ log, m.expectation.author = s ∧ m.message = bs := by
  obtain ⟨m, hm, rfl⟩ := List.mem_map.1 h
  obtain ⟨hmem, hcondition⟩ := List.mem_filter.1 hm
  exact ⟨m, hmem, (of_decide_eq_true hcondition).1, rfl⟩

/-- The record of a side beside the record of the other. -/
structure LogSound (s : Side) (log peer : List Found) : Prop where
  scripted : ∀ (n : Nat) (m : Found), log[n]? = some m → Expectation.script[n]? = some m.expectation
  framed : ∀ m ∈ log, Message.IsFramed m.expectation.kind m.message
  /-- The messages of the other side stand in its own record, in the same places. -/
  agree : ∀ (n : Nat) (m : Found), log[n]? = some m → m.expectation.author = s.opposite →
    peer[n]? = some m

theorem logSound_nil (s : Side) (peer : List Found) : LogSound s [] peer where
  scripted := fun n m h => by cases h
  framed := fun m h => by cases h
  agree := fun n m h => by cases h

theorem LogSound.mono {s : Side} {log peer : List Found} (h : LogSound s log peer)
    (more : List Found) : LogSound s log (peer ++ more) where
  scripted := h.scripted
  framed := h.framed
  agree := by
    intro n m hm hauthor
    have hpeer := h.agree n m hm hauthor
    rw [List.getElem?_append_left (List.getElem?_eq_some_iff.1 hpeer).1]
    exact hpeer

theorem LogSound.snoc {s : Side} {log peer : List Found} (h : LogSound s log peer) {m : Found}
    (hscript : Expectation.script[log.length]? = some m.expectation)
    (hframed : Message.IsFramed m.expectation.kind m.message)
    (hagree : m.expectation.author = s.opposite → peer[log.length]? = some m) :
    LogSound s (log ++ [m]) peer := by
  have hplace : ∀ n found, (log ++ [m])[n]? = some found →
      log[n]? = some found ∨ n = log.length ∧ found = m := by
    intro n found hfound
    rw [List.getElem?_append] at hfound
    split at hfound
    · exact Or.inl hfound
    · next hge =>
      have hlast := (List.getElem?_eq_some_iff.1 hfound).1
      simp only [List.length_singleton] at hlast
      have hzero : n - log.length = 0 := by omega
      rw [hzero] at hfound
      injection hfound with hfound
      exact Or.inr ⟨by omega, hfound.symm⟩
  constructor
  · intro n found hfound
    rcases hplace n found hfound with hold | ⟨rfl, rfl⟩
    · exact h.scripted n found hold
    · exact hscript
  · intro found hfound
    rcases List.mem_append.1 hfound with hold | hnew
    · exact h.framed found hold
    · rw [List.mem_singleton.1 hnew]
      exact hframed
  · intro n found hfound hauthor
    rcases hplace n found hfound with hold | ⟨rfl, rfl⟩
    · exact h.agree n found hold hauthor
    · exact hagree hauthor

theorem LogSound.length_le {s : Side} {log peer : List Found} (h : LogSound s log peer) :
    log.length ≤ 7 := by
  by_contra hlt
  have hextra : log[7]? = some log[7] := List.getElem?_eq_getElem (by omega)
  exact absurd (h.scripted 7 _ hextra) (by intro hscript; cases hscript)

theorem LogSound.map_expectation {s : Side} {log peer : List Found} (h : LogSound s log peer) :
    log.map Found.expectation = Expectation.script.take log.length := by
  apply List.ext_getElem?
  intro n
  rw [List.getElem?_map]
  rcases Nat.lt_or_ge n log.length with hlt | hge
  · have hm : log[n]? = some log[n] := List.getElem?_eq_getElem hlt
    rw [hm, List.getElem?_take_of_lt hlt, h.scripted n _ hm]
    rfl
  · rw [List.getElem?_eq_none hge, List.getElem?_eq_none]
    · rfl
    · rw [List.length_take]
      omega

/-! ## What has been received -/

/-- The data that a side receives are whole messages of the author. -/
structure InboundSound (author : Side) (f : CryptoFlow) (log : List Found) : Prop where
  /-- Every stream stands between messages. -/
  streams : ∀ e, (f.streams.get e).Tiled (authored author e log)
  /-- Whole messages wait, of whatever epochs. -/
  waiting : ∃ ms : List Found, f.waiting = (ms.map Found.message).flatten
    ∧ ∀ m ∈ ms, m ∈ log ∧ m.expectation.author = author

theorem inboundSound_start (author : Side) (log : List Found) : InboundSound author {} log where
  streams := by
    intro e
    rw [PerEpoch.get_all]
    exact CryptoStream.tiled_empty _
  waiting := ⟨[], rfl, fun m hm => by cases hm⟩

theorem InboundSound.mono {author : Side} {f : CryptoFlow} {log : List Found}
    (h : InboundSound author f log) (more : List Found) : InboundSound author f (log ++ more) where
  streams := by
    intro e
    rw [authored_append]
    exact (h.streams e).append _
  waiting := by
    obtain ⟨ms, hwaiting, hms⟩ := h.waiting
    exact ⟨ms, hwaiting, fun m hm => ⟨List.mem_append_left _ (hms m hm).1, (hms m hm).2⟩⟩

/-- What a side does with a chunk, in terms of the stream of its epoch. -/
theorem receive_snd (f : CryptoFlow) (limit : Nat) (epoch : Epoch) (offset : Nat) (data : Bytes) :
    (f.receive limit epoch offset data).2 =
      { f with
        streams := f.streams.set ((f.streams.get epoch).insert offset data limit).2 epoch
        waiting := f.waiting
          ++ CryptoStream.given ((f.streams.get epoch).insert offset data limit).1 } := by
  unfold CryptoFlow.receive
  split
  · next e s hinsert =>
    rw [hinsert]
    simp [CryptoStream.given]
  · next bytes s hinsert =>
    rw [hinsert]
    dsimp only
    split <;> rfl

theorem exists_messages {author : Side} {e : Epoch} {log : List Found} {pieces : List Bytes}
    (h : ∀ piece ∈ pieces, piece ∈ authored author e log) :
    ∃ ms : List Found, pieces = ms.map Found.message
      ∧ ∀ m ∈ ms, m ∈ log ∧ m.expectation.author = author := by
  induction pieces with
  | nil => exact ⟨[], rfl, fun m hm => by cases hm⟩
  | cons piece pieces ih =>
    obtain ⟨ms, rfl, hms⟩ := ih fun m hm => h m (List.mem_cons_of_mem piece hm)
    obtain ⟨n, hn, hauthor, rfl⟩ := exists_of_mem_authored (h piece List.mem_cons_self)
    refine ⟨n :: ms, rfl, ?_⟩
    intro m hm
    rcases List.mem_cons.1 hm with rfl | hm
    · exact ⟨hn, hauthor⟩
    · exact hms m hm

/-- A message that arrives in a piece leaves whole messages waiting, also if it is refused. -/
theorem InboundSound.receive {author : Side} {f : CryptoFlow} {log : List Found}
    (h : InboundSound author f log) {epoch : Epoch} {offset : Nat} {data : Bytes}
    (hpiece : Chunk.IsPiece ⟨offset, data⟩ (authored author epoch log)) (limit : Nat) :
    InboundSound author (f.receive limit epoch offset data).2 log := by
  obtain ⟨hwhole, htiled⟩ := (h.streams epoch).insert hpiece limit
  rw [receive_snd]
  constructor
  · intro e
    dsimp only
    rw [PerEpoch.get_set]
    split
    · next he =>
      rw [he]
      exact htiled
    · exact h.streams e
  · obtain ⟨ms, hwaiting, hms⟩ := h.waiting
    obtain ⟨pieces, hgiven, hpieces⟩ := hwhole
    obtain ⟨ns, rfl, hns⟩ := exists_messages hpieces
    refine ⟨ms ++ ns, ?_, ?_⟩
    · dsimp only
      rw [hwaiting, hgiven, List.map_append, List.flatten_append]
    · intro m hm
      rcases List.mem_append.1 hm with hm | hm
      · exact hms m hm
      · exact hns m hm

/-- The next message that waits is the one that is found. -/
theorem exists_of_split {kind : MessageKind} {ms : List Found} {bytes : Bytes}
    (hframed : ∀ m ∈ ms, Message.IsFramed m.expectation.kind m.message)
    (h : Message.split kind (ms.map Found.message).flatten = .message bytes) :
    ∃ m rest, ms = m :: rest ∧ m.expectation.kind = kind ∧ m.message = bytes := by
  cases ms with
  | nil => cases h
  | cons m rest =>
    have hm := hframed m List.mem_cons_self
    rw [List.map_cons, List.flatten_cons] at h
    by_cases hkind : m.expectation.kind = kind
    · rw [← hkind, Message.split_frame hm] at h
      injection h with h
      exact ⟨m, rest, rfl, hkind, h⟩
    · rw [Message.split_frame_of_ne hkind hm] at h
      cases h

/-! ## One side -/

/-- A handshake, its record and the record of the other side. -/
structure HandshakeSound (s : Side) (h : Handshake Unit) (log peer : List Found) : Prop where
  /-- What is expected is the first message that is not in the record. -/
  expected : h.progress.expectation? = Expectation.script[log.length]?
  /-- A server is done with the last message. -/
  answered : s = .server → h.progress ≠ .clientFinished
  /-- The place of the next message of our own is the end of what we have sent. -/
  consumed : ∀ e, h.outbound.consumed.get e = (authored s e log).flatten.length
  /-- As long as something is expected, whole messages of the other side have arrived. -/
  inbound : log.length < 7 → InboundSound s.opposite h.inbound peer
  /-- A client is done only if the other side has all messages. -/
  done : s = .client → h.progress = .done → 7 ≤ peer.length

theorem handshakeSound_start {setup : HandshakeSetup Unit} (s : Side) (peer : List Found) :
    HandshakeSound s setup.start [] peer where
  expected := rfl
  answered := by
    intro _ h
    cases h
  consumed := by
    intro e
    exact PerEpoch.get_all 0 e
  inbound := fun _ => inboundSound_start _ _
  done := by
    intro _ h
    cases h

theorem HandshakeSound.mono {s : Side} {h : Handshake Unit} {log peer : List Found}
    (hsound : HandshakeSound s h log peer) (more : List Found) :
    HandshakeSound s h log (peer ++ more) where
  expected := hsound.expected
  answered := hsound.answered
  consumed := hsound.consumed
  inbound := fun hlt => (hsound.inbound hlt).mono more
  done := by
    intro hs hdone
    have hpeer := hsound.done hs hdone
    rw [List.length_append]
    omega

theorem opposite_ne (s : Side) : s.opposite ≠ s := by
  cases s <;> decide

/-- Where a handshake is after one more message. A client waits for HANDSHAKE_DONE, and a server is
done by itself. -/
theorem progressAfter_sound {s : Side} {setup : HandshakeSetup Unit} (hside : setup.side = s)
    {log : List Found} {m : Found}
    (hscript : Expectation.script[log.length]? = some m.expectation) :
    (setup.progressAfter m.expectation).expectation? = Expectation.script[(log ++ [m]).length]?
      ∧ (s = .server → setup.progressAfter m.expectation ≠ .clientFinished)
      ∧ (s = .client → setup.progressAfter m.expectation ≠ .done) := by
  refine ⟨?_, ?_, ?_⟩
  · rw [List.length_append]
    exact Expectation.expectation?_progressAfter setup hscript
  · intro hs
    exact Expectation.progressAfter_ne_clientFinished (hside.trans hs) m.expectation
  · intro hs
    unfold HandshakeSetup.progressAfter
    split
    · next hserver =>
      rw [hside, hs] at hserver
      cases hserver.1
    · exact Expectation.next_ne_done hscript

theorem HandshakeSound.length_eq {s : Side} {h : Handshake Unit} {log peer : List Found}
    (hsound : HandshakeSound s h log peer) (hlog : LogSound s log peer) :
    log.length = min h.progress.rank 7 := by
  have hplace := hsound.expected
  rw [← Expectation.script_rank] at hplace
  have hle := hlog.length_le
  rcases Nat.lt_or_ge log.length 7 with hlt | hge
  · have hnext : Expectation.script[log.length]? = some Expectation.script[log.length] :=
      List.getElem?_eq_getElem hlt
    rw [hnext] at hplace
    have hsame := Expectation.eq_of_script hplace hnext rfl rfl
    omega
  · have hnone : Expectation.script[log.length]? = none := List.getElem?_eq_none hge
    rw [hnone] at hplace
    have hrank : 7 ≤ h.progress.rank := List.getElem?_eq_none_iff.1 hplace
    omega

theorem HandshakeSound.take_inbound {s : Side} {setup : HandshakeSetup Unit}
    (hside : setup.side = s) (hparser : setup.parser = .framing) {h : Handshake Unit}
    {log peer : List Found} (hsound : HandshakeSound s h log peer) (hlog : LogSound s log peer)
    (hpeer : LogSound s.opposite peer log) {found : Found} {memory : Unit}
    (htakes : setup.Takes .inbound h found memory) :
    HandshakeSound s (setup.advance { h with memory } .inbound found).2 (log ++ [found]) peer
      ∧ LogSound s (log ++ [found]) peer := by
  have hscript : Expectation.script[log.length]? = some found.expectation := by
    rw [← hsound.expected, htakes.expected]
  have hlt := Expectation.lt_of_script hscript
  have hauthor : found.expectation.author = s.opposite := by
    rw [htakes.author, ← hside]
    rfl
  obtain ⟨hstreams, ms, hwaiting, hms⟩ := hsound.inbound hlt
  have hparsed : Message.split found.expectation.kind (ms.map Found.message).flatten =
      .message found.message := by
    have hanswer := congrArg Prod.fst htakes.parsed
    rw [hparser] at hanswer
    rw [← hwaiting]
    exact hanswer
  obtain ⟨m, rest, rfl, hkind, hmessage⟩ :=
    exists_of_split (fun m hm => hpeer.framed m (hms m hm).1) hparsed
  obtain ⟨hm, hmauthor⟩ := hms m List.mem_cons_self
  -- the message stands in the other record; its author and kind tell that this is its turn
  obtain ⟨n, hn, hget⟩ := List.getElem_of_mem hm
  have hplace : peer[n]? = some m := List.getElem?_eq_some_iff.2 ⟨hn, hget⟩
  have hturn : n = log.length :=
    Expectation.eq_of_script (hpeer.scripted n m hplace) hscript hkind (hmauthor.trans hauthor.symm)
  have hexpectation : m.expectation = found.expectation := by
    have hmscript := hpeer.scripted n m hplace
    rw [hturn, hscript] at hmscript
    injection hmscript with hmscript
    exact hmscript.symm
  have hsame : m = found := by
    cases m
    cases found
    cases hexpectation
    cases hmessage
    rfl
  rw [hsame, hturn] at hplace
  refine ⟨?_, hlog.snoc hscript (hsame ▸ hpeer.framed m hm) fun _ => hplace⟩
  obtain ⟨hexpected, hanswered, hundone⟩ := progressAfter_sound hside hscript
  refine ⟨hexpected, hanswered, ?_, ?_, fun hs hdone => absurd hdone (hundone hs)⟩
  · -- our own stream does not move
    intro e
    have hother : ¬ (found.expectation.author = s ∧ found.expectation.kind.epoch = e) := by
      rintro ⟨hown, _⟩
      exact opposite_ne s (hauthor.symm.trans hown)
    rw [authored_append, authored_singleton, if_neg hother, List.append_nil]
    exact hsound.consumed e
  · intro _
    refine ⟨hstreams, rest, ?_, fun n hn => hms n (List.mem_cons_of_mem m hn)⟩
    change h.inbound.waiting.drop found.message.length = _
    rw [hwaiting, List.map_cons, List.flatten_cons, hmessage, List.drop_left]

theorem HandshakeSound.take_outbound {s : Side} {setup : HandshakeSetup Unit}
    (hside : setup.side = s) (hparser : setup.parser = .framing) {h : Handshake Unit}
    {log peer : List Found} (hsound : HandshakeSound s h log peer) (hlog : LogSound s log peer)
    {found : Found} {memory : Unit} (htakes : setup.Takes .outbound h found memory) :
    HandshakeSound s (setup.advance { h with memory } .outbound found).2 (log ++ [found]) peer
      ∧ LogSound s (log ++ [found]) peer := by
  have hscript : Expectation.script[log.length]? = some found.expectation := by
    rw [← hsound.expected, htakes.expected]
  have hauthor : found.expectation.author = s := by
    rw [htakes.author, ← hside]
    rfl
  have hframed : Message.IsFramed found.expectation.kind found.message := by
    have hanswer := congrArg Prod.fst htakes.parsed
    rw [hparser] at hanswer
    exact Message.isFramed_of_split hanswer
  obtain ⟨hexpected, hanswered, hundone⟩ := progressAfter_sound hside hscript
  refine ⟨⟨hexpected, hanswered, ?_, ?_, fun hs hdone => absurd hdone (hundone hs)⟩,
    hlog.snoc hscript hframed ?_⟩
  · intro e
    change (h.outbound.consumed.set _ found.expectation.kind.epoch).get e = _
    rw [PerEpoch.get_set, authored_append, authored_singleton]
    -- the stream of the message's epoch grows by the message, the others stay
    by_cases he : e = found.expectation.kind.epoch
    · rw [if_pos he, if_pos ⟨hauthor, he.symm⟩, ← he, List.flatten_append, List.length_append,
        List.flatten_singleton]
      exact congrArg (· + found.message.length) (hsound.consumed e)
    · rw [if_neg he, if_neg fun h => he h.2.symm, List.append_nil]
      exact hsound.consumed e
  · intro hlt
    rw [List.length_append] at hlt
    exact hsound.inbound (by omega)
  · intro hother
    exact absurd (hother.symm.trans hauthor) (opposite_ne s)

/-! ## What is sent -/

/-- The frames that a directive makes the owner send, each with its epoch. The frame that an
outbound operation passes on is the client's first. -/
def sentIn (d : Direction) : Directive → List (Epoch × Frame)
  | .emitPackets packets => packets.flatMap fun p => p.frames.map fun f => (p.epoch, f)
  | .forwardFrame f =>
    match d with
    | .outbound => [(.initial, f)]
    | .inbound => []
  | _ => []

/-- What the answer of an operation makes the owner send. -/
def sentBy (d : Direction) : Result (List Directive) → List (Epoch × Frame)
  | .ok directives => directives.flatMap (sentIn d)
  | .error _ => []

/-- What a frame on its way from a side says. CRYPTO data are whole messages at their place in the
stream, unless the other side has all messages and looks at no more. -/
def Carried (s : Side) (log peer : List Found) : Epoch × Frame → Prop
  | (e, .crypto offset data) => Chunk.IsPiece ⟨offset, data⟩ (authored s e log) ∨ 7 ≤ peer.length
  | (_, .handshakeDone) => s = .server ∧ 7 ≤ log.length
  | (_, .newToken _) => True
  | _ => False

theorem Carried.mono_log {s : Side} {log peer : List Found} {sent : Epoch × Frame}
    (h : Carried s log peer sent) (more : List Found) : Carried s (log ++ more) peer sent := by
  obtain ⟨e, f⟩ := sent
  cases f with
  | crypto offset data =>
    rcases h with hpiece | hpeer
    · left
      rw [authored_append]
      exact hpiece.append _
    · exact Or.inr hpeer
  | handshakeDone =>
    refine ⟨h.1, ?_⟩
    have hlog := h.2
    rw [List.length_append]
    omega
  | newToken token => trivial
  | _ => exact h.elim

theorem Carried.mono_peer {s : Side} {log peer : List Found} {sent : Epoch × Frame}
    (h : Carried s log peer sent) (more : List Found) : Carried s log (peer ++ more) sent := by
  obtain ⟨e, f⟩ := sent
  cases f with
  | crypto offset data =>
    rcases h with hpiece | hpeer
    · exact Or.inl hpiece
    · right
      rw [List.length_append]
      omega
  | handshakeDone => exact h
  | newToken token => trivial
  | _ => exact h.elim

theorem sentIn_keyChanges (d : Direction) (p : Progress) :
    ∀ directive ∈ HandshakeSetup.keyChanges p, sentIn d directive = [] := by
  cases p <;> simp [HandshakeSetup.keyChanges, sentIn]

/-- A message of our own goes out at its place in the stream. -/
theorem carried_sendings_outbound {s : Side} {setup : HandshakeSetup Unit} {log : List Found}
    {m : Found} (hscript : Expectation.script[log.length]? = some m.expectation)
    (hauthor : m.expectation.author = s) {offset : Nat}
    (hoffset : offset = (authored s m.expectation.kind.epoch log).flatten.length)
    (peer : List Found) :
    ∀ directive ∈ setup.sendings .outbound m.expectation (.crypto offset m.message),
      ∀ sent ∈ sentIn .outbound directive, Carried s (log ++ [m]) peer sent := by
  have hcarried : Carried s (log ++ [m]) peer
      (m.expectation.kind.epoch, .crypto offset m.message) := by
    refine Or.inl ⟨authored s m.expectation.kind.epoch log, [], ?_, hoffset⟩
    rw [authored_append, authored_singleton, if_pos ⟨hauthor, rfl⟩]
  intro directive hdirective sent hsent
  dsimp only [HandshakeSetup.sendings] at hdirective
  split at hdirective
  · next hfirst =>
    rw [List.mem_singleton.1 hdirective] at hsent
    rw [List.mem_singleton.1 hsent, ← Expectation.epoch_of_next_eq_clientHello hscript hfirst.2]
    exact hcarried
  · rw [List.mem_singleton.1 hdirective] at hsent
    simp only [sentIn, Directive.emit, List.flatMap_cons, List.flatMap_nil, List.map_cons,
      List.map_nil, List.append_nil, List.mem_singleton] at hsent
    rw [hsent]
    exact hcarried

/-- A message of the other side makes a server confirm the handshake when it is the last. -/
theorem carried_sendings_inbound {s : Side} {setup : HandshakeSetup Unit} (hside : setup.side = s)
    {log : List Found} {m : Found}
    (hscript : Expectation.script[log.length]? = some m.expectation) (crypto : Frame)
    (peer : List Found) :
    ∀ directive ∈ setup.sendings .inbound m.expectation crypto,
      ∀ sent ∈ sentIn .inbound directive, Carried s (log ++ [m]) peer sent := by
  intro directive hdirective sent hsent
  dsimp only [HandshakeSetup.sendings] at hdirective
  split at hdirective
  · next hlast =>
    have hsix := Expectation.eq_of_next_eq_clientFinished hscript hlast.2
    rw [List.mem_singleton.1 hdirective] at hsent
    simp only [sentIn, Directive.emit, List.flatMap_cons, List.flatMap_nil, List.map_cons,
      List.map_nil, List.append_nil, List.mem_cons, List.not_mem_nil, or_false] at hsent
    rcases hsent with rfl | rfl
    · refine ⟨hside.symm.trans hlast.1, ?_⟩
      rw [List.length_append, hsix]
      exact Nat.le_refl 7
    · trivial
  · cases hdirective

/-- Draining takes messages at their turn and sends our own at their places. -/
theorem HandshakeSound.draining {s : Side} {setup : HandshakeSetup Unit} (hside : setup.side = s)
    (hparser : setup.parser = .framing) {d : Direction} {h h' : Handshake Unit}
    {founds : List Found} {directives : List Directive}
    (hdraining : setup.Draining d h founds directives h') {log peer : List Found}
    (hsound : HandshakeSound s h log peer) (hlog : LogSound s log peer)
    (hpeer : LogSound s.opposite peer log) :
    HandshakeSound s h' (log ++ founds) peer ∧ LogSound s (log ++ founds) peer
      ∧ ∀ directive ∈ directives, ∀ sent ∈ sentIn d directive,
        Carried s (log ++ founds) peer sent := by
  induction hdraining generalizing log with
  | stop h memory =>
    rw [List.append_nil]
    exact ⟨hsound, hlog, fun directive hdirective => by cases hdirective⟩
  | @take h h' found memory more directives htakes hrest ih =>
    have hscript : Expectation.script[log.length]? = some found.expectation := by
      rw [← hsound.expected, htakes.expected]
    have hstep : HandshakeSound s (setup.advance { h with memory } d found).2 (log ++ [found]) peer
        ∧ LogSound s (log ++ [found]) peer := by
      cases d with
      | inbound => exact hsound.take_inbound hside hparser hlog hpeer htakes
      | outbound => exact hsound.take_outbound hside hparser hlog htakes
    have hsent : ∀ directive ∈ (setup.advance { h with memory } d found).1,
        ∀ sent ∈ sentIn d directive, Carried s (log ++ [found]) peer sent := by
      intro directive hdirective sent hsent
      rcases List.mem_append.1 hdirective with hdirective | hdirective
      · cases d with
        | inbound =>
          exact carried_sendings_inbound hside hscript _ peer directive hdirective sent hsent
        | outbound =>
          have hauthor : found.expectation.author = s := htakes.author.trans hside
          exact carried_sendings_outbound hscript hauthor (hsound.consumed _) peer directive
            hdirective sent hsent
      · rw [sentIn_keyChanges d _ directive hdirective] at hsent
        cases hsent
    -- the induction goes on from the longer record
    obtain ⟨hsound', hlog', hmore⟩ := ih hstep.1 hstep.2 (hpeer.mono [found])
    have hlist : log ++ found :: more = log ++ [found] ++ more := by simp
    rw [hlist]
    refine ⟨hsound', hlog', ?_⟩
    intro directive hdirective sent hmem
    rcases List.mem_append.1 hdirective with hdirective | hdirective
    · exact (hsent directive hdirective sent hmem).mono_log more
    · exact hmore directive hdirective sent hmem

/-! ## Operations -/

/-- CRYPTO data that are only taken in leave the record as it is. -/
theorem HandshakeSound.receive {s : Side} {h : Handshake Unit} {log peer : List Found}
    (hsound : HandshakeSound s h log peer) {d : Direction} {epoch : Epoch} {offset : Nat}
    {data : Bytes}
    (hdata : d = .inbound → log.length < 7 →
      Chunk.IsPiece ⟨offset, data⟩ (authored s.opposite epoch peer)) (limit : Nat) :
    HandshakeSound s (h.setFlow ((h.flow d).receive limit epoch offset data).2 d) log peer := by
  cases d with
  | inbound =>
    refine ⟨hsound.expected, hsound.answered, hsound.consumed, ?_, hsound.done⟩
    intro hlt
    exact (hsound.inbound hlt).receive (hdata rfl hlt) limit
  | outbound =>
    refine ⟨hsound.expected, hsound.answered, ?_, hsound.inbound, hsound.done⟩
    intro e
    have hconsumed : (h.outbound.receive limit epoch offset data).2.consumed =
        h.outbound.consumed := by
      rw [receive_snd]
    exact (congrArg (·.get e) hconsumed).trans (hsound.consumed e)

structure OperationSound (s : Side) (d : Direction)
    (o : Outcome (Handshake Unit) (List Directive)) (log peer : List Found) : Prop where
  state : HandshakeSound s o.2 log peer
  record : LogSound s log peer
  sent : ∀ sent ∈ sentBy d o.1, Carried s log peer sent

/-- A CRYPTO frame keeps the records together, also if it fails. -/
theorem HandshakeSound.processCrypto {s : Side} {setup : HandshakeSetup Unit}
    (hside : setup.side = s) (hparser : setup.parser = .framing) {h : Handshake Unit}
    {log peer : List Found} (hsound : HandshakeSound s h log peer) (hlog : LogSound s log peer)
    (hpeer : LogSound s.opposite peer log) {d : Direction} {epoch : Epoch} {offset : Nat}
    {data : Bytes}
    (hdata : d = .inbound → log.length < 7 →
      Chunk.IsPiece ⟨offset, data⟩ (authored s.opposite epoch peer)) :
    OperationSound s d (setup.processCrypto h d epoch offset data)
      (log ++ setup.takenByCrypto h d epoch offset data) peer := by
  have hreceived := hsound.receive hdata setup.config.maxCryptoBuffer
  obtain ⟨directives, hdraining, hanswer⟩ := setup.draining_processCrypto h d epoch offset data
  obtain ⟨hsound', hlog', hcarried⟩ :=
    HandshakeSound.draining hside hparser hdraining hreceived hlog hpeer
  refine ⟨hsound', hlog', ?_⟩
  intro sent hsent
  -- a failure sends nothing, although messages may have been taken before it
  cases hprocess : (setup.processCrypto h d epoch offset data).1 with
  | error e =>
    rw [hprocess] at hsent
    cases hsent
  | ok answer =>
    rw [hprocess, hanswer answer hprocess] at hsent
    obtain ⟨directive, hdirective, hmem⟩ := List.mem_flatMap.1 hsent
    exact hcarried directive hdirective sent hmem

/-- HANDSHAKE_DONE comes to a client only when the server has all messages. -/
theorem HandshakeSound.processDone {h : Handshake Unit} {log peer : List Found}
    (hsound : HandshakeSound .client h log peer) (hlog : LogSound .client log peer)
    (hpeer : 7 ≤ peer.length) : OperationSound .client .inbound h.processDone log peer := by
  unfold Handshake.processDone
  split
  · next hfinished =>
    refine ⟨⟨?_, ?_, hsound.consumed, hsound.inbound, fun _ _ => hpeer⟩, hlog, ?_⟩
    · have hexpected := hsound.expected
      rw [hfinished] at hexpected
      exact hexpected
    · intro hserver
      cases hserver
    · intro sent hsent
      cases hsent
  · exact ⟨hsound, hlog, fun sent hsent => by cases hsent⟩

/-! ## The end -/

/-- A server that has the last message has it from the client. -/
theorem LogSound.length_peer {log peer : List Found} (h : LogSound .server log peer)
    (hlog : 7 ≤ log.length) : 7 ≤ peer.length := by
  -- the last message is the client's Finished
  have hlast : log[6]? = some log[6] := List.getElem?_eq_getElem (by omega)
  have hscript := h.scripted 6 _ hlast
  have hauthor : log[6].expectation.author = .client := by
    injection hscript with hscript
    rw [← hscript]
  have hpeer := h.agree 6 _ hlast hauthor
  exact (List.getElem?_eq_some_iff.1 hpeer).1

/-- Whoever is done has all messages, and so has the other side. -/
theorem HandshakeSound.complete {s : Side} {h : Handshake Unit} {log peer : List Found}
    (hsound : HandshakeSound s h log peer) (hlog : LogSound s log peer)
    (hdone : h.progress = .done) : 7 ≤ log.length ∧ 7 ≤ peer.length := by
  have hexpected := hsound.expected
  rw [hdone] at hexpected
  have hlength : 7 ≤ log.length := List.getElem?_eq_none_iff.1 hexpected.symm
  refine ⟨hlength, ?_⟩
  cases s with
  | client => exact hsound.done rfl hdone
  | server => exact hlog.length_peer hlength

/-- A server that has all messages is done. -/
theorem HandshakeSound.done_of_length {h : Handshake Unit} {log peer : List Found}
    (hsound : HandshakeSound .server h log peer) (hlength : 7 ≤ log.length) :
    h.progress = .done := by
  have hnone : Expectation.script[log.length]? = none := List.getElem?_eq_none_iff.2 hlength
  have hexpected := hsound.expected.trans hnone
  have hanswered := hsound.answered rfl
  cases hprogress : h.progress with
  | done => rfl
  | clientFinished => exact absurd hprogress hanswered
  | _ =>
    rw [hprogress] at hexpected
    cases hexpected

end QuicTransport
