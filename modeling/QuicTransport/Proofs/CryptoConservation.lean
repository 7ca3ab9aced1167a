import QuicTransport.Proofs.CryptoBuffers

set_option autoImplicit false

/-! # CRYPTO data are neither doubled nor lost

Bytes that a stream has given out do not come out of it again. They find a handshake that has not
failed at rest: what waits is at most the beginning of the message that is due. So they change
nothing (`HandshakeSetup.processCrypto_of_delivered`).

What the streams of a direction give out is cut into messages, and the rest waits. Each message is
counted in the epoch in which such a message travels, and each of our own goes out in that epoch,
behind all that has been counted there before (`HandshakeSetup.Booked`). A step books one message,
and what has been booked adds up over a run. The bytes of a message may have come from the stream of
another epoch, so it is only over all epochs that the counts agree with what the streams have given
out. -/

namespace QuicTransport

open HandshakeSetup (Found)

/-! ## Data that come again -/

namespace HandshakeSetup

section Again

variable {setup : HandshakeSetup Unit} {h : Handshake Unit} {d : Direction} {e : Epoch}
  {offset : Nat} {data : Bytes}

/-- A handshake at rest is not moved by data that have been given out before. -/
theorem Settled.processCrypto_of_stop_le (hparser : setup.parser = .framing)
    (hsettled : setup.Settled h)
    (hroom : (h.flow d).waiting.length ≤ setup.config.maxCryptoBuffer)
    (hstop : offset + data.length ≤ (h.stream d e).delivered) :
    setup.processCrypto h d e offset data = (.ok [], h) := by
  have hinsert := CryptoStream.insert_of_stop_le setup.config.maxCryptoBuffer hstop
  rw [processCrypto_of_insert hinsert (by simpa using hroom), Handshake.arrive_nil,
    Handshake.withStream_stream]
  exact drain_of_quiet hparser (hsettled.quiet d) true

/-- CRYPTO data that come again are harmless. As long as no call has failed, data that end before
the position up to which their stream has been given out are taken without a failure and without
an answer, and the handshake stays as it is. It does not matter which bytes they are, whether a
message is incomplete, whose turn it is, or whether the handshake is complete. -/
theorem processCrypto_of_delivered (hparser : setup.parser = .framing)
    {calls : List HandshakeCall} {directives : List Directive}
    (hok : setup.answers setup.start calls = .ok directives)
    (hstop : offset + data.length ≤ ((setup.run setup.start calls).stream d e).delivered) :
    setup.processCrypto (setup.run setup.start calls) d e offset data =
      (.ok [], setup.run setup.start calls) := by
  have hsettled := (settled_start setup).run hparser hok
  have hwithin : ((setup.run setup.start calls).flow d).Within setup.config.maxCryptoBuffer := by
    refine within_run hok ?_
    cases d <;> exact CryptoFlow.Within.empty _
  exact hsettled.processCrypto_of_stop_le hparser hwithin.waiting hstop

/-- Data come again while the client waits for the rest of a Certificate, from the peer and from
itself, and after the handshake is complete. -/
theorem processCrypto_of_delivered_client :
    let early : List HandshakeCall :=
      [.crypto .outbound .initial 0 [1, 0, 0, 0], .crypto .inbound .initial 0 [2, 0, 0, 0],
        .crypto .inbound .handshake 0 [8, 0, 0, 0, 11, 0]]
    let late : List HandshakeCall :=
      [.crypto .inbound .handshake 6 [0, 0, 15, 0, 0, 0, 20, 0, 0, 0],
        .crypto .outbound .handshake 0 [20, 0, 0, 0], .done]
    let h := plainClient.run plainClient.start early
    let h' := plainClient.run plainClient.start (early ++ late)
    h.inbound.waiting = [11, 0] ∧ h'.progress = .done
      ∧ plainClient.processCrypto h .inbound .handshake 3 [7, 7, 7] = (.ok [], h)
      ∧ plainClient.processCrypto h .outbound .initial 0 [1, 0, 0, 0] = (.ok [], h)
      ∧ plainClient.processCrypto h' .inbound .initial 0 [2, 0, 0, 0] = (.ok [], h') := by
  intro early late h h'
  have hearly : (plainClient.answers plainClient.start early).isOk = true := by decide +kernel
  have hlate : (plainClient.answers plainClient.start (early ++ late)).isOk = true := by
    decide +kernel
  obtain ⟨_, hearly⟩ := Result.exists_of_isOk hearly
  obtain ⟨_, hlate⟩ := Result.exists_of_isOk hlate
  exact ⟨by decide +kernel, by decide +kernel,
    processCrypto_of_delivered rfl hearly (by decide +kernel),
    processCrypto_of_delivered rfl hearly (by decide +kernel),
    processCrypto_of_delivered rfl hlate (by decide +kernel)⟩

end Again

end HandshakeSetup

/-! ## Messages by epoch -/

/-- The messages among these that travel in an epoch, in order. -/
def carriedIn (e : Epoch) (founds : List Found) : List Bytes :=
  (founds.filter fun m => m.expectation.kind.epoch = e).map Found.message

theorem carriedIn_cons (e : Epoch) (m : Found) (founds : List Found) :
    carriedIn e (m :: founds) =
      if m.expectation.kind.epoch = e then m.message :: carriedIn e founds
      else carriedIn e founds := by
  by_cases h : m.expectation.kind.epoch = e <;> simp [carriedIn, h]

theorem carriedIn_append (e : Epoch) (founds more : List Found) :
    carriedIn e (founds ++ more) = carriedIn e founds ++ carriedIn e more := by
  simp [carriedIn]

/-- Each message travels in one epoch. -/
theorem sum_length_carriedIn (founds : List Found) :
    (Epoch.all.map fun e => (carriedIn e founds).flatten.length).sum =
      (founds.map Found.message).flatten.length := by
  induction founds with
  | nil => rfl
  | cons m founds ih =>
    simp only [Epoch.all, List.map_cons, List.map_nil, List.sum_cons, List.sum_nil] at ih ⊢
    simp only [carriedIn_cons, List.flatten_cons, List.length_append]
    rw [← ih]
    cases m.expectation.kind.epoch <;> simp <;> omega

/-- Each byte has come from one epoch. -/
theorem sum_length_fromEpoch (log : List (Epoch × UInt8)) :
    (Epoch.all.map fun e => (fromEpoch e log).length).sum = log.length := by
  induction log with
  | nil => rfl
  | cons x log ih =>
    obtain ⟨e, b⟩ := x
    simp only [Epoch.all, List.map_cons, List.map_nil, List.sum_cons, List.sum_nil] at ih ⊢
    rw [List.length_cons, ← ih]
    cases e <;> simp [fromEpoch] <;> omega

/-- An epoch has given out as many bytes as have come from it. -/
theorem Accounted.delivered {calls : List HandshakeCall} {d : Direction} {f : CryptoFlow}
    {log : List (Epoch × UInt8)} {founds : List Found} (h : Accounted calls d f log founds)
    (e : Epoch) : (f.streams.get e).delivered = (fromEpoch e log).length := by
  obtain ⟨_, _, haccounts⟩ := h.streams e
  exact haccounts.length_out.symm

/-! ## CRYPTO frames by epoch -/

/-- The place and the data of a CRYPTO frame that goes out in an epoch. -/
def cryptoOf? (e : Epoch) : Epoch × Frame → Option Chunk
  | (e', .crypto offset data) => if e' = e then some ⟨offset, data⟩ else none
  | _ => none

/-- The CRYPTO frames that go out in an epoch because of some directives, in order. The frame that
is passed on to the layer above is the client's first. -/
def cryptoIn (e : Epoch) (directives : List Directive) : List Chunk :=
  (directives.flatMap (sentIn .outbound)).filterMap (cryptoOf? e)

theorem cryptoIn_append (e : Epoch) (directives more : List Directive) :
    cryptoIn e (directives ++ more) = cryptoIn e directives ++ cryptoIn e more := by
  simp [cryptoIn]

@[simp] theorem cryptoIn_keyChanges (e : Epoch) (p : Progress) :
    cryptoIn e (HandshakeSetup.keyChanges p) = [] := by
  rw [cryptoIn, List.flatMap_eq_nil_iff.2 (sentIn_keyChanges .outbound p)]
  rfl

namespace HandshakeSetup

variable {Memory : Type} {setup : HandshakeSetup Memory}

theorem cryptoIn_sendings_inbound (e : Epoch) (x : Expectation) (crypto : Frame) :
    cryptoIn e (setup.sendings .inbound x crypto) = [] := by
  dsimp only [sendings]
  split <;> rfl

/-- A message of our own goes out in its epoch. -/
theorem cryptoIn_sendings_outbound {p : Progress} {x : Expectation}
    (hexpected : p.expectation? = some x) (offset : Nat) (data : Bytes) (e : Epoch) :
    cryptoIn e (setup.sendings .outbound x (.crypto offset data)) =
      if x.kind.epoch = e then [⟨offset, data⟩] else [] := by
  dsimp only [sendings]
  split
  · next hfirst =>
    have hinitial : x.kind.epoch = .initial :=
      Expectation.epoch_of_next_eq_clientHello ((Expectation.script_rank p).trans hexpected)
        hfirst.2
    by_cases he : Epoch.initial = e <;> simp [cryptoIn, sentIn, cryptoOf?, hinitial, he]
  · by_cases he : x.kind.epoch = e <;> simp [cryptoIn, sentIn, Directive.emit, cryptoOf?, he]

/-! ## Steps -/

/-- What a handshake has done with its moves on the way from one state to another. -/
structure Booked (h : Handshake Memory) (moves : List Move) (directives : List Directive)
    (h' : Handshake Memory) : Prop where
  /-- Each message is counted in its epoch. -/
  consumed : ∀ d e, (h'.flow d).consumed.get e =
    (h.flow d).consumed.get e + (carriedIn e (messagesFrom d moves)).flatten.length
  /-- Each of our own goes out, behind what has been counted before. -/
  sent : ∀ e, cryptoIn e directives =
    chunksFrom ((h.flow .outbound).consumed.get e) (carriedIn e (messagesFrom .outbound moves))

namespace Booked

variable {h h' h'' : Handshake Memory} {moves more : List Move} {directives rest : List Directive}

/-- Without a message nothing is counted and nothing goes out. -/
theorem of_no_message (hmoves : ∀ d, messagesFrom d moves = [])
    (hsame : ∀ d, (h'.flow d).consumed = (h.flow d).consumed) : Booked h moves [] h' where
  consumed := by
    intro d e
    rw [hmoves, hsame]
    rfl
  sent := by
    intro e
    rw [hmoves]
    rfl

theorem trans (hfirst : Booked h moves directives h') (hrest : Booked h' more rest h'') :
    Booked h (moves ++ more) (directives ++ rest) h'' where
  consumed := by
    intro d e
    rw [hrest.consumed, hfirst.consumed, messagesFrom_append, carriedIn_append, List.flatten_append,
      List.length_append, Nat.add_assoc]
  sent := by
    intro e
    rw [cryptoIn_append, hfirst.sent, hrest.sent, hfirst.consumed, messagesFrom_append,
      carriedIn_append, chunksFrom_append]

/-- One message. -/
theorem take {d : Direction} {found : Found} {memory : Memory}
    (htakes : setup.Takes d h found memory) :
    Booked h [.message d found] (setup.advance { h with memory } d found).1
      (setup.advance { h with memory } d found).2 where
  consumed := by
    intro d' e
    have hmessages := messagesFrom_map_message d' d [found]
    rw [List.map_singleton] at hmessages
    by_cases hd : d = d'
    · subst hd
      have hflow : ((setup.advance { h with memory } d found).2.flow d).consumed =
          (h.flow d).consumed.set ((h.flow d).consumed.get found.expectation.kind.epoch
            + found.message.length) found.expectation.kind.epoch := by
        cases d <;> rfl
      rw [hmessages, if_pos rfl, hflow, PerEpoch.get_set, carriedIn_cons]
      by_cases he : found.expectation.kind.epoch = e
      · simp [he, carriedIn]
      · simp [he, Ne.symm he, carriedIn]
    · have hflow : (setup.advance { h with memory } d found).2.flow d' = h.flow d' := by
        cases d <;> cases d' <;> first | rfl | exact absurd rfl hd
      rw [hmessages, if_neg hd, hflow]
      rfl
  sent := by
    intro e
    have hmessages := messagesFrom_map_message .outbound d [found]
    rw [List.map_singleton] at hmessages
    rw [hmessages, advance, cryptoIn_append, cryptoIn_keyChanges, List.append_nil]
    cases d with
    | inbound =>
      rw [cryptoIn_sendings_inbound, if_neg (by decide)]
      rfl
    | outbound =>
      rw [cryptoIn_sendings_outbound htakes.expected, if_pos rfl, carriedIn_cons]
      by_cases he : found.expectation.kind.epoch = e
      · rw [if_pos he, if_pos he, he]
        rfl
      · rw [if_neg he, if_neg he]
        rfl

theorem draining {d : Direction} {founds : List Found}
    (hdraining : setup.Draining d h founds directives h') :
    Booked h (founds.map (.message d)) directives h' := by
  induction hdraining with
  | stop h memory =>
    refine of_no_message (fun _ => rfl) fun d' => ?_
    cases d' <;> rfl
  | take htakes _ ih => exact (take htakes).trans ih

/-- Each call books its moves, and an answer tells what goes out. -/
theorem call (setup : HandshakeSetup Memory) (h : Handshake Memory) (c : HandshakeCall) :
    ∃ directives, Booked h (setup.moves h c) directives (setup.call h c).2
      ∧ ∀ answer, (setup.call h c).1 = .ok answer → answer = directives := by
  cases c with
  | crypto d e offset data =>
    obtain ⟨directives, hdraining, hanswer⟩ := setup.draining_processCrypto h d e offset data
    -- data that are only taken in are not counted
    have hreceive : Booked h [] []
        (h.setFlow ((h.flow d).receive setup.config.maxCryptoBuffer e offset data).2 d) := by
      refine of_no_message (fun _ => rfl) fun d' => ?_
      rw [receive_snd]
      cases d <;> cases d' <;> rfl
    exact ⟨directives, hreceive.trans (draining hdraining), hanswer⟩
  | done =>
    refine ⟨[], of_no_message (fun d => ?_) fun d => ?_, ?_⟩
    · dsimp only [moves]
      split <;> rfl
    · rw [HandshakeSetup.call, Handshake.flow_processDone]
    · intro answer hok
      change h.processDone.1 = _ at hok
      unfold Handshake.processDone at hok
      split at hok <;> cases hok
      rfl

theorem run (setup : HandshakeSetup Memory) (h : Handshake Memory) (calls : List HandshakeCall) :
    ∃ directives, Booked h (setup.history h calls) directives (setup.run h calls)
      ∧ ∀ answer, setup.answers h calls = .ok answer → answer = directives := by
  induction calls generalizing h with
  | nil =>
    refine ⟨[], of_no_message (fun _ => rfl) fun _ => rfl, ?_⟩
    intro answer hok
    injection hok with hok
    exact hok.symm
  | cons c calls ih =>
    obtain ⟨front, hfront, hfrontAnswer⟩ := call setup h c
    obtain ⟨back, hback, hbackAnswer⟩ := ih (setup.call h c).2
    refine ⟨front ++ back, hfront.trans hback, ?_⟩
    intro answer hok
    obtain ⟨front', back', hfront', hback', rfl⟩ := answers_cons_eq_ok.1 hok
    rw [hfrontAnswer front' hfront', hbackAnswer back' hback']

end Booked

/-! ## Runs -/

theorem consumed_start (setup : HandshakeSetup Memory) (d : Direction) (e : Epoch) :
    (setup.start.flow d).consumed.get e = 0 := by
  cases d <;> exact PerEpoch.get_all 0 e

/-- The offset of an epoch is the length of the messages that travel in it. -/
theorem consumed_of_run (setup : HandshakeSetup Memory) (calls : List HandshakeCall)
    (d : Direction) (e : Epoch) :
    ((setup.run setup.start calls).flow d).consumed.get e =
      (carriedIn e (messagesFrom d (setup.history setup.start calls))).flatten.length := by
  obtain ⟨_, hbooked, _⟩ := Booked.run setup setup.start calls
  rw [hbooked.consumed, consumed_start, Nat.zero_add]

/-- Our own messages go out one behind the other. -/
theorem cryptoIn_of_answers {calls : List HandshakeCall} {directives : List Directive}
    (hok : setup.answers setup.start calls = .ok directives) (e : Epoch) :
    cryptoIn e directives =
      chunksFrom 0 (carriedIn e (messagesFrom .outbound (setup.history setup.start calls))) := by
  obtain ⟨_, hbooked, hanswer⟩ := Booked.run setup setup.start calls
  rw [hanswer directives hok, hbooked.sent, consumed_start]

theorem accounted_of_run {setup : HandshakeSetup Unit} (hparser : setup.parser = .framing)
    (calls : List HandshakeCall) (d : Direction) :
    Accounted calls d ((setup.run setup.start calls).flow d) (setup.givenAll d setup.start calls)
      (messagesFrom d (setup.history setup.start calls)) := by
  have hstart : Accounted calls d (setup.start.flow d) [] [] := by
    cases d <;> exact .start calls _
  exact hstart.run hparser fun c hc => hc

/-- CRYPTO data are conserved. In each direction the messages so far and the bytes that wait are
what the streams have given out, in order, whether calls fail or not. So the offsets of the epochs
and the number of bytes that wait add up to what the streams have given out. If no call fails, then
the CRYPTO frames that go out in an epoch have our own messages of that epoch as their data, and the
offset of each is the length of the data before it. -/
theorem conserved_of_run {setup : HandshakeSetup Unit} (hparser : setup.parser = .framing)
    (calls : List HandshakeCall) :
    let h := setup.run setup.start calls
    let history := setup.history setup.start calls
    (∀ d,
      ((messagesFrom d history).map Found.message).flatten ++ (h.flow d).waiting =
          (setup.givenAll d setup.start calls).map Prod.snd
        ∧ (∀ e, (h.flow d).consumed.get e = (carriedIn e (messagesFrom d history)).flatten.length)
        ∧ (Epoch.all.map fun e => (h.flow d).consumed.get e).sum + (h.flow d).waiting.length =
          (Epoch.all.map fun e => (h.stream d e).delivered).sum)
      ∧ ∀ directives, setup.answers setup.start calls = .ok directives → ∀ e,
        (cryptoIn e directives).map Chunk.data = carriedIn e (messagesFrom .outbound history)
          ∧ ∀ front c back, cryptoIn e directives = front ++ c :: back →
            c.offset = (front.map fun x => x.data.length).sum := by
  intro h history
  constructor
  · intro d
    have haccounted := accounted_of_run hparser calls d
    refine ⟨haccounted.bytes.symm, setup.consumed_of_run calls d, ?_⟩
    have hdelivered : ∀ e, (h.stream d e).delivered =
        (fromEpoch e (setup.givenAll d setup.start calls)).length := haccounted.delivered
    have hlength := congrArg List.length haccounted.bytes
    rw [List.length_map, List.length_append] at hlength
    simp only [h, setup.consumed_of_run calls d, hdelivered, sum_length_carriedIn,
      sum_length_fromEpoch]
    exact hlength.symm
  · intro directives hok e
    have hsent := cryptoIn_of_answers hok e
    constructor
    · rw [hsent, map_data_chunksFrom]
    · intro front c back hfront
      rw [hsent] at hfront
      have hoffset := offset_of_chunksFrom hfront
      rwa [Nat.zero_add] at hoffset

/-- A server sends its flight in one piece, as far as the beginning of the last message. The client
comes in between, and is refused. -/
theorem conserved_of_run_flight :
    let setup : HandshakeSetup Unit :=
      { side := .server, config := {}, parser := .framing, memory := (), randomness := fun _ => 7 }
    let calls : List HandshakeCall :=
      [.crypto .inbound .initial 0 [1, 0, 0, 0], .crypto .outbound .initial 0 [2, 0, 0, 1, 9],
        .crypto .outbound .handshake 0 [8, 0, 0, 1, 5, 11, 0, 0, 0, 15, 0, 0, 0, 20, 0, 0]]
    let refused : HandshakeCall := .crypto .inbound .handshake 0 [20, 0]
    let h := setup.run setup.start (calls ++ [refused])
    (∃ directives, setup.answers setup.start calls = .ok directives
        ∧ (cryptoIn .handshake directives).map Chunk.data =
          [[8, 0, 0, 1, 5], [11, 0, 0, 0], [15, 0, 0, 0]]
        ∧ ∀ front c, cryptoIn .handshake directives = front ++ [c] → c.offset = 9)
      ∧ (setup.answers setup.start (calls ++ [refused])).isOk = false
      ∧ (h.flow .inbound).waiting = [20, 0]
      ∧ (Epoch.all.map fun e => (h.flow .inbound).consumed.get e).sum + 2 =
        (Epoch.all.map fun e => (h.stream .inbound e).delivered).sum := by
  intro setup calls refused h
  have hok : (setup.answers setup.start calls).isOk = true := by decide +kernel
  obtain ⟨directives, hok⟩ := Result.exists_of_isOk hok
  obtain ⟨hdata, hoffset⟩ := (conserved_of_run rfl calls).2 directives hok .handshake
  have hmessages : carriedIn .handshake (messagesFrom .outbound (setup.history setup.start calls)) =
      [[8, 0, 0, 1, 5], [11, 0, 0, 0], [15, 0, 0, 0]] := by
    decide +kernel
  rw [hmessages] at hdata
  have hwaiting : (h.flow .inbound).waiting = [20, 0] := by decide +kernel
  have hsum : (Epoch.all.map fun e => (h.flow .inbound).consumed.get e).sum
      + (h.flow .inbound).waiting.length =
        (Epoch.all.map fun e => (h.stream .inbound e).delivered).sum :=
    ((conserved_of_run rfl (calls ++ [refused])).1 .inbound).2.2
  rw [hwaiting] at hsum
  refine ⟨⟨directives, hok, hdata, ?_⟩, by decide +kernel, hwaiting, hsum⟩
  intro front c hfront
  have hbefore := congrArg List.dropLast hdata
  rw [hfront, List.map_append, List.map_singleton, List.dropLast_concat] at hbefore
  have hlengths : front.map (fun x => x.data.length) = (front.map Chunk.data).map List.length := by
    simp
  rw [hoffset front c [] hfront, hlengths, hbefore]
  rfl

end HandshakeSetup

end QuicTransport
