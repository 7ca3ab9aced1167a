import QuicTransport.Proofs.Fragmentation

set_option autoImplicit false

/-! # How much CRYPTO data a direction keeps

Each direction has four buffers: the bytes that wait for the rest of their message, and what the
streams of the three epochs hold back. Each of them is checked against the configured limit, but
never all of them together. So as long as no call is refused, each buffer keeps within the limit
(`CryptoFlow.Within`) and a direction has at most four times as many bytes.

A call looks only at the buffers that it changes. If they were within the limit before, the data are
taken in exactly if they are within the limit afterwards (`CryptoFlow.Within.receive_fst`). -/

namespace QuicTransport

namespace CryptoStream

/-- Giving out makes what is held no more. -/
theorem pendingBytes_release_le (pending : List Chunk) (d n : Nat) :
    (release pending d n).2.pendingBytes ≤ n := by
  induction pending generalizing d n with
  | nil => exact Nat.le_refl n
  | cons c cs ih =>
    by_cases h : d < c.offset
    · simp [release_cons_of_lt h]
    · rw [release_cons_of_le (Nat.le_of_not_lt h)]
      exact (ih _ _).trans (Nat.sub_le n _)

/-- A chunk that is not refused has its place taken, or leaves the stream within the limit. -/
theorem hold_ok_cases {s : CryptoStream} {c : Chunk} {limit : Nat} {bytes : Bytes}
    (hok : (s.hold c limit).1 = .ok bytes) :
    (s.hold c limit).2 = s ∨ (s.hold c limit).2.pendingBytes ≤ limit := by
  unfold hold at hok ⊢
  split
  · exact Or.inl rfl
  · next hnew =>
    rw [if_neg hnew] at hok
    dsimp only at hok ⊢
    split
    · next hlimit =>
      rw [if_pos hlimit] at hok
      cases hok
    · next hlimit => exact Or.inr (Nat.le_of_not_lt hlimit)

/-- A chunk that is not refused leaves no more held than the limit allows, unless that much was held
before. -/
theorem pendingBytes_insert_le {s : CryptoStream} {offset : Nat} {data : Bytes} {limit : Nat}
    {bytes : Bytes} (hok : (s.insert offset data limit).1 = .ok bytes) :
    (s.insert offset data limit).2.pendingBytes ≤ max s.pendingBytes limit := by
  by_cases hgap : s.delivered < offset
  · rw [insert_of_gap limit hgap] at hok ⊢
    rcases hold_ok_cases hok with hsame | hle
    · rw [hsame]
      exact Nat.le_max_left _ _
    · exact hle.trans (Nat.le_max_right _ _)
  · by_cases hreach : s.delivered < offset + data.length
    · rw [insert_of_reach limit (Nat.le_of_not_lt hgap) hreach]
      exact (pendingBytes_release_le _ _ _).trans (Nat.le_max_left _ _)
    · rw [insert_of_stop_le limit (Nat.le_of_not_lt hreach)]
      exact Nat.le_max_left _ _

/-- A stream within its limit takes a chunk exactly if it is within its limit afterwards. -/
theorem insert_isOk_iff {s : CryptoStream} {limit : Nat} (hs : s.pendingBytes ≤ limit)
    (offset : Nat) (data : Bytes) :
    (∃ bytes, (s.insert offset data limit).1 = .ok bytes) ↔
      (s.insert offset data limit).2.pendingBytes ≤ limit := by
  refine ⟨?_, insert_ok_of_le⟩
  rintro ⟨bytes, hok⟩
  exact (pendingBytes_insert_le hok).trans (Nat.max_le.2 ⟨hs, Nat.le_refl limit⟩)

theorem error_of_insert {s : CryptoStream} {offset : Nat} {data : Bytes} {limit : Nat} {e : Error}
    (h : (s.insert offset data limit).1 = .error e) : e = .transport .cryptoBufferExceeded := by
  by_cases hgap : s.delivered < offset
  · rw [insert_of_gap limit hgap, hold] at h
    split at h
    · simp at h
    · dsimp only at h
      split at h <;> simp_all
  · by_cases hreach : s.delivered < offset + data.length
    · simp [insert_of_reach limit (Nat.le_of_not_lt hgap) hreach] at h
    · simp [insert_of_stop_le limit (Nat.le_of_not_lt hreach)] at h

end CryptoStream

/-! ## One direction -/

namespace CryptoFlow

/-- The number of bytes that a stream of the direction holds back. -/
def heldIn (f : CryptoFlow) (e : Epoch) : Nat := heldBytes (f.streams.get e).pending

/-- The number of bytes that no message has claimed: those that wait, and those that are held back
in the three epochs. -/
def unclaimed (f : CryptoFlow) : Nat :=
  f.waiting.length + (Epoch.all.map f.heldIn).sum

/-- Each of the four buffers keeps within a limit. -/
structure Within (limit : Nat) (f : CryptoFlow) : Prop where
  tidy : ∀ e, (f.streams.get e).Tidy
  streams : ∀ e, (f.streams.get e).pendingBytes ≤ limit
  waiting : f.waiting.length ≤ limit

namespace Within

variable {limit : Nat} {f : CryptoFlow}

theorem empty (limit : Nat) : Within limit {} where
  tidy := fun e => by simpa using CryptoStream.tidy_empty
  streams := fun e => by simp [CryptoStream.empty]
  waiting := by simp

theorem heldIn_le (h : Within limit f) (e : Epoch) : f.heldIn e ≤ limit := by
  rw [heldIn, ← (h.tidy e).counted]
  exact h.streams e

theorem unclaimed_le (h : Within limit f) : f.unclaimed ≤ 4 * limit := by
  have hwaiting := h.waiting
  have hinitial := h.heldIn_le .initial
  have hhandshake := h.heldIn_le .handshake
  have happlication := h.heldIn_le .application
  simp only [unclaimed, Epoch.all, List.map_cons, List.map_nil, List.sum_cons, List.sum_nil]
  omega

/-- The buffers that data go to decide whether there is room: the stream of the epoch, and the bytes
that wait. -/
theorem receive_fst (h : Within limit f) (e : Epoch) (offset : Nat) (data : Bytes) :
    let after := (f.receive limit e offset data).2
    (f.receive limit e offset data).1 =
      if after.heldIn e ≤ limit ∧ after.waiting.length ≤ limit then .ok ()
      else .error (.transport .cryptoBufferExceeded) := by
  intro after
  have htidy := (h.tidy e).insert offset data limit
  have hroom := CryptoStream.insert_isOk_iff (h.streams e) offset data
  have hheld : after.heldIn e = ((f.streams.get e).insert offset data limit).2.pendingBytes := by
    simp [after, heldIn, receive_snd, htidy.counted]
  have hwaits : after.waiting = f.waiting
      ++ CryptoStream.given ((f.streams.get e).insert offset data limit).1 := by
    simp [after, receive_snd]
  rw [hheld, hwaits, receive]
  rcases hinsert : (f.streams.get e).insert offset data limit with ⟨answer, s⟩
  rw [hinsert] at hroom
  cases answer with
  | error error =>
    have hfull : ¬ s.pendingBytes ≤ limit := fun hle => by simpa using hroom.2 hle
    have herror := CryptoStream.error_of_insert (congrArg Prod.fst hinsert)
    simp [hfull, herror]
  | ok bytes =>
    have hle : s.pendingBytes ≤ limit := hroom.1 ⟨bytes, rfl⟩
    by_cases hwaiting : f.waiting.length + bytes.length ≤ limit
    · simp [CryptoStream.given, hle, hwaiting, Nat.not_lt_of_le hwaiting]
    · simp [CryptoStream.given, hwaiting, Nat.lt_of_not_le hwaiting]

theorem receive (h : Within limit f) {e : Epoch} {offset : Nat} {data : Bytes}
    (hok : (f.receive limit e offset data).1 = .ok ()) :
    Within limit (f.receive limit e offset data).2 := by
  have htidy := (h.tidy e).insert offset data limit
  rw [h.receive_fst] at hok
  split at hok
  · next hroom =>
    rw [heldIn, receive_snd] at hroom
    simp only [PerEpoch.get_set_self] at hroom
    rw [receive_snd]
    refine ⟨fun e' => ?_, fun e' => ?_, hroom.2⟩
    · simp only [PerEpoch.get_set]
      split
      · exact htidy
      · exact h.tidy e'
    · simp only [PerEpoch.get_set]
      split
      · rw [htidy.counted]
        exact hroom.1
      · exact h.streams e'
  · cases hok

end Within

end CryptoFlow

/-! ## Runs -/

namespace HandshakeSetup

variable {Memory : Type} {setup : HandshakeSetup Memory} {h : Handshake Memory}

/-- Messages are taken from the bytes that wait, and that leaves room. -/
theorem Draining.within {d : Direction} {h' : Handshake Memory} {founds : List Found}
    {directives : List Directive} (hdraining : setup.Draining d h founds directives h')
    {limit : Nat} (hwithin : (h.flow d).Within limit) : (h'.flow d).Within limit := by
  have hstreams := hdraining.streams d
  refine ⟨?_, ?_, hdraining.length_waiting_le.trans hwithin.waiting⟩
  · rw [hstreams]
    exact hwithin.tidy
  · rw [hstreams]
    exact hwithin.streams

/-- A call that is not refused leaves each buffer within the limit. -/
theorem within_call {c : HandshakeCall} {directives : List Directive}
    (hok : (setup.call h c).1 = .ok directives) {d : Direction}
    (hwithin : (h.flow d).Within setup.config.maxCryptoBuffer) :
    ((setup.call h c).2.flow d).Within setup.config.maxCryptoBuffer := by
  cases c with
  | crypto d' e offset data =>
    by_cases hd : d' = d
    · subst hd
      obtain ⟨sent, hdraining, _⟩ := setup.draining_processCrypto h d' e offset data
      refine hdraining.within ?_
      rw [Handshake.flow_setFlow]
      refine hwithin.receive ?_
      -- what a stream or a full buffer refuses is refused by the call
      rcases hreceive : (h.flow d').receive setup.config.maxCryptoBuffer e offset data with
        ⟨answer, f⟩
      cases answer with
      | ok _ => rfl
      | error error => simp [call, processCrypto, hreceive] at hok
    · rw [call, setup.flow_processCrypto_of_ne h hd]
      exact hwithin
  | done => simpa [call] using hwithin

theorem within_run {calls : List HandshakeCall} {directives : List Directive}
    (hok : setup.answers h calls = .ok directives) {d : Direction}
    (hwithin : (h.flow d).Within setup.config.maxCryptoBuffer) :
    ((setup.run h calls).flow d).Within setup.config.maxCryptoBuffer := by
  induction calls generalizing h directives with
  | nil => exact hwithin
  | cons c calls ih =>
    obtain ⟨front, back, hfront, hback, rfl⟩ := answers_cons_eq_ok.1 hok
    exact ih hback (within_call hfront hwithin)

/-- As long as no call is refused, each of the four buffers of a direction keeps within the limit,
and a direction has at most four times as many bytes that no message has claimed. The next data are
taken in exactly if neither the stream of their epoch nor the bytes that wait then exceed the
limit; the other streams do not count. -/
theorem unclaimed_le_of_answers (setup : HandshakeSetup Memory) {calls : List HandshakeCall}
    {directives : List Directive} (hok : setup.answers setup.start calls = .ok directives)
    (d : Direction) :
    let limit := setup.config.maxCryptoBuffer
    let f := (setup.run setup.start calls).flow d
    f.waiting.length ≤ limit ∧ (∀ e, f.heldIn e ≤ limit) ∧ f.unclaimed ≤ 4 * limit
      ∧ ∀ e offset data,
        let after := (f.receive limit e offset data).2
        (f.receive limit e offset data).1 =
          if after.heldIn e ≤ limit ∧ after.waiting.length ≤ limit then .ok ()
          else .error (.transport .cryptoBufferExceeded) := by
  intro limit f
  have hwithin : f.Within limit := by
    refine within_run hok ?_
    cases d <;> exact CryptoFlow.Within.empty limit
  exact ⟨hwithin.waiting, hwithin.heldIn_le, hwithin.unclaimed_le, hwithin.receive_fst⟩

/-- A server that may keep four bytes. -/
def smallServer : HandshakeSetup Unit :=
  { side := .server, config := { maxCryptoBuffer := 4 }, parser := .framing, memory := (),
    randomness := fun _ => 0 }

/-- The ClientHello comes from behind, in two epochs. -/
theorem unclaimed_le_of_answers_gaps :
    let calls : List HandshakeCall :=
      [.crypto .inbound .initial 2 [0, 7], .crypto .inbound .handshake 4 [1, 2, 3, 4],
        .crypto .inbound .initial 0 [1, 0]]
    let f := (smallServer.run smallServer.start calls).flow .inbound
    (smallServer.answers smallServer.start calls).isOk = true ∧ f.waiting = [1, 0, 0, 7]
      ∧ f.unclaimed = 8 ∧ f.unclaimed ≤ 16
      ∧ (f.receive 4 .initial 4 [9]).1 = .error (.transport .cryptoBufferExceeded) := by
  intro calls f
  have hisOk : (smallServer.answers smallServer.start calls).isOk = true := by decide +kernel
  obtain ⟨directives, hok⟩ := Result.exists_of_isOk hisOk
  obtain ⟨_, _, hle, hreceive⟩ := smallServer.unclaimed_le_of_answers hok .inbound
  refine ⟨hisOk, by decide +kernel, by decide +kernel, hle, ?_⟩
  exact (hreceive .initial 4 [9]).trans (if_neg (by decide +kernel))

/-- Four bytes wait, and four more are held back in each epoch. No call is refused, and the server
keeps four times as much as it may. -/
theorem unclaimed_exceeds_limit :
    let calls : List HandshakeCall :=
      [.crypto .inbound .initial 0 [1, 0, 0, 9], .crypto .inbound .initial 5 [1, 2, 3, 4],
        .crypto .inbound .handshake 1 [1, 2, 3, 4], .crypto .inbound .application 1 [1, 2, 3, 4]]
    let f := (smallServer.run smallServer.start calls).flow .inbound
    (smallServer.answers smallServer.start calls).isOk = true
      ∧ f.unclaimed = 4 * smallServer.config.maxCryptoBuffer
      ∧ ¬ f.unclaimed ≤ smallServer.config.maxCryptoBuffer := by
  decide +kernel

end HandshakeSetup

end QuicTransport
