import QuicTransport.Handshake.Message

set_option autoImplicit false

/-! # Where a message ends

A framed message tells its kind and its length first, so it ends at the same place whatever follows
it (`split_frame`). Whatever is split off is a framed message of the kind that was asked for
(`isFramed_of_split`), and a message of another kind is told from its first byte.

Each of the three answers is therefore given for one kind of byte string: those that begin with a
message (`split_eq_message_iff`), those that could still become one (`split_eq_needMore_iff`), and
those whose first byte is wrong (`split_eq_invalid_iff`). Only the second can change when more bytes
arrive. -/

namespace QuicTransport

namespace MessageKind

theorem code_injective {k l : MessageKind} (h : k.code = l.code) : k = l := by
  have hk := ofCode?_code k
  rw [h, ofCode?_code, Option.some.injEq] at hk
  exact hk.symm

end MessageKind

namespace Message

/-- The bytes are a message of that kind, with a body that its length field has room for. -/
def IsFramed (kind : MessageKind) (bs : Bytes) : Prop :=
  ∃ body : Bytes, body.length < Bytes.span 3 ∧ bs = frame kind body

theorem splitBody_frame {kind : MessageKind} {body : Bytes} (h : body.length < Bytes.span 3)
    (rest : Bytes) :
    splitBody kind (Bytes.bigEndian 3 body.length ++ (body ++ rest)) =
      .message (frame kind body) := by
  have hlength : Bytes.split? 3 (Bytes.bigEndian 3 body.length ++ (body ++ rest)) =
      some (Bytes.bigEndian 3 body.length, body ++ rest) := by
    have happend := Bytes.split?_append (Bytes.bigEndian 3 body.length) (body ++ rest)
    rwa [Bytes.length_bigEndian] at happend
  rw [splitBody, hlength]
  dsimp only
  rw [Bytes.ofBigEndian_bigEndian h, Bytes.split?_append]
  rfl

/-- A message is split off whole, whatever follows it. -/
theorem split_frame {kind : MessageKind} {message : Bytes} (h : IsFramed kind message)
    (rest : Bytes) : split kind (message ++ rest) = .message message := by
  obtain ⟨body, hbody, rfl⟩ := h
  have hbytes : frame kind body ++ rest =
      kind.code :: (Bytes.bigEndian 3 body.length ++ (body ++ rest)) := by
    rw [frame, List.cons_append, List.cons_append, List.append_assoc]
  rw [hbytes, split, if_pos rfl, splitBody_frame hbody]

theorem split_frame_of_ne {kind other : MessageKind} (hne : other ≠ kind) {message : Bytes}
    (h : IsFramed other message) (rest : Bytes) : split kind (message ++ rest) = .invalid := by
  obtain ⟨body, _, rfl⟩ := h
  have hcode : other.code ≠ kind.code := fun h => hne (MessageKind.code_injective h)
  rw [frame, List.cons_append, List.cons_append, split, if_neg hcode]

/-- A message that is split off is framed, and the bytes begin with it. -/
theorem isFramed_and_prefix_of_split {kind : MessageKind} {bs message : Bytes}
    (h : split kind bs = .message message) : IsFramed kind message ∧ message <+: bs := by
  cases bs with
  | nil => cases h
  | cons code rest =>
    rw [split] at h
    split at h
    · next hcode =>
      unfold splitBody at h
      split at h
      · cases h
      · next length after hlength =>
        obtain ⟨hrest, hthree⟩ := Bytes.split?_eq_some_iff.1 hlength
        split at h
        · cases h
        · next body more hbody =>
          obtain ⟨hafter, hcount⟩ := Bytes.split?_eq_some_iff.1 hbody
          injection h with h
          refine ⟨⟨body, ?_, ?_⟩, more, ?_⟩
          · rw [hcount, ← hthree]
            exact Bytes.ofBigEndian_lt length
          · rw [← h, frame, hcount, ← hthree, Bytes.bigEndian_ofBigEndian]
          · simp [← h, hcode, hrest, hafter]
    · cases h

theorem isFramed_of_split {kind : MessageKind} {bs message : Bytes}
    (h : split kind bs = .message message) : IsFramed kind message :=
  (isFramed_and_prefix_of_split h).1

/-- More bytes behind a message do not change it. -/
theorem split_append_of_message {kind : MessageKind} {bs message : Bytes}
    (h : split kind bs = .message message) (more : Bytes) :
    split kind (bs ++ more) = .message message := by
  obtain ⟨hframed, rest, rfl⟩ := isFramed_and_prefix_of_split h
  rw [List.append_assoc, split_frame hframed]

/-- What does not begin with a message of a kind will never do so. -/
theorem split_append_of_invalid {kind : MessageKind} {bs : Bytes} (h : split kind bs = .invalid)
    (more : Bytes) : split kind (bs ++ more) = .invalid := by
  cases bs with
  | nil => cases h
  | cons code rest =>
    rw [split] at h
    split at h
    · -- after the kind there is nothing wrong with any bytes
      unfold splitBody at h
      split at h
      · cases h
      · split at h <;> cases h
    · next hcode => rw [List.cons_append, split, if_neg hcode]

/-- The beginning of the beginning of a message is one too. -/
theorem split_of_append_needMore {kind : MessageKind} {bs more : Bytes}
    (h : split kind (bs ++ more) = .needMore) : split kind bs = .needMore := by
  cases hsplit : split kind bs with
  | needMore => rfl
  | message message =>
    rw [split_append_of_message hsplit] at h
    cases h
  | invalid =>
    rw [split_append_of_invalid hsplit] at h
    cases h

theorem IsFramed.ne_nil {kind : MessageKind} {bs : Bytes} (h : IsFramed kind bs) :
    bs ≠ [] := by
  obtain ⟨body, _, rfl⟩ := h
  exact List.cons_ne_nil _ _

/-- Two framed messages at the front of the same bytes are one. -/
theorem IsFramed.unique {kind other : MessageKind} {a b more rest : Bytes}
    (ha : IsFramed kind a) (hb : IsFramed other b) (h : a ++ more = b ++ rest) :
    kind = other ∧ a = b := by
  have hsplit : split kind (b ++ rest) = .message a := by rw [← h, split_frame ha]
  by_cases hkind : other = kind
  · subst hkind
    rw [split_frame hb] at hsplit
    injection hsplit with hsplit
    exact ⟨rfl, hsplit.symm⟩
  · rw [split_frame_of_ne hkind hb] at hsplit
    cases hsplit

/-! ## Every answer -/

@[simp] theorem length_frame (kind : MessageKind) (body : Bytes) :
    (frame kind body).length = body.length + 4 := by
  simp [frame]
  omega

@[simp] theorem drop_frame (kind : MessageKind) (body : Bytes) :
    (frame kind body).drop 4 = body := by
  have hheader : (kind.code :: Bytes.bigEndian 3 body.length).length = 4 := by simp
  rw [frame, ← hheader, List.drop_left]

/-- The length of a body is told by three bytes. -/
theorem isFramed_iff {kind : MessageKind} {message : Bytes} :
    IsFramed kind message ↔ ∃ body : Bytes, body.length ≤ 0xffffff ∧ message = frame kind body :=
  exists_congr fun _ => and_congr_left' (show _ < 0xffffff + 1 ↔ _ from Nat.lt_succ_iff)

theorem isFramed_frame (kind : MessageKind) {body : Bytes} (h : body.length ≤ 0xffffff) :
    IsFramed kind (frame kind body) :=
  isFramed_iff.2 ⟨body, h, rfl⟩

/-- A message is found exactly if the bytes begin with it. -/
theorem split_eq_message_iff {kind : MessageKind} {bs message : Bytes} :
    split kind bs = .message message ↔ IsFramed kind message ∧ message <+: bs := by
  constructor
  · exact isFramed_and_prefix_of_split
  · rintro ⟨hframed, rest, rfl⟩
    exact split_frame hframed rest

theorem splitBody_ne_invalid (kind : MessageKind) (bs : Bytes) :
    splitBody kind bs ≠ .invalid := by
  unfold splitBody
  split
  · nofun
  · split <;> nofun

/-- Nothing but the first byte speaks against a message. -/
theorem split_eq_invalid_iff {kind : MessageKind} {bs : Bytes} :
    split kind bs = .invalid ↔ ∃ first rest, bs = first :: rest ∧ first ≠ kind.code := by
  cases bs with
  | nil => simp [split]
  | cons first rest =>
    rw [split]
    by_cases hcode : first = kind.code
    · simp [hcode, splitBody_ne_invalid]
    · simp [hcode]

/-- More bytes do not change an answer that has been given. -/
theorem split_append_of_ne {kind : MessageKind} {bs : Bytes} (h : split kind bs ≠ .needMore)
    (more : Bytes) : split kind (bs ++ more) = split kind bs := by
  cases hsplit : split kind bs with
  | message message => exact split_append_of_message hsplit more
  | needMore => exact absurd hsplit h
  | invalid => exact split_append_of_invalid hsplit more

/-- The beginning of a message, short of all of it, asks for more. -/
theorem split_of_prefix {kind : MessageKind} {bs message : Bytes} (h : IsFramed kind message)
    (hfront : bs <+: message) (hne : bs ≠ message) : split kind bs = .needMore := by
  obtain ⟨rest, rfl⟩ := hfront
  have hwhole := split_frame h []
  rw [List.append_nil] at hwhole
  cases hanswer : split kind bs with
  | needMore => rfl
  | message found =>
    -- it would be the whole message, of which the bytes are only the beginning
    rw [split_append_of_message hanswer] at hwhole
    injection hwhole with hwhole
    have hfound := (isFramed_and_prefix_of_split hanswer).2.length_le
    rw [hwhole, List.length_append] at hfound
    have hrest : rest = [] := List.length_eq_zero_iff.1 (by omega)
    exact absurd (by rw [hrest, List.append_nil]) hne
  | invalid =>
    rw [split_append_of_invalid hanswer] at hwhole
    cases hwhole

/-- Any three bytes are the length of some body, which may begin with any bytes that are not more
than it says. -/
theorem exists_isFramed (kind : MessageKind) {header start : Bytes} (hthree : header.length = 3)
    (hroom : start.length ≤ Bytes.ofBigEndian header) :
    ∃ more, IsFramed kind (kind.code :: header ++ start ++ more)
      ∧ start.length + more.length = Bytes.ofBigEndian header := by
  have hbody : (start ++ List.replicate (Bytes.ofBigEndian header - start.length) 0).length =
      Bytes.ofBigEndian header := by
    rw [List.length_append, List.length_replicate]
    omega
  refine ⟨List.replicate (Bytes.ofBigEndian header - start.length) 0,
    ⟨start ++ List.replicate (Bytes.ofBigEndian header - start.length) 0, ?_, ?_⟩, ?_⟩
  · rw [hbody, ← hthree]
    exact Bytes.ofBigEndian_lt header
  · rw [frame, hbody, ← hthree, Bytes.bigEndian_ofBigEndian, List.append_assoc]
  · rwa [List.length_append] at hbody

/-- If the bytes behind the kind are not enough, some more of them complete a message. -/
theorem exists_more_of_splitBody {kind : MessageKind} {rest : Bytes}
    (h : splitBody kind rest = .needMore) :
    ∃ more, more ≠ [] ∧ IsFramed kind (kind.code :: rest ++ more) := by
  unfold splitBody at h
  split at h
  · next hshort =>
    -- zeros make up the rest of the length
    rw [Bytes.split?_eq_none_iff] at hshort
    have hfilled : (rest ++ List.replicate (3 - rest.length) 0).length = 3 := by
      rw [List.length_append, List.length_replicate]
      omega
    obtain ⟨more, hframed, _⟩ :=
      exists_isFramed kind hfilled (show ([] : Bytes).length ≤ _ from Nat.zero_le _)
    refine ⟨List.replicate (3 - rest.length) 0 ++ more, ?_, by simpa using hframed⟩
    refine List.append_ne_nil_of_left_ne_nil (fun hnil => ?_) more
    have hlength := congrArg List.length hnil
    rw [List.length_replicate, List.length_nil] at hlength
    omega
  · next length after hlength =>
    obtain ⟨rfl, hthree⟩ := Bytes.split?_eq_some_iff.1 hlength
    split at h
    · next hshort =>
      rw [Bytes.split?_eq_none_iff] at hshort
      obtain ⟨more, hframed, hmore⟩ := exists_isFramed kind hthree (Nat.le_of_lt hshort)
      refine ⟨more, ?_, by simpa using hframed⟩
      rintro rfl
      rw [List.length_nil, Nat.add_zero] at hmore
      exact Nat.ne_of_lt hshort hmore
    · cases h

/-- More is asked for exactly where a message begins that is not all there. -/
theorem split_eq_needMore_iff {kind : MessageKind} {bs : Bytes} :
    split kind bs = .needMore ↔
      ∃ message, IsFramed kind message ∧ bs <+: message ∧ bs ≠ message := by
  constructor
  · intro h
    cases bs with
    | nil => exact ⟨frame kind [], isFramed_frame kind (Nat.zero_le _), List.nil_prefix, nofun⟩
    | cons first rest =>
      rw [split] at h
      split at h
      · next hcode =>
        subst hcode
        obtain ⟨more, hne, hframed⟩ := exists_more_of_splitBody h
        exact ⟨_, hframed, List.prefix_append _ _, fun heq => hne (List.self_eq_append_right.1 heq)⟩
      · cases h
  · rintro ⟨message, hframed, hfront, hne⟩
    exact split_of_prefix hframed hfront hne

/-! ## Messages in a row -/

/-- Split off a message of each kind in turn, up to the first that is not there. What is left comes
with the messages. -/
def splitEach : List MessageKind → Bytes → List Bytes × Bytes
  | [], bs => ([], bs)
  | kind :: kinds, bs =>
    match split kind bs with
    | .message message =>
      let (messages, rest) := splitEach kinds (bs.drop message.length)
      (message :: messages, rest)
    | _ => ([], bs)

theorem splitEach_cons {kind : MessageKind} {kinds : List MessageKind} {message : Bytes}
    (h : IsFramed kind message) (rest : Bytes) :
    splitEach (kind :: kinds) (message ++ rest) =
      (message :: (splitEach kinds rest).1, (splitEach kinds rest).2) := by
  rw [splitEach, split_frame h]
  simp only [List.drop_left]

/-- Messages in a row are split off one by one, whatever follows them. -/
theorem splitEach_flatten {ms : List (MessageKind × Bytes)}
    (h : ∀ m ∈ ms, m.2.length ≤ 0xffffff) (rest : Bytes) :
    splitEach (ms.map Prod.fst) ((ms.map fun m => frame m.1 m.2).flatten ++ rest) =
      (ms.map fun m => frame m.1 m.2, rest) := by
  induction ms with
  | nil => rfl
  | cons m ms ih =>
    obtain ⟨hm, hms⟩ := List.forall_mem_cons.1 h
    rw [List.map_cons, List.map_cons, List.flatten_cons, List.append_assoc,
      splitEach_cons (isFramed_frame m.1 hm), ih hms]

/-- Messages are told apart by their first four bytes alone. A message is found in front of
anything, the beginning of a message asks for more, and only a first byte of another kind is
refused. What has been found or refused stays so when more bytes arrive, so messages in a row come
out as they went in. -/
theorem framing_exact :
    (∀ kind : MessageKind,
      (∀ body rest : Bytes, body.length ≤ 0xffffff →
          split kind (frame kind body ++ rest) = .message (frame kind body))
        ∧ (∀ bs, split kind bs = .needMore ↔ ∃ body : Bytes,
          body.length ≤ 0xffffff ∧ bs <+: frame kind body ∧ bs ≠ frame kind body)
        ∧ (∀ bs, split kind bs = .invalid ↔ ∃ first rest, bs = first :: rest ∧ first ≠ kind.code)
        ∧ (∀ bs more, split kind bs ≠ .needMore → split kind (bs ++ more) = split kind bs)
        ∧ ∀ bs message, split kind bs = .message message →
          message <+: bs ∧ 4 ≤ message.length ∧ message = frame kind (message.drop 4))
      ∧ ∀ (ms : List (MessageKind × Bytes)) (rest : Bytes), (∀ m ∈ ms, m.2.length ≤ 0xffffff) →
        splitEach (ms.map Prod.fst) ((ms.map fun m => frame m.1 m.2).flatten ++ rest) =
          (ms.map fun m => frame m.1 m.2, rest) := by
  refine ⟨fun kind => ⟨?_, ?_, fun bs => split_eq_invalid_iff, ?_, ?_⟩, ?_⟩
  · intro body rest h
    exact split_eq_message_iff.2 ⟨isFramed_frame kind h, List.prefix_append _ _⟩
  · intro bs
    rw [split_eq_needMore_iff]
    constructor
    · rintro ⟨message, hframed, hfront, hne⟩
      obtain ⟨body, hbody, rfl⟩ := isFramed_iff.1 hframed
      exact ⟨body, hbody, hfront, hne⟩
    · rintro ⟨body, hbody, hfront, hne⟩
      exact ⟨_, isFramed_frame kind hbody, hfront, hne⟩
  · intro bs more h
    exact split_append_of_ne h more
  · intro bs message h
    obtain ⟨⟨body, _, rfl⟩, hfront⟩ := split_eq_message_iff.1 h
    rw [drop_frame, length_frame]
    exact ⟨hfront, Nat.le_add_left 4 _, rfl⟩
  · intro ms rest h
    exact splitEach_flatten h rest

/-- A Finished with a body of two bytes in front of one more byte, its first two bytes, and the same
message behind another one. -/
theorem framing_exact_finished :
    split .finished [20, 0, 0, 2, 5, 6, 8] = .message [20, 0, 0, 2, 5, 6]
      ∧ split .finished [20, 0] = .needMore
      ∧ split .finished ([8] ++ [0, 0]) = .invalid
      ∧ [20, 0, 0, 2, 5, 6] = frame .finished [5, 6]
      ∧ splitEach [.encryptedExtensions, .finished] [8, 0, 0, 0, 20, 0, 0, 2, 5, 6, 8] =
        ([[8, 0, 0, 0], [20, 0, 0, 2, 5, 6]], [8]) := by
  obtain ⟨hmessage, hmore, hinvalid, hstays, hshape⟩ := framing_exact.1 .finished
  have hwhole := hmessage [5, 6] [8] (by decide)
  have hother : split .finished [8] = .invalid := (hinvalid [8]).2 ⟨8, [], rfl, by decide⟩
  refine ⟨hwhole, (hmore [20, 0]).2 ⟨[5, 6], by decide, by decide, by decide⟩, ?_, ?_, ?_⟩
  · rw [hstays [8] [0, 0] (by rw [hother]; nofun), hother]
  · exact (hshape _ _ hwhole).2.2
  · exact framing_exact.2 [(.encryptedExtensions, []), (.finished, [5, 6])] [8] (by decide)

end Message

end QuicTransport
