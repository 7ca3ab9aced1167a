import QuicTransport.Proofs.PacketSplitting

set_option autoImplicit false

/-! # Version Negotiation packets are read back

The list of versions has no length of its own. It takes the rest of the datagram, so a Version
Negotiation packet is always the last one, and it can only stand behind packets that tell where they
end. Four bytes make one version and one version makes four bytes, so nothing is lost in either
direction.

The first byte is the exception. It is written as `0xc0`, but the reader asks for nothing except the
form, which is the high bit. In all other packets it insists on the fixed bit as well.

Such a packet is sent as a reply. It is for the sender of the packet that it replies to, so the two
identifiers have to change places. This is left to the server: the reply takes the identifiers in
the order in which it is given them. -/

namespace QuicTransport

/-! ## Lists of versions -/

namespace Version

theorem length_bytes (v : Version) : v.bytes.length = 4 := Bytes.length_bigEndian _ _

theorem length_listBytes (versions : List Version) :
    (listBytes versions).length = 4 * versions.length := by
  induction versions with
  | nil => rfl
  | cons v versions ih =>
    change (v.bytes ++ listBytes versions).length = _
    rw [List.length_append, length_bytes, ih, List.length_cons]
    omega

/-- The first four bytes are the first version. -/
theorem listOfBytes_append {front : Bytes} (hfront : front.length = 4) (rest : Bytes) :
    listOfBytes (front ++ rest) = ofBytes front :: listOfBytes rest := by
  match front, hfront with
  | [_, _, _, _], _ => rfl

theorem listOfBytes_listBytes (versions : List Version) :
    listOfBytes (listBytes versions) = versions := by
  induction versions with
  | nil => rfl
  | cons v versions ih =>
    change listOfBytes (v.bytes ++ listBytes versions) = _
    rw [listOfBytes_append v.length_bytes, ofBytes_bytes, ih]

/-- Nothing is lost if no bytes are left over at the end. -/
theorem listBytes_listOfBytes {bs : Bytes} (h : bs.length % 4 = 0) :
    listBytes (listOfBytes bs) = bs := by
  fun_induction listOfBytes bs with
  | case1 a b c d rest ih =>
    have hrest : rest.length % 4 = 0 := by
      rw [List.length_cons, List.length_cons, List.length_cons, List.length_cons] at h
      omega
    change (ofBytes [a, b, c, d]).bytes ++ listBytes (listOfBytes rest) = [a, b, c, d] ++ rest
    rw [bytes_ofBytes rfl, ih hrest]
  | case2 bs hshort =>
    match bs, h with
    | [], _ => rfl
    | a :: b :: c :: d :: rest, _ => exact absurd rfl (hshort a b c d rest)

end Version

/-! ## The bytes of a packet -/

namespace VersionNegotiation

theorem length_encode (v : VersionNegotiation) : v.encode.length = v.encodedLength := by
  rw [encode, List.length_append, headerBytes, length_invariantBytes, payloadBytes,
    Version.length_listBytes, encodedLength]

/-- The bytes are those of the packet, but perhaps for the low seven bits of the first byte. -/
def IsWrittenAs (v : VersionNegotiation) (bs : Bytes) : Prop :=
  ∃ first : UInt8, first &&& 0x80 = firstByte &&& 0x80 ∧ bs = first :: v.encode.tail

theorem isWrittenAs_encode (v : VersionNegotiation) : v.IsWrittenAs v.encode :=
  ⟨firstByte, rfl, rfl⟩

end VersionNegotiation

namespace Datagram

variable {config : Config} {v : VersionNegotiation}

namespace NegotiationSegment

/-- What is read and written again are the same bytes behind the first one. -/
theorem isWrittenAs (s : NegotiationSegment config) : s.packet.IsWrittenAs s.bytes := by
  refine ⟨s.first, (FirstByte.and_eq_mask_iff rfl).2 s.form, ?_⟩
  change s.bytes = s.first :: (_ ++ Version.listBytes (Version.listOfBytes s.list))
  rw [Version.listBytes_listOfBytes s.length_list]
  rfl

theorem exists_of_isWrittenAs (hdcid : v.dcid.length ≤ config.longHeaderCidLimit)
    (hscid : v.scid.length ≤ config.longHeaderCidLimit) {bs : Bytes} (h : v.IsWrittenAs bs) :
    ∃ s : NegotiationSegment config, s.bytes = bs ∧ s.packet = v := by
  obtain ⟨first, hfirst, rfl⟩ := h
  refine ⟨⟨first, v.dcid, v.scid, Version.listBytes v.versions,
    (FirstByte.and_eq_mask_iff (i := 7) rfl).1 hfirst, hdcid, hscid, ?_⟩, rfl, ?_⟩
  · rw [Version.length_listBytes, Nat.mul_mod_right]
  · rw [packet, Version.listOfBytes_listBytes]

end NegotiationSegment

/-! ## Where a packet is found -/

/-- Only a Version Negotiation packet is found as one. -/
theorem Segment.exists_negotiation_of_mem {s : Segment config} (h : .negotiation v ∈ s.items) :
    ∃ n : NegotiationSegment config, s = negotiation n ∧ n.packet = v := by
  cases s with
  | short s => cases List.mem_singleton.1 h
  | negotiation n =>
    cases List.mem_singleton.1 h
    exact ⟨n, rfl, rfl⟩
  | long s =>
    by_cases hearly : s.type = .zeroRtt
    · rw [items_long_of_zeroRtt hearly] at h
      cases h
    · rw [items_long hearly] at h
      cases List.mem_singleton.1 h

/-- A segment that does not tell where it ends is the last one. -/
theorem IsCut.eq_dropLast_append {segments : List (Segment config)} {datagram : Bytes}
    (hcut : IsCut segments datagram) {s : Segment config} (hs : s ∈ segments)
    (hopen : s.isDelimited = false) : segments = segments.dropLast ++ [s] := by
  have hne : segments ≠ [] := List.ne_nil_of_mem hs
  have hlast := List.dropLast_concat_getLast hne
  rw [← hlast, List.mem_append, List.mem_singleton] at hs
  rcases hs with hfront | rfl
  · have hdelimited := hcut.isDelimited s hfront
    rw [hopen] at hdelimited
    cases hdelimited
  · exact hlast.symm

/-- Only packets with a long header and a number tell where they end. -/
theorem exists_map_long {segments : List (Segment config)}
    (h : ∀ s ∈ segments, s.isDelimited = true) :
    ∃ packets : List (LongSegment config), segments = packets.map .long := by
  induction segments with
  | nil => exact ⟨[], rfl⟩
  | cons s segments ih =>
    rw [List.forall_mem_cons] at h
    obtain ⟨packets, rfl⟩ := ih h.2
    cases s with
    | short s => cases h.1
    | negotiation s => cases h.1
    | long s => exact ⟨s :: packets, rfl⟩

/-- What comes of a row of packets with long headers. -/
def longItems (packets : List (LongSegment config)) : List Item :=
  (packets.map Segment.long).flatMap Segment.items

/-- A row of packets with long headers can stand in front of anything. -/
theorem split_longs_append (packets : List (LongSegment config)) (rest : Bytes) :
    split config (packets.flatMap LongSegment.bytes ++ rest) =
      (split config rest).map (longItems packets ++ ·) := by
  have hdelimited : ∀ s ∈ packets.map Segment.long, s.isDelimited = true :=
    List.forall_mem_map.2 fun _ _ => rfl
  have happend := split_flatMap_append hdelimited rest
  rwa [List.flatMap_map] at happend

theorem split_longs (packets : List (LongSegment config)) :
    split config (packets.flatMap LongSegment.bytes) = .ok (longItems packets) := by
  have happend := split_longs_append packets []
  rw [List.append_nil, split_nil] at happend
  rw [happend]
  exact congrArg Except.ok (List.append_nil _)

/-- A packet is the only thing in a datagram of its bytes. -/
theorem split_negotiation (hdcid : v.dcid.length ≤ config.longHeaderCidLimit)
    (hscid : v.scid.length ≤ config.longHeaderCidLimit) {bs : Bytes} (h : v.IsWrittenAs bs) :
    split config bs = .ok [.negotiation v] := by
  obtain ⟨s, rfl, rfl⟩ := NegotiationSegment.exists_of_isWrittenAs hdcid hscid h
  exact (Segment.negotiation s).split_bytes

/-- If the last thing found is a Version Negotiation packet, then its bytes are at the end, and in
front of them are packets with long headers. -/
theorem exists_longs_of_split {datagram : Bytes} {items : List Item}
    (h : split config datagram = .ok (items ++ [.negotiation v])) :
    ∃ (packets : List (LongSegment config)) (last : Bytes),
      datagram = packets.flatMap LongSegment.bytes ++ last
        ∧ split config (packets.flatMap LongSegment.bytes) = .ok items ∧ v.IsWrittenAs last := by
  obtain ⟨segments, hcut, hitems⟩ := split_eq_ok.1 h
  obtain ⟨s, hs, hmem⟩ : ∃ s ∈ segments, .negotiation v ∈ s.items := by
    rw [← List.mem_flatMap, hitems]
    exact List.mem_append_right items (List.mem_singleton_self _)
  obtain ⟨n, rfl, rfl⟩ := Segment.exists_negotiation_of_mem hmem
  have hsegments := hcut.eq_dropLast_append hs rfl
  obtain ⟨packets, hpackets⟩ := exists_map_long hcut.isDelimited
  rw [hpackets] at hsegments
  rw [hsegments, List.flatMap_append, List.flatMap_singleton] at hitems
  refine ⟨packets, n.bytes, ?_, ?_, n.isWrittenAs⟩
  · rw [← hcut.bytes, hsegments, List.flatMap_append, List.flatMap_map, List.flatMap_singleton]
    rfl
  · rw [split_longs]
    exact congrArg Except.ok (List.append_cancel_right hitems)

/-- Version Negotiation packets are read back. A packet takes as many bytes as it says. If the
configuration has room for both identifiers, then the packet is found in its own bytes, alone or
behind any row of packets with long headers. If conversely the last thing found in a datagram is a
Version Negotiation packet, then the datagram is such a row with the bytes of this packet at the
end, where only the low seven bits of the first byte may differ. -/
theorem split_negotiation_roundtrip (config : Config) (v : VersionNegotiation) :
    v.encode.length = v.encodedLength
      ∧ (v.dcid.length ≤ config.longHeaderCidLimit → v.scid.length ≤ config.longHeaderCidLimit →
        split config v.encode = .ok [.negotiation v]
          ∧ ∀ packets : List (LongSegment config), ∃ items,
            split config (packets.flatMap LongSegment.bytes) = .ok items
              ∧ split config (packets.flatMap LongSegment.bytes ++ v.encode) =
                .ok (items ++ [.negotiation v]))
      ∧ ∀ (datagram : Bytes) (items : List Item),
        split config datagram = .ok (items ++ [.negotiation v]) →
          ∃ (packets : List (LongSegment config)) (last : Bytes),
            datagram = packets.flatMap LongSegment.bytes ++ last
              ∧ split config (packets.flatMap LongSegment.bytes) = .ok items
              ∧ v.IsWrittenAs last := by
  refine ⟨v.length_encode, ?_, fun _ _ => exists_longs_of_split⟩
  intro hdcid hscid
  have halone := split_negotiation hdcid hscid v.isWrittenAs_encode
  refine ⟨halone, fun packets => ⟨longItems packets, split_longs packets, ?_⟩⟩
  rw [split_longs_append, halone]
  rfl

/-- An offer of both versions is found alone, behind a 0-RTT packet and a Handshake packet, and with
all bits of its first byte set. -/
theorem split_negotiation_roundtrip_two :
    ∃ (v : VersionNegotiation) (q : ProtectedPacket) (packets : List (LongSegment {})),
      v = ⟨⟨[1, 2], by decide⟩, ⟨[3], by decide⟩, [.v1, .v2]⟩ ∧ q.type = .handshake
        ∧ v.encode = [0xc0, 0, 0, 0, 0, 2, 1, 2, 1, 3, 0, 0, 0, 1, 0x6b, 0x33, 0x43, 0xcf]
        ∧ split {} v.encode = .ok [.negotiation v]
        ∧ split {} ([0xd0, 0, 0, 0, 1, 0, 0, 1, 7, 0xe0, 0, 0, 0, 1, 0, 0, 1, 8] ++ v.encode) =
          .ok [.packet q, .negotiation v]
        ∧ split {} (0xff :: v.encode.tail) = .ok [.negotiation v]
        ∧ ∃ last, 0xff :: v.encode.tail = packets.flatMap LongSegment.bytes ++ last
          ∧ split {} (packets.flatMap LongSegment.bytes) = .ok [] ∧ v.IsWrittenAs last := by
  let v : VersionNegotiation := ⟨⟨[1, 2], by decide⟩, ⟨[3], by decide⟩, [.v1, .v2]⟩
  let early : LongSegment {} := ⟨0xd0, .v1, .empty, .empty, .zeroRtt, [], [], [1], [7], by decide,
    by decide, by decide, rfl, by decide, by decide, ⟨rfl, rfl⟩, ⟨.one, by decide, by decide⟩⟩
  let late : LongSegment {} := ⟨0xe0, .v1, .empty, .empty, .handshake, [], [], [1], [8], by decide,
    by decide, by decide, rfl, by decide, by decide, ⟨rfl, rfl⟩, ⟨.one, by decide, by decide⟩⟩
  obtain ⟨_, hfound, hlast⟩ := split_negotiation_roundtrip {} v
  obtain ⟨halone, hbehind⟩ := hfound (by decide) (by decide)
  obtain ⟨items, hitems, hboth⟩ := hbehind [early, late]
  have hrow : [early, late].flatMap LongSegment.bytes =
      [0xd0, 0, 0, 0, 1, 0, 0, 1, 7, 0xe0, 0, 0, 0, 1, 0, 0, 1, 8] := by decide
  -- nothing comes of the 0-RTT packet
  have hpacket : items = [.packet late.packet] :=
    Except.ok.inj (hitems.symm.trans (split_longs [early, late]))
  rw [hrow, hpacket] at hboth
  have hother : split {} (0xff :: v.encode.tail) = .ok ([] ++ [.negotiation v]) :=
    split_negotiation (by decide) (by decide) ⟨0xff, by decide, rfl⟩
  obtain ⟨packets, last, hend⟩ := hlast _ _ hother
  exact ⟨v, late.packet, packets, rfl, rfl, by decide, halone, hboth, hother, last, hend⟩

/-! ## Replies -/

/-- The identifiers in a long header: that of the receiver and that of the sender. -/
def Item.cids? : Item → Option (ConnectionId × ConnectionId)
  | .packet q => q.scid.map fun scid => (q.dcid, scid)
  | .negotiation v => some (v.dcid, v.scid)

variable {items : List Item} {item : Item} {dcid scid : ConnectionId}

/-- Whoever has read a long header has room for both identifiers. -/
theorem length_cids_le {datagram : Bytes} (h : split config datagram = .ok items)
    (hitem : item ∈ items) (hcids : item.cids? = some (dcid, scid)) :
    dcid.length ≤ config.longHeaderCidLimit ∧ scid.length ≤ config.longHeaderCidLimit := by
  obtain ⟨segments, _, rfl⟩ := split_eq_ok.1 h
  obtain ⟨s, _, hs⟩ := List.mem_flatMap.1 hitem
  cases s with
  | short s =>
    obtain rfl := List.mem_singleton.1 hs
    simp [Item.cids?, ShortSegment.packet] at hcids
  | negotiation s =>
    obtain rfl := List.mem_singleton.1 hs
    obtain ⟨rfl, rfl⟩ : s.dcid = dcid ∧ s.scid = scid := by
      simpa [Item.cids?, NegotiationSegment.packet] using hcids
    exact ⟨s.length_dcid_le, s.length_scid_le⟩
  | long s =>
    by_cases hearly : s.type = .zeroRtt
    · simp [Segment.items_long_of_zeroRtt hearly] at hs
    · rw [Segment.items_long hearly] at hs
      obtain rfl := List.mem_singleton.1 hs
      obtain ⟨rfl, rfl⟩ : s.dcid = dcid ∧ s.scid = scid := by
        simpa [Item.cids?, LongSegment.packet] using hcids
      exact ⟨s.length_dcid_le, s.length_scid_le⟩

/-- A reply is read back by everyone who accepts identifiers as long as those the server accepts. It
has them in the order of the packet that it replies to, so it is for the client only if both are the
same. If the server exchanges them first, the reply is for the client in any case. -/
theorem split_reply {server client : Config} {datagram : Bytes}
    (h : split server datagram = .ok items) (hitem : item ∈ items)
    (hcids : item.cids? = some (dcid, scid))
    (hroom : server.longHeaderCidLimit ≤ client.longHeaderCidLimit) (config : Config) :
    split client (VersionNegotiation.ofConfig dcid scid config).encode =
        .ok [.negotiation ⟨dcid, scid, config.supportedVersions⟩]
      ∧ (split client (VersionNegotiation.ofConfig dcid scid config).encode =
          .ok [.negotiation ⟨scid, dcid, config.supportedVersions⟩] ↔ dcid = scid)
      ∧ split client (VersionNegotiation.ofConfig scid dcid config).encode =
        .ok [.negotiation ⟨scid, dcid, config.supportedVersions⟩] := by
  obtain ⟨hdcid, hscid⟩ := length_cids_le h hitem hcids
  have hread : split client (VersionNegotiation.ofConfig dcid scid config).encode =
      .ok [.negotiation ⟨dcid, scid, config.supportedVersions⟩] :=
    split_negotiation (hdcid.trans hroom) (hscid.trans hroom)
      (VersionNegotiation.isWrittenAs_encode _)
  refine ⟨hread, ?_, ?_⟩
  · rw [hread]
    constructor
    · intro hsame
      injection hsame with hsame
      simp only [List.cons.injEq, Item.negotiation.injEq, VersionNegotiation.mk.injEq] at hsame
      exact hsame.1.1
    · rintro rfl
      rfl
  · exact split_negotiation (hscid.trans hroom) (hdcid.trans hroom)
      (VersionNegotiation.isWrittenAs_encode _)

/-- An Initial packet of a client, which calls itself `01`. -/
def firstFlight : LongSegment {} :=
  ⟨0xc0, .v1, ⟨[0x83, 0x94, 0xc8, 0xf0, 0x3e, 0x51, 0x57, 0x08], by decide⟩, ⟨[1], by decide⟩,
    .initial, [], [0], [1], [7], by decide, by decide, by decide, rfl, by decide, by decide,
    ⟨[0], ⟨.one, by decide, by decide⟩, rfl⟩, ⟨.one, by decide, by decide⟩⟩

theorem split_firstFlight :
    split {} [0xc0, 0, 0, 0, 1, 8, 0x83, 0x94, 0xc8, 0xf0, 0x3e, 0x51, 0x57, 0x08, 1, 1, 0, 1, 7] =
      .ok [.packet firstFlight.packet] := by
  have hbytes : firstFlight.bytes =
      [0xc0, 0, 0, 0, 1, 8, 0x83, 0x94, 0xc8, 0xf0, 0x3e, 0x51, 0x57, 0x08, 1, 1, 0, 1, 7] := by
    decide
  rw [← hbytes]
  exact (Segment.long firstFlight).split_bytes

/-- The reply of a server with the usual settings. -/
theorem split_reply_firstFlight :
    let dcid := firstFlight.dcid
    let scid := firstFlight.scid
    split {} (VersionNegotiation.ofConfig dcid scid {}).encode =
        .ok [.negotiation ⟨dcid, scid, [.v1, .v2]⟩]
      ∧ split {} (VersionNegotiation.ofConfig dcid scid {}).encode ≠
        .ok [.negotiation ⟨scid, dcid, [.v1, .v2]⟩]
      ∧ split {} (VersionNegotiation.ofConfig scid dcid {}).encode =
        .ok [.negotiation ⟨scid, dcid, [.v1, .v2]⟩] := by
  obtain ⟨hread, hiff, hexchanged⟩ := split_reply split_firstFlight (List.mem_singleton_self _) rfl
    (Nat.le_refl (Config.longHeaderCidLimit {})) {}
  have hne : firstFlight.dcid ≠ firstFlight.scid := by decide
  exact ⟨hread, fun h => hne (hiff.1 h), hexchanged⟩

/-- Not every reply is for the client. -/
theorem reply_not_exchanged :
    ¬ ∀ (config : Config) (datagram : Bytes) (items : List Item) (item : Item)
        (dcid scid : ConnectionId), split config datagram = .ok items → item ∈ items →
      item.cids? = some (dcid, scid) →
        split config (VersionNegotiation.ofConfig dcid scid config).encode =
          .ok [.negotiation ⟨scid, dcid, config.supportedVersions⟩] := by
  intro h
  have hreply := h {} _ _ _ firstFlight.dcid firstFlight.scid split_firstFlight
    (List.mem_singleton_self _) rfl
  rw [split_negotiation (by decide) (by decide) (VersionNegotiation.isWrittenAs_encode _)] at hreply
  revert hreply
  decide

end Datagram

end QuicTransport
