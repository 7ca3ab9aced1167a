import QuicTransport.Frame.Decoding
import QuicTransport.Frame.Encoding
import QuicTransport.Proofs.Reading

set_option autoImplicit false

/-! # The grammar of frames

The writer lists the fields of a frame and the reader asks for them one by one. Both are matched by
what stands at the front of a byte string: octets as they are, and a number at any width that has
room for it (`Field.Opens`). The fields that a writer lists are there once they are written
(`Opens.of_encodeAll`), and fields that are there can be written (`Opens.exists_encodeAll`).

Each reader is described by the fields that it takes and by what else it insists on. A description
serves in both directions, for frames that were written and for bytes that came from anywhere. -/

namespace QuicTransport

/-! ## Fields as they are written -/

namespace Field

theorem encodeAll_cons {f : Field} {fs : List Field} {front back : Bytes}
    (hf : f.encode = .ok front) (hfs : encodeAll fs = .ok back) :
    encodeAll (f :: fs) = .ok (front ++ back) := by
  rw [encodeAll, hf, hfs]
  rfl

theorem encodeAll_cons_eq_ok {f : Field} {fs : List Field} {bs : Bytes}
    (h : encodeAll (f :: fs) = .ok bs) :
    ∃ front back, f.encode = .ok front ∧ encodeAll fs = .ok back ∧ bs = front ++ back := by
  rw [encodeAll] at h
  obtain ⟨front, hfront, h⟩ := Result.bind_eq_ok.1 h
  obtain ⟨back, hback, h⟩ := Result.bind_eq_ok.1 h
  injection h with h
  exact ⟨front, back, hfront, hback, h.symm⟩

theorem encodeAll_append {fs gs : List Field} {front back : Bytes}
    (hfs : encodeAll fs = .ok front) (hgs : encodeAll gs = .ok back) :
    encodeAll (fs ++ gs) = .ok (front ++ back) := by
  induction fs generalizing front with
  | nil =>
    rw [encodeAll, Except.ok.injEq] at hfs
    rw [← hfs]
    exact hgs
  | cons f fs ih =>
    obtain ⟨a, b, hf, hrest, rfl⟩ := encodeAll_cons_eq_ok hfs
    rw [List.cons_append, encodeAll_cons hf (ih hrest), List.append_assoc]

theorem encodeAll_append_eq_ok {fs gs : List Field} {bs : Bytes}
    (h : encodeAll (fs ++ gs) = .ok bs) :
    ∃ front back, encodeAll fs = .ok front ∧ encodeAll gs = .ok back ∧ bs = front ++ back := by
  induction fs generalizing bs with
  | nil => exact ⟨[], bs, rfl, h, rfl⟩
  | cons f fs ih =>
    rw [List.cons_append] at h
    obtain ⟨a, b, hf, hrest, rfl⟩ := encodeAll_cons_eq_ok h
    obtain ⟨front, back, hfront, hback, rfl⟩ := ih hrest
    exact ⟨a ++ front, back, encodeAll_cons hf hfront, hback, (List.append_assoc _ _ _).symm⟩

theorem length_of_encode {f : Field} {bs : Bytes} (h : f.encode = .ok bs) :
    bs.length = f.length := by
  cases f with
  | number n => exact VarInt.length_of_put h
  | octets as =>
    injection h with h
    rw [← h]
    rfl

theorem length_of_encodeAll {fs : List Field} {bs : Bytes} (h : encodeAll fs = .ok bs) :
    bs.length = fs.foldr (fun f total => f.length + total) 0 := by
  induction fs generalizing bs with
  | nil =>
    injection h with h
    rw [← h]
    rfl
  | cons f fs ih =>
    obtain ⟨a, b, hf, hfs, rfl⟩ := encodeAll_cons_eq_ok h
    rw [List.length_append, length_of_encode hf, ih hfs, List.foldr_cons]

/-! ## Fields at the front -/

/-- The fields are spelled out at the front of a byte string, one after the other: a number at any
width that has room for it, octets as they are. The second byte string is what follows them. -/
inductive Opens : List Field → Bytes → Bytes → Prop
  | nil (rest : Bytes) : Opens [] rest rest
  | number {n : Nat} {code bs rest : Bytes} {fs : List Field} (hcode : VarInt.IsCode n code)
    (h : Opens fs bs rest) : Opens (.number n :: fs) (code ++ bs) rest
  | octets {as bs rest : Bytes} {fs : List Field} (h : Opens fs bs rest) :
    Opens (.octets as :: fs) (as ++ bs) rest

namespace Opens

variable {fs gs : List Field} {bs middle rest : Bytes}

theorem append (hfs : Opens fs bs middle) (hgs : Opens gs middle rest) :
    Opens (fs ++ gs) bs rest := by
  induction hfs with
  | nil => exact hgs
  | number hcode _ ih => exact .number hcode (ih hgs)
  | octets _ ih => exact .octets (ih hgs)

theorem of_append (h : Opens (fs ++ gs) bs rest) :
    ∃ middle, Opens fs bs middle ∧ Opens gs middle rest := by
  induction fs generalizing bs with
  | nil => exact ⟨bs, .nil bs, h⟩
  | cons f fs ih =>
    cases h with
    | number hcode h =>
      obtain ⟨middle, hfs, hgs⟩ := ih h
      exact ⟨middle, .number hcode hfs, hgs⟩
    | octets h =>
      obtain ⟨middle, hfs, hgs⟩ := ih h
      exact ⟨middle, .octets hfs, hgs⟩

/-- What follows the fields does not matter to them. -/
theorem exists_front (h : Opens fs bs rest) :
    ∃ front, bs = front ++ rest ∧ ∀ more, Opens fs (front ++ more) more := by
  induction h with
  | nil rest => exact ⟨[], rfl, .nil⟩
  | number hcode _ ih =>
    obtain ⟨front, rfl, hfront⟩ := ih
    refine ⟨_, (List.append_assoc _ _ _).symm, fun more => ?_⟩
    rw [List.append_assoc]
    exact .number hcode (hfront more)
  | octets _ ih =>
    obtain ⟨front, rfl, hfront⟩ := ih
    refine ⟨_, (List.append_assoc _ _ _).symm, fun more => ?_⟩
    rw [List.append_assoc]
    exact .octets (hfront more)

/-- Fields that were read can be written, in no more bytes, and in no other bytes if there are as
many. -/
theorem exists_encodeAll (h : Opens fs bs rest) :
    ∃ e, encodeAll fs = .ok e ∧ e.length + rest.length ≤ bs.length
      ∧ (e.length + rest.length = bs.length → bs = e ++ rest) := by
  induction h with
  | nil rest => exact ⟨[], rfl, by simp, fun _ => rfl⟩
  | @number n code bs rest fs hcode _ ih =>
    obtain ⟨e, he, hle, heq⟩ := ih
    have hroom : n < 0x4000000000000000 := by
      obtain ⟨w, hlt, _⟩ := hcode
      exact Nat.lt_of_lt_of_le hlt w.capacity_le
    have hput := VarInt.put_of_lt hroom
    have hshort := hcode.lengthOf_le
    rw [← VarInt.length_of_put hput] at hshort
    refine ⟨VarInt.encode ⟨n, hroom⟩ ++ e, encodeAll_cons hput he, ?_, fun hlength => ?_⟩
    · rw [List.length_append, List.length_append]
      omega
    · -- neither the number nor what follows it can be longer, so neither is shorter
      rw [List.length_append, List.length_append] at hlength
      rw [hcode.eq_of_length_eq (VarInt.isCode_of_put hput) (by omega), heq (by omega),
        List.append_assoc]
  | @octets as bs rest fs _ ih =>
    obtain ⟨e, he, hle, heq⟩ := ih
    refine ⟨as ++ e, encodeAll_cons rfl he, ?_, fun hlength => ?_⟩
    · rw [List.length_append, List.length_append]
      omega
    · rw [List.length_append, List.length_append] at hlength
      rw [heq (by omega), List.append_assoc]

theorem length_le (h : Opens fs bs rest) :
    fs.foldr (fun f total => f.length + total) 0 ≤ bs.length := by
  obtain ⟨e, he, hle, _⟩ := h.exists_encodeAll
  rw [← length_of_encodeAll he]
  omega

/-- Fields that are written are at the front of what is written. -/
theorem of_encodeAll {e : Bytes} (h : encodeAll fs = .ok e) (rest : Bytes) :
    Opens fs (e ++ rest) rest := by
  induction fs generalizing e with
  | nil =>
    injection h with h
    rw [← h]
    exact .nil rest
  | cons f fs ih =>
    obtain ⟨front, back, hf, hfs, rfl⟩ := encodeAll_cons_eq_ok h
    rw [List.append_assoc]
    cases f with
    | number n => exact .number (VarInt.isCode_of_put hf) (ih hfs)
    | octets as =>
      injection hf with hf
      rw [← hf]
      exact .octets (ih hfs)

end Opens

end Field

/-- Only a position of zero may be left out. -/
theorem StreamChunk.offset_eq_zero {s : StreamChunk} (h : s.writesOffset = false) :
    s.offset = 0 := by
  simp only [writesOffset, Bool.or_eq_false_iff, decide_eq_false_iff_not] at h
  omega

namespace Frame

open QuicTransport.Field (Opens)

theorem isPadding_cases (f : Frame) :
    f.isPadding = false ∨ ∃ length, f = .padding length := by
  cases f with
  | padding length => exact Or.inr ⟨length, rfl⟩
  | _ => exact Or.inl rfl

/-! ## Acknowledged ranges -/

/-- Further ranges stay at or above packet number zero if the first of them lies below the packet
number `smallest`. -/
def RangesFit : (smallest : Nat) → List AckRange → Prop
  | _, [] => True
  | smallest, r :: rs =>
    r.gap + 2 + r.length ≤ smallest ∧ RangesFit (smallest - (r.gap + 2 + r.length)) rs

theorem lengthOf_pos (n : Nat) : 0 < VarInt.lengthOf n := by
  unfold VarInt.lengthOf
  split
  · decide
  · split
    · decide
    · split <;> decide

theorem two_mul_length_le (ranges : List AckRange) (more : List Field) :
    2 * ranges.length ≤
      (ranges.flatMap AckRange.layout ++ more).foldr (fun f total => f.length + total) 0 := by
  induction ranges with
  | nil => simp
  | cons r rs ih =>
    have hgap : 0 < (Field.number r.gap).length := lengthOf_pos r.gap
    have hlength : 0 < (Field.number r.length).length := lengthOf_pos r.length
    simp only [List.flatMap_cons, AckRange.layout, List.length_cons, List.cons_append,
      List.nil_append, List.foldr_cons]
    omega

/-! ## Readers -/

section Readers

variable {bs rest : Bytes}

theorem readNumber_eq_ok {what : String} {n : Nat} :
    readNumber what bs = .ok (n, rest) ↔ ∃ code, VarInt.IsCode n code ∧ bs = code ++ rest :=
  Reader.varInt_eq_ok

/-- A number at the front is found, and the other fields are behind it. -/
theorem readNumber_of_opens {n : Nat} {fields : List Field}
    (h : Opens (.number n :: fields) bs rest) (what : String) :
    ∃ middle, readNumber what bs = .ok (n, middle) ∧ Opens fields middle rest := by
  obtain _ | ⟨hcode, h⟩ := h
  exact ⟨_, readNumber_eq_ok.2 ⟨_, hcode, rfl⟩, h⟩

theorem readBytes_eq_ok {n : Nat} {what : String} {front : Bytes} :
    readBytes n what bs = .ok (front, rest) ↔ front.length = n ∧ bs = front ++ rest :=
  Reader.bytes_eq_ok

theorem readFixed_eq_ok {n : Nat} {what : String} {v : FixedBytes n} :
    readFixed n what bs = .ok (v, rest) ↔ bs = v.val ++ rest :=
  Reader.fixed_eq_ok

theorem insist_eq_ok {condition : Bool} {what : String} {u : Unit} :
    insist condition what bs = .ok (u, rest) ↔ condition = true ∧ rest = bs :=
  Reader.require_eq_ok

/-- Most frames are a few numbers, or a byte string of known length. -/
theorem number_eq_ok {what : String} {f : Frame} {g : Nat → Frame} :
    (g <$> readNumber what) bs = .ok (f, rest) ↔ ∃ n, f = g n ∧ Opens [.number n] bs rest := by
  simp only [Reader.map_eq_ok, readNumber_eq_ok]
  constructor
  · rintro ⟨n, ⟨_, hn, rfl⟩, rfl⟩
    exact ⟨n, rfl, .number hn (.nil _)⟩
  · rintro ⟨n, rfl, _ | ⟨hn, ⟨⟩⟩⟩
    exact ⟨n, ⟨_, hn, rfl⟩, rfl⟩

theorem pair_eq_ok {a b : String} {f : Frame} {g : Nat → Nat → Frame} :
    (do let m ← readNumber a; let n ← readNumber b; return g m n : Reader Frame) bs
        = .ok (f, rest) ↔
      ∃ m n, f = g m n ∧ Opens [.number m, .number n] bs rest := by
  simp only [Reader.bind_eq_ok, readNumber_eq_ok, Reader.pure_eq_ok]
  constructor
  · rintro ⟨m, _, ⟨_, hm, rfl⟩, n, _, ⟨_, hn, rfl⟩, rfl, rfl⟩
    exact ⟨m, n, rfl, .number hm (.number hn (.nil _))⟩
  · rintro ⟨m, n, rfl, _ | ⟨hm, _ | ⟨hn, ⟨⟩⟩⟩⟩
    exact ⟨m, _, ⟨_, hm, rfl⟩, n, _, ⟨_, hn, rfl⟩, rfl, rfl⟩

theorem triple_eq_ok {a b c : String} {f : Frame} {g : Nat → Nat → Nat → Frame} :
    (do
      let l ← readNumber a
      let m ← readNumber b
      let n ← readNumber c
      return g l m n : Reader Frame) bs = .ok (f, rest) ↔
      ∃ l m n, f = g l m n ∧ Opens [.number l, .number m, .number n] bs rest := by
  simp only [Reader.bind_eq_ok, readNumber_eq_ok, Reader.pure_eq_ok]
  constructor
  · rintro ⟨l, _, ⟨_, hl, rfl⟩, m, _, ⟨_, hm, rfl⟩, n, _, ⟨_, hn, rfl⟩, rfl, rfl⟩
    exact ⟨l, m, n, rfl, .number hl (.number hm (.number hn (.nil _)))⟩
  · rintro ⟨l, m, n, rfl, _ | ⟨hl, _ | ⟨hm, _ | ⟨hn, ⟨⟩⟩⟩⟩⟩
    exact ⟨l, _, ⟨_, hl, rfl⟩, m, _, ⟨_, hm, rfl⟩, n, _, ⟨_, hn, rfl⟩, rfl, rfl⟩

theorem fixed_eq_ok {k : Nat} {what : String} {f : Frame} {g : FixedBytes k → Frame} :
    (g <$> readFixed k what) bs = .ok (f, rest) ↔ ∃ v, f = g v ∧ Opens [.octets v.val] bs rest := by
  simp only [Reader.map_eq_ok, readFixed_eq_ok]
  constructor
  · rintro ⟨v, rfl, rfl⟩
    exact ⟨v, rfl, .octets (.nil _)⟩
  · rintro ⟨v, rfl, _ | _ | ⟨⟨⟩⟩⟩
    exact ⟨v, rfl, rfl⟩

/-- No more streams are counted than a limit. -/
theorem streamCount_eq_ok {what : String} {f : Frame} {g : Nat → Frame} :
    (g <$> readStreamCount what) bs = .ok (f, rest) ↔
      ∃ n, f = g n ∧ n ≤ maxStreamCount ∧ Opens [.number n] bs rest := by
  simp only [readStreamCount, Reader.map_eq_ok, Reader.bind_eq_ok, readNumber_eq_ok, insist_eq_ok,
    Reader.pure_eq_ok, decide_eq_true_eq]
  constructor
  · rintro ⟨_, ⟨_, _, ⟨_, hn, rfl⟩, _, _, ⟨hle, rfl⟩, rfl, rfl⟩, rfl⟩
    exact ⟨_, rfl, hle, .number hn (.nil _)⟩
  · rintro ⟨n, rfl, hle, _ | ⟨hn, ⟨⟩⟩⟩
    exact ⟨n, ⟨n, _, ⟨_, hn, rfl⟩, (), _, ⟨hle, rfl⟩, rfl, rfl⟩, rfl⟩

theorem readRanges_eq_ok {count smallest : Nat} {ranges : List AckRange} :
    readRanges count smallest bs = .ok (ranges, rest) ↔
      ranges.length = count ∧ RangesFit smallest ranges
        ∧ Opens (ranges.flatMap AckRange.layout) bs rest := by
  induction count generalizing smallest bs rest ranges with
  | zero =>
    rw [readRanges, Reader.pure_eq_ok]
    constructor
    · rintro ⟨rfl, rfl⟩
      exact ⟨rfl, trivial, .nil _⟩
    · rintro ⟨hlength, _, hopens⟩
      obtain rfl := List.length_eq_zero_iff.1 hlength
      cases hopens
      exact ⟨rfl, rfl⟩
  | succ count ih =>
    have hbelow : ∀ gap length : Nat,
        smallest - gap - 2 - length = smallest - (gap + 2 + length) := by omega
    simp only [readRanges, Reader.bind_eq_ok, readNumber_eq_ok, insist_eq_ok, ih, hbelow,
      Reader.pure_eq_ok, decide_eq_true_eq]
    constructor
    · rintro ⟨gap, _, ⟨gapCode, hgap, rfl⟩, length, _, ⟨lengthCode, hlength, rfl⟩, _, _,
        ⟨hgapFits, rfl⟩, _, _, ⟨hfits, rfl⟩, rs, _, ⟨rfl, hrs, hopens⟩, rfl, rfl⟩
      have hfirst : gap + 2 + length ≤ smallest := by omega
      exact ⟨rfl, ⟨hfirst, hrs⟩, .number hgap (.number hlength hopens)⟩
    · rintro ⟨hcount, hfits, hopens⟩
      cases ranges with
      | nil => cases hcount
      | cons r rs =>
        obtain ⟨hfirst, hrest⟩ := hfits
        rw [List.flatMap_cons, AckRange.layout, List.cons_append, List.cons_append,
          List.nil_append] at hopens
        obtain _ | ⟨hgap, _ | ⟨hlength, hopens⟩⟩ := hopens
        exact ⟨r.gap, _, ⟨_, hgap, rfl⟩, r.length, _, ⟨_, hlength, rfl⟩, (), _,
          ⟨by omega, rfl⟩, (), _, ⟨by omega, rfl⟩, rs, _,
          ⟨Nat.succ.inj hcount, hrest, hopens⟩, rfl, rfl⟩

theorem readEcn_eq_ok {counted : Bool} {ecn : Option EcnCounts} :
    readEcn counted bs = .ok (ecn, rest) ↔
      ecn.isSome = counted ∧ Opens ((ecn.map EcnCounts.layout).getD []) bs rest := by
  cases counted with
  | false =>
    rw [readEcn, Reader.pure_eq_ok]
    constructor
    · rintro ⟨rfl, rfl⟩
      exact ⟨rfl, .nil _⟩
    · rintro ⟨hecn, hopens⟩
      obtain rfl := Option.isSome_eq_false_iff.1 hecn |> Option.isNone_iff_eq_none.1
      cases hopens
      exact ⟨rfl, rfl⟩
  | true =>
    simp only [readEcn, readEcnCounts, Reader.map_eq_ok, Reader.bind_eq_ok, readNumber_eq_ok,
      Reader.pure_eq_ok]
    constructor
    · rintro ⟨_, ⟨ect0, _, ⟨_, hect0, rfl⟩, ect1, _, ⟨_, hect1, rfl⟩, ce, _, ⟨_, hce, rfl⟩, rfl,
        rfl⟩, rfl⟩
      exact ⟨rfl, .number hect0 (.number hect1 (.number hce (.nil _)))⟩
    · rintro ⟨hecn, hopens⟩
      obtain ⟨c, rfl⟩ := Option.isSome_iff_exists.1 hecn
      obtain _ | ⟨hect0, _ | ⟨hect1, _ | ⟨hce, ⟨⟩⟩⟩⟩ := hopens
      exact ⟨c, ⟨c.ect0, _, ⟨_, hect0, rfl⟩, c.ect1, _, ⟨_, hect1, rfl⟩, c.ce, _, ⟨_, hce, rfl⟩,
        rfl, rfl⟩, rfl⟩

/-- The room that the reader asks for is there whenever the ranges are. -/
theorem readAck_eq_ok {counted : Bool} {a : Ack} :
    readAck counted bs = .ok (a, rest) ↔
      a.ecn.isSome = counted ∧ a.firstRange ≤ a.largest
        ∧ RangesFit (a.largest - a.firstRange) a.ranges ∧ Opens a.layout bs rest := by
  simp only [readAck, Reader.bind_eq_ok, readNumber_eq_ok, insist_eq_ok, Reader.atLeast_eq_ok,
    readRanges_eq_ok, readEcn_eq_ok, Reader.pure_eq_ok, decide_eq_true_eq]
  constructor
  · rintro ⟨largest, _, ⟨_, hlargest, rfl⟩, delay, _, ⟨_, hdelay, rfl⟩, _, _, ⟨_, hcount, rfl⟩,
      firstRange, _, ⟨_, hfirst, rfl⟩, _, _, ⟨hle, rfl⟩, _, _, ⟨_, rfl⟩, ranges, _,
      ⟨rfl, hfits, hranges⟩, ecn, _, ⟨hcounted, hecn⟩, rfl, rfl⟩
    exact ⟨hcounted, hle, hfits,
      .number hlargest (.number hdelay (.number hcount (.number hfirst (hranges.append hecn))))⟩
  · rintro ⟨hcounted, hle, hfits, hopens⟩
    simp only [Ack.layout, List.cons_append, List.nil_append] at hopens
    obtain _ | ⟨hlargest, _ | ⟨hdelay, _ | ⟨hcount, _ | ⟨hfirst, hopens⟩⟩⟩⟩ := hopens
    have hroom := Nat.le_trans (two_mul_length_le _ _) hopens.length_le
    obtain ⟨middle, hranges, hecn⟩ := Opens.of_append hopens
    exact ⟨a.largest, _, ⟨_, hlargest, rfl⟩, a.delay, _, ⟨_, hdelay, rfl⟩, _, _,
      ⟨_, hcount, rfl⟩, a.firstRange, _, ⟨_, hfirst, rfl⟩, (), _, ⟨hle, rfl⟩, (), _, ⟨hroom, rfl⟩,
      a.ranges, middle, ⟨rfl, hfits, hranges⟩, a.ecn, rest, ⟨hcounted, hecn⟩, rfl, rfl⟩

theorem readCrypto_eq_ok {f : Frame} :
    readCrypto bs = .ok (f, rest) ↔ ∃ offset data, f = .crypto offset data
      ∧ offset + data.length ≤ lastPosition
      ∧ Opens (.number offset :: Field.counted data) bs rest := by
  simp only [readCrypto, Reader.bind_eq_ok, readNumber_eq_ok, insist_eq_ok, readBytes_eq_ok,
    Reader.pure_eq_ok, decide_eq_true_eq]
  constructor
  · rintro ⟨offset, _, ⟨_, hoffset, rfl⟩, _, _, ⟨_, hlength, rfl⟩, _, _, ⟨hlast, rfl⟩, data, _,
      ⟨rfl, rfl⟩, rfl, rfl⟩
    exact ⟨offset, data, rfl, hlast, .number hoffset (.number hlength (.octets (.nil _)))⟩
  · rintro ⟨offset, data, rfl, hlast, _ | ⟨hoffset, _ | ⟨hlength, _ | _ | ⟨⟨⟩⟩⟩⟩⟩
    exact ⟨offset, _, ⟨_, hoffset, rfl⟩, _, _, ⟨_, hlength, rfl⟩, (), _, ⟨hlast, rfl⟩, data, _,
      ⟨rfl, rfl⟩, rfl, rfl⟩

theorem readNewToken_eq_ok {f : Frame} :
    readNewToken bs = .ok (f, rest) ↔
      ∃ token, f = .newToken token ∧ token ≠ [] ∧ Opens (Field.counted token) bs rest := by
  simp only [readNewToken, Reader.bind_eq_ok, readNumber_eq_ok, insist_eq_ok, readBytes_eq_ok,
    Reader.pure_eq_ok, decide_eq_true_eq]
  constructor
  · rintro ⟨_, _, ⟨_, hlength, rfl⟩, _, _, ⟨hpos, rfl⟩, token, _, ⟨rfl, rfl⟩, rfl, rfl⟩
    exact ⟨token, rfl, List.length_pos_iff.1 hpos, .number hlength (.octets (.nil _))⟩
  · rintro ⟨token, rfl, hne, _ | ⟨hlength, _ | _ | ⟨⟨⟩⟩⟩⟩
    exact ⟨_, _, ⟨_, hlength, rfl⟩, (), _, ⟨List.length_pos_iff.2 hne, rfl⟩, token, _, ⟨rfl, rfl⟩,
      rfl, rfl⟩

theorem readStreamOffset_eq_ok {hasOffset : Bool} {offset : Nat} :
    readStreamOffset hasOffset bs = .ok (offset, rest) ↔
      (hasOffset = false → offset = 0)
        ∧ Opens (if hasOffset then [.number offset] else []) bs rest := by
  cases hasOffset with
  | false =>
    rw [readStreamOffset, Reader.pure_eq_ok]
    constructor
    · rintro ⟨rfl, rfl⟩
      exact ⟨fun _ => rfl, .nil _⟩
    · rintro ⟨hzero, ⟨⟩⟩
      exact ⟨hzero rfl, rfl⟩
  | true =>
    rw [readStreamOffset, readNumber_eq_ok]
    constructor
    · rintro ⟨_, hoffset, rfl⟩
      exact ⟨nofun, .number hoffset (.nil _)⟩
    · rintro ⟨_, _ | ⟨hoffset, ⟨⟩⟩⟩
      exact ⟨_, hoffset, rfl⟩

/-- Without a length the data are all that is left. -/
theorem readStreamData_eq_ok {hasLength : Bool} {data : Bytes} :
    readStreamData hasLength bs = .ok (data, rest) ↔
      (hasLength = false → rest = [])
        ∧ Opens ((if hasLength then [.number data.length] else []) ++ [.octets data]) bs rest := by
  cases hasLength with
  | false =>
    rw [readStreamData, Reader.remainder_eq_ok]
    constructor
    · rintro ⟨rfl, rfl⟩
      have hopens : Opens [.octets data] (data ++ []) [] := .octets (.nil [])
      rw [List.append_nil] at hopens
      exact ⟨fun _ => rfl, hopens⟩
    · rintro ⟨hend, _ | _ | ⟨⟨⟩⟩⟩
      obtain rfl := hend rfl
      exact ⟨(List.append_nil _).symm, rfl⟩
  | true =>
    simp only [readStreamData, Reader.bind_eq_ok, readNumber_eq_ok, readBytes_eq_ok]
    constructor
    · rintro ⟨_, _, ⟨_, hlength, rfl⟩, rfl, rfl⟩
      exact ⟨nofun, .number hlength (.octets (.nil _))⟩
    · rintro ⟨_, _ | ⟨hlength, _ | _ | ⟨⟨⟩⟩⟩⟩
      exact ⟨_, _, ⟨_, hlength, rfl⟩, rfl, rfl⟩

/-- A position that is not written is zero, so the reader marks every other one as written. -/
theorem readStream_eq_ok {hasOffset hasLength fin : Bool} {s : StreamChunk} :
    readStream hasOffset hasLength fin bs = .ok (s, rest) ↔
      (s.writesOffset = hasOffset ∧ s.hasLength = hasLength ∧ s.fin = fin)
        ∧ s.hasOffset = s.writesOffset ∧ s.offset + s.data.length ≤ lastPosition
        ∧ Opens s.layout bs rest ∧ (s.hasLength = false → rest = []) := by
  simp only [readStream, Reader.bind_eq_ok, readNumber_eq_ok, insist_eq_ok, readStreamOffset_eq_ok,
    readStreamData_eq_ok, Reader.pure_eq_ok, decide_eq_true_eq]
  constructor
  · rintro ⟨streamId, _, ⟨_, hstreamId, rfl⟩, offset, _, ⟨hzero, hoffset⟩, data, _, ⟨hend, hdata⟩,
      _, _, ⟨hlast, rfl⟩, rfl, rfl⟩
    have hwrites : (hasOffset || decide (0 < offset)) = hasOffset := by
      cases hasOffset with
      | true => rfl
      | false => simp [hzero rfl]
    refine ⟨⟨hwrites, rfl, rfl⟩, hwrites.symm, hlast, ?_, hend⟩
    rw [StreamChunk.layout, StreamChunk.writesOffset, hwrites, List.append_assoc]
    exact .number hstreamId (hoffset.append hdata)
  · rintro ⟨⟨hoffset, hlength, hfin⟩, hwrites, hlast, hopens, hend⟩
    rw [StreamChunk.layout, List.append_assoc] at hopens
    subst hoffset hlength hfin
    obtain _ | ⟨hstreamId, hopens⟩ := hopens
    obtain ⟨middle, hoffset, hdata⟩ := Opens.of_append hopens
    refine ⟨s.streamId, _, ⟨_, hstreamId, rfl⟩, s.offset, middle,
      ⟨StreamChunk.offset_eq_zero, hoffset⟩, s.data, rest, ⟨hend, hdata⟩, (), _, ⟨hlast, rfl⟩, ?_,
      rfl⟩
    rw [← hwrites]

theorem readIssuedCid_eq_ok {cid : ConnectionId} :
    readIssuedCid bs = .ok (cid, rest) ↔
      0 < cid.length
        ∧ Opens [.octets [UInt8.ofNat cid.length], .octets cid.bytes] bs rest := by
  simp only [readIssuedCid, Reader.bind_eq_ok, Reader.byte_eq_ok, insist_eq_ok, readBytes_eq_ok,
    Bool.and_eq_true, decide_eq_true_eq]
  constructor
  · rintro ⟨length, _, rfl, _, _, ⟨⟨hpos, _⟩, rfl⟩, found, _, ⟨hlength, rfl⟩, hfound⟩
    cases hc : ConnectionId.ofBytes? found with
    | none =>
      rw [hc] at hfound
      cases hfound
    | some c =>
      rw [hc] at hfound
      obtain ⟨rfl, rfl⟩ := Reader.pure_eq_ok.1 hfound
      obtain rfl := ConnectionId.ofBytes?_eq_some_iff.1 hc
      have hbyte : UInt8.ofNat cid.length = length := by
        rw [ConnectionId.length, hlength, UInt8.ofNat_toNat]
      rw [hbyte]
      refine ⟨?_, .octets (.octets (.nil _))⟩
      rwa [ConnectionId.length, hlength]
  · rintro ⟨hpos, _ | _ | ⟨_ | _ | ⟨⟨⟩⟩⟩⟩
    refine ⟨_, _, rfl, (), _, ⟨⟨?_, ?_⟩, rfl⟩, cid.bytes, _,
      ⟨cid.toNat_ofNat_length.symm, rfl⟩, ?_⟩
    · rwa [cid.toNat_ofNat_length]
    · rw [cid.toNat_ofNat_length]
      exact cid.length_le
    · rw [ConnectionId.ofBytes?_bytes]
      rfl

theorem readIssued_eq_ok {i : IssuedConnectionId} :
    readIssued bs = .ok (i, rest) ↔
      i.retirePriorTo ≤ i.sequenceNumber ∧ 0 < i.connectionId.length ∧ Opens i.layout bs rest := by
  simp only [readIssued, Reader.bind_eq_ok, readNumber_eq_ok, insist_eq_ok, readIssuedCid_eq_ok,
    readFixed_eq_ok, Reader.pure_eq_ok, decide_eq_true_eq]
  constructor
  · rintro ⟨sequenceNumber, _, ⟨_, hsequence, rfl⟩, retirePriorTo, _, ⟨_, hretire, rfl⟩, _, _,
      ⟨hle, rfl⟩, cid, _, ⟨hpos, hcid⟩, token, _, rfl, rfl, rfl⟩
    exact ⟨hle, hpos, .number hsequence (.number hretire (hcid.append (.octets (.nil _))))⟩
  · rintro ⟨hle, hpos, _ | ⟨hsequence, _ | ⟨hretire, hopens⟩⟩⟩
    change Opens ([_, _] ++ [_]) _ _ at hopens
    obtain ⟨_, hcid, _ | _ | ⟨⟨⟩⟩⟩ := Opens.of_append hopens
    exact ⟨i.sequenceNumber, _, ⟨_, hsequence, rfl⟩, i.retirePriorTo, _, ⟨_, hretire, rfl⟩, (), _,
      ⟨hle, rfl⟩, i.connectionId, _, ⟨hpos, hcid⟩, i.resetToken, _, rfl, rfl, rfl⟩

theorem readTrigger_eq_ok {isTransport : Bool} {frameType : Option Nat} :
    readTrigger isTransport bs = .ok (frameType, rest) ↔
      frameType.isSome = isTransport ∧ Opens (frameType.map Field.number).toList bs rest := by
  cases isTransport with
  | false =>
    rw [readTrigger, Reader.pure_eq_ok]
    constructor
    · rintro ⟨rfl, rfl⟩
      exact ⟨rfl, .nil _⟩
    · rintro ⟨hnone, hopens⟩
      obtain rfl := Option.not_isSome_iff_eq_none.1 (Bool.eq_false_iff.1 hnone)
      cases hopens
      exact ⟨rfl, rfl⟩
  | true =>
    simp only [readTrigger, Reader.map_eq_ok, readNumber_eq_ok]
    constructor
    · rintro ⟨_, ⟨_, hcode, rfl⟩, rfl⟩
      exact ⟨rfl, .number hcode (.nil _)⟩
    · rintro ⟨hsome, hopens⟩
      obtain ⟨n, rfl⟩ := Option.isSome_iff_exists.1 hsome
      obtain _ | ⟨hcode, ⟨⟩⟩ := hopens
      exact ⟨n, ⟨_, hcode, rfl⟩, rfl⟩

theorem readClosing_eq_ok {isTransport : Bool} {c : Closing} :
    readClosing isTransport bs = .ok (c, rest) ↔
      c.frameType.isSome = isTransport ∧ Opens c.layout bs rest := by
  simp only [readClosing, Reader.bind_eq_ok, readNumber_eq_ok, readTrigger_eq_ok, readBytes_eq_ok,
    Reader.pure_eq_ok]
  constructor
  · rintro ⟨errorCode, _, ⟨_, hcode, rfl⟩, frameType, _, ⟨htransport, htype⟩, _, _,
      ⟨_, hlength, rfl⟩, reason, _, ⟨rfl, rfl⟩, rfl, rfl⟩
    exact ⟨htransport, .number hcode (htype.append (.number hlength (.octets (.nil _))))⟩
  · rintro ⟨htransport, _ | ⟨hcode, hopens⟩⟩
    obtain ⟨_, htype, _ | ⟨hlength, _ | _ | ⟨⟨⟩⟩⟩⟩ := Opens.of_append hopens
    exact ⟨c.errorCode, _, ⟨_, hcode, rfl⟩, c.frameType, _, ⟨htransport, htype⟩, _, _,
      ⟨_, hlength, rfl⟩, c.reason, _, ⟨rfl, rfl⟩, rfl, rfl⟩

end Readers

end Frame

end QuicTransport
