import QuicTransport.PacketNumber

set_option autoImplicit false

/-! # The number behind low bytes

A window of packet numbers around the expected one holds each pattern of low bytes exactly once. A
number in that window (`PacketNumber.Near`) is therefore recovered from its low bytes. Of the two
ends of the window only the upper one belongs to it, since of two numbers at the same distance the
upper is taken. -/

namespace QuicTransport.PacketNumber

/-- The number is at most half a window away from the one that is expected, and not exactly
half a window below it. -/
def Near (seen : Option Nat) (w : Width) (number : Nat) : Prop :=
  expected seen < number + w.window / 2 ∧ number ≤ expected seen + w.window / 2

theorem readTruncated?_truncate (w : Width) (number : Nat) (rest : Bytes) :
    readTruncated? w (truncate w number ++ rest) = some (number % w.window) := by
  have hsplit : Bytes.split? w.bytes (truncate w number ++ rest) =
      some (truncate w number, rest) := by
    have happend := Bytes.split?_append (truncate w number) rest
    rwa [length_truncate] at happend
  rw [readTruncated?, hsplit, Option.map_some]
  exact congrArg some (Bytes.ofBigEndian_bigEndian_mod w.bytes number)

/-- The candidates are whole windows apart, so the one in the window around the expected number is
taken. -/
theorem recover_of_near {seen : Option Nat} {w : Width} {number : Nat} (hnear : Near seen w number)
    (hlargest : number ≤ largest) : recover seen (number % w.window) w = number := by
  unfold Near at hnear
  unfold largest at hlargest
  unfold recover largest
  generalize expected seen = next at hnear ⊢
  cases w <;> simp only [Width.window, Width.bytes, Bytes.span] at hnear ⊢ <;> split <;>
    (try split) <;> omega

end QuicTransport.PacketNumber
