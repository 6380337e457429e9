import BoostAsio.Core.ErrorCode
import BoostAsio.Core.Stream.IStream
import BoostAsio.Core.Transfer
import Mathlib.Algebra.Group.Nat.Defs

/-!
# Ranges of a buffer

The sizes and offsets of the examples are unsigned machine words. As long as an offset does not
pass the end of its buffer, neither the sum nor the difference wraps around.
-/

namespace BoostAsio

/-- A code that handlers take for a failure and that throwing functions throw. -/
abbrev Failure := { ec : ErrorCode // ec.failed = true }

/-- The memory of `asio::buffer(data + start, size)`. -/
structure Range where
  start : UInt64
  size : UInt64
  deriving DecidableEq

/-- What an operation on this range is offered. -/
def Range.toOffer (r : Range) : Transfer.Offer := ⟨r.start.toNat, r.size.toNat⟩

/-- The range from an offset to the end of a buffer. -/
def Range.rest (length offset : UInt64) : Range := ⟨offset, length - offset⟩

/-- An offset into a buffer of this length counts the moved ones of so many bytes. -/
structure Offset (length offset : UInt64) (total moved : Nat) : Prop where
  length_eq : length.toNat = total
  offset_eq : offset.toNat = moved
  moved_le : moved ≤ total

namespace Offset

variable {length offset : UInt64} {total moved n : Nat}

/-- The offset does not pass the end. -/
theorem offset_le (h : Offset length offset total moved) : offset ≤ length := by
  rw [UInt64.le_iff_toNat_le, h.length_eq, h.offset_eq]
  exact h.moved_le

/-- The exit test is the test that everything is moved. -/
theorem eq_length_iff (h : Offset length offset total moved) :
    offset = length ↔ moved = total := by
  rw [← UInt64.toNat_inj, h.length_eq, h.offset_eq]

/-- The remaining size does not wrap around. -/
theorem size_rest (h : Offset length offset total moved) :
    (Range.rest length offset).size.toNat = total - moved := by
  rw [Range.rest, UInt64.toNat_sub_of_le length offset h.offset_le, h.length_eq, h.offset_eq]

/-- The next operation is offered what is left. -/
theorem toOffer_rest (h : Offset length offset total moved) :
    (Range.rest length offset).toOffer = ⟨moved, total - moved⟩ := by
  rw [Range.toOffer, h.size_rest]
  exact congrArg (Transfer.Offer.mk · (total - moved)) h.offset_eq

/-- An operation that fits does not make the offset wrap around. -/
theorem advance (h : Offset length offset total moved) (hn : n ≤ total - moved) :
    Offset length (offset + n.toUInt64) total (moved + n) := by
  have hle := h.moved_le
  have hlt : total < 2 ^ 64 := h.length_eq ▸ length.toNat_lt
  have htoNat : n.toUInt64.toNat = n := by
    apply UInt64.toNat_ofNat_of_lt'
    change n < 2 ^ 64
    omega
  refine ⟨h.length_eq, ?_, by omega⟩
  rw [UInt64.toNat_add, htoNat, h.offset_eq, Nat.mod_eq_of_lt (by omega)]

end Offset

/-- A `std::string`, whose length is a `size_t`. -/
structure Text where
  bytes : Bytes
  length_lt : bytes.length < 2 ^ 64

namespace Text

/-- `length()`. -/
def length (buf : Text) : UInt64 := UInt64.ofNat buf.bytes.length

@[simp] theorem length_toNat (buf : Text) : buf.length.toNat = buf.bytes.length :=
  UInt64.toNat_ofNat_of_lt' buf.length_lt

/-- The first bytes of a range of the text. -/
def piece (buf : Text) (r : Range) (n : Nat) : Bytes := (buf.bytes.drop r.start.toNat).take n

end Text

/-! ### The ranges of a transfer -/

namespace Transfer

variable {ε : Type*} {total : Nat} {reports : List (Report ε)} {s : State ε}
  {ranges : List Range} {r : Range}

/-- No operation is given memory outside the buffer. -/
theorem Reached.range_within (h : Reached total reports s (ranges.map Range.toOffer))
    (hr : r ∈ ranges) : r.start.toNat + r.size.toNat ≤ total :=
  Nat.le_of_eq (h.offers_rest _ (List.mem_map_of_mem hr))

/-- An operation is given no memory at all only for an empty buffer. -/
theorem Reached.total_eq_zero (h : Reached total reports s (ranges.map Range.toOffer))
    (hr : r ∈ ranges) (hsize : r.size = 0) : total = 0 := by
  apply h.offers_pos _ (List.mem_map_of_mem hr)
  rw [Range.toOffer, hsize]
  rfl

/-- The operation under way was given the rest of the buffer. -/
theorem Reached.range_last (h : Reached total reports s (ranges.map Range.toOffer))
    (hbusy : s.phase = .busy) :
    ∃ r, ranges.getLast? = some r ∧ r.size.toNat = total - s.moved := by
  have hlast := h.busy_last hbusy
  rw [List.getLast?_map] at hlast
  obtain ⟨r, hr, hoffer⟩ := Option.map_eq_some_iff.mp hlast
  exact ⟨r, hr, congrArg Offer.size hoffer⟩

/-- Every operation but the one under way has ended. -/
theorem Reached.ranges_busy (h : Reached total reports s (ranges.map Range.toOffer))
    (hbusy : s.phase = .busy) : ranges.length = reports.length + 1 := by
  have hcount := h.ended_busy hbusy
  rwa [List.length_map] at hcount

theorem Reached.ranges_ended (h : Reached total reports s (ranges.map Range.toOffer))
    (hended : s.phase ≠ .busy) : ranges.length = reports.length := by
  have hcount := h.ended hended
  rwa [List.length_map] at hcount

theorem Reached.ranges_bound (h : Reached total reports s (ranges.map Range.toOffer)) :
    ranges.length ≤ max 1 total := by
  have hbound := h.offers_bound
  rwa [List.length_map] at hbound

end Transfer

end BoostAsio
