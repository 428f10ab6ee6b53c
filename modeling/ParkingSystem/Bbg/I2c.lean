import ParkingSystem.Foundation.Lines
import ParkingSystem.Stm32.Frame

/-!
# The I2C reader of the BeagleBone

One pass of the main loop of `bbg_i2c.c`: the 48 bytes read from the bus are taken as a frame, the
last byte of each text field is forced to NUL, the type byte is checked, and the frame is printed
in the wire format `TYPE|ID|LAT,LON|CITY\n` into the pipe.
-/

namespace ParkingSystem

open Foundation

/-- The cast of the received buffer to `gps_frame_t`, with the terminators that the reader forces
into the last byte of each text field. -/
def readFrame (buf : Bytes) (h : buf.length = frameSize) : GpsFrame where
  type := buf.headD 0
  customerId := terminate 15 ((buf.drop 1).take 15) (by
    simp only [List.length_take, List.length_drop, h, frameSize]; omega)
  latitude := terminate 8 ((buf.drop 16).take 8) (by
    simp only [List.length_take, List.length_drop, h, frameSize]; omega)
  longitude := terminate 8 ((buf.drop 24).take 8) (by
    simp only [List.length_take, List.length_drop, h, frameSize]; omega)
  city := terminate 16 ((buf.drop 32).take 16) (by
    simp only [List.length_take, List.length_drop, h, frameSize]; omega)

/-- The text printed by the format `"%c|%s|%s,%s|%s\n"`. -/
def wireText (f : GpsFrame) : Bytes :=
  [f.type] ++ bar :: (f.customerId.str ++ bar :: (f.latitude.str ++ comma ::
    (f.longitude.str ++ bar :: (f.city.str ++ [lf]))))

/-- `snprintf(wire, sizeof(wire), ..)` into `char wire[128]`. -/
def formatWire (f : GpsFrame) : Bytes × ℕ := snprintf 128 (wireText f)

/-- What one pass of the main loop writes to the pipe for the bytes read from the bus: nothing for
a short read or a bad frame type, else the first `wlen` bytes of `wire`. -/
def i2cForward (buf : Bytes) : Option Bytes :=
  if h : buf.length = frameSize then
    let f := readFrame buf h
    if f.type ≠ byteS ∧ f.type ≠ byteE then none
    else some ((formatWire f).1.take (formatWire f).2)
  else none

/-- The text of a frame is at most 49 bytes long. -/
lemma length_wireText_le (f : GpsFrame) : (wireText f).length ≤ 49 := by
  have h1 := f.customerId.str_length_lt
  have h2 := f.latitude.str_length_lt
  have h3 := f.longitude.str_length_lt
  have h4 := f.city.str_length_lt
  simp only [wireText, List.length_append, List.length_cons, List.length_nil]
  omega

/-- `snprintf` never truncates, and it returns the exact length of what it stored. -/
lemma formatWire_eq (f : GpsFrame) : formatWire f = (wireText f, (wireText f).length) :=
  snprintf_of_lt (lt_of_le_of_lt (length_wireText_le f) (by norm_num))

/-- What is written to the pipe for an accepted buffer is the text of its frame. -/
lemma i2cForward_eq_some_iff {buf text : Bytes} :
    i2cForward buf = some text ↔ ∃ h : buf.length = frameSize,
      ((readFrame buf h).type = byteS ∨ (readFrame buf h).type = byteE) ∧
        text = wireText (readFrame buf h) := by
  unfold i2cForward
  split_ifs with h
  · simp only [formatWire_eq, List.take_length]
    split_ifs with ht
    · simp only [false_iff, not_exists, not_and]
      rintro _ (hS | hE)
      · exact absurd hS ht.1
      · exact absurd hE ht.2
    · rw [not_and_or, not_not, not_not] at ht
      simp only [Option.some.injEq]
      exact ⟨fun he => ⟨h, ht, he.symm⟩, fun ⟨_, _, he⟩ => he.symm⟩
  · simp [h]

end ParkingSystem
