import ParkingSystem.Bbg.I2c
import ParkingSystem.Foundation.Decimal
import ParkingSystem.Server.Framing

/-!
# From the frame to the message

A frame of the STM32 is read by the BeagleBone, printed as a line of the wire format, taken off
the stream by the server and parsed.  For a vehicle whose texts fit their fields and keep out the
separators, the message decoded at the end is the one that was framed at the start.  For a frame
with arbitrary bytes this needs the separators to be absent, since the wire format has no
escaping.
-/

namespace ParkingSystem

open Foundation

/-! ## Reading the frame back -/

/-- The frame read from the 48 bytes of a frame: only the last byte of each text may change. -/
lemma readFrame_eq (f : GpsFrame) :
    readFrame f.bytes f.length_bytes = {
      type := f.type
      customerId := terminate 15 f.customerId.bytes f.customerId.length_eq
      latitude := terminate 8 f.latitude.bytes f.latitude.length_eq
      longitude := terminate 8 f.longitude.bytes f.longitude.length_eq
      city := terminate 16 f.city.bytes f.city.length_eq } := by
  have h1 := f.customerId.length_eq
  have h2 := f.latitude.length_eq
  have h3 := f.longitude.length_eq
  have h4 := f.city.length_eq
  have e1 : (f.bytes.drop 1).take 15 = f.customerId.bytes := by
    simp [GpsFrame.bytes, ← h1]
  have e2 : (f.bytes.drop 16).take 8 = f.latitude.bytes := by
    simp [GpsFrame.bytes, h1, ← h2]
  have e3 : (f.bytes.drop 24).take 8 = f.longitude.bytes := by
    have d1 : f.customerId.bytes.drop 23 = [] := List.drop_of_length_le (by omega)
    simp [GpsFrame.bytes, List.drop_append, h1, h2, d1, ← h3]
  have e4 : (f.bytes.drop 32).take 16 = f.city.bytes := by
    have d1 : f.customerId.bytes.drop 31 = [] := List.drop_of_length_le (by omega)
    have d2 : f.latitude.bytes.drop 16 = [] := List.drop_of_length_le (by omega)
    have d3 : f.city.bytes.take 16 = f.city.bytes := List.take_of_length_le h4.le
    simp [GpsFrame.bytes, List.drop_append, h1, h2, h3, d1, d2, d3]
  simp only [readFrame, e1, e2, e3, e4]
  rfl

/-- It holds the same type and the same texts. -/
lemma readFrame_bytes (f : GpsFrame) :
    (readFrame f.bytes f.length_bytes).type = f.type ∧
      (readFrame f.bytes f.length_bytes).customerId.str = f.customerId.str ∧
      (readFrame f.bytes f.length_bytes).latitude.str = f.latitude.str ∧
      (readFrame f.bytes f.length_bytes).longitude.str = f.longitude.str ∧
      (readFrame f.bytes f.length_bytes).city.str = f.city.str := by
  rw [readFrame_eq]
  exact ⟨rfl, str_terminate_bytes _, str_terminate_bytes _, str_terminate_bytes _,
    str_terminate_bytes _⟩

/-- A frame that the STM32 has built is read as it is. -/
lemma readFrame_buildFrame (table : VehicleTable) (idx : ℕ) (type : MsgType) :
    readFrame (buildFrame table idx type).bytes (buildFrame table idx type).length_bytes =
      buildFrame table idx type := by
  rw [readFrame_eq]
  simp only [buildFrame, terminate_strncpy]

/-- The text of a frame depends only on its type and its strings, so a frame of the STM32 is
printed as if it had not been sent over the bus. -/
lemma i2cForward_bytes (f : GpsFrame) (hf : f.type = byteS ∨ f.type = byteE) :
    i2cForward f.bytes = some (wireText f) ∧
      formatWire (readFrame f.bytes f.length_bytes) = (wireText f, (wireText f).length) := by
  obtain ⟨ht, hid, hlat, hlon, hcity⟩ := readFrame_bytes f
  have htext : wireText (readFrame f.bytes f.length_bytes) = wireText f := by
    simp only [wireText, ht, hid, hlat, hlon, hcity]
  refine ⟨i2cForward_eq_some_iff.mpr ⟨f.length_bytes, ?_, htext.symm⟩, ?_⟩
  · rwa [ht]
  · rw [formatWire_eq, htext]

/-! ## The server's side -/

/-- The messages among the lines that a list of calls hands to the parser. -/
def acceptedMessages (stod : Bytes → Option ℚ) (calls : List Call) : List WireMsg :=
  (parsedLines calls).filterMap (parse stod)

/-- The line of the wire format that a frame is printed as, without its newline. -/
def wireLine (f : GpsFrame) : Bytes :=
  f.type :: bar :: (f.customerId.str ++ bar :: (f.latitude.str ++ comma ::
    (f.longitude.str ++ bar :: f.city.str)))

lemma wireText_eq (f : GpsFrame) : wireText f = wireLine f ++ [lf] := by
  simp [wireText, wireLine]

/-- The texts of a frame keep out the separators: no newline anywhere, no `|` before the city, and
no carriage return at the end of the city. -/
structure GpsFrame.Separable (f : GpsFrame) : Prop where
  lf_customerId : lf ∉ f.customerId.str
  lf_latitude : lf ∉ f.latitude.str
  lf_longitude : lf ∉ f.longitude.str
  lf_city : lf ∉ f.city.str
  bar_customerId : bar ∉ f.customerId.str
  bar_latitude : bar ∉ f.latitude.str
  bar_longitude : bar ∉ f.longitude.str
  cr_city : f.city.str.getLast? ≠ some cr

section Separable

variable {f : GpsFrame}

/-- The text of a frame holds no NUL. -/
lemma zero_notMem_wireText (hf : f.type = byteS ∨ f.type = byteE) : (0 : UInt8) ∉ wireText f := by
  have h1 := f.customerId.zero_notMem_str
  have h2 := f.latitude.zero_notMem_str
  have h3 := f.longitude.zero_notMem_str
  have h4 := f.city.zero_notMem_str
  rcases hf with hf | hf <;> simp [wireText, hf, h1, h2, h3, h4] <;> decide

/-- The text of a frame without separators is one line, which is left alone by the stripping of
carriage returns. -/
lemma GpsFrame.Separable.cutLines_wireText (h : f.Separable)
    (hf : f.type = byteS ∨ f.type = byteE) :
    lf ∉ wireLine f ∧ framedLines (cutLines (wireText f)).1 = [wireLine f] ∧
      (cutLines (wireText f)).2 = [] := by
  have hlf : lf ∉ wireLine f := by
    rcases hf with hf | hf <;>
      simp [wireLine, hf, h.lf_customerId, h.lf_latitude, h.lf_longitude, h.lf_city] <;> decide
  have hstrip : stripCr (wireLine f) = wireLine f := by
    apply stripCr_of_getLast?_ne
    have hlast : (wireLine f).getLast? = (f.city.str.getLast?).or (some bar) := by
      simp [wireLine, List.getLast?_cons, List.getLast?_append]
    rw [hlast]
    cases hcity : f.city.str.getLast? with
    | none => decide
    | some b => simpa [hcity] using h.cr_city
  have hne : wireLine f ≠ [] := by simp [wireLine]
  rw [wireText_eq, cutLines_line hlf]
  exact ⟨hlf, by simp [cutLines, framedLines, hstrip, hne], rfl⟩

/-- What the server does with the text of a frame without separators, when its receive buffer is
empty: the one line is handled. -/
lemma GpsFrame.Separable.handleClient_wireText (h : f.Separable)
    (hf : f.type = byteS ∨ f.type = byteE) (stod : Bytes → Option ℚ) {s : TcpServer} {fd : ℕ}
    (hbuf : s.recvBufs.lookup fd = some []) (envs : ℕ → CallEnv) :
    handleClient stod envs fd (wireText f) s =
      ({ s with
          sessions := (handleLine stod (envs 0) fd (wireLine f) s.sessions).1
          recvBufs := s.recvBufs.insert fd [] },
        .recv fd (wireText f) :: (handleLine stod (envs 0) fd (wireLine f) s.sessions).2) := by
  obtain ⟨-, hlines, hrest⟩ := h.cutLines_wireText hf
  have hne : wireText f ≠ [] := by simp [wireText]
  rw [handleClient_eq stod fd envs hbuf hne (zero_notMem_wireText hf)]
  simp [hlines, hrest, withEnvs, runMachine, lineStep]

/-- Handling a line hands this line to the parser. -/
lemma parsedLines_handleLine (stod : Bytes → Option ℚ) (env : CallEnv) (fd : ℕ) (line : Bytes)
    (sessions : SessionManager) :
    parsedLines (handleLine stod env fd line sessions).2 = [line] := by
  obtain ⟨-, -, reply, hex⟩ := handleLine_calls stod env fd line sessions
  rw [parsedLines_eq, hex]
  rfl

end Separable

/-- Two ways to put a message line together agree on the type, the id and the city. -/
lemma wireLine_inj {t t' : UInt8} {id id' token token' city city' : Bytes}
    (h : t :: bar :: (id ++ bar :: (token ++ bar :: city)) =
      t' :: bar :: (id' ++ bar :: (token' ++ bar :: city')))
    (hid : bar ∉ id) (hid' : bar ∉ id') (htoken : bar ∉ token) (htoken' : bar ∉ token') :
    t = t' ∧ id = id' ∧ city = city' := by
  rw [List.cons.injEq, List.cons.injEq] at h
  obtain ⟨ht, -, hrest⟩ := h
  obtain ⟨heq, hrest'⟩ := append_cons_inj hrest hid hid'
  obtain ⟨-, hcity⟩ := append_cons_inj hrest' htoken htoken'
  exact ⟨ht, heq, hcity⟩

/-! ## Round trip -/

/-- The texts of a vehicle fit the fields of a frame and keep out the separators of the wire
format. -/
structure Vehicle.WellFormed (v : Vehicle) : Prop where
  length_customerId : 1 ≤ v.customerId.length ∧ v.customerId.length ≤ 14
  length_latitude : 1 ≤ v.latitude.length ∧ v.latitude.length ≤ 7
  length_longitude : 1 ≤ v.longitude.length ∧ v.longitude.length ≤ 7
  length_city : 1 ≤ v.city.length ∧ v.city.length ≤ 15
  /-- No NUL, carriage return or newline in any field. -/
  no_control : ∀ text ∈ [v.customerId, v.latitude, v.longitude, v.city],
    (0 : UInt8) ∉ text ∧ cr ∉ text ∧ lf ∉ text
  bar_customerId : bar ∉ v.customerId
  bar_latitude : bar ∉ v.latitude
  bar_longitude : bar ∉ v.longitude
  comma_latitude : comma ∉ v.latitude

section RoundTrip

variable {stod : Bytes → Option ℚ} {table : VehicleTable} {idx : ℕ}

/-- The strings of the frame of a well-formed vehicle are its texts. -/
lemma Vehicle.WellFormed.buildFrame_str (h : (table.vehicle idx).WellFormed) (type : MsgType) :
    (buildFrame table idx type).customerId.str = (table.vehicle idx).customerId ∧
      (buildFrame table idx type).latitude.str = (table.vehicle idx).latitude ∧
      (buildFrame table idx type).longitude.str = (table.vehicle idx).longitude ∧
      (buildFrame table idx type).city.str = (table.vehicle idx).city := by
  have hfits : ∀ (n : ℕ) [NeZero n] (text : Bytes), text.length < n →
      text ∈ [(table.vehicle idx).customerId, (table.vehicle idx).latitude,
        (table.vehicle idx).longitude, (table.vehicle idx).city] →
      (strncpy n text).str = text := by
    intro n _ text hlen hmem
    exact str_strncpy_of_lt (h.no_control text hmem).1 hlen
  exact ⟨hfits 15 _ (Nat.lt_succ_of_le h.length_customerId.2) (by simp),
    hfits 8 _ (Nat.lt_succ_of_le h.length_latitude.2) (by simp),
    hfits 8 _ (Nat.lt_succ_of_le h.length_longitude.2) (by simp),
    hfits 16 _ (Nat.lt_succ_of_le h.length_city.2) (by simp)⟩

/-- The frame of a well-formed vehicle has no separators in its texts. -/
lemma Vehicle.WellFormed.separable (h : (table.vehicle idx).WellFormed) (type : MsgType) :
    (buildFrame table idx type).Separable := by
  obtain ⟨hid, hlat, hlon, hcity⟩ := h.buildFrame_str type
  have hno := h.no_control
  simp only [List.mem_cons, List.not_mem_nil, or_false, forall_eq_or_imp, forall_eq] at hno
  obtain ⟨⟨-, -, lf1⟩, ⟨-, -, lf2⟩, ⟨-, -, lf3⟩, -, cr4, lf4⟩ := hno
  exact {
    lf_customerId := by rwa [hid]
    lf_latitude := by rwa [hlat]
    lf_longitude := by rwa [hlon]
    lf_city := by rwa [hcity]
    bar_customerId := by rw [hid]; exact h.bar_customerId
    bar_latitude := by rw [hlat]; exact h.bar_latitude
    bar_longitude := by rw [hlon]; exact h.bar_longitude
    cr_city := by
      rw [hcity]
      exact fun hlast => cr4 (List.mem_of_getLast? hlast) }

/-- The reader accepts the type byte of a frame. -/
lemma buildFrame_type_accepted (table : VehicleTable) (idx : ℕ) (type : MsgType) :
    (buildFrame table idx type).type = byteS ∨ (buildFrame table idx type).type = byteE := by
  cases type
  · exact Or.inl rfl
  · exact Or.inr rfl

/-- The message that the line of a vehicle's frame is parsed into. -/
lemma Vehicle.WellFormed.parse_wireLine (h : (table.vehicle idx).WellFormed) (type : MsgType)
    {lat lon : ℚ} (hlat : stod (table.vehicle idx).latitude = some lat)
    (hlon : stod (table.vehicle idx).longitude = some lon) :
    parse stod (wireLine (buildFrame table idx type)) =
      some ⟨type, strncpy customerIdLen (table.vehicle idx).customerId, lat, lon,
        strncpy cityNameLen (table.vehicle idx).city⟩ := by
  obtain ⟨eid, elat, elon, ecity⟩ := h.buildFrame_str type
  have hlf : lf ∉ (table.vehicle idx).city := (h.no_control _ (by simp)).2.2
  have hid : (table.vehicle idx).customerId ≠ [] := List.ne_nil_of_length_pos h.length_customerId.1
  have hcity : (table.vehicle idx).city ≠ [] := List.ne_nil_of_length_pos h.length_city.1
  unfold wireLine
  rw [eid, elat, elon, ecity]
  exact parse_fields hid h.bar_customerId h.bar_latitude h.bar_longitude h.comma_latitude hlat hlon
    hcity hlf

/-- **The message is the frame.**  For a well-formed vehicle whose coordinates `stod` accepts, the
48 bytes of its frame are forwarded as one line, printed without truncation; the server takes
exactly this line off the stream and processes the message that it parses it into, whose fields
are those of the vehicle. -/
theorem frame_round_trip (h : (table.vehicle idx).WellFormed) (type : MsgType) {lat lon : ℚ}
    (hlat : stod (table.vehicle idx).latitude = some lat)
    (hlon : stod (table.vehicle idx).longitude = some lon) :
    ∃ (text line : Bytes) (msg : WireMsg),
      i2cForward (buildFrame table idx type).bytes = some text ∧
      formatWire (readFrame (buildFrame table idx type).bytes (GpsFrame.length_bytes _)) =
        (text, text.length) ∧
      text = line ++ [lf] ∧
      (∀ (s : TcpServer) (fd : ℕ) (envs : ℕ → CallEnv), s.recvBufs.lookup fd = some [] →
        handleClient stod envs fd text s =
          ({ s with
              sessions := (processMessage (envs 0) fd msg s.sessions).1
              recvBufs := s.recvBufs.insert fd [] },
            .recv fd text :: .parse fd line :: (processMessage (envs 0) fd msg s.sessions).2)) ∧
      parse stod line = some msg ∧ msg.type = type ∧
      msg.customerId.str = (table.vehicle idx).customerId ∧
      msg.city.str = (table.vehicle idx).city ∧ msg.lat = lat ∧ msg.lon = lon := by
  have htype := buildFrame_type_accepted table idx type
  have hparse := h.parse_wireLine type hlat hlon
  obtain ⟨hforward, hformat⟩ := i2cForward_bytes _ htype
  have hid : (strncpy customerIdLen (table.vehicle idx).customerId).str =
      (table.vehicle idx).customerId := by
    exact str_strncpy_of_lt (h.no_control _ (by simp)).1
      (h.length_customerId.2.trans_lt (by norm_num))
  have hcity : (strncpy cityNameLen (table.vehicle idx).city).str = (table.vehicle idx).city := by
    exact str_strncpy_of_lt (h.no_control _ (by simp)).1 (h.length_city.2.trans_lt (by norm_num))
  refine ⟨_, _, _, hforward, hformat, wireText_eq _, ?_, hparse, rfl, hid, hcity, rfl, rfl⟩
  intro s fd envs hbuf
  rw [(h.separable type).handleClient_wireText htype stod hbuf envs]
  simp [handleLine, hparse]

end RoundTrip

/-- The vehicles of the table in the source are well formed. -/
lemma gVehicles_wellFormed : ∀ v ∈ gVehicles.rows, v.WellFormed := by
  intro v hv
  simp only [gVehicles, List.mem_cons, List.not_mem_nil, or_false] at hv
  rcases hv with rfl | rfl | rfl | rfl <;> constructor <;> decide

theorem frame_round_trip_car_001 :
    ∃ (text line : Bytes) (msg : WireMsg),
      i2cForward (buildFrame gVehicles 0 .msgStart).bytes = some text ∧
      formatWire (readFrame (buildFrame gVehicles 0 .msgStart).bytes (GpsFrame.length_bytes _)) =
        (text, text.length) ∧
      text = line ++ [lf] ∧
      (∀ (s : TcpServer) (fd : ℕ) (envs : ℕ → CallEnv), s.recvBufs.lookup fd = some [] →
        handleClient readDecimal envs fd text s =
          ({ s with
              sessions := (processMessage (envs 0) fd msg s.sessions).1
              recvBufs := s.recvBufs.insert fd [] },
            .recv fd text :: .parse fd line :: (processMessage (envs 0) fd msg s.sessions).2)) ∧
      parse readDecimal line = some msg ∧ msg.type = .msgStart ∧
      msg.customerId.str = ascii "CAR-001" ∧ msg.city.str = ascii "TelAviv" ∧
      msg.lat = 320853 / 10000 ∧ msg.lon = 347817 / 10000 :=
  frame_round_trip (gVehicles_wellFormed _ (gVehicles.vehicle_mem 0)) .msgStart
    (by decide +kernel) (by decide +kernel)

/-! ## Frames with arbitrary bytes -/

/-- A server without sessions, with one client on descriptor 5. -/
def oneClient : TcpServer := ⟨SessionManager.empty, AList.insert 5 [] ∅, []⟩

/-- The environment with the clock at zero and no prices. -/
def noPrices : CallEnv := ⟨0, 0, PriceArea.zero⟩

/-- A frame whose city holds a newline and, behind it, a line of the wire format. -/
def smugglingFrame : GpsFrame where
  type := byteS
  customerId := strncpy 15 (ascii "CAR-001")
  latitude := strncpy 8 (ascii "32.0853")
  longitude := strncpy 8 (ascii "34.7817")
  city := strncpy 16 (ascii "C\nE|B|1,2|D")

/-- The wire format has no escaping: not every accepted frame is at most one message about its own
customer. -/
theorem not_every_frame_one_message :
    ¬ ∀ (stod : Bytes → Option ℚ) (buf text : Bytes) (hlen : buf.length = frameSize),
      i2cForward buf = some text →
      ∀ (s : TcpServer) (fd : ℕ) (envs : ℕ → CallEnv), s.recvBufs.lookup fd = some [] →
        (acceptedMessages stod (handleClient stod envs fd text s).2).length ≤ 1 ∧
          ∀ msg ∈ acceptedMessages stod (handleClient stod envs fd text s).2,
            msg.type.byte = (readFrame buf hlen).type ∧
            msg.customerId.str = (readFrame buf hlen).customerId.str ∧
            msg.city.str = (readFrame buf hlen).city.str := by
  intro h
  have hforward := (i2cForward_bytes smugglingFrame (Or.inl rfl)).1
  have hone := (h readDecimal smugglingFrame.bytes _ smugglingFrame.length_bytes hforward oneClient
    5
    (fun _ => noPrices) (AList.lookup_insert _)).1
  have htwo : (acceptedMessages readDecimal (handleClient readDecimal (fun _ => noPrices) 5
      (wireText smugglingFrame) oneClient).2).length = 2 := by decide +kernel
  omega

/-- **A frame without separators is at most one message, about its own customer.**  Whatever else
the 48 bytes hold, the server accepts at most one message of the text they are forwarded as, and
this message has the type, the customer id and the city of the frame. -/
theorem separable_frame_one_message (stod : Bytes → Option ℚ) {buf text : Bytes}
    (hlen : buf.length = frameSize) (hforward : i2cForward buf = some text)
    (hsep : (readFrame buf hlen).Separable) {s : TcpServer} {fd : ℕ}
    (hbuf : s.recvBufs.lookup fd = some []) (envs : ℕ → CallEnv) :
    (acceptedMessages stod (handleClient stod envs fd text s).2).length ≤ 1 ∧
      ∀ msg ∈ acceptedMessages stod (handleClient stod envs fd text s).2,
        msg.type.byte = (readFrame buf hlen).type ∧
        msg.customerId.str = (readFrame buf hlen).customerId.str ∧
        msg.city.str = (readFrame buf hlen).city.str := by
  obtain ⟨_, htype, rfl⟩ := i2cForward_eq_some_iff.mp hforward
  obtain ⟨hlf, -, -⟩ := hsep.cutLines_wireText htype
  have hparsed : parsedLines (handleClient stod envs fd (wireText (readFrame buf hlen)) s).2 =
      [wireLine (readFrame buf hlen)] := by
    rw [hsep.handleClient_wireText htype stod hbuf envs]
    exact parsedLines_handleLine stod (envs 0) fd _ s.sessions
  unfold acceptedMessages
  rw [hparsed]
  refine ⟨List.length_filterMap_le _ _, ?_⟩
  intro msg hmsg
  rw [List.mem_filterMap] at hmsg
  obtain ⟨line, hline, hparse⟩ := hmsg
  obtain rfl := List.mem_singleton.mp hline
  obtain ⟨type, id, latText, lonText, city, lat, lon, hfields, -, hid, hlat, hlon, -, -, -, -,
    rfl⟩ := (parse_eq_some_iff hlf).mp hparse
  set f := readFrame buf hlen with hf
  have hpair : bar ∉ f.latitude.str ++ comma :: f.longitude.str := by
    simp [hsep.bar_latitude, hsep.bar_longitude]
    decide
  have hpair' : bar ∉ latText ++ comma :: lonText := by
    simp [hlat, hlon]
    decide
  obtain ⟨ht, rfl, rfl⟩ := wireLine_inj (by simpa [wireLine] using hfields) hsep.bar_customerId hid
    hpair hpair'
  have hshort : f.customerId.str.length < customerIdLen ∧ f.city.str.length < cityNameLen :=
    ⟨f.customerId.str_length_lt.trans (by norm_num), f.city.str_length_lt.trans (by norm_num)⟩
  exact ⟨ht.symm, str_strncpy_of_lt f.customerId.zero_notMem_str hshort.1,
    str_strncpy_of_lt f.city.zero_notMem_str hshort.2⟩

theorem separable_frame_one_message_car_001 :
    (acceptedMessages readDecimal (handleClient readDecimal (fun _ => noPrices) 5
        (wireText (buildFrame gVehicles 0 .msgEnd)) oneClient).2).length ≤ 1 ∧
      ∀ msg ∈ acceptedMessages readDecimal (handleClient readDecimal (fun _ => noPrices) 5
          (wireText (buildFrame gVehicles 0 .msgEnd)) oneClient).2,
        msg.type.byte = byteE ∧ msg.customerId.str = ascii "CAR-001" ∧
        msg.city.str = ascii "TelAviv" := by
  have hsep : (readFrame (buildFrame gVehicles 0 .msgEnd).bytes
      (GpsFrame.length_bytes _)).Separable := by
    constructor <;> decide +kernel
  have hforward := (i2cForward_bytes _ (buildFrame_type_accepted gVehicles 0 .msgEnd)).1
  have h := separable_frame_one_message readDecimal (GpsFrame.length_bytes _) hforward hsep
    (s := oneClient) (AList.lookup_insert _) fun _ => noPrices
  exact h

end ParkingSystem
