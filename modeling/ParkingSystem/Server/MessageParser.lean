import ParkingSystem.Foundation.Decimal
import ParkingSystem.Foundation.Lines
import ParkingSystem.Common

/-!
# The message parser of the server

`MessageParser::parse` reads one line `TYPE|ID|LAT,LON|CITY` into a `wire_msg_t`.  The conversion
`std::stod` is a parameter: a partial function from texts to numbers.
-/

namespace ParkingSystem

open Foundation

/-- The check of the type token: one byte, which is `MSG_START` or `MSG_END`. -/
def MsgType.ofToken : Bytes → Option MsgType
  | [b] => if b = byteS then some .msgStart else if b = byteE then some .msgEnd else none
  | _ => none

/-- A token passes the check exactly when it is the type byte of a message type. -/
lemma MsgType.ofToken_eq_some_iff {token : Bytes} {type : MsgType} :
    MsgType.ofToken token = some type ↔ token = [type.byte] := by
  unfold MsgType.ofToken
  split
  · rename_i b
    have hSE : byteS ≠ byteE := by decide
    cases type <;> simp only [MsgType.byte, List.cons.injEq, and_true] <;> split_ifs <;> simp_all
  · rename_i hne
    simp only [reduceCtorEq, false_iff]
    exact hne type.byte

/-- `MessageParser::parse`: one line, newline already stripped. -/
def parse (stod : Bytes → Option ℚ) (line : Bytes) : Option WireMsg := do
  let (token, ss) ← getline bar line
  let type ← MsgType.ofToken token
  let (id, ss) ← getline bar ss
  if id = [] then none
  let (token, ss) ← getline bar ss
  let (latText, lonText) ← cutAt comma token
  let lat ← stod latText
  let lon ← stod lonText
  let (city, _) ← getline lf ss
  if city = [] then none
  some {
    type := type
    customerId := strncpy customerIdLen id
    lat := lat
    lon := lon
    city := strncpy cityNameLen city }

section Parse

variable {stod : Bytes → Option ℚ} {line : Bytes} {msg : WireMsg}

/-- A line put together from well-formed fields is parsed into these fields. -/
lemma parse_fields {type : MsgType} {id latText lonText city : Bytes} {lat lon : ℚ}
    (hid : id ≠ []) (hidBar : bar ∉ id) (hlatBar : bar ∉ latText) (hlonBar : bar ∉ lonText)
    (hlatComma : comma ∉ latText) (hlat : stod latText = some lat) (hlon : stod lonText = some lon)
    (hcity : city ≠ []) (hcityLf : lf ∉ city) :
    parse stod (type.byte :: bar :: (id ++ bar :: (latText ++ comma :: (lonText ++ bar :: city)))) =
      some ⟨type, strncpy customerIdLen id, lat, lon, strncpy cityNameLen city⟩ := by
  have htype : bar ∉ [type.byte] := by cases type <;> decide
  have h1 := getline_append htype
    (id ++ bar :: (latText ++ comma :: (lonText ++ bar :: city)))
  have h2 := getline_append hidBar (latText ++ comma :: (lonText ++ bar :: city))
  have hpair : bar ∉ latText ++ comma :: lonText := by
    simp only [List.mem_append, List.mem_cons, not_or]
    exact ⟨hlatBar, by decide, hlonBar⟩
  have h3 := getline_append hpair city
  rw [List.append_assoc, List.cons_append] at h3
  have h4 := getline_of_notMem hcity hcityLf
  have hof : MsgType.ofToken [type.byte] = some type := MsgType.ofToken_eq_some_iff.mpr rfl
  simp only [List.singleton_append] at h1
  simp [parse, h1, hof, h2, hid, h3, cutAt_append hlatComma, hlat, hlon, h4, hcity]

/-- What the steps of an accepting run of the parser found. -/
lemma parse_cases (h : parse stod line = some msg) :
    ∃ token₁ s₁ type id s₂ token₂ s₃ latText lonText lat lon city s₄,
      getline bar line = some (token₁, s₁) ∧ MsgType.ofToken token₁ = some type ∧
      getline bar s₁ = some (id, s₂) ∧ id ≠ [] ∧
      getline bar s₂ = some (token₂, s₃) ∧ cutAt comma token₂ = some (latText, lonText) ∧
      stod latText = some lat ∧ stod lonText = some lon ∧
      getline lf s₃ = some (city, s₄) ∧ city ≠ [] ∧
      msg = ⟨type, strncpy customerIdLen id, lat, lon, strncpy cityNameLen city⟩ := by
  obtain ⟨⟨token₁, s₁⟩, h₁, h⟩ := Option.bind_eq_some_iff.mp h
  obtain ⟨type, htype, h⟩ := Option.bind_eq_some_iff.mp h
  obtain ⟨⟨id, s₂⟩, h₂, h⟩ := Option.bind_eq_some_iff.mp h
  by_cases hid : id = []
  · simp only [hid, if_true] at h
    cases h
  simp only [hid, if_false] at h
  obtain ⟨⟨token₂, s₃⟩, h₃, h⟩ := Option.bind_eq_some_iff.mp h
  obtain ⟨⟨latText, lonText⟩, hcut, h⟩ := Option.bind_eq_some_iff.mp h
  obtain ⟨lat, hlat, h⟩ := Option.bind_eq_some_iff.mp h
  obtain ⟨lon, hlon, h⟩ := Option.bind_eq_some_iff.mp h
  obtain ⟨⟨city, s₄⟩, h₄, h⟩ := Option.bind_eq_some_iff.mp h
  by_cases hcity : city = []
  · simp only [hcity, if_true] at h
    cases h
  simp only [hcity, if_false] at h
  exact ⟨token₁, s₁, type, id, s₂, token₂, s₃, latText, lonText, lat, lon, city, s₄, h₁, htype, h₂,
    hid, h₃, hcut, hlat, hlon, h₄, hcity, (Option.some.inj h).symm⟩

/-- **What the parser accepts.**  A line without newline is accepted exactly when it is put
together from well-formed fields, and the message holds these fields. -/
theorem parse_eq_some_iff (hline : lf ∉ line) :
    parse stod line = some msg ↔ ∃ type id latText lonText city lat lon,
      line = MsgType.byte type :: bar ::
        (id ++ bar :: (latText ++ comma :: (lonText ++ bar :: city))) ∧
      id ≠ [] ∧ bar ∉ id ∧ bar ∉ latText ∧ bar ∉ lonText ∧ comma ∉ latText ∧
      stod latText = some lat ∧ stod lonText = some lon ∧ city ≠ [] ∧
      msg = ⟨type, strncpy customerIdLen id, lat, lon, strncpy cityNameLen city⟩ := by
  constructor
  · intro h
    obtain ⟨token₁, s₁, type, id, s₂, token₂, s₃, latText, lonText, lat, lon, city, s₄, hg₁, htype,
      hg₂, hid, hg₃, hcut, hlat, hlon, hg₄, hcity, rfl⟩ := parse_cases h
    rw [MsgType.ofToken_eq_some_iff] at htype
    subst htype
    obtain ⟨rfl, hlatComma⟩ := cutAt_eq_some_iff.mp hcut
    -- each token but the last one is ended by a separator, since something is read after it
    obtain ⟨rfl, -⟩ := getline_eq_some_of_next hg₁ hg₂
    obtain ⟨rfl, hidBar⟩ := getline_eq_some_of_next hg₂ hg₃
    obtain ⟨rfl, hpair⟩ := getline_eq_some_of_next hg₃ hg₄
    have hlf : lf ∉ s₃ := fun hmem => hline (by simp [hmem])
    have hs₃ : s₃ ≠ [] := by rintro rfl; simp [getline] at hg₄
    obtain ⟨rfl, -⟩ := Prod.mk.inj (Option.some.inj ((getline_of_notMem hs₃ hlf).symm.trans hg₄))
    simp only [List.mem_append, List.mem_cons, not_or] at hpair
    exact ⟨type, id, latText, lonText, s₃, lat, lon, by simp, hid, hidBar, hpair.1, hpair.2.2,
      hlatComma, hlat, hlon, hcity, rfl⟩
  · rintro ⟨type, id, latText, lonText, city, lat, lon, rfl, hid, hidBar, hlatBar, hlonBar,
      hlatComma, hlat, hlon, hcity, rfl⟩
    exact parse_fields hid hidBar hlatBar hlonBar hlatComma hlat hlon hcity
      fun hmem => hline (by simp [hmem])

end Parse

/-! ## The form of a message line -/

/-- The texts that the separators of a message line stand between. -/
structure LineParts where
  /-- The type byte. -/
  type : UInt8
  id : Bytes
  latText : Bytes
  lonText : Bytes
  /-- What stands behind the third `|`. -/
  rest : Bytes
deriving DecidableEq

namespace LineParts

/-- The line `TYPE|ID|LAT,LON|REST`. -/
def text (p : LineParts) : Bytes :=
  p.type :: bar :: (p.id ++ bar :: (p.latText ++ comma :: (p.lonText ++ bar :: p.rest)))

/-- The parts of a line that is a message: the separators stand where the parser looks for them,
and both numbers can be converted. -/
@[mk_iff]
structure WellFormed (stod : Bytes → Option ℚ) (p : LineParts) : Prop where
  type_eq : p.type = byteS ∨ p.type = byteE
  id_ne_nil : p.id ≠ []
  bar_notMem_id : bar ∉ p.id
  comma_notMem_lat : comma ∉ p.latText
  bar_notMem_lat : bar ∉ p.latText
  bar_notMem_lon : bar ∉ p.lonText
  rest_ne_nil : p.rest ≠ []
  stod_lat : (stod p.latText).isSome
  stod_lon : (stod p.lonText).isSome

instance (stod : Bytes → Option ℚ) (p : LineParts) : Decidable (p.WellFormed stod) :=
  decidable_of_iff' _ (wellFormed_iff stod p)

/-- The message that holds the parts; the texts are cut to the size of their arrays. -/
structure Message (stod : Bytes → Option ℚ) (p : LineParts) (msg : WireMsg) : Prop where
  type_eq : msg.type.byte = p.type
  customerId_eq : msg.customerId.str = p.id.take 63
  lat_eq : stod p.latText = some msg.lat
  lon_eq : stod p.lonText = some msg.lon
  city_eq : msg.city.str = p.rest.take 63
  customerId_terminated : (0 : UInt8) ∈ msg.customerId.bytes
  city_terminated : (0 : UInt8) ∈ msg.city.bytes

section

variable {stod : Bytes → Option ℚ} {line : Bytes} {msg : WireMsg}

/-- The parts of a message line are where its separators are. -/
lemma WellFormed.ext_text {p q : LineParts} (hp : p.WellFormed stod) (hq : q.WellFormed stod)
    (h : p.text = q.text) : p = q := by
  obtain ⟨t, id, lat, lon, rest⟩ := p
  obtain ⟨t', id', lat', lon', rest'⟩ := q
  obtain ⟨rfl, h⟩ := List.cons.inj h
  have h := (List.cons.inj h).2
  obtain ⟨rfl, h⟩ := append_cons_inj h hp.bar_notMem_id hq.bar_notMem_id
  obtain ⟨rfl, h⟩ := append_cons_inj h hp.comma_notMem_lat hq.comma_notMem_lat
  obtain ⟨rfl, rfl⟩ := append_cons_inj h hp.bar_notMem_lon hq.bar_notMem_lon
  rfl

/-- A line of well-formed parts is parsed. -/
lemma WellFormed.exists_parse {p : LineParts} (hp : p.WellFormed stod) (hlf : lf ∉ p.text) :
    ∃ msg, parse stod p.text = some msg := by
  obtain ⟨type, htype⟩ : ∃ type : MsgType, p.type = type.byte := by
    rcases hp.type_eq with h | h
    · exact ⟨.msgStart, h⟩
    · exact ⟨.msgEnd, h⟩
  obtain ⟨lat, hlat⟩ := Option.isSome_iff_exists.mp hp.stod_lat
  obtain ⟨lon, hlon⟩ := Option.isSome_iff_exists.mp hp.stod_lon
  have hrest : lf ∉ p.rest := fun hmem => hlf (by simp [text, hmem])
  rw [text, htype]
  exact ⟨_, parse_fields hp.id_ne_nil hp.bar_notMem_id hp.bar_notMem_lat hp.bar_notMem_lon
    hp.comma_notMem_lat hlat hlon hp.rest_ne_nil hrest⟩

/-- A parsed line has well-formed parts, and the message holds them. -/
lemma exists_of_parse (hlf : lf ∉ line) (h0 : (0 : UInt8) ∉ line)
    (h : parse stod line = some msg) :
    ∃ p : LineParts, p.text = line ∧ p.WellFormed stod ∧ p.Message stod msg := by
  obtain ⟨type, id, latText, lonText, rest, lat, lon, rfl, hid, hidBar, hlatBar, hlonBar,
    hlatComma, hlat, hlon, hrest, rfl⟩ := (parse_eq_some_iff hlf).mp h
  have hid0 : (0 : UInt8) ∉ id := fun hmem => h0 (by simp [hmem])
  have hrest0 : (0 : UInt8) ∉ rest := fun hmem => h0 (by simp [hmem])
  refine ⟨⟨type.byte, id, latText, lonText, rest⟩, rfl, ?_, ?_⟩
  · exact ⟨by cases type <;> simp [MsgType.byte], hid, hidBar, hlatComma, hlatBar, hlonBar, hrest,
      by simp [hlat], by simp [hlon]⟩
  · exact ⟨rfl, by simp [cstr_eq_self hid0], hlat, hlon, by simp [cstr_eq_self hrest0],
      CharBuf.terminated _, CharBuf.terminated _⟩

end

end LineParts

/-- **The message lines.**  A line without newline and NUL is a message exactly when it has
well-formed parts; there is one way to take it apart, and the message holds the parts. -/
theorem parse_iff_parts {stod : Bytes → Option ℚ} {line : Bytes} (hlf : lf ∉ line)
    (h0 : (0 : UInt8) ∉ line) :
    ((∃ msg, parse stod line = some msg) ↔
        ∃ p : LineParts, p.text = line ∧ p.WellFormed stod) ∧
      (∀ p q : LineParts, p.text = line → p.WellFormed stod → q.text = line →
        q.WellFormed stod → p = q) ∧
      ∀ msg (p : LineParts), parse stod line = some msg → p.text = line → p.WellFormed stod →
        p.Message stod msg := by
  refine ⟨⟨?_, ?_⟩, ?_, ?_⟩
  · rintro ⟨msg, h⟩
    obtain ⟨p, htext, hp, -⟩ := LineParts.exists_of_parse hlf h0 h
    exact ⟨p, htext, hp⟩
  · rintro ⟨p, rfl, hp⟩
    exact hp.exists_parse hlf
  · rintro p q rfl hp htext hq
    exact hp.ext_text hq htext.symm
  · rintro msg p h rfl hp
    obtain ⟨q, htext, hq, hmsg⟩ := LineParts.exists_of_parse hlf h0 h
    exact hp.ext_text hq htext.symm ▸ hmsg

/-- A message line with a `|` and a comma in its last part. -/
theorem parse_iff_parts_bar :
    ∃ msg, parse readDecimal (ascii "E|CAR|1,-2|Tel|Aviv,") = some msg ∧ msg.type = .msgEnd ∧
      msg.lon = -2 ∧ msg.city.str = ascii "Tel|Aviv," := by
  have h := @parse_iff_parts readDecimal (ascii "E|CAR|1,-2|Tel|Aviv,") (by decide) (by decide)
  let p : LineParts := ⟨byteE, ascii "CAR", ascii "1", ascii "-2", ascii "Tel|Aviv,"⟩
  have htext : p.text = ascii "E|CAR|1,-2|Tel|Aviv," := by decide
  have hp : p.WellFormed readDecimal := by decide +kernel
  obtain ⟨msg, hmsg⟩ := h.1.mpr ⟨p, htext, hp⟩
  have hparts := h.2.2 msg p hmsg htext hp
  refine ⟨msg, hmsg, by simpa [p] using hparts.type_eq, ?_, ?_⟩
  · have hlon : readDecimal (ascii "-2") = some (-2) := by decide +kernel
    exact Option.some.inj (hparts.lon_eq.symm.trans hlon)
  · exact hparts.city_eq.trans (by decide)

end ParkingSystem
