import ParkingSystem.Foundation.Trace
import ParkingSystem.Stm32.Ticks

/-!
# The I2C slave of the STM32

The master reads the frame byte by byte: each event interrupt sends the byte of `g_frame` at the
HAL's buffer pointer, while the main loop may write the next frame into the same buffer.  Only
`build_frame` is taken as one step here, and `i2c_arm` is a step of its own.

A frame that is read is one that was built, as long as every start frame that is built agrees with
the one before it in the bytes that are still to be sent, or with the bytes already sent.  An end
frame differs from the start frame before it in the type byte only, which was sent first, so that
it may be built at any time.
-/

namespace ParkingSystem

open Foundation

/-! ## The HAL -/

/-- The `State` of the handle. -/
inductive HalState where
  /-- `HAL_I2C_STATE_READY`. -/
  | ready
  /-- `HAL_I2C_STATE_BUSY_TX`. -/
  | busyTx
deriving DecidableEq

/-- The result of a HAL function. -/
inductive HalStatus where
  /-- `HAL_OK`. -/
  | ok
  /-- `HAL_BUSY`. -/
  | busy
deriving DecidableEq

/-- `I2C_HandleTypeDef`, as far as the transmission of `g_frame` uses it. -/
structure I2cHandle where
  state : HalState
  /-- `pBuffPtr`, counted from the first byte of `g_frame`. -/
  buffPtr : ℕ
  /-- `XferCount`. -/
  xferCount : ℕ
  /-- What is still to be sent lies in `g_frame`. -/
  inBuffer : buffPtr + xferCount ≤ frameSize
deriving DecidableEq

namespace I2cHandle

/-- The handle after `MX_I2C2_Init`. -/
def reset : I2cHandle := ⟨.ready, 0, 0, by decide⟩

/-- `HAL_I2C_Slave_Transmit_IT(&hi2c2, (uint8_t *)&g_frame, FRAME_SIZE)`. -/
def slaveTransmitIt (h : I2cHandle) : HalStatus × I2cHandle :=
  match h.state with
  | .ready => (.ok, ⟨.busyTx, 0, frameSize, (Nat.zero_add _).le⟩)
  | .busyTx => (.busy, h)

/-- `HAL_I2C_SlaveTxCpltCallback`. -/
def slaveTxCpltCallback (h : I2cHandle) : I2cHandle := h.slaveTransmitIt.2

/-- `HAL_I2C_ErrorCallback`. -/
def errorCallback (h : I2cHandle) : I2cHandle := h.slaveTransmitIt.2

/-- `I2C_ITError`, when no other error than that of the master's early end is pending. -/
def itError (h : I2cHandle) : I2cHandle :=
  errorCallback ⟨.ready, h.buffPtr, 0, (Nat.le_add_right _ _).trans h.inBuffer⟩

/-- `I2C_ITSlaveCplt`: the master has ended the transmission. -/
def itSlaveCplt (h : I2cHandle) : I2cHandle :=
  if h.xferCount ≠ 0 then h.itError else slaveTxCpltCallback { h with state := .ready }

/-- The `TXIS` branch of `I2C_Slave_ISR_IT`: the byte written to `TXDR`, if there is one. -/
def txis (frame : GpsFrame) (h : I2cHandle) : Option UInt8 × I2cHandle :=
  if hpos : 0 < h.xferCount then
    have hlt : h.buffPtr < frame.bytes.length := by
      have := h.inBuffer
      rw [frame.length_bytes]
      omega
    (some frame.bytes[h.buffPtr],
      ⟨h.state, h.buffPtr + 1, h.xferCount - 1, by have := h.inBuffer; omega⟩)
  else (none, h)

/-- However a transmission ends, the slave is armed again. -/
lemma itSlaveCplt_eq (h : I2cHandle) :
    h.itSlaveCplt = ⟨.busyTx, 0, frameSize, (Nat.zero_add _).le⟩ := by
  unfold itSlaveCplt
  split_ifs <;> rfl

/-- Arming an armed slave changes nothing. -/
lemma slaveTransmitIt_of_busyTx {h : I2cHandle} (hbusy : h.state = .busyTx) :
    h.slaveTransmitIt = (.busy, h) := by
  simp [slaveTransmitIt, hbusy]

end I2cHandle

/-! ## The slave and the main loop -/

/-- Whether `build_frame` is called on the next tick. -/
def Stm32.builds (s : Stm32) : Bool := s.parkState = .parkingStart ∨ s.parkState = .parkingEnd

/-- The STM32 with its slave, and what the master gets from it. -/
structure SlaveRun where
  stm32 : Stm32
  i2c : I2cHandle
  /-- The main loop stands between `build_frame` and `i2c_arm`. -/
  arming : Bool
  /-- The bytes sent since the slave was armed. -/
  sent : Bytes
  /-- The complete frames that the master has read. -/
  framesRead : List Bytes
  /-- The frames that `build_frame` has written. -/
  built : List GpsFrame
deriving DecidableEq

/-- A step of the main loop, or an interrupt of the I2C peripheral. -/
inductive SlaveEvent where
  /-- The main loop handles a tick, up to `build_frame` if it is called. -/
  | tick
  /-- The main loop calls `i2c_arm` after `build_frame`. -/
  | arm
  /-- The peripheral asks for the next byte. -/
  | txis
  /-- The master ends the transmission. -/
  | stop
deriving DecidableEq

/-- The main loop is entered: the first frame is built, and the slave is armed with it. -/
def SlaveRun.init (table : VehicleTable) : SlaveRun where
  stm32 := .powerOn table
  i2c := I2cHandle.reset.slaveTransmitIt.2
  arming := false
  sent := []
  framesRead := []
  built := [(Stm32.powerOn table).frame]

/-- The effect of a step, if it can be taken. -/
def slaveStep (table : VehicleTable) (s : SlaveRun) : SlaveEvent → Option SlaveRun
  | .tick =>
    if s.arming then none
    else
      let stm32 := s.stm32.onTick table
      some { s with
        stm32 := stm32
        arming := s.stm32.builds
        built := if s.stm32.builds then s.built ++ [stm32.frame] else s.built }
  | .arm =>
    if s.arming then some { s with i2c := s.i2c.slaveTransmitIt.2, arming := false } else none
  | .txis =>
    match s.i2c.txis s.stm32.frame with
    | (none, _) => some s
    | (some b, i2c) =>
      let sent := s.sent ++ [b]
      some { s with
        i2c := i2c
        sent := sent
        framesRead := if sent.length = frameSize then s.framesRead ++ [sent] else s.framesRead }
  | .stop => some { s with i2c := s.i2c.itSlaveCplt, sent := [] }

/-- A start frame that is built agrees, in the bytes that are still to be sent, with the frame
before it, or, in the bytes already sent, with what was sent. -/
def StartFits (table : VehicleTable) (s : SlaveRun) (e : SlaveEvent) : Prop :=
  e = .tick → s.stm32.parkState = .parkingStart →
    let bytes := (buildFrame table s.stm32.vehicleIdx .msgStart).bytes
    bytes.drop s.i2c.buffPtr = s.stm32.frame.bytes.drop s.i2c.buffPtr ∨
      s.sent = bytes.take s.i2c.buffPtr

instance (table : VehicleTable) (s : SlaveRun) (e : SlaveEvent) :
    Decidable (StartFits table s e) :=
  inferInstanceAs (Decidable (_ → _ → _ ∨ _))

/-! ## What the master reads -/

section Slave

variable {table : VehicleTable} {s s' : SlaveRun} {e : SlaveEvent} {es : List SlaveEvent}

/-- The frames of one vehicle differ in the type byte only. -/
lemma drop_bytes_buildFrame (table : VehicleTable) (idx : ℕ) (type type' : MsgType) {k : ℕ}
    (hk : 0 < k) :
    (buildFrame table idx type).bytes.drop k = (buildFrame table idx type').bytes.drop k := by
  obtain ⟨m, rfl⟩ := Nat.exists_eq_add_of_lt hk
  simp [GpsFrame.bytes, buildFrame]

/-- What one tick does to the frame. -/
lemma frame_onTick {st : Stm32} :
    (st.onTick table).frame =
      match st.parkState with
      | .parkingStart => buildFrame table st.vehicleIdx .msgStart
      | .parkingEnd => buildFrame table st.vehicleIdx .msgEnd
      | _ => st.frame := by
  unfold Stm32.onTick
  cases st.parkState
  · rfl
  · rfl
  · rfl
  · simp only
    split_ifs <;> rfl

/-- **The transmission under way**: the bytes sent, followed by what is still to be sent, are one of
the frames that were built, and so is every frame that was read. -/
structure SlaveInv (table : VehicleTable) (s : SlaveRun) : Prop where
  armed : s.i2c.state = .busyTx
  buffPtr_eq : s.i2c.buffPtr = s.sent.length
  count_eq : s.i2c.buffPtr + s.i2c.xferCount = frameSize
  cycle : ∃ idx type, s.stm32.InCycle table idx type
  frame_mem : s.stm32.frame ∈ s.built
  underWay : ∃ f ∈ s.built, s.sent ++ s.stm32.frame.bytes.drop s.sent.length = f.bytes
  read : ∀ bytes ∈ s.framesRead, ∃ f ∈ s.built, bytes = f.bytes

lemma slaveInv_init (table : VehicleTable) : SlaveInv table (.init table) where
  armed := rfl
  buffPtr_eq := rfl
  count_eq := rfl
  cycle := ⟨0, .msgStart, Stm32.inCycle_powerOn table⟩
  frame_mem := List.mem_singleton_self _
  underWay := ⟨_, List.mem_singleton_self _, rfl⟩
  read := by simp [SlaveRun.init]

/-- After a tick the bytes sent go on with the frame under way, or they are the beginning of the
frame that was built. -/
lemma SlaveInv.drop_frame_onTick (h : SlaveInv table s) (hok : StartFits table s .tick) :
    (s.stm32.onTick table).frame.bytes.drop s.sent.length =
        s.stm32.frame.bytes.drop s.sent.length ∨
      s.sent ++ (s.stm32.onTick table).frame.bytes.drop s.sent.length =
        (s.stm32.onTick table).frame.bytes := by
  rw [frame_onTick]
  cases hstate : s.stm32.parkState with
  | parkingActive | parkingWait => exact .inl rfl
  | parkingStart =>
    rw [StartFits, h.buffPtr_eq] at hok
    rcases hok rfl hstate with htail | hsent
    · exact .inl htail
    · right
      nth_rewrite 1 [hsent]
      exact List.take_append_drop _ _
  | parkingEnd =>
    rcases Nat.eq_zero_or_pos s.sent.length with hzero | hpos
    · -- nothing is sent yet
      right
      simp [List.length_eq_zero_iff.mp hzero]
    · -- the start frame of the same vehicle is exposed
      left
      obtain ⟨idx, type, hcycle⟩ := h.cycle
      cases hcycle with
      | parked hframe hidx _ =>
        rw [hframe, hidx]
        exact drop_bytes_buildFrame table idx _ _ hpos
      | ended _ hor => simp [hstate] at hor

/-- A tick keeps the invariant. -/
lemma SlaveInv.tick (h : SlaveInv table s) (hok : StartFits table s .tick)
    (hs : slaveStep table s .tick = some s') : SlaveInv table s' := by
  simp only [slaveStep, Option.ite_none_left_eq_some, Option.some.injEq] at hs
  obtain ⟨-, rfl⟩ := hs
  have hsub : ∀ f ∈ s.built,
      f ∈ if s.stm32.builds then s.built ++ [(s.stm32.onTick table).frame] else s.built := by
    intro f hf
    split_ifs
    · exact List.mem_append_left _ hf
    · exact hf
  have hframe : (s.stm32.onTick table).frame ∈
      if s.stm32.builds then s.built ++ [(s.stm32.onTick table).frame] else s.built := by
    split_ifs with hbuilds
    · exact List.mem_append_right _ (List.mem_singleton_self _)
    · have hkeep : (s.stm32.onTick table).frame = s.stm32.frame := by
        rw [frame_onTick]
        cases hstate : s.stm32.parkState <;> simp [Stm32.builds, hstate] at hbuilds ⊢
      rw [hkeep]
      exact h.frame_mem
  refine ⟨h.armed, h.buffPtr_eq, h.count_eq, ?_, hframe, ?_, ?_⟩
  · obtain ⟨idx, type, hcycle⟩ := h.cycle
    rcases Stm32.onTick_cases hcycle with hnext | ⟨-, hnext⟩ | ⟨-, hnext⟩ <;> exact ⟨_, _, hnext⟩
  · rcases h.drop_frame_onTick hok with htail | hsent
    · obtain ⟨f, hf, heq⟩ := h.underWay
      refine ⟨f, hsub f hf, ?_⟩
      simp only
      rw [htail, heq]
    · exact ⟨_, hframe, hsent⟩
  · intro bytes hbytes
    obtain ⟨f, hf, heq⟩ := h.read bytes hbytes
    exact ⟨f, hsub f hf, heq⟩

/-- Sending a byte keeps the invariant. -/
lemma SlaveInv.txis (h : SlaveInv table s) (hs : slaveStep table s .txis = some s') :
    SlaveInv table s' := by
  by_cases hpos : 0 < s.i2c.xferCount
  · have hlt : s.sent.length < s.stm32.frame.bytes.length := by
      have hcount := h.count_eq
      rw [h.buffPtr_eq] at hcount
      rw [GpsFrame.length_bytes]
      omega
    have hbyte : s.stm32.frame.bytes.drop s.sent.length =
        s.stm32.frame.bytes[s.sent.length] :: s.stm32.frame.bytes.drop (s.sent.length + 1) :=
      List.drop_eq_getElem_cons hlt
    simp only [slaveStep, I2cHandle.txis, hpos, dif_pos, Option.some.injEq] at hs
    subst hs
    obtain ⟨f, hf, heq⟩ := h.underWay
    have heq' : s.sent ++ [s.stm32.frame.bytes[s.sent.length]] ++
        s.stm32.frame.bytes.drop (s.sent.length + 1) = f.bytes := by
      rw [← heq, hbyte]
      simp
    simp only [h.buffPtr_eq]
    refine ⟨h.armed, by simp, ?_, h.cycle, h.frame_mem, ⟨f, hf, by simpa using heq'⟩, ?_⟩
    · have hcount := h.count_eq
      rw [h.buffPtr_eq] at hcount
      simp only
      omega
    · simp only
      split_ifs with hlen
      · refine List.forall_mem_append.mpr ⟨h.read, List.forall_mem_singleton.mpr ⟨f, hf, ?_⟩⟩
        -- nothing is left to be sent
        rw [← heq', List.drop_of_length_le, List.append_nil]
        rw [GpsFrame.length_bytes, ← hlen]
        simp
      · exact h.read
  · simp only [slaveStep, I2cHandle.txis, hpos, dif_neg, not_false_eq_true,
      Option.some.injEq] at hs
    exact hs ▸ h

/-- Every step that meets the condition keeps the invariant. -/
lemma SlaveInv.step (h : SlaveInv table s) (hok : StartFits table s e)
    (hs : slaveStep table s e = some s') : SlaveInv table s' := by
  cases e with
  | tick => exact h.tick hok hs
  | arm =>
    simp only [slaveStep, I2cHandle.slaveTransmitIt_of_busyTx h.armed,
      Option.ite_none_right_eq_some, Option.some.injEq] at hs
    obtain ⟨-, rfl⟩ := hs
    exact { h with }
  | txis => exact h.txis hs
  | stop =>
    simp only [slaveStep, I2cHandle.itSlaveCplt_eq, Option.some.injEq] at hs
    subst hs
    exact ⟨rfl, rfl, rfl, h.cycle, h.frame_mem, ⟨_, h.frame_mem, rfl⟩, h.read⟩

/-- **Every frame read is one that was built**, in every run in which each start frame that is built
fits the transmission under way. -/
theorem framesRead_built
    (hrun : Trace (slaveStep table) (StartFits table) (.init table) es s) :
    ∀ bytes ∈ s.framesRead, ∃ f ∈ s.built, bytes = f.bytes :=
  (hrun.invariant (slaveInv_init table) fun _ _ _ hs hok hstep => hs.step hok hstep).read

/-- A start frame that does not fit tears the transmission under way: it can end neither as the
frame that it began with nor as the new one. -/
theorem torn_of_not_startFits (h : SlaveInv table s) (hnot : ¬ StartFits table s .tick) :
    let sent' := s.sent ++ (s.stm32.onTick table).frame.bytes.drop s.sent.length
    sent' ≠ (s.stm32.onTick table).frame.bytes ∧
      sent' ≠ s.sent ++ s.stm32.frame.bytes.drop s.sent.length := by
  simp only [StartFits, Classical.not_imp, not_or] at hnot
  obtain ⟨-, hstate, htail, hsent⟩ := hnot
  rw [h.buffPtr_eq] at htail hsent
  have hframe : (s.stm32.onTick table).frame = buildFrame table s.stm32.vehicleIdx .msgStart := by
    rw [frame_onTick, hstate]
  rw [hframe]
  constructor
  · intro heq
    apply hsent
    rw [← heq, List.take_left]
  · intro heq
    exact htail (List.append_cancel_left heq)

/-- The ticks and the transmissions up to the start frame of the second vehicle, of whose
predecessor `k` bytes have been sent. -/
def startAfter (k : ℕ) : List SlaveEvent :=
  List.flatten [[.tick, .arm], List.replicate 10 .tick, [.tick, .arm], List.replicate 5 .tick,
    List.replicate k .txis, [.tick, .arm], List.replicate (frameSize - k) .txis]

/-- The end frame of the first vehicle is sent whole before the start frame of the second one is
built. -/
theorem framesRead_built_whole :
    ∃ s, replayEvents (slaveStep gVehicles) (StartFits gVehicles) (.init gVehicles)
        (startAfter frameSize) = some s ∧ s.framesRead.length = 1 ∧
      ∀ bytes ∈ s.framesRead, ∃ f ∈ s.built, bytes = f.bytes := by
  have hlen : (replayEvents (slaveStep gVehicles) (StartFits gVehicles) (.init gVehicles)
      (startAfter frameSize)).map (fun s => s.framesRead.length) = some 1 := by decide +kernel
  obtain ⟨s, hs, hlen⟩ := Option.map_eq_some_iff.mp hlen
  exact ⟨s, hs, hlen, framesRead_built (Trace.of_replayEvents hs)⟩

/-- One byte of the end frame of the first vehicle, and the other ones of the start frame of the
second. -/
theorem not_every_frame_built :
    ¬ ∀ (es : List SlaveEvent) (s : SlaveRun),
      Trace (slaveStep gVehicles) (fun _ _ => True) (.init gVehicles) es s →
        ∀ bytes ∈ s.framesRead, ∃ f ∈ s.built, bytes = f.bytes := by
  intro h
  have htorn : (replayEvents (slaveStep gVehicles) (fun _ _ => True) (.init gVehicles)
      (startAfter 1)).map (fun s => s.framesRead.all fun bytes =>
        s.built.any fun f => bytes = f.bytes) = some false := by decide +kernel
  obtain ⟨s, hs, htorn⟩ := Option.map_eq_some_iff.mp htorn
  have hall := h _ s (Trace.of_replayEvents hs)
  rw [List.all_eq_false] at htorn
  obtain ⟨bytes, hbytes, hnone⟩ := htorn
  obtain ⟨f, hf, heq⟩ := hall bytes hbytes
  exact hnone (List.any_eq_true.mpr ⟨f, hf, by simpa using heq⟩)

end Slave

end ParkingSystem
