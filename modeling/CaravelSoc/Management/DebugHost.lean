import CaravelSoc.Management.BridgeCommands
import CaravelSoc.Management.MemoryBus

/-!
# A host at the memories

The bridge behind the debug UART as the third master of the bus. While the processor
goes on with its own accesses, the commands of a host read and write the array of
words that the processor works on.
-/

open Sequential

namespace CaravelSoc.Management

/-- The bus with its memories, and the bridge. -/
structure DebugHost where
  bus : MemoryBus
  bridge : UartBridge

namespace DebugHost

/-- What a clock brings: the two buses of the processor, the other slaves, the level of `io0` while
nobody drives it, and the line from the host. -/
structure Event where
  request : Master → Bool
  lines : Master → Request
  outside : Slave → Reply
  floating : Bool
  dbgUartRx : Bool

/-- The bridge asks for the bus with its own lines. -/
def busEvent (s : DebugHost) (e : Event) : MemoryBus.Event where
  request master := if master = .dbgUart then s.bridge.wishbone.cyc else e.request master
  lines master := if master = .dbgUart then s.bridge.wishbone.toRequest else e.lines master
  outside := e.outside
  floating := e.floating

def bridgeInputs (s : DebugHost) (e : Event) : UartBridge.Inputs where
  dbgUartRx := e.dbgUartRx
  ack := s.bus.core.bus.masterAck (s.bus.replies (s.busEvent e)) .dbgUart
  datR := s.bus.core.bus.sharedDatR (s.bus.replies (s.busEvent e))

/-- One clock. -/
def step (config : LiteSpiConfig) (memory : BitVec 24 → BitVec 8) (s : DebugHost) (e : Event) :
    DebugHost where
  bus := s.bus.step config memory (s.busEvent e)
  bridge := s.bridge.clockEdge (s.bridgeInputs e)

/-- The access that ends. -/
def completed (s : DebugHost) (e : Event) : List (Master × Request × BitVec 32) :=
  s.bus.completed (s.busEvent e)

/-- An access of the bridge, as the host sees it. -/
def hostAccess (access : Master × Request × BitVec 32) : Option BusAccess :=
  if access.1 = .dbgUart then
    some (if access.2.1.we then .write access.2.1.adr access.2.1.datW else .read access.2.1.adr)
  else none

/-- A word that the bridge reads. -/
def hostWord (access : Master × Request × BitVec 32) : Option (BitVec 32) :=
  if access.1 = .dbgUart ∧ access.2.1.we = false then some access.2.2 else none

/-- A request of the bridge that waits on the bus is the one on its lines. -/
def Agrees (s : DebugHost) : Prop :=
  ∀ r, s.bus.core.access .dbgUart = .waiting r → s.bridge.wishbone = ⟨r, true, true⟩

section Step

variable {config : LiteSpiConfig} {memory : BitVec 24 → BitVec 8} {s : DebugHost} {e : Event}

/-- The lines of the third master are those of the bridge. -/
theorem Agrees.masters (h : s.Agrees) (e : Event) :
    s.bus.core.masters (s.bus.busEvent (s.busEvent e)) .dbgUart = s.bridge.wishbone := by
  rw [ManagementBus.masters]
  split
  · next r hwaiting => exact (h r hwaiting).symm
  · rfl
  · rfl

/-- While it is not acknowledged, the bridge keeps its request on the bus. -/
theorem wishbone_clockEdge {bridge : UartBridge} {i : UartBridge.Inputs}
    (hintime : bridge.InTime) (hcyc : bridge.wishbone.cyc = true) (hack : i.ack = false) :
    (bridge.clockEdge i).wishbone = bridge.wishbone := by
  rw [UartBridge.InTime] at hintime
  cases hstate : bridge.state <;> simp [UartBridge.wishbone, hstate] at hcyc
  · simp [UartBridge.wishbone, UartBridge.clockEdge, UartBridge.nextState, hstate, hack, hintime]
  · simp [UartBridge.wishbone, UartBridge.clockEdge, UartBridge.nextState, hstate, hack, hintime]

theorem Agrees.step (h : s.Agrees) (hintime : s.bridge.InTime) (config : LiteSpiConfig)
    (memory : BitVec 24 → BitVec 8) (e : Event) : (s.step config memory e).Agrees := by
  intro r hwaiting
  have hmasters := h.masters e
  change (if (s.bus.core.masters (s.bus.busEvent (s.busEvent e)) .dbgUart).cyc then
    if (s.bridgeInputs e).ack then Access.released
      else .waiting (s.bus.core.masters (s.bus.busEvent (s.busEvent e)) .dbgUart).toRequest
    else .idle) = .waiting r at hwaiting
  rw [hmasters] at hwaiting
  split at hwaiting
  · next hcyc =>
    split at hwaiting
    · cases hwaiting
    · next hack =>
      cases hwaiting
      have hsame := wishbone_clockEdge hintime hcyc (Bool.eq_false_iff.2 hack)
      change (s.bridge.clockEdge (s.bridgeInputs e)).wishbone = _
      rw [hsame]
      have hstb : s.bridge.wishbone.stb = s.bridge.wishbone.cyc := rfl
      exact Wishbone.eq_of_request hstb (by rw [Wishbone.request, if_pos hcyc]; rfl)
  · cases hwaiting

/-- The access that ends is the bridge's if and only if the bridge is acknowledged. -/
theorem Agrees.completed_eq (h : s.Agrees) (e : Event) :
    (s.completed e).filter (fun access ↦ access.1 == .dbgUart) =
      if s.bridge.wishbone.cyc && (s.bridgeInputs e).ack then
        [(.dbgUart, s.bridge.wishbone.toRequest, (s.bridgeInputs e).datR)]
      else [] := by
  have hmasters := h.masters e
  have hcompleted : s.completed e =
      if (s.bus.bus (s.busEvent e)).cyc &&
          s.bus.core.bus.sharedAck (s.bus.replies (s.busEvent e)) then
        [(s.bus.core.bus.grant, (s.bus.bus (s.busEvent e)).toRequest, (s.bridgeInputs e).datR)]
      else [] := rfl
  have hack : (s.bridgeInputs e).ack =
      (s.bus.core.bus.sharedAck (s.bus.replies (s.busEvent e)) &&
        s.bus.core.bus.grant == .dbgUart) := rfl
  rw [hcompleted, hack]
  by_cases hgrant : s.bus.core.bus.grant = .dbgUart
  · have hbus : s.bus.bus (s.busEvent e) = s.bridge.wishbone := by
      rw [MemoryBus.bus, Interconnect.shared, hgrant, hmasters]
    rw [hbus, hgrant, beq_self_eq_true, Bool.and_true]
    split
    · rfl
    · rfl
  · simp only [beq_eq_false_iff_ne.2 hgrant, Bool.and_false, Bool.false_eq_true, if_false]
    split
    · rw [List.filter_cons_of_neg (by simpa using hgrant)]
      rfl
    · rfl

theorem filterMap_of_filter {α : Type*} (f : Master × Request × BitVec 32 → Option α)
    (hf : ∀ access, access.1 ≠ .dbgUart → f access = none)
    (accesses : List (Master × Request × BitVec 32)) :
    accesses.filterMap f =
      (accesses.filter (fun access ↦ access.1 == .dbgUart)).filterMap f := by
  rw [List.filterMap_filter]
  congr 1
  funext access
  by_cases haccess : access.1 = .dbgUart
  · rw [if_pos (by simpa using haccess)]
  · rw [if_neg (by simpa using haccess), hf access haccess]

theorem Agrees.performed_eq (h : s.Agrees) (e : Event) :
    (s.completed e).filterMap hostAccess = s.bridge.performed (s.bridgeInputs e) := by
  rw [filterMap_of_filter hostAccess fun access hne ↦ by rw [hostAccess, if_neg hne],
    h.completed_eq, UartBridge.performed]
  cases hack : (s.bridgeInputs e).ack <;> cases hstate : s.bridge.state <;>
    simp [UartBridge.wishbone, hstate, hostAccess]

theorem Agrees.wordRead_eq (h : s.Agrees) (e : Event) :
    (s.completed e).filterMap hostWord = s.bridge.wordRead (s.bridgeInputs e) := by
  rw [filterMap_of_filter hostWord fun access hne ↦ by rw [hostWord, if_neg fun hyes ↦ hne hyes.1],
    h.completed_eq, UartBridge.wordRead]
  cases hack : (s.bridgeInputs e).ack <;> cases hstate : s.bridge.state <;>
    simp [UartBridge.wishbone, hstate, hostWord]

end Step

/-! ## From the reset on -/

structure IsReset (s : DebugHost) : Prop where
  bus : s.bus.IsReset
  state : s.bridge.state = .receiveCmd

/-- What a clock must be: the other slaves acknowledge only while they are selected, and the bridge
does not give its command up. -/
structure Regular (s : DebugHost) (e : Event) : Prop where
  onlySelected : s.bus.OnlySelected (s.busEvent e)
  inTime : s.bridge.InTime

theorem IsReset.agrees {s : DebugHost} (h : s.IsReset) : s.Agrees := by
  intro r hwaiting
  rw [h.bus.core] at hwaiting
  cases hwaiting

/-- The bytes that the bridge takes from the host. -/
def received (s : DebugHost) (_ : Event) : List (BitVec 8) := s.bridge.accepted

/-- The bytes that the bridge sends to the host. -/
def sent (s : DebugHost) (_ : Event) : List (BitVec 8) := s.bridge.sent

/-- Empty memories, and a bridge at the end of the first byte of a command. -/
def atFirstByte : DebugHost := ⟨.atReset, .atFirstByte⟩

/-- A clock with a level of the line, while the processor leaves the bus alone. -/
def lineLevel (level : Bool) : Event where
  request _ := false
  lines _ := ⟨0#30, 0#32, 0#4, false⟩
  outside _ := ⟨false, 0#32⟩
  floating := false
  dbgUartRx := level

/-- A clock at which the instruction bus asks for word 3. -/
def fetch : Event where
  request master := master == .ibus
  lines _ := ⟨3#30, 0#32, 15#4, false⟩
  outside _ := ⟨false, 0#32⟩
  floating := false
  dbgUartRx := true

/-- The flash controller since the reset, with `left` clocks for a burst to go on. -/
def restingSpi (left : ℕ) : LiteSpi :=
  { LiteSpi.reset with mmapCount := BitVec.ofNat 9 left }

theorem restingSpi_clockEdge : ∀ left ≤ 256, (restingSpi left).clockEdge .reset
    (spiInputs ⟨⟨0#30, 0#32, 0#4, false⟩, false, false⟩ .deselected) = restingSpi (left - 1) := by
  decide +kernel

/-- The bus that nobody has used since the reset. -/
def restingBus (slaveSelR : Slave → Bool) (left : ℕ) : MemoryBus :=
  { MemoryBus.atReset with
    core := ⟨{ Interconnect.reset with slaveSelR := slaveSelR }, fun _ ↦ .idle⟩
    spi := restingSpi left }

variable {bridge : UartBridge} {left : ℕ} {slaveSelR : Slave → Bool}

/-- A bridge that receives leaves the bus at rest. -/
theorem restingBus_step (h : bridge.sourceReady = true) (hleft : left ≤ 256) (level : Bool) :
    ((⟨restingBus slaveSelR left, bridge⟩ : DebugHost).step .reset SpiFlash.lowBytes
      (lineLevel level)).bus = restingBus (slaveSel 0#30) (left - 1) := by
  have hcyc : bridge.wishbone.cyc = false := UartBridge.cyc_of_sourceReady h
  have hevent : (⟨restingBus slaveSelR left, bridge⟩ : DebugHost).busEvent (lineLevel level) =
      { request := fun _ ↦ false
        lines := fun master ↦
          if master = .dbgUart then bridge.wishbone.toRequest else ⟨0#30, 0#32, 0#4, false⟩
        outside := fun _ ↦ ⟨false, 0#32⟩
        floating := false } := by
    simp [busEvent, lineLevel, hcyc]
  change MemoryBus.step .reset SpiFlash.lowBytes (restingBus slaveSelR left) _ = _
  rw [hevent, MemoryBus.step, restingBus, restingBus]
  congr 1
  -- all that moves is the time for a burst
  exact restingSpi_clockEdge left hleft

/-- What a bridge that receives does is up to the line alone. -/
theorem clockEdge_of_sourceReady (h : bridge.sourceReady = true) (i : UartBridge.Inputs) :
    bridge.clockEdge i = bridge.clockEdge ⟨i.dbgUartRx, false, 0#32⟩ := by
  cases hstate : bridge.state <;>
    simp_all [UartBridge.sourceReady, UartBridge.clockEdge, UartBridge.nextState]

/-- No access ends on a bus at rest. -/
theorem completed_restingBus (slaveSelR : Slave → Bool) (bridge : UartBridge) (left : ℕ)
    (level : Bool) :
    (⟨restingBus slaveSelR left, bridge⟩ : DebugHost).completed (lineLevel level) = [] := by
  rw [completed, MemoryBus.completed, ManagementBus.completed, if_neg]
  intro hended
  rw [Bool.and_eq_true] at hended
  exact Bool.false_ne_true hended.1

/-- While the bridge receives, the host drives it alone. -/
theorem resting_run (slaveSelR : Slave → Bool) (hleft : left ≤ 256) (levels : List Bool)
    (h : Along UartBridge.clockEdge (fun s _ ↦ s.sourceReady = true) bridge
      (levels.map fun level ↦ ⟨level, false, 0#32⟩)) :
    run (step .reset SpiFlash.lowBytes) ⟨restingBus slaveSelR left, bridge⟩
          (levels.map lineLevel) =
        ⟨restingBus (if levels.isEmpty then slaveSelR else slaveSel 0#30) (left - levels.length),
          run UartBridge.clockEdge bridge (levels.map fun level ↦ ⟨level, false, 0#32⟩)⟩ ∧
      trace (step .reset SpiFlash.lowBytes) received ⟨restingBus slaveSelR left, bridge⟩
          (levels.map lineLevel) =
        trace UartBridge.clockEdge (fun s _ ↦ s.accepted) bridge
          (levels.map fun level ↦ ⟨level, false, 0#32⟩) ∧
      trace (step .reset SpiFlash.lowBytes) completed ⟨restingBus slaveSelR left, bridge⟩
          (levels.map lineLevel) = [] := by
  induction levels generalizing left bridge slaveSelR with
  | nil => exact ⟨rfl, rfl, rfl⟩
  | cons level rest ih =>
    have hstep : (⟨restingBus slaveSelR left, bridge⟩ : DebugHost).step .reset SpiFlash.lowBytes
        (lineLevel level) =
          ⟨restingBus (slaveSel 0#30) (left - 1), bridge.clockEdge ⟨level, false, 0#32⟩⟩ := by
      exact congrArg₂ DebugHost.mk (restingBus_step h.1 hleft level)
        (clockEdge_of_sourceReady h.1 _)
    have hless : left - 1 ≤ 256 := by omega
    obtain ⟨hrun, hreceived, hcompleted⟩ := ih (slaveSel 0#30) hless h.2
    rw [ite_self] at hrun
    simp only [List.map_cons, run, trace, hstep, hrun, hreceived, hcompleted, List.length_cons,
      completed_restingBus, List.append_nil, List.isEmpty_cons]
    exact ⟨by rw [Nat.sub_sub, Nat.add_comm, if_neg Bool.false_ne_true], rfl, trivial⟩

/-- A bus that rests until the bridge is at the last byte of its command. -/
theorem trace_from_reset {levels : List Bool} {bytes : List (BitVec 8)}
    (hready : Along UartBridge.clockEdge (fun s _ ↦ s.sourceReady = true) .atFirstByte
      (levels.map fun level ↦ ⟨level, false, 0#32⟩))
    (hlast : run UartBridge.clockEdge .atFirstByte (levels.map fun level ↦ ⟨level, false, 0#32⟩) =
      .atLastByte)
    (hbytes : trace UartBridge.clockEdge (fun s _ ↦ s.accepted) .atFirstByte
      (levels.map fun level ↦ ⟨level, false, 0#32⟩) = bytes)
    (hlong : 256 ≤ levels.length) (events : List Event) :
    trace (step .reset SpiFlash.lowBytes) completed atFirstByte (levels.map lineLevel ++ events) =
        trace (step .reset SpiFlash.lowBytes) completed
          ⟨restingBus (slaveSel 0#30) 0, .atLastByte⟩ events ∧
      trace (step .reset SpiFlash.lowBytes) received atFirstByte
          (levels.map lineLevel ++ events) =
        bytes ++ trace (step .reset SpiFlash.lowBytes) received
          ⟨restingBus (slaveSel 0#30) 0, .atLastByte⟩ events := by
  have hne : levels.isEmpty = false := by
    cases levels with
    | nil => simp at hlong
    | cons => rfl
  have hreset : atFirstByte = ⟨restingBus (fun _ ↦ false) 256, .atFirstByte⟩ := rfl
  obtain ⟨hrun, hreceived, hcompleted⟩ :=
    resting_run (fun _ ↦ false) le_rfl levels hready
  rw [hlast, hne, if_neg Bool.false_ne_true, Nat.sub_eq_zero_of_le hlong] at hrun
  rw [trace_append, trace_append, hreset, hrun, hcompleted, hreceived, hbytes]
  exact ⟨rfl, rfl⟩

/-- The stop bit, in which the bridge reads, and a fetch of the processor. -/
def readsAndFetch : List Event :=
  List.replicate 50 (lineLevel true) ++ fetch :: List.replicate 3 (lineLevel true)

/-- The accesses on the bus: the host's, and behind it one of the processor. -/
def readOneAccesses : List (Master × Request × BitVec 32) :=
  [(.dbgUart, ⟨5#30, 0x89abcdef#32, 15#4, false⟩, 0#32), (.ibus, ⟨3#30, 0#32, 15#4, false⟩, 0#32)]

/-- The two accesses, and the byte behind which the bridge makes its own. -/
theorem readsAndFetch_trace :
    trace (step .reset SpiFlash.lowBytes) completed
        ⟨restingBus (slaveSel 0#30) 0, .atLastByte⟩ readsAndFetch = readOneAccesses ∧
      trace (step .reset SpiFlash.lowBytes) received
        ⟨restingBus (slaveSel 0#30) 0, .atLastByte⟩ readsAndFetch = [0x05#8] := by
  decide +kernel

/-- The rest of the command, and what comes of it. -/
def readOneEvents : List Event := UartBridge.readOneLevels.map lineLevel ++ readsAndFetch

theorem readOneEvents_silent : ∀ e ∈ readOneEvents, ∀ slave, (e.outside slave).ack = false := by
  intro e he slave
  rcases List.mem_append.1 he with hfront | hback
  · obtain ⟨level, -, rfl⟩ := List.mem_map.1 hfront
    rfl
  rcases List.mem_append.1 hback with hstop | hend
  · rw [List.eq_of_mem_replicate hstop]
    rfl
  rcases List.mem_cons.1 hend with rfl | hquiet
  · rfl
  · rw [List.eq_of_mem_replicate hquiet]
    rfl

theorem readOneEvents_regular :
    Along (step .reset SpiFlash.lowBytes) Regular atFirstByte readOneEvents := by
  have hselected : Along (step .reset SpiFlash.lowBytes)
      (fun s e ↦ s.bus.OnlySelected (s.busEvent e)) atFirstByte readOneEvents :=
    (along_of_forall readOneEvents_silent).mono fun s e hnone slave hack ↦
      absurd (hack.symm.trans (hnone slave)) (by decide)
  have hbridge : ∀ s e, (step .reset SpiFlash.lowBytes s e).bridge =
      s.bridge.clockEdge (s.bridgeInputs e) := fun _ _ ↦ rfl
  have hintime : Along (step .reset SpiFlash.lowBytes) (fun s _ ↦ s.bridge.InTime) atFirstByte
      readOneEvents := by
    refine (along_drive hbridge (fun bridge _ ↦ bridge.InTime) atFirstByte _).2 ?_
    apply UartBridge.inTime_of_length_le <;> rw [length_trace_singleton] <;> decide +kernel
  exact (hselected.and hintime).mono fun _ _ h ↦ ⟨h.1, h.2⟩

end DebugHost

end CaravelSoc.Management
