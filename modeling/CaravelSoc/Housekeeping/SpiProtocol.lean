import CaravelSoc.Sequential.Framing
import CaravelSoc.Sequential.Run

/-!
# The byte protocol of the housekeeping SPI

What a master may assume while CSB is low, in terms of complete bytes: a command
byte `wrnnnpp-`, an address byte, and data bytes at increasing addresses, without
end for a length of zero, or else as many as the length says before the next
command byte. `writeList` and `nextByte` read this off a whole list of bytes.
`Expects` is the same protocol as a machine that takes one byte at a time.
-/

open Sequential

namespace CaravelSoc.SpiProtocol

/-! ## Command bytes -/

def writeMode (command : BitVec 8) : Bool := command.getLsbD 7
def readMode (command : BitVec 8) : Bool := command.getLsbD 6

/-- The number of data bytes, or zero for data until CSB rises. -/
def fixedLength (command : BitVec 8) : BitVec 3 := command.extractLsb' 3 3

/-- One of the pass-through bits is set. -/
def passThrough (command : BitVec 8) : Bool := command.getLsbD 2 || command.getLsbD 1

/-! ## The protocol of a whole stream -/

/-- The address of data byte `i`. -/
def dataAddress (address : BitVec 8) (i : ℕ) : BitVec 8 := address + BitVec.ofNat 8 i

/-- The writes of a command's data bytes. -/
def dataWrites (command address : BitVec 8) (data : List (BitVec 8)) :
    List (BitVec 8 × BitVec 8) :=
  if writeMode command then data.mapIdx fun i byte ↦ (dataAddress address i, byte) else []

/-- The register writes that a stream of complete bytes asks for, as address and data. -/
def writeList : List (BitVec 8) → List (BitVec 8 × BitVec 8)
  | command :: address :: data =>
    if passThrough command then []
    else if fixedLength command = 0#3 then dataWrites command address data
    else
      dataWrites command address (data.take (fixedLength command).toNat) ++
        writeList (data.drop (fixedLength command).toNat)
  | _ => []
termination_by bytes => bytes.length
decreasing_by simp only [List.length_drop, List.length_cons]; omega

/-- The meaning of a byte to come: a command byte, the address byte of a command, data byte `i` of
a command and its start address, or nothing after a pass-through command. -/
inductive Expects
  | command
  | address (command : BitVec 8)
  | data (command address : BitVec 8) (i : ℕ)
  | nothing
  deriving DecidableEq, Repr

/-- The meaning of the byte that follows a stream of complete bytes. -/
def nextByte : List (BitVec 8) → Expects
  | [] => .command
  | [command] => if passThrough command then .nothing else .address command
  | command :: address :: data =>
    if passThrough command then .nothing
    else if fixedLength command = 0#3 ∨ data.length < (fixedLength command).toNat then
      .data command address data.length
    else nextByte (data.drop (fixedLength command).toNat)
termination_by bytes => bytes.length
decreasing_by simp only [List.length_drop, List.length_cons]; omega

/-! ## The protocol byte by byte -/

namespace Expects

def next : Expects → BitVec 8 → Expects
  | command, byte => if passThrough byte then nothing else address byte
  | address cmd, byte => data cmd byte 0
  | data cmd start i, _ =>
    if i + 1 = (fixedLength cmd).toNat then command else data cmd start (i + 1)
  | nothing, _ => nothing

def writes : Expects → BitVec 8 → List (BitVec 8 × BitVec 8)
  | data cmd start i, byte => if writeMode cmd then [(dataAddress start i, byte)] else []
  | command, _ | address _, _ | nothing, _ => []

end Expects

variable (command address : BitVec 8) (data : List (BitVec 8))

theorem dataWrites_append (byte : BitVec 8) :
    dataWrites command address (data ++ [byte]) =
      dataWrites command address data ++
        (Expects.data command address data.length).writes byte := by
  cases hmode : writeMode command with
  | true => simp [dataWrites, Expects.writes, hmode, List.mapIdx_append]
  | false => simp [dataWrites, Expects.writes, hmode]

/-- After a pass-through command the machine takes no more notice. -/
theorem run_nothing (bytes : List (BitVec 8)) :
    trace Expects.next Expects.writes .nothing bytes = [] ∧
      run Expects.next .nothing bytes = .nothing := by
  induction bytes with
  | nil => exact ⟨rfl, rfl⟩
  | cons byte rest ih => simpa [trace, run, Expects.next, Expects.writes] using ih

/-- Data bytes that do not end their command. -/
theorem run_data (h : fixedLength command = 0#3 ∨ data.length < (fixedLength command).toNat) :
    trace Expects.next Expects.writes (.data command address 0) data =
        dataWrites command address data ∧
      run Expects.next (.data command address 0) data = .data command address data.length := by
  induction data using List.reverseRecOn with
  | nil => simp [trace, run, dataWrites]
  | append_singleton data byte ih =>
    rw [List.length_append, List.length_singleton] at h
    obtain ⟨htrace, hrun⟩ := ih (h.imp_right fun hlt ↦ by omega)
    have hmore : data.length + 1 ≠ (fixedLength command).toNat := by
      rcases h with hzero | hlt
      · rw [hzero]
        exact Nat.succ_ne_zero _
      · omega
    refine ⟨?_, ?_⟩
    · rw [trace_append, htrace, hrun, dataWrites_append]
      simp [trace]
    · rw [run_append, hrun, List.length_append, List.length_singleton]
      simp [run, Expects.next, hmore]

/-- The data bytes of a whole command of fixed length. -/
theorem run_data_all (hfixed : fixedLength command ≠ 0#3)
    (h : data.length = (fixedLength command).toNat) :
    trace Expects.next Expects.writes (.data command address 0) data =
        dataWrites command address data ∧
      run Expects.next (.data command address 0) data = .command := by
  have hpos : 0 < (fixedLength command).toNat :=
    Nat.pos_of_ne_zero fun hzero ↦ hfixed (BitVec.eq_of_toNat_eq hzero)
  obtain rfl | ⟨front, byte, rfl⟩ := data.eq_nil_or_concat'
  · rw [← h] at hpos
    simp at hpos
  rw [List.length_append, List.length_singleton] at h
  obtain ⟨htrace, hrun⟩ := run_data command address front
    (.inr (by omega))
  refine ⟨?_, ?_⟩
  · rw [trace_append, htrace, hrun, dataWrites_append]
    simp [trace]
  · rw [run_append, hrun]
    simp [run, Expects.next, h]

theorem writeList_nil : writeList [] = [] := by simp [writeList]

/-- The machine follows the protocol. -/
theorem protocol_run (bytes : List (BitVec 8)) :
    trace Expects.next Expects.writes .command bytes = writeList bytes ∧
      run Expects.next .command bytes = nextByte bytes := by
  fun_induction writeList bytes with
  | case1 command address data hpass =>
    obtain ⟨htrace, hrun⟩ := run_nothing data
    rw [nextByte, if_pos hpass]
    simpa [trace, run, Expects.next, Expects.writes, hpass] using ⟨htrace, hrun⟩
  | case2 command address data hpass hstream =>
    obtain ⟨htrace, hrun⟩ := run_data command address data (.inl hstream)
    rw [nextByte, if_neg hpass, if_pos (.inl hstream)]
    simpa [trace, run, Expects.next, Expects.writes, hpass] using ⟨htrace, hrun⟩
  | case3 command address data hpass hfixed ih =>
    rw [nextByte, if_neg hpass]
    by_cases hshort : data.length < (fixedLength command).toNat
    · obtain ⟨htrace, hrun⟩ := run_data command address data (.inr hshort)
      rw [if_pos (.inr hshort), List.take_of_length_le hshort.le, List.drop_of_length_le hshort.le,
        writeList_nil, List.append_nil]
      simpa [trace, run, Expects.next, Expects.writes, hpass] using ⟨htrace, hrun⟩
    · obtain ⟨htrace, hrun⟩ := run_data_all command address
        (data.take (fixedLength command).toNat) hfixed (by rw [List.length_take]; omega)
      rw [if_neg (by simp only [hfixed, hshort, or_self, not_false_eq_true]), ← ih.1, ← ih.2]
      have hsplit := List.take_append_drop (fixedLength command).toNat data
      simp only [trace, run, Expects.next, Expects.writes, hpass, Bool.false_eq_true, if_false,
        List.nil_append]
      rw [← hsplit, trace_append, run_append, htrace, hrun, hsplit]
      exact ⟨rfl, rfl⟩
  | case4 bytes hshort =>
    cases bytes with
    | nil => simp [trace, run, nextByte]
    | cons command rest =>
      cases rest with
      | nil => simp [trace, run, Expects.next, Expects.writes, nextByte]
      | cons address data => exact absurd rfl (hshort command address data)

end CaravelSoc.SpiProtocol
