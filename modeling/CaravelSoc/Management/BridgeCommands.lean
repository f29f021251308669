import CaravelSoc.Management.UartBridge
import CaravelSoc.Management.UartFrame
import Mathlib.Tactic.IntervalCases

/-!
# Commands over the debug UART

While no command is given up, the accesses of the bridge are those of the commands
it received, one after another, and the bytes it sends are those of the words it
read. A host whose command went wrong finds the bridge waiting for a command again
when the line has been quiet for long enough.
-/

open Sequential

namespace CaravelSoc.Management

theorem toNat_shiftByte (word : BitVec 32) (byte : BitVec 8) :
    (shiftByte word byte).toNat = (word.toNat * 256 + byte.toNat) % 2 ^ 32 := by
  have hbyte := byte.isLt
  rw [shiftByte, BitVec.toNat_setWidth, BitVec.toNat_append, Nat.shiftLeft_eq,
    ← Nat.shiftLeft_eq, ← Nat.shiftLeft_add_eq_or_of_lt hbyte, Nat.shiftLeft_eq]

/-- Four bytes make a word, whatever was there before. -/
theorem foldl_shiftByte_wordBytes (old word : BitVec 32) :
    (wordBytes word).foldl shiftByte old = word := by
  have hold := old.isLt
  have hword := word.isLt
  rw [← BitVec.toNat_inj]
  simp only [wordBytes, List.foldl_cons, List.foldl_nil, toNat_shiftByte,
    BitVec.extractLsb'_toNat, Nat.shiftRight_eq_div_pow]
  omega

theorem lastWord_iff (wordsCount length : BitVec 8) :
    (wordsCount == length - 1#8) = decide (wordsCount.toNat + 1 = wordCount length) := by
  rw [Bool.eq_iff_iff, beq_iff_eq, decide_eq_true_iff, ← BitVec.toNat_inj, wordCount]
  omega

namespace UartBridge

/-! ## What is seen of the bridge -/

/-- The byte that is taken. -/
def accepted (s : UartBridge) : List (BitVec 8) :=
  if s.sourceReady then s.rxSource.toList else []

/-- The access that ends. -/
def performed (s : UartBridge) (i : Inputs) : List BusAccess :=
  if i.ack then
    match s.state with
    | .writeData => [.write (s.address.setWidth 30) s.data]
    | .readData => [.read (s.address.setWidth 30)]
    | _ => []
  else []

/-- The word that is read. -/
def wordRead (s : UartBridge) (i : Inputs) : List (BitVec 32) :=
  if i.ack && s.state == .readData then [i.datR] else []

/-- The byte the transmitter is through with. -/
def sent (s : UartBridge) : List (BitVec 8) :=
  if s.state == .sendData && s.sinkReady then [s.sinkData] else []

/-- The command is not given up. -/
def InTime (s : UartBridge) : Prop := s.done = false

/-! ## The commands -/

/-- The bytes that the bridge expects, and the accesses that it will then have done. -/
inductive Expects (s : UartBridge) : List (BitVec 8) → List BusAccess → Prop
  | receiveCmd (cs : List Command) (state : s.state = .receiveCmd) :
      Expects s (cs.flatMap Command.bytes) (cs.flatMap Command.accesses)
  | receiveLength (c : Command) (cs : List Command) (state : s.state = .receiveLength)
      (cmd : s.cmd = c.cmd) (bytesCount : s.bytesCount = 0#2) (wordsCount : s.wordsCount = 0#8) :
      Expects s
        (c.length :: (wordBytes c.address ++ c.words.flatMap wordBytes ++ cs.flatMap Command.bytes))
        (c.accesses ++ cs.flatMap Command.accesses)
  | receiveAddress (c : Command) (cs : List Command) (byte : BitVec 8) (rest : List (BitVec 8))
      (state : s.state = .receiveAddress) (cmd : s.cmd = c.cmd) (length : s.length = c.length)
      (wordsCount : s.wordsCount = 0#8) (bytesCount : s.bytesCount.toNat + rest.length = 3)
      (address : (byte :: rest).foldl shiftByte s.address = c.address) :
      Expects s (byte :: (rest ++ c.words.flatMap wordBytes ++ cs.flatMap Command.bytes))
        (c.accesses ++ cs.flatMap Command.accesses)
  | receiveData (word : BitVec 32) (words : List (BitVec 32)) (cs : List Command) (byte : BitVec 8)
      (rest : List (BitVec 8)) (state : s.state = .receiveData)
      (wordsCount : s.wordsCount.toNat + 1 + words.length = wordCount s.length)
      (bytesCount : s.bytesCount.toNat + rest.length = 3)
      (data : (byte :: rest).foldl shiftByte s.data = word) :
      Expects s (byte :: (rest ++ words.flatMap wordBytes ++ cs.flatMap Command.bytes))
        (writeAccesses s.incr s.address (word :: words) ++ cs.flatMap Command.accesses)
  | writeData (words : List (BitVec 32)) (cs : List Command) (state : s.state = .writeData)
      (wordsCount : s.wordsCount.toNat + 1 + words.length = wordCount s.length)
      (bytesCount : s.bytesCount = 0#2) :
      Expects s (words.flatMap wordBytes ++ cs.flatMap Command.bytes)
        (writeAccesses s.incr s.address (s.data :: words) ++ cs.flatMap Command.accesses)
  | readData (n : ℕ) (cs : List Command) (state : s.state = .readData)
      (wordsCount : s.wordsCount.toNat + 1 + n = wordCount s.length) :
      Expects s (cs.flatMap Command.bytes)
        (readAccesses s.incr s.address (n + 1) ++ cs.flatMap Command.accesses)
  | sendData (n : ℕ) (cs : List Command) (state : s.state = .sendData)
      (wordsCount : s.wordsCount.toNat + 1 + n = wordCount s.length) :
      Expects s (cs.flatMap Command.bytes)
        (readAccesses s.incr (nextAddress s.incr s.address) n ++ cs.flatMap Command.accesses)

/-- A clock takes some of the bytes and does some of the accesses. -/
def Progress (s : UartBridge) (i : Inputs) (bytes : List (BitVec 8)) (accesses : List BusAccess) :
    Prop :=
  ∃ bytes' accesses', bytes = s.accepted ++ bytes' ∧ accesses = s.performed i ++ accesses' ∧
    Expects (s.clockEdge i) bytes' accesses'

section Step

variable {s : UartBridge} {i : Inputs} {bytes : List (BitVec 8)} {accesses : List BusAccess}

theorem Progress.of_none (haccepted : s.accepted = []) (hperformed : s.performed i = [])
    (h : Expects (s.clockEdge i) bytes accesses) : Progress s i bytes accesses :=
  ⟨bytes, accesses, by rw [haccepted]; rfl, by rw [hperformed]; rfl, h⟩

theorem accepted_of_none (h : s.rxSource = none) : s.accepted = [] := by
  rw [accepted, h]
  split <;> rfl

theorem accepted_of_some {byte : BitVec 8} (hready : s.sourceReady = true)
    (h : s.rxSource = some byte) : s.accepted = [byte] := by
  rw [accepted, hready, h]
  rfl

theorem performed_of_not_bus (h : s.wishbone.cyc = false) : s.performed i = [] := by
  rw [performed]
  split
  · split
    · next hstate => simp [wishbone, hstate] at h
    · next hstate => simp [wishbone, hstate] at h
    · rfl
  · rfl

/-- A command begins with its code. -/
theorem progress_receiveCmd (cs : List Command) (state : s.state = .receiveCmd)
    (hintime : s.InTime) (hbytes : s.accepted <+: cs.flatMap Command.bytes) :
    Progress s i (cs.flatMap Command.bytes) (cs.flatMap Command.accesses) := by
  have hperformed : s.performed i = [] := performed_of_not_bus (by simp [wishbone, state])
  rw [InTime] at hintime
  cases hsource : s.rxSource with
  | none =>
    refine .of_none (accepted_of_none hsource) hperformed (.receiveCmd cs ?_)
    simp [clockEdge, nextState, state, hsource]
  | some byte =>
    have haccepted := accepted_of_some (by rw [sourceReady, state]) hsource
    rw [haccepted] at hbytes
    cases cs with
    | nil => simp at hbytes
    | cons c cs =>
      obtain rfl : byte = c.cmd := by
        obtain ⟨rest, hrest⟩ := hbytes
        exact List.head_eq_of_cons_eq hrest
      refine ⟨_, _, ?_, ?_, .receiveLength c cs ?_ ?_ ?_ ?_⟩
      · rw [haccepted]
        rfl
      · rw [hperformed]
        rfl
      · simp [clockEdge, nextState, state, hsource, hintime]
      · simp [clockEdge, state, hsource]
      · simp [clockEdge, state]
      · simp [clockEdge, state]

theorem progress_receiveLength (c : Command) (cs : List Command) (state : s.state = .receiveLength)
    (cmd : s.cmd = c.cmd) (bytesCount : s.bytesCount = 0#2) (wordsCount : s.wordsCount = 0#8)
    (hintime : s.InTime)
    (hbytes : s.accepted <+: c.length ::
      (wordBytes c.address ++ c.words.flatMap wordBytes ++ cs.flatMap Command.bytes)) :
    Progress s i
      (c.length :: (wordBytes c.address ++ c.words.flatMap wordBytes ++ cs.flatMap Command.bytes))
      (c.accesses ++ cs.flatMap Command.accesses) := by
  have hperformed : s.performed i = [] := performed_of_not_bus (by simp [wishbone, state])
  rw [InTime] at hintime
  cases hsource : s.rxSource with
  | none =>
    refine .of_none (accepted_of_none hsource) hperformed (.receiveLength c cs ?_ ?_ ?_ ?_)
    · simp [clockEdge, nextState, state, hsource, hintime]
    · simpa [clockEdge, state] using cmd
    · simpa [clockEdge, state] using bytesCount
    · simpa [clockEdge, state] using wordsCount
  | some byte =>
    have haccepted := accepted_of_some (by rw [sourceReady, state]) hsource
    rw [haccepted] at hbytes
    obtain rfl : byte = c.length := by
      obtain ⟨rest, hrest⟩ := hbytes
      exact List.head_eq_of_cons_eq hrest
    have haddress : (wordBytes c.address).foldl shiftByte (s.clockEdge i).address = c.address :=
      foldl_shiftByte_wordBytes _ _
    refine ⟨_, _, ?_, ?_, .receiveAddress c cs _ _ ?_ ?_ ?_ ?_ ?_ haddress⟩
    · rw [haccepted]
      rfl
    · rw [hperformed]
      rfl
    · simp [clockEdge, nextState, state, hsource, hintime]
    · simpa [clockEdge, state] using cmd
    · simp [clockEdge, state, hsource]
    · simpa [clockEdge, state] using wordsCount
    · simp [clockEdge, state, bytesCount]

theorem lastByte_eq {n : ℕ} (h : s.bytesCount.toNat + n = 3) :
    s.lastByte = decide (n = 0) := by
  rw [lastByte, Bool.eq_iff_iff, beq_iff_eq, decide_eq_true_iff, ← BitVec.toNat_inj,
    show (3#2).toNat = 3 from rfl]
  omega

theorem bytesCount_succ {n : ℕ} (h : s.bytesCount.toNat + (n + 1) = 3) :
    (s.bytesCount + 1#2).toNat + n = 3 := by
  rw [BitVec.toNat_add, show (1#2).toNat = 1 from rfl]
  omega

theorem bytesCount_last (h : s.bytesCount.toNat + 0 = 3) : s.bytesCount + 1#2 = 0#2 := by
  rw [← BitVec.toNat_inj, BitVec.toNat_add]
  change (s.bytesCount.toNat + 1) % 4 = 0
  omega

/-- Behind the last byte of the address the code decides. -/
theorem expects_of_address (c : Command) (cs : List Command) (state : s.state = .receiveAddress)
    (cmd : s.cmd = c.cmd) (length : s.length = c.length) (wordsCount : s.wordsCount = 0#8)
    (bytesCount : s.bytesCount.toNat + 0 = 3) (hintime : s.InTime) {byte : BitVec 8}
    (hsource : s.rxSource = some byte) (address : shiftByte s.address byte = c.address) :
    Expects (s.clockEdge i) (c.words.flatMap wordBytes ++ cs.flatMap Command.bytes)
      (c.accesses ++ cs.flatMap Command.accesses) := by
  have hlast := lastByte_eq bytesCount
  rw [InTime] at hintime
  have hlength := c.length_words
  have haddress : (s.clockEdge i).address = c.address := by
    rw [← address]
    simp [clockEdge, state, hsource]
  have hcount : (s.clockEdge i).wordsCount.toNat + 1 + (wordCount c.length - 1) =
      wordCount (s.clockEdge i).length := by
    have hwords : (s.clockEdge i).wordsCount = 0#8 := by simpa [clockEdge, state] using wordsCount
    have hsame : (s.clockEdge i).length = c.length := by simpa [clockEdge, state] using length
    rw [hwords, hsame, wordCount]
    simp
    omega
  cases hwrite : isWriteCmd c.cmd with
  | true =>
    rw [hwrite, if_pos rfl] at hlength
    have hincr : (s.clockEdge i).incr = (c.cmd == 1#8) := by
      simp [clockEdge, state, hsource, hlast, hintime, cmd, hwrite]
    rw [Command.accesses, hwrite, if_pos rfl]
    cases hwords : c.words with
    | nil =>
      rw [hwords, wordCount] at hlength
      simp at hlength
    | cons word words =>
      rw [hwords, List.length_cons] at hlength
      have hdata := foldl_shiftByte_wordBytes (s.clockEdge i).data word
      rw [← haddress, ← hincr]
      refine .receiveData word words cs _ _ ?_ ?_ ?_ hdata
      · simp [clockEdge, nextState, state, hsource, hlast, hintime, cmd, hwrite]
      · rw [← hcount]
        omega
      · simp [clockEdge, state, hsource, bytesCount_last bytesCount]
  | false =>
    rw [hwrite, if_neg (by decide)] at hlength
    rw [Command.accesses, hwrite, if_neg (by decide), List.length_eq_zero_iff.1 hlength]
    cases hread : isReadCmd c.cmd with
    | true =>
      have hincr : (s.clockEdge i).incr = (c.cmd == 2#8) := by
        simp [clockEdge, state, hsource, hlast, hintime, cmd, hwrite, hread]
      rw [if_pos rfl, ← haddress, ← hincr,
        show wordCount c.length = wordCount c.length - 1 + 1 by rw [wordCount]; omega]
      refine .readData (wordCount c.length - 1) cs ?_ hcount
      simp [clockEdge, nextState, state, hsource, hlast, hintime, cmd, hwrite, hread]
    | false =>
      rw [if_neg (by decide)]
      refine .receiveCmd cs ?_
      simp [clockEdge, nextState, state, hsource, hlast, hintime, cmd, hwrite, hread]

theorem progress_receiveAddress (c : Command) (cs : List Command) (byte : BitVec 8)
    (rest : List (BitVec 8)) (state : s.state = .receiveAddress) (cmd : s.cmd = c.cmd)
    (length : s.length = c.length) (wordsCount : s.wordsCount = 0#8)
    (bytesCount : s.bytesCount.toNat + rest.length = 3)
    (address : (byte :: rest).foldl shiftByte s.address = c.address) (hintime : s.InTime)
    (hbytes : s.accepted <+:
      byte :: (rest ++ c.words.flatMap wordBytes ++ cs.flatMap Command.bytes)) :
    Progress s i (byte :: (rest ++ c.words.flatMap wordBytes ++ cs.flatMap Command.bytes))
      (c.accesses ++ cs.flatMap Command.accesses) := by
  have hperformed : s.performed i = [] := performed_of_not_bus (by simp [wishbone, state])
  have htime := hintime
  rw [InTime] at htime
  cases hsource : s.rxSource with
  | none =>
    refine .of_none (accepted_of_none hsource) hperformed
      (.receiveAddress c cs byte rest ?_ ?_ ?_ ?_ ?_ ?_)
    · simp [clockEdge, nextState, state, hsource, htime]
    · simpa [clockEdge, state] using cmd
    · simpa [clockEdge, state] using length
    · simpa [clockEdge, state] using wordsCount
    · simpa [clockEdge, state, hsource] using bytesCount
    · rw [← address]
      simp [clockEdge, state, hsource]
  | some byte' =>
    have haccepted := accepted_of_some (by rw [sourceReady, state]) hsource
    rw [haccepted] at hbytes
    obtain rfl : byte' = byte := by
      obtain ⟨_, hrest⟩ := hbytes
      exact List.head_eq_of_cons_eq hrest
    refine ⟨_, _, by rw [haccepted]; rfl, by rw [hperformed]; rfl, ?_⟩
    cases rest with
    | nil =>
      exact expects_of_address c cs state cmd length wordsCount bytesCount hintime hsource address
    | cons next rest =>
      have hlast := lastByte_eq bytesCount
      refine .receiveAddress c cs next rest ?_ ?_ ?_ ?_ ?_ ?_
      · simp [clockEdge, nextState, state, hsource, hlast, htime]
      · simpa [clockEdge, state] using cmd
      · simpa [clockEdge, state] using length
      · simpa [clockEdge, state] using wordsCount
      · simpa [clockEdge, state, hsource] using bytesCount_succ bytesCount
      · rw [← address]
        simp [clockEdge, state, hsource]

theorem progress_receiveData (word : BitVec 32) (words : List (BitVec 32)) (cs : List Command)
    (byte : BitVec 8) (rest : List (BitVec 8)) (state : s.state = .receiveData)
    (wordsCount : s.wordsCount.toNat + 1 + words.length = wordCount s.length)
    (bytesCount : s.bytesCount.toNat + rest.length = 3)
    (data : (byte :: rest).foldl shiftByte s.data = word) (hintime : s.InTime)
    (hbytes : s.accepted <+:
      byte :: (rest ++ words.flatMap wordBytes ++ cs.flatMap Command.bytes)) :
    Progress s i (byte :: (rest ++ words.flatMap wordBytes ++ cs.flatMap Command.bytes))
      (writeAccesses s.incr s.address (word :: words) ++ cs.flatMap Command.accesses) := by
  have hperformed : s.performed i = [] := performed_of_not_bus (by simp [wishbone, state])
  rw [InTime] at hintime
  have hincr : (s.clockEdge i).incr = s.incr := by simp [clockEdge, state, hintime]
  have haddress : (s.clockEdge i).address = s.address := by simp [clockEdge, state]
  have hcount : (s.clockEdge i).wordsCount.toNat + 1 + words.length =
      wordCount (s.clockEdge i).length := by
    simpa [clockEdge, state] using wordsCount
  rw [← hincr, ← haddress]
  cases hsource : s.rxSource with
  | none =>
    refine .of_none (accepted_of_none hsource) hperformed
      (.receiveData word words cs byte rest ?_ hcount ?_ ?_)
    · simp [clockEdge, nextState, state, hsource, hintime]
    · simpa [clockEdge, state, hsource] using bytesCount
    · rw [← data]
      simp [clockEdge, state, hsource]
  | some byte' =>
    have haccepted := accepted_of_some (by rw [sourceReady, state]) hsource
    rw [haccepted] at hbytes
    obtain rfl : byte' = byte := by
      obtain ⟨_, hrest⟩ := hbytes
      exact List.head_eq_of_cons_eq hrest
    have hlast := lastByte_eq bytesCount
    refine ⟨_, _, by rw [haccepted]; rfl, by rw [hperformed]; rfl, ?_⟩
    cases rest with
    | nil =>
      have hdata : (s.clockEdge i).data = word := by
        rw [← data]
        simp [clockEdge, state, hsource]
      rw [← hdata]
      refine .writeData words cs ?_ hcount ?_
      · simp [clockEdge, nextState, state, hsource, hlast, hintime]
      · simpa [clockEdge, state, hsource] using bytesCount_last bytesCount
    | cons next rest =>
      refine .receiveData word words cs next rest ?_ hcount ?_ ?_
      · simp [clockEdge, nextState, state, hsource, hlast, hintime]
      · simpa [clockEdge, state, hsource] using bytesCount_succ bytesCount
      · rw [← data]
        simp [clockEdge, state, hsource]

theorem progress_writeData (words : List (BitVec 32)) (cs : List Command)
    (state : s.state = .writeData)
    (wordsCount : s.wordsCount.toNat + 1 + words.length = wordCount s.length)
    (bytesCount : s.bytesCount = 0#2) (hintime : s.InTime) :
    Progress s i (words.flatMap wordBytes ++ cs.flatMap Command.bytes)
      (writeAccesses s.incr s.address (s.data :: words) ++ cs.flatMap Command.accesses) := by
  have haccepted : s.accepted = [] := by simp [accepted, sourceReady, state]
  have hlast : s.lastWord = decide (words.length = 0) := by
    rw [lastWord, lastWord_iff, decide_eq_decide]
    omega
  rw [InTime] at hintime
  have hincr : (s.clockEdge i).incr = s.incr := by simp [clockEdge, state, hintime]
  cases hack : i.ack with
  | false =>
    have haddress : (s.clockEdge i).address = s.address := by simp [clockEdge, state, hack]
    have hdata : (s.clockEdge i).data = s.data := by simp [clockEdge, state]
    rw [← hincr, ← haddress, ← hdata]
    refine .of_none haccepted (by rw [performed, hack, if_neg (by decide)])
      (.writeData words cs ?_ ?_ ?_)
    · simp [clockEdge, nextState, state, hack, hintime]
    · simpa [clockEdge, state, hack] using wordsCount
    · simpa [clockEdge, state] using bytesCount
  | true =>
    have hperformed : s.performed i = [.write (s.address.setWidth 30) s.data] := by
      rw [performed, hack, if_pos rfl, state]
    have haddress : (s.clockEdge i).address = nextAddress s.incr s.address := by
      simp [clockEdge, state, hack]
    refine ⟨_, _, by rw [haccepted]; rfl, by rw [hperformed]; rfl, ?_⟩
    cases words with
    | nil =>
      refine .receiveCmd cs ?_
      simp [clockEdge, nextState, state, hack, hlast, hintime]
    | cons word words =>
      have hdata := foldl_shiftByte_wordBytes (s.clockEdge i).data word
      have hcount : (s.clockEdge i).wordsCount.toNat = s.wordsCount.toNat + 1 := by
        have hlength := (s.length - 1#8).isLt
        rw [wordCount, List.length_cons] at wordsCount
        simp [clockEdge, state, hack]
        omega
      have hlength : (s.clockEdge i).length = s.length := by simp [clockEdge, state]
      change Expects _ _ (writeAccesses s.incr (nextAddress s.incr s.address) (word :: words) ++ _)
      rw [← haddress, ← hincr]
      refine .receiveData word words cs _ _ ?_ ?_ ?_ hdata
      · simp [clockEdge, nextState, state, hack, hlast, hintime]
      · rw [hcount, hlength, ← wordsCount, List.length_cons]
        omega
      · simp [clockEdge, state, bytesCount]

theorem progress_readData (n : ℕ) (cs : List Command) (state : s.state = .readData)
    (wordsCount : s.wordsCount.toNat + 1 + n = wordCount s.length) (hintime : s.InTime) :
    Progress s i (cs.flatMap Command.bytes)
      (readAccesses s.incr s.address (n + 1) ++ cs.flatMap Command.accesses) := by
  have haccepted : s.accepted = [] := by simp [accepted, sourceReady, state]
  rw [InTime] at hintime
  have hincr : (s.clockEdge i).incr = s.incr := by simp [clockEdge, state, hintime]
  have haddress : (s.clockEdge i).address = s.address := by simp [clockEdge, state]
  have hcount : (s.clockEdge i).wordsCount.toNat + 1 + n = wordCount (s.clockEdge i).length := by
    simpa [clockEdge, state] using wordsCount
  cases hack : i.ack with
  | false =>
    rw [← hincr, ← haddress]
    refine .of_none haccepted (by rw [performed, hack, if_neg (by decide)])
      (.readData n cs ?_ hcount)
    simp [clockEdge, nextState, state, hack, hintime]
  | true =>
    have hperformed : s.performed i = [.read (s.address.setWidth 30)] := by
      rw [performed, hack, if_pos rfl, state]
    refine ⟨_, _, by rw [haccepted]; rfl, by rw [hperformed]; rfl, ?_⟩
    rw [← hincr, ← haddress]
    refine .sendData n cs ?_ hcount
    simp [clockEdge, nextState, state, hack, hintime]

theorem progress_sendData (n : ℕ) (cs : List Command) (state : s.state = .sendData)
    (wordsCount : s.wordsCount.toNat + 1 + n = wordCount s.length) (hintime : s.InTime) :
    Progress s i (cs.flatMap Command.bytes)
      (readAccesses s.incr (nextAddress s.incr s.address) n ++ cs.flatMap Command.accesses) := by
  have haccepted : s.accepted = [] := by simp [accepted, sourceReady, state]
  have hperformed : s.performed i = [] := performed_of_not_bus (by simp [wishbone, state])
  have hlast : s.lastWord = decide (n = 0) := by
    rw [lastWord, lastWord_iff, decide_eq_decide]
    omega
  rw [InTime] at hintime
  have hincr : (s.clockEdge i).incr = s.incr := by simp [clockEdge, state, hintime]
  have hlength : (s.clockEdge i).length = s.length := by simp [clockEdge, state]
  refine .of_none haccepted hperformed ?_
  cases hready : s.sinkReady && s.lastByte with
  | false =>
    have haddress : (s.clockEdge i).address = s.address := by simp [clockEdge, state, hready]
    rw [← hincr, ← haddress]
    refine .sendData n cs ?_ ?_
    · simp [clockEdge, nextState, state, hready, hintime]
    · simpa [clockEdge, state, hready] using wordsCount
  | true =>
    have haddress : (s.clockEdge i).address = nextAddress s.incr s.address := by
      simp [clockEdge, state, hready]
    cases n with
    | zero =>
      refine .receiveCmd cs ?_
      simp [clockEdge, nextState, state, hready, hlast, hintime]
    | succ n =>
      have hcount : (s.clockEdge i).wordsCount.toNat = s.wordsCount.toNat + 1 := by
        have hlt := (s.length - 1#8).isLt
        rw [wordCount] at wordsCount
        simp [clockEdge, state, hready]
        omega
      rw [← haddress, ← hincr]
      refine .readData n cs ?_ ?_
      · simp [clockEdge, nextState, state, hready, hlast, hintime]
      · rw [hcount, hlength, ← wordsCount]
        omega

/-- **One clock of a command.** -/
theorem Expects.progress (h : Expects s bytes accesses) (hintime : s.InTime)
    (hbytes : s.accepted <+: bytes) : Progress s i bytes accesses := by
  cases h with
  | receiveCmd cs state => exact progress_receiveCmd cs state hintime hbytes
  | receiveLength c cs state cmd bytesCount wordsCount =>
    exact progress_receiveLength c cs state cmd bytesCount wordsCount hintime hbytes
  | receiveAddress c cs byte rest state cmd length wordsCount bytesCount address =>
    exact progress_receiveAddress c cs byte rest state cmd length wordsCount bytesCount address
      hintime hbytes
  | receiveData word words cs byte rest state wordsCount bytesCount data =>
    exact progress_receiveData word words cs byte rest state wordsCount bytesCount data hintime
      hbytes
  | writeData words cs state wordsCount bytesCount =>
    exact progress_writeData words cs state wordsCount bytesCount hintime
  | readData n cs state wordsCount => exact progress_readData n cs state wordsCount hintime
  | sendData n cs state wordsCount => exact progress_sendData n cs state wordsCount hintime

theorem Expects.run (h : Expects s bytes accesses) (inputs : List Inputs)
    (hintime : Along clockEdge (fun s _ ↦ s.InTime) s inputs)
    (hbytes : trace clockEdge (fun s _ ↦ s.accepted) s inputs <+: bytes) :
    ∃ bytes' accesses',
      bytes = trace clockEdge (fun s _ ↦ s.accepted) s inputs ++ bytes' ∧
      accesses = trace clockEdge performed s inputs ++ accesses' ∧
      Expects (run clockEdge s inputs) bytes' accesses' := by
  induction inputs generalizing s bytes accesses with
  | nil => exact ⟨bytes, accesses, rfl, rfl, h⟩
  | cons i rest ih =>
    rw [trace] at hbytes
    obtain ⟨bytes', accesses', rfl, rfl, hnext⟩ :=
      h.progress (i := i) hintime.1 ((List.prefix_append _ _).trans hbytes)
    rw [List.prefix_append_right_inj] at hbytes
    obtain ⟨bytes, accesses, rfl, rfl, hend⟩ := ih hnext hintime.2 hbytes
    refine ⟨bytes, accesses, ?_, ?_, hend⟩
    · rw [trace, List.append_assoc]
    · rw [trace, List.append_assoc]

end Step

theorem flatMap_bytes_eq_nil {cs : List Command} (h : cs.flatMap Command.bytes = []) : cs = [] := by
  cases cs with
  | nil => rfl
  | cons c cs => simp [Command.bytes] at h

/-- **Commands are done.** As long as no command is given up, what the bridge does on the bus is
what the commands ask for, in their order, whenever their bytes come and whenever the bus answers;
when it waits for a command again, nothing of them is left to be done. -/
theorem commands_performed {s : UartBridge} (hstate : s.state = .receiveCmd) (inputs : List Inputs)
    (hintime : Along clockEdge (fun s _ ↦ s.InTime) s inputs) (cs : List Command)
    (hbytes : trace clockEdge (fun s _ ↦ s.accepted) s inputs <+: cs.flatMap Command.bytes) :
    trace clockEdge performed s inputs <+: cs.flatMap Command.accesses ∧
      (trace clockEdge (fun s _ ↦ s.accepted) s inputs = cs.flatMap Command.bytes →
        (run clockEdge s inputs).state = .receiveCmd →
          trace clockEdge performed s inputs = cs.flatMap Command.accesses) := by
  obtain ⟨bytes, accesses, hall, hdone, hend⟩ := (Expects.receiveCmd cs hstate).run inputs hintime
    hbytes
  rw [hdone]
  refine ⟨List.prefix_append _ _, fun hsame hidle ↦ ?_⟩
  have hnone : bytes = [] := by
    rw [hsame] at hall
    exact List.self_eq_append_right.1 hall
  cases hend with
  | receiveCmd cs' state =>
    rw [flatMap_bytes_eq_nil hnone]
    exact (List.append_nil _).symm
  | receiveLength _ _ state => cases state.symm.trans hidle
  | receiveAddress _ _ _ _ state => cases state.symm.trans hidle
  | receiveData _ _ _ _ _ state => cases state.symm.trans hidle
  | writeData _ _ state => cases state.symm.trans hidle
  | readData _ _ state => cases state.symm.trans hidle
  | sendData _ _ state => cases state.symm.trans hidle

/-- The bridge at the end of the first byte of a command, a word still in its shift register. -/
def atFirstByte : UartBridge :=
  { reset 0#8 true true with
    data := 0x89ABCDEF#32
    rx := ⟨true, 0x02#8, 9#4, true, 0#32, true⟩ }

/-- The command that reads one word at address 5. -/
def readOne : Command where
  cmd := 2#8
  length := 1#8
  address := 5#32
  words := []
  length_words := rfl

/-- The time for a command is not over in fewer clocks than are left. -/
theorem inTime_of_length_le {s : UartBridge} (inputs : List Inputs)
    (hcount : inputs.length ≤ s.count.toNat) (hlong : inputs.length ≤ 1000000) :
    Along clockEdge (fun s _ ↦ s.InTime) s inputs := by
  induction inputs generalizing s with
  | nil => trivial
  | cons i rest ih =>
    rw [List.length_cons] at hcount hlong
    have hintime : s.InTime := by
      rw [InTime, done, beq_eq_false_iff_ne, Ne, ← BitVec.toNat_inj]
      exact Nat.ne_of_gt (Nat.zero_lt_of_lt hcount)
    refine ⟨hintime, ih ?_ (by omega)⟩
    by_cases hstate : s.state = .receiveCmd
    · have hnext : (s.clockEdge i).count = 1000000#20 := by simp [clockEdge, hstate]
      rw [hnext]
      exact Nat.le_trans (Nat.le_succ _) hlong
    · have hnext : (s.clockEdge i).count = s.count - 1#20 := by
        rw [InTime] at hintime
        simp [clockEdge, hstate, hintime]
      rw [hnext, BitVec.toNat_sub_of_le (BitVec.le_def.2 (show (1#20).toNat ≤ _ by
        change 1 ≤ _
        omega))]
      change _ ≤ s.count.toNat - 1
      omega

/-- The levels of a byte on the line. -/
def frame (byte : BitVec 8) : List Bool := false :: (List.range 8).map byte.getLsbD ++ [true]

/-- The rest of the command but for the last stop bit, 87 clocks for a bit. -/
def readOneLevels : List Bool :=
  ([0x01#8, 0x00#8, 0x00#8, 0x00#8].flatMap frame ++ (frame 0x05#8).dropLast).flatMap
    (List.replicate 87)

def readOneFront : List Inputs := readOneLevels.map fun level ↦ ⟨level, false, 0#32⟩

/-- The bridge in front of the last stop bit. -/
def atLastByte : UartBridge where
  tx := ⟨false, 0x00#8, 0#4, false, dbgUartTuning, true⟩
  regs0 := false
  regs1 := false
  rx := ⟨true, 0x05#8, 9#4, false, 0x7c504754#32, false⟩
  state := .receiveAddress
  cmd := 0x02#8
  incr := false
  length := 0x01#8
  address := 0x00000000#32
  data := 0x89abcdef#32
  bytesCount := 3#2
  wordsCount := 0x00#8
  count := 0xf319a#20

section Receiving

variable {s : UartBridge} {i : Inputs} (h : s.sourceReady = true)
include h

/-- A bridge that receives does nothing else. -/
theorem cyc_of_sourceReady : s.wishbone.cyc = false := by
  cases hstate : s.state <;> simp_all [sourceReady, wishbone]

theorem performed_of_sourceReady : s.performed i = [] :=
  performed_of_not_bus (cyc_of_sourceReady h)

theorem wordRead_of_sourceReady : s.wordRead i = [] := by
  cases hstate : s.state <;> simp_all [sourceReady, wordRead]

theorem sent_of_sourceReady : s.sent = [] := by
  cases hstate : s.state <;> simp_all [sourceReady, sent]

end Receiving

/-- The clocks at which the bridge works on a command. -/
def working (s : UartBridge) : List Unit := if s.sourceReady then [] else [()]

theorem along_sourceReady {s : UartBridge} {inputs : List Inputs}
    (h : trace clockEdge (fun s _ ↦ s.working) s inputs = []) :
    Along clockEdge (fun s _ ↦ s.sourceReady = true) s inputs := by
  have hall := (forall_mem_trace_iff clockEdge (fun s _ ↦ s.working) (fun _ ↦ False) s inputs).1
    (by simp [h])
  refine hall.mono fun s i hnone ↦ ?_
  by_contra hworking
  exact hnone () (by simp [working, hworking])

set_option maxRecDepth 100000 in
/-- Five of the six bytes are taken, while the bridge does nothing else. -/
theorem readOneFront_run :
    trace clockEdge (both (fun s _ ↦ s.accepted) fun s _ ↦ s.working) atFirstByte readOneFront =
        (readOne.bytes.take 5).map .inl ∧
      run clockEdge atFirstByte readOneFront = atLastByte := by
  decide +kernel

theorem readOneFront_accepted :
    trace clockEdge (fun s _ ↦ s.accepted) atFirstByte readOneFront = readOne.bytes.take 5 := by
  rw [← trace_inl_both clockEdge _ fun s _ ↦ s.working, readOneFront_run.1]
  rfl

theorem readOneFront_ready :
    Along clockEdge (fun s _ ↦ s.sourceReady = true) atFirstByte readOneFront := by
  apply along_sourceReady
  rw [← trace_inr_both clockEdge fun s _ ↦ s.accepted, readOneFront_run.1]
  rfl

/-- The last byte comes in, the bus answers, and a byte goes out. -/
def readOneBack : List Inputs :=
  List.replicate 50 ⟨true, false, 0#32⟩ ++ ⟨true, true, 0xcafe1234#32⟩ ::
    List.replicate 900 ⟨true, false, 0#32⟩

/-- Nothing is seen of a working bridge in the first part. -/
theorem readOneFront_trace {Obs : Type*} {observe : UartBridge → Inputs → List Obs}
    (hnone : ∀ s i, s.sourceReady = true → observe s i = []) :
    trace clockEdge observe atFirstByte (readOneFront ++ readOneBack) =
      trace clockEdge observe atLastByte readOneBack := by
  rw [trace_append, trace_eq_nil hnone readOneFront_ready, List.nil_append, readOneFront_run.2]

set_option maxRecDepth 100000 in
/-- The byte taken, the access performed, the word read and the first byte of it that is sent. -/
theorem readOneBack_trace :
    trace clockEdge (both (both (fun s _ ↦ s.accepted) performed)
        (both wordRead fun s _ ↦ s.sent)) atLastByte readOneBack =
      [.inl (.inl 0x05#8), .inl (.inr (.read 5#30)), .inr (.inl 0xcafe1234#32),
        .inr (.inr 0xca#8)] := by
  decide +kernel

theorem readOneBack_traces :
    trace clockEdge (fun s _ ↦ s.accepted) atLastByte readOneBack = [0x05#8] ∧
      trace clockEdge performed atLastByte readOneBack = [.read 5#30] ∧
      trace clockEdge wordRead atLastByte readOneBack = [0xcafe1234#32] ∧
      trace clockEdge (fun s _ ↦ s.sent) atLastByte readOneBack = [0xca#8] := by
  have hcommand : trace clockEdge (both (fun s _ ↦ s.accepted) performed) atLastByte readOneBack =
      [.inl 0x05#8, .inr (.read 5#30)] := by
    rw [← trace_inl_both clockEdge _ (both wordRead fun s _ ↦ s.sent), readOneBack_trace]
    rfl
  have hanswer : trace clockEdge (both wordRead fun s _ ↦ s.sent) atLastByte readOneBack =
      [.inl 0xcafe1234#32, .inr 0xca#8] := by
    rw [← trace_inr_both clockEdge (both (fun s _ ↦ s.accepted) performed), readOneBack_trace]
    rfl
  refine ⟨?_, ?_, ?_, ?_⟩
  · rw [← trace_inl_both clockEdge _ performed, hcommand]
    rfl
  · rw [← trace_inr_both clockEdge fun s _ ↦ s.accepted, hcommand]
    rfl
  · rw [← trace_inl_both clockEdge _ fun s _ ↦ s.sent, hanswer]
    rfl
  · rw [← trace_inr_both clockEdge wordRead, hanswer]
    rfl

theorem readOne_inTime :
    Along clockEdge (fun s _ ↦ s.InTime) atFirstByte (readOneFront ++ readOneBack) := by
  apply inTime_of_length_le <;> decide +kernel

/-- The command is taken and its read performed. -/
theorem commands_performed_readOne :
    trace clockEdge performed atFirstByte (readOneFront ++ readOneBack) = [.read 5#30] ∧
      trace clockEdge performed atFirstByte (readOneFront ++ readOneBack) <+:
        [readOne].flatMap Command.accesses := by
  have haccepted : trace clockEdge (fun s _ ↦ s.accepted) atFirstByte
      (readOneFront ++ readOneBack) = readOne.bytes := by
    rw [trace_append, readOneFront_accepted, readOneFront_run.2, readOneBack_traces.1]
    rfl
  have hperformed : trace clockEdge performed atFirstByte (readOneFront ++ readOneBack) =
      [.read 5#30] := by
    rw [readOneFront_trace fun s i ↦ performed_of_sourceReady, readOneBack_traces.2.1]
  refine ⟨hperformed, (commands_performed rfl _ readOne_inTime [readOne] ?_).1⟩
  rw [haccepted]
  exact List.prefix_append _ _

/-! ## The answers -/

/-- The bytes still to be sent of the word that was read. -/
def unsent (s : UartBridge) : List (BitVec 8) :=
  if s.state = .sendData then (wordBytes s.data).drop s.bytesCount.toNat else []

/-- A word that is read is sent from its first byte on. -/
def Aligned (s : UartBridge) : Prop := s.state = .readData → s.bytesCount = 0#2

theorem drop_wordBytes (s : UartBridge) :
    (wordBytes s.data).drop s.bytesCount.toNat =
      s.sinkData :: (wordBytes s.data).drop (s.bytesCount.toNat + 1) := by
  have hlt := s.bytesCount.isLt
  rw [sinkData]
  generalize s.bytesCount.toNat = n at hlt
  interval_cases n <;> rfl

section Answers

variable {s : UartBridge} {i : Inputs}

theorem bytesCount_of_lastByte (h : s.lastByte = true) : s.bytesCount = 3#2 := beq_iff_eq.1 h

theorem Aligned.step (h : s.Aligned) (i : Inputs) : (s.clockEdge i).Aligned := by
  intro hnext
  have hstate : s.nextState i = .readData := by
    change (if s.done then BridgeState.receiveCmd else s.nextState i) = .readData at hnext
    split at hnext
    · cases hnext
    · exact hnext
  have hlast : s.lastByte = true → s.bytesCount + 1#2 = 0#2 := by
    intro hbyte
    rw [bytesCount_of_lastByte hbyte]
    rfl
  cases hcase : s.state with
  | receiveAddress =>
    cases hbyte : s.rxSource.isSome && s.lastByte with
    | false => simp [nextState, hcase, hbyte] at hstate
    | true =>
      rw [Bool.and_eq_true] at hbyte
      simp only [clockEdge, hcase, hbyte.1, if_true]
      exact hlast hbyte.2
  | sendData =>
    cases hbyte : s.sinkReady && s.lastByte with
    | false => simp [nextState, hcase, hbyte] at hstate
    | true =>
      rw [Bool.and_eq_true] at hbyte
      simp only [clockEdge, hcase, hbyte.1, if_true]
      exact hlast hbyte.2
  | readData =>
    simp only [clockEdge, hcase]
    exact h hcase
  | receiveCmd => simp only [nextState, hcase] at hstate; split at hstate <;> cases hstate
  | receiveLength => simp only [nextState, hcase] at hstate; split at hstate <;> cases hstate
  | receiveData => simp only [nextState, hcase] at hstate; split at hstate <;> cases hstate
  | writeData =>
    simp only [nextState, hcase] at hstate
    split at hstate
    · split at hstate <;> cases hstate
    · cases hstate

/-- A word that is read is to be sent, and a byte that is sent is not sent again. -/
theorem sent_step (h : s.Aligned) (hintime : s.InTime) (i : Inputs) :
    s.unsent ++ (s.wordRead i).flatMap wordBytes = s.sent ++ (s.clockEdge i).unsent := by
  rw [InTime] at hintime
  cases hcase : s.state with
  | readData =>
    cases hack : i.ack with
    | false => simp [unsent, wordRead, sent, hcase, hack, clockEdge, nextState, hintime]
    | true =>
      have hcount := h hcase
      simp [unsent, wordRead, sent, hcase, hack, clockEdge, nextState, hintime, hcount]
  | sendData =>
    have hunsent : s.unsent = s.sinkData :: (wordBytes s.data).drop (s.bytesCount.toNat + 1) := by
      rw [unsent, if_pos hcase, drop_wordBytes]
    have hnone : s.wordRead i = [] := by simp [wordRead, hcase]
    rw [hunsent, hnone, List.flatMap_nil, List.append_nil]
    cases hready : s.sinkReady with
    | false =>
      rw [← drop_wordBytes]
      simp [unsent, sent, hcase, hready, clockEdge, nextState, hintime]
    | true =>
      cases hlast : s.lastByte with
      | false =>
        have hcount : (s.bytesCount + 1#2).toNat = s.bytesCount.toNat + 1 := by
          rw [lastByte, beq_eq_false_iff_ne, Ne, ← BitVec.toNat_inj] at hlast
          have hlt := s.bytesCount.isLt
          rw [BitVec.toNat_add]
          change s.bytesCount.toNat ≠ 3 at hlast
          change (s.bytesCount.toNat + 1) % 4 = _
          omega
        simp [unsent, sent, hcase, hready, hlast, clockEdge, nextState, hintime, hcount]
      | true =>
        have hcount := bytesCount_of_lastByte hlast
        have hstate : (s.clockEdge i).state ≠ .sendData := by
          simp only [clockEdge, nextState, hcase, hready, hlast, hintime, Bool.and_self, if_true,
            Bool.false_eq_true, if_false]
          split <;> decide
        rw [hcount]
        simp [unsent, sent, hcase, hready, hstate, wordBytes]
  | _ =>
    have hstate : (s.clockEdge i).state ≠ .sendData := by
      simp only [clockEdge, nextState, hcase, hintime, Bool.false_eq_true, if_false]
      split_ifs <;> decide
    simp [unsent, wordRead, sent, hcase, hstate]

theorem Aligned.run (h : s.Aligned) (inputs : List Inputs)
    (hintime : Along clockEdge (fun s _ ↦ s.InTime) s inputs) :
    s.unsent ++ (trace clockEdge wordRead s inputs).flatMap wordBytes =
      trace clockEdge (fun s _ ↦ s.sent) s inputs ++ (run clockEdge s inputs).unsent := by
  have hall := hintime.with_invariant (I := Aligned) (fun _ i haligned _ ↦ haligned.step i) h
  rw [← trace_flatMap]
  exact trace_delay (fun s i hboth ↦ sent_step hboth.1 hboth.2 i) hall

theorem aligned_of_receiveCmd (h : s.state = .receiveCmd) : s.Aligned :=
  fun hread ↦ by cases h.symm.trans hread

theorem unsent_of_receiveCmd (h : s.state = .receiveCmd) : s.unsent = [] := by
  rw [unsent, if_neg]
  exact fun hsend ↦ by cases h.symm.trans hsend

end Answers

/-- **What is read is sent.** The bytes the bridge sends are those of the words it read, the first
word first and each from its highest byte on, up to those of the last word still to be sent. -/
theorem readings_sent {s : UartBridge} (hstate : s.state = .receiveCmd) (inputs : List Inputs)
    (hintime : Along clockEdge (fun s _ ↦ s.InTime) s inputs) :
    (trace clockEdge wordRead s inputs).flatMap wordBytes =
      trace clockEdge (fun s _ ↦ s.sent) s inputs ++ (run clockEdge s inputs).unsent := by
  have hall := (aligned_of_receiveCmd hstate).run inputs hintime
  rwa [unsent_of_receiveCmd hstate, List.nil_append] at hall

/-- A word is read, its first byte is sent, and the other three are still to be. -/
theorem readings_sent_readOne :
    wordBytes 0xcafe1234#32 =
      [0xca#8] ++ (run clockEdge atFirstByte (readOneFront ++ readOneBack)).unsent := by
  have hread : trace clockEdge wordRead atFirstByte (readOneFront ++ readOneBack) =
      [0xcafe1234#32] := by
    rw [readOneFront_trace fun s i ↦ wordRead_of_sourceReady, readOneBack_traces.2.2.1]
  have hsent : trace clockEdge (fun s _ ↦ s.sent) atFirstByte (readOneFront ++ readOneBack) =
      [0xca#8] := by
    rw [readOneFront_trace fun s i ↦ sent_of_sourceReady, readOneBack_traces.2.2.2]
  have hall := readings_sent rfl _ readOne_inTime
  rwa [hread, hsent, List.flatMap_singleton] at hall

/-! ## Quiet on the line -/

/-- The bridge waits for a command, and nothing comes in. -/
structure Waiting (s : UartBridge) : Prop where
  state : s.state = .receiveCmd
  count : s.count = 1000000#20
  regs0 : s.regs0 = true
  regs1 : s.regs1 = true
  rx : s.rx.busy = false

/-- The ticks up to the end of a frame, whatever the count is. -/
def ticksLeft (rx : UartRx) : ℕ := (25 - rx.count.toNat) % 16 + 1

/-- What the phase still has to run through up to the end of a frame. -/
def phaseLeft (rx : UartRx) : ℕ :=
  (ticksLeft rx + 1) * 2 ^ 32 - rx.phase.toNat - (if rx.tick then 2 ^ 32 else 0)

/-- The clocks up to the end of a frame. -/
def receiveRank (rx : UartRx) : ℕ :=
  if rx.busy then phaseLeft rx / dbgUartTuning.toNat + 1 else 0

/-- The clocks up to the time at which the bridge waits, if nothing comes in. -/
def commandRank (s : UartBridge) : ℕ :=
  if s.state = .receiveCmd then if s.count = 1000000#20 then 0 else 1 else s.count.toNat + 2

/-- While a frame comes in the bridge may do anything. -/
def waitRank (s : UartBridge) : ℕ :=
  if s.rx.busy then receiveRank s.rx + 2 ^ 20 + 2 else commandRank s

/-- The clocks after which a quiet line leaves the bridge waiting. -/
def quietClocks : ℕ := 1050057

/-- A tick that is not the last leaves one less. -/
theorem ticksLeft_step {rx : UartRx} (hbusy : rx.busy = true) (hlast : rx.last = false)
    (line : Bool) :
    ticksLeft (rx.clockEdge dbgUartTuning line) + (if rx.tick then 1 else 0) = ticksLeft rx := by
  have hcount : (rx.clockEdge dbgUartTuning line).count =
      if rx.tick then rx.count + 1#4 else rx.count := by simp [UartRx.clockEdge, hbusy]
  have hlt := rx.count.isLt
  rw [ticksLeft, ticksLeft, hcount]
  cases htick : rx.tick with
  | false => rfl
  | true =>
    rw [UartRx.last, hbusy, htick, Bool.true_and, Bool.true_and, beq_nine,
      decide_eq_false_iff_not] at hlast
    rw [if_pos rfl, if_pos rfl, BitVec.toNat_add, show (1#4).toNat = 1 from rfl]
    omega

theorem phaseLeft_step {rx : UartRx} (hbusy : rx.busy = true) (hlast : rx.last = false)
    (line : Bool) :
    phaseLeft (rx.clockEdge dbgUartTuning line) + dbgUartTuning.toNat = phaseLeft rx := by
  have hticks := ticksLeft_step hbusy hlast line
  have hphase := rx.phase.isLt
  have hnext := (rx.clockEdge dbgUartTuning line).phase.isLt
  have htotal : (rx.clockEdge dbgUartTuning line).phase.toNat +
      (if (rx.clockEdge dbgUartTuning line).tick then 2 ^ 32 else 0) =
        rx.phase.toNat + dbgUartTuning.toNat := by
    simpa [UartRx.clockEdge, hbusy] using PhaseAccumulator.total_add rx.phase dbgUartTuning
  have hpos : 0 < ticksLeft (rx.clockEdge dbgUartTuning line) := Nat.succ_pos _
  have htuning := dbgUartTuning.isLt
  rw [phaseLeft, phaseLeft]
  split at hticks <;> split at htotal <;> simp_all <;> omega

/-- A frame under way on a quiet line. -/
theorem receiveRank_step {rx : UartRx} (hbusy : rx.busy = true) (line : Bool) :
    receiveRank (rx.clockEdge dbgUartTuning line) ≤ receiveRank rx - 1 := by
  rw [receiveRank, receiveRank, if_pos hbusy]
  cases hlast : rx.last with
  | true =>
    have hdone : (rx.clockEdge dbgUartTuning line).busy = false := by
      simp [UartRx.clockEdge, hbusy, hlast]
    rw [if_neg (by rw [hdone]; decide)]
    exact Nat.zero_le _
  | false =>
    have hleft := phaseLeft_step hbusy hlast line
    rw [← hleft, Nat.add_div_right _ (by decide)]
    split <;> omega

theorem receiveRank_le (rx : UartRx) : receiveRank rx ≤ 1476 := by
  rw [receiveRank]
  split
  · have hleft : phaseLeft rx ≤ 17 * 2 ^ 32 := by
      rw [phaseLeft, ticksLeft]
      omega
    have hdiv := Nat.div_le_div_right (c := dbgUartTuning.toNat) hleft
    have hvalue : 17 * 2 ^ 32 / dbgUartTuning.toNat = 1475 := by decide
    omega
  · omega

theorem rxSource_of_not_busy {s : UartBridge} (h : s.rx.busy = false) : s.rxSource = none := by
  simp [rxSource, UartRx.sourceValid, UartRx.last, h]

theorem nextState_of_receiveCmd {s : UartBridge} (h : s.rx.busy = false)
    (hstate : s.state = .receiveCmd) (i : Inputs) : (s.clockEdge i).state = .receiveCmd := by
  simp [clockEdge, nextState, hstate, rxSource_of_not_busy h]

/-- Behind a frame the command ends, or its time does. -/
theorem commandRank_step {s : UartBridge} (h : s.rx.busy = false) (i : Inputs) :
    commandRank (s.clockEdge i) ≤ commandRank s - 1 := by
  by_cases hstate : s.state = .receiveCmd
  · have hnext := nextState_of_receiveCmd h hstate i
    have hcount : (s.clockEdge i).count = 1000000#20 := by simp [clockEdge, hstate]
    rw [commandRank, if_pos hnext, if_pos hcount]
    exact Nat.zero_le _
  · rw [commandRank.eq_def s, if_neg hstate]
    cases hdone : s.done with
    | true =>
      have hnext : (s.clockEdge i).state = .receiveCmd := by simp [clockEdge, hdone]
      rw [commandRank, if_pos hnext]
      split <;> omega
    | false =>
      have hcount : (s.clockEdge i).count.toNat + 1 = s.count.toNat := by
        have hnext : (s.clockEdge i).count = s.count - 1#20 := by simp [clockEdge, hstate, hdone]
        rw [done, beq_eq_false_iff_ne, Ne, ← BitVec.toNat_inj] at hdone
        have hpos : 0 < s.count.toNat := Nat.pos_of_ne_zero hdone
        rw [hnext, BitVec.toNat_sub_of_le (BitVec.le_def.2 (show (1#20).toNat ≤ _ from hpos))]
        change s.count.toNat - 1 + 1 = s.count.toNat
        omega
      rw [commandRank]
      split
      · split <;> omega
      · omega

/-- Both registers of the synchronizer show the quiet line. -/
def Settled (s : UartBridge) : Prop := s.regs0 = true ∧ s.regs1 = true

theorem waitRank_step {s : UartBridge} {i : Inputs} (h : s.Settled) (hline : i.dbgUartRx = true) :
    (s.clockEdge i).Settled ∧ waitRank (s.clockEdge i) ≤ waitRank s - 1 := by
  refine ⟨⟨hline, h.1⟩, ?_⟩
  rw [waitRank.eq_def s]
  cases hbusy : s.rx.busy with
  | true =>
    have hdown := receiveRank_step hbusy s.regs1
    have hpos : 0 < receiveRank s.rx := by
      rw [receiveRank, if_pos hbusy]
      exact Nat.succ_pos _
    change receiveRank (s.clockEdge i).rx ≤ _ at hdown
    have hcommand : commandRank (s.clockEdge i) ≤ 2 ^ 20 + 1 := by
      have hlt := (s.clockEdge i).count.isLt
      rw [commandRank]
      split
      · split <;> omega
      · omega
    rw [waitRank, if_pos rfl]
    split <;> omega
  | false =>
    have hidle : (s.clockEdge i).rx.busy = false := by
      change (s.rx.clockEdge dbgUartTuning s.regs1).busy = false
      simp [UartRx.clockEdge, hbusy, h.2]
    rw [waitRank, hidle, if_neg (by decide), if_neg (by decide)]
    exact commandRank_step hbusy i

theorem waiting_of_waitRank {s : UartBridge} (h : s.Settled) (hrank : waitRank s = 0) :
    s.Waiting := by
  rw [waitRank] at hrank
  split at hrank
  · omega
  · next hbusy =>
    rw [commandRank] at hrank
    split at hrank
    · next hstate =>
      split at hrank
      · next hcount => exact ⟨hstate, hcount, h.1, h.2, Bool.eq_false_iff.2 hbusy⟩
      · omega
    · omega

/-- **Quiet on the line.** Whatever state the bridge is in, in the middle of a command, of a byte or
of an access, or with any contents of its registers: when the line has been quiet for
`quietClocks`, it waits for a command, with its whole time before it. -/
theorem quiet_waiting (s : UartBridge) (inputs : List Inputs)
    (hquiet : ∀ i ∈ inputs, i.dbgUartRx = true) (hlong : quietClocks ≤ inputs.length) :
    (run clockEdge s inputs).Waiting := by
  rw [quietClocks] at hlong
  obtain ⟨front, rest, rfl, hfront, -⟩ := exists_append_of_length (m := 2)
    (n := inputs.length - 2) (show inputs.length = 2 + (inputs.length - 2) by omega)
  obtain ⟨i₀, i₁, rfl⟩ := List.length_eq_two.1 hfront
  have hsettled : ((s.clockEdge i₀).clockEdge i₁).Settled :=
    ⟨hquiet i₁ (by simp), hquiet i₀ (by simp)⟩
  have hrest : Along clockEdge (fun _ i ↦ i.dbgUartRx = true)
      ((s.clockEdge i₀).clockEdge i₁) rest :=
    along_of_forall fun i hi ↦ hquiet i (by simp [hi])
  have hrank : waitRank (run clockEdge ((s.clockEdge i₀).clockEdge i₁) rest) ≤
      waitRank ((s.clockEdge i₀).clockEdge i₁) - rest.length :=
    rank_run waitRank (fun _ _ h hline ↦ waitRank_step h hline) hsettled hrest
  have hend : (run clockEdge ((s.clockEdge i₀).clockEdge i₁) rest).Settled :=
    invariant_run (I := Settled) (fun _ _ h hline ↦ (waitRank_step h hline).1) hsettled hrest
  apply waiting_of_waitRank hend
  have hbound : waitRank ((s.clockEdge i₀).clockEdge i₁) ≤ 1476 + 2 ^ 20 + 2 := by
    have hreceive := receiveRank_le ((s.clockEdge i₀).clockEdge i₁).rx
    have hlt := ((s.clockEdge i₀).clockEdge i₁).count.isLt
    rw [waitRank]
    split
    · omega
    · rw [commandRank]
      split
      · split <;> omega
      · omega
  rw [List.length_append, hfront] at hlong
  omega

theorem quiet_waiting_atFirstByte :
    (run clockEdge atFirstByte (List.replicate quietClocks ⟨true, false, 0#32⟩)).Waiting := by
  refine quiet_waiting atFirstByte _ (fun i hi ↦ ?_) (by rw [List.length_replicate])
  rw [List.eq_of_mem_replicate hi]

end UartBridge

end CaravelSoc.Management
