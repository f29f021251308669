import CaravelSoc.Firmware.FlashioRun

/-!
# What the flash worker exchanges

The counter for the bits of a word is set before the first word only. It passes
zero after that word, and then again every 2^27 words. Only there a word is stored
where it belongs and the next one loaded; everywhere else the word that came in is
sent back in the next slot, and the last one is stored in the place that is due.
-/

open Rv32 Sequential ShiftRegister

namespace CaravelSoc.Firmware

variable {flash : ℕ → BitVec 32}

/-! ## The memory -/

namespace SpiBus

variable {b : SpiBus flash} {a : BitVec 32}

theorem write_of_memory (h : isCtrl a = false) (v : BitVec 8) :
    Bus.write b a v = { b with ram := Function.update b.ram a v } := by
  change (if isCtrl a then _ else _) = _
  rw [h, if_neg Bool.false_ne_true]

theorem isMemory : IsMemory (SpiBus flash) fun a ↦ isCtrl a = false where
  read_write_self b a v h := by
    rw [write_of_memory h]
    change (if isCtrl a then _ else Function.update b.ram a v a) = v
    rw [h, if_neg Bool.false_ne_true, Function.update_self]
  read_write_of_ne b a a' v h hne := by
    rw [write_of_memory h]
    change (if isCtrl a' then _ else Function.update b.ram a v a') = if isCtrl a' then _ else _
    rw [Function.update_of_ne hne]
    rfl

/-- Storing a word in the memory clocks nothing out. -/
theorem storeWord_of_memory (h : ∀ k < 4, isCtrl (a + BitVec.ofNat 32 k) = false)
    (v : BitVec 32) :
    (storeWord b a v).sent = b.sent ∧ (storeWord b a v).ctrl = b.ctrl ∧
      ∀ a', (∀ k < 4, a' ≠ a + BitVec.ofNat 32 k) → (storeWord b a v).ram a' = b.ram a' := by
  obtain ⟨h₀, h₁, h₂, h₃⟩ := forall_bytes (P := fun x ↦ isCtrl x = false) h
  unfold storeWord storeHalf storeByte
  rw [write_of_memory h₀, write_of_memory h₁, write_of_memory h₂, write_of_memory h₃]
  refine ⟨rfl, rfl, fun a' hne ↦ ?_⟩
  obtain ⟨hne₀, hne₁, hne₂, hne₃⟩ := forall_bytes hne
  change Function.update (Function.update (Function.update (Function.update b.ram _ _) _ _) _ _)
    _ _ a' = _
  rw [Function.update_of_ne hne₃, Function.update_of_ne hne₂, Function.update_of_ne hne₁,
    Function.update_of_ne hne₀]

end SpiBus

/-- The address of a word of the buffer. -/
def wordAt (base : BitVec 32) (i : ℕ) : BitVec 32 := base + BitVec.ofNat 32 (4 * i)

/-- A buffer of `m` words, all of them in the memory. -/
structure IsBuffer (base : BitVec 32) (m : ℕ) : Prop where
  fits : 4 * m < 2 ^ 32
  memory : ∀ j < 4 * m, SpiBus.isCtrl (base + BitVec.ofNat 32 j) = false

theorem byte_of_wordAt (base : BitVec 32) (i k : ℕ) :
    wordAt base i + BitVec.ofNat 32 k = base + BitVec.ofNat 32 (4 * i + k) := by
  unfold wordAt
  rw [BitVec.ofNat_add, BitVec.add_assoc]

theorem wordAt_succ (base : BitVec 32) (i : ℕ) : wordAt base i + 4#32 = wordAt base (i + 1) := by
  rw [byte_of_wordAt base i 4]
  rfl

/-- A word in the memory depends on the memory only. -/
theorem loadWord_of_ram {b b' : SpiBus flash} {a : BitVec 32} (h : b'.ram = b.ram)
    (ha : ∀ k < 4, SpiBus.isCtrl (a + BitVec.ofNat 32 k) = false) :
    loadWord b' a = loadWord b a := by
  have hread : ∀ a', SpiBus.isCtrl a' = false → Bus.read b' a' = Bus.read b a' := by
    intro a' ha'
    change (if SpiBus.isCtrl a' then _ else b'.ram a') = if SpiBus.isCtrl a' then _ else b.ram a'
    rw [ha', if_neg Bool.false_ne_true, if_neg Bool.false_ne_true, h]
  obtain ⟨h₀, h₁, h₂, h₃⟩ := forall_bytes (P := fun x ↦ SpiBus.isCtrl x = false) ha
  unfold loadWord
  rw [hread _ h₃, hread _ h₂, hread _ h₁, hread _ h₀]

namespace IsBuffer

variable {base : BitVec 32} {m i i' : ℕ} {b : SpiBus flash} {v : BitVec 32}

theorem word_memory (h : IsBuffer base m) (hi : i < m) :
    ∀ k < 4, SpiBus.isCtrl (wordAt base i + BitVec.ofNat 32 k) = false := by
  intro k hk
  rw [byte_of_wordAt]
  exact h.memory _ (by omega)

theorem byte_ne (h : IsBuffer base m) {j j' : ℕ} (hj : j < 4 * m) (hj' : j' < 4 * m)
    (hne : j ≠ j') : base + BitVec.ofNat 32 j ≠ base + BitVec.ofNat 32 j' := by
  have hfits := h.fits
  intro heq
  have hsame := congrArg BitVec.toNat ((BitVec.add_right_inj base).1 heq)
  rw [BitVec.toNat_ofNat, BitVec.toNat_ofNat, Nat.mod_eq_of_lt (by omega),
    Nat.mod_eq_of_lt (by omega)] at hsame
  exact hne hsame

/-- A word of the buffer after another one, or itself, has been stored. -/
theorem loadWord_storeWord (h : IsBuffer base m) (hi : i < m) (hi' : i' < m) :
    loadWord (storeWord b (wordAt base i) v) (wordAt base i') =
      if i' = i then v else loadWord b (wordAt base i') := by
  by_cases hsame : i' = i
  · rw [if_pos hsame, hsame]
    exact SpiBus.isMemory.loadWord_storeWord_self (h.word_memory hi)
  · rw [if_neg hsame]
    refine SpiBus.isMemory.loadWord_storeWord_of_ne (h.word_memory hi) fun k hk k' hk' ↦ ?_
    rw [byte_of_wordAt, byte_of_wordAt]
    exact h.byte_ne (by omega) (by omega) (by omega)

/-- Outside the buffer nothing is stored. -/
theorem ram_storeWord (h : IsBuffer base m) (hi : i < m) {a : BitVec 32}
    (ha : ∀ j < 4 * m, a ≠ base + BitVec.ofNat 32 j) :
    (storeWord b (wordAt base i) v).ram a = b.ram a := by
  refine (SpiBus.storeWord_of_memory (h.word_memory hi) v).2.2 a fun k hk ↦ ?_
  rw [byte_of_wordAt]
  exact ha _ (by omega)

end IsBuffer

/-! ## One word -/

namespace Exchange

variable {x y : Exchange flash} {k q : ℕ}

/-- The bits that come in after the first `sent` ones have gone out. -/
def input (flash : ℕ → BitVec 32) (sent count : ℕ) : List Bool :=
  (List.range count).map fun j ↦ (flash (sent + j + 1)).getLsbD 1

theorem input_succ (sent count : ℕ) :
    input flash sent (count + 1) = input flash sent count ++ [(flash (sent + count + 1)).getLsbD 1]
    := by
  unfold input
  rw [List.range_succ, List.map_append]
  rfl

/-- Some bits of a word have been exchanged. -/
structure Shifted (x : Exchange flash) (count : ℕ) (y : Exchange flash) : Prop where
  sends : x.bus.Sends ((msbFirst x.word).take count) y.bus
  word : y.word = (input flash x.bus.sent.length count).foldl BitVec.shiftConcat x.word
  pointer : y.pointer = x.pointer

/-- After fewer bits than a word has, the top bit is the next one of the word that was loaded. -/
theorem Shifted.clock {count : ℕ} (h : Shifted x count y) (hcount : count < 32) :
    Shifted x (count + 1) y.clock := by
  have hlength : (input flash x.bus.sent.length count).length = count := by simp [input]
  have htop : y.word.msb = x.word.getMsbD count := by
    rw [BitVec.msb_eq_getLsbD_last, h.word, getLsbD_foldl_shiftConcat _ _ _ (by omega), hlength,
      if_neg (by omega), BitVec.getMsbD_eq_getLsbD, decide_eq_true hcount, Bool.true_and]
  have hbit := SpiBus.sends_bit h.sends.manual y.word.msb
  have hsent : ((y.bus.lower y.word.msb).raise y.word.msb).sent.length =
      x.bus.sent.length + count + 1 := by
    rw [hbit.sent, h.sends.sent]
    simp [Nat.min_eq_left hcount.le, Nat.add_assoc]
  refine ⟨?_, ?_, h.pointer⟩
  · rw [take_succ_msbFirst _ _ hcount, ← htop]
    exact h.sends.trans hbit
  · rw [input_succ, List.foldl_append, ← h.word, ← hsent]
    rfl

theorem shifted_zero (h : x.bus.Manual) : Shifted x 0 x where
  sends := ⟨rfl, (List.append_nil _).symm, h⟩
  word := rfl
  pointer := rfl

theorem bitsLeft_ne_zero (count : ℕ) (hpos : 0 < count) (hcount : count < 32) :
    bitsLeft (32 * k + count) ≠ 0#32 := by
  rw [ne_eq, bitsLeft_eq_zero_iff]
  omega

/-- After a whole word, `t5` is zero if the number of the word is a multiple of 2^27. -/
theorem bitsLeft_word : bitsLeft (32 * (k + 1)) = 0#32 ↔ 2 ^ 27 ∣ k := by
  rw [bitsLeft_eq_zero_iff]
  omega

theorem shifted_after (hmanual : (x.after (32 * k)).bus.Manual) {count : ℕ} (hcount : count < 32) :
    Shifted (x.after (32 * k)) count (x.after (32 * k + count)) := by
  induction count with
  | zero => exact shifted_zero hmanual
  | succ count ih =>
    have hclock := (ih (by omega)).clock (by omega)
    have hbit : x.after (32 * k + (count + 1)) = (x.after (32 * k + count)).clock :=
      if_neg (bitsLeft_ne_zero (count + 1) (by omega) hcount)
    rw [hbit]
    exact hclock

/-- A word: 32 bits, and the reload if it is due. -/
theorem after_word (hmanual : (x.after (32 * k)).bus.Manual) :
    ∃ y, Shifted (x.after (32 * k)) 32 y ∧
      x.after (32 * (k + 1)) = if 2 ^ 27 ∣ k then y.reload else y := by
  refine ⟨(x.after (32 * k + 31)).clock, (shifted_after hmanual (by decide)).clock (by decide), ?_⟩
  change (if bitsLeft (32 * (k + 1)) = 0#32 then (x.after (32 * k + 31)).clock.reload
    else (x.after (32 * k + 31)).clock) = _
  simp only [bitsLeft_word]

end Exchange

/-! ## All words -/

/-- The word that goes out in a slot, for a buffer `w` and received words `r`. -/
def sentWord (w r : ℕ → BitVec 32) : ℕ → BitVec 32
  | 0 => w 0
  | k + 1 => if 2 ^ 27 ∣ k then w (k / 2 ^ 27 + 1) else r k

/-- How many words have been stored in their places after a number of slots. -/
def stored : ℕ → ℕ
  | 0 => 0
  | k + 1 => k / 2 ^ 27 + 1

/-- The buffer when the routine returns after `m` slots. -/
def finalWord (w r : ℕ → BitVec 32) (m i : ℕ) : BitVec 32 :=
  if i < stored m then r (2 ^ 27 * i)
  else if i = stored m ∧ ¬2 ^ 27 ∣ m - 1 then r (m - 1)
  else w i

theorem sentWord_succ (w r : ℕ → BitVec 32) (k : ℕ) :
    sentWord w r (k + 1) = if 2 ^ 27 ∣ k then w (k / 2 ^ 27 + 1) else r k := rfl

theorem stored_le (k : ℕ) : stored k ≤ k := by
  cases k with
  | zero => exact le_rfl
  | succ k => exact Nat.succ_le_succ (Nat.div_le_self k _)

/-- The words that are stored in their places are those of the slots that end at a zero. -/
theorem lt_stored_iff {m i : ℕ} : i < stored m ↔ 2 ^ 27 * i < m := by
  cases m with
  | zero => exact iff_of_false (Nat.not_lt_zero _) (Nat.not_lt_zero _)
  | succ k =>
    change i < k / 2 ^ 27 + 1 ↔ 2 ^ 27 * i < k + 1
    omega

/-- One more word is stored where `t5` is zero, the one of the slot that ends there. -/
theorem stored_succ (k : ℕ) :
    stored (k + 1) = if 2 ^ 27 ∣ k then stored k + 1 else stored k := by
  cases k with
  | zero => rfl
  | succ k =>
    change (k + 1) / 2 ^ 27 + 1 = if 2 ^ 27 ∣ k + 1 then k / 2 ^ 27 + 1 + 1 else k / 2 ^ 27 + 1
    split <;> omega

theorem stored_mul (k : ℕ) (h : 2 ^ 27 ∣ k) : 2 ^ 27 * stored k = k := by
  cases k with
  | zero => rfl
  | succ k =>
    change 2 ^ 27 * (k / 2 ^ 27 + 1) = k + 1
    omega

namespace Exchange

variable {x : Exchange flash} {base : BitVec 32} {m : ℕ} {w r : ℕ → BitVec 32}

/-- The transfer after `k` of `m` words. -/
structure Progress (x : Exchange flash) (base : BitVec 32) (m : ℕ) (w r : ℕ → BitVec 32) (k : ℕ)
    (y : Exchange flash) : Prop where
  manual : y.bus.Manual
  sent : y.bus.sent = x.bus.sent ++ (List.range k).flatMap fun j ↦ msbFirst (sentWord w r j)
  pointer : y.pointer = wordAt base (stored k)
  buffer : ∀ i < m, loadWord y.bus (wordAt base i) = if i < stored k then r (2 ^ 27 * i) else w i
  frame : ∀ a, (∀ j < 4 * m, a ≠ base + BitVec.ofNat 32 j) → y.bus.ram a = x.bus.ram a
  word : k < m → y.word = sentWord w r k
  received : 0 < k → ¬2 ^ 27 ∣ k - 1 → y.word = r (k - 1)

theorem progress_zero (hmanual : x.bus.Manual) (hpointer : x.pointer = base)
    (hword : x.word = loadWord x.bus base)
    (hw : ∀ i < m, loadWord x.bus (wordAt base i) = w i) : Progress x base m w r 0 x where
  manual := hmanual
  sent := by simp
  pointer := by
    rw [hpointer]
    exact (BitVec.add_zero base).symm
  buffer i hi := by
    rw [hw i hi]
    rfl
  frame _ _ := rfl
  word hm := by
    rw [hword]
    calc
      loadWord x.bus base = loadWord x.bus (wordAt base 0) := by
        rw [wordAt, Nat.mul_zero, BitVec.add_zero]
      _ = w 0 := hw 0 hm
  received h := absurd h (Nat.lt_irrefl 0)

/-- The transfer after the bits of word `k`, before the reload if one is due. -/
structure Received (x : Exchange flash) (base : BitVec 32) (m : ℕ) (w r : ℕ → BitVec 32) (k : ℕ)
    (y : Exchange flash) : Prop where
  manual : y.bus.Manual
  sent : y.bus.sent =
    x.bus.sent ++ (List.range (k + 1)).flatMap fun j ↦ msbFirst (sentWord w r j)
  pointer : y.pointer = wordAt base (stored k)
  buffer : ∀ i < m, loadWord y.bus (wordAt base i) = if i < stored k then r (2 ^ 27 * i) else w i
  frame : ∀ a, (∀ j < 4 * m, a ≠ base + BitVec.ofNat 32 j) → y.bus.ram a = x.bus.ram a
  word : y.word = r k

theorem Progress.receive {k : ℕ} (hbuffer : IsBuffer base m)
    (hr : ∀ i < m, r i = ofBits 32 (input flash (x.bus.sent.length + 32 * i) 32))
    (h : Progress x base m w r k (x.after (32 * k))) (hk : k < m) :
    ∃ y, Received x base m w r k y ∧
      x.after (32 * (k + 1)) = if 2 ^ 27 ∣ k then y.reload else y := by
  obtain ⟨y, hshifted, hafter⟩ := after_word h.manual
  have hall : (msbFirst (sentWord w r k)).take 32 = msbFirst (sentWord w r k) := by
    rw [List.take_of_length_le]
    simp
  refine ⟨y, ⟨hshifted.sends.manual, ?_, hshifted.pointer.trans h.pointer, ?_, ?_, ?_⟩, hafter⟩
  · rw [hshifted.sends.sent, h.sent, h.word hk, hall, List.range_succ, List.flatMap_append,
      List.flatMap_singleton, List.append_assoc]
  · intro i hi
    rw [← h.buffer i hi]
    exact loadWord_of_ram hshifted.sends.ram (hbuffer.word_memory hi)
  · intro a ha
    rw [hshifted.sends.ram, h.frame a ha]
  · rw [hshifted.word, hr k hk, foldl_shiftConcat_eq_ofBits _ (by simp [input]), h.sent,
      List.length_append, length_flatMap_msbFirst]

/-- Where `t5` is zero, the received word is stored in its place and the next one loaded. -/
theorem Received.reload {k : ℕ} {y : Exchange flash} (hbuffer : IsBuffer base m)
    (h : Received x base m w r k y) (hk : k < m) (hdue : 2 ^ 27 ∣ k) :
    Progress x base m w r (k + 1) y.reload := by
  have hplace : stored k < m := Nat.lt_of_le_of_lt (stored_le k) hk
  have hnext : stored (k + 1) = stored k + 1 := by rw [stored_succ, if_pos hdue]
  have hbus : y.reload.bus = storeWord y.bus (wordAt base (stored k)) (r k) := by
    rw [← h.pointer, ← h.word]
    rfl
  obtain ⟨hsent, hctrl, -⟩ := SpiBus.storeWord_of_memory (b := y.bus)
    (hbuffer.word_memory hplace) (r k)
  have hloads : ∀ i < m, loadWord y.reload.bus (wordAt base i) =
      if i < stored (k + 1) then r (2 ^ 27 * i) else w i := by
    intro i hi
    rw [hbus, hbuffer.loadWord_storeWord hplace hi, h.buffer i hi, hnext]
    by_cases hhere : i = stored k
    · rw [if_pos hhere, if_pos (by omega), hhere, stored_mul k hdue]
    · rw [if_neg hhere]
      exact if_congr (by omega) rfl rfl
  refine ⟨?_, ?_, ?_, hloads, ?_, ?_, ?_⟩
  · rw [SpiBus.Manual, hbus, hctrl]
    exact h.manual
  · rw [hbus, hsent, h.sent]
  · change y.pointer + 4#32 = _
    rw [h.pointer, wordAt_succ, hnext]
  · intro a ha
    rw [hbus, hbuffer.ram_storeWord hplace ha, h.frame a ha]
  · intro hk'
    have hlt : stored (k + 1) < m := Nat.lt_of_le_of_lt (stored_le _) hk'
    calc
      y.reload.word = loadWord y.reload.bus (y.pointer + 4#32) := rfl
      _ = loadWord y.reload.bus (wordAt base (stored (k + 1))) := by
        rw [h.pointer, wordAt_succ, hnext]
      _ = w (stored (k + 1)) := by rw [hloads _ hlt, if_neg (Nat.lt_irrefl _)]
      _ = sentWord w r (k + 1) := by
        rw [sentWord_succ, if_pos hdue]
        rfl
  · intro _ hnot
    exact absurd hdue hnot

/-- Everywhere else the received word stays where the next one is taken from. -/
theorem Received.keep {k : ℕ} {y : Exchange flash} (h : Received x base m w r k y)
    (hdue : ¬2 ^ 27 ∣ k) : Progress x base m w r (k + 1) y := by
  have hnext : stored (k + 1) = stored k := by rw [stored_succ, if_neg hdue]
  refine ⟨h.manual, h.sent, ?_, ?_, h.frame, ?_, fun _ _ ↦ h.word⟩
  · rw [h.pointer, hnext]
  · rw [hnext]
    exact h.buffer
  · intro _
    rw [h.word, sentWord_succ, if_neg hdue]

theorem Progress.next {k : ℕ} (hbuffer : IsBuffer base m)
    (hr : ∀ i < m, r i = ofBits 32 (input flash (x.bus.sent.length + 32 * i) 32))
    (h : Progress x base m w r k (x.after (32 * k))) (hk : k < m) :
    Progress x base m w r (k + 1) (x.after (32 * (k + 1))) := by
  obtain ⟨y, hreceived, hafter⟩ := h.receive hbuffer hr hk
  rw [hafter]
  split
  · next hdue => exact hreceived.reload hbuffer hk hdue
  · next hdue => exact hreceived.keep hdue

/-- The transfer as a whole. -/
theorem progress_after (hbuffer : IsBuffer base m) (hmanual : x.bus.Manual)
    (hpointer : x.pointer = base) (hword : x.word = loadWord x.bus base)
    (hw : ∀ i < m, loadWord x.bus (wordAt base i) = w i)
    (hr : ∀ i < m, r i = ofBits 32 (input flash (x.bus.sent.length + 32 * i) 32)) (k : ℕ)
    (hk : k ≤ m) : Progress x base m w r k (x.after (32 * k)) := by
  induction k with
  | zero => exact progress_zero hmanual hpointer hword hw
  | succ k ih => exact (ih (by omega)).next hbuffer hr hk

/-- What is left in the buffer and what has been sent when the routine returns. -/
theorem Progress.finish (hbuffer : IsBuffer base m) (hm : 0 < m) {y : Exchange flash}
    (h : Progress x base m w r m y) :
    (y.finish (32 * m)).sent =
        x.bus.sent ++ (List.range m).flatMap (fun j ↦ msbFirst (sentWord w r j)) ∧
      (∀ i < m, loadWord (y.finish (32 * m)) (wordAt base i) = finalWord w r m i) ∧
      ∀ a, (∀ j < 4 * m, a ≠ base + BitVec.ofNat 32 j) →
        (y.finish (32 * m)).ram a = x.bus.ram a := by
  obtain ⟨k, rfl⟩ : ∃ k, m = k + 1 := Nat.exists_eq_succ_of_ne_zero hm.ne'
  have hzero : bitsLeft (32 * (k + 1)) = 0#32 ↔ 2 ^ 27 ∣ k := bitsLeft_word
  unfold finish finalWord
  rw [Nat.add_sub_cancel]
  by_cases hdue : 2 ^ 27 ∣ k
  · rw [if_pos (hzero.2 hdue)]
    refine ⟨h.sent, fun i hi ↦ ?_, h.frame⟩
    rw [h.buffer i hi]
    simp only [hdue, not_true_eq_false, and_false, if_false]
  · have hplace : stored (k + 1) < k + 1 := by
      change k / 2 ^ 27 + 1 < k + 1
      omega
    rw [if_neg fun hleft ↦ hdue (hzero.1 hleft), h.pointer, h.received hm hdue, Nat.add_sub_cancel]
    refine ⟨?_, fun i hi ↦ ?_, fun a ha ↦ ?_⟩
    · rw [(SpiBus.storeWord_of_memory (hbuffer.word_memory hplace) _).1, h.sent]
    · rw [hbuffer.loadWord_storeWord hplace hi, h.buffer i hi]
      simp only [hdue, not_false_eq_true, and_true]
      by_cases hhere : i = stored (k + 1)
      · simp [hhere]
      · simp [hhere]
    · rw [hbuffer.ram_storeWord hplace ha, h.frame a ha]

end Exchange

end CaravelSoc.Firmware
