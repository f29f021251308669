import CaravelSoc.Firmware.FlashExchange

/-!
# When the flash worker exchanges the whole buffer

One word or two are exchanged as they should be. After them a slot sends back what
came in during the slot before, but for one in every 2^27, and apart from the
first and the last word only those of such slots are stored. That this goes
unnoticed takes one and the same word in all the slots: received in every slot
after the first, and in the buffer after the second.
-/

open Rv32 Sequential ShiftRegister

namespace CaravelSoc.Firmware

/-! ## The words sent and stored, and the words that should have been -/

section Words

variable {w r : ℕ → BitVec 32} {m i j : ℕ}

/-- The words of the buffer go out, and those received come to hold their places. -/
structure Whole (w r : ℕ → BitVec 32) (m : ℕ) : Prop where
  sent : ∀ i < m, sentWord w r i = w i
  held : ∀ i < m, finalWord w r m i = r i

/-- After the first slot always the same word comes in, and after the second one it is what the
buffer holds. -/
def Constant (w r : ℕ → BitVec 32) (m : ℕ) : Prop :=
  ∃ word, (∀ i, 1 ≤ i → i < m → r i = word) ∧ ∀ i, 2 ≤ i → i < m → w i = word

theorem constant_of_le_two (hm : m ≤ 2) : Constant w r m := by
  refine ⟨r 1, fun i hi him ↦ ?_, fun i hi him ↦ absurd him (by omega)⟩
  have hone : i = 1 := by omega
  rw [hone]

theorem sentWord_of_constant (h : Constant w r m) (hi : i < m) : sentWord w r i = w i := by
  obtain ⟨word, hr, hw⟩ := h
  cases i with
  | zero => rfl
  | succ k =>
    rw [sentWord_succ]
    by_cases hzero : k = 0
    · rw [hzero, if_pos (Nat.dvd_zero _), Nat.zero_div]
    · rw [hw (k + 1) (by omega) hi]
      split
      · next hdue => exact hw _ (by omega) (by omega)
      · exact hr k (by omega) (by omega)

theorem finalWord_of_constant (h : Constant w r m) (hi : i < m) : finalWord w r m i = r i := by
  obtain ⟨word, hr, hw⟩ := h
  have hsecond : 1 < stored m ↔ 2 ^ 27 * 1 < m := lt_stored_iff
  unfold finalWord
  by_cases hzero : i = 0
  · rw [hzero, if_pos (lt_stored_iff.2 (by omega)), Nat.mul_zero]
  · rw [hr i (by omega) hi]
    by_cases hstored : i < stored m
    · rw [if_pos hstored]
      exact hr _ (by omega) (lt_stored_iff.1 hstored)
    · have hfirst : 0 < stored m := lt_stored_iff.2 (by omega)
      rw [if_neg hstored]
      split
      · exact hr (m - 1) (by omega) (by omega)
      · next hlast => exact hw i (by omega) hi

/-- A word that stays the same from each slot to the next. -/
theorem eq_of_chain (hij : i ≤ j) (h : ∀ k, i < k → k ≤ j → r k = r (k - 1)) : r j = r i := by
  induction j, hij using Nat.le_induction with
  | base => rfl
  | succ j hij ih =>
    rw [h (j + 1) (by omega) le_rfl, Nat.add_sub_cancel]
    exact ih fun k hlo hk ↦ h k hlo (by omega)

namespace Whole

/-- The word received in a slot is the one the buffer holds for the next. -/
theorem next (h : Whole w r m) (hi : i + 1 < m) (hdue : ¬2 ^ 27 ∣ i) : r i = w (i + 1) := by
  rw [← h.sent (i + 1) hi, sentWord_succ, if_neg hdue]

/-- The word that is loaded at a zero is the one the buffer holds for the next slot. -/
theorem load (h : Whole w r m) (hj : 2 ^ 27 * j + 1 < m) : w (j + 1) = w (2 ^ 27 * j + 1) := by
  rw [← h.sent (2 ^ 27 * j + 1) hj, sentWord_succ, if_pos (Nat.dvd_mul_right _ _),
    Nat.mul_div_cancel_left _ (by decide)]

theorem place (h : Whole w r m) (hi : i < stored m) : r (2 ^ 27 * i) = r i := by
  rw [← h.held i (Nat.lt_of_lt_of_le hi (stored_le m)), finalWord, if_pos hi]

/-- Past the last word that is stored, the buffer still holds what it held. -/
theorem keep (h : Whole w r m) (hlo : stored m < i) (hi : i < m) : w i = r i := by
  rw [← h.held i hi, finalWord, if_neg (by omega), if_neg (by omega)]

theorem back (h : Whole w r m) (hlo : stored m < i) (hi : i < m) (hdue : ¬2 ^ 27 ∣ i - 1) :
    r i = r (i - 1) := by
  rw [h.next (by omega) hdue, Nat.sub_add_cancel (by omega)]
  exact (h.keep hlo hi).symm

/-- The words received up to the second zero. -/
theorem early (h : Whole w r m) (hlo : stored m ≤ i) (hhi : i ≤ 2 ^ 27) (hi : i < m) :
    r i = r (stored m) := by
  have hfirst : 0 < stored m := lt_stored_iff.2 (by omega)
  apply eq_of_chain hlo
  intro k hk hki
  exact h.back hk (by omega) (by omega)

variable (hbound : m < 2 ^ 30)

include hbound

theorem stored_le_eight : stored m ≤ 8 := by
  have hnot : ¬8 < stored m := fun hlt ↦ absurd (lt_stored_iff.1 hlt) (by omega)
  omega

/-- Between two zeros all slots receive the word of one near the start. -/
theorem segment (h : Whole w r m) (hj : 1 ≤ j) (hlo : 2 ^ 27 * j < i)
    (hhi : i ≤ 2 ^ 27 * (j + 1)) (hi : i < m) : r i = r j := by
  have height := stored_le_eight hbound
  have hsmall : j < 8 := by omega
  calc
    r i = r (2 ^ 27 * j + 1) := by
      apply eq_of_chain hlo
      intro k hk hki
      exact h.back (by omega) (by omega) (by omega)
    _ = w (2 ^ 27 * j + 1) := (h.keep (by omega) (by omega)).symm
    _ = w (j + 1) := (h.load (by omega)).symm
    _ = r j := (h.next (by omega) (by omega)).symm

/-- The words stored in their places are all the same from the second on. -/
theorem placed (h : Whole w r m) (hi : 1 ≤ i) (hstored : i < stored m) : r i = r 1 := by
  have height := stored_le_eight hbound
  induction i, hi using Nat.le_induction with
  | base => rfl
  | succ i hi ih =>
    have hlt := lt_stored_iff.1 hstored
    calc
      r (i + 1) = r (2 ^ 27 * (i + 1)) := (h.place hstored).symm
      _ = r i := h.segment hbound hi (by omega) le_rfl hlt
      _ = r 1 := ih (by omega)

theorem stored_word (h : Whole w r m) (hm : stored m < m) : r (stored m) = r 1 := by
  have height := stored_le_eight hbound
  have hfirst : 0 < stored m := lt_stored_iff.2 (by omega)
  by_cases hone : stored m = 1
  · rw [hone]
  · have hsecond : 1 < stored m := by omega
    have hlt := lt_stored_iff.1 hsecond
    calc
      r (stored m) = r (2 ^ 27) := (h.early (by omega) le_rfl (by omega)).symm
      _ = r 1 := h.place hsecond

theorem received (h : Whole w r m) (hi : 1 ≤ i) (him : i < m) : r i = r 1 := by
  have height := stored_le_eight hbound
  by_cases hlow : i < stored m
  · exact h.placed hbound hi hlow
  · have hword := h.stored_word hbound (by omega)
    by_cases hbelow : i ≤ 2 ^ 27
    · exact (h.early (by omega) hbelow him).trans hword
    · have hplace : (i - 1) / 2 ^ 27 < stored m := lt_stored_iff.2 (by omega)
      calc
        r i = r ((i - 1) / 2 ^ 27) := h.segment hbound (by omega) (by omega) (by omega) him
        _ = r 1 := h.placed hbound (by omega) hplace

/-- If all slots are right, they hold one word. -/
theorem constant (h : Whole w r m) : Constant w r m := by
  have height := stored_le_eight hbound
  refine ⟨r 1, fun i hi him ↦ h.received hbound hi him, fun i hi him ↦ ?_⟩
  by_cases hpast : stored m < i
  · exact (h.keep hpast him).trans (h.received hbound (by omega) him)
  · calc
      w i = w (i - 1 + 1) := by rw [Nat.sub_add_cancel (by omega)]
      _ = r (i - 1) := (h.next (by omega) (by omega)).symm
      _ = r 1 := h.received hbound (by omega) (by omega)

end Whole

/-- The right words go out and come in exactly if there are two at most, or all are the same. -/
theorem whole_iff_constant (hbound : m < 2 ^ 30) : Whole w r m ↔ m ≤ 2 ∨ Constant w r m := by
  constructor
  · intro h
    exact .inr (h.constant hbound)
  · intro h
    have hconstant := h.elim constant_of_le_two id
    exact ⟨fun i hi ↦ sentWord_of_constant hconstant hi,
      fun i hi ↦ finalWord_of_constant hconstant hi⟩

end Words

/-! ## A call -/

section Call

variable {flash : ℕ → BitVec 32} {c c' : Cpu (SpiBus flash)} {m : ℕ}

/-- The words in the buffer at the call. -/
def bufferWord (c : Cpu (SpiBus flash)) (i : ℕ) : BitVec 32 :=
  loadWord c.bus (wordAt (c.get .a0) i)

/-- The words that come in during the slots of a call. -/
def receivedWord (c : Cpu (SpiBus flash)) (i : ℕ) : BitVec 32 :=
  ofBits 32 (Exchange.input flash (c.bus.sent.length + (commandBits c).length + 32 * i) 32)

/-- A call has returned. -/
def Returns (c c' : Cpu (SpiBus flash)) : Prop :=
  Reaches flashioWorker { code := flashioWorker, cpu := c } { code := [], cpu := c' }

/-- After the command some words have been clocked out; in the memory only a buffer of as many
words may have changed, and it holds some words now. -/
structure Transfers (c : Cpu (SpiBus flash)) (m : ℕ) (out held : ℕ → BitVec 32)
    (c' : Cpu (SpiBus flash)) : Prop where
  sent : c'.bus.sent =
    c.bus.sent ++ commandBits c ++ (List.range m).flatMap fun i ↦ msbFirst (out i)
  held : ∀ i < m, loadWord c'.bus (wordAt (c.get .a0) i) = held i
  frame : ∀ a, (∀ j < 4 * m, a ≠ c.get .a0 + BitVec.ofNat 32 j) → c'.bus.ram a = c.bus.ram a

/-- The whole buffer is exchanged: its words are sent in order and replaced by the received ones. -/
def Exchanges (c : Cpu (SpiBus flash)) (m : ℕ) (c' : Cpu (SpiBus flash)) : Prop :=
  Transfers c m (bufferWord c) (receivedWord c) c'

theorem Transfers.length_sent {out held : ℕ → BitVec 32} (h : Transfers c m out held c') :
    c'.bus.sent.length = c.bus.sent.length + (commandBits c).length + 32 * m := by
  rw [h.sent, List.length_append, List.length_append, length_flatMap_msbFirst]

/-- What a call does, whatever the length of the buffer. -/
theorem exists_returns (hn : (c.get .a1).toNat = 4 * m) (hbuffer : IsBuffer (c.get .a0) m) :
    ∃ c', Returns c c' ∧
      Transfers c m (sentWord (bufferWord c) (receivedWord c))
        (finalWord (bufferWord c) (receivedWord c) m) c' := by
  obtain ⟨b, c', hcommand, hreturns, hnone, hsome⟩ := reaches_end c hn
  refine ⟨c', hreturns, ?_⟩
  by_cases hpos : m = 0
  · subst hpos
    obtain ⟨hram, hsent⟩ := hnone rfl
    refine ⟨?_, fun i hi ↦ absurd hi (Nat.not_lt_zero i), fun a _ ↦ ?_⟩
    · rw [hsent, hcommand.sent, List.range_zero, List.flatMap_nil, List.append_nil]
    · rw [hram, hcommand.ram]
  · let x : Exchange flash := { bus := b, word := loadWord b (c.get .a0), pointer := c.get .a0 }
    obtain ⟨hram, hsent⟩ := hsome (by omega)
    have hbits : 8 * (4 * m) = 32 * m := by omega
    rw [hbits] at hram hsent
    have hlength : x.bus.sent.length = c.bus.sent.length + (commandBits c).length := by
      rw [← List.length_append, ← hcommand.sent]
    have hwords : ∀ i < m, loadWord x.bus (wordAt x.pointer i) = bufferWord c i := fun i hi ↦
      loadWord_of_ram hcommand.ram (hbuffer.word_memory hi)
    have hinputs : ∀ i < m,
        receivedWord c i = ofBits 32 (Exchange.input flash (x.bus.sent.length + 32 * i) 32) := by
      intro i _
      rw [hlength, receivedWord]
    have hprogress := Exchange.progress_after (x := x) hbuffer hcommand.manual rfl rfl hwords
      hinputs m le_rfl
    obtain ⟨hout, hheld, hframe⟩ := hprogress.finish hbuffer (Nat.pos_of_ne_zero hpos)
    refine ⟨?_, fun i hi ↦ ?_, fun a ha ↦ ?_⟩
    · rw [hsent, hout, ← hcommand.sent]
    · rw [← hheld i hi]
      exact loadWord_of_ram hram (hbuffer.word_memory hi)
    · rw [hram, hframe a ha, ← hcommand.ram]

/-- A call that returns has exchanged the buffer if the words sent and stored are the right ones. -/
theorem Transfers.exchanges_iff {out held : ℕ → BitVec 32} (h : Transfers c m out held c') :
    Exchanges c m c' ↔
      (∀ i < m, out i = bufferWord c i) ∧ ∀ i < m, held i = receivedWord c i := by
  constructor
  · intro hwhole
    constructor
    · rw [← flatMap_msbFirst_eq_iff]
      exact List.append_cancel_left (h.sent.symm.trans hwhole.sent)
    · intro i hi
      rw [← h.held i hi, hwhole.held i hi]
  · rintro ⟨hout, hheld⟩
    refine ⟨?_, fun i hi ↦ (h.held i hi).trans (hheld i hi), h.frame⟩
    rw [h.sent, (flatMap_msbFirst_eq_iff m out (bufferWord c)).2 hout]

theorem Returns.unique {c'' : Cpu (SpiBus flash)} (h : Returns c c') (h' : Returns c c'') :
    c' = c'' :=
  congrArg State.cpu (h.ret_unique h' rfl rfl)

/-- The buffer is exchanged exactly if its words are sent as they are and what comes in is kept. -/
theorem exchanges_iff_whole (hn : (c.get .a1).toNat = 4 * m) (hbuffer : IsBuffer (c.get .a0) m) :
    (∃ c', Returns c c' ∧ Exchanges c m c') ↔ Whole (bufferWord c) (receivedWord c) m := by
  obtain ⟨c', hreturns, htransfers⟩ := exists_returns hn hbuffer
  constructor
  · rintro ⟨c'', hreturns', hexchanges⟩
    rw [← hreturns.unique hreturns', htransfers.exchanges_iff] at hexchanges
    exact ⟨hexchanges.1, hexchanges.2⟩
  · intro hwhole
    exact ⟨c', hreturns, htransfers.exchanges_iff.2 ⟨hwhole.sent, hwhole.held⟩⟩

/-- **The flash worker and the whole buffer.** A call with a multiple of four bytes always returns,
having clocked out as many bits as the buffer has and modified nothing beyond it. It has exchanged
the buffer exactly if there are at most two words, or the flash returns one word in all slots after
the first and the buffer holds that word from the third place on. -/
theorem exchange_of_buffer (c : Cpu (SpiBus flash)) (m : ℕ)
    (hn : (c.get .a1).toNat = 4 * m) (hbuffer : IsBuffer (c.get .a0) m) :
    ((∃ c', Returns c c' ∧ Exchanges c m c') ↔
        m ≤ 2 ∨ Constant (bufferWord c) (receivedWord c) m) ∧
      ∃ c', Returns c c' ∧
        c'.bus.sent.length = c.bus.sent.length + (commandBits c).length + 8 * (4 * m) ∧
        ∀ a, (∀ j < 4 * m, a ≠ c.get .a0 + BitVec.ofNat 32 j) →
          c'.bus.ram a = c.bus.ram a := by
  have hbound : m < 2 ^ 30 := by
    have hfits := hbuffer.fits
    omega
  refine ⟨(exchanges_iff_whole hn hbuffer).trans (whole_iff_constant hbound), ?_⟩
  obtain ⟨c', hreturns, htransfers⟩ := exists_returns hn hbuffer
  refine ⟨c', hreturns, ?_, htransfers.frame⟩
  rw [htransfers.length_sent]
  omega

/-- A call without a command, for a buffer at address 0 that holds the numbers from 1 on, with a
flash that returns zeros only. -/
def zerosCall (bytes : BitVec 32) : Cpu (SpiBus fun _ ↦ 0#32) where
  regs r := if r = .a1 then bytes else 0#32
  bus :=
    { ram := fun a ↦ if a.toNat % 4 = 0 then BitVec.ofNat 8 (a.toNat / 4 + 1) else 0#8
      ctrl := 0x80000000#32
      sent := [] }

theorem exchange_of_buffer_twoWordsExample :
    ∃ c', Returns (zerosCall 8#32) c' ∧ Exchanges (zerosCall 8#32) 2 c' := by
  have hbuffer : IsBuffer ((zerosCall 8#32).get .a0) 2 := ⟨by decide, by decide⟩
  exact (exchange_of_buffer (zerosCall 8#32) 2 rfl hbuffer).1.2 (.inl le_rfl)

/-- Instead of the third word the one received in the second slot goes out. -/
theorem exchange_of_three_words :
    ((zerosCall 12#32).get .a1).toNat = 4 * 3 ∧ IsBuffer ((zerosCall 12#32).get .a0) 3 ∧
      ¬∃ c', Returns (zerosCall 12#32) c' ∧ Exchanges (zerosCall 12#32) 3 c' := by
  have hbuffer : IsBuffer ((zerosCall 12#32).get .a0) 3 := ⟨by decide, by decide⟩
  refine ⟨rfl, hbuffer, ?_⟩
  rw [exchanges_iff_whole rfl hbuffer]
  intro hwhole
  have hreceived : receivedWord (zerosCall 12#32) 1 = 0#32 := by decide +kernel
  have hbuffered : bufferWord (zerosCall 12#32) 2 = 3#32 := by decide
  have hthird := hwhole.sent 2 (by decide)
  rw [sentWord_succ, if_neg (by decide), hreceived, hbuffered] at hthird
  exact absurd hthird (by decide)

end Call

end CaravelSoc.Firmware
