import CaravelSoc.Sequential.ShiftRegister

/-!
# Words in a bit stream

A serial receiver collects the bits of a stream in a shift register, most
significant bit first, and hands on a word whenever the register is full. Here a
stream of any length is its complete words and the bits of a last incomplete one,
and both are followed as the stream grows by one bit.
-/

namespace Sequential

open ShiftRegister

/-- The word that a list of bits leaves in a shift register. -/
def ofBits (n : ℕ) (bits : List Bool) : BitVec n := bits.foldl BitVec.shiftConcat 0#n

/-- The complete words of a stream, in the order of arrival. -/
def words (n : ℕ) (bits : List Bool) : List (BitVec n) :=
  (List.range (bits.length / n)).map fun i ↦ ofBits n ((bits.drop (n * i)).take n)

/-- The bits after the last complete word. -/
def partialWord (n : ℕ) (bits : List Bool) : List Bool := bits.drop (n * (bits.length / n))

variable {n : ℕ} {bits : List Bool} {bit : Bool}

/-- Once it is full, the register holds the word whatever it held before. -/
theorem foldl_shiftConcat_eq_ofBits (old : BitVec n) (h : n ≤ bits.length) :
    bits.foldl BitVec.shiftConcat old = ofBits n bits :=
  foldl_shiftConcat_eq_of_length old 0#n bits h

@[simp]
theorem words_nil : words n [] = [] := by simp [words]

@[simp]
theorem partialWord_nil : partialWord n [] = [] := by simp [partialWord]

theorem length_partialWord (bits : List Bool) :
    (partialWord n bits).length = bits.length % n := by
  rw [partialWord, List.length_drop, Nat.mod_eq_sub]

theorem length_partialWord_lt (hn : 0 < n) : (partialWord n bits).length < n := by
  rw [length_partialWord]
  exact Nat.mod_lt _ hn

/-- The word at a position depends on the bits up to its end only. -/
theorem take_drop_append {i : ℕ} (hi : i < bits.length / n) :
    ((bits ++ [bit]).drop (n * i)).take n = (bits.drop (n * i)).take n := by
  have hend : n * i + n ≤ bits.length :=
    calc
      n * i + n = n * (i + 1) := by rw [Nat.mul_succ]
      _ ≤ n * (bits.length / n) := Nat.mul_le_mul_left n hi
      _ ≤ bits.length := Nat.mul_div_le _ _
  rw [List.drop_append_of_le_length (by omega),
    List.take_append_of_le_length (by rw [List.length_drop]; omega)]

theorem length_div_append (hn : 0 < n) :
    (bits ++ [bit]).length / n =
      bits.length / n + if (partialWord n bits).length + 1 = n then 1 else 0 := by
  rw [length_partialWord, List.length_append, List.length_singleton]
  have hmod := Nat.mod_lt bits.length hn
  have hdiv := Nat.div_add_mod bits.length n
  split
  · next hfull =>
    calc
      (bits.length + 1) / n
      _ = n * (bits.length / n + 1) / n := by
        rw [Nat.mul_succ]
        congr 1
        omega
      _ = bits.length / n + 1 := Nat.mul_div_cancel_left _ hn
  · next hshort =>
    apply Nat.div_eq_of_lt_le
    · rw [Nat.add_zero, Nat.mul_comm]
      omega
    · rw [Nat.add_zero, Nat.mul_comm, Nat.mul_succ]
      omega

/-- A bit either completes the word under way or is added to it. -/
theorem words_append_bit (hn : 0 < n) :
    words n (bits ++ [bit]) =
      if (partialWord n bits).length + 1 = n then
        words n bits ++ [ofBits n (partialWord n bits ++ [bit])]
      else words n bits := by
  have hkeep : (List.range (bits.length / n)).map
      (fun i ↦ ofBits n (((bits ++ [bit]).drop (n * i)).take n)) = words n bits := by
    refine List.map_congr_left fun i hi ↦ ?_
    rw [take_drop_append (List.mem_range.1 hi)]
  rw [words, length_div_append hn]
  split
  · next hfull =>
    have hlast : ((bits ++ [bit]).drop (n * (bits.length / n))).take n =
        partialWord n bits ++ [bit] := by
      rw [List.drop_append_of_le_length (Nat.mul_div_le _ _), ← partialWord,
        List.take_of_length_le (by simp; omega)]
    rw [List.range_succ, List.map_append, hkeep, List.map_singleton, hlast]
  · rw [Nat.add_zero, hkeep]

theorem partialWord_append_bit (hn : 0 < n) :
    partialWord n (bits ++ [bit]) =
      if (partialWord n bits).length + 1 = n then [] else partialWord n bits ++ [bit] := by
  have hdiv := Nat.div_add_mod bits.length n
  have hlen := length_partialWord (n := n) bits
  rw [partialWord, length_div_append hn]
  split
  · next hfull =>
    apply List.drop_of_length_le
    rw [Nat.mul_succ, List.length_append, List.length_singleton]
    omega
  · rw [Nat.add_zero, List.drop_append_of_le_length (Nat.mul_div_le _ _), ← partialWord]

/-! ## Back to bits -/

theorem msbFirst_ofBits (h : bits.length = n) : msbFirst (ofBits n bits) = bits := by
  apply List.ext_getElem (by rw [length_msbFirst, h])
  intro i hi hi'
  have hback : n - 1 - i < bits.reverse.length := by
    rw [List.length_reverse]
    omega
  have hindex : bits.length - 1 - (n - 1 - i) = i := by omega
  calc
    (msbFirst (ofBits n bits))[i] = (ofBits n bits).getMsbD i := by simp [msbFirst]
    _ = (ofBits n bits).getLsbD (n - 1 - i) := by
      rw [BitVec.getMsbD_eq_getLsbD, decide_eq_true (by omega), Bool.true_and]
    _ = bits.reverse.getD (n - 1 - i) false := by
      rw [ofBits, getLsbD_foldl_shiftConcat _ _ _ (by omega), if_pos (by omega)]
    _ = bits[i] := by
      rw [List.getD_eq_getElem _ _ hback, List.getElem_reverse]
      simp only [hindex]

/-- A stream is its words, sent one after another, and the bits left over. -/
theorem flatMap_words_append_partialWord (hn : 0 < n) (bits : List Bool) :
    (words n bits).flatMap msbFirst ++ partialWord n bits = bits := by
  induction bits using List.reverseRecOn with
  | nil => simp
  | append_singleton bits bit ih =>
    rw [words_append_bit hn, partialWord_append_bit hn]
    split
    · next hfull =>
      have hword :
          msbFirst (ofBits n (partialWord n bits ++ [bit])) = partialWord n bits ++ [bit] :=
        msbFirst_ofBits (by rw [List.length_append, List.length_singleton, hfull])
      rw [List.flatMap_append, List.flatMap_singleton, hword, List.append_nil,
        ← List.append_assoc, ih]
    · rw [← List.append_assoc, ih]

theorem flatMap_words (hn : 0 < n) (h : bits.length % n = 0) :
    (words n bits).flatMap msbFirst = bits := by
  have hrest : partialWord n bits = [] := by
    apply List.eq_nil_of_length_eq_zero
    rw [length_partialWord, h]
  calc
    (words n bits).flatMap msbFirst
    _ = (words n bits).flatMap msbFirst ++ partialWord n bits := by rw [hrest, List.append_nil]
    _ = bits := flatMap_words_append_partialWord hn bits

theorem length_words (bits : List Bool) : (words n bits).length = bits.length / n := by
  simp [words]

/-! ## Streams made of words -/

theorem ofBits_msbFirst (x : BitVec n) : ofBits n (msbFirst x) = x :=
  eq_of_msbFirst (msbFirst_ofBits (length_msbFirst x))

/-- Further bits only add words. -/
theorem words_mono (hn : 0 < n) {bits' : List Bool} (h : bits <+: bits') :
    words n bits <+: words n bits' := by
  obtain ⟨more, rfl⟩ := h
  induction more using List.reverseRecOn with
  | nil => simp
  | append_singleton more bit ih =>
    rw [← List.append_assoc, words_append_bit hn]
    split
    · exact ih.trans (List.prefix_append _ _)
    · exact ih

theorem drop_take_flatMap_msbFirst (stream : List (BitVec n)) (i : ℕ) (hi : i < stream.length) :
    ((stream.flatMap msbFirst).drop (n * i)).take n = msbFirst stream[i] := by
  induction stream generalizing i with
  | nil => simp at hi
  | cons word rest ih =>
    rw [List.flatMap_cons]
    cases i with
    | zero => exact List.take_left' (length_msbFirst word)
    | succ i =>
      have hskip : n * (i + 1) = (msbFirst word).length + n * i := by
        rw [length_msbFirst, Nat.mul_succ, Nat.add_comm]
      rw [hskip, List.drop_length_add_append]
      exact ih i (by simpa using hi)

theorem length_flatMap_stream (stream : List (BitVec n)) :
    (stream.flatMap msbFirst).length = n * stream.length := by
  induction stream with
  | nil => rfl
  | cons word rest ih =>
    rw [List.flatMap_cons, List.length_append, length_msbFirst, ih, List.length_cons, Nat.mul_succ,
      Nat.add_comm]

/-- A stream of words has these words. -/
theorem words_flatMap_msbFirst (hn : 0 < n) (stream : List (BitVec n)) :
    words n (stream.flatMap msbFirst) = stream := by
  have hlength : (words n (stream.flatMap msbFirst)).length = stream.length := by
    rw [length_words, length_flatMap_stream, Nat.mul_div_cancel_left _ hn]
  apply List.ext_getElem hlength
  intro i hi hi'
  simp only [words, List.getElem_map, List.getElem_range]
  rw [drop_take_flatMap_msbFirst stream i hi', ofBits_msbFirst]

end Sequential
