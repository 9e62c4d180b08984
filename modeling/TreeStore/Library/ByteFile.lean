import Mathlib.Tactic

/-!
# Files as byte lists

Little-endian words, and reading and overwriting a file at an offset.  The
assertion `At file offset bytes` says which bytes lie at an offset; the frame
lemmas carry it over a write or a resize elsewhere in the file.
-/

namespace ByteFile

/-- The low `width` bytes of a number, least significant first. -/
def leBytes : Nat → Nat → List UInt8
  | 0, _ => []
  | width + 1, number =>
      UInt8.ofNat (number % 256) :: leBytes width (number / 256)

/-- The number that a little-endian byte string denotes. -/
def leValue : List UInt8 → Nat
  | [] => 0
  | byte :: bytes => byte.toNat + 256 * leValue bytes

/-- The first `count` 64-bit words of a byte string. -/
def leWords (count : Nat) (bytes : List UInt8) : List Nat :=
  (List.range count).map fun index => leValue ((bytes.drop (8 * index)).take 8)

/-- Consecutive 64-bit words as bytes. -/
def wordsBytes (words : List Nat) : List UInt8 :=
  words.flatMap (leBytes 8)

section Words

@[simp]
theorem leBytes_length (width number : Nat) :
    (leBytes width number).length = width := by
  induction width generalizing number with
  | zero => rfl
  | succ width ih => simp [leBytes, ih]

theorem leValue_lt (bytes : List UInt8) :
    leValue bytes < 256 ^ bytes.length := by
  induction bytes with
  | nil => simp [leValue]
  | cons byte bytes ih =>
      have small : byte.toNat < 256 := byte.toNat_lt
      simp only [leValue, List.length_cons, pow_succ]
      omega

@[simp]
theorem leValue_replicate_zero (count : Nat) :
    leValue (List.replicate count 0) = 0 := by
  induction count with
  | zero => rfl
  | succ count ih => simp [List.replicate_succ, leValue, ih]

theorem leValue_leBytes {width number : Nat} (fits : number < 256 ^ width) :
    leValue (leBytes width number) = number := by
  induction width generalizing number with
  | zero =>
      have : number = 0 := by simpa using fits
      simp [leBytes, leValue, this]
  | succ width ih =>
      have quotient : number / 256 < 256 ^ width := by
        rw [pow_succ] at fits
        omega
      have remainder : (UInt8.ofNat (number % 256)).toNat = number % 256 := by
        simp [UInt8.toNat_ofNat']
      rw [leBytes, leValue, ih quotient, remainder]
      omega

theorem leBytes_leValue (bytes : List UInt8) :
    leBytes bytes.length (leValue bytes) = bytes := by
  induction bytes with
  | nil => rfl
  | cons byte bytes ih =>
      have small : byte.toNat < 256 := byte.toNat_lt
      have low : (byte.toNat + 256 * leValue bytes) % 256 = byte.toNat := by
        omega
      have high : (byte.toNat + 256 * leValue bytes) / 256 = leValue bytes := by
        omega
      rw [List.length_cons, leValue, leBytes, low, high, ih]
      simp

@[simp]
theorem leWords_length (count : Nat) (bytes : List UInt8) :
    (leWords count bytes).length = count := by
  simp [leWords]

@[simp]
theorem wordsBytes_length (words : List Nat) :
    (wordsBytes words).length = 8 * words.length := by
  induction words with
  | nil => rfl
  | cons word words ih =>
      simp only [wordsBytes, List.flatMap_cons, List.length_append,
        leBytes_length, List.length_cons] at ih ⊢
      omega

/-- The bytes of one word among several. -/
theorem wordsBytes_slice (words : List Nat) (index : Nat)
    (inside : index < words.length) :
    ((wordsBytes words).drop (8 * index)).take 8 = leBytes 8 words[index] := by
  induction words generalizing index with
  | nil => simp at inside
  | cons word words ih =>
      cases index with
      | zero => simp [wordsBytes]
      | succ index =>
          have shift : 8 * (index + 1) = 8 * index + (leBytes 8 word).length := by
            simp
            omega
          have tail := ih index (by simpa using inside)
          simp only [wordsBytes] at tail
          simp only [wordsBytes, List.flatMap_cons, List.getElem_cons_succ]
          rw [shift, add_comm, ← List.drop_drop, List.drop_left, tail]

theorem leWords_wordsBytes {words : List Nat}
    (fits : ∀ word ∈ words, word < 256 ^ 8) (rest : List UInt8) :
    leWords words.length (wordsBytes words ++ rest) = words := by
  apply List.ext_getElem
  · simp
  · intro index _ inside
    have slice := wordsBytes_slice words index inside
    have room : 8 * index + 8 ≤ (wordsBytes words).length := by simp; omega
    simp only [leWords, List.getElem_map, List.getElem_range]
    rw [List.drop_append_of_le_length (by omega),
      List.take_append_of_le_length (by simp; omega), slice,
      leValue_leBytes (fits _ (List.getElem_mem inside))]

theorem wordsBytes_leWords {count : Nat} {bytes : List UInt8}
    (exact_length : bytes.length = 8 * count) :
    wordsBytes (leWords count bytes) = bytes := by
  induction count generalizing bytes with
  | zero =>
      have : bytes = [] := List.eq_nil_of_length_eq_zero (by omega)
      simp [leWords, wordsBytes, this]
  | succ count ih =>
      have restLength : (bytes.drop 8).length = 8 * count := by
        simp
        omega
      have rest := ih restLength
      have head : leBytes 8 (leValue (bytes.take 8)) = bytes.take 8 := by
        have := leBytes_leValue (bytes.take 8)
        rwa [List.length_take, Nat.min_eq_left (by omega)] at this
      have tail : leWords (count + 1) bytes =
          leValue (bytes.take 8) :: leWords count (bytes.drop 8) := by
        simp only [leWords, List.range_succ_eq_map, List.map_cons,
          List.map_map, Nat.mul_zero, List.drop_zero, List.drop_drop,
          Function.comp_def]
        congr 1
        refine List.map_congr_left fun index _ => ?_
        congr 3
        omega
      rw [tail, wordsBytes, List.flatMap_cons, head]
      exact (congrArg _ rest).trans (List.take_append_drop 8 bytes)

theorem leWords_lt {count : Nat} {bytes : List UInt8} {word : Nat}
    (member : word ∈ leWords count bytes) : word < 256 ^ 8 := by
  obtain ⟨index, -, rfl⟩ := List.mem_map.mp member
  refine lt_of_lt_of_le (leValue_lt _) (Nat.pow_le_pow_right (by norm_num) ?_)
  simp

/-- Bytes that start with known words decode to these words. -/
theorem leWords_take {count known : Nat} {bytes : List UInt8}
    {words : List Nat} (fits : ∀ word ∈ words, word < 256 ^ 8)
    (agree : bytes.take (8 * known) = (wordsBytes words).take (8 * known))
    (decoded : known ≤ count) (inside : known ≤ words.length) :
    (leWords count bytes).take known = words.take known := by
  apply List.ext_getElem
  · simp
    omega
  · intro index first second
    simp only [List.length_take] at second
    have slice (source : List UInt8) :
        (source.drop (8 * index)).take 8 =
          ((source.take (8 * known)).drop (8 * index)).take 8 := by
      rw [List.drop_take, List.take_take, Nat.min_eq_left (by omega)]
    rw [List.getElem_take, List.getElem_take]
    simp only [leWords, List.getElem_map, List.getElem_range]
    rw [slice, agree, ← slice, wordsBytes_slice words index (by omega),
      leValue_leBytes (fits _ (List.getElem_mem _))]

end Words

/-- The bytes that a read of `size` bytes at `offset` delivers: what the file
has there, and nothing past its end. -/
def readAt (file : List UInt8) (offset size : Nat) : List UInt8 :=
  (file.drop offset).take size

/-- Overwrite a file from `offset` on; a hole past the end reads as zeros. -/
def writeAt (file : List UInt8) (offset : Nat) (bytes : List UInt8) :
    List UInt8 :=
  file.take offset ++ List.replicate (offset - file.length) 0 ++ bytes ++
    file.drop (offset + bytes.length)

/-- Cut a file to `size` bytes, or extend it with zeros. -/
def resize (file : List UInt8) (size : Nat) : List UInt8 :=
  file.take size ++ List.replicate (size - file.length) 0

/-- The bytes at `offset` in `file` are `bytes`. -/
def At (file : List UInt8) (offset : Nat) (bytes : List UInt8) : Prop :=
  readAt file offset bytes.length = bytes

instance (file : List UInt8) (offset : Nat) (bytes : List UInt8) :
    Decidable (At file offset bytes) :=
  inferInstanceAs (Decidable (_ = _))

section Access

variable {file bytes other : List UInt8} {offset size : Nat}

theorem readAt_length (file : List UInt8) (offset size : Nat) :
    (readAt file offset size).length = min size (file.length - offset) := by
  simp [readAt]

theorem readAt_getElem? (file : List UInt8) (offset size index : Nat) :
    (readAt file offset size)[index]? =
      if index < size then file[offset + index]? else none := by
  simp [readAt, List.getElem?_take, List.getElem?_drop]

@[simp]
theorem resize_length (file : List UInt8) (size : Nat) :
    (resize file size).length = size := by
  simp [resize]
  omega

theorem resize_getElem? (file : List UInt8) (size index : Nat) :
    (resize file size)[index]? =
      if index < size then some (file[index]?.getD 0) else none := by
  unfold resize
  by_cases inside : index < min size file.length
  · rw [List.getElem?_append_left (by simpa using inside),
      List.getElem?_take]
    rw [lt_min_iff] at inside
    simp [inside.1, inside.2]
  · have beyond : (file.take size).length ≤ index := by
      simp only [List.length_take]
      omega
    rw [List.getElem?_append_right beyond]
    simp only [List.length_take, List.getElem?_replicate]
    by_cases small : index < size
    · have outside : file[index]? = none := by
        rw [List.getElem?_eq_none]
        omega
      rw [if_pos (by omega), if_pos small, outside]
      rfl
    · rw [if_neg (by omega), if_neg small]

@[simp]
theorem writeAt_length (file : List UInt8) (offset : Nat)
    (bytes : List UInt8) :
    (writeAt file offset bytes).length =
      max file.length (offset + bytes.length) := by
  simp [writeAt]
  omega

theorem writeAt_getElem? (file : List UInt8) (offset : Nat)
    (bytes : List UInt8) (index : Nat) :
    (writeAt file offset bytes)[index]? =
      if index < offset then some (file[index]?.getD 0)
      else if index < offset + bytes.length then bytes[index - offset]?
      else file[index]? := by
  have whole : writeAt file offset bytes =
      resize file offset ++ (bytes ++ file.drop (offset + bytes.length)) := by
    simp [writeAt, resize]
  rw [whole]
  by_cases before : index < offset
  · rw [List.getElem?_append_left (by simpa using before), resize_getElem?]
    simp [before]
  · rw [List.getElem?_append_right (by simpa using before), resize_length,
      if_neg before]
    by_cases inside : index < offset + bytes.length
    · rw [List.getElem?_append_left (by omega), if_pos inside]
    · rw [List.getElem?_append_right (by omega), if_neg inside,
        List.getElem?_drop]
      congr 1
      omega

theorem at_iff : At file offset bytes ↔
    ∀ index < bytes.length, file[offset + index]? = bytes[index]? := by
  unfold At
  constructor
  · intro equal index inside
    have := congrArg (·[index]?) equal
    simpa [readAt_getElem?, inside] using this
  · intro equal
    apply List.ext_getElem?
    intro index
    rw [readAt_getElem?]
    by_cases inside : index < bytes.length
    · rw [if_pos inside, equal index inside]
    · rw [if_neg inside, List.getElem?_eq_none (by omega)]

theorem at_nil (file : List UInt8) (offset : Nat) : At file offset [] := by
  simp [at_iff]

theorem At.length_le (here : At file offset bytes) (nonempty : bytes ≠ []) :
    offset + bytes.length ≤ file.length := by
  have := congrArg List.length here
  rw [readAt_length] at this
  have := List.length_pos_iff.mpr nonempty
  omega

theorem at_append : At file offset (bytes ++ other) ↔
    At file offset bytes ∧ At file (offset + bytes.length) other := by
  simp only [at_iff]
  constructor
  · intro equal
    constructor
    · intro index inside
      rw [equal index (by simp; omega), List.getElem?_append_left inside]
    · intro index inside
      have := equal (bytes.length + index) (by simp; omega)
      rw [List.getElem?_append_right (by omega)] at this
      rw [add_assoc, this]
      congr 1
      omega
  · rintro ⟨first, second⟩ index inside
    by_cases early : index < bytes.length
    · rw [first index early, List.getElem?_append_left early]
    · have := second (index - bytes.length) (by simp at inside; omega)
      rw [List.getElem?_append_right (by omega), ← this]
      congr 1
      omega

/-- A read that is at least as long as what is known to be there starts with
it. -/
theorem At.readAt_take (here : At file offset bytes)
    (enough : bytes.length ≤ size) :
    (readAt file offset size).take bytes.length = bytes := by
  rw [readAt, List.take_take, Nat.min_eq_left enough]
  exact here

theorem At.readAt_eq (here : At file offset bytes)
    (exact_size : size = bytes.length) : readAt file offset size = bytes := by
  rw [exact_size]
  exact here

theorem at_readAt (inside : offset + size ≤ file.length) :
    At file offset (readAt file offset size) := by
  unfold At
  rw [readAt_length, Nat.min_eq_left (by omega)]

theorem at_writeAt (file : List UInt8) (offset : Nat) (bytes : List UInt8) :
    At (writeAt file offset bytes) offset bytes := by
  rw [at_iff]
  intro index inside
  rw [writeAt_getElem?, if_neg (by omega), if_pos (by omega)]
  congr 1
  omega

/-- A write leaves what lies before and after it in place. -/
theorem At.writeAt_frame (here : At file offset bytes) {target : Nat}
    (disjoint : offset + bytes.length ≤ target ∨
      target + other.length ≤ offset) :
    At (writeAt file target other) offset bytes := by
  rw [at_iff] at here ⊢
  intro index inside
  have old := here index inside
  rw [writeAt_getElem?]
  by_cases before : offset + index < target
  · rw [if_pos before, old, List.getElem?_eq_getElem inside, Option.getD_some]
  · rw [if_neg before, if_neg (by omega), old]

/-- Resizing keeps what lies inside both the old and the new file. -/
theorem At.resize_frame (here : At file offset bytes)
    (inside : offset + bytes.length ≤ size) :
    At (resize file size) offset bytes := by
  rw [at_iff] at here ⊢
  intro index small
  rw [resize_getElem?, if_pos (by omega), here index small,
    List.getElem?_eq_getElem small, Option.getD_some]

/-- Bytes that lie outside of `start`, ..., `start + size - 1` are the same in
both files. -/
def SameOutside (start size : Nat) (file file' : List UInt8) : Prop :=
  ∀ (position : Nat) (byte : UInt8), file[position]? = some byte →
    ¬ (start ≤ position ∧ position < start + size) →
      file'[position]? = some byte

theorem SameOutside.at {start size offset : Nat} {file file' bytes : List UInt8}
    (same : SameOutside start size file file') (here : At file offset bytes)
    (front : offset + bytes.length ≤ start) : At file' offset bytes := by
  rw [at_iff] at here ⊢
  intro index inside
  have old := here index inside
  rw [List.getElem?_eq_getElem inside] at old ⊢
  exact same _ _ old (by omega)

/-- Writing back what is there changes nothing. -/
theorem At.writeAt_self (here : At file offset bytes)
    (inside : offset + bytes.length ≤ file.length) :
    writeAt file offset bytes = file := by
  rw [at_iff] at here
  apply List.ext_getElem?
  intro index
  rw [writeAt_getElem?]
  split_ifs with before within
  · rw [List.getElem?_eq_getElem (by omega), Option.getD_some]
  · have := here (index - offset) (by omega)
    rw [← this]
    congr 1
    omega
  · rfl

/-- A write into the first `size` bytes is a write into a shorter file. -/
theorem take_writeAt (inside : offset + bytes.length ≤ size) :
    (writeAt file offset bytes).take size =
      writeAt (file.take size) offset bytes := by
  apply List.ext_getElem?
  intro index
  rw [List.getElem?_take, writeAt_getElem?, writeAt_getElem?,
    List.getElem?_take]
  by_cases before : index < offset
  · rw [if_pos (by omega), if_pos before, if_pos before, if_pos (by omega)]
  · by_cases within : index < offset + bytes.length
    · rw [if_pos (by omega), if_neg before, if_pos within, if_neg before,
        if_pos within]
    · rw [if_neg before, if_neg within, if_neg before, if_neg within]

/-- Overwriting one word among several. -/
theorem leWords_writeAt {count position word : Nat}
    (sized : file.length = 8 * count)
    (fits : word < 256 ^ 8) :
    leWords count (writeAt file (8 * position) (leBytes 8 word)) =
      (leWords count file).set position word := by
  apply List.ext_getElem
  · simp
  · intro index first _
    rw [leWords_length] at first
    rw [List.getElem_set]
    simp only [leWords, List.getElem_map, List.getElem_range]
    by_cases same : position = index
    · subst same
      have here := at_writeAt file (8 * position) (leBytes 8 word)
      have stored := here.readAt_eq (leBytes_length 8 word).symm
      rw [readAt] at stored
      rw [if_pos rfl, stored, leValue_leBytes fits]
    · have here := at_readAt (show 8 * index + 8 ≤ file.length by omega)
      have length : (readAt file (8 * index) 8).length = 8 := by
        rw [readAt_length]
        omega
      have kept : At (writeAt file (8 * position) (leBytes 8 word)) (8 * index)
          (readAt file (8 * index) 8) :=
        here.writeAt_frame (by rw [length, leBytes_length]; omega)
      have stored := kept.readAt_eq length.symm
      rw [readAt, readAt] at stored
      rw [if_neg same, stored]

/-- Two adjacent writes are one. -/
theorem writeAt_writeAt (file : List UInt8) (offset : Nat)
    (first second : List UInt8) :
    writeAt (writeAt file offset first) (offset + first.length) second =
      writeAt file offset (first ++ second) := by
  apply List.ext_getElem?
  intro index
  simp only [writeAt_getElem?, List.length_append]
  by_cases before : index < offset
  · simp [before, show index < offset + first.length by omega]
  · by_cases early : index < offset + first.length
    · rw [if_pos early, if_neg before, if_pos early, if_neg before,
        if_pos (by omega), List.getElem?_append_left (by omega),
        List.getElem?_eq_getElem (by omega), Option.getD_some]
    · rw [if_neg early, if_neg before, if_neg early, if_neg before]
      by_cases inside : index < offset + first.length + second.length
      · rw [if_pos inside, if_pos (by omega),
          List.getElem?_append_right (by omega)]
        congr 1
        omega
      · rw [if_neg inside, if_neg (by omega)]

/-- A second write of as many bytes replaces the first one. -/
theorem writeAt_replace (file : List UInt8) (offset : Nat)
    {first second : List UInt8} (same : second.length = first.length) :
    writeAt (writeAt file offset first) offset second =
      writeAt file offset second := by
  apply List.ext_getElem?
  intro index
  simp only [writeAt_getElem?, same]
  by_cases before : index < offset
  · simp [before]
  · by_cases inside : index < offset + first.length
    · simp [before, inside]
    · simp [before, inside]

/-- Writing further bytes that are already there makes no difference. -/
theorem At.writeAt_extend {file bytes other : List UInt8} {offset : Nat}
    (here : At file (offset + bytes.length) other)
    (inside : offset + bytes.length + other.length ≤ file.length) :
    writeAt file offset (bytes ++ other) = writeAt file offset bytes := by
  have kept : At (writeAt file offset bytes) (offset + bytes.length) other :=
    here.writeAt_frame (Or.inr le_rfl)
  rw [← writeAt_writeAt, kept.writeAt_self (by simp; omega)]

/-- A write in the middle of the file only changes the bytes it covers. -/
theorem writeAt_eq_append (file : List UInt8) (offset : Nat)
    (bytes : List UInt8) (inside : offset ≤ file.length) :
    writeAt file offset bytes =
      file.take offset ++ (bytes ++ file.drop (offset + bytes.length)) := by
  simp [writeAt, Nat.sub_eq_zero_of_le inside]

/-- Writing bytes that differ from what is there in one stretch writes that
stretch. -/
theorem At.writeAt_patch {file bytes patch : List UInt8}
    {offset position : Nat} (here : At file offset bytes)
    (inside : position + patch.length ≤ bytes.length) :
    writeAt file offset (writeAt bytes position patch) =
      writeAt file (offset + position) patch := by
  rw [at_iff] at here
  apply List.ext_getElem?
  intro index
  have length : (writeAt bytes position patch).length = bytes.length := by
    rw [writeAt_length]
    omega
  rw [writeAt_getElem? file offset, writeAt_getElem? file (offset + position),
    length]
  by_cases before : index < offset
  · rw [if_pos before, if_pos (by omega)]
  rw [if_neg before]
  by_cases covered : index < offset + bytes.length
  · have same := here (index - offset) (by omega)
    rw [Nat.add_sub_cancel' (by omega)] at same
    rw [if_pos covered, writeAt_getElem?, same]
    by_cases below : index < offset + position
    · rw [if_pos (by omega), if_pos below]
    rw [if_neg (by omega), if_neg below]
    by_cases within : index < offset + position + patch.length
    · rw [if_pos (by omega), if_pos within, Nat.sub_add_eq]
    · rw [if_neg (by omega), if_neg within]
  · rw [if_neg covered, if_neg (by omega), if_neg (by omega)]

/-- A write inside a file changes the bytes it covers. -/
theorem writeAt_inside {file bytes : List UInt8} {offset : Nat} (index : Nat)
    (inside : offset + bytes.length ≤ file.length) :
    (writeAt file offset bytes)[index]? =
      if offset ≤ index ∧ index < offset + bytes.length
      then bytes[index - offset]? else file[index]? := by
  rw [writeAt_getElem?]
  by_cases before : index < offset
  · rw [if_pos before, if_neg (by omega), List.getElem?_eq_getElem (by omega),
      Option.getD_some]
  · by_cases covered : index < offset + bytes.length
    · rw [if_neg before, if_pos covered, if_pos (by omega)]
    · rw [if_neg before, if_neg covered, if_neg (by omega)]

/-- Two writes inside a file that cover different bytes commute. -/
theorem writeAt_comm {file first second : List UInt8} {offset other : Nat}
    (inside : offset + first.length ≤ file.length)
    (otherInside : other + second.length ≤ file.length)
    (apart : offset + first.length ≤ other ∨
      other + second.length ≤ offset) :
    writeAt (writeAt file offset first) other second =
      writeAt (writeAt file other second) offset first := by
  apply List.ext_getElem?
  intro index
  rw [writeAt_inside index (by simp; omega), writeAt_inside index inside,
    writeAt_inside index (by simp; omega), writeAt_inside index otherInside]
  by_cases covered : offset ≤ index ∧ index < offset + first.length
  · rw [if_neg (by omega), if_pos covered, if_pos covered]
  · rw [if_neg covered, if_neg covered]

end Access

end ByteFile
