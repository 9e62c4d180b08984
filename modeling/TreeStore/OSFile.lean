import Mathlib.Data.UInt
import TreeStore.Library.ByteFile
import TreeStore.Library.ProgramLogic

/-!
# The file stream and the memory of the storage engine

Every storage function works on one `FILE*`, so a program here threads the
bytes of that file and the stream's position.  The stream is taken as
unbuffered: a write is in the file before `ftruncate` is called on its
descriptor, and a read behind it finds the file shorter.  Memory that the program never wrote (a fresh `malloc` block, an
unset local, what lies behind a buffer that is read too far) has arbitrary
contents: `World.heap` says what each block handed out will hold.
-/

namespace TreeStore

open ByteFile ProgramLogic

/-- The file behind the stream, the stream's position, the initial contents of
every memory block, and the number of blocks handed out so far. -/
structure World where
  file : List UInt8
  pos : Nat
  heap : Nat → Nat → UInt8
  blocks : Nat

/-- Why a run of the source has no defined outcome here. -/
inductive Fault
  /-- An array is indexed outside its block. -/
  | outOfBounds
  /-- A loop or recursion of the source is still running. -/
  | outOfFuel
  deriving DecidableEq, Repr

instance : Nontrivial Fault := ⟨.outOfBounds, .outOfFuel, by decide⟩

abbrev Prog := StateT World (Except Fault)

/-- A `char*`: the bytes of memory from the address on. -/
abbrev CharPtr := List UInt8

inductive ReadStatus
  | success
  | lenError
  deriving DecidableEq, Repr

inductive WriteStatus
  | success
  | lenError
  deriving DecidableEq, Repr

/-- `ret |= status`, for a status that is zero on success. -/
def ReadStatus.or : ReadStatus → ReadStatus → ReadStatus
  | .success, status => status
  | .lenError, _ => .lenError

def WriteStatus.or : WriteStatus → WriteStatus → WriteStatus
  | .success, status => status
  | .lenError, _ => .lenError

/-- A block of `size` bytes with arbitrary contents. -/
def malloc (size : Nat) : Prog (List UInt8) :=
  modifyGet fun world =>
    ((List.range size).map (world.heap world.blocks),
      { world with blocks := world.blocks + 1 })

/-- A 64-bit local variable that nothing has been stored in. -/
def unsetWord : Prog Nat :=
  leValue <$> malloc 8

/-- The conversion of a 64-bit word to `long`. -/
def toLong (word : Nat) : Int :=
  if word < 2 ^ 63 then word else (word : Int) - 2 ^ 64

/-- `fseek(fp, offset, SEEK_SET)`; a negative offset is refused and the
position stays. -/
def fseekSet (offset : Int) : Prog Unit :=
  modify fun world =>
    if 0 ≤ offset then { world with pos := offset.toNat } else world

/-- `fseek(fp, 0, SEEK_END)`. -/
def fseekEnd : Prog Unit :=
  modify fun world => { world with pos := world.file.length }

def ftell : Prog Nat := do
  return (← get).pos

def ftruncate (size : Nat) : Prog Unit :=
  modify fun world => { world with file := resize world.file size }

/-- `readFile(fp, buffer, size)`.  A short read delivers the bytes that exist
and leaves the rest of the buffer as it was. -/
def readFile (buffer : List UInt8) (size : Nat) :
    Prog (List UInt8 × ReadStatus) :=
  modifyGet fun world =>
    let got := readAt world.file world.pos size
    ((got ++ buffer.drop got.length,
        if got.length < size ∨ size = 0 then .lenError else .success),
      { world with pos := world.pos + got.length })

/-- `writeFile(fp, buffer, size)`.  Past the end of the buffer the bytes of the
memory behind it are written. -/
def writeFile (buffer : List UInt8) (size : Nat) : Prog WriteStatus := do
  let behind ← malloc (size - buffer.length)
  modifyGet fun world =>
    let bytes := (buffer ++ behind).take size
    if size = 0 then (.lenError, world)
    else
      (.success,
        { world with
          file := writeAt world.file world.pos bytes
          pos := world.pos + size })

/-- The characters of a C string: the bytes before the first terminator. -/
def textOf (string : CharPtr) : List UInt8 :=
  string.takeWhile (· ≠ 0)

/-- `strlen`; a pointer behind which no terminator follows faults. -/
def strlen (string : CharPtr) : Prog Nat :=
  if 0 ∈ string then pure (textOf string).length
  else throw .outOfBounds

/-- `strcmp(first, second) == 0`; a comparison that runs past an end without
meeting a terminator or a difference faults. -/
def strcmpZero : CharPtr → CharPtr → Prog Bool
  | char :: first, other :: second =>
      if char ≠ other then return false
      else if char = 0 then return true
      else strcmpZero first second
  | _, _ => throw .outOfBounds

/-- `strncpy` into a field of `size` bytes: stop at the terminator, fill with
zeros. -/
def strncpy (string : List UInt8) (size : Nat) : List UInt8 :=
  let text := textOf (string.take size)
  text ++ List.replicate (size - text.length) 0

/-- The C string that a byte array holds, if it is terminated. -/
def cString (bytes : List UInt8) : Option (List UInt8) :=
  if 0 ∈ bytes then some (textOf bytes) else none

/-- `array[index]`. -/
def index {α : Type} (array : List α) (position : Nat) : Prog α :=
  match array[position]? with
  | some entry => pure entry
  | none => throw .outOfBounds

section Rules

variable {world : World}

/-- What a fresh block looks like is never known: only its length is. -/
theorem wp_malloc {size : Nat} {post : List UInt8 → World → Prop}
    (holds : ∀ block blocks, block.length = size →
      post block { world with blocks := blocks }) :
    wp (malloc size) post world := by
  rw [malloc, wp_modifyGet]
  exact holds _ _ (by simp)

/-- An unset variable holds a 64-bit word. -/
theorem wp_unsetWord_lt {post : Nat → World → Prop}
    (holds : ∀ word blocks, word < 2 ^ 64 →
      post word { world with blocks := blocks }) :
    wp unsetWord post world := by
  rw [unsetWord, wp_map]
  refine wp_malloc fun block blocks sized => ?_
  apply holds
  have bound := leValue_lt block
  rw [sized] at bound
  exact bound

theorem wp_unsetWord {post : Nat → World → Prop}
    (holds : ∀ word blocks, post word { world with blocks := blocks }) :
    wp unsetWord post world := by
  rw [unsetWord, wp_map]
  exact wp_malloc fun block blocks _ => holds _ blocks

@[simp]
theorem wp_fseekSet {offset : Int} {post : Unit → World → Prop} :
    wp (fseekSet offset) post world ↔
      post () (if 0 ≤ offset then { world with pos := offset.toNat }
        else world) := by
  simp [fseekSet]

theorem toLong_of_lt {word : Nat} (small : word < 2 ^ 63) :
    toLong word = word := by
  simp only [toLong]
  rw [if_pos small]

/-- Seeking to a file offset that fits into a `long`. -/
theorem wp_fseekSet_toLong {offset : Nat} {post : Unit → World → Prop}
    (small : offset < 2 ^ 63)
    (holds : post () { world with pos := offset }) :
    wp (fseekSet (toLong offset)) post world := by
  simpa [toLong_of_lt small] using holds

@[simp]
theorem wp_fseekEnd {post : Unit → World → Prop} :
    wp fseekEnd post world ↔
      post () { world with pos := world.file.length } := by
  simp [fseekEnd]

@[simp]
theorem wp_ftell {post : Nat → World → Prop} :
    wp ftell post world ↔ post world.pos world := by
  simp [ftell]

@[simp]
theorem wp_ftruncate {size : Nat} {post : Unit → World → Prop} :
    wp (ftruncate size) post world ↔
      post () { world with file := resize world.file size } := by
  simp [ftruncate]

@[simp]
theorem wp_readFile {buffer : List UInt8} {size : Nat}
    {post : List UInt8 × ReadStatus → World → Prop} :
    wp (readFile buffer size) post world ↔
      post (readAt world.file world.pos size ++
          buffer.drop (readAt world.file world.pos size).length,
        if (readAt world.file world.pos size).length < size ∨ size = 0
        then .lenError else .success)
        { world with
          pos := world.pos + (readAt world.file world.pos size).length } := by
  simp [readFile]

/-- A read whose bytes are all in the file. -/
theorem wp_readFile_at {buffer bytes : List UInt8} {size : Nat}
    {post : List UInt8 × ReadStatus → World → Prop}
    (here : At world.file world.pos bytes) (sized : bytes.length = size)
    (positive : 0 < size) (room : buffer.length ≤ size)
    (holds : post (bytes, .success) { world with pos := world.pos + size }) :
    wp (readFile buffer size) post world := by
  have delivered := here.readAt_eq sized.symm
  rw [wp_readFile, delivered, sized, List.drop_eq_nil_of_le room,
    if_neg (by omega)]
  simpa using holds

/-- A write of a buffer that is long enough. -/
theorem wp_writeFile {buffer : List UInt8} {size : Nat}
    {post : WriteStatus → World → Prop}
    (enough : size ≤ buffer.length) (positive : 0 < size)
    (holds : ∀ blocks, post .success
      { world with
        file := writeAt world.file world.pos (buffer.take size)
        pos := world.pos + size
        blocks := blocks }) :
    wp (writeFile buffer size) post world := by
  rw [writeFile, wp_bind]
  refine wp_malloc fun behind blocks _ => ?_
  rw [wp_modifyGet, if_neg (by omega), List.take_append_of_le_length enough]
  exact holds blocks

/-- A write that may run behind its buffer: the first bytes are the buffer's,
and the count is exact. -/
theorem wp_writeFile_behind {buffer : List UInt8} {size : Nat}
    {post : WriteStatus → World → Prop} (positive : 0 < size)
    (holds : ∀ bytes blocks, bytes.length = size →
      bytes.take (min size buffer.length) = buffer.take size →
      post .success
        { world with
          file := writeAt world.file world.pos bytes
          pos := world.pos + size
          blocks := blocks }) :
    wp (writeFile buffer size) post world := by
  rw [writeFile, wp_bind]
  refine wp_malloc fun behind blocks sized => ?_
  rw [wp_modifyGet, if_neg (by omega)]
  refine holds _ blocks (by simp; omega) ?_
  rw [List.take_take, Nat.min_eq_left (Nat.min_le_left _ _)]
  by_cases enough : size ≤ buffer.length
  · rw [Nat.min_eq_left enough, List.take_append_of_le_length enough]
  · rw [Nat.min_eq_right (by omega), List.take_left,
      List.take_of_length_le (by omega)]

/-- A write keeps the bytes before and behind it. -/
theorem wp_writeFile_outside {buffer : List UInt8} {size : Nat}
    {post : WriteStatus → World → Prop}
    (next : ∀ status final, SameOutside world.pos size world.file final.file →
      final.pos = world.pos + size → post status final) :
    wp (writeFile buffer size) post world := by
  rcases Nat.eq_zero_or_pos size with rfl | positive
  · rw [writeFile, wp_bind]
    apply wp_malloc
    intro behind blocks _
    rw [wp_modifyGet, if_pos rfl]
    exact next _ _ (fun _ _ here _ => here) rfl
  · apply wp_writeFile_behind positive
    intro bytes blocks sized _
    apply next _ _ _ rfl
    intro position byte here outside
    dsimp only
    rw [writeAt_getElem?, sized]
    split_ifs with before inside
    · rw [here]
      rfl
    · exact absurd ⟨Nat.le_of_not_lt before, inside⟩ outside
    · exact here

theorem wp_strlen {string : CharPtr} {post : Nat → World → Prop}
    (terminated : 0 ∈ string)
    (holds : post (textOf string).length world) :
    wp (strlen string) post world := by
  rw [strlen, if_pos terminated, wp_pure]
  exact holds

/-- Terminated strings compare equal when they have the same characters. -/
theorem strcmpZero_eq {first second : CharPtr} (firstEnds : 0 ∈ first)
    (secondEnds : 0 ∈ second) :
    strcmpZero first second =
      pure (decide (textOf first = textOf second)) := by
  induction first generalizing second with
  | nil => exact absurd firstEnds List.not_mem_nil
  | cons char first ih =>
      cases second with
      | nil => exact absurd secondEnds List.not_mem_nil
      | cons other second =>
          rw [strcmpZero]
          by_cases same : char = other
          · subst same
            rw [if_neg (not_not.mpr rfl)]
            by_cases ends : char = 0
            · rw [if_pos ends]
              simp [textOf, ends]
            · rw [if_neg ends, ih
                ((List.mem_cons.mp firstEnds).resolve_left (Ne.symm ends))
                ((List.mem_cons.mp secondEnds).resolve_left (Ne.symm ends))]
              simp [textOf, ends]
          · rw [if_pos same]
            by_cases ends : char = 0
            · subst ends
              simp [textOf, Ne.symm same]
            · by_cases otherEnds : other = 0
              · simp [textOf, ends, otherEnds]
              · simp [textOf, ends, otherEnds, same]

theorem index_of_some {α : Type} {array : List α} {position : Nat} {entry : α}
    (inside : array[position]? = some entry) :
    index array position = pure entry := by
  rw [index, inside]

theorem index_of_none {α : Type} {array : List α} {position : Nat}
    (outside : array[position]? = none) :
    index array position = throw .outOfBounds := by
  rw [index, outside]

theorem wp_index {α : Type} {array : List α} {position : Nat}
    {post : α → World → Prop} {entry : α}
    (inside : array[position]? = some entry) (holds : post entry world) :
    wp (index array position) post world := by
  rw [index, inside]
  exact (wp_pure entry).mpr holds

theorem exists_of_wp_index {α : Type} {array : List α} {position : Nat}
    {post : α → World → Prop} (holds : wp (index array position) post world) :
    ∃ entry, array[position]? = some entry ∧ post entry world := by
  cases found : array[position]? with
  | none =>
      rw [index, found] at holds
      exact absurd holds (wp_throw _)
  | some entry =>
      rw [index, found] at holds
      exact ⟨entry, rfl, (wp_pure entry).mp holds⟩

end Rules

theorem textOf_length_le (string : List UInt8) :
    (textOf string).length ≤ string.length :=
  (List.takeWhile_sublist _).length_le

@[simp]
theorem strncpy_length (string : List UInt8) (size : Nat) :
    (strncpy string size).length = size := by
  have bound := textOf_length_le (string.take size)
  simp only [List.length_take] at bound
  simp only [strncpy, List.length_append, List.length_replicate]
  omega

end TreeStore
