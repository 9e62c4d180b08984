import TreeStore.Removal

/-!
# Updates of numbers

An update of a number reads more than a record and writes a whole one, but what
it writes differs from what is there in one word only.
-/

namespace TreeStore

open ByteFile ProgramLogic

/-- An update of a field that holds a number, of a live id; `behind` is what
lies in memory behind the new word. -/
structure WordUpdate (schema : TreeSchema) where
  id : Nat
  offset : Nat
  position : Nat
  word : UInt64
  behind : CharPtr
  live : LiveAt schema id offset
  number : ∃ type ∈ [INT, FLOAT, BOOL], schema.types[position]? = some type

namespace WordUpdate

variable {schema : TreeSchema} (update : WordUpdate schema)

/-- The bytes of the new word. -/
def bytes : List UInt8 := leBytes 8 update.word.toNat

/-- Where the field lies in the file. -/
def place : Nat := update.offset + nodeHeadSize + 8 * update.position

def run (fuel : Nat) : Prog CrudStatus :=
  updateNode fuel update.position (update.bytes ++ update.behind) update.id

@[simp]
theorem bytes_length : update.bytes.length = 8 := leBytes_length _ _

end WordUpdate

/-- The file differs from what it was in these eight bytes at most. -/
structure ChangesWord (file file' : List UInt8) (place word : Nat) : Prop where
  length : file'.length = file.length
  here : At file' place (leBytes 8 word)
  others : ∀ position, position < place ∨ place + 8 ≤ position →
    file'[position]? = file[position]?

/-- Both programs lead to the same file. -/
def SameFile {α β : Type} (first : Prog α) (second : Prog β) (world : World) :
    Prop :=
  ∃ file, wp first (fun _ final => final.file = file) world ∧
    wp second (fun _ final => final.file = file) world

section Updates

variable {world : World} {schema : TreeSchema} {record : KeyNode} {fuel : Nat}
  {update other : WordUpdate schema} {file : List UInt8}

/-- Writing back a record with a new word writes that word. -/
theorem RecordAt.writeAt_setWord {offset position word : Nat}
    (here : RecordAt file schema offset record)
    (inside : 8 * position + 8 ≤ schema.realSize) :
    writeAt file offset (record.header.bytes ++
        (record.setWord position word).data) =
      writeAt file (offset + nodeHeadSize + 8 * position)
        (leBytes 8 word) := by
  obtain ⟨headerHere, dataHere⟩ := at_append.mp here.here
  have room := here.length_le
  rw [TreeSchema.recordSize] at room
  rw [NodeHeader.bytes_length] at dataHere
  rw [← writeAt_writeAt, NodeHeader.bytes_length, KeyNode.setWord,
    headerHere.writeAt_self (by rw [NodeHeader.bytes_length]; omega)]
  apply dataHere.writeAt_patch
  rw [leBytes_length, here.fits.data_length]
  exact inside

/-- An update of a number writes its word and nothing else. -/
theorem WordUpdate.wp_run (store : Tuples world.file schema) :
    wp (update.run fuel) (fun _ final =>
      final.file = writeAt world.file update.place update.bytes) world := by
  obtain ⟨record, here⟩ := store.complete _ _ update.live
  obtain ⟨type, isNumber, typed⟩ := update.number
  have number : type ≠ STRING := by
    rintro rfl
    exact absurd isNumber (by decide)
  have inside := store.stored.word_inside (List.getElem?_eq_some_iff.mp typed).1
  have small : update.offset < 2 ^ 63 := by
    have := here.length_le
    have := store.small
    omega
  rw [run, updateNode, wp_bind]
  apply SchemaAt.wp_getTypes store.stored
  intro blocks
  dsimp only
  rw [wp_bind]
  apply wp_index typed
  rw [wp_bind]
  apply wp_unsetWord
  intro unset blocks
  rw [wp_bind]
  apply SchemaAt.wp_convItoO (by exact store.stored) update.live
  intro pos blocks
  dsimp only
  rw [wp_bind]
  apply wp_fseekSet_toLong small
  rw [wp_bind]
  apply RecordAt.wp_readNode (by exact here) rfl rfl
  intro read status pos blocks started long
  dsimp only
  rw [if_neg number, wp_bind]
  apply wp_malloc
  intro behind blocks _
  rw [wp_bind]
  apply wp_fseekSet_toLong small
  have word : leValue ((update.bytes ++ update.behind ++ behind).take 8) =
      update.word.toNat := by
    rw [List.append_assoc, List.take_left' update.bytes_length, bytes,
      leValue_leBytes update.word.toNat_lt]
  have patched : ((KeyNode.mk record.header read).setWord update.position
      update.word.toNat).data.take schema.realSize =
        (record.setWord update.position update.word.toNat).data := by
    rw [KeyNode.setWord, take_writeAt (by simpa using inside), started]
    rfl
  rw [word, wp_bind]
  have large := getRealNodeSize_ge schema.treeMeta.templateSize
  apply wp_writeNode_at (by omega)
  · rw [KeyNode.setWord_length (by exact inside.trans long)]
    exact long
  · intro blocks
    rw [wp_pure, patched]
    exact here.writeAt_setWord inside

/-- The word lies inside the record. -/
theorem WordUpdate.place_inside (store : Tuples file schema) :
    update.place + 8 ≤ update.offset + schema.recordSize ∧
      update.offset + schema.recordSize ≤ file.length := by
  obtain ⟨record, here⟩ := store.complete _ _ update.live
  obtain ⟨type, -, typed⟩ := update.number
  have inside := store.stored.word_inside (List.getElem?_eq_some_iff.mp typed).1
  refine ⟨?_, here.length_le⟩
  simp only [place, TreeSchema.recordSize]
  omega

/-- The words of two different fields do not overlap. -/
theorem WordUpdate.place_apart (store : ApartTuples file schema)
    (different : (update.id, update.position) ≠ (other.id, other.position)) :
    update.place + 8 ≤ other.place ∨ other.place + 8 ≤ update.place := by
  have inside := update.place_inside store.toTuples
  have otherInside := other.place_inside store.toTuples
  by_cases same : update.id = other.id
  · have offsets : update.offset = other.offset :=
      update.live.unique (by rw [same]; exact other.live)
    have positions : update.position ≠ other.position := by
      intro equal
      exact different (Prod.ext same equal)
    simp only [place, offsets]
    omega
  · rcases store.apart _ _ _ _ update.live other.live same with before | behind
    · left
      have : other.offset ≤ other.place := by
        simp only [place]
        omega
      omega
    · right
      have : update.offset ≤ update.place := by
        simp only [place]
        omega
      omega

/-- A write inside a record keeps the store. -/
theorem ApartTuples.writeAt (store : ApartTuples file schema) :
    ApartTuples (writeAt file update.place update.bytes) schema := by
  obtain ⟨inside, room⟩ := update.place_inside store.toTuples
  have length : (ByteFile.writeAt file update.place update.bytes).length =
      file.length := by
    rw [writeAt_length, WordUpdate.bytes_length]
    omega
  refine ⟨⟨store.stored.writeAt ?_, ?_, ?_⟩, store.behind, store.apart⟩
  · have := store.behind _ _ update.live
    simp only [WordUpdate.place]
    omega
  · rw [length]
    exact store.small
  · intro id offset live
    obtain ⟨record, here⟩ := store.complete id offset live
    apply exists_recordAt
    rw [length]
    exact here.length_le

/-- Two updates one after the other. -/
theorem WordUpdate.wp_run_run (store : ApartTuples world.file schema) :
    wp (do let _ ← update.run fuel; other.run fuel) (fun _ final =>
      final.file = ByteFile.writeAt
        (ByteFile.writeAt world.file update.place update.bytes)
        other.place other.bytes) world := by
  rw [wp_bind]
  apply wp_mono (update.wp_run store.toTuples)
  intro _ middle written
  have store' : ApartTuples middle.file schema := by
    rw [written]
    exact store.writeAt
  rw [← written]
  exact other.wp_run store'.toTuples

end Updates

/-- An update of a number changes one word of the file; updates of different
fields commute, and of two updates of one field the later one wins. -/
theorem updateNode_word {world : World} {schema : TreeSchema}
    (store : ApartTuples world.file schema) (fuel : Nat) :
    (∀ update : WordUpdate schema, wp (update.run fuel) (fun _ final =>
      ChangesWord world.file final.file update.place update.word.toNat) world) ∧
    ∀ first second : WordUpdate schema,
      ((first.id, first.position) ≠ (second.id, second.position) →
        SameFile (do let _ ← first.run fuel; second.run fuel)
          (do let _ ← second.run fuel; first.run fuel) world) ∧
      ((first.id, first.position) = (second.id, second.position) →
        SameFile (do let _ ← first.run fuel; second.run fuel)
          (second.run fuel) world) := by
  constructor
  · intro update
    obtain ⟨inside, room⟩ := update.place_inside store.toTuples
    apply wp_mono (update.wp_run store.toTuples)
    intro _ final written
    rw [written]
    refine ⟨?_, at_writeAt _ _ _, ?_⟩
    · rw [writeAt_length, WordUpdate.bytes_length]
      omega
    · intro position outside
      have covered : update.place + update.bytes.length ≤ world.file.length := by
        rw [WordUpdate.bytes_length]
        omega
      rw [writeAt_inside position covered, WordUpdate.bytes_length,
        if_neg (by omega)]
  · intro first second
    have firstInside := first.place_inside store.toTuples
    have secondInside := second.place_inside store.toTuples
    constructor
    · intro different
      refine ⟨_, first.wp_run_run store, ?_⟩
      rw [writeAt_comm]
      · exact second.wp_run_run store
      · rw [WordUpdate.bytes_length]
        omega
      · rw [WordUpdate.bytes_length]
        omega
      · rw [WordUpdate.bytes_length, WordUpdate.bytes_length]
        exact WordUpdate.place_apart store different
    · intro same
      obtain ⟨ids, positions⟩ := Prod.mk.inj same
      have offsets : first.offset = second.offset :=
        first.live.unique (by rw [ids]; exact second.live)
      have places : first.place = second.place := by
        rw [WordUpdate.place, WordUpdate.place, offsets, positions]
      refine ⟨_, first.wp_run_run store, ?_⟩
      rw [places, writeAt_replace _ _ (by simp)]
      exact second.wp_run store.toTuples

/-- An eight for the field of this node. -/
def eightFor {schema : TreeSchema} {id offset : Nat}
    (types : schema.types = [INT]) (live : LiveAt schema id offset) :
    WordUpdate schema :=
  ⟨id, offset, 0, 8, [], live, INT, by decide, by rw [types]; rfl⟩

/-- The numbers of two nodes are replaced, in either order, and that of one of
them is replaced twice. -/
theorem updateNode_word_two :
    wp (updateNode 0 0 (leBytes 8 8) 1) (fun _ final =>
      ChangesWord twoSevens final.file 620 8) (blankWorld twoSevens) ∧
    SameFile
      (do let _ ← updateNode 0 0 (leBytes 8 8) 0; updateNode 0 0 (leBytes 8 8) 1)
      (do let _ ← updateNode 0 0 (leBytes 8 8) 1; updateNode 0 0 (leBytes 8 8) 0)
      (blankWorld twoSevens) ∧
    SameFile
      (do let _ ← updateNode 0 0 (leBytes 8 9) 1; updateNode 0 0 (leBytes 8 8) 1)
      (updateNode 0 0 (leBytes 8 8) 1) (blankWorld twoSevens) := by
  obtain ⟨tuples, ⟨first, second⟩, template, -⟩ := twoSevens_stored
  have types : (schemaOf twoSevens).types = [INT] := by
    rw [TreeSchema.types, template]
    rfl
  generalize twoSevens = file at tuples first second types ⊢
  obtain ⟨changes, laws⟩ := @updateNode_word (blankWorld file) _ tuples 0
  refine ⟨changes (eightFor types second), ?_, ?_⟩
  · exact (laws (eightFor types first) (eightFor types second)).1
      (by simp [eightFor])
  · exact (laws { eightFor types second with word := 9 }
      (eightFor types second)).2 rfl

end TreeStore
