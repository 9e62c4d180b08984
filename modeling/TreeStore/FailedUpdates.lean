import TreeStore.UpdateSteps
import TreeStore.WellFormed

/-!
# Failed updates

A failed update leaves the file alone exactly when the steps before the refusal
write what is there.  Writes of numbers change the words of the tuple as the
settings say; what is written into a string depends on the memory, and memory
that is uniform shows that it changes.
-/

namespace TreeStore

open ByteFile ProgramLogic LinkedRecords Assignments

section Numbers

variable {ε : Type} {img : Image} {node : NodeImage} {record : KeyNode}
  {world : World} {fuel stack id value : Nat}

theorem leValue_leBytes_append {value : Nat} (small : value < 2 ^ 64)
    (behind : List UInt8) :
    leValue ((leBytes 8 value ++ behind).take 8) = value := by
  rw [List.take_append_of_le_length (by simp),
    List.take_of_length_le (by simp), leValue_leBytes (by simpa using small)]

theorem LiveNode.wp_updateWord_number {position : Nat}
    {post : Unit → World → Prop} (live : LiveNode img id node world.file)
    (here : img.recs node.slot = some record)
    (inside : position < img.types.length)
    (number : img.types[position]? ≠ some STRING) (small : value < 2 ^ 64)
    (next : ∀ pos blocks, post ()
      { world with
        file := writeAt world.file (img.slotOffset node.slot)
          (record.setWord position value).bytes
        pos := pos
        blocks := blocks }) :
    wp (updateWord fuel stack position value id) post world := by
  rw [updateWord, wp_bind]
  refine wp_malloc fun behind blocks _ => ?_
  rw [wp_bind]
  refine LiveNode.wp_updateNode_number (by exact live) here inside number ?_
  intro word pos blocks _ stored
  rw [stored (by simp), leValue_leBytes_append small, wp_pure]
  exact next pos blocks

theorem wp_load {source : ValueSource} {known : Option Nat}
    {post : Nat → World → Prop} (fits : source.Small)
    (number : source ≠ .address)
    (holds : ∀ word, known = some word → value = word)
    (small : value < 2 ^ 64)
    (next : ∀ loaded, loaded < 2 ^ 64 →
      (∀ word, source.known known = some word → loaded = word) →
      post loaded world) :
    wp (source.load value) post world := by
  cases source with
  | number word =>
      rw [ValueSource.load, wp_pure]
      exact next word fits fun _ same => Option.some.inj same
  | address => exact absurd rfl number
  | keep =>
      rw [ValueSource.load, wp_pure]
      exact next value small holds

/-- Writing the tuple that is there. -/
theorem LiveNode.writeAt_tuple {file : List UInt8}
    (live : LiveNode img id node file)
    (here : img.recs node.slot = some record) :
    writeAt file (img.slotOffset node.slot) record.bytes = file := by
  obtain ⟨-, inside, fits, stored⟩ := live.holds.record _ _ here
  apply stored.writeAt_self
  rw [img.bytes_length record fits]
  exact live.holds.slotOffset_lt inside

/-- Steps that write only numbers change only the words of the tuple, and these
as the settings say. -/
theorem LiveNode.wp_runSteps_numbers {steps : List (Step ε)}
    {result : Option ε}
    (known : Option Nat) (cells : List (Option Nat))
    (live : LiveNode img id node world.file)
    (here : img.recs node.slot = some record)
    (fits : ∀ step ∈ steps, step.Fits img.types)
    (numbers : ∀ write ∈ writesBefore known steps,
      img.types[write.1]? ≠ some STRING)
    (holds : ∀ word, known = some word → value = word)
    (small : value < 2 ^ 64) (ends : ending steps = some result)
    (agree : Agree cells record.words)
    (same : cells.length = record.words.length) :
    wp (runSteps fuel stack id value steps) (fun _ final =>
      ∃ record' : KeyNode, record'.header = record.header ∧
        record'.data.length = record.data.length ∧
        Agree (assign (writesBefore known steps) cells) record'.words ∧
        final.file = writeAt world.file (img.slotOffset node.slot)
          record'.bytes) world := by
  induction steps generalizing img node record world value known cells with
  | nil =>
      rw [runSteps, wp_pure]
      exact ⟨record, rfl, rfl, agree, (live.writeAt_tuple here).symm⟩
  | cons step steps ih =>
      cases step with
      | crash fault => cases ends
      | refuse code =>
          rw [runSteps, wp_pure]
          exact ⟨record, rfl, rfl, agree, (live.writeAt_tuple here).symm⟩
      | write position source =>
          obtain ⟨sourceSmall, type, typed, address⟩ :=
            fits _ List.mem_cons_self
          have number := numbers _ List.mem_cons_self
          have inside := (List.getElem?_eq_some_iff.mp typed).1
          have notAddress : source ≠ .address := fun isAddress =>
            number (by rw [typed, address.mp isAddress])
          obtain ⟨-, -, recordFits, -⟩ := live.holds.record _ _ here
          have sized : record.data.length = img.realSize :=
            recordFits.data_length
          have wordInside : 8 * position + 8 ≤ record.data.length := by
            rw [sized]
            exact live.word_inside inside
          rw [runSteps, wp_bind]
          refine wp_load sourceSmall notAddress holds small ?_
          intro loaded loadedSmall loadedHolds
          rw [wp_bind]
          refine live.wp_updateWord_number here inside number loadedSmall ?_
          intro pos blocks
          obtain ⟨old, fieldFound⟩ :=
            live.nodeAt.fieldsAt.field_of_not_string inside number
          have live' := live.setWord here fieldFound loadedSmall
          have length' : (record.setWord position loaded).data.length =
              record.data.length := KeyNode.setWord_length wordInside
          have words' : (record.setWord position loaded).words =
              record.words.set position loaded :=
            KeyNode.words_setWord (by rw [sized]; exact img.eight_dvd_realSize)
              wordInside loadedSmall
          refine wp_mono (@ih _ _ (record.setWord position loaded)
            ⟨_, pos, _, blocks⟩ _ (source.known known)
            (cells.set position (source.known known)) live'
            (Function.update_self _ _ _)
            (fun step member => fits step (List.mem_cons_of_mem _ member))
            (fun write member => numbers write (List.mem_cons_of_mem _ member))
            loadedHolds loadedSmall ends
            (by rw [words']; exact agree.set same loadedHolds)
            (by rw [words', List.length_set, List.length_set]; exact same)) ?_
          rintro _ final ⟨record', headerEq, lengthEq, agree', fileEq⟩
          refine ⟨record', headerEq, lengthEq.trans length', agree', ?_⟩
          rw [fileEq]
          apply writeAt_replace
          simp only [KeyNode.bytes, List.length_append, NodeHeader.bytes_length]
          rw [lengthEq]

/-- Steps that leave the words of the tuple leave the file. -/
theorem LiveNode.unchanged_of_leavesWords {steps : List (Step ε)} {code : ε}
    (live : LiveNode img id node world.file)
    (here : img.recs node.slot = some record)
    (fits : ∀ step ∈ steps, step.Fits img.types)
    (leaves : LeavesWords record.words steps)
    (refused : refusal steps = some code) :
    wp (runUpdate fuel stack id steps) (fun _ final =>
      final.file = world.file) world := by
  obtain ⟨-, -, recordFits, -⟩ := live.holds.record _ _ here
  have whole : 8 ∣ record.data.length := by
    rw [recordFits.data_length]
    exact img.eight_dvd_realSize
  have isSome : (refusal steps).isSome := by rw [refused]; rfl
  have enough : img.types.length ≤ record.words.length := by
    have := live.holds.types_length
    have := mul_le_getRealNodeSize img.templateSize
    rw [record.words_length, recordFits.data_length, Image.realSize]
    omega
  rw [runUpdate, wp_bind]
  refine wp_unsetWord_lt fun value blocks small => ?_
  refine wp_mono (LiveNode.wp_runSteps_numbers none
    (record.words.map some) (by exact live) here fits
    (fun write => leaves.no_string isSome fits enough) (by simp) small
    (ending_of_refusal refused)
    (by simp [Agree]) (by simp)) ?_
  rintro _ final ⟨record', headerEq, lengthEq, agree, fileEq⟩
  rw [leaves isSome] at agree
  have wordsEq : record'.words = record.words := by
    apply List.ext_getElem
    · rw [record'.words_length, record.words_length, lengthEq]
    · intro position inside' inside
      have known := agree position record.words[position] (by simp)
      exact Option.some.inj ((List.getElem?_eq_getElem inside').symm.trans known)
  rw [fileEq, KeyNode.eq_of_words whole lengthEq headerEq wordsEq]
  exact live.writeAt_tuple here

end Numbers

section Uniform

variable {ε : Type} {img : Image} {node : NodeImage} {world : World}
  {fuel id value : Nat} {char : UInt8}

/-- Memory in which every block starts with the same characters, and a block of
a record's size is a text that fills all of it but its last word. -/
def uniformHeap (realSize : Nat) (char : UInt8) (_ index : Nat) : UInt8 :=
  if index < realSize - 8 then char else 0

/-- The word that uniform memory holds. -/
def uniformWord (char : UInt8) : Nat :=
  leValue (List.replicate 8 char)

/-- What a write leaves in a field: the number, or where that is not known what
uniform memory holds. -/
def FieldImage.Written (realSize : Nat) (char : UInt8) :
    Option Nat → FieldImage → Prop
  | some word, field => field = .num word
  | none, .num word => word = uniformWord char
  | none, .str chain => ∃ slot rest,
      chain = (slot, List.replicate realSize char) :: rest

/-- The field holds the word of the cell; where that is not known, it was
written from uniform memory. -/
def FieldImage.Marked (address : Nat → Nat) (realSize : Nat) (char : UInt8)
    (cell : Option Nat) (field : FieldImage) : Prop :=
  match cell with
  | some word => field.word address = word
  | none => field.Written realSize char none

theorem FieldImage.Written.marked {address : Nat → Nat} {realSize : Nat}
    {cell : Option Nat} {field : FieldImage}
    (written : field.Written realSize char cell) :
    field.Marked address realSize char cell := by
  cases cell with
  | none => exact written
  | some word =>
      obtain rfl := written
      rfl

theorem wp_malloc_eq {size : Nat} {post : List UInt8 → World → Prop} :
    wp (malloc size) post world ↔
      post ((List.range size).map (world.heap world.blocks))
        { world with blocks := world.blocks + 1 } := by
  rw [malloc, wp_modifyGet]

theorem uniform_block {realSize size block : Nat}
    (short : size ≤ realSize - 8) :
    (List.range size).map (uniformHeap realSize char block) =
      List.replicate size char := by
  rw [List.eq_replicate_iff]
  refine ⟨by simp, ?_⟩
  intro byte member
  obtain ⟨index, inside, rfl⟩ := List.mem_map.mp member
  rw [List.mem_range] at inside
  rw [uniformHeap, if_pos (by omega)]

theorem uniform_behind {realSize block : Nat} (large : 8 ≤ realSize) :
    (List.range realSize).map (uniformHeap realSize char block) =
      List.replicate (realSize - 8) char ++ List.replicate 8 0 := by
  obtain ⟨rest, rfl⟩ := Nat.exists_eq_add_of_le' large
  rw [List.range_add, List.map_append, Nat.add_sub_cancel]
  refine congrArg₂ _ (uniform_block (by omega)) ?_
  rw [List.eq_replicate_iff]
  simp [uniformHeap]

/-- What a STRING field is given in uniform memory. -/
theorem uniform_text {realSize block : Nat} (large : 8 ≤ realSize) :
    leBytes 8 (uniformWord char) ++
        (List.range realSize).map (uniformHeap realSize char block) =
      List.replicate realSize char ++ 0 :: List.replicate 7 0 := by
  have word : leBytes 8 (uniformWord char) = List.replicate 8 char := by
    have := leBytes_leValue (List.replicate 8 char)
    rwa [List.length_replicate] at this
  rw [word, uniform_behind large, ← List.append_assoc,
    List.replicate_append_replicate, Nat.add_sub_cancel' large]
  rfl

theorem uniformWord_lt (char : UInt8) : uniformWord char < 2 ^ 64 := by
  have bound := leValue_lt (List.replicate 8 char)
  rw [List.length_replicate] at bound
  exact bound

theorem LiveNode.wp_updateWord_string {position : Nat}
    {chain : List (Nat × List UInt8)} {post : Unit → World → Prop}
    (live : LiveNode img id node world.file)
    (heap : world.heap = uniformHeap img.realSize char)
    (fieldFound : node.fields[position]? = some (.str chain))
    (visible : char ≠ 0) (enough : img.top ≤ fuel)
    (next : ∀ recs file pos blocks slot rest,
      LiveNode { img with recs := recs } id (node.setField position
        (.str ((slot, List.replicate img.realSize char) :: rest))) file →
      post () { world with file := file, pos := pos, blocks := blocks }) :
    wp (updateWord fuel img.realSize position (uniformWord char) id) post
      world := by
  have large := getRealNodeSize_ge img.templateSize
  have plain : 0 ∉ List.replicate img.realSize char := by
    intro zero
    exact visible (List.eq_of_mem_replicate zero).symm
  obtain ⟨nonempty, -⟩ :=
    live.nodeAt.fieldsAt.chains chain (List.mem_of_getElem? fieldFound)
  obtain ⟨⟨slot, data⟩, rest, rfl⟩ := List.exists_cons_of_ne_nil nonempty
  have text : leBytes 8 (uniformWord char) ++ (List.range img.realSize).map
      (world.heap world.blocks) =
        List.replicate img.realSize char ++ 0 :: List.replicate 7 0 := by
    rw [heap]
    exact uniform_text (by simp only [Image.realSize]; omega)
  rw [updateWord, wp_bind, wp_malloc_eq, text, wp_bind]
  refine LiveNode.wp_updateNode_string (by exact live) fieldFound
    (by simp) Nat.one_pos (by simp) ?_ enough ?_
  · rw [textOf_append_zero plain, List.length_replicate, Nat.mul_one]
  · intro recs file pos blocks _ live'
    rw [wp_pure]
    apply next recs file pos blocks slot rest
    have first : overwrite img.realSize 1 ((slot, data) :: rest)
        (List.replicate img.realSize char ++ 0 :: List.replicate 7 0) =
          (slot, List.replicate img.realSize char) :: rest := by
      rw [overwrite, overwrite_zero, List.take_left' (by simp)]
    rw [← first]
    exact live'

/-- One write in uniform memory. -/
theorem LiveNode.wp_write_uniform {position type : Nat} {source : ValueSource}
    {known : Option Nat} {rest : Nat → Prog (Option ε)}
    {post : Option ε → World → Prop} (live : LiveNode img id node world.file)
    (heap : world.heap = uniformHeap img.realSize char) (visible : char ≠ 0)
    (enough : img.top ≤ fuel) (typed : img.types[position]? = some type)
    (address : source = .address ↔ type = STRING) (fits : source.Small)
    (small : value < 2 ^ 64) (holds : value = known.getD (uniformWord char))
    (next : ∀ loaded recs file pos blocks field', loaded < 2 ^ 64 →
      loaded = (source.known known).getD (uniformWord char) →
      field'.Written img.realSize char (source.known known) →
      LiveNode { img with recs := recs } id (node.setField position field')
        file →
      wp (rest loaded) post
        { world with file := file, pos := pos, blocks := blocks }) :
    wp (do
      let value ← source.load value
      updateWord fuel img.realSize position value id
      rest value) post world := by
  have inside := (List.getElem?_eq_some_iff.mp typed).1
  by_cases string : type = STRING
  · obtain rfl := address.mpr string
    obtain ⟨chain, fieldFound⟩ := live.nodeAt.fieldsAt.field_of_string
      (typed.trans (congrArg some string))
    have loadedEq : leValue ((List.range 8).map (world.heap world.blocks)) =
        uniformWord char := by
      have large := getRealNodeSize_ge img.templateSize
      rw [heap, uniform_block (by simp only [Image.realSize]; omega)]
      rfl
    rw [wp_bind, ValueSource.load, unsetWord, wp_map, wp_malloc_eq, loadedEq,
      wp_bind]
    refine LiveNode.wp_updateWord_string (by exact live) heap fieldFound visible
      enough ?_
    intro recs file pos blocks slot rest live'
    exact next _ recs file pos blocks
      (.str ((slot, List.replicate img.realSize char) :: rest))
      (uniformWord_lt char) rfl ⟨slot, rest, rfl⟩ live'
  · have number : img.types[position]? ≠ some STRING := by
      rw [typed]
      exact fun same => string (Option.some.inj same)
    obtain ⟨record, here, -⟩ := live.nodeAt.tuple
    obtain ⟨old, fieldFound⟩ :=
      live.nodeAt.fieldsAt.field_of_not_string inside number
    have loads : ∃ loaded, source.load value = pure loaded ∧
        loaded < 2 ^ 64 ∧
        loaded = (source.known known).getD (uniformWord char) := by
      cases source with
      | number word => exact ⟨word, rfl, fits, rfl⟩
      | address => exact absurd (address.mp rfl) string
      | keep => exact ⟨value, rfl, small, holds⟩
    obtain ⟨loaded, load, loadedSmall, loadedEq⟩ := loads
    rw [load, pure_bind, wp_bind]
    refine live.wp_updateWord_number here inside number loadedSmall ?_
    intro pos blocks
    refine next loaded _ _ pos blocks (.num loaded) loadedSmall loadedEq ?_
      (live.setWord here fieldFound loadedSmall)
    cases value' : source.known known with
    | none =>
        rw [value'] at loadedEq
        exact loadedEq
    | some word =>
        rw [value'] at loadedEq
        exact congrArg FieldImage.num loadedEq

/-- All fields are as their cells say. -/
def NodeImage.Marked {β : Type} (mark : β → FieldImage → Prop)
    (node : NodeImage) (cells : List β) : Prop :=
  ∀ (position : Nat) (cell : β) (field : FieldImage),
    cells[position]? = some cell → node.fields[position]? = some field →
      mark cell field

theorem NodeImage.Marked.setField {β : Type} {mark : β → FieldImage → Prop}
    {position : Nat} {cells : List β} {field' : FieldImage} {value : β}
    (marked : node.Marked mark cells) (new : mark value field') :
    (node.setField position field').Marked mark (cells.set position value) := by
  intro other cell field cellFound found
  by_cases same : position = other
  · subst same
    have cellInside := (List.getElem?_eq_some_iff.mp cellFound).1
    have fieldInside := (List.getElem?_eq_some_iff.mp found).1
    rw [NodeImage.setField, List.length_set] at fieldInside
    rw [List.length_set] at cellInside
    rw [List.getElem?_set_self cellInside] at cellFound
    rw [NodeImage.setField, List.getElem?_set_self fieldInside] at found
    cases cellFound
    cases found
    exact new
  · rw [List.getElem?_set_ne same] at cellFound
    rw [NodeImage.setField, List.getElem?_set_ne same] at found
    exact marked other cell field cellFound found

/-- The writes as assignments of cells. -/
def cellWrites {β : Type} (cellOf : Option Nat → β)
    (writes : List (Nat × Option Nat)) : List (Nat × β) :=
  writes.map fun write => (write.1, cellOf write.2)

/-- In uniform memory the steps before the end leave every field marked. -/
theorem LiveNode.wp_runSteps_uniform {β : Type} {mark : β → FieldImage → Prop}
    {cellOf : Option Nat → β} {known : Option Nat}
    {steps : List (Step ε)} {cells : List β} {result : Option ε}
    (live : LiveNode img id node world.file)
    (heap : world.heap = uniformHeap img.realSize char) (visible : char ≠ 0)
    (enough : img.top ≤ fuel) (fits : ∀ step ∈ steps, step.Fits img.types)
    (small : value < 2 ^ 64) (holds : value = known.getD (uniformWord char))
    (ends : ending steps = some result)
    (marks : ∀ value (field : FieldImage),
      field.Written img.realSize char value → mark (cellOf value) field)
    (marked : node.Marked mark cells) :
    wp (runSteps fuel img.realSize id value steps) (fun result' final =>
      result' = result ∧ ∃ recs node', node'.slot = node.slot ∧
        LiveNode { img with recs := recs } id node' final.file ∧
        node'.Marked mark
          (assign (cellWrites cellOf (writesBefore known steps)) cells))
      world := by
  induction steps generalizing img node world value known cells with
  | nil =>
      cases ends
      rw [runSteps, wp_pure]
      exact ⟨rfl, img.recs, node, rfl, live, marked⟩
  | cons step steps ih =>
      cases step with
      | crash fault => cases ends
      | refuse code =>
          cases ends
          rw [runSteps, wp_pure]
          exact ⟨rfl, img.recs, node, rfl, live, marked⟩
      | write position source =>
          obtain ⟨sourceSmall, type, typed, address⟩ :=
            fits _ List.mem_cons_self
          rw [runSteps]
          refine live.wp_write_uniform heap visible enough typed address
            sourceSmall small holds ?_
          intro loaded recs file pos blocks field' loadedSmall loadedHolds
            written live'
          exact @ih { img with recs := recs } (node.setField position field')
            { world with file := file, pos := pos, blocks := blocks } loaded
            (source.known known) (cells.set position
              (cellOf (source.known known))) live' heap enough
            (fun step member => fits step (List.mem_cons_of_mem _ member))
            loadedSmall loadedHolds ends marks
            (marked.setField (marks _ _ written))

/-- A node with a tuple and uniform memory: what an update of it starts from. -/
theorem LiveNode.wp_runUpdate_uniform {β : Type}
    {mark : β → FieldImage → Prop} {cellOf : Option Nat → β}
    {steps : List (Step ε)} {cells : List β} {result : Option ε}
    {file : List UInt8} (live : LiveNode img id node file)
    (visible : char ≠ 0) (fits : ∀ step ∈ steps, step.Fits img.types)
    (ends : ending steps = some result)
    (marks : ∀ value (field : FieldImage),
      field.Written img.realSize char value → mark (cellOf value) field)
    (marked : node.Marked mark cells) :
    wp (runUpdate file.length img.realSize id steps) (fun result' final =>
      result' = result ∧ ∃ recs node', node'.slot = node.slot ∧
        LiveNode { img with recs := recs } id node' final.file ∧
        node'.Marked mark
          (assign (cellWrites cellOf (writesBefore none steps)) cells))
      ⟨file, 0, uniformHeap img.realSize char, 0⟩ := by
  have loadedEq : leValue ((List.range 8).map
      (uniformHeap img.realSize char 0)) = uniformWord char := by
    have := getRealNodeSize_ge img.templateSize
    rw [uniform_block (by simp only [Image.realSize]; omega)]
    rfl
  rw [runUpdate, wp_bind, unsetWord, wp_map, wp_malloc_eq, loadedEq]
  exact LiveNode.wp_runSteps_uniform (by exact live) rfl visible
    live.holds.top_le_length fits (uniformWord_lt char) rfl ends marks marked

/-- Every field is unmarked for some character. -/
theorem FieldImage.exists_unmarked {address : Nat → Nat} {realSize : Nat}
    (large : 8 ≤ realSize) (field : FieldImage) :
    ∃ char : UInt8, char ≠ 0 ∧ ¬ field.Marked address realSize char none := by
  by_contra all
  push Not at all
  have one := all 1 (by decide)
  have two := all 2 (by decide)
  cases field with
  | num word => exact absurd (one.symm.trans two) (by decide)
  | str chain =>
      obtain ⟨slot, rest, same⟩ := one
      obtain ⟨slot', rest', same'⟩ := two
      rw [same] at same'
      obtain ⟨size, rfl⟩ := Nat.exists_eq_add_of_le' large
      simp [List.replicate_succ] at same'

/-- Two images of a node in one file have the same words, and a mark that one of
them has the other one has as well. -/
theorem LiveNode.fields_agree {file : List UInt8} {node' : NodeImage}
    {recs : Nat → Option KeyNode} {position : Nat} {field field' : FieldImage}
    (live : LiveNode img id node file)
    (live' : LiveNode { img with recs := recs } id node' file)
    (same : node'.slot = node.slot)
    (found : node.fields[position]? = some field)
    (found' : node'.fields[position]? = some field') :
    field'.word img.slotOffset = field.word img.slotOffset ∧
      (field'.Marked img.slotOffset img.realSize char none →
        field.Marked img.slotOffset img.realSize char none) := by
  have recordAt {recs : Nat → Option KeyNode} {slot : Nat} {record : KeyNode}
      (holds : Image.Holds { img with recs := recs } file)
      (known : recs slot = some record) :
      RecordAt file img.schema (img.slotOffset slot) record := by
    obtain ⟨-, -, fits, here⟩ := holds.record _ _ known
    exact ⟨fits, here⟩
  obtain ⟨record, known, tupleAt⟩ := live.nodeAt.tuple
  obtain ⟨record', known', tupleAt'⟩ := live'.nodeAt.tuple
  rw [same] at known'
  obtain rfl := (recordAt live.holds known).unique (recordAt live'.holds known')
  have words : field'.word img.slotOffset = field.word img.slotOffset :=
    (tupleAt'.words _ _ found').symm.trans (tupleAt.words _ _ found)
  refine ⟨words, fun marked => ?_⟩
  have typed := live.nodeAt.fieldsAt.typed _ _ found
  have typed' := live'.nodeAt.fieldsAt.typed _ _ found'
  cases field with
  | num word =>
      cases field' with
      | num word' => exact words.symm.trans marked
      | str chain' =>
          obtain ⟨_, ⟨⟩⟩ := typed.mp (typed'.mpr ⟨chain', rfl⟩)
  | str chain =>
      cases field' with
      | num word' =>
          obtain ⟨_, ⟨⟩⟩ := typed'.mp (typed.mpr ⟨chain, rfl⟩)
      | str chain' =>
          obtain ⟨nonempty, linked⟩ := live.nodeAt.fieldsAt.chains chain
            (List.mem_of_getElem? found)
          obtain ⟨slot', rest', rfl⟩ := marked
          obtain ⟨⟨slot, data⟩, rest, rfl⟩ :=
            List.exists_cons_of_ne_nil nonempty
          obtain rfl : slot' = slot := img.slotOffset_inj.mp words
          have linked' := (live'.nodeAt.fieldsAt.chains _
            (List.mem_of_getElem? found')).2
          have records := (recordAt live.holds linked.1).unique
            (recordAt live'.holds linked'.1)
          obtain ⟨-, -, dataEq⟩ := stringRecord_inj records
          exact ⟨slot', rest, by rw [dataEq]⟩

/-- A failed update that never changes the file leaves the words. -/
theorem LiveNode.leavesWords_of_unchanged {file : List UInt8}
    {record : KeyNode} {steps : List (Step ε)}
    (live : LiveNode img id node file)
    (here : img.recs node.slot = some record)
    (fits : ∀ step ∈ steps, step.Fits img.types)
    (unchanged : ∀ (world : World) fuel stack code final,
      refusal steps = some code → world.file = file → file.length ≤ fuel →
      (runUpdate fuel stack id steps).run world = .ok (some code, final) →
      final.file = file) : LeavesWords record.words steps := by
  intro isSome
  obtain ⟨code, refused⟩ := Option.isSome_iff_exists.mp isSome
  have large : 8 ≤ img.realSize :=
    le_trans (by norm_num) (getRealNodeSize_ge img.templateSize)
  obtain ⟨-, -, recordFits, -⟩ := live.holds.record _ _ here
  obtain ⟨_, same, tupleAt⟩ := live.nodeAt.tuple
  cases here.symm.trans same
  apply List.ext_getElem?
  intro position
  by_cases inside : position < img.types.length
  swap
  · apply assign_of_notMem
    intro member
    obtain ⟨write, written, rfl⟩ := List.mem_map.mp member
    exact inside (writesBefore_inside fits written)
  have fieldInside : position < node.fields.length := by
    rw [live.nodeAt.fieldsAt.count]
    exact inside
  have found := List.getElem?_eq_getElem fieldInside
  obtain ⟨char, visible, unmarked⟩ :=
    FieldImage.exists_unmarked large node.fields[position]
  -- the words are known before the first step
  have word_eq {position : Nat} {field : FieldImage}
      (found : node.fields[position]? = some field) :
      (record.words.map some)[position]? =
        some (some (field.word img.slotOffset)) := by
    have inside := (List.getElem?_eq_some_iff.mp found).1
    rw [live.nodeAt.fieldsAt.count] at inside
    rw [List.getElem?_map, KeyNode.words_getElem?
      (by rw [recordFits.data_length]; exact live.word_inside inside),
      tupleAt.words _ _ found]
    rfl
  have marked : node.Marked
      (FieldImage.Marked img.slotOffset img.realSize char)
      (record.words.map some) := by
    intro other cell field cellFound found
    rw [word_eq found] at cellFound
    cases cellFound
    rfl
  have marks (value : Option Nat) (field : FieldImage)
      (written : field.Written img.realSize char value) :
      field.Marked img.slotOffset img.realSize char value := written.marked
  obtain ⟨result, final, ran, rfl, recs, node', sameSlot, live', marked'⟩ :=
    live.wp_runUpdate_uniform visible fits (ending_of_refusal refused) marks
      marked
  have sameWrites : cellWrites (fun cell => cell) (writesBefore none steps) =
      writesBefore none steps := by
    simp [cellWrites]
  rw [sameWrites] at marked'
  rw [unchanged _ file.length img.realSize code final refused rfl le_rfl ran]
    at live'
  have fieldInside' : position < node'.fields.length := by
    rw [live'.nodeAt.fieldsAt.count]
    exact inside
  have found' := List.getElem?_eq_getElem fieldInside'
  obtain ⟨words, marks⟩ := live.fields_agree live' sameSlot found found'
  have cellInside : position <
      (assign (writesBefore none steps) (record.words.map some)).length := by
    rw [assign_length]
    exact (List.getElem?_eq_some_iff.mp (word_eq found)).1
  have cellFound := List.getElem?_eq_getElem cellInside
  have mark := marked' _ _ _ cellFound found'
  rw [cellFound, word_eq found]
  cases cell : (assign (writesBefore none steps)
      (record.words.map some))[position] with
  | none =>
      rw [cell] at mark
      exact absurd (marks mark) unmarked
  | some word =>
      rw [cell] at mark
      rw [← words, ← mark]

end Uniform

/-- Wherever the program returns another code than that of success, the file is
the old one. -/
def UnchangedOnError {ε : Type} (success : ε) (program : Nat → Nat → Prog ε)
    (file : List UInt8) : Prop :=
  ∀ world fuel stack code final, world.file = file → file.length ≤ fuel →
    (program fuel stack).run world = .ok (code, final) → code ≠ success →
    final.file = file

section Failed

variable {ε : Type} {file : List UInt8} {schema : TreeSchema}
  {id offset : Nat} {record : KeyNode} {steps : List (Step ε)}

theorem refusal_mem {code : ε} (refused : refusal steps = some code) :
    Step.refuse code ∈ steps := by
  induction steps with
  | nil => cases refused
  | cons step steps ih =>
      cases step with
      | refuse code' =>
          cases refused
          exact List.mem_cons_self
      | crash fault => cases refused
      | write position source => exact List.mem_cons_of_mem _ (ih refused)

/-- A run that returns ends as the steps do. -/
theorem runSteps_ending {fuel stack value : Nat} {world final : World}
    {result : Option ε}
    (runs : (runSteps fuel stack id value steps).run world =
      .ok (result, final)) : ending steps = some result := by
  induction steps generalizing value world with
  | nil =>
      cases runs
      rfl
  | cons step steps ih =>
      cases step with
      | refuse code =>
          cases runs
          rfl
      | crash fault => cases runs
      | write position source =>
          obtain ⟨loaded, first, -, runs⟩ := exists_of_run_bind runs
          obtain ⟨_, second, -, runs⟩ := exists_of_run_bind runs
          exact ih runs

/-- What an update returns is how its steps end. -/
theorem runUpdate_ending {fuel stack : Nat} {world final : World}
    {success code : ε}
    (runs : ((·.getD success) <$> runUpdate fuel stack id steps).run world =
      .ok (code, final)) :
    ∃ result, code = result.getD success ∧ ending steps = some result ∧
      (runUpdate fuel stack id steps).run world = .ok (result, final) := by
  rw [← bind_pure_comp] at runs
  obtain ⟨result, middle, ran, ends⟩ := exists_of_run_bind runs
  cases ends
  obtain ⟨value, between, -, later⟩ := exists_of_run_bind ran
  exact ⟨result, rfl, runSteps_ending later, ran⟩

/-- A failed update leaves the file exactly where the steps before the refusal
leave the words of the tuple. -/
theorem unchanged_iff {success : ε} (sound : Sound file)
    (stored : SchemaAt file schema) (liveAt : LiveAt schema id offset)
    (here : RecordAt file schema offset record)
    (fits : ∀ step ∈ steps, step.Fits schema.types)
    (codes : ∀ step ∈ steps, step ≠ .refuse success) :
    UnchangedOnError success (fun fuel stack =>
        (·.getD success) <$> runUpdate fuel stack id steps) file ↔
      LeavesWords record.words steps := by
  obtain ⟨img, node, rfl, live, rfl⟩ := sound.exists_liveNode stored liveAt
  obtain ⟨record', known, -⟩ := live.nodeAt.tuple
  obtain ⟨-, -, fits', here'⟩ := live.holds.record _ _ known
  obtain rfl := here.unique ⟨fits', here'⟩
  constructor
  · intro unchanged
    apply live.leavesWords_of_unchanged known fits
    rintro world fuel stack code final refused same enough runs
    apply unchanged world fuel stack code final same enough
    · rw [StateT.run_map, runs]
      rfl
    · rintro rfl
      exact codes _ (refusal_mem refused) rfl
  · rintro leaves world fuel stack code final rfl enough runs failed
    obtain ⟨result, rfl, ends, ran⟩ := runUpdate_ending runs
    obtain rfl := refusal_of_ending ends
    cases refused : refusal steps with
    | none =>
        rw [refused] at failed
        exact absurd rfl failed
    | some code =>
        have kept := wp_of_run
          (live.unchanged_of_leavesWords known fits leaves refused) ran
        exact kept

theorem unchanged_idFormat {strtod : CharPtr → UInt64}
    {behind idStr : CharPtr} {pairs : List CharPtr}
    {template : List NodeAttributeInfo} (word : ¬ isNumeric idStr) :
    UnchangedOnError .success (fun fuel stack =>
      storageUpdateNode strtod behind fuel stack idStr pairs template) file := by
  rintro world fuel stack code final rfl enough runs -
  have keeps : wp (storageUpdateNode strtod behind fuel stack idStr pairs
      template) (fun _ final => final.file = world.file) world := by
    rw [storageUpdateNode, wp_bind]
    refine wp_unsetWord fun value blocks => ?_
    rw [if_neg word, wp_pure]
  have kept := wp_of_run keeps runs
  exact kept

end Failed

/-- A failed update of either kind leaves the file exactly where the settings
before the refused one leave the words of the tuple. -/
theorem failedUpdate_iff {file : List UInt8} {schema : TreeSchema}
    {id offset : Nat} {record : KeyNode} (sound : Sound file)
    (stored : SchemaAt file schema) (live : LiveAt schema id offset)
    (here : RecordAt file schema offset record) :
    (∀ settings, UnchangedOnError 0 (fun fuel stack =>
        storageUpdateNodeNew fuel stack id settings schema.nodesTemplate) file ↔
      LeavesWords record.words
        (settings.map (settingStep schema.nodesTemplate))) ∧
    ∀ strtod behind idStr pairs, (isNumeric idStr → atoiDigits idStr = id) →
      (UnchangedOnError .success (fun fuel stack => storageUpdateNode strtod
        behind fuel stack idStr pairs schema.nodesTemplate) file ↔
      (isNumeric idStr → LeavesWords record.words
        (pairs.map (pairStep strtod behind schema.nodesTemplate)))) := by
  constructor
  · intro settings
    simp only [storageUpdateNodeNew_eq]
    refine unchanged_iff sound stored live here ?_ ?_
    · intro step member
      obtain ⟨kv, -, rfl⟩ := List.mem_map.mp member
      exact settingStep_fits kv
    · intro step member
      obtain ⟨kv, -, rfl⟩ := List.mem_map.mp member
      exact settingStep_ne_ok kv
  · intro strtod behind idStr pairs names
    by_cases numeric : isNumeric idStr
    · rw [forall_prop_of_true numeric]
      simp only [storageUpdateNode_eq numeric, names numeric]
      refine unchanged_iff sound stored live here ?_ ?_
      · intro step member
        obtain ⟨str, -, rfl⟩ := List.mem_map.mp member
        exact pairStep_fits str
      · intro step member
        obtain ⟨str, -, rfl⟩ := List.mem_map.mp member
        exact pairStep_ne_success str
    · exact ⟨fun _ isNumber => absurd isNumber numeric,
        fun _ => unchanged_idFormat numeric⟩

/-- The node of `oneSeven`. -/
def sevenRecord : KeyNode :=
  ⟨⟨7, 0⟩, leBytes 8 7 ++ List.replicate 248 0⟩

theorem oneSeven_stored : Sound oneSeven ∧
    SchemaAt oneSeven (schemaOf oneSeven) ∧
    LiveAt (schemaOf oneSeven) 0 332 ∧
    RecordAt oneSeven (schemaOf oneSeven) 332 sevenRecord ∧
    (schemaOf oneSeven).nodesTemplate =
      [{ size := 4, type := INT, attributeName := [110, 0, 0, 0] }] := by
  have evaluated : SchemaAt oneSeven (schemaOf oneSeven) ∧
      LiveAt (schemaOf oneSeven) 0 332 ∧ oneSeven ≠ [] ∧
      sevenRecord.data.length = (schemaOf oneSeven).realSize ∧
      At oneSeven 332 sevenRecord.bytes ∧
      (schemaOf oneSeven).nodesTemplate =
        [{ size := 4, type := INT, attributeName := [110, 0, 0, 0] }] := by
    decide +kernel
  obtain ⟨stored, live, left, sized, here, template⟩ := evaluated
  have reached : Reached [singleSpec INT number_lt] AddsFit oneSeven :=
    .next (.add [⟨7, []⟩] 7) (reached_single AddsFit createdFile_number)
      ⟨_, schemaAt_single (by norm_num), addFits_seven⟩
      (Op.returns_fileAfter left)
  exact ⟨(healthy_of_adds reached).sound, stored, live,
    ⟨⟨by decide, by decide, sized⟩, here⟩, template⟩

theorem oneSeven_types : (schemaOf oneSeven).types = [INT] := by
  obtain ⟨-, -, -, -, template⟩ := oneSeven_stored
  rw [TreeSchema.types, template]
  rfl

theorem oneSeven_counts : (schemaOf oneSeven).treeMeta.templateSize = 1 ∧
    (schemaOf oneSeven).treeMeta.curId = 1 := by
  decide +kernel

/-- A number is given the value it has, and the next key is unknown. -/
theorem failedUpdate_iff_seven :
    UnchangedOnError 0 (fun fuel stack => storageUpdateNodeNew fuel stack 0
      [⟨[110, 0], 1, 7, 0, []⟩, ⟨[120, 0], 1, 7, 0, []⟩]
      (schemaOf oneSeven).nodesTemplate) oneSeven := by
  obtain ⟨sound, stored, live, here, template⟩ := oneSeven_stored
  generalize oneSeven = file at sound stored live here template ⊢
  apply ((failedUpdate_iff sound stored live here).1 _).mpr
  rw [template]
  decide +kernel

/-- The new value of a number stays when the next key is unknown. -/
theorem not_always_unchanged :
    ¬ ∀ (file : List UInt8) (schema : TreeSchema) (id offset : Nat)
      (settings : List KeyValuePair), Sound file → SchemaAt file schema →
        LiveAt schema id offset →
          UnchangedOnError 0 (fun fuel stack => storageUpdateNodeNew fuel stack
            id settings schema.nodesTemplate) file := by
  intro always
  obtain ⟨sound, stored, live, here, template⟩ := oneSeven_stored
  generalize oneSeven = file at sound stored live here template
  have unchanged := always file _ 0 332
    [⟨[110, 0], 1, 8, 0, []⟩, ⟨[120, 0], 1, 8, 0, []⟩] sound stored live
  simp only [storageUpdateNodeNew_eq] at unchanged
  rw [unchanged_iff sound stored live here, template] at unchanged
  · exact absurd unchanged (by decide +kernel)
  · intro step member
    obtain ⟨kv, -, rfl⟩ := List.mem_map.mp member
    exact settingStep_fits kv
  · intro step member
    obtain ⟨kv, -, rfl⟩ := List.mem_map.mp member
    exact settingStep_ne_ok kv

end TreeStore
