import TreeStore.Chains
import TreeStore.FailedUpdates

/-!
# Updates that read back

What `getNode` delivers after an update that succeeds: for each field the last
value that was given for it, or the old one.  Numbers are written where the
settings say, as far as their positions and texts survive the conversions on
the way; a STRING field is given the memory at the address of a local variable.
-/

namespace TreeStore

open ByteFile ProgramLogic LinkedRecords Assignments

/-- A value that is given for a field: a number, or the characters of a
string. -/
inductive GivenValue
  | word (word : Nat)
  | chars (text : List UInt8)

/-- A delivered field is the value given for it. -/
def FieldValue.IsGiven : GivenValue → FieldValue → Prop
  | .word expected, .word number => number = expected
  | .chars expected, .text block => cString block = some expected
  | _, _ => False

/-- The value that is given last for a field. -/
def lastGiven (given : List (Nat × GivenValue)) (position : Nat) :
    Option GivenValue :=
  (given.filter (·.1 = position)).getLast?.map Prod.snd

/-- A field is as it was given last, or as it was before. -/
def AsGiven (fields : List FieldValue) (given : List (Nat × GivenValue))
    (position : Nat) (value : FieldValue) : Prop :=
  match lastGiven given position with
  | some last => value.IsGiven last
  | none => fields[position]? = some value

/-- Wherever the program returns with success, the node reads as given. -/
def ReadsGiven {ε : Type} (file : List UInt8) (id : Nat) (success : ε)
    (program : Nat → Nat → Prog ε) (fields : List FieldValue)
    (given : List (Nat × GivenValue)) : Prop :=
  ∀ world fuel stack final, world.file = file → file.length ≤ fuel →
    (program fuel stack).run world = .ok (success, final) →
    ∃ fields', Delivers final.file id fields' ∧
      fields'.length = fields.length ∧
      ∀ (position : Nat) (value : FieldValue),
        fields'[position]? = some value → AsGiven fields given position value

/-- The fields after the writes of the steps, as far as these are known. -/
def shownAfter {ε : Type} (steps : List (Step ε)) (fields : List FieldValue) :
    List (Option FieldValue) :=
  assign (cellWrites (Option.map FieldValue.word) (writesBefore none steps))
    (fields.map some)

/-- Unless a setting is refused or leaves an array, the writes are known for
every field, and leave it as given. -/
def WritesGiven {ε : Type} (steps : List (Step ε)) (fields : List FieldValue)
    (given : List (Nat × GivenValue)) : Prop :=
  ending steps = some none → ∀ position < fields.length, ∃ value,
    (shownAfter steps fields)[position]? = some (some value) ∧
      AsGiven fields given position value

section Given

variable {address : Nat → Nat} {realSize position : Nat}
  {fields : List FieldValue} {given : List (Nat × GivenValue)}

/-- A field that shows its cell, or what uniform memory holds. -/
def FieldImage.Shown (realSize : Nat) (char : UInt8)
    (cell : Option FieldValue) (field : FieldImage) : Prop :=
  match cell with
  | some value => field.value realSize = value
  | none => field.Written realSize char none

theorem FieldImage.Written.shown {char : UInt8} {cell : Option Nat}
    {field : FieldImage} (written : field.Written realSize char cell) :
    field.Shown realSize char (cell.map FieldValue.word) := by
  cases cell with
  | none => exact written
  | some word =>
      obtain rfl := written
      rfl

/-- What a reader of a text that uniform memory wrote sees first. -/
theorem head_assemble {char : UInt8} (visible : char ≠ 0)
    (large : 8 ≤ realSize) (slot : Nat) (rest : List (Nat × List UInt8)) :
    (assemble realSize ((slot, List.replicate realSize char) :: rest)).head? =
      some char := by
  obtain ⟨size, rfl⟩ := Nat.exists_eq_add_of_le' large
  rw [assemble, List.flatMap_cons, strncpy_eq]
  simp [List.replicate_succ, textOf, visible]

theorem head_cString {block text : List UInt8} {char : UInt8}
    (visible : char ≠ 0) (head : block.head? = some char)
    (found : cString block = some text) : text.head? = some char := by
  cases block with
  | nil => cases head
  | cons first block =>
      obtain rfl := Option.some.inj head
      rw [cString] at found
      split_ifs at found
      obtain rfl := Option.some.inj found
      simp [textOf, visible]

/-- What uniform memory writes into a field is not as given, for some
character. -/
theorem exists_not_given (large : 8 ≤ realSize) :
    ∃ char : UInt8, char ≠ 0 ∧ ∀ field : FieldImage,
      field.Written realSize char none →
        ¬ AsGiven fields given position (field.value realSize) := by
  by_contra all
  push Not at all
  obtain ⟨one, writtenOne, isOne⟩ := all 1 (by decide)
  obtain ⟨two, writtenTwo, isTwo⟩ := all 2 (by decide)
  have first {char : UInt8} (visible : char ≠ 0) {chain}
      (written : (FieldImage.str chain).Written realSize char none) :
      (assemble realSize chain).head? = some char := by
    obtain ⟨slot, rest, rfl⟩ := written
    exact head_assemble visible large slot rest
  have words : uniformWord 1 ≠ uniformWord 2 := by decide
  have chars : (some 1 : Option UInt8) ≠ some 2 := by decide
  unfold AsGiven at isOne isTwo
  cases last : lastGiven given position with
  | none =>
      rw [last] at isOne isTwo
      have same := Option.some.inj (isOne.symm.trans isTwo)
      cases one <;> cases two <;>
        simp only [FieldImage.value, FieldValue.word.injEq,
          FieldValue.text.injEq, reduceCtorEq] at same
      · exact words (writtenOne.symm.trans (same.trans writtenTwo))
      · rw [← first (by decide) writtenOne, same,
          first (by decide) writtenTwo] at chars
        exact chars rfl
  | some expected =>
      rw [last] at isOne isTwo
      cases expected with
      | word expected =>
          cases one <;> cases two <;>
            simp only [FieldImage.value, FieldValue.IsGiven] at isOne isTwo
          exact words (writtenOne.symm.trans (isOne.trans
            (isTwo.symm.trans writtenTwo)))
      | chars expected =>
          cases one <;> cases two <;>
            simp only [FieldImage.value, FieldValue.IsGiven] at isOne isTwo
          exact chars ((head_cString (by decide)
            (first (by decide) writtenOne) isOne).symm.trans
              (head_cString (by decide) (first (by decide) writtenTwo) isTwo))

end Given

/-- A node whose tuple has other words. -/
def NodeImage.withWords (node : NodeImage) (record : KeyNode) : NodeImage where
  slot := node.slot
  parent := node.parent
  fields := node.fields.mapIdx fun position field =>
    match field with
    | .num _ => .num (record.word position)
    | .str chain => .str chain

section Live

variable {ε : Type} {img : Image} {node : NodeImage} {record : KeyNode}
  {file : List UInt8} {id : Nat} {steps : List (Step ε)}
  {given : List (Nat × GivenValue)}

theorem NodeImage.withWords_field {position : Nat} {field : FieldImage}
    (found : (node.withWords record).fields[position]? = some field) :
    ∃ old, node.fields[position]? = some old ∧
      ((∃ word, old = .num word ∧ field = .num (record.word position)) ∨
        ∃ chain, old = .str chain ∧ field = .str chain) := by
  rw [NodeImage.withWords, List.getElem?_mapIdx] at found
  obtain ⟨old, oldFound, rfl⟩ := Option.map_eq_some_iff.mp found
  refine ⟨old, oldFound, ?_⟩
  cases old with
  | num word => exact Or.inl ⟨word, rfl, rfl⟩
  | str chain => exact Or.inr ⟨chain, rfl, rfl⟩

theorem NodeImage.withWords_slots :
    (node.withWords record).slots = node.slots := by
  have slots : (node.withWords record).fields.map FieldImage.slots =
      node.fields.map FieldImage.slots := by
    apply List.ext_getElem?
    intro position
    rw [List.getElem?_map, List.getElem?_map, NodeImage.withWords,
      List.getElem?_mapIdx]
    cases node.fields[position]? with
    | none => rfl
    | some field => cases field <;> rfl
  rw [NodeImage.slots, NodeImage.slots, NodeImage.chainSlots,
    NodeImage.chainSlots, List.flatMap_def, slots]
  rfl

/-- A live node after the words of its tuple have been overwritten. -/
theorem LiveNode.setWords {record' : KeyNode} (live : LiveNode img id node file)
    (here : img.recs node.slot = some record)
    (header : record'.header = record.header)
    (length : record'.data.length = record.data.length)
    (strings : ∀ position, img.types[position]? = some STRING →
      record'.word position = record.word position) :
    LiveNode (img.setRec node.slot record') id (node.withWords record')
      (writeAt file (img.slotOffset node.slot) record'.bytes) := by
  obtain ⟨behind, inside, fits, -⟩ := live.holds.record _ _ here
  have nodeAt := live.nodeAt
  obtain ⟨_, same, tupleAt⟩ := nodeAt.tuple
  cases here.symm.trans same
  have fits' : record'.Fits img.realSize :=
    ⟨header ▸ fits.parentNode, header ▸ fits.allocNode,
      length.trans fits.data_length⟩
  refine ⟨live.holds.setRec behind inside fits', live.entry,
    ⟨⟨record', Function.update_self _ _ _, header.trans tupleAt.header, ?_⟩,
      ?_, ?_, ?_⟩, ?_⟩
  · intro position field found
    obtain ⟨old, oldFound, ⟨word, rfl, rfl⟩ | ⟨chain, rfl, rfl⟩⟩ :=
      NodeImage.withWords_field found
    · rfl
    · have string := (nodeAt.fieldsAt.typed _ _ oldFound).mpr ⟨chain, rfl⟩
      rw [strings position string]
      exact tupleAt.words position _ oldFound
  · rw [NodeImage.withWords, List.length_mapIdx]
    exact nodeAt.fieldsAt.count
  · intro position field found
    obtain ⟨old, oldFound, ⟨word, rfl, rfl⟩ | ⟨chain, rfl, rfl⟩⟩ :=
      NodeImage.withWords_field found
    · have typed := nodeAt.fieldsAt.typed _ _ oldFound
      exact typed.trans (by simp)
    · exact nodeAt.fieldsAt.typed _ _ oldFound
  · intro chain member
    obtain ⟨position, inside, found⟩ := List.mem_iff_getElem.mp member
    obtain ⟨old, oldFound, ⟨word, rfl, same⟩ | ⟨chain', rfl, same⟩⟩ :=
      NodeImage.withWords_field (List.getElem?_eq_some_iff.mpr ⟨inside, found⟩)
    · cases same
    · cases same
      have oldMember := List.mem_of_getElem? oldFound
      obtain ⟨nonempty, linked⟩ := nodeAt.fieldsAt.chains chain oldMember
      refine ⟨nonempty, linked.frame fun slot own => ?_⟩
      exact img.setRec_recs_of_ne (ne_of_mem_of_not_mem
        (NodeImage.chain_slots_subset oldMember own) live.tuple_fresh) _
  · rw [NodeImage.withWords_slots]
    exact live.nodup

/-- An update that always reads as given writes what is given. -/
theorem LiveNode.writesGiven_of_reads (live : LiveNode img id node file)
    (fits : ∀ step ∈ steps, step.Fits img.types)
    (reads : ∀ world fuel stack final, world.file = file →
      file.length ≤ fuel →
      (runUpdate fuel stack id steps).run world = .ok (none, final) →
      ∃ fields', Delivers final.file id fields' ∧
        ∀ (position : Nat) (value : FieldValue), fields'[position]? = some value →
          AsGiven (node.values img.realSize) given position value) :
    WritesGiven steps (node.values img.realSize) given := by
  intro ends position inside
  obtain ⟨char, visible, unlike⟩ := @exists_not_given img.realSize position
    (node.values img.realSize) given (le_trans (by norm_num) img.realSize_ge)
  have marked : node.Marked (FieldImage.Shown img.realSize char)
      ((node.values img.realSize).map some) := by
    intro other cell field cellFound found
    rw [List.getElem?_map, NodeImage.values, List.getElem?_map, found]
      at cellFound
    cases cellFound
    rfl
  obtain ⟨_, final, ran, rfl, recs, node', -, live', marked'⟩ :=
    live.wp_runUpdate_uniform visible fits ends
      (fun _ _ written => written.shown) marked
  obtain ⟨fields', delivers, asGiven⟩ :=
    reads _ file.length img.realSize final rfl le_rfl ran
  obtain rfl := delivers.unique live'.delivers
  have cellInside : position < (shownAfter steps
      (node.values img.realSize)).length := by
    rw [shownAfter, assign_length, List.length_map]
    exact inside
  have fieldInside : position < node'.fields.length := by
    rw [live'.nodeAt.fieldsAt.count]
    change position < img.types.length
    rw [← live.nodeAt.fieldsAt.count]
    rwa [NodeImage.values, List.length_map] at inside
  have found := List.getElem?_eq_getElem fieldInside
  have cellFound := List.getElem?_eq_getElem cellInside
  have shown := marked' position _ _ cellFound found
  have given := asGiven position _
    (by rw [NodeImage.values, List.getElem?_map, found]; rfl)
  cases cell : (shownAfter steps (node.values img.realSize))[position] with
  | none =>
      rw [cell] at shown
      exact absurd given (unlike _ shown)
  | some value =>
      rw [cell] at shown
      refine ⟨value, by rw [cellFound, cell], ?_⟩
      rw [← shown]
      exact given

/-- An update that writes what is given reads as given. -/
theorem LiveNode.wp_runUpdate_given {world : World} {fuel stack : Nat}
    (live : LiveNode img id node world.file)
    (fits : ∀ step ∈ steps, step.Fits img.types)
    (ends : ending steps = some none)
    (writes : WritesGiven steps (node.values img.realSize) given) :
    wp (runUpdate fuel stack id steps) (fun _ final =>
      ∃ fields', Delivers final.file id fields' ∧
        fields'.length = (node.values img.realSize).length ∧
        ∀ (position : Nat) (value : FieldValue), fields'[position]? = some value →
          AsGiven (node.values img.realSize) given position value) world := by
  obtain ⟨record, here, tupleAt⟩ := live.nodeAt.tuple
  obtain ⟨-, -, recordFits, -⟩ := live.holds.record _ _ here
  have count := live.nodeAt.fieldsAt.count
  have valuesCount : (node.values img.realSize).length = img.types.length := by
    rw [NodeImage.values, List.length_map, count]
  have wordInside {position : Nat} (inside : position < img.types.length) :
      8 * position + 8 ≤ record.data.length := by
    rw [recordFits.data_length]
    exact live.word_inside inside
  -- a write to a string would not be known
  have numbers (write : Nat × Option Nat)
      (member : write ∈ writesBefore none steps) :
      img.types[write.1]? ≠ some STRING := by
    intro string
    have inside := writesBefore_inside fits member
    obtain ⟨value, known, -⟩ := writes ends write.1 (by omega)
    have unknown : (shownAfter steps (node.values img.realSize))[write.1]? =
        some none := by
      apply assign_of_forall
      · exact List.mem_map.mpr ⟨_, List.mem_map_of_mem member, rfl⟩
      · intro other there same
        obtain ⟨write', inside', rfl⟩ := List.mem_map.mp there
        rw [writesBefore_string fits inside' (by rw [← string, ← same])]
        rfl
      · rw [List.length_map]
        omega
    rw [unknown] at known
    cases known
  rw [runUpdate, wp_bind]
  refine wp_unsetWord_lt fun value blocks small => ?_
  refine wp_mono (LiveNode.wp_runSteps_numbers none (record.words.map some)
    (by exact live) here fits numbers (by simp) small ends (by simp [Agree])
    (by simp)) ?_
  rintro _ final ⟨record', header, length, agree, fileEq⟩
  have word_eq {position word : Nat} (inside : position < img.types.length)
      (known : (assign (writesBefore none steps)
        (record.words.map some))[position]? = some (some word)) :
      record'.word position = word := by
    have found := agree position word known
    rw [KeyNode.words_getElem? (by rw [length]; exact wordInside inside)]
      at found
    exact Option.some.inj found
  have oldWord {position : Nat} (inside : position < img.types.length) :
      (record.words.map some)[position]? =
        some (some (record.word position)) := by
    rw [List.getElem?_map, KeyNode.words_getElem? (wordInside inside)]
    rfl
  have strings (position : Nat) (string : img.types[position]? = some STRING) :
      position ∉ (writesBefore none steps).map Prod.fst := by
    intro member
    obtain ⟨write, written, rfl⟩ := List.mem_map.mp member
    exact numbers write written string
  have live' := live.setWords here header length fun position string => by
    have inside := (List.getElem?_eq_some_iff.mp string).1
    exact word_eq inside (by
      rw [assign_of_notMem (strings position string), oldWord inside])
  rw [← fileEq] at live'
  refine ⟨_, live'.delivers, ?_, ?_⟩
  · rw [valuesCount, NodeImage.values, List.length_map, NodeImage.withWords,
      List.length_mapIdx, count]
  intro position value delivered
  rw [NodeImage.values, List.getElem?_map] at delivered
  obtain ⟨field, found, rfl⟩ := Option.map_eq_some_iff.mp delivered
  obtain ⟨old, oldFound, kind⟩ := NodeImage.withWords_field found
  have inside : position < img.types.length := by
    rw [← count]
    exact (List.getElem?_eq_some_iff.mp oldFound).1
  obtain ⟨value, known, asGiven⟩ := writes ends position (by omega)
  have oldValue : (node.values img.realSize)[position]? =
      some (old.value img.realSize) := by
    rw [NodeImage.values, List.getElem?_map, oldFound]
    rfl
  suffices same : value = field.value img.realSize by
    exact same ▸ asGiven
  rcases kind with ⟨word, rfl, rfl⟩ | ⟨chain, rfl, rfl⟩
  · have wordEq : record.word position = word := tupleAt.words _ _ oldFound
    have mapped : (shownAfter steps (node.values img.realSize))[position]? =
        (assign (writesBefore none steps) (record.words.map some))[position]?.map
          (Option.map FieldValue.word) := by
      apply assign_map
      · exact (List.getElem?_eq_some_iff.mp (oldWord inside)).1
      · rw [List.length_map]
        omega
      · rw [List.getElem?_map, oldValue, oldWord inside, wordEq]
        rfl
    rw [mapped] at known
    obtain ⟨cell, cellFound, cellEq⟩ := Option.map_eq_some_iff.mp known
    obtain ⟨word', rfl, rfl⟩ := Option.map_eq_some_iff.mp cellEq
    rw [FieldImage.value, word_eq inside cellFound]
  · have string := (live.nodeAt.fieldsAt.typed _ _ oldFound).mpr ⟨chain, rfl⟩
    have kept : (shownAfter steps (node.values img.realSize))[position]? =
        some (some (FieldValue.text (assemble img.realSize chain))) := by
      rw [shownAfter, assign_of_notMem, List.getElem?_map, oldValue]
      · rfl
      · rw [cellWrites, List.map_map]
        exact strings position string
    rw [kept] at known
    exact (Option.some.inj (Option.some.inj known)).symm

end Live

theorem Sound.exists_delivers {file : List UInt8} {schema : TreeSchema}
    {id offset : Nat} (sound : Sound file) (stored : SchemaAt file schema)
    (liveAt : LiveAt schema id offset) :
    ∃ fields, Delivers file id fields ∧
      fields.length = schema.nodesTemplate.length := by
  obtain ⟨img, node, rfl, live, -⟩ := sound.exists_liveNode stored liveAt
  refine ⟨_, live.delivers, ?_⟩
  rw [NodeImage.values, List.length_map, live.nodeAt.fieldsAt.count]
  exact List.length_map _

section Steps

variable {ε : Type} {file : List UInt8} {schema : TreeSchema}
  {id offset : Nat} {fields : List FieldValue} {steps : List (Step ε)}
  {given : List (Nat × GivenValue)}

/-- An update reads as given exactly where its steps write what is given. -/
theorem readsGiven_iff {success : ε} (sound : Sound file)
    (stored : SchemaAt file schema) (liveAt : LiveAt schema id offset)
    (delivers : Delivers file id fields)
    (fits : ∀ step ∈ steps, step.Fits schema.types)
    (codes : ∀ step ∈ steps, step ≠ .refuse success) :
    ReadsGiven file id success (fun fuel stack =>
        (·.getD success) <$> runUpdate fuel stack id steps) fields given ↔
      WritesGiven steps fields given := by
  obtain ⟨img, node, rfl, live, rfl⟩ := sound.exists_liveNode stored liveAt
  obtain rfl := delivers.unique live.delivers
  constructor
  · intro reads
    apply live.writesGiven_of_reads fits
    intro world fuel stack final same enough runs
    obtain ⟨fields', delivers', -, asGiven⟩ := reads world fuel stack final
      same enough (by rw [StateT.run_map, runs]; rfl)
    exact ⟨fields', delivers', asGiven⟩
  · intro writes world fuel stack final same enough runs
    subst same
    obtain ⟨result, code, ends, ran⟩ := runUpdate_ending runs
    cases result with
    | none => exact wp_of_run (live.wp_runUpdate_given fits ends writes) ran
    | some refused =>
        obtain rfl : success = refused := code
        exact absurd rfl (codes _ (refusal_mem
          (refusal_of_ending ends).symm))

/-- Steps that write numbers. -/
abbrev numberSteps (words : List (Nat × Nat)) : List (Step ε) :=
  words.map fun word => .write word.1 (.number word.2)

theorem cellWrites_numberSteps (words : List (Nat × Nat))
    (known : Option Nat) :
    cellWrites (Option.map FieldValue.word)
        (writesBefore known (@numberSteps ε words)) =
      words.map fun word => (word.1, some (.word word.2)) := by
  induction words generalizing known with
  | nil => rfl
  | cons word words ih =>
      rw [List.map_cons, ← ih (some word.2)]
      rfl

theorem last_map {β : Type} (position : Nat) (words : List (Nat × Nat))
    (f : Nat → β) :
    ((words.map fun word => (word.1, f word.2)).filter
        (·.1 = position)).getLast?.map Prod.snd =
      ((words.filter (·.1 = position)).getLast?.map Prod.snd).map f := by
  rw [List.filter_map, List.getLast?_map, Option.map_map, Option.map_map]
  rfl

/-- Steps that write the numbers that are given, where they are given. -/
theorem writesGiven_numberSteps (words : List (Nat × Nat)) :
    WritesGiven (@numberSteps ε words) fields
      (words.map fun word => (word.1, .word word.2)) := by
  intro _ position inside
  rw [shownAfter, cellWrites_numberSteps,
    assign_last (by rw [List.length_map]; exact inside),
    last_map position words fun word => some (FieldValue.word word)]
  unfold AsGiven lastGiven
  rw [last_map position words GivenValue.word]
  cases (words.filter (·.1 = position)).getLast? with
  | none =>
      refine ⟨fields[position], ?_, List.getElem?_eq_getElem inside⟩
      rw [List.getElem?_map, List.getElem?_eq_getElem inside]
      rfl
  | some word => exact ⟨.word word.2, rfl, rfl⟩

end Steps

/-- The value of a setting, if it is of the type. -/
def givenValue (kv : KeyValuePair) (type : Nat) : Option GivenValue :=
  if type = BOOL then
    if kv.valueType = 1 ∧ kv.valueInt = 1 then some (.word 1)
    else if kv.valueType = 1 ∧ kv.valueInt = 0 then some (.word 0)
    else none
  else if type = FLOAT then
    if kv.valueType = 2 then some (.word (doubleBits kv.valueReal).toNat)
    else none
  else if type = INT then
    if kv.valueType = 1 then some (.word kv.valueInt.toUInt64.toNat) else none
  else if type = STRING then
    if kv.valueType = 0 then some (.chars (textOf kv.valueString)) else none
  else none

/-- What a setting gives for the field it names. -/
def givenSetting (template : List NodeAttributeInfo) (kv : KeyValuePair) :
    Option (Nat × GivenValue) := do
  let position ← findAttr kv.key template
  let type ← (template.map (·.type))[position]?
  let value ← givenValue kv type
  return (position, value)

theorem settingStep_of_given {template : List NodeAttributeInfo}
    {kv : KeyValuePair} {position word : Nat}
    (given : givenSetting template kv = some (position, .word word))
    (small : position < 128) :
    settingStep template kv = .write position (.number word) := by
  unfold givenSetting at given
  obtain ⟨place, named, given⟩ := Option.bind_eq_some_iff.mp given
  obtain ⟨type, typed, given⟩ := Option.bind_eq_some_iff.mp given
  obtain ⟨value, isValue, given⟩ := Option.bind_eq_some_iff.mp given
  obtain ⟨rfl, rfl⟩ := Prod.mk.inj (Option.some.inj given)
  have narrow : (Int8.ofNat place).toInt = place :=
    Int8.toInt_ofNat_of_lt small
  have accepted : updateValue kv type = some (.number word) := by
    unfold givenValue at isValue
    unfold updateValue
    split_ifs at isValue ⊢ <;> simp_all
  unfold settingStep
  rw [named]
  dsimp only
  rw [narrow, if_neg (by omega), if_neg (by omega), Int.toNat_natCast, typed]
  dsimp only
  rw [accepted]

/-- Numbers that are given for the first 128 fields are written there. -/
theorem settingSteps_of_given {template : List NodeAttributeInfo}
    {settings : List KeyValuePair} {words : List (Nat × Nat)}
    (given : settings.map (givenSetting template) =
      (words.map fun word => (word.1, .word word.2)).map some)
    (small : ∀ word ∈ words, word.1 < 128) :
    settings.map (settingStep template) = numberSteps words := by
  induction words generalizing settings with
  | nil =>
      obtain rfl := List.map_eq_nil_iff.mp given
      rfl
  | cons word words ih =>
      cases settings with
      | nil => cases given
      | cons kv settings =>
          obtain ⟨first, rest⟩ := List.cons.inj given
          rw [List.map_cons, settingStep_of_given first (small word (by simp)),
            ih rest fun word member => small word (by simp [member])]
          rfl

/-- The number that decimal digits spell, up to the end or a carriage return,
if a word can hold it. -/
def decimal (text : List UInt8) : Option Nat :=
  let digits := text.takeWhile (· ≠ 13)
  let number := digits.foldl
    (fun number char => number * 10 + (char.toNat - 48)) 0
  if digits ≠ [] ∧ (digits.all fun char => 48 ≤ char ∧ char ≤ 57) ∧
      number < 2 ^ 64 then some number
  else none

/-- The value that a text spells, if it is of the type. -/
def givenText (strtod : CharPtr → UInt64) (text : List UInt8) (type : Nat) :
    Option GivenValue :=
  if type = BOOL then
    if text = trueText then some (.word 1)
    else if text = falseText then some (.word 0)
    else none
  else if type = FLOAT then some (.word (strtod text).toNat)
  else if type = INT then GivenValue.word <$> decimal text
  else if type = STRING then some (.chars text)
  else none

/-- What a pair `key=value` gives for the field it names.  The end of the line
is no part of the value. -/
def givenPair (strtod : CharPtr → UInt64) (template : List NodeAttributeInfo)
    (str : CharPtr) : Option (Nat × GivenValue) := do
  let line := (textOf str).takeWhile (· ≠ 10)
  let position ← findAttr (line.takeWhile (· ≠ 61)) template
  let type ← (template.map (·.type))[position]?
  let value ← givenText strtod (line.dropWhile (· ≠ 61)).tail type
  return (position, value)

/-- After an update of either kind `getNode` delivers what was given, exactly
where the settings write it. -/
theorem updateReadsBack_iff {file : List UInt8} {schema : TreeSchema}
    {id offset : Nat} (sound : Sound file) (stored : SchemaAt file schema)
    (live : LiveAt schema id offset) :
    ∃ fields, Delivers file id fields ∧
      fields.length = schema.nodesTemplate.length ∧
      (∀ settings given,
        settings.map (givenSetting schema.nodesTemplate) = given.map some →
        (ReadsGiven file id 0 (fun fuel stack => storageUpdateNodeNew fuel stack
            id settings schema.nodesTemplate) fields given ↔
          WritesGiven (settings.map (settingStep schema.nodesTemplate)) fields
            given)) ∧
      ∀ strtod behind idStr pairs given,
        (isNumeric idStr → atoiDigits idStr = id) →
        pairs.map (givenPair strtod schema.nodesTemplate) = given.map some →
        (ReadsGiven file id .success (fun fuel stack => storageUpdateNode strtod
            behind fuel stack idStr pairs schema.nodesTemplate) fields given ↔
          (isNumeric idStr → WritesGiven
            (pairs.map (pairStep strtod behind schema.nodesTemplate)) fields
            given)) := by
  obtain ⟨fields, delivers, count⟩ := sound.exists_delivers stored live
  refine ⟨fields, delivers, count, ?_, ?_⟩
  · intro settings given _
    simp only [storageUpdateNodeNew_eq]
    refine readsGiven_iff sound stored live delivers ?_ ?_
    · intro step member
      obtain ⟨kv, -, rfl⟩ := List.mem_map.mp member
      exact settingStep_fits kv
    · intro step member
      obtain ⟨kv, -, rfl⟩ := List.mem_map.mp member
      exact settingStep_ne_ok kv
  · intro strtod behind idStr pairs given names _
    by_cases numeric : isNumeric idStr
    · rw [forall_prop_of_true numeric]
      simp only [storageUpdateNode_eq numeric, names numeric]
      refine readsGiven_iff sound stored live delivers ?_ ?_
      · intro step member
        obtain ⟨str, -, rfl⟩ := List.mem_map.mp member
        exact pairStep_fits str
      · intro step member
        obtain ⟨str, -, rfl⟩ := List.mem_map.mp member
        exact pairStep_ne_success str
    · refine ⟨fun _ isNumber => absurd isNumber numeric, fun _ => ?_⟩
      rintro world fuel stack final rfl enough runs
      have refuses : wp (storageUpdateNode strtod behind fuel stack idStr pairs
          schema.nodesTemplate) (fun code _ => code = .idFormatFail)
          world := by
        rw [storageUpdateNode, wp_bind]
        refine wp_unsetWord fun value blocks => ?_
        rw [if_neg numeric, wp_pure]
      cases wp_of_run refuses runs

/-- A number is given another value. -/
theorem updateReadsBack_iff_seven :
    ∃ fields, Delivers oneSeven 0 fields ∧
      ReadsGiven oneSeven 0 0 (fun fuel stack => storageUpdateNodeNew fuel stack
        0 [⟨[110, 0], 1, 8, 0, []⟩] (schemaOf oneSeven).nodesTemplate) fields
        [(0, .word 8)] := by
  obtain ⟨sound, stored, live, -, template⟩ := oneSeven_stored
  generalize oneSeven = file at sound stored live template ⊢
  obtain ⟨fields, delivers, -, messages, -⟩ :=
    updateReadsBack_iff sound stored live
  refine ⟨fields, delivers, (messages _ _ ?_).mpr ?_⟩
  · rw [template]
    rfl
  · rw [@settingSteps_of_given _ _ [(0, 8)] (by rw [template]; rfl) (by simp)]
    exact writesGiven_numberSteps _

/-- A string that is given for the field of a string is not written. -/
theorem not_always_readsGiven :
    ¬ ∀ (file : List UInt8) (schema : TreeSchema) (id offset : Nat)
      (fields : List FieldValue) (settings : List KeyValuePair)
      (given : List (Nat × GivenValue)), Sound file → SchemaAt file schema →
        LiveAt schema id offset → Delivers file id fields →
        settings.map (givenSetting schema.nodesTemplate) = given.map some →
          ReadsGiven file id 0 (fun fuel stack => storageUpdateNodeNew fuel
            stack id settings schema.nodesTemplate) fields given := by
  intro always
  obtain ⟨img, nodes, id, node, chain, store, found, -, template, -⟩ :=
    longString_stored
  have sound : Sound longString := ⟨img, _, store.wellFormed⟩
  have stored := store.schemaAt
  have live := store.liveAt found
  generalize longString = file at sound stored
  obtain ⟨fields, delivers, count⟩ := sound.exists_delivers stored live
  have reads := always file _ id _ fields [⟨[110, 0], 0, 0, 0, [66, 0]⟩]
    [(0, .chars [66])] sound stored live delivers (by rw [template]; rfl)
  simp only [storageUpdateNodeNew_eq] at reads
  rw [readsGiven_iff sound stored live delivers, template] at reads
  · rw [template] at count
    obtain ⟨field, rfl⟩ := List.length_eq_one_iff.mp count
    obtain ⟨value, known, -⟩ := reads rfl 0 (by simp)
    cases known
  · intro step member
    obtain ⟨kv, -, rfl⟩ := List.mem_map.mp member
    exact settingStep_fits kv
  · intro step member
    obtain ⟨kv, -, rfl⟩ := List.mem_map.mp member
    exact settingStep_ne_ok kv

end TreeStore
