import TreeStore.Library.Assignments
import TreeStore.StoragePublic
import TreeStore.Runs

/-!
# Which lists of settings make a node

`storageInsertNodeNew` checks its settings one by one while it fills the array
of field values, and hands the array to `addNode` when their number is right.
-/

namespace TreeStore

open ByteFile ProgramLogic Assignments

/-- The text of the key. -/
abbrev KeyValuePair.keyText (kv : KeyValuePair) : List UInt8 := textOf kv.key

/-- The text of the name. -/
abbrev NodeAttributeInfo.nameText (info : NodeAttributeInfo) : List UInt8 :=
  textOf info.attributeName

/-- The check that `storageInsertNodeNew` makes for a field of this type. -/
def Checked (kv : KeyValuePair) (type : Option Nat) : Prop :=
  (type = some BOOL → kv.valueInt = 1 ∨ kv.valueInt = 0) ∧
    (type = some FLOAT → kv.valueType = 2) ∧
    (type = some INT → kv.valueType = 1) ∧
    (type = some STRING → kv.valueType = 0)

/-- A setting assigns this slot to this field. -/
structure AssignedBy (template : List NodeAttributeInfo) (kv : KeyValuePair)
    (write : Nat × Slot) : Prop where
  place : findAttr kv.key template = some write.1
  value : ∃ address, insertValue address kv (template.map (·.type))[write.1]? =
    .ok (some write.2)

/-- The setting names an attribute and passes the check of its type. -/
def Passes (template : List NodeAttributeInfo) (kv : KeyValuePair) : Prop :=
  ∃ pPos, findAttr kv.key template = some pPos ∧
    Checked kv (template.map (·.type))[pPos]?

/-- The settings that the checks let pass. -/
structure Accepted (template : List NodeAttributeInfo)
    (settings : List KeyValuePair) : Prop where
  count : settings.length = template.length
  checked : ∀ kv ∈ settings, Passes template kv

section Lookup

variable {template : List NodeAttributeInfo} {key : CharPtr} {pPos : Nat}

theorem findAttr_eq_some (found : findAttr key template = some pPos) :
    ∃ info, template[pPos]? = some info ∧
      textOf key = info.nameText := by
  obtain ⟨inside, same, -⟩ := List.findIdx?_eq_some_iff_getElem.mp found
  exact ⟨template[pPos], List.getElem?_eq_getElem inside,
    of_decide_eq_true same⟩

theorem findAttr_lt (found : findAttr key template = some pPos) :
    pPos < template.length := by
  obtain ⟨info, here, -⟩ := findAttr_eq_some found
  exact (List.getElem?_eq_some_iff.mp here).1

theorem findAttr_of_mem {info : NodeAttributeInfo} (member : info ∈ template)
    (same : textOf key = info.nameText) : ∃ pPos,
      findAttr key template = some pPos := by
  apply Option.isSome_iff_exists.mp
  rw [findAttr, List.findIdx?_isSome, List.any_eq_true]
  exact ⟨info, member, decide_eq_true same⟩

end Lookup

section Values

variable {kv : KeyValuePair} {type : Option Nat} {address : UInt64}

theorem insertValue_refused (refused : ¬ Checked kv type) :
    ∃ code, insertValue address kv type = .error code ∧ code ≠ .ok := by
  unfold insertValue
  simp only [Checked] at refused
  split_ifs <;> simp_all

theorem insertValue_checked (checked : Checked kv type)
    (typed : ∃ word, type = some word ∧ word ≤ BOOL) :
    ∃ slot, insertValue address kv type = .ok (some slot) := by
  obtain ⟨word, rfl, small⟩ := typed
  obtain ⟨bool, float, int, string⟩ := checked
  have cases : word = BOOL ∨ word = FLOAT ∨ word = INT ∨ word = STRING := by
    simp only [BOOL, FLOAT, INT, STRING] at small ⊢
    omega
  unfold insertValue
  rcases cases with rfl | rfl | rfl | rfl
  · rcases bool rfl with one | zero
    · simp [one]
    · simp [zero]
  · simp [float rfl]
  · simp [int rfl]
  · simp [string rfl]

end Values

/-- The attributes have the four types of `schema.h`. -/
def Typed (template : List NodeAttributeInfo) : Prop :=
  ∀ info ∈ template, info.type ≤ BOOL

section Loop

variable {template : List NodeAttributeInfo} {settings : List KeyValuePair}
  {address : Nat → UInt64} {parentId : UInt64} {world : World}

theorem Typed.type_at (typed : Typed template) {pPos : Nat}
    (inside : pPos < template.length) :
    ∃ word, (template.map (·.type))[pPos]? = some word ∧ word ≤ BOOL := by
  rw [List.getElem?_map, List.getElem?_eq_getElem inside]
  exact ⟨_, rfl, typed _ (List.getElem_mem inside)⟩

/-- Settings that pass are assigned one after the other. -/
theorem insertLoop_passes (address : Nat → UInt64) (typed : Typed template)
    (passes : ∀ kv ∈ settings, Passes template kv) (sIdx : Nat) :
    ∃ writes, List.Forall₂ (AssignedBy template) settings writes ∧
      ∀ fields, insertLoop address template sIdx settings none fields =
        .ok (assign writes fields) := by
  induction settings generalizing sIdx with
  | nil => exact ⟨[], .nil, fun _ => rfl⟩
  | cons kv settings ih =>
      obtain ⟨pPos, found, checked⟩ := passes kv (by simp)
      obtain ⟨slot, value⟩ := @insertValue_checked _ _ (address sIdx) checked
        (typed.type_at (findAttr_lt found))
      obtain ⟨writes, assigned, rest⟩ := ih
        (fun other member => passes other (by simp [member])) (sIdx + 1)
      apply Exists.intro ((pPos, slot) :: writes)
      apply And.intro (.cons ⟨found, address sIdx, value⟩ assigned)
      intro fields
      rw [insertLoop, found, Option.some_or, assign_cons, ← rest]
      dsimp only
      rw [value]
      rfl

/-- The first setting that does not pass ends the loop with an error. -/
theorem insertLoop_refused (typed : Typed template)
    (refused : ¬ ∀ kv ∈ settings, Passes template kv) (sIdx : Nat)
    (fields : List Slot) :
    ∃ code, insertLoop address template sIdx settings none fields =
      .error code ∧ code ≠ .ok := by
  induction settings generalizing sIdx fields with
  | nil => simp at refused
  | cons kv settings ih =>
      rw [insertLoop, Option.or_none]
      cases found : findAttr kv.key template with
      | none => exact ⟨_, rfl, by simp⟩
      | some pPos =>
          dsimp only
          by_cases checked : Checked kv (template.map (·.type))[pPos]?
          · obtain ⟨slot, value⟩ := @insertValue_checked _ _ (address sIdx)
              checked (typed.type_at (findAttr_lt found))
            have later : ¬ ∀ kv ∈ settings, Passes template kv := by
              intro passes
              exact refused (List.forall_mem_cons.mpr
                ⟨⟨pPos, found, checked⟩, passes⟩)
            rw [value]
            exact ih later _ _
          · obtain ⟨code, value, failed⟩ := @insertValue_refused _ _
              (address sIdx) checked
            rw [value]
            exact ⟨code, rfl, failed⟩

/-- A list that is not accepted is refused, and the file stays as it is. -/
theorem storageInsertNodeNew_refused (typed : Typed template)
    (refused : ¬ Accepted template settings) :
    wp (storageInsertNodeNew address settings parentId template)
      (fun code final => code ≠ .ok ∧ final.file = world.file) world := by
  rw [storageInsertNodeNew, wp_bind]
  apply wp_malloc
  intro memory blocks _
  dsimp only
  by_cases passes : ∀ kv ∈ settings, Passes template kv
  · obtain ⟨writes, -, loop⟩ := insertLoop_passes address typed passes 0
    have count : settings.length ≠ template.length := fun same =>
      refused ⟨same, passes⟩
    rw [loop]
    dsimp only
    rw [if_neg count, wp_pure]
    exact ⟨by simp, rfl⟩
  · obtain ⟨code, loop, failed⟩ := @insertLoop_refused template settings address
      typed passes 0 ((leWords template.length memory).map
        (numberSlot <| .ofNat ·))
    rw [loop, wp_pure]
    exact ⟨failed, rfl⟩

/-- A list that is accepted becomes one call of `addNode`. -/
theorem storageInsertNodeNew_accepted (address : Nat → UInt64)
    (parentId : UInt64) (typed : Typed template)
    (accepted : Accepted template settings) :
    ∃ writes, List.Forall₂ (AssignedBy template) settings writes ∧
      ∀ world, ∃ memory, memory.length = template.length ∧
        (storageInsertNodeNew address settings parentId template).run world =
          (do
            let _ ← addNode (assign writes memory) parentId
            return ErrCode.ok : Prog ErrCode).run
              { world with blocks := world.blocks + 1 } := by
  obtain ⟨writes, assigned, loop⟩ :=
    insertLoop_passes address typed accepted.checked 0
  apply Exists.intro writes
  apply And.intro assigned
  intro world
  apply Exists.intro ((leWords template.length
    ((List.range (template.length * 8)).map (world.heap world.blocks))).map
      (numberSlot <| .ofNat ·))
  constructor
  · rw [List.length_map, leWords_length]
  · have outcome := loop ((leWords template.length
      ((List.range (template.length * 8)).map (world.heap world.blocks))).map
        (numberSlot <| .ofNat ·))
    have allocated : (malloc (template.length * 8)).run world = .ok
        ((List.range (template.length * 8)).map (world.heap world.blocks),
          { world with blocks := world.blocks + 1 }) := rfl
    rw [storageInsertNodeNew, run_bind_of allocated]
    dsimp only
    rw [outcome]
    dsimp only
    rw [if_pos accepted.count]

end Loop

section Pairs

variable {α β : Type} {relation : α → β → Prop} {left : List α}
  {right : List β}

theorem exists_left_of_forall₂ (pairs : List.Forall₂ relation left right)
    {second : β} (member : second ∈ right) :
    ∃ first ∈ left, relation first second := by
  induction pairs with
  | nil => simp at member
  | cons related _ ih =>
      rcases List.mem_cons.mp member with rfl | later
      · exact ⟨_, by simp, related⟩
      · obtain ⟨first, inside, holds⟩ := ih later
        exact ⟨first, by simp [inside], holds⟩

/-- A place on the left has one on the right. -/
theorem exists_parts_of_forall₂ {front back : List α} {first : α}
    (pairs : List.Forall₂ relation (front ++ first :: back) right) :
    ∃ front' second back', right = front' ++ second :: back' ∧
      List.Forall₂ relation front front' ∧ relation first second ∧
      List.Forall₂ relation back back' := by
  induction front generalizing right with
  | nil =>
      rcases pairs with _ | ⟨related, rest⟩
      exact ⟨[], _, _, rfl, .nil, related, rest⟩
  | cons other front ih =>
      rcases pairs with _ | ⟨related, rest⟩
      obtain ⟨front', second, back', rfl, before, holds⟩ := ih rest
      exact ⟨_ :: front', second, back', rfl, .cons related before, holds⟩

end Pairs

section Places

variable {template : List NodeAttributeInfo}
  {settings : List KeyValuePair} {writes : List (Nat × Slot)}

/-- Different keys are assigned to different places. -/
theorem places_nodup
    (assigned : List.Forall₂ (AssignedBy template) settings writes)
    (distinct : (settings.map (·.keyText)).Nodup) :
    (writes.map Prod.fst).Nodup := by
  induction assigned with
  | nil => simp
  | @cons kv write settings writes first rest ih =>
      rw [List.map_cons, List.nodup_cons] at distinct ⊢
      apply And.intro _ (ih distinct.2)
      intro member
      obtain ⟨other, inside, samePlace⟩ := List.mem_map.mp member
      obtain ⟨kv', member', assigned'⟩ := exists_left_of_forall₂ rest inside
      have place' := assigned'.place
      rw [samePlace] at place'
      obtain ⟨info, here, name⟩ := findAttr_eq_some first.place
      obtain ⟨info', here', name'⟩ := findAttr_eq_some place'
      rw [here] at here'
      cases here'
      exact distinct.1 (List.mem_map.mpr ⟨kv', member', name'.trans name.symm⟩)

/-- An accepted list with different keys assigns every field. -/
theorem exists_assigned (accepted : Accepted template settings)
    (distinct : (settings.map (·.keyText)).Nodup)
    (assigned : List.Forall₂ (AssignedBy template) settings writes)
    {memory : List Slot} (sized : memory.length = template.length)
    {position : Nat} (inside : position < template.length) :
    ∃ kv ∈ settings, ∃ slot, AssignedBy template kv (position, slot) ∧
      (position, slot) ∈ writes ∧
      (assign writes memory)[position]? = some slot := by
  have places := places_nodup assigned distinct
  have within : ∀ place ∈ writes.map Prod.fst, place < template.length := by
    intro place member
    obtain ⟨write, inside, rfl⟩ := List.mem_map.mp member
    obtain ⟨kv, -, one⟩ := exists_left_of_forall₂ assigned inside
    exact findAttr_lt one.place
  have enough : (writes.map Prod.fst).length = template.length := by
    rw [List.length_map, ← assigned.length_eq, accepted.count]
  have member := (covers places within enough).mem_iff.mpr
    (List.mem_range.mpr inside)
  obtain ⟨⟨place, slot⟩, written, rfl⟩ := List.mem_map.mp member
  obtain ⟨kv, known, one⟩ := exists_left_of_forall₂ assigned written
  exact ⟨kv, known, slot, one, written,
    assign_of_mem places written (sized ▸ inside)⟩

/-- So nothing is left of the memory that the array started with. -/
theorem assign_memory_irrelevant (accepted : Accepted template settings)
    (distinct : (settings.map (·.keyText)).Nodup)
    (assigned : List.Forall₂ (AssignedBy template) settings writes)
    {memory memory' : List Slot} (sized : memory.length = template.length)
    (sized' : memory'.length = template.length) :
    assign writes memory = assign writes memory' := by
  apply List.ext_getElem?
  intro position
  by_cases inside : position < template.length
  · have places := places_nodup assigned distinct
    obtain ⟨_, _, slot, _, written, here⟩ :=
      exists_assigned accepted distinct assigned sized inside
    rw [here, assign_of_mem places written (sized' ▸ inside)]
  · rw [List.getElem?_eq_none (by rw [assign_length]; omega),
      List.getElem?_eq_none (by rw [assign_length]; omega)]

end Places

/-- The value has the type of the field. -/
def HasType (kv : KeyValuePair) (type : Nat) : Prop :=
  (type = BOOL → kv.valueType = 1 ∧ (kv.valueInt = 1 ∨ kv.valueInt = 0)) ∧
    (type = FLOAT → kv.valueType = 2) ∧ (type = INT → kv.valueType = 1) ∧
    (type = STRING → kv.valueType = 0)

/-- The keys are the names of the attributes, each of them once, and every value
has the type of its field. -/
structure DefinesNode (template : List NodeAttributeInfo)
    (settings : List KeyValuePair) : Prop where
  keys : (settings.map (·.keyText)).Perm (template.map (·.nameText))
  once : (settings.map (·.keyText)).Nodup
  typed : ∀ kv ∈ settings, ∀ info ∈ template, kv.keyText = info.nameText →
    HasType kv info.type

/-- The values for BOOL fields are integer-typed. -/
def BoolsTyped (template : List NodeAttributeInfo)
    (settings : List KeyValuePair) : Prop :=
  ∀ kv ∈ settings, ∀ info ∈ template, kv.keyText = info.nameText →
    info.type = BOOL → kv.valueType = 1

section Defining

variable {template : List NodeAttributeInfo} {settings : List KeyValuePair}

theorem DefinesNode.accepted (defines : DefinesNode template settings) :
    Accepted template settings where
  count := by simpa using defines.keys.length_eq
  checked := by
    intro kv member
    have named := defines.keys.mem_iff.mp (List.mem_map_of_mem member)
    obtain ⟨info, inside, same⟩ := List.mem_map.mp named
    obtain ⟨pPos, found⟩ := findAttr_of_mem inside same.symm
    obtain ⟨info', here, name⟩ := findAttr_eq_some found
    obtain ⟨bool, float, int, string⟩ := defines.typed kv member info'
      (List.mem_of_getElem? here) name
    apply Exists.intro pPos
    apply And.intro found
    rw [List.getElem?_map, here, Option.map_some]
    unfold Checked
    simp only [Option.some.injEq]
    exact ⟨fun isBool => (bool isBool).2, float, int, string⟩

/-- What is accepted defines a node, unless a key is repeated or a value of
another type passes as a boolean. -/
theorem Accepted.definesNode (accepted : Accepted template settings)
    (distinct : (settings.map (·.keyText)).Nodup)
    (bools : BoolsTyped template settings) : DefinesNode template settings := by
  have keys : (settings.map (·.keyText)).Perm (template.map (·.nameText)) := by
    apply List.Subperm.perm_of_length_le
    · apply distinct.subperm
      intro key member
      obtain ⟨kv, known, rfl⟩ := List.mem_map.mp member
      obtain ⟨pPos, found, -⟩ := accepted.checked kv known
      obtain ⟨info, here, name⟩ := findAttr_eq_some found
      exact List.mem_map.mpr ⟨info, List.mem_of_getElem? here, name.symm⟩
    · rw [List.length_map, List.length_map, accepted.count]
  apply DefinesNode.mk keys distinct
  intro kv member info inside same
  obtain ⟨pPos, found, checked⟩ := accepted.checked kv member
  obtain ⟨info', here, name⟩ := findAttr_eq_some found
  have names := keys.nodup_iff.mp distinct
  obtain rfl := List.inj_on_of_nodup_map names inside
    (List.mem_of_getElem? here) (same.symm.trans name)
  rw [List.getElem?_map, here, Option.map_some] at checked
  unfold Checked at checked
  simp only [Option.some.injEq] at checked
  exact ⟨fun isBool => ⟨bools kv member info inside same isBool,
    checked.1 isBool⟩, checked.2⟩

end Defining

/-- The call becomes one call of `addNode` with these words. -/
def BecomesAdd (address : Nat → UInt64) (settings : List KeyValuePair)
    (parentId : UInt64) (template : List NodeAttributeInfo)
    (fields : List Slot) : Prop :=
  ∀ world : World,
    (storageInsertNodeNew address settings parentId template).run world =
      (do
        let _ ← addNode fields parentId
        return ErrCode.ok : Prog ErrCode).run
          { world with blocks := world.blocks + 1 }

/-- The call reports an error and leaves the file as it is. -/
def Refuses (address : Nat → UInt64) (settings : List KeyValuePair)
    (parentId : UInt64) (template : List NodeAttributeInfo) : Prop :=
  ∀ world, wp (storageInsertNodeNew address settings parentId template)
    (fun code final => code ≠ .ok ∧ final.file = world.file) world

/-- Exactly the lists that define a node are accepted.  They become one call of
`addNode`, each word of which was assigned from a setting. -/
structure InsertExact (template : List NodeAttributeInfo)
    (settings : List KeyValuePair) : Prop where
  added : DefinesNode template settings → ∀ address parentId, ∃ fields,
    BecomesAdd address settings parentId template fields ∧
    fields.length = template.length ∧
    ∀ position, position < template.length → ∃ kv ∈ settings, ∃ slot,
      AssignedBy template kv (position, slot) ∧ fields[position]? = some slot
  refused : ¬ DefinesNode template settings → ∀ address parentId,
    Refuses address settings parentId template

section Exactness

variable {template : List NodeAttributeInfo} {settings : List KeyValuePair}

theorem Accepted.becomesAdd (typed : Typed template)
    (accepted : Accepted template settings)
    (distinct : (settings.map (·.keyText)).Nodup) (address : Nat → UInt64)
    (parentId : UInt64) : ∃ fields,
      BecomesAdd address settings parentId template fields ∧
      fields.length = template.length ∧
      ∀ position, position < template.length → ∃ kv ∈ settings, ∃ slot,
        AssignedBy template kv (position, slot) ∧
          fields[position]? = some slot := by
  obtain ⟨writes, assigned, runs⟩ :=
    storageInsertNodeNew_accepted address parentId typed accepted
  have blankSized : (List.replicate template.length (numberSlot 0)).length =
      template.length := List.length_replicate
  apply Exists.intro
    (assign writes (List.replicate template.length (numberSlot 0)))
  refine ⟨?_, by rw [assign_length, blankSized], ?_⟩
  · intro world
    obtain ⟨memory, sized, outcome⟩ := runs world
    rw [outcome, assign_memory_irrelevant accepted distinct assigned sized
      blankSized]
  · intro position inside
    obtain ⟨kv, member, slot, one, -, here⟩ :=
      exists_assigned accepted distinct assigned blankSized inside
    exact ⟨kv, member, slot, one, here⟩

/-- A list that is accepted is not refused. -/
theorem Accepted.not_refuses (typed : Typed template)
    (accepted : Accepted template settings) (address : Nat → UInt64)
    (parentId : UInt64) :
    ¬ Refuses address settings parentId template := by
  intro refuses
  obtain ⟨writes, -, runs⟩ :=
    storageInsertNodeNew_accepted address parentId typed accepted
  obtain ⟨memory, -, outcome⟩ := runs (blankWorld [])
  obtain ⟨code, final, ran, failed, -⟩ := refuses (blankWorld [])
  rw [outcome] at ran
  have stored : wp (do
      let _ ← addNode (assign writes memory) parentId
      return ErrCode.ok : Prog ErrCode) (fun code _ => code ≠ .ok)
      { blankWorld [] with blocks := (blankWorld []).blocks + 1 } :=
    ⟨code, final, ran, failed⟩
  rw [wp_bind] at stored
  obtain ⟨_, _, -, absurdly⟩ := stored
  exact (wp_pure _).mp absurdly rfl

end Exactness

/-- `storageInsertNodeNew` is exact for a list unless it accepts the list
although a key is repeated or a value of another type stands for a boolean. -/
theorem insertExact_iff {template : List NodeAttributeInfo}
    {settings : List KeyValuePair} (typed : Typed template) :
    InsertExact template settings ↔
      (Accepted template settings → (settings.map (·.keyText)).Nodup ∧
        BoolsTyped template settings) := by
  constructor
  · intro exact_ accepted
    by_contra wrong
    have notDefined : ¬ DefinesNode template settings := fun defines =>
      wrong ⟨defines.once, fun kv member info inside same isBool =>
        ((defines.typed kv member info inside same).1 isBool).1⟩
    exact accepted.not_refuses typed (fun _ => 0) 0
      (exact_.refused notDefined _ _)
  · intro sound
    constructor
    · intro defines address parentId
      exact defines.accepted.becomesAdd typed defines.once address parentId
    · intro notDefined address parentId world
      apply storageInsertNodeNew_refused typed
      intro accepted
      obtain ⟨distinct, bools⟩ := sound accepted
      exact notDefined (accepted.definesNode distinct bools)

/-- An integer attribute with this name. -/
def integerAttr (name : List UInt8) : NodeAttributeInfo where
  size := 4
  type := INT
  attributeName := name

/-- An integer setting with this key. -/
def integerSetting (key : CharPtr) (value : Int64) : KeyValuePair where
  key := key
  valueType := 1
  valueInt := value
  valueReal := 0
  valueString := [0]

theorem typed_integers (names : List (List UInt8)) :
    Typed (names.map integerAttr) := by
  intro info member
  obtain ⟨name, -, rfl⟩ := List.mem_map.mp member
  exact Nat.zero_le _

/-- A string attribute with this name. -/
def stringAttr (name : List UInt8) : NodeAttributeInfo where
  size := 4
  type := STRING
  attributeName := name

/-- A string setting with this key. -/
def stringSetting (key valueString : CharPtr) : KeyValuePair where
  key := key
  valueType := 0
  valueInt := 0
  valueReal := 0
  valueString := valueString

/-- An integer and a string, set in the other order. -/
theorem insertExact_iff_two :
    DefinesNode [integerAttr [97, 0], stringAttr [115, 0]]
      [stringSetting [115, 0] [65, 66, 0], integerSetting [97, 0] 7] ∧
    InsertExact [integerAttr [97, 0], stringAttr [115, 0]]
      [stringSetting [115, 0] [65, 66, 0], integerSetting [97, 0] 7] := by
  have typed : Typed [integerAttr [97, 0], stringAttr [115, 0]] := by
    unfold Typed
    decide
  have defines : DefinesNode [integerAttr [97, 0], stringAttr [115, 0]]
      [stringSetting [115, 0] [65, 66, 0], integerSetting [97, 0] 7] := by
    refine ⟨by decide, by decide, ?_⟩
    unfold HasType
    decide
  refine ⟨defines, (insertExact_iff typed).mpr fun _ => ⟨defines.once, ?_⟩⟩
  intro kv member info inside same isBool
  exact ((defines.typed kv member info inside same).1 isBool).1

/-- Two values for the first of two attributes: the second word is stored as it
was in memory. -/
theorem not_always_insertExact :
    ¬ ∀ template settings, Typed template → InsertExact template settings := by
  intro always
  have typed := typed_integers [[97, 0], [98, 0]]
  have exact_ := always _
    [integerSetting [97, 0] 1, integerSetting [97, 0] 2] typed
  have accepted : Accepted ([[97, 0], [98, 0]].map integerAttr)
      [integerSetting [97, 0] 1, integerSetting [97, 0] 2] := by
    apply Accepted.mk rfl
    intro kv member
    apply Exists.intro 0
    simp only [List.mem_cons, List.not_mem_nil, or_false] at member
    rcases member with rfl | rfl <;>
      exact ⟨by decide, by simp [Checked, integerAttr, integerSetting]⟩
  apply accepted.not_refuses typed (fun _ => 0) 0
  apply exact_.refused
  intro defines
  exact absurd defines.once (by decide)

/-- What `addNode` reads from the slots for fields of these types. -/
def handed (template : List NodeAttributeInfo) (fields : List Slot) :
    List FieldValue :=
  List.zipWith (fun type slot =>
    if type = STRING then FieldValue.text slot.deref
    else FieldValue.word slot.word.toNat) (template.map (·.type)) fields

section Order

variable {template : List NodeAttributeInfo}
  {settings settings' : List KeyValuePair} {fields fields' : List Slot}

/-- The place of a string in memory does not matter. -/
theorem insertValue_field {address address' : UInt64} {kv : KeyValuePair}
    {type : Nat} {slot slot' : Slot}
    (value : insertValue address kv (some type) = .ok (some slot))
    (value' : insertValue address' kv (some type) = .ok (some slot')) :
    (if type = STRING then FieldValue.text slot.deref
      else FieldValue.word slot.word.toNat) =
    if type = STRING then FieldValue.text slot'.deref
      else FieldValue.word slot'.word.toNat := by
  unfold insertValue at value value'
  by_cases string : type = STRING
  · subst string
    rw [if_neg (by decide), if_neg (by decide), if_neg (by decide),
      if_pos rfl] at value value'
    split at value
    · cases value
    · rename_i same
      rw [if_neg same] at value'
      cases value
      cases value'
      rfl
  · have other : ¬ some type = some STRING := fun same =>
      string (Option.some.inj same)
    rw [if_neg other] at value value'
    rw [value] at value'
    cases value'
    rfl

theorem Accepted.perm (accepted : Accepted template settings)
    (perm : settings.Perm settings') : Accepted template settings' where
  count := perm.length_eq ▸ accepted.count
  checked := fun kv member => accepted.checked kv (perm.mem_iff.mpr member)

/-- Where the same settings are assigned, `addNode` reads the same. -/
theorem handed_eq (distinct : (settings.map (·.keyText)).Nodup)
    (perm : settings.Perm settings')
    (sized : fields.length = template.length)
    (sized' : fields'.length = template.length)
    (assigned : ∀ position, position < template.length → ∃ kv ∈ settings,
      ∃ slot, AssignedBy template kv (position, slot) ∧
        fields[position]? = some slot)
    (assigned' : ∀ position, position < template.length → ∃ kv ∈ settings',
      ∃ slot, AssignedBy template kv (position, slot) ∧
        fields'[position]? = some slot) :
    handed template fields = handed template fields' := by
  apply List.ext_getElem?
  intro position
  by_cases inside : position < template.length
  · obtain ⟨kv, member, slot, one, here⟩ := assigned position inside
    obtain ⟨kv', member', slot', one', here'⟩ := assigned' position inside
    obtain ⟨info, known, name⟩ := findAttr_eq_some one.place
    obtain ⟨info', known', name'⟩ := findAttr_eq_some one'.place
    dsimp only at known known'
    rw [known] at known'
    cases known'
    obtain rfl := List.inj_on_of_nodup_map distinct member
      (perm.mem_iff.mpr member') (name.trans name'.symm)
    obtain ⟨address, value⟩ := one.value
    obtain ⟨address', value'⟩ := one'.value
    have type : (template.map (·.type))[position]? = some info.type := by
      rw [List.getElem?_map, known]
      rfl
    dsimp only at value value'
    rw [type] at value value'
    rw [handed, handed, List.getElem?_zipWith, List.getElem?_zipWith, type,
      here, here']
    exact congrArg some (insertValue_field value value')
  · rw [List.getElem?_eq_none, List.getElem?_eq_none] <;>
      simp only [handed, List.length_zipWith, List.length_map] <;> omega

/-- `addFields` reads a slot as a pointer or as a word, by the type. -/
theorem addFields_congr {types : List Nat} {size : Nat}
    {values values' : List Slot}
    (length : values.length = values'.length)
    (same : ∀ (i : Nat) (slot slot' : Slot), values[i]? = some slot →
      values'[i]? = some slot' →
        (types[i]? = some STRING → slot.deref = slot'.deref) ∧
        (types[i]? ≠ some STRING → slot.word = slot'.word))
    (node : KeyNode) :
    addFields types size values node = addFields types size values' node := by
  unfold addFields
  congr 1
  funext newNode i
  by_cases inside : i < values.length
  · have here := List.getElem?_eq_getElem inside
    have here' := List.getElem?_eq_getElem (length ▸ inside)
    obtain ⟨derefs, words⟩ := same i _ _ here here'
    unfold index
    rw [here, here']
    simp only [pure_bind]
    by_cases string : types[i]? = some STRING
    · rw [if_pos string, if_pos string, derefs string]
    · rw [if_neg string, if_neg string, words string]
  · have outside : values[i]? = none := List.getElem?_eq_none (by omega)
    have outside' : values'[i]? = none := List.getElem?_eq_none (by omega)
    unfold index
    rw [outside, outside']

theorem addNode_run_eq {schema : TreeSchema} {world : World}
    {parent : UInt64} (stored : SchemaAt world.file schema)
    (sized : fields.length = schema.nodesTemplate.length)
    (sized' : fields'.length = schema.nodesTemplate.length)
    (same : handed schema.nodesTemplate fields =
      handed schema.nodesTemplate fields') :
    (addNode fields parent).run world = (addNode fields' parent).run world := by
  have read : wp getTypes (fun result _ => result.1 = schema.types) world := by
    rw [getTypes, wp_bind, wp_fseekSet, if_pos le_rfl, wp_bind]
    apply wp_readTreeSchema stored.valid stored.here
    intro blocks
    rw [wp_pure]
  obtain ⟨⟨types, size⟩, final, ran, rfl⟩ := read
  have congr : ∀ node, addFields schema.types size fields node =
      addFields schema.types size fields' node := by
    apply addFields_congr (sized.trans sized'.symm)
    intro i slot slot' here here'
    have inside : i < schema.nodesTemplate.length :=
      sized ▸ (List.getElem?_eq_some_iff.mp here).1
    have type : schema.types[i]? = some schema.nodesTemplate[i].type := by
      rw [List.getElem?_map, List.getElem?_eq_getElem inside]
      rfl
    have entry := congrArg (·[i]?) same
    simp only [handed, List.getElem?_zipWith, type, here, here',
      Option.some.injEq] at entry
    rw [type]
    by_cases string : schema.nodesTemplate[i].type = STRING
    · rw [if_pos string, if_pos string] at entry
      exact ⟨fun _ => FieldValue.text.inj entry,
        fun other => absurd (congrArg some string) other⟩
    · rw [if_neg string, if_neg string] at entry
      exact ⟨fun other => absurd (Option.some.inj other) string,
        fun _ => UInt64.toNat_inj.mp (FieldValue.word.inj entry)⟩
  unfold addNode
  rw [StateT.run_bind, StateT.run_bind, ran]
  dsimp only [Bind.bind, Except.bind]
  simp only [congr]

end Order

/-- The two lists of settings come to the same: either both are refused, or both
become one call of `addNode` that reads the same values; on a store with this
template these calls do the same. -/
def SameInsert (template : List NodeAttributeInfo) (parentId : UInt64)
    (address address' : Nat → UInt64)
    (settings settings' : List KeyValuePair) : Prop :=
  Refuses address settings parentId template ∧
      Refuses address' settings' parentId template ∨
    (∃ fields fields', BecomesAdd address settings parentId template fields ∧
      BecomesAdd address' settings' parentId template fields' ∧
      handed template fields = handed template fields') ∧
    ∀ (world : World) (schema : TreeSchema), SchemaAt world.file schema →
      schema.nodesTemplate = template →
        (storageInsertNodeNew address settings parentId template).run world =
          (storageInsertNodeNew address' settings' parentId template).run world

/-- The order of settings with different keys does not matter, wherever in
memory their strings lie. -/
theorem storageInsertNodeNew_perm {template : List NodeAttributeInfo}
    {settings settings' : List KeyValuePair} (typed : Typed template)
    (distinct : (settings.map (·.keyText)).Nodup)
    (perm : settings.Perm settings') (parentId : UInt64)
    (address address' : Nat → UInt64) :
    SameInsert template parentId address address' settings settings' := by
  by_cases accepted : Accepted template settings
  · apply Or.inr
    have accepted' := accepted.perm perm
    have distinct' := (perm.map (·.keyText)).nodup_iff.mp distinct
    obtain ⟨fields, becomes, sized, assigned⟩ :=
      accepted.becomesAdd typed distinct address parentId
    obtain ⟨fields', becomes', sized', assigned'⟩ :=
      accepted'.becomesAdd typed distinct' address' parentId
    have same := handed_eq distinct perm sized sized' assigned assigned'
    apply And.intro ⟨fields, fields', becomes, becomes', same⟩
    rintro world schema stored rfl
    have calls := @addNode_run_eq fields fields' schema
      { world with blocks := world.blocks + 1 } parentId stored sized sized'
      same
    rw [becomes world, becomes' world, StateT.run_bind, StateT.run_bind, calls]
  · apply Or.inl
    constructor
    · exact fun world => storageInsertNodeNew_refused typed accepted
    · exact fun world => storageInsertNodeNew_refused typed fun accepted' =>
        accepted (accepted'.perm perm.symm)

theorem storageInsertNodeNew_perm_swap :
    SameInsert ([[97, 0], [98, 0]].map integerAttr) 0 (fun _ => 0) (fun _ => 0)
      [integerSetting [97, 0] 1, integerSetting [98, 0] 2]
      [integerSetting [98, 0] 2, integerSetting [97, 0] 1] :=
  storageInsertNodeNew_perm (typed_integers _) (by decide)
    (List.Perm.swap _ _ _) 0 _ _

end TreeStore
