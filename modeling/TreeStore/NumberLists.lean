import TreeStore.NodeLists

/-!
# Stores of up to thirty numbers

When the id array grows, a tuple loses its last sixteen bytes.  With at most
thirty attributes a tuple does not reach so far, and without strings there is
nothing else to lose: such a store is a list of nodes in every run, as long as
the file stays so small that its offsets are numbers of type `long`.
-/

namespace TreeStore

open ByteFile ProgramLogic LinkedRecords GuardedRuns

/-- The calls that make sense for the list: values for all fields, a field of a
node of the list and a word for it, and the removal of the only node or of an
id that is not there. -/
def Op.Allowed (types : List Nat) : Op → List NodeView → Prop
  | .add values _, _ => types.length ≤ values.length
  | .update fieldNumber newValue id, list =>
      id < list.length ∧ fieldNumber < types.length ∧ 8 ≤ newValue.length
  | .remove id, list =>
      id = 0 ∧ list.length = 1 ∨
        list.length ≤ id ∧ id < idUnit types.length

instance (types : List Nat) (op : Op) (list : List NodeView) :
    Decidable (op.Allowed types list) :=
  match op with
  | .add _ _ => inferInstanceAs (Decidable (_ ≤ _))
  | .update _ _ _ => inferInstanceAs (Decidable (_ ∧ _ ∧ _))
  | .remove _ => inferInstanceAs (Decidable (_ ∨ _))

/-- Each of the calls, the last one in front, is allowed for the list that the
earlier ones leave. -/
def Permitted (types : List Nat) : List Op → Prop
  | [] => True
  | op :: calls =>
      op.Allowed types (listAfter types calls) ∧ Permitted types calls

instance (types : List Nat) : (calls : List Op) →
    Decidable (Permitted types calls)
  | [] => inferInstanceAs (Decidable True)
  | _ :: calls =>
      have := instDecidablePermitted types calls
      inferInstanceAs (Decidable (_ ∧ _))

/-- There is room for two more records of up to thirty words. -/
def Roomy (_ : Op) (file : List UInt8) : Prop :=
  file.length + 2 * (minNodeSize + nodeHeadSize) < 2 ^ 63

section Stores

variable {types : List Nat} {file : List UInt8} {list : List NodeView}
  {img : Image} {nodes : List NodeImage} {schema : TreeSchema}

theorem not_string (numbers : STRING ∉ types) (position : Nat) :
    types[position]? ≠ some STRING :=
  fun string => numbers (List.mem_of_getElem? string)

theorem getRealNodeSize_small {size : Nat} (few : size ≤ 30) :
    getRealNodeSize size = minNodeSize := by
  unfold getRealNodeSize
  rw [if_pos]
  change size * 8 < 256
  omega

/-- Without strings, the record behind the id array is a tuple. -/
theorem StoreAt.registered_of_grows (store : StoreAt img nodes file)
    (numbers : STRING ∉ img.types)
    (grows : idUnit img.templateSize ∣ img.curId + 1) {record : KeyNode}
    (here : RecordAt file img.schema img.schema.arrayEnd record) :
    img.schema.root[record.header.allocNode]? = some img.schema.arrayEnd := by
  have inside : img.reserved ∈ nodes.flatMap NodeImage.slots :=
    (store.layout.covers _).mpr
      ⟨le_rfl, store.reserved_lt (pos_of_grows _ _ grows)⟩
  obtain ⟨node, member, owner⟩ := List.mem_flatMap.mp inside
  obtain ⟨id, found⟩ := List.getElem?_of_mem member
  have nodeAt := store.layout.nodeAt id node found
  have tuple : img.reserved = node.slot := by
    rw [NodeImage.slots, store.chainSlots_eq (not_string numbers) found,
      List.nil_append] at owner
    exact List.mem_singleton.mp owner
  have arrayEnd : img.schema.arrayEnd = img.slotOffset node.slot := by
    rw [store.arrayEnd_eq, ← tuple]
    exact congrArg img.slotOffset (idRecords_of_grows _ _ grows).1
  obtain ⟨record', known, tupleAt⟩ := nodeAt.tuple
  rw [arrayEnd] at here ⊢
  obtain rfl := here.unique (store.recordAt known)
  rw [tupleAt.header]
  exact store.root id node found

/-- Values for all fields fit, and growth loses nothing. -/
theorem StoreAt.add_faithful {values : List Slot} {parent : UInt64}
    (store : StoreAt img nodes file) (numbers : STRING ∉ img.types)
    (few : img.types.length ≤ 30)
    (complete : img.types.length ≤ values.length)
    (roomy : Roomy (.add values parent) file) :
    Faithful (.add values parent) file := by
  have realSize : img.schema.realSize = minNodeSize := by
    rw [← getRealNodeSize_small few, store.realSize_eq]
  have plain := not_string numbers
  refine ⟨img.schema, store.schemaAt, ⟨⟨complete, ?_, ?_⟩, ?_, ?_⟩, ?_⟩
  · exact fun position value string _ => absurd string (plain position)
  · exact fun position string _ => absurd string (plain position)
  · intro grows record here
    unfold Movable
    rw [if_pos (store.registered_of_grows numbers grows here)]
    exact fun position string => absurd string (plain position)
  · have one : addRecords img.schema.types img.schema.realSize values = 1 := by
      unfold addRecords
      rw [List.sum_eq_zero]
      intro records member
      obtain ⟨position, -, rfl⟩ := List.mem_map.mp member
      exact if_neg (plain position)
    unfold Roomy at roomy
    rw [one, TreeSchema.recordSize, realSize]
    omega
  · intro grows record here
    unfold Lossless
    rw [if_pos (store.registered_of_grows numbers grows here), realSize]
    intro position inside short
    change position < img.types.length at inside
    change 256 < 8 * position + 8 + 16 at short
    omega

/-- An allowed call fits every store that looks like the list. -/
theorem Mirrors.faithful {op : Op} (mirrors : Mirrors types file list)
    (numbers : STRING ∉ types) (few : types.length ≤ 30)
    (allowed : op.Allowed types list) (roomy : Roomy op file) :
    Faithful op file := by
  obtain ⟨img, nodes, store, -, rfl, rfl⟩ := mirrors
  have count : (nodes.map (NodeImage.view img.realSize)).length = img.curId := by
    rw [List.length_map, store.count]
  cases op with
  | add values parent => exact store.add_faithful numbers few allowed roomy
  | update fieldNumber newValue id =>
      obtain ⟨live, field, long⟩ := allowed
      rw [count] at live
      refine ⟨img.schema, store.schemaAt, ⟨live, field, ?_⟩, fun _ => long⟩
      exact fun string => absurd string (not_string numbers fieldNumber)
  | remove id =>
      refine ⟨img.schema, store.schemaAt, ?_⟩
      rcases allowed with ⟨rfl, only⟩ | ⟨dead, inside⟩
      · rw [count] at only
        exact Or.inr (Or.inl ⟨only, rfl, not_string numbers⟩)
      · rw [count] at dead
        rw [store.holds.types_length] at inside
        exact Or.inl (store.fresh id dead inside)

end Stores

/-- With at most thirty attributes and no string among them, every run of allowed
calls whose file stays small leaves the nodes of the list, and a further allowed
call returns what the list answers and leaves the nodes of the list after it. -/
theorem numbers_refine {specs : List AttributeSpec} {calls : List Op} {op : Op}
    {world : World} {fuel : Nat} (numbers : STRING ∉ specs.map (·.type))
    (few : specs.length ≤ 30) (ran : Ran specs Roomy calls world.file)
    (roomy : Roomy op world.file)
    (permitted : Permitted (specs.map (·.type)) (op :: calls))
    (enough : world.file.length ≤ fuel) :
    Represents (specs.map (·.type)) world.file
        (listAfter (specs.map (·.type)) calls) ∧
      wp (op.exec fuel) (fun status final =>
        status = op.answer (listAfter (specs.map (·.type)) calls) ∧
          Represents (specs.map (·.type)) final.file
            (listAfter (specs.map (·.type)) (op :: calls))) world := by
  have short : (specs.map (·.type)).length ≤ 30 := by rwa [List.length_map]
  obtain ⟨allowed, before⟩ := permitted
  have faithful : Ran specs Faithful calls world.file := by
    clear allowed roomy enough
    generalize world.file = file at ran
    induction ran with
    | initial begins => exact .initial begins
    | next op _ roomy moves ih =>
        obtain ⟨allowed, before⟩ := before
        have earlier := ih before
        exact .next op earlier
          ((mirrors_of_ran earlier).faithful numbers short allowed roomy) moves
  have mirrors := mirrors_of_ran faithful
  exact mirrors.call (mirrors.faithful numbers short allowed roomy) enough

theorem numbers_refine_seven :
    Represents [INT] oneSeven [⟨7, [.word 7]⟩] ∧
      wp (removeNode oneSeven.length 0 false) (fun status final =>
        status = .success ∧ Represents [INT] final.file [])
        (blankWorld oneSeven) := by
  have ran : Ran [singleSpec INT number_lt] Roomy [.add [⟨7, []⟩] 7]
      oneSeven := by
    apply Traced.next _ (.initial created_number) _ returns_seven
    unfold Roomy
    rw [singleSchema_length]
    decide
  have short : oneSeven.length ≤ 1000 := by decide +kernel
  generalize oneSeven = file at ran short ⊢
  have roomy : Roomy (.remove 0) file := by
    unfold Roomy minNodeSize nodeHeadSize
    omega
  exact @numbers_refine [singleSpec INT number_lt] [.add [⟨7, []⟩] 7]
    (.remove 0) (blankWorld file) _ (by decide) (by decide) ran roomy (by decide)
    le_rfl

end TreeStore
