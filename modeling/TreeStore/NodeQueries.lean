import TreeStore.NodeLists
import TreeStore.Searching

/-!
# Searching in the list

The scans of the store find in a file the ids that one would find in the list.
-/

namespace TreeStore

open ByteFile ProgramLogic LinkedRecords GuardedRuns

/-- The ids whose nodes pass a test, the newest first. -/
def idsWhere (test : NodeView → Bool) (list : List NodeView) : List Nat :=
  ((List.range list.length).filter fun id => list[id]?.any test).reverse

/-- A field is searched for by the characters of the condition, or by its first
eight bytes. -/
def FieldValue.equals (condition : CharPtr) : FieldValue → Bool
  | .word number => number = leValue (condition.take 8)
  | .text block => textOf block = textOf condition

def NodeView.fieldEquals (position : Nat) (condition : CharPtr)
    (node : NodeView) : Bool :=
  node.fields[position]?.any (FieldValue.equals condition)

/-- A string is terminated. -/
def FieldValue.Ended : FieldValue → Prop
  | .word _ => True
  | .text block => 0 ∈ block

instance (field : FieldValue) : Decidable field.Ended :=
  match field with
  | .word _ => inferInstanceAs (Decidable True)
  | .text block => inferInstanceAs (Decidable (0 ∈ block))

/-- The strings of the list are terminated. -/
def Ended (list : List NodeView) : Prop :=
  ∀ node ∈ list, ∀ field ∈ node.fields, field.Ended

instance (list : List NodeView) : Decidable (Ended list) :=
  inferInstanceAs (Decidable (∀ node ∈ list, ∀ field ∈ node.fields, field.Ended))

/-- So are those in one field. -/
def EndedAt (position : Nat) (list : List NodeView) : Prop :=
  ∀ node ∈ list, ∀ field ∈ node.fields[position]?, field.Ended

instance (position : Nat) (list : List NodeView) :
    Decidable (EndedAt position list) :=
  inferInstanceAs (Decidable
    (∀ node ∈ list, ∀ field ∈ node.fields[position]?, field.Ended))

theorem mem_idsWhere {test : NodeView → Bool} {list : List NodeView}
    {id : Nat} : id ∈ idsWhere test list ↔
      ∃ node, list[id]? = some node ∧ test node = true := by
  unfold idsWhere
  rw [List.mem_reverse, List.mem_filter, List.mem_range]
  constructor
  · rintro ⟨inside, passes⟩
    rw [List.getElem?_eq_getElem inside] at passes ⊢
    exact ⟨_, rfl, passes⟩
  · rintro ⟨node, found, passes⟩
    exact ⟨(List.getElem?_eq_some_iff.mp found).1, by rw [found]; exact passes⟩

theorem pairwise_idsWhere (test : NodeView → Bool) (list : List NodeView) :
    (idsWhere test list).Pairwise (· > ·) := by
  unfold idsWhere
  rw [List.pairwise_reverse]
  exact List.pairwise_lt_range.filter _

section Scans

variable {types : List Nat} {list : List NodeView} {world : World}
  {img : Image} {nodes : List NodeImage} {file : List UInt8} {fuel : Nat}

/-- A result set that lists the right ids is known. -/
theorem Lists.ids_eq {schema : TreeSchema} {wanted : Nat → KeyNode → Prop}
    {found : List ResultSetNode} {test : NodeView → Bool}
    (lists : Lists file schema wanted found)
    (same : ∀ id, (∃ offset record, LiveAt schema id offset ∧
      RecordAt file schema offset record ∧ wanted id record) ↔
        ∃ node, list[id]? = some node ∧ test node = true) :
    found.map (·.id) = idsWhere test list := by
  apply List.Pairwise.eq_of_mem_iff lists.sorted (pairwise_idsWhere test list)
  intro id
  rw [lists.exact, same, mem_idsWhere]

/-- The live ids with their records, and what the records look like. -/
theorem StoreAt.exists_live_iff {id : Nat} {wanted : KeyNode → Prop}
    {test : NodeView → Bool} (store : StoreAt img nodes file)
    (same : ∀ node record, nodes[id]? = some node →
      TupleAt img.slotOffset record node.parent id node.fields →
        (wanted record ↔ test (node.view img.realSize) = true)) :
    (∃ offset record, LiveAt img.schema id offset ∧
      RecordAt file img.schema offset record ∧ wanted record) ↔
      ∃ node, (nodes.map (NodeImage.view img.realSize))[id]? = some node ∧
        test node = true := by
  constructor
  · rintro ⟨offset, record, live, here, holds⟩
    obtain ⟨node, found, rfl⟩ := store.node_of_live live
    obtain ⟨record', known, tupleAt⟩ :=
      (store.layout.nodeAt id node found).tuple
    obtain rfl := here.unique (store.recordAt known)
    refine ⟨node.view img.realSize, ?_, (same node record found tupleAt).mp holds⟩
    rw [List.getElem?_map, found]
    rfl
  · rintro ⟨view, viewed, passes⟩
    rw [List.getElem?_map] at viewed
    obtain ⟨node, found, rfl⟩ := Option.map_eq_some_iff.mp viewed
    obtain ⟨record, known, tupleAt⟩ :=
      (store.layout.nodeAt id node found).tuple
    exact ⟨_, record, store.liveAt found, store.recordAt known,
      (same node record found tupleAt).mpr passes⟩

theorem Mirrors.wp_findByParent (mirrors : Mirrors types world.file list)
    (parent : Nat) :
    wp (findByParent parent) (fun found final => final.file = world.file ∧
      found.map (·.id) = idsWhere (fun node => node.parent = parent) list)
      world := by
  obtain ⟨img, nodes, store, -, rfl, rfl⟩ := mirrors
  have tuples := store.wellFormed.apartTuples.toTuples
  apply wp_mono (tuples.wp_findByParent parent)
  rintro found final ⟨same, lists⟩
  refine ⟨same, lists.ids_eq fun id => store.exists_live_iff ?_⟩
  intro node record _ tupleAt
  rw [tupleAt.header]
  exact (decide_eq_true_iff).symm

/-- A field of the list is the word of the record, or the text that the word
leads to. -/
theorem StoreAt.field_cases {id position type : Nat} {node : NodeImage}
    {record : KeyNode} (store : StoreAt img nodes file)
    (found : nodes[id]? = some node)
    (tupleAt : TupleAt img.slotOffset record node.parent id node.fields)
    (typed : img.types[position]? = some type) :
    type ≠ STRING ∧ (node.view img.realSize).fields[position]? =
      some (.word (record.word position)) ∨
    type = STRING ∧ ∃ chain,
      ForwardChain file img.schema (record.word position) chain ∧
        (node.view img.realSize).fields[position]? =
          some (.text (assemble img.realSize chain)) := by
  have fieldsAt := (store.layout.nodeAt id node found).fieldsAt
  have inside : position < node.fields.length := by
    rw [fieldsAt.count]
    exact (List.getElem?_eq_some_iff.mp typed).1
  have fieldFound := List.getElem?_eq_getElem inside
  generalize node.fields[position] = field at fieldFound
  have isString := fieldsAt.typed position field fieldFound
  rw [typed, Option.some.injEq] at isString
  have word := tupleAt.words position field fieldFound
  unfold NodeImage.view NodeImage.values
  rw [List.getElem?_map, fieldFound, Option.map_some]
  cases field with
  | num number =>
      refine Or.inl ⟨?_, by rw [word]; rfl⟩
      intro string
      obtain ⟨chain, ⟨⟩⟩ := isString.mp string
  | str chain =>
      obtain ⟨nonempty, linked⟩ :=
        fieldsAt.chains chain (List.mem_of_getElem? fieldFound)
      obtain ⟨⟨slot, data⟩, rest, rfl⟩ := List.exists_cons_of_ne_nil nonempty
      have heads := store.holds.forwardChain linked.leads
      refine Or.inr ⟨isString.mpr ⟨_, rfl⟩, _, by rw [word]; exact heads, ?_⟩
      rw [assemble_addressed]
      rfl

/-- A field of a record equals a condition if the field of the list does. -/
theorem StoreAt.fieldIs_iff {id position type : Nat} {node : NodeImage}
    {record : KeyNode} {condition : CharPtr} (store : StoreAt img nodes file)
    (found : nodes[id]? = some node)
    (tupleAt : TupleAt img.slotOffset record node.parent id node.fields)
    (typed : img.types[position]? = some type) :
    FieldIs file img.schema type position condition record ↔
      (node.view img.realSize).fieldEquals position condition = true := by
  unfold NodeView.fieldEquals FieldIs
  rcases store.field_cases found tupleAt typed with
    ⟨number, shown⟩ | ⟨string, chain, heads, shown⟩
  · rw [if_neg number, shown]
    exact (decide_eq_true_iff).symm
  · rw [if_pos string, shown]
    constructor
    · rintro ⟨chain', heads', equal⟩
      apply decide_eq_true
      rw [← equal, heads'.unique heads]
    · intro equal
      exact ⟨chain, heads, of_decide_eq_true equal⟩

/-- A store whose strings are terminated can be searched. -/
theorem StoreAt.searchable (store : StoreAt img nodes file)
    (ended : Ended (nodes.map (NodeImage.view img.realSize))) :
    Searchable file img.schema := by
  apply store.wellFormed.searchable
  intro id node chain found member
  have shown := ended (node.view img.realSize)
    (List.mem_map_of_mem (List.mem_of_getElem? found))
  apply shown (.text (assemble img.realSize chain))
  exact List.mem_map_of_mem member (f := FieldImage.value img.realSize)

/-- A field with terminated strings can be searched. -/
theorem StoreAt.stringsAt {position : Nat} (store : StoreAt img nodes file)
    (ended : EndedAt position (nodes.map (NodeImage.view img.realSize))) :
    StringsAt file img.schema position := by
  apply store.wellFormed.stringsAt
  intro id node chain found field
  have shown := ended (node.view img.realSize)
    (List.mem_map_of_mem (List.mem_of_getElem? found))
  apply shown (.text (assemble img.realSize chain))
  unfold NodeImage.view NodeImage.values
  rw [List.getElem?_map, field]
  rfl

theorem Mirrors.wp_findByField {position type : Nat} {condition : CharPtr}
    (mirrors : Mirrors types world.file list) (ended : EndedAt position list)
    (typed : types[position]? = some type) (given : Condition type condition)
    (enough : world.file.length ≤ fuel) :
    wp (findByField fuel position condition) (fun found final =>
      final.file = world.file ∧
        found.map (·.id) = idsWhere (NodeView.fieldEquals position condition)
          list) world := by
  obtain ⟨img, nodes, store, -, rfl, rfl⟩ := mirrors
  have tuples := store.wellFormed.apartTuples.toTuples
  apply wp_mono
    (tuples.wp_findByField (store.stringsAt ended) typed given enough)
  rintro found final ⟨same, lists⟩
  refine ⟨same, lists.ids_eq fun id => store.exists_live_iff ?_⟩
  intro node record here tupleAt
  exact store.fieldIs_iff here tupleAt typed

end Scans

/-- After every run of faithful calls, a node is read as it is in the list, and
the scans find the ids that a search through the list finds. -/
theorem queries_refine {specs : List AttributeSpec} {calls : List Op}
    {world : World} {fuel : Nat} (ran : Ran specs Faithful calls world.file)
    (enough : world.file.length ≤ fuel) :
    (∀ (id : Nat) (node : NodeView),
      (listAfter (specs.map (·.type)) calls)[id]? = some node →
        wp (getNode fuel id) (fun result final =>
          result = some node.fields ∧ final.file = world.file) world) ∧
    (∀ parent, wp (findByParent parent) (fun found final =>
      final.file = world.file ∧ found.map (·.id) =
        idsWhere (fun node => node.parent = parent)
          (listAfter (specs.map (·.type)) calls)) world) ∧
    (∀ position type condition, (specs.map (·.type))[position]? = some type →
      Condition type condition →
      EndedAt position (listAfter (specs.map (·.type)) calls) →
        wp (findByField fuel position condition) (fun found final =>
          final.file = world.file ∧ found.map (·.id) =
            idsWhere (NodeView.fieldEquals position condition)
              (listAfter (specs.map (·.type)) calls)) world) := by
  have mirrors := mirrors_of_ran ran
  refine ⟨?_, mirrors.wp_findByParent, ?_⟩
  · intro id node found
    obtain ⟨_, _, _, _, shows⟩ := mirrors.represents
    obtain ⟨_, _, _, _, _, delivers⟩ := shows id node found
    exact delivers world fuel rfl enough
  · exact fun position type condition typed given ended =>
      mirrors.wp_findByField ended typed given enough

theorem queries_refine_seven :
    wp (getNode oneSeven.length 0) (fun result final =>
      result = some [.word 7] ∧ final.file = oneSeven) (blankWorld oneSeven) ∧
    wp (findByParent 7) (fun found final =>
      final.file = oneSeven ∧ found.map (·.id) = [0]) (blankWorld oneSeven) ∧
    wp (findByField oneSeven.length 0 (leBytes 8 7)) (fun found final =>
      final.file = oneSeven ∧ found.map (·.id) = [0])
      (blankWorld oneSeven) := by
  have ran := ran_seven
  generalize oneSeven = file at ran ⊢
  obtain ⟨reads, children, fields⟩ := @queries_refine
    [singleSpec INT number_lt] [.add [⟨7, []⟩] 7] (blankWorld file) _ ran le_rfl
  exact ⟨reads 0 ⟨7, [.word 7]⟩ rfl, children 7,
    fields 0 INT (leBytes 8 7) rfl (by decide) (by decide)⟩

end TreeStore
