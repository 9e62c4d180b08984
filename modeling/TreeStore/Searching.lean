import TreeStore.FailedUpdates
import TreeStore.StoredStrings

/-!
# Searching by scanning

`findByParent` and `findByField` go through the id array and keep the nodes
that pass a test.  The result set lists the newest id first.
-/

namespace TreeStore

open ByteFile ProgramLogic

/-- The result set has exactly the live ids whose record is wanted, each once
and in decreasing order, and each entry is that id's own record. -/
structure Lists (file : List UInt8) (schema : TreeSchema)
    (wanted : Nat → KeyNode → Prop) (found : List ResultSetNode) : Prop where
  sorted : (found.map (·.id)).Pairwise (· > ·)
  exact : ∀ id, id ∈ found.map (·.id) ↔ ∃ offset record,
    LiveAt schema id offset ∧ RecordAt file schema offset record ∧
      wanted id record
  own : ∀ entry ∈ found, ∃ offset record, LiveAt schema entry.id offset ∧
    RecordAt file schema offset record ∧
      entry.value.header = record.header ∧
      entry.value.data.take schema.realSize = record.data

/-- The field of the record equals the condition: as a string, or as a word. -/
def FieldIs (file : List UInt8) (schema : TreeSchema) (type position : Nat)
    (condition : CharPtr) (record : KeyNode) : Prop :=
  if type = STRING then
    ∃ chain, ForwardChain file schema (record.word position) chain ∧
      textOf (assemble schema.realSize chain) = textOf condition
  else record.word position = leValue (condition.take 8)

/-- What `findByField` reads at its condition is there. -/
def Condition (type : Nat) (condition : CharPtr) : Prop :=
  if type = STRING then 0 ∈ condition else 8 ≤ condition.length

instance (type : Nat) (condition : CharPtr) :
    Decidable (Condition type condition) :=
  inferInstanceAs (Decidable (if type = STRING then 0 ∈ condition
    else 8 ≤ condition.length))

section Lists

variable {file : List UInt8} {schema : TreeSchema}
  {wanted wanted' : Nat → KeyNode → Prop} {found : List ResultSetNode}

theorem Lists.congr (lists : Lists file schema wanted found)
    (same : ∀ id offset record, LiveAt schema id offset →
      RecordAt file schema offset record →
      (wanted id record ↔ wanted' id record)) :
    Lists file schema wanted' found where
  sorted := lists.sorted
  exact := by
    intro id
    rw [lists.exact]
    constructor
    · rintro ⟨offset, record, live, here, holds⟩
      exact ⟨offset, record, live, here, (same _ _ _ live here).mp holds⟩
    · rintro ⟨offset, record, live, here, holds⟩
      exact ⟨offset, record, live, here, (same _ _ _ live here).mpr holds⟩
  own := lists.own

theorem lists_nil (none : ∀ id record, ¬ wanted id record) :
    Lists file schema wanted [] where
  sorted := List.Pairwise.nil
  exact := by
    intro id
    constructor
    · intro member
      exact absurd member List.not_mem_nil
    · rintro ⟨offset, record, -, -, holds⟩
      exact absurd holds (none id record)
  own := by
    intro entry member
    exact absurd member List.not_mem_nil

variable {index offset : Nat} {keep : KeyNode → Prop}

/-- The next id is dead. -/
theorem Lists.skip
    (lists : Lists file schema (fun id record => id < index ∧ keep record)
      found) (dead : ∀ offset, ¬ LiveAt schema index offset) :
    Lists file schema (fun id record => id < index + 1 ∧ keep record)
      found := by
  apply lists.congr
  intro id offset record live _
  have : id ≠ index := by
    rintro rfl
    exact dead offset live
  have : id < index ↔ id < index + 1 := by omega
  rw [this]

/-- The next id is live, and kept if its record is wanted. -/
theorem Lists.visit {record node : KeyNode} [Decidable (keep record)]
    (lists : Lists file schema (fun id record => id < index ∧ keep record)
      found) (live : LiveAt schema index offset)
    (here : RecordAt file schema offset record)
    (header : node.header = record.header)
    (data : node.data.take schema.realSize = record.data) :
    Lists file schema (fun id record => id < index + 1 ∧ keep record)
      (if keep record then appendToResultSet node index found else found) := by
  -- the id has no other record
  have own {offset' : Nat} {record' : KeyNode}
      (live' : LiveAt schema index offset')
      (here' : RecordAt file schema offset' record') : record' = record := by
    obtain rfl := live.unique live'
    exact here'.unique here
  by_cases kept : keep record
  · rw [if_pos kept, appendToResultSet]
    constructor
    · rw [List.map_cons, List.pairwise_cons]
      refine ⟨?_, lists.sorted⟩
      intro id member
      obtain ⟨_, _, -, -, below, -⟩ := (lists.exact id).mp member
      exact below
    · intro id
      rw [List.map_cons, List.mem_cons, lists.exact]
      constructor
      · rintro (rfl | ⟨offset', record', live', here', below, holds⟩)
        · exact ⟨offset, record, live, here, Nat.lt_succ_self _, kept⟩
        · exact ⟨offset', record', live', here', below.trans (by omega), holds⟩
      · rintro ⟨offset', record', live', here', below, holds⟩
        by_cases last : id = index
        · exact Or.inl last
        · exact Or.inr ⟨offset', record', live', here', by omega, holds⟩
    · intro entry member
      rcases List.mem_cons.mp member with rfl | earlier
      · exact ⟨offset, record, live, here, header, data⟩
      · exact lists.own entry earlier
  · rw [if_neg kept]
    apply lists.congr
    intro id offset' record' live' here'
    constructor
    · rintro ⟨below, holds⟩
      exact ⟨by omega, holds⟩
    · rintro ⟨below, holds⟩
      refine ⟨?_, holds⟩
      by_contra last
      obtain rfl : id = index := by omega
      rw [own live' here'] at holds
      exact kept holds

end Lists

section Scans

variable {world : World} {schema : TreeSchema}

/-- The loop of a scan: every live record is read and visited, and the visit
appends it if it is wanted. -/
theorem Tuples.wp_scan {keep : KeyNode → Prop} [DecidablePred keep]
    {visit : List ResultSetNode → Nat → KeyNode × ReadStatus →
      Prog (List ResultSetNode)}
    (store : Tuples world.file schema)
    (visits : ∀ found index offset record data status middle,
      middle.file = world.file → LiveAt schema index offset →
      RecordAt world.file schema offset record →
      data.take schema.realSize = record.data →
      wp (visit found index (⟨record.header, data⟩, status))
        (fun found' final => final.file = world.file ∧
          found' = if keep record then
            appendToResultSet ⟨record.header, data⟩ index found else found)
        middle) :
    wp ((List.range schema.treeMeta.curId).foldlM (fun resultSet i => do
      let offset ← index schema.root i
      if offset = 0 then return resultSet
      else
        fseekSet (toLong offset)
        let read ← readNode schema.treeMeta.templateSize
        visit resultSet i read) [])
      (fun found final => final.file = world.file ∧
        Lists world.file schema (fun _ record => keep record) found)
      world := by
  apply wp_mono (wp_foldlM_range (fun index found middle =>
    middle.file = world.file ∧ Lists world.file schema
      (fun id record => id < index ∧ keep record) found)
    schema.treeMeta.curId ⟨rfl, lists_nil (by simp)⟩ _)
  · rintro found final ⟨same, lists⟩
    refine ⟨same, lists.congr ?_⟩
    intro id offset record live _
    exact ⟨And.right, fun holds => ⟨live.counted, holds⟩⟩
  · rintro index counted found middle ⟨same, lists⟩
    have inside : index < schema.root.length := by
      rw [store.stored.valid.root_length]
      exact counted.trans_le (curId_le_getIdArraySize _ _)
    obtain ⟨entry, known⟩ : ∃ entry, schema.root[index]? = some entry :=
      ⟨_, List.getElem?_eq_getElem inside⟩
    rw [wp_bind]
    apply wp_index known
    by_cases dead : entry = 0
    · rw [if_pos dead, wp_pure]
      refine ⟨same, lists.skip ?_⟩
      intro offset live
      apply live.nonzero
      rw [← dead]
      exact Option.some.inj (live.entry.symm.trans known)
    · have live : LiveAt schema index entry := ⟨counted, known, dead⟩
      obtain ⟨record, here⟩ := store.complete _ _ live
      have small : entry < 2 ^ 63 := by
        have := here.length_le
        have := store.small
        omega
      rw [if_neg dead, wp_bind]
      apply wp_fseekSet_toLong small
      rw [wp_bind]
      rw [← same] at here
      apply RecordAt.wp_readNode (by exact here) rfl rfl
      intro data status pos blocks started _
      rw [same] at here
      apply wp_mono (visits found index entry record data status _ (by exact same)
        live here started)
      rintro _ final ⟨same', rfl⟩
      exact ⟨same', lists.visit live here rfl started⟩

/-- `findByParent` lists the children. -/
theorem Tuples.wp_findByParent (store : Tuples world.file schema)
    (parent : Nat) :
    wp (findByParent parent) (fun found final => final.file = world.file ∧
      Lists world.file schema
        (fun _ record => record.header.parentNode = parent) found) world := by
  rw [findByParent, wp_bind]
  apply SchemaAt.wp_readTreeSchema store.stored
  intro blocks
  dsimp only
  apply Tuples.wp_scan (by exact store)
  intro found index offset record data status middle same live here started
  dsimp only
  by_cases kept : record.header.parentNode = parent
  · rw [if_pos kept, if_pos kept, wp_pure]
    exact ⟨same, rfl⟩
  · rw [if_neg kept, if_neg kept, wp_pure]
    exact ⟨same, rfl⟩

open Classical in
/-- `findByField` lists the ids whose field equals the condition. -/
theorem Tuples.wp_findByField {fuel position type : Nat}
    {condition : CharPtr} (store : Tuples world.file schema)
    (strings : StringsAt world.file schema position)
    (typed : schema.types[position]? = some type)
    (given : Condition type condition) (enough : world.file.length ≤ fuel) :
    wp (findByField fuel position condition) (fun found final =>
      final.file = world.file ∧ Lists world.file schema
        (fun _ record => FieldIs world.file schema type position condition
          record) found) world := by
  rw [findByField, wp_bind]
  apply SchemaAt.wp_getTypes store.stored
  intro blocks
  dsimp only
  rw [wp_bind]
  apply wp_index typed
  rw [wp_bind]
  apply SchemaAt.wp_readTreeSchema (by exact store.stored)
  intro blocks
  dsimp only
  apply Tuples.wp_scan (by exact store)
  intro found index offset record data status middle same live here started
  have inside := store.stored.word_inside (List.getElem?_eq_some_iff.mp typed).1
  have word : (KeyNode.mk record.header data).word position =
      record.word position := Image.word_of_take started inside
  dsimp only
  by_cases string : type = STRING
  · rw [if_pos string, word, wp_bind]
    obtain ⟨chain, heads, ended⟩ :=
      strings index offset record live here (string ▸ typed)
    rw [Condition, if_pos string] at given
    apply ForwardChain.wp_readStringFromNode (by rw [same]; exact heads)
      (by rw [same]; exact store.small) (heads.length_le.trans enough) rfl
    intro pos blocks
    rw [strcmpZero_eq ended given, wp_bind, wp_pure]
    have decides : FieldIs world.file schema type position condition record ↔
        textOf (assemble schema.realSize chain) = textOf condition := by
      rw [FieldIs, if_pos string]
      constructor
      · rintro ⟨chain', heads', equal⟩
        rw [heads.unique heads']
        exact equal
      · intro equal
        exact ⟨chain, heads, equal⟩
    by_cases equal : textOf (assemble schema.realSize chain) = textOf condition
    · rw [if_pos (decide_eq_true equal), if_pos (decides.mpr equal), wp_pure]
      exact ⟨same, rfl⟩
    · rw [if_neg (by simpa using equal), if_neg (mt decides.mp equal), wp_pure]
      exact ⟨same, rfl⟩
  · rw [if_neg string, wp_bind]
    rw [Condition, if_neg string] at given
    apply wp_malloc
    intro behind blocks _
    have decides : FieldIs world.file schema type position condition record ↔
        record.word position = leValue ((condition ++ behind).take 8) := by
      rw [FieldIs, if_neg string, List.take_append_of_le_length given]
    rw [word]
    by_cases equal : record.word position =
        leValue ((condition ++ behind).take 8)
    · rw [if_pos equal, if_pos (decides.mpr equal), wp_pure]
      exact ⟨same, rfl⟩
    · rw [if_neg equal, if_neg (mt decides.mp equal), wp_pure]
      exact ⟨same, rfl⟩

end Scans

theorem oneSeven_searchable : Searchable oneSeven (schemaOf oneSeven) := by
  obtain ⟨sound, stored, -, -, -⟩ := oneSeven_stored
  have types := oneSeven_types
  generalize oneSeven = file at sound stored types ⊢
  apply (sound.apartTuples stored).searchable
  rw [types]
  decide

/-- In a store of tuples with terminated strings, both scans list exactly the
live ids that pass the test. -/
theorem innerScans_exact {world : World} {schema : TreeSchema} {fuel : Nat}
    (store : Searchable world.file schema)
    (enough : world.file.length ≤ fuel) :
    (∀ parent, wp (findByParent parent) (fun found final =>
      final.file = world.file ∧ Lists world.file schema
        (fun _ record => record.header.parentNode = parent) found) world) ∧
    ∀ position type condition, schema.types[position]? = some type →
      Condition type condition →
      wp (findByField fuel position condition) (fun found final =>
        final.file = world.file ∧ Lists world.file schema
          (fun _ record => FieldIs world.file schema type position condition
            record) found) world := by
  constructor
  · intro parent
    exact store.wp_findByParent parent
  · intro position type condition typed given
    exact store.wp_findByField (store.stringsAt position) typed given enough

/-- The only node has the parent 7 and holds the number 7. -/
theorem innerScans_exact_seven :
    wp (findByParent 7) (fun found final => final.file = oneSeven ∧
      Lists oneSeven (schemaOf oneSeven)
        (fun _ record => record.header.parentNode = 7) found)
      (blankWorld oneSeven) ∧
    wp (findByField oneSeven.length 0 (leBytes 8 7)) (fun found final =>
      final.file = oneSeven ∧ Lists oneSeven (schemaOf oneSeven)
        (fun _ record => FieldIs oneSeven (schemaOf oneSeven) INT 0
          (leBytes 8 7) record) found) (blankWorld oneSeven) := by
  have types := oneSeven_types
  have store := oneSeven_searchable
  generalize oneSeven = file at types store ⊢
  have exact' := @innerScans_exact (blankWorld file) _ _ store le_rfl
  exact ⟨exact'.1 7, exact'.2 0 INT _ (by rw [types]; rfl) (by decide)⟩

end TreeStore
