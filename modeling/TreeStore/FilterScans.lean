import TreeStore.FindCommand
import TreeStore.IdQueries
import TreeStore.Removal
import TreeStore.UnknownFields

/-!
# What the scan of the filters finds

A node that is scanned is appended to the result exactly if every filter has a
comparator that is counted as satisfied.  The scan goes over as many entries of
the array as there are attributes.
-/

namespace TreeStore

open ByteFile ProgramLogic

/-- Every filter has a comparator that is counted as satisfied. -/
def Meets (file : List UInt8) (schema : TreeSchema) (record : KeyNode)
    (filt : List Filter) : Prop :=
  ∀ filter ∈ filt, ∃ comparator ∈ filter.compList,
    Satisfied file schema record comparator

/-- The entry has the record of its id. -/
def FoundNode.HasRecord (schema : TreeSchema) (record : KeyNode)
    (node : FoundNode) : Prop :=
  ∃ value, node.value = some value ∧ value.header = record.header ∧
    value.data.take schema.realSize = record.data

section Scans

variable {world : World} {schema : TreeSchema} {fuel i : Nat}
  {record node : KeyNode} {filt : List Filter}

theorem known_of_not_hasUnknown {template : List NodeAttributeInfo}
    {filter : Filter} {comparator : Comparator}
    (known : ¬ HasUnknown template filt) (member : filter ∈ filt)
    (inside : comparator ∈ filter.compList) : Known template comparator := by
  by_contra unknown
  exact known ⟨filter, member, comparator, inside, unknown⟩

open Classical in
/-- The loop over filters on known fields appends the node if it meets them. -/
theorem Scannable.wp_filterLoop_known (store : Scannable world.file schema)
    (enough : world.file.length ≤ fuel)
    (scanned : Scanned world.file schema i record)
    (started : node.data.take schema.realSize = record.data)
    (ended : Terminated filt)
    (known : ¬ HasUnknown schema.nodesTemplate filt) :
    wp (filterLoop fuel schema.types schema.treeMeta.templateSize
      schema.nodesTemplate node filt) (fun outcome final =>
        final.file = world.file ∧ outcome = some
          (decide (filt ≠ [] ∧ Meets world.file schema record filt)))
      world := by
  induction filt generalizing world with
  | nil =>
      rw [filterLoop, wp_pure]
      simp
  | cons filter rest ih =>
      have first := @Scannable.wp_comparatorLoop world schema fuel i record node
        filter.compList (.ofNat filter.compList.length) store enough scanned
        started (ended filter (List.mem_cons_self ..))
      have later : Terminated rest :=
        fun other member => ended other (List.mem_cons_of_mem filter member)
      have knownLater : ¬ HasUnknown schema.nodesTemplate rest := by
        rintro ⟨other, member, unknown⟩
        exact known ⟨other, List.mem_cons_of_mem filter member, unknown⟩
      rw [filterLoop, wp_bind]
      apply wp_mono first
      rintro outcome middle ⟨same, rfl⟩
      have left := filter.valid_ne_zero_iff (Satisfied world.file schema record)
      have meets : Meets world.file schema record (filter :: rest) ↔
          (∃ comparator ∈ filter.compList,
            Satisfied world.file schema record comparator) ∧
              Meets world.file schema record rest := List.forall_mem_cons
      rw [if_pos fun comparator =>
        known_of_not_hasUnknown known (List.mem_cons_self ..)]
      dsimp only
      simp only [meets, ← left]
      generalize UInt8.ofNat filter.compList.length - _ = valid
      by_cases appended : rest = [] ∧ valid ≠ 0
      · rw [if_pos appended, wp_pure]
        refine ⟨same, ?_⟩
        obtain ⟨rfl, nonzero⟩ := appended
        simp [nonzero, Meets]
      · rw [if_neg appended]
        by_cases failed : valid = 0
        · rw [if_pos failed, wp_pure]
          exact ⟨same, by simp [failed]⟩
        · rw [if_neg failed]
          have onward := @ih middle (by rw [same]; exact store)
            (by rw [same]; exact enough) (by rw [same]; exact scanned) later
            knownLater
          rw [same] at onward
          apply wp_mono onward
          rintro outcome final ⟨same', rfl⟩
          refine ⟨same', ?_⟩
          have more : rest ≠ [] := fun none => appended ⟨none, failed⟩
          simp [failed, more]

/-- This entry of the array is found. -/
def Found (file : List UInt8) (schema : TreeSchema) (filt : List Filter)
    (i : Nat) : Prop :=
  ∃ record, Scanned file schema i record ∧ Meets file schema record filt

open Classical in
/-- The scan finds each entry that meets the filters once, the last one
first. -/
theorem Scannable.wp_filterScan_known {ids : List Nat}
    {result : List FoundNode} (store : Scannable world.file schema)
    (enough : world.file.length ≤ fuel) (ended : Terminated filt)
    (known : ¬ HasUnknown schema.nodesTemplate filt)
    (counted : ∀ i ∈ ids, i < schema.treeMeta.templateSize) :
    wp (filterScan fuel schema.types schema.treeMeta.templateSize
      schema.nodesTemplate filt schema ids result) (fun outcome final =>
        final.file = world.file ∧ outcome.1 = 0 ∧
        outcome.2.map (·.id) = (ids.filter fun i => filt ≠ [] ∧
          Found world.file schema filt i).reverse ++ result.map (·.id) ∧
        ∀ node ∈ outcome.2, node ∈ result ∨ ∃ record,
          Scanned world.file schema node.id record ∧
            node.HasRecord schema record) world := by
  induction ids generalizing world result with
  | nil =>
      rw [filterScan, wp_pure]
      exact ⟨rfl, rfl, rfl, fun node member => Or.inl member⟩
  | cons i rest ih =>
      have later := fun other member =>
        counted other (List.mem_cons_of_mem i member)
      have here := counted i (List.mem_cons_self ..)
      obtain ⟨entry, present⟩ : ∃ entry, schema.root[i]? = some entry :=
        ⟨_, List.getElem?_eq_getElem (store.stored.template_lt_root here)⟩
      rw [filterScan, wp_bind]
      apply wp_index present
      by_cases dead : entry = 0
      · rw [if_pos dead]
        have none : ¬ (filt ≠ [] ∧ Found world.file schema filt i) := by
          rintro ⟨-, record, ⟨-, offset, found, nonzero, -⟩, -⟩
          rw [present] at found
          cases found
          exact nonzero dead
        rw [List.filter_cons_of_neg (by simpa using none)]
        exact ih store enough later
      · obtain ⟨record, there⟩ := store.complete i here entry present dead
        have scanned : Scanned world.file schema i record :=
          ⟨here, entry, present, dead, there⟩
        have found : filt ≠ [] ∧ Found world.file schema filt i ↔
            filt ≠ [] ∧ Meets world.file schema record filt := by
          apply and_congr_right'
          constructor
          · rintro ⟨record', scanned', meets⟩
            rw [scanned'.unique scanned] at meets
            exact meets
          · exact fun meets => ⟨record, scanned, meets⟩
        rw [if_neg dead, wp_bind]
        apply wp_fseekSet_toLong (by
          have := there.length_le
          have := store.small
          omega)
        rw [wp_bind]
        apply RecordAt.wp_readNode (by exact there) rfl rfl
        intro data status pos blocks started _
        dsimp only
        rw [wp_bind]
        apply wp_mono (Scannable.wp_filterLoop_known (by exact store)
          (by exact enough) (by exact scanned) (by exact started) ended known)
        rintro outcome middle ⟨same, rfl⟩
        have file : middle.file = world.file := same
        dsimp only
        have onward := fun result => @ih middle result
          (by rw [file]; exact store) (by rw [file]; exact enough) later
        rw [file] at onward
        simp only [← found]
        by_cases appended : filt ≠ [] ∧ Found world.file schema filt i
        · rw [if_pos (decide_eq_true appended),
            List.filter_cons_of_pos (by simpa using appended)]
          apply wp_mono (onward _)
          rintro outcome final ⟨same', code, ids, own⟩
          refine ⟨same', code, ?_, ?_⟩
          · rw [ids, List.reverse_cons, List.append_assoc]
            rfl
          · intro node member
            rcases own node member with inside | scannedNode
            · rcases List.mem_cons.mp inside with rfl | before
              · exact Or.inr ⟨record, scanned, _, rfl, rfl, started⟩
              · exact Or.inl before
            · exact Or.inr scannedNode
        · rw [if_neg (by simpa using appended),
            List.filter_cons_of_neg (by simpa using appended)]
          exact onward _

open Classical in
/-- A query that is a scan finds the entries that meet its filters. -/
theorem Scannable.wp_storageFindNodeByFilters_known
    (store : Scannable world.file schema) (enough : world.file.length ≤ fuel)
    (ended : Terminated filt) (plain : ¬ Special filt)
    (known : ¬ HasUnknown schema.nodesTemplate filt) :
    wp (storageFindNodeByFilters fuel filt schema.nodesTemplate)
      (fun outcome final => final.file = world.file ∧ outcome.1 = 0 ∧
        outcome.2.map (·.id) =
          ((List.range schema.treeMeta.templateSize).filter fun i =>
            filt ≠ [] ∧ Found world.file schema filt i).reverse ∧
        ∀ node ∈ outcome.2, ∃ record,
          Scanned world.file schema node.id record ∧
            node.HasRecord schema record) world := by
  rw [storageFindNodeByFilters, wp_bind]
  apply SchemaAt.wp_getTypes store.stored
  intro blocks
  dsimp only
  rw [wp_bind]
  apply SchemaAt.wp_readTreeSchema (by exact store.stored)
  intro blocks
  dsimp only
  have scan := @Scannable.wp_filterScan_known
    { world with pos := schema.arrayEnd, blocks := blocks } schema fuel filt
    (List.range schema.treeMeta.templateSize) [] store enough ended known
    fun i member => List.mem_range.mp member
  simp only [List.map_nil, List.append_nil, List.not_mem_nil, false_or] at scan
  split
  · rename_i comparator count
    rw [if_neg (fun parent => plain ⟨comparator, count, rfl, Or.inl parent⟩),
      if_neg (fun id => plain ⟨comparator, count, rfl, Or.inr id⟩)]
    exact scan
  · exact scan

/-- A query for an id outside of the array leaves it. -/
theorem SchemaAt.not_wp_idQuery {comparator : Comparator}
    {count : [comparator].length ≤ 20} {template : List NodeAttributeInfo}
    {post : Nat × List FoundNode → World → Prop}
    (stored : SchemaAt world.file schema)
    (key : SameText comparator.kv.key idText)
    (outside : schema.root.length ≤ comparator.kv.valueInt.toUInt64.toNat) :
    ¬ wp (storageFindNodeByFilters fuel [⟨[comparator], count⟩] template) post
      world := by
  rintro ⟨outcome, final, runs, -⟩
  have other : ¬ SameText comparator.kv.key parentText := by
    rw [SameText, key]
    decide
  rw [storageFindNodeByFilters] at runs
  obtain ⟨_, middle, types, runs⟩ := exists_of_run_bind runs
  obtain ⟨_, later, read, runs⟩ := exists_of_run_bind runs
  dsimp only at runs
  rw [if_neg other, if_pos key] at runs
  obtain ⟨result, last, found, -⟩ := exists_of_run_bind runs
  rw [findById] at found
  obtain ⟨values, _, got, -⟩ := exists_of_run_bind found
  have same : middle.file = world.file := by
    have known : wp getTypes (fun _ final => final.file = world.file) world :=
      SchemaAt.wp_getTypes stored fun _ => rfl
    have kept := wp_of_run known types
    exact kept
  have same' : later.file = world.file := by
    have known : wp readTreeSchema (fun _ final => final.file = world.file)
        middle :=
      SchemaAt.wp_readTreeSchema (by rw [same]; exact stored) fun _ => same
    have kept := wp_of_run known read
    exact kept
  obtain ⟨offset, inside, -⟩ := SchemaAt.inside_of_getNode
    (by rw [same']; exact stored) got
  have := (List.getElem?_eq_some_iff.mp inside).1
  omega

/-- A query for the children of a node lists them. -/
theorem Tuples.wp_parentQuery {comparator : Comparator}
    {count : [comparator].length ≤ 20} {template : List NodeAttributeInfo}
    (store : Tuples world.file schema)
    (key : SameText comparator.kv.key parentText) :
    wp (storageFindNodeByFilters fuel [⟨[comparator], count⟩] template)
      (fun outcome final => final.file = world.file ∧ outcome.1 = 0 ∧
        ∃ found, Lists world.file schema (fun _ record =>
          record.header.parentNode = comparator.kv.valueInt.toUInt64.toNat)
          found ∧
        outcome.2 = found.map fun entry => ⟨some entry.value, entry.id⟩)
      world := by
  rw [storageFindNodeByFilters, wp_bind]
  apply SchemaAt.wp_getTypes store.stored
  intro blocks
  dsimp only
  rw [wp_bind]
  apply SchemaAt.wp_readTreeSchema (by exact store.stored)
  intro blocks
  dsimp only
  rw [if_pos key]
  apply wp_bind_of (Tuples.wp_findByParent (by exact store) _)
  rintro found final ⟨same, lists⟩
  rw [wp_pure]
  exact ⟨same, rfl, found, lists, rfl⟩

end Scans

/-- The query delivers every live node that meets its filters. -/
def MissesNone (file : List UInt8) (schema : TreeSchema)
    (filt : List Filter) : Prop :=
  ∀ world fuel, world.file = file → file.length ≤ fuel →
    wp (storageFindNodeByFilters fuel filt schema.nodesTemplate)
      (fun outcome _ => ∀ id offset record, LiveAt schema id offset →
        RecordAt file schema offset record → Meets file schema record filt →
          ∃ node ∈ outcome.2, node.id = id ∧ node.HasRecord schema record)
      world

/-- No query misses a node, of those whose filters are on known fields. -/
def MissesNothing (file : List UInt8) (schema : TreeSchema) : Prop :=
  ∀ filt, filt ≠ [] → Terminated filt →
    ¬ HasUnknown schema.nodesTemplate filt → MissesNone file schema filt

/-- Every live id is less than the number of attributes, unless there are
none, and no attribute has the name of a query that is no scan. -/
structure Covers (schema : TreeSchema) : Prop where
  noId : ∀ info ∈ schema.nodesTemplate, ¬ SameText info.attributeName idText
  scanned : ∀ id offset, LiveAt schema id offset →
    ∀ info ∈ schema.nodesTemplate, id < schema.treeMeta.templateSize ∧
      ¬ SameText info.attributeName parentText

section Missing

variable {file : List UInt8} {schema : TreeSchema} {filt : List Filter}
  {info : NodeAttributeInfo}

/-- The comparator `name <= -1`, or another one. -/
def always (name : CharPtr) (operation : Int32) (value : Int64) : Filter :=
  ⟨[⟨operation, ⟨textOf name ++ [0], 1, value, 0, [0]⟩⟩], by simp⟩

theorem Covers.missesNone (covers : Covers schema)
    (store : Searchable file schema) (scannable : Scannable file schema)
    (some_filter : filt ≠ []) (ended : Terminated filt)
    (known : ¬ HasUnknown schema.nodesTemplate filt) :
    MissesNone file schema filt := by
  classical
  rintro world fuel rfl enough
  by_cases special : Special filt
  · obtain ⟨comparator, count, rfl, key⟩ := special
    obtain ⟨info, member, named⟩ := known_of_not_hasUnknown known
      (List.mem_singleton_self _) (List.mem_singleton_self _)
    rcases key with parent | id
    · apply wp_mono (store.toTuples.wp_parentQuery parent)
      rintro outcome final - id offset record live
      exact absurd (named.trans parent)
        (covers.scanned id offset live info member).2
    · exact absurd (named.trans id) (covers.noId info member)
  · apply wp_mono (scannable.wp_storageFindNodeByFilters_known enough ended
      special known)
    rintro outcome final ⟨-, -, ids, own⟩ id offset record live here meets
    obtain ⟨filter, rest, rfl⟩ := List.exists_cons_of_ne_nil some_filter
    obtain ⟨comparator, inside, _⟩ := meets filter (List.mem_cons_self ..)
    obtain ⟨info, member, -⟩ :=
      known_of_not_hasUnknown known (List.mem_cons_self ..) inside
    have scanned : Scanned world.file schema id record :=
      ⟨(covers.scanned id offset live info member).1, offset, live.entry,
        live.nonzero, here⟩
    have listed : id ∈ outcome.2.map (·.id) := by
      rw [ids, List.mem_reverse, List.mem_filter]
      exact ⟨List.mem_range.mpr scanned.counted,
        decide_eq_true ⟨some_filter, record, scanned, meets⟩⟩
    obtain ⟨node, there, rfl⟩ := List.mem_map.mp listed
    obtain ⟨record', scanned', has⟩ := own node there
    rw [scanned'.unique scanned] at has
    exact ⟨node, there, rfl, has⟩

theorem terminated_always {name : CharPtr} {operation : Int32} {value : Int64} :
    Terminated [always name operation value] := by
  intro filter member comparator inside
  obtain rfl := List.mem_singleton.mp member
  obtain rfl := List.mem_singleton.mp inside
  exact List.mem_singleton_self _

theorem sameText_always (name : CharPtr) :
    SameText name (textOf name ++ [0]) :=
  (textOf_append_zero (zero_notMem_textOf name) []).symm

theorem known_always {operation : Int32} {value : Int64}
    (member : info ∈ schema.nodesTemplate) : ¬ HasUnknown schema.nodesTemplate
      [always info.attributeName operation value] := by
  rintro ⟨filter, inside, comparator, there, unknown⟩
  obtain rfl := List.mem_singleton.mp inside
  obtain rfl := List.mem_singleton.mp there
  exact unknown ⟨info, member, sameText_always _⟩

/-- No word is greater than `-1`, read as unsigned. -/
theorem wordPasses_largest (word : UInt64) :
    wordPasses 2 word (-1) = true := by
  have small := word.toNat_lt
  have largest : (-1 : Int64).toUInt64.toNat = 2 ^ 64 - 1 := rfl
  have passes : ¬ word > (-1 : Int64).toUInt64 := by
    intro larger
    have := UInt64.lt_iff_toNat_lt.mp larger
    omega
  unfold wordPasses
  rw [if_neg (by decide), if_neg (by decide), if_pos rfl]
  exact decide_eq_true passes

/-- No word is less than zero. -/
theorem wordPasses_zero (word : UInt64) : wordPasses 4 word 0 = true := by
  have least : (0 : Int64).toUInt64.toNat = 0 := rfl
  have passes : ¬ word < (0 : Int64).toUInt64 := by
    intro less
    have := UInt64.lt_iff_toNat_lt.mp less
    omega
  unfold wordPasses
  rw [if_neg (by decide), if_neg (by decide), if_neg (by decide),
    if_neg (by decide), if_pos rfl]
  exact decide_eq_true passes

/-- Such a comparator is counted as satisfied by every record. -/
theorem Searchable.satisfied_always (store : Searchable file schema)
    {operation : Int32} {value : Int64} {id offset : Nat} {record : KeyNode}
    (live : LiveAt schema id offset) (here : RecordAt file schema offset record)
    (member : info ∈ schema.nodesTemplate)
    (holds : operation = 2 ∧ value = -1 ∨ operation = 4 ∧ value = 0) :
    Meets file schema record [always info.attributeName operation value] := by
  intro filter inside
  obtain rfl := List.mem_singleton.mp inside
  refine ⟨_, List.mem_singleton_self _, ?_⟩
  cases found : lastAttr (textOf info.attributeName ++ [0])
      schema.nodesTemplate with
  | none =>
      exact absurd ⟨info, member, sameText_always _⟩
        (lastAttr_eq_none_iff.mp found)
  | some position =>
      obtain ⟨type, typed⟩ : ∃ type, schema.types[position]? = some type :=
        ⟨_, List.getElem?_eq_getElem (by
          rw [TreeSchema.types, List.length_map]
          exact lastAttr_lt found)⟩
      refine ⟨position, type, found, typed, ?_⟩
      unfold Counted
      by_cases string : type = STRING
      · rw [if_pos string]
        obtain ⟨chain, heads, -⟩ :=
          store.strings id offset record position live here (string ▸ typed)
        refine ⟨chain, heads, Or.inr ?_⟩
        rcases holds with ⟨rfl, -⟩ | ⟨rfl, -⟩
        · simp
        · simp
      · rw [if_neg string]
        generalize UInt64.ofNat (record.word position) = word
        rcases holds with ⟨rfl, rfl⟩ | ⟨rfl, rfl⟩
        · exact wordPasses_largest word
        · exact wordPasses_zero word

/-- Where no query misses a node, the scan covers the live ids. -/
theorem Searchable.covers (store : Searchable file schema)
    (scannable : Scannable file schema)
    (none : MissesNothing file schema) : Covers schema where
  noId := by
    intro info member named
    have finds := none [always info.attributeName 2 (-1)] (List.cons_ne_nil _ _)
      terminated_always (known_always member) (blankWorld file) file.length rfl
      le_rfl
    refine SchemaAt.not_wp_idQuery (by exact store.stored) ?_ ?_ finds
    · exact (sameText_always _).symm.trans named
    · have small := store.small
      have inside := store.stored.root_le
      have largest : (-1 : Int64).toUInt64.toNat = 2 ^ 64 - 1 := rfl
      dsimp only
      omega
  scanned := by
    intro id offset live info member
    obtain ⟨record, here⟩ := store.complete id offset live
    constructor
    · have meets := store.satisfied_always live here member
        (Or.inl ⟨rfl, rfl⟩)
      have ended := @terminated_always info.attributeName 2 (-1)
      have known := @known_always schema info 2 (-1) member
      generalize always info.attributeName 2 (-1) = filter at meets ended known
      have twice (other : Filter) (inside : other ∈ [filter, filter]) :
          other ∈ [filter] := by
        simpa using inside
      have ended' : Terminated [filter, filter] :=
        fun other inside => ended other (twice other inside)
      have known' : ¬ HasUnknown schema.nodesTemplate [filter, filter] := by
        rintro ⟨other, inside, unknown⟩
        exact known ⟨other, twice other inside, unknown⟩
      have plain : ¬ Special [filter, filter] := by
        rintro ⟨comparator, count, same, -⟩
        exact absurd (congrArg List.length same) (by simp)
      have finds := none [filter, filter] (List.cons_ne_nil _ _) ended' known'
        (blankWorld file) file.length rfl le_rfl
      have scans := @Scannable.wp_storageFindNodeByFilters_known
        (blankWorld file) schema file.length [filter, filter] scannable le_rfl
        ended' plain known'
      obtain ⟨outcome, final, -, delivers, -, -, ids, -⟩ := wp_and finds scans
      obtain ⟨node, found, rfl, -⟩ := delivers id offset record live here
        fun other inside => meets other (twice other inside)
      have listed : node.id ∈ outcome.2.map (·.id) := List.mem_map_of_mem found
      rw [ids, List.mem_reverse, List.mem_filter] at listed
      exact List.mem_range.mp listed.1
    · intro named
      obtain ⟨operation, value, holds, other⟩ :
          ∃ (operation : Int32) (value : Int64), (operation = 2 ∧ value = -1 ∨
            operation = 4 ∧ value = 0) ∧ record.header.parentNode ≠ value.toUInt64.toNat := by
        by_cases root : record.header.parentNode = 0
        · exact ⟨2, -1, Or.inl ⟨rfl, rfl⟩, by rw [root]; decide⟩
        · exact ⟨4, 0, Or.inr ⟨rfl, rfl⟩, root⟩
      have meets := store.satisfied_always live here member holds
      have finds := none [always info.attributeName operation value]
        (List.cons_ne_nil _ _) terminated_always (known_always member)
        (blankWorld file) file.length rfl le_rfl
      have lists := @Tuples.wp_parentQuery (blankWorld file) schema file.length
        _ (always info.attributeName operation value).count_le
        schema.nodesTemplate store.toTuples
        ((sameText_always _).symm.trans named)
      obtain ⟨outcome, final, -, delivers, -, -, found, only, listed⟩ :=
        wp_and finds lists
      obtain ⟨node, there, rfl, -⟩ := delivers id offset record live here meets
      rw [listed] at there
      obtain ⟨entry, inside, rfl⟩ := List.mem_map.mp there
      obtain ⟨offset', record', live', here', child⟩ :=
        (only.exact entry.id).mp (List.mem_map_of_mem inside)
      obtain rfl := Option.some.inj (live.entry.symm.trans live'.entry)
      obtain rfl := here.unique here'
      exact other child

/-- No query misses a node exactly if every live id is less than the number of
attributes, as far as there are any, and no attribute is named `parent` or
`id`. -/
theorem missesNothing_iff (store : Searchable file schema)
    (scannable : Scannable file schema) :
    MissesNothing file schema ↔ Covers schema := by
  constructor
  · exact store.covers scannable
  · intro covers filt some_filter ended known
    exact covers.missesNone store scannable some_filter ended known

end Missing

/-- A store with one attribute and one node. -/
theorem missesNothing_seven : MissesNothing oneSeven (schemaOf oneSeven) := by
  obtain ⟨size, count⟩ := oneSeven_counts
  obtain ⟨-, -, -, -, template⟩ := oneSeven_stored
  have store := oneSeven_searchable
  have scannable := oneSeven_scannable
  generalize oneSeven = file at template size count store scannable ⊢
  apply (missesNothing_iff store scannable).mpr
  constructor
  · rw [template]
    decide
  · rw [template]
    intro id offset live
    have counted := live.counted
    refine List.forall_mem_singleton.mpr ⟨by omega, by decide⟩

/-- With two nodes and one attribute, the second node is missed. -/
theorem not_missesNothing :
    ¬ ∀ (specs : List AttributeSpec) (file : List UInt8) (schema : TreeSchema),
      Reached specs CallsProper file → Searchable file schema →
        Scannable file schema → MissesNothing file schema := by
  intro always
  obtain ⟨-, ⟨-, second⟩, template, size, -⟩ := twoSevens_stored
  have reached := reached_twoSevens
  have store := twoSevens_searchable
  have scannable := twoSevens_scannable
  -- the file has to be a variable here, lest it be evaluated
  generalize twoSevens = file at *
  have covers := store.covers scannable
    (always _ file _ reached store scannable)
  have scanned := covers.scanned 1 604 second
  rw [template] at scanned
  have counted := (scanned _ (List.mem_singleton_self _)).1
  omega

/-- The loops of a scan put a node into the result, and then once, exactly if
there are filters and each of them has a comparator that is counted as
satisfied; so a filter without comparators lets no node through. -/
theorem filterLoops_decide {world : World} {schema : TreeSchema} {fuel : Nat}
    {filt : List Filter} (store : Scannable world.file schema)
    (enough : world.file.length ≤ fuel) (ended : Terminated filt)
    (plain : ¬ Special filt)
    (known : ¬ HasUnknown schema.nodesTemplate filt) :
    wp (storageFindNodeByFilters fuel filt schema.nodesTemplate)
      (fun outcome _ => outcome.1 = 0 ∧
        (outcome.2.map (·.id)).Nodup ∧
        (∀ i record, Scanned world.file schema i record →
          (i ∈ outcome.2.map (·.id) ↔
            filt ≠ [] ∧ ∀ filter ∈ filt, ∃ comparator ∈ filter.compList,
              Satisfied world.file schema record comparator)) ∧
        (∀ i ∈ outcome.2.map (·.id), ∃ record,
          Scanned world.file schema i record) ∧
        ((∃ filter ∈ filt, filter.compList = []) → outcome.2 = [])) world := by
  classical
  apply wp_mono (store.wp_storageFindNodeByFilters_known enough ended plain
    known)
  rintro ⟨code, result⟩ final ⟨-, success, ids, own⟩
  dsimp only at success ids own ⊢
  have inside (i : Nat) : i ∈ result.map (·.id) ↔
      i < schema.treeMeta.templateSize ∧ filt ≠ [] ∧
        Found world.file schema filt i := by
    rw [ids, List.mem_reverse, List.mem_filter, List.mem_range,
      decide_eq_true_iff]
  refine ⟨success, ?_, ?_, ?_, ?_⟩
  · rw [ids, List.nodup_reverse]
    exact List.nodup_range.filter _
  · intro i record scanned
    rw [inside, and_iff_right scanned.counted]
    apply and_congr_right'
    constructor
    · rintro ⟨record', scanned', meets⟩
      rw [scanned'.unique scanned] at meets
      exact meets
    · exact fun meets => ⟨record, scanned, meets⟩
  · intro i member
    obtain ⟨-, -, record, scanned, -⟩ := (inside i).mp member
    exact ⟨record, scanned⟩
  · rintro ⟨filter, member, none⟩
    apply List.eq_nil_iff_forall_not_mem.mpr
    intro node there
    obtain ⟨-, -, record, -, meets⟩ :=
      (inside node.id).mp (List.mem_map_of_mem there)
    obtain ⟨comparator, empty, -⟩ := meets filter member
    rw [none] at empty
    exact List.not_mem_nil empty

/-- The node of `oneSeven` is found by `n = 7`. -/
theorem filterLoops_decide_seven :
    wp (storageFindNodeByFilters oneSeven.length [always [110, 0] 0 7]
        (schemaOf oneSeven).nodesTemplate) (fun outcome _ => outcome.1 = 0 ∧
      (outcome.2.map (·.id)).Nodup ∧
      (∀ i record, Scanned oneSeven (schemaOf oneSeven) i record →
        (i ∈ outcome.2.map (·.id) ↔ [always [110, 0] 0 7] ≠ [] ∧
          ∀ filter ∈ [always [110, 0] 0 7], ∃ comparator ∈ filter.compList,
            Satisfied oneSeven (schemaOf oneSeven) record comparator)) ∧
      (∀ i ∈ outcome.2.map (·.id), ∃ record,
        Scanned oneSeven (schemaOf oneSeven) i record) ∧
      ((∃ filter ∈ [always [110, 0] 0 7], filter.compList = []) →
        outcome.2 = [])) (blankWorld oneSeven) := by
  obtain ⟨-, -, -, -, template⟩ := oneSeven_stored
  have scannable := oneSeven_scannable
  generalize oneSeven = file at template scannable ⊢
  have plain : ¬ Special [always [110, 0] 0 7] := by
    rintro ⟨comparator, count, same, key⟩
    obtain rfl : comparator = _ :=
      (List.singleton_inj.mp
        (congrArg Filter.compList (List.singleton_inj.mp same))).symm
    revert key
    decide
  have known : ¬ HasUnknown (schemaOf file).nodesTemplate
      [always [110, 0] 0 7] := by
    rw [template]
    rintro ⟨filter, inside, comparator, there, unknown⟩
    obtain rfl := List.mem_singleton.mp inside
    obtain rfl := List.mem_singleton.mp there
    exact unknown ⟨_, List.mem_singleton_self _, by decide⟩
  exact @filterLoops_decide (blankWorld file) (schemaOf file) file.length
    [always [110, 0] 0 7] scannable le_rfl terminated_always plain known

end TreeStore
