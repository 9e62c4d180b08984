import TreeStore.Comparators
import TreeStore.Removal

/-!
# Filters with unknown fields

The keys of the filters are looked up for each node of the scan, as far as its
filters are tested.  Whether an unknown one is met depends on the nodes.
-/

namespace TreeStore

open ByteFile ProgramLogic

/-- Entry `i` of the array leads to a record, as the scan of the filters takes
it. -/
structure Scanned (file : List UInt8) (schema : TreeSchema) (i : Nat)
    (record : KeyNode) : Prop where
  counted : i < schema.treeMeta.templateSize
  entry : ∃ offset, schema.root[i]? = some offset ∧ offset ≠ 0 ∧
    RecordAt file schema offset record

/-- All that the scan of the filters needs of a store: a complete record at each
entry that it takes, with terminated strings. -/
structure Scannable (file : List UInt8) (schema : TreeSchema) : Prop where
  stored : SchemaAt file schema
  small : file.length < 2 ^ 63
  complete : ∀ i < schema.treeMeta.templateSize, ∀ offset,
    schema.root[i]? = some offset → offset ≠ 0 →
      ∃ record, RecordAt file schema offset record
  strings : ∀ i record position, Scanned file schema i record →
    schema.types[position]? = some STRING →
      ∃ chain, ForwardChain file schema (record.word position) chain ∧
        0 ∈ assemble schema.realSize chain

/-- The key is the name of an attribute. -/
def Known (template : List NodeAttributeInfo) (comparator : Comparator) : Prop :=
  ∃ info ∈ template, SameText info.attributeName comparator.kv.key

/-- The test of a comparator leaves `valid` as it is. -/
def Satisfied (file : List UInt8) (schema : TreeSchema) (record : KeyNode)
    (comparator : Comparator) : Prop :=
  ∃ position type, lastAttr comparator.kv.key schema.nodesTemplate =
    some position ∧ schema.types[position]? = some type ∧
      Counted file schema type position record comparator

/-- Some key of the filters is not the name of an attribute. -/
def HasUnknown (template : List NodeAttributeInfo) (filt : List Filter) :
    Prop :=
  ∃ filter ∈ filt, ∃ comparator ∈ filter.compList, ¬ Known template comparator

/-- The record passes every filter before the first one that has an unknown
key. -/
def MeetsUnknown (file : List UInt8) (schema : TreeSchema) (record : KeyNode) :
    List Filter → Prop
  | [] => False
  | filter :: rest =>
      (∃ comparator ∈ filter.compList,
        ¬ Known schema.nodesTemplate comparator) ∨
      (∃ comparator ∈ filter.compList,
        Satisfied file schema record comparator) ∧
          MeetsUnknown file schema record rest

/-- The two filter lists on id and parent that are no scans. -/
def Special (filt : List Filter) : Prop :=
  ∃ comparator count, filt = [⟨[comparator], count⟩] ∧
    (SameText comparator.kv.key parentText ∨
      SameText comparator.kv.key idText)

/-- The strings of a message are terminated. -/
def Terminated (filt : List Filter) : Prop :=
  ∀ filter ∈ filt, ∀ comparator ∈ filter.compList,
    0 ∈ comparator.kv.valueString

/-- Where the array has no entries behind the counter, the scan takes live
nodes. -/
theorem Searchable.scannable {file : List UInt8} {schema : TreeSchema}
    (store : Searchable file schema)
    (unused : ∀ i offset, schema.treeMeta.curId ≤ i →
      i < schema.treeMeta.templateSize → schema.root[i]? = some offset →
        offset = 0) : Scannable file schema := by
  have live {i offset : Nat} (counted : i < schema.treeMeta.templateSize)
      (found : schema.root[i]? = some offset) (nonzero : offset ≠ 0) :
      LiveAt schema i offset := by
    refine ⟨?_, found, nonzero⟩
    by_contra beyond
    exact nonzero (unused i offset (not_lt.mp beyond) counted found)
  refine ⟨store.stored, store.small, ?_, ?_⟩
  · intro i counted offset found nonzero
    exact store.complete i offset (live counted found nonzero)
  · rintro i record position ⟨counted, offset, found, nonzero, here⟩ typed
    exact store.strings i offset record position
      (live counted found nonzero) here typed

theorem Scanned.unique {file : List UInt8} {schema : TreeSchema} {i : Nat}
    {record record' : KeyNode} (scanned : Scanned file schema i record)
    (scanned' : Scanned file schema i record') : record = record' := by
  obtain ⟨-, offset, found, -, here⟩ := scanned
  obtain ⟨-, offset', found', -, here'⟩ := scanned'
  rw [found] at found'
  cases found'
  exact here.unique here'

/-- The array has an entry for each number below the size of the template. -/
theorem SchemaAt.template_lt_root {file : List UInt8} {schema : TreeSchema}
    {i : Nat} (stored : SchemaAt file schema)
    (counted : i < schema.treeMeta.templateSize) : i < schema.root.length := by
  have unit := idUnit_mul schema.treeMeta.templateSize
  have fits := mul_le_getRealNodeSize schema.treeMeta.templateSize
  have records :=
    idRecords_pos schema.treeMeta.templateSize schema.treeMeta.curId
  rw [stored.valid.root_length, getIdArraySize_eq]
  apply lt_of_lt_of_le _ (Nat.le_mul_of_pos_right _ records)
  omega

section Lookups

variable {template : List NodeAttributeInfo} {field : CharPtr}

theorem lastAttr_concat (info : NodeAttributeInfo) :
    lastAttr field (template ++ [info]) =
      if SameText info.attributeName field then some template.length
      else lastAttr field template := by
  simp [lastAttr, List.zipIdx_append]

/-- The last attribute with a name is one of the template. -/
theorem lastAttr_lt {position : Nat}
    (found : lastAttr field template = some position) :
    position < template.length := by
  induction template using List.reverseRecOn with
  | nil => cases found
  | append_singleton template info ih =>
      rw [lastAttr_concat] at found
      rw [List.length_append, List.length_singleton]
      split_ifs at found
      · cases found
        exact Nat.lt_succ_self _
      · exact (ih found).trans (Nat.lt_succ_self _)

theorem lastAttr_eq_none_iff : lastAttr field template = none ↔
    ¬ ∃ info ∈ template, SameText info.attributeName field := by
  induction template using List.reverseRecOn with
  | nil => simp [lastAttr]
  | append_singleton template info ih =>
      rw [lastAttr_concat]
      by_cases same : SameText info.attributeName field
      · rw [if_pos same]
        simp [same]
      · rw [if_neg same, ih]
        simp [same]

end Lookups

section Scans

variable {world : World} {schema : TreeSchema} {fuel i : Nat}
  {record node : KeyNode}

open Classical in
/-- The loop over the comparators meets an unknown key, or takes from `valid`
as many as are not satisfied. -/
theorem Scannable.wp_comparatorLoop {compList : List Comparator}
    {valid : UInt8} (store : Scannable world.file schema)
    (enough : world.file.length ≤ fuel)
    (scanned : Scanned world.file schema i record)
    (started : node.data.take schema.realSize = record.data)
    (ended : ∀ comparator ∈ compList, 0 ∈ comparator.kv.valueString) :
    wp (comparatorLoop fuel schema.types schema.treeMeta.templateSize
      schema.nodesTemplate node compList valid) (fun outcome final =>
        final.file = world.file ∧ outcome =
          if ∀ comparator ∈ compList, Known schema.nodesTemplate comparator then
            some (valid - .ofNat (compList.countP fun comparator =>
              ¬ Satisfied world.file schema record comparator))
          else none) world := by
  induction compList generalizing world valid with
  | nil =>
      rw [comparatorLoop, wp_pure]
      refine ⟨rfl, ?_⟩
      simp
  | cons comparator compList ih =>
      have later := fun other member =>
        ended other (List.mem_cons_of_mem comparator member)
      rw [comparatorLoop]
      cases found : lastAttr comparator.kv.key schema.nodesTemplate with
      | none =>
          have unknown : ¬ Known schema.nodesTemplate comparator :=
            lastAttr_eq_none_iff.mp found
          rw [wp_pure, if_neg]
          · exact ⟨rfl, rfl⟩
          · intro all
            exact unknown (all comparator (List.mem_cons_self ..))
      | some position =>
          have known : Known schema.nodesTemplate comparator := by
            by_contra unknown
            rw [Known, ← lastAttr_eq_none_iff, found] at unknown
            cases unknown
          obtain ⟨type, typed⟩ : ∃ type, schema.types[position]? = some type :=
            ⟨_, List.getElem?_eq_getElem (by
              rw [TreeSchema.types, List.length_map]
              exact lastAttr_lt found)⟩
          dsimp only
          rw [wp_bind]
          apply wp_index typed
          rw [wp_bind]
          apply wp_mono (wp_comparatorPasses store.stored store.small enough
            started typed (fun string =>
              store.strings i record position scanned (string ▸ typed))
            (ended comparator (List.mem_cons_self ..)))
          rintro passes middle ⟨same, counted⟩
          have decided : passes = true ↔
              Satisfied world.file schema record comparator := by
            rw [counted]
            constructor
            · intro holds
              exact ⟨position, type, found, typed, holds⟩
            · rintro ⟨position', type', found', typed', holds⟩
              rw [found] at found'
              cases found'
              rw [typed] at typed'
              cases typed'
              exact holds
          have rest := @ih middle (if passes then valid else valid - 1)
            (by rw [same]; exact store) (by rw [same]; exact enough)
            (by rw [same]; exact scanned) later
          rw [same] at rest
          apply wp_mono rest
          rintro outcome final ⟨same', rfl⟩
          refine ⟨same', ?_⟩
          simp only [List.forall_mem_cons, known, true_and, List.countP_cons]
          cases passes with
          | true =>
              have passed := decided.mp rfl
              simp [passed]
          | false =>
              have failed : ¬ Satisfied world.file schema record comparator :=
                fun passed => Bool.false_ne_true (decided.mpr passed)
              have shift (count : Nat) :
                  valid - 1 - UInt8.ofNat count =
                    valid - UInt8.ofNat (count + 1) := by
                rw [UInt8.ofNat_add, UInt8.sub_eq_iff_eq_add,
                  UInt8.sub_eq_iff_eq_add, UInt8.add_assoc]
                exact (UInt8.sub_add_cancel _ _).symm
              simp [failed, shift]

open Classical in
/-- What is left of `valid` is not zero when some comparator is satisfied. -/
theorem Filter.valid_ne_zero_iff (filter : Filter)
    (passes : Comparator → Prop) :
    UInt8.ofNat filter.compList.length -
        .ofNat (filter.compList.countP fun comparator => ¬ passes comparator) ≠
          0 ↔ ∃ comparator ∈ filter.compList, passes comparator := by
  have bounded := filter.count_le
  have split := @List.length_eq_countP_add_countP _
    (fun comparator => decide (passes comparator)) filter.compList
  have failing : filter.compList.countP (fun comparator =>
      decide ¬ decide (passes comparator) = true) =
        filter.compList.countP fun comparator => ¬ passes comparator := by
    simp
  rw [failing] at split
  have some : 0 < filter.compList.countP (fun comparator =>
    decide (passes comparator)) ↔ _ := List.countP_pos_iff
  simp only [decide_eq_true_eq] at some
  rw [← some, split, UInt8.ofNat_add, UInt8.add_sub_cancel, ne_eq,
    ← UInt8.toNat_inj, UInt8.toNat_ofNat_of_lt' (show _ < 256 by omega)]
  exact Nat.pos_iff_ne_zero.symm

/-- The loop over the filters. -/
theorem Scannable.wp_filterLoop {filt : List Filter}
    (store : Scannable world.file schema)
    (enough : world.file.length ≤ fuel)
    (scanned : Scanned world.file schema i record)
    (started : node.data.take schema.realSize = record.data)
    (ended : Terminated filt) :
    wp (filterLoop fuel schema.types schema.treeMeta.templateSize
      schema.nodesTemplate node filt) (fun outcome final =>
        final.file = world.file ∧
          (outcome = none ↔ MeetsUnknown world.file schema record filt))
      world := by
  induction filt generalizing world with
  | nil =>
      rw [filterLoop, wp_pure, MeetsUnknown]
      simp
  | cons filter rest ih =>
      have first := @Scannable.wp_comparatorLoop world schema fuel i record node
        filter.compList (.ofNat filter.compList.length) store enough scanned
        started (ended filter (List.mem_cons_self ..))
      have later : Terminated rest :=
        fun other member => ended other (List.mem_cons_of_mem filter member)
      rw [filterLoop, wp_bind]
      apply wp_mono first
      rintro outcome middle ⟨same, rfl⟩
      by_cases known : ∀ comparator ∈ filter.compList,
          Known schema.nodesTemplate comparator
      · have left := filter.valid_ne_zero_iff (Satisfied world.file schema record)
        have noUnknown : ¬ ∃ comparator ∈ filter.compList,
            ¬ Known schema.nodesTemplate comparator := by
          push Not
          exact known
        rw [if_pos known, MeetsUnknown]
        dsimp only
        simp only [noUnknown, false_or, ← left]
        generalize UInt8.ofNat filter.compList.length - _ = valid
        by_cases appended : rest = [] ∧ valid ≠ 0
        · rw [if_pos appended, wp_pure, appended.1, MeetsUnknown]
          exact ⟨same, by simp⟩
        · rw [if_neg appended]
          by_cases failed : valid = 0
          · rw [if_pos failed, wp_pure]
            exact ⟨same, by simp [failed]⟩
          · rw [if_neg failed]
            have onward := @ih middle (by rw [same]; exact store)
              (by rw [same]; exact enough) (by rw [same]; exact scanned) later
            rw [same] at onward
            apply wp_mono onward
            rintro outcome final ⟨same', meets⟩
            exact ⟨same', by simp only [meets, ne_eq, failed,
              not_false_eq_true, true_and]⟩
      · have unknown : ∃ comparator ∈ filter.compList,
            ¬ Known schema.nodesTemplate comparator := by
          push Not at known
          exact known
        rw [if_neg known, wp_pure, MeetsUnknown]
        exact ⟨same, iff_of_true rfl (Or.inl unknown)⟩

/-- The scan over some entries of the array reports an unknown field when one of
their records meets one. -/
theorem Scannable.wp_filterScan {filt : List Filter} {ids : List Nat}
    {result : List FoundNode} (store : Scannable world.file schema)
    (enough : world.file.length ≤ fuel) (ended : Terminated filt)
    (counted : ∀ i ∈ ids, i < schema.treeMeta.templateSize) :
    wp (filterScan fuel schema.types schema.treeMeta.templateSize
      schema.nodesTemplate filt schema ids result) (fun outcome final =>
        final.file = world.file ∧ (outcome.1 = 3 ↔
          ∃ i ∈ ids, ∃ record, Scanned world.file schema i record ∧
            MeetsUnknown world.file schema record filt)) world := by
  induction ids generalizing world result with
  | nil =>
      rw [filterScan, wp_pure]
      simp
  | cons i rest ih =>
      have later := fun other member =>
        counted other (List.mem_cons_of_mem i member)
      have here := counted i (List.mem_cons_self ..)
      obtain ⟨entry, known⟩ : ∃ entry, schema.root[i]? = some entry :=
        ⟨_, List.getElem?_eq_getElem (store.stored.template_lt_root here)⟩
      rw [filterScan, wp_bind]
      apply wp_index known
      by_cases dead : entry = 0
      · rw [if_pos dead]
        apply wp_mono (ih store enough later)
        rintro outcome final ⟨same, reported⟩
        refine ⟨same, reported.trans ?_⟩
        rw [List.exists_mem_cons_iff, or_iff_right]
        rintro ⟨record, ⟨-, offset, found, nonzero, -⟩, -⟩
        rw [known] at found
        cases found
        exact nonzero dead
      · obtain ⟨record, there⟩ := store.complete i here entry known dead
        have scanned : Scanned world.file schema i record :=
          ⟨here, entry, known, dead, there⟩
        rw [if_neg dead, wp_bind]
        apply wp_fseekSet_toLong (by
          have := there.length_le
          have := store.small
          omega)
        rw [wp_bind]
        apply RecordAt.wp_readNode (by exact there) rfl rfl
        intro data status pos blocks started _
        dsimp only
        rw [wp_bind]
        apply wp_mono (Scannable.wp_filterLoop (by exact store)
          (by exact enough) (by exact scanned) (by exact started) ended)
        rintro outcome middle ⟨same, meets⟩
        have only : (∃ record, Scanned world.file schema i record ∧
            MeetsUnknown world.file schema record filt) ↔ outcome = none := by
          rw [meets]
          constructor
          · rintro ⟨record', scanned', meets'⟩
            rw [scanned'.unique scanned] at meets'
            exact meets'
          · intro meets'
            exact ⟨record, scanned, meets'⟩
        rw [List.exists_mem_cons_iff, only]
        cases outcome with
        | none =>
            rw [wp_pure]
            exact ⟨same, by simp⟩
        | some appended =>
            have onward := @ih middle
              (if appended then ⟨some ⟨record.header, data⟩, i⟩ :: result
                else result)
              (by rw [same]; exact store) (by rw [same]; exact enough) later
            rw [same] at onward
            apply wp_mono onward
            rintro outcome final ⟨same', reported⟩
            exact ⟨same', by simp only [reported, reduceCtorEq, false_or]⟩

/-- A query that is a scan. -/
theorem Scannable.wp_storageFindNodeByFilters {filt : List Filter}
    (store : Scannable world.file schema)
    (enough : world.file.length ≤ fuel) (ended : Terminated filt)
    (plain : ¬ Special filt) :
    wp (storageFindNodeByFilters fuel filt schema.nodesTemplate)
      (fun outcome final => final.file = world.file ∧ (outcome.1 = 3 ↔
        ∃ i record, Scanned world.file schema i record ∧
          MeetsUnknown world.file schema record filt)) world := by
  rw [storageFindNodeByFilters, wp_bind]
  apply SchemaAt.wp_getTypes store.stored
  intro blocks
  dsimp only
  rw [wp_bind]
  apply SchemaAt.wp_readTreeSchema (by exact store.stored)
  intro blocks
  dsimp only
  have scan := @Scannable.wp_filterScan
    { world with pos := schema.arrayEnd, blocks := blocks } schema fuel filt
    (List.range schema.treeMeta.templateSize) [] store enough ended
    fun i member => List.mem_range.mp member
  have whole : (∃ i ∈ List.range schema.treeMeta.templateSize, ∃ record,
      Scanned world.file schema i record ∧
        MeetsUnknown world.file schema record filt) ↔
      ∃ i record, Scanned world.file schema i record ∧
        MeetsUnknown world.file schema record filt := by
    constructor
    · rintro ⟨i, -, record, scanned, meets⟩
      exact ⟨i, record, scanned, meets⟩
    · rintro ⟨i, record, scanned, meets⟩
      exact ⟨i, List.mem_range.mpr scanned.counted, record, scanned, meets⟩
  dsimp only at scan
  rw [whole] at scan
  split
  · rename_i comparator count
    rw [if_neg (fun parent => plain ⟨comparator, count, rfl, Or.inl parent⟩),
      if_neg (fun id => plain ⟨comparator, count, rfl, Or.inr id⟩)]
    exact scan
  · exact scan

end Scans

/-- The query ends with code 3. -/
def Reports (fuel : Nat) (filt : List Filter)
    (template : List NodeAttributeInfo) (world : World) : Prop :=
  wp (storageFindNodeByFilters fuel filt template)
    (fun outcome _ => outcome.1 = 3) world

/-- Some node of the scan meets an unknown key. -/
def SomeMeets (file : List UInt8) (schema : TreeSchema) (filt : List Filter) :
    Prop :=
  ∃ i record, Scanned file schema i record ∧
    MeetsUnknown file schema record filt

theorem MeetsUnknown.hasUnknown {file : List UInt8} {schema : TreeSchema}
    {record : KeyNode} {filt : List Filter}
    (meets : MeetsUnknown file schema record filt) :
    HasUnknown schema.nodesTemplate filt := by
  induction filt with
  | nil => exact absurd meets id
  | cons filter rest ih =>
      rcases meets with ⟨comparator, member, unknown⟩ | ⟨-, later⟩
      · exact ⟨filter, List.mem_cons_self .., comparator, member, unknown⟩
      · obtain ⟨other, inside, comparator, member, unknown⟩ := ih later
        exact ⟨other, List.mem_cons_of_mem _ inside, comparator, member,
          unknown⟩

theorem Scannable.reports_iff {world : World} {schema : TreeSchema}
    {fuel : Nat} {filt : List Filter} (store : Scannable world.file schema)
    (enough : world.file.length ≤ fuel) (ended : Terminated filt)
    (plain : ¬ Special filt) :
    Reports fuel filt schema.nodesTemplate world ↔
      SomeMeets world.file schema filt := by
  apply wp_iff_of
    (store.wp_storageFindNodeByFilters enough ended plain)
  rintro outcome final ⟨-, reported⟩
  exact reported

/-- Unknown fields are reported by two stores with the same template, whatever
their data, exactly if there are none or a node of each store meets one. -/
theorem unknown_reported_iff {first second : World}
    {schema schema' : TreeSchema} {fuel : Nat} {filt : List Filter}
    (store : Scannable first.file schema)
    (store' : Scannable second.file schema')
    (same : schema'.nodesTemplate = schema.nodesTemplate)
    (enough : first.file.length ≤ fuel) (enough' : second.file.length ≤ fuel)
    (ended : Terminated filt) (plain : ¬ Special filt) :
    ((Reports fuel filt schema.nodesTemplate first ↔
        Reports fuel filt schema.nodesTemplate second) ∧
      (Reports fuel filt schema.nodesTemplate first ↔
        HasUnknown schema.nodesTemplate filt) ∧
      (Reports fuel filt schema.nodesTemplate second ↔
        HasUnknown schema.nodesTemplate filt)) ↔
    (HasUnknown schema.nodesTemplate filt →
      SomeMeets first.file schema filt ∧
        SomeMeets second.file schema' filt) := by
  have reports := store.reports_iff enough ended plain
  have reports' := store'.reports_iff enough' ended plain
  rw [same] at reports'
  have has : SomeMeets first.file schema filt →
      HasUnknown schema.nodesTemplate filt := by
    rintro ⟨i, record, -, meets⟩
    exact meets.hasUnknown
  have has' : SomeMeets second.file schema' filt →
      HasUnknown schema.nodesTemplate filt := by
    rintro ⟨i, record, -, meets⟩
    rw [← same]
    exact meets.hasUnknown
  rw [reports, reports']
  constructor
  · rintro ⟨-, met, met'⟩ unknown
    exact ⟨met.mpr unknown, met'.mpr unknown⟩
  · intro meets
    have met : SomeMeets first.file schema filt ↔
        HasUnknown schema.nodesTemplate filt :=
      ⟨has, fun unknown => (meets unknown).1⟩
    have met' : SomeMeets second.file schema' filt ↔
        HasUnknown schema.nodesTemplate filt :=
      ⟨has', fun unknown => (meets unknown).2⟩
    exact ⟨met.trans met'.symm, met, met'⟩

/-- The filter on an attribute x. -/
def onlyX : Filter :=
  ⟨[⟨0, ⟨[120, 0], 1, 0, 0, [0]⟩⟩], by decide⟩

theorem scannable_single :
    Scannable (singleSchema INT).bytes (singleSchema INT) := by
  refine ⟨schemaAt_single (by norm_num), ?_, ?_, ?_⟩
  · rw [singleSchema_length]
    norm_num
  · intro i counted offset found nonzero
    exact absurd (singleSchema_dead found) nonzero
  · rintro i record position ⟨-, offset, found, nonzero, -⟩
    exact absurd (singleSchema_dead found) nonzero

theorem special_onlyX : ¬ Special [onlyX] := by
  rintro ⟨comparator, count, same, named⟩
  rw [List.cons.injEq, onlyX, Filter.mk.injEq, List.cons.injEq] at same
  obtain ⟨⟨rfl, -⟩, -⟩ := same
  revert named
  decide

theorem terminated_onlyX : Terminated [onlyX] := by
  intro filter member comparator inside
  rw [List.mem_singleton] at member
  subst member
  revert comparator
  decide

theorem hasUnknown_onlyX {template : List NodeAttributeInfo}
    (named : template.map (textOf ·.attributeName) = [[110]]) :
    HasUnknown template [onlyX] := by
  refine ⟨onlyX, List.mem_singleton_self _, _, List.mem_singleton_self _, ?_⟩
  rintro ⟨info, member, same⟩
  have text := @List.mem_map_of_mem _ _ _ _ (textOf ·.attributeName) member
  rw [named, List.mem_singleton] at text
  rw [SameText, text] at same
  exact absurd same (by decide)

/-- An empty store does not report an unknown field. -/
theorem not_always_unknown_reported :
    ¬ ∀ (first second : World) (schema schema' : TreeSchema) (fuel : Nat)
      (filt : List Filter), Scannable first.file schema →
      Scannable second.file schema' →
      schema'.nodesTemplate = schema.nodesTemplate →
      first.file.length ≤ fuel → second.file.length ≤ fuel →
      Terminated filt → ¬ Special filt →
      (Reports fuel filt schema.nodesTemplate first ↔
        Reports fuel filt schema.nodesTemplate second) ∧
      (Reports fuel filt schema.nodesTemplate first ↔
        HasUnknown schema.nodesTemplate filt) ∧
      (Reports fuel filt schema.nodesTemplate second ↔
        HasUnknown schema.nodesTemplate filt) := by
  intro always
  have store := scannable_single
  have empty : ∀ i record,
      ¬ Scanned (singleSchema INT).bytes (singleSchema INT) i record := by
    rintro i record ⟨-, offset, found, nonzero, -⟩
    exact nonzero (singleSchema_dead found)
  have named : (singleSchema INT).nodesTemplate.map
      (textOf ·.attributeName) = [[110]] := by decide
  generalize singleSchema INT = schema at store empty named
  have right := (always (blankWorld schema.bytes) (blankWorld schema.bytes)
    schema schema schema.bytes.length [onlyX] store store rfl le_rfl le_rfl
    terminated_onlyX special_onlyX).2.1
  have meets := @Scannable.reports_iff (blankWorld schema.bytes) schema
    schema.bytes.length [onlyX] store le_rfl terminated_onlyX special_onlyX
  obtain ⟨i, record, scanned, -⟩ :=
    meets.mp (right.mpr (hasUnknown_onlyX named))
  exact empty i record scanned

theorem oneSeven_scannable : Scannable oneSeven (schemaOf oneSeven) := by
  obtain ⟨size, counter⟩ := oneSeven_counts
  have store := oneSeven_searchable
  generalize oneSeven = file at size counter store ⊢
  exact store.scannable (by omega)

theorem twoSevens_searchable : Searchable twoSevens (schemaOf twoSevens) := by
  obtain ⟨tuples, -, template, -⟩ := twoSevens_stored
  generalize twoSevens = file at tuples template ⊢
  apply tuples.toTuples.searchable
  rw [TreeSchema.types, template]
  decide

theorem twoSevens_scannable : Scannable twoSevens (schemaOf twoSevens) := by
  obtain ⟨-, -, -, size, counter⟩ := twoSevens_stored
  have store := twoSevens_searchable
  generalize twoSevens = file at size counter store ⊢
  exact store.scannable (by omega)

/-- The first node meets the unknown field. -/
theorem someMeets_onlyX {file : List UInt8} {schema : TreeSchema}
    {offset : Nat} {record : KeyNode} (live : LiveAt schema 0 offset)
    (here : RecordAt file schema offset record)
    (some_attribute : 0 < schema.treeMeta.templateSize)
    (unknown : HasUnknown schema.nodesTemplate [onlyX]) :
    SomeMeets file schema [onlyX] := by
  obtain ⟨filter, member, comparator, inside, unnamed⟩ := unknown
  obtain rfl := List.mem_singleton.mp member
  exact ⟨0, record, ⟨some_attribute, offset, live.entry, live.nonzero, here⟩,
    Or.inl ⟨comparator, inside, unnamed⟩⟩

/-- Stores with one and with two nodes report an unknown field, and an empty
one does not. -/
theorem unknown_reported_iff_seven :
    Reports twoSevens.length [onlyX] (singleSchema INT).nodesTemplate
      (blankWorld oneSeven) ∧
    Reports twoSevens.length [onlyX] (singleSchema INT).nodesTemplate
      (blankWorld twoSevens) ∧
    ¬ Reports twoSevens.length [onlyX] (singleSchema INT).nodesTemplate
      (blankWorld (singleSchema INT).bytes) := by
  have empty : ∀ i record,
      ¬ Scanned (singleSchema INT).bytes (singleSchema INT) i record := by
    rintro i record ⟨-, offset, found, nonzero, -⟩
    exact nonzero (singleSchema_dead found)
  have unknown : HasUnknown (singleSchema INT).nodesTemplate [onlyX] :=
    hasUnknown_onlyX (by decide)
  have single : (singleSchema INT).nodesTemplate =
      [{ size := 4, type := INT, attributeName := [110, 0, 0, 0] }] := rfl
  have short : (singleSchema INT).bytes.length ≤ twoSevens.length ∧
      oneSeven.length ≤ twoSevens.length := by
    rw [singleSchema_length]
    decide +kernel
  have store := scannable_single
  have store' := oneSeven_scannable
  have store'' := twoSevens_scannable
  obtain ⟨-, -, live, here, template⟩ := oneSeven_stored
  obtain ⟨tuples, ⟨live', -⟩, template', size', -⟩ := twoSevens_stored
  have size := oneSeven_counts.1
  -- files and schema have to be variables here, lest they be evaluated
  generalize oneSeven = file at *
  generalize twoSevens = file' at *
  generalize singleSchema INT = schema at *
  rw [← single] at template template'
  obtain ⟨record', here'⟩ := tuples.complete _ _ live'
  have meets := someMeets_onlyX live here (by omega) (template ▸ unknown)
  have meets' := someMeets_onlyX live' here' (by omega) (template' ▸ unknown)
  have both := (@unknown_reported_iff (blankWorld file) (blankWorld file') _ _
    file'.length [onlyX] store' store'' (template'.trans template.symm) short.2
    le_rfl terminated_onlyX special_onlyX).mpr fun _ => ⟨meets, meets'⟩
  rw [template] at both
  refine ⟨both.2.1.mpr unknown, both.2.2.mpr unknown, fun reported => ?_⟩
  have first := (@unknown_reported_iff (blankWorld schema.bytes)
    (blankWorld file) schema _ file'.length [onlyX] store store' template
    short.1 short.2 terminated_onlyX special_onlyX).mp
      ⟨iff_of_true reported (both.2.1.mpr unknown),
        iff_of_true reported unknown, both.2.1⟩ unknown
  obtain ⟨i, record, scanned, -⟩ := first.1
  exact empty i record scanned

end TreeStore
