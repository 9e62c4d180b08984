import Mathlib.Algebra.Order.Floor.Div
import TreeStore.DeadIds

/-!
# The block of the id array and its place on disk

`readTreeSchema` sizes the block of the id array by the old counter,
`appendToIdArray` stores at that counter, and `writeTreeSchema` writes with the
next one.  On disk the array grows by one record whenever the growth test of
`appendToIdArray` fires.
-/

namespace TreeStore

open ByteFile ProgramLogic LinkedRecords

section Words

/-- `getRealNodeSize`, with the wrap-around of its 64-bit words. -/
def getRealNodeSize64 (size : UInt64) : UInt64 :=
  if size * 8 < 256 then 256 else size * 8

/-- `getIdArraySize`, with the wrap-around of its 64-bit words.  Where the
record size wraps to zero the source divides by zero; here the size is zero. -/
def getIdArraySize64 (attrSize curId : UInt64) : UInt64 :=
  let realNodeSize := getRealNodeSize64 attrSize + 16
  let curId := if curId = 0 then curId + 1 else curId
  let whole := curId * 8 / realNodeSize
  let frac := if curId * 8 % realNodeSize ≠ 0 then 1 else 0
  max ((frac + whole) * realNodeSize / 8) (1 * realNodeSize / 8)

/-- The number of id entries that one record holds. -/
def idUnit64 (templateSize : UInt64) : UInt64 :=
  (getRealNodeSize64 templateSize + 16) / 8

/-- The store to `root[curId]` lies in the block that `readTreeSchema` loaded,
and `writeTreeSchema` with the next counter writes no more entries than that
block has. -/
def AppendInBlock (templateSize curId : UInt64) : Prop :=
  curId < getIdArraySize64 templateSize curId ∧
    getIdArraySize64 templateSize (curId + 1) ≤
      getIdArraySize64 templateSize curId

instance (templateSize curId : UInt64) :
    Decidable (AppendInBlock templateSize curId) :=
  inferInstanceAs (Decidable (_ ∧ _))

/-- The array size in entries, as a function of the entries in one record. -/
def wrappedSize (unit curId : Nat) : Nat :=
  let entries := (if curId = 0 then 1 else curId) % 2 ^ 61
  max (((if entries % unit ≠ 0 then 1 else 0) + entries / unit) * unit %
    2 ^ 61) unit

theorem getRealNodeSize64_toNat (size : UInt64) :
    ∃ words, (getRealNodeSize64 size).toNat = 8 * words := by
  unfold getRealNodeSize64
  split
  · exact ⟨32, rfl⟩
  · refine ⟨size.toNat % 2 ^ 61, ?_⟩
    rw [UInt64.toNat_mul]
    change size.toNat * 8 % 2 ^ 64 = _
    omega

theorem recordSize64_toNat (templateSize : UInt64) :
    (getRealNodeSize64 templateSize + 16).toNat =
      8 * (idUnit64 templateSize).toNat := by
  obtain ⟨words, wordsEq⟩ := getRealNodeSize64_toNat templateSize
  have sum : (getRealNodeSize64 templateSize + 16).toNat =
      8 * ((words + 2) % 2 ^ 61) := by
    rw [UInt64.toNat_add, wordsEq]
    change (8 * words + 16) % 2 ^ 64 = _
    omega
  rw [idUnit64, UInt64.toNat_div, sum]
  exact (Nat.mul_div_cancel' ⟨_, rfl⟩).symm

theorem idUnit64_lt (templateSize : UInt64) :
    (idUnit64 templateSize).toNat < 2 ^ 61 := by
  have bound := (getRealNodeSize64 templateSize + 16).toNat_lt
  have split := recordSize64_toNat templateSize
  omega

theorem toNat_max (first second : UInt64) :
    (max first second).toNat = max first.toNat second.toNat := by
  change (if first ≤ second then second else first).toNat = _
  rw [Nat.max_def, apply_ite UInt64.toNat]
  rfl

/-- The number of records that `entries` take, as the source counts them. -/
theorem frac_add_whole_toNat {bytes record : UInt64} {entries unit : Nat}
    (small : entries < 2 ^ 61) (bytesEq : bytes.toNat = 8 * entries)
    (recordEq : record.toNat = 8 * unit) :
    ((if bytes % record ≠ 0 then (1 : UInt64) else 0) + bytes / record).toNat =
      (if entries % unit ≠ 0 then 1 else 0) + entries / unit := by
  have quotient : (bytes / record).toNat = entries / unit := by
    rw [UInt64.toNat_div, bytesEq, recordEq,
      Nat.mul_div_mul_left _ _ (by norm_num)]
  have remainder : (bytes % record).toNat = 8 * (entries % unit) := by
    rw [UInt64.toNat_mod, bytesEq, recordEq, Nat.mul_mod_mul_left]
  have zero_iff : bytes % record = 0 ↔ entries % unit = 0 := by
    rw [← UInt64.toNat_inj, remainder]
    change 8 * (entries % unit) = 0 ↔ _
    omega
  have partRecord : (if bytes % record ≠ 0 then (1 : UInt64) else 0).toNat =
      if entries % unit ≠ 0 then 1 else 0 := by
    rw [apply_ite UInt64.toNat]
    simp only [ne_eq, zero_iff]
    rfl
  have quotient_le : entries / unit ≤ entries := Nat.div_le_self _ _
  rw [UInt64.toNat_add, partRecord, quotient, Nat.mod_eq_of_lt]
  split <;> omega

theorem getIdArraySize64_toNat (templateSize curId : UInt64) :
    (getIdArraySize64 templateSize curId).toNat =
      wrappedSize (idUnit64 templateSize).toNat curId.toNat := by
  have recordEq := recordSize64_toNat templateSize
  obtain ⟨counter, counterIs⟩ : ∃ counter,
      counter = if curId = 0 then curId + 1 else curId := ⟨_, rfl⟩
  have counterEq : counter.toNat =
      if curId.toNat = 0 then 1 else curId.toNat := by
    rw [counterIs]
    by_cases zero : curId = 0
    · rw [if_pos zero, zero]
      rfl
    · have positive : curId.toNat ≠ 0 := fun same =>
        zero (UInt64.toNat_inj.mp same)
      rw [if_neg zero, if_neg positive]
  have bytesEq : (counter * 8).toNat = 8 * (counter.toNat % 2 ^ 61) := by
    rw [UInt64.toNat_mul]
    change counter.toNat * 8 % 2 ^ 64 = _
    omega
  unfold getIdArraySize64 wrappedSize
  rw [← counterEq, ← counterIs]
  dsimp only
  generalize getRealNodeSize64 templateSize + 16 = record at recordEq ⊢
  generalize (idUnit64 templateSize).toNat = unit at recordEq ⊢
  have count := frac_add_whole_toNat (Nat.mod_lt _ (by norm_num)) bytesEq
    recordEq
  have one : (1 * record / 8).toNat = unit := by
    rw [UInt64.toNat_div, UInt64.one_mul, recordEq]
    exact Nat.mul_div_cancel_left _ (by norm_num)
  have eighth (size : Nat) : size * (8 * unit) % 2 ^ 64 / 8 =
      size * unit % 2 ^ 61 := by
    rw [show size * (8 * unit) = 8 * (size * unit) by ring]
    omega
  rw [toNat_max, one, UInt64.toNat_div, UInt64.toNat_mul, count, recordEq]
  exact congrArg (max · unit) (eighth _)

theorem wrappedSize_zero (curId : Nat) : wrappedSize 0 curId = 0 := by
  simp [wrappedSize]

theorem wrappedSize_initial {unit : Nat} (positive : 0 < unit)
    (small : unit < 2 ^ 61) :
    wrappedSize unit 0 = unit ∧ wrappedSize unit 1 = unit := by
  have sizes : wrappedSize unit 1 = unit := by
    unfold wrappedSize
    rw [if_neg Nat.one_ne_zero, show (1 : Nat) % 2 ^ 61 = 1 by norm_num]
    dsimp only
    by_cases single : unit = 1
    · rw [single]
      norm_num
    · rw [Nat.mod_eq_of_lt (show 1 < unit by omega), if_pos Nat.one_ne_zero,
        Nat.div_eq_of_lt (show 1 < unit by omega), Nat.add_zero, Nat.one_mul,
        Nat.mod_eq_of_lt small, Nat.max_self]
  exact ⟨sizes, sizes⟩

/-- A counter that fills whole records. -/
theorem wrappedSize_of_dvd {unit curId : Nat} (positive : 0 < curId)
    (small : curId < 2 ^ 61) (whole : unit ∣ curId) :
    wrappedSize unit curId = curId := by
  unfold wrappedSize
  rw [if_neg (by omega), Nat.mod_eq_of_lt small]
  dsimp only
  rw [Nat.mod_eq_zero_of_dvd whole, if_neg (by simp), Nat.zero_add,
    Nat.div_mul_cancel whole, Nat.mod_eq_of_lt small]
  exact Nat.max_eq_left (Nat.le_of_dvd positive whole)

/-- A counter within a record: its record is counted whole. -/
theorem wrappedSize_of_not_dvd {unit curId : Nat}
    (small : curId < 2 ^ 61) (part : ¬ unit ∣ curId) :
    wrappedSize unit curId =
      max ((curId / unit + 1) * unit % 2 ^ 61) unit := by
  have positive : curId ≠ 0 := fun zero => part (zero ▸ Nat.dvd_zero _)
  unfold wrappedSize
  rw [if_neg positive, Nat.mod_eq_of_lt small]
  dsimp only
  rw [if_pos (fun zero => part (Nat.dvd_of_mod_eq_zero zero)),
    Nat.add_comm 1]

theorem wrappedSize_eq {unit curId : Nat} (positive : 0 < unit)
    (small : curId + unit < 2 ^ 61) :
    wrappedSize unit curId = unit * max 1 ((curId + unit - 1) / unit) := by
  rcases Nat.eq_zero_or_pos curId with rfl | counted
  · rw [(wrappedSize_initial positive (by omega)).1, Nat.zero_add,
      Nat.div_eq_of_lt (by omega), Nat.max_eq_left (by omega), Nat.mul_one]
  have least : 1 ≤ (curId + unit - 1) / unit :=
    (Nat.one_le_div_iff positive).mpr (by omega)
  rw [Nat.max_eq_right least]
  by_cases whole : unit ∣ curId
  · obtain ⟨count, rfl⟩ := whole
    rw [wrappedSize_of_dvd counted (by omega) (Nat.dvd_mul_right _ _),
      Nat.add_sub_assoc positive, Nat.mul_add_div positive,
      Nat.div_eq_of_lt (by omega), Nat.add_zero]
  · have ceiling : (curId + unit - 1) / unit = curId / unit + 1 := by
      have rest := Nat.mod_lt curId positive
      have split := Nat.div_add_mod curId unit
      have rest_pos : curId % unit ≠ 0 := fun zero =>
        whole (Nat.dvd_of_mod_eq_zero zero)
      rw [Nat.div_eq_iff positive, Nat.add_mul, Nat.mul_comm (curId / unit)]
      omega
    have below := Nat.div_mul_le_self curId unit
    have above := Nat.lt_mul_div_succ curId positive
    rw [wrappedSize_of_not_dvd (by omega) whole, ceiling, Nat.add_mul,
      Nat.one_mul, Nat.mod_eq_of_lt (by omega), Nat.max_eq_left (by omega),
      Nat.mul_add, Nat.mul_one, Nat.mul_comm]

theorem wrappedSize_inBlock_iff {unit curId : Nat} (unit_lt : unit < 2 ^ 61)
    (curId_lt : curId < 2 ^ 64) :
    curId < wrappedSize unit curId ∧
        wrappedSize unit ((curId + 1) % 2 ^ 64) ≤ wrappedSize unit curId ↔
      unit ≠ 0 ∧ (curId = 0 ∨
        ¬ unit ∣ curId ∧ (curId / unit + 1) * unit < 2 ^ 61) := by
  rcases Nat.eq_zero_or_pos unit with rfl | positive
  · simp [wrappedSize_zero]
  have above := Nat.lt_mul_div_succ curId positive
  rw [Nat.mul_comm] at above
  have below := Nat.div_mul_le_self curId unit
  rw [Nat.add_mul, Nat.one_mul] at above ⊢
  rcases Nat.eq_zero_or_pos curId with rfl | counted
  · obtain ⟨zero, one⟩ := wrappedSize_initial positive unit_lt
    rw [Nat.zero_add, show 1 % 2 ^ 64 = 1 by norm_num, zero, one]
    simp [positive, positive.ne']
  -- The array never has 2 ^ 61 entries.
  by_cases small : curId < 2 ^ 61
  · by_cases whole : unit ∣ curId
    · rw [wrappedSize_of_dvd counted small whole]
      simp [whole, counted.ne']
    · rw [wrappedSize_of_not_dvd small whole, Nat.add_mul, Nat.one_mul,
        Nat.mod_eq_of_lt (show curId + 1 < 2 ^ 64 by omega)]
      generalize multipleIs : curId / unit * unit = multiple at above below ⊢
      by_cases fits : multiple + unit < 2 ^ 61
      · have next : wrappedSize unit (curId + 1) ≤ multiple + unit := by
          by_cases filled : unit ∣ curId + 1
          · rw [wrappedSize_of_dvd (by omega) (by omega) filled]
            omega
          · rw [wrappedSize_of_not_dvd (by omega) filled,
              Nat.succ_div_of_not_dvd filled, Nat.add_mul, Nat.one_mul,
              multipleIs, Nat.mod_eq_of_lt fits]
            omega
        rw [Nat.mod_eq_of_lt fits, Nat.max_eq_left (by omega)]
        simp only [positive.ne', counted.ne', whole, fits, ne_eq,
          not_false_eq_true, and_self, or_true, iff_true]
        exact ⟨above, next⟩
      · have wrapped : (multiple + unit) % 2 ^ 61 ≤ unit := by omega
        rw [Nat.max_eq_right wrapped]
        have notFirst : unit ≤ curId := by
          by_contra less
          rw [Nat.div_eq_of_lt (by omega), Nat.zero_mul] at multipleIs
          omega
        simp only [fits, counted.ne', and_false, or_false, iff_false, not_and]
        intro inside
        omega
  · have bounded : wrappedSize unit curId < 2 ^ 61 := by
      unfold wrappedSize
      dsimp only
      exact max_lt (Nat.mod_lt _ (by norm_num)) unit_lt
    constructor
    · rintro ⟨inside, -⟩
      omega
    · rintro ⟨-, zero | ⟨-, fits⟩⟩ <;> omega
/-- The accesses stay in the block exactly for the first node and for counters
within a record, as long as the array with that record has fewer than 2 ^ 64
bytes. -/
theorem appendInBlock_iff (templateSize curId : UInt64) :
    AppendInBlock templateSize curId ↔
      idUnit64 templateSize ≠ 0 ∧ (curId = 0 ∨
        ¬ (idUnit64 templateSize).toNat ∣ curId.toNat ∧
          8 * ((curId.toNat / (idUnit64 templateSize).toNat + 1) *
            (idUnit64 templateSize).toNat) < 2 ^ 64) := by
  have wrapped := wrappedSize_inBlock_iff (idUnit64_lt templateSize)
    curId.toNat_lt
  have next : (curId + 1).toNat = (curId.toNat + 1) % 2 ^ 64 :=
    UInt64.toNat_add _ _
  have bytes (size : Nat) : 8 * size < 2 ^ 64 ↔ size < 2 ^ 61 := by omega
  have zero (word : UInt64) : word = 0 ↔ word.toNat = 0 :=
    UInt64.toNat_inj.symm
  rw [AppendInBlock, UInt64.lt_iff_toNat_lt, UInt64.le_iff_toNat_le,
    getIdArraySize64_toNat, getIdArraySize64_toNat, next, wrapped, bytes,
    ne_eq, ne_eq, zero, zero]

/-- The thirty-fifth node of a store with one attribute. -/
theorem not_appendInBlock_full :
    ¬ ∀ templateSize curId, AppendInBlock templateSize curId := by
  intro always
  exact absurd (always 1 34) (by decide)

theorem getRealNodeSize64_eq {size : UInt64}
    (fits : getRealNodeSize size.toNat < 2 ^ 64) :
    (getRealNodeSize64 size).toNat = getRealNodeSize size.toNat := by
  have real := getRealNodeSize_eq_max size.toNat
  have product : (size * 8).toNat = size.toNat * 8 := by
    rw [UInt64.toNat_mul]
    change size.toNat * 8 % 2 ^ 64 = _
    omega
  rw [real]
  unfold getRealNodeSize64
  split
  · rename_i small
    have bound := UInt64.lt_iff_toNat_lt.mp small
    change _ < 256 at bound
    change 256 = _
    omega
  · rename_i large
    have bound : ¬ _ < 256 := fun less =>
      large (UInt64.lt_iff_toNat_lt.mpr less)
    omega

/-- As long as nothing wraps, the sizes are those of the store's model. -/
theorem getIdArraySize64_eq {templateSize curId : UInt64}
    (fits : 8 * curId.toNat +
      (getRealNodeSize templateSize.toNat + nodeHeadSize) < 2 ^ 64) :
    (getIdArraySize64 templateSize curId).toNat =
      getIdArraySize templateSize.toNat curId.toNat := by
  have unit_mul := idUnit_mul templateSize.toNat
  have unit_ge := idUnit_ge templateSize.toNat
  have realEq : (getRealNodeSize64 templateSize).toNat =
      getRealNodeSize templateSize.toNat := getRealNodeSize64_eq (by omega)
  have unitEq : (idUnit64 templateSize).toNat = idUnit templateSize.toNat := by
    have split := recordSize64_toNat templateSize
    rw [UInt64.toNat_add, realEq] at split
    change (_ + 16) % 2 ^ 64 = _ at split
    simp only [nodeHeadSize] at unit_mul fits
    omega
  rw [getIdArraySize64_toNat, unitEq, getIdArraySize_eq, idRecords]
  rw [← unit_mul] at fits
  exact wrappedSize_eq (by omega) (by omega)

end Words

/-- The block that `readTreeSchema` loads, whatever the file holds. -/
theorem readTreeSchema_root_length (world : World) :
    wp readTreeSchema (fun result _ => result.1.root.length =
      getIdArraySize result.1.treeMeta.templateSize
        result.1.treeMeta.curId) world := by
  simp only [readTreeSchema, readTreeMeta, wp_bind, wp_pure, wp_fseekSet,
    le_refl, if_true]
  apply wp_malloc
  intro block blocks _
  rw [wp_readFile]
  apply wp_readAttributes_any
  intro result pos blocks
  apply wp_malloc
  intro array blocks _
  rw [wp_readFile]
  exact leWords_length _ _

/-- The entries that a store has room for in front of its records, when
additions have brought the counter to `curId`: the first record of the id array,
and one more for each time that the growth test of `appendToIdArray` fired. -/
def reservedEntries (templateSize : Nat) : Nat → Nat
  | 0 => getIdArraySize templateSize 0
  | curId + 1 =>
      if (curId + 1) % getIdArraySize templateSize curId = 0 then
        reservedEntries templateSize curId +
          (getRealNodeSize templateSize + nodeHeadSize) / offsetSize
      else reservedEntries templateSize curId

theorem reservedEntries_eq (templateSize curId : Nat) :
    reservedEntries templateSize curId =
      idUnit templateSize * (1 + curId / idUnit templateSize) := by
  induction curId with
  | zero =>
      rw [reservedEntries, getIdArraySize_eq, idRecords_zero, Nat.zero_div]
  | succ curId ih =>
      rw [reservedEntries, ih, Nat.succ_div]
      simp only [grows_iff]
      split
      · change _ + idUnit templateSize = _
        ring
      · rfl

theorem reservedEntries_eq_idRecords (templateSize curId : Nat) :
    reservedEntries templateSize curId =
      idUnit templateSize * idRecords templateSize (curId + 1) := by
  rw [reservedEntries_eq, idRecords_succ, Nat.add_comm]

/-- What the id array takes and has, in entries: `u` of them fill one record. -/
structure ReservedInTime (templateSize curId u : Nat) : Prop where
  unit : u = (getRealNodeSize templateSize + 16) / 8
  needed : getIdArraySize templateSize curId = u * max 1 (curId ⌈/⌉ u)
  grows : (curId + 1) % getIdArraySize templateSize curId = 0 ↔ u ∣ curId + 1
  reserved : reservedEntries templateSize curId = u * (1 + curId / u)
  enough : getIdArraySize templateSize curId ≤ u * (1 + curId / u)

theorem reservedInTime (templateSize curId : Nat) :
    ReservedInTime templateSize curId (idUnit templateSize) where
  unit := rfl
  needed := by
    rw [getIdArraySize_eq, idRecords, Nat.ceilDiv_eq_add_pred_div]
  grows := grows_iff templateSize curId
  reserved := reservedEntries_eq templateSize curId
  enough := by
    rw [getIdArraySize_eq, Nat.add_comm 1, ← idRecords_succ]
    exact Nat.mul_le_mul_left _ (idRecords_le_succ templateSize curId)

/-- The tuples of all live nodes and the records of all their strings lie at
`bound` or behind. -/
def RecordsBehind (file : List UInt8) (schema : TreeSchema) (bound : Nat) :
    Prop :=
  ∃ chains, StringsPrivate file schema chains ∧
    ∀ id offset, LiveAt schema id offset → bound ≤ offset ∧
      ∀ position, schema.types[position]? = some STRING →
        ∀ place ∈ (chains id position).map Prod.fst, bound ≤ place

theorem StoreAt.recordsBehind {img : Image} {nodes : List NodeImage}
    {file : List UInt8} (store : StoreAt img nodes file) :
    RecordsBehind file img.schema (metaSize +
      (templateBytes img.schema.nodesTemplate).length +
        8 * reservedEntries img.templateSize img.curId) := by
  have boundEq : metaSize + (templateBytes img.schema.nodesTemplate).length +
      8 * reservedEntries img.templateSize img.curId =
        img.slotOffset img.reserved := by
    rw [reservedEntries_eq_idRecords, Image.slotOffset, Image.recordSize_eq,
      Nat.mul_assoc]
  have behind {id slot : Nat} {node : NodeImage}
      (found : nodes[id]? = some node) (member : slot ∈ node.slots) :
      img.slotOffset img.reserved ≤ img.slotOffset slot := by
    apply img.slotOffset_mono
    exact ((store.layout.covers slot).mp (List.mem_flatMap.mpr
      ⟨node, List.mem_of_getElem? found, member⟩)).1
  rw [boundEq]
  apply Exists.intro (chainsOf img nodes)
  apply And.intro store.stringsPrivate
  intro id offset live
  constructor
  · obtain ⟨node, found, rfl⟩ := store.node_of_live live
    exact behind found (by simp [NodeImage.slots])
  · intro position string place member
    obtain ⟨node, chain, found, rfl, field⟩ := store.owned_chain live string
    rw [chainsOf_eq found field, addressed_slots] at member
    obtain ⟨slot, inside, rfl⟩ := List.mem_map.mp member
    exact behind found (List.mem_append_left _
      (NodeImage.chain_slots_subset (List.mem_of_getElem? field) inside))

/-- Disk space for the id array is reserved before it is needed, in whole
records; and in every store that additions lead to, all records of live nodes
lie behind the reserved space. -/
theorem idArray_reserved :
    (∀ templateSize curId, ∃ u, ReservedInTime templateSize curId u) ∧
    ∀ specs file, Reached specs AddsFit file → ∃ schema,
      SchemaAt file schema ∧ RecordsBehind file schema (metaSize +
        (templateBytes schema.nodesTemplate).length +
          8 * reservedEntries schema.treeMeta.templateSize
            schema.treeMeta.curId) := by
  constructor
  · intro templateSize curId
    exact ⟨idUnit templateSize, reservedInTime templateSize curId⟩
  · intro specs file reached
    obtain ⟨img, nodes, store, -⟩ := healthy_of_adds reached
    exact ⟨img.schema, store.schemaAt, store.recordsBehind⟩

/-- With its thirty-fourth node a store has room for the next thirty-four. -/
theorem idArray_reserved_letter :
    (∃ u, ReservedInTime 1 33 u) ∧ ∃ file schema,
      schema.treeMeta.curId = 34 ∧ (∃ offset, LiveAt schema 33 offset) ∧
      SchemaAt file schema ∧ RecordsBehind file schema (metaSize +
        (templateBytes schema.nodesTemplate).length +
          8 * reservedEntries schema.treeMeta.templateSize
            schema.treeMeta.curId) := by
  refine ⟨idArray_reserved.1 1 33, ?_⟩
  obtain ⟨img, nodes, file, copies, -, fits⟩ := exists_letters
  obtain ⟨status, final, runs, -, node, target, root, top, recs, -, -, store⟩ :=
    @StoreAt.add _ _ (blankWorld file) [⟨0, [65, 0]⟩] 0 copies.store fits
  have counter := congrArg Nat.succ copies.count_eq
  obtain ⟨last, found⟩ : ∃ last, (addedNodes img target nodes node)[33]? =
      some last :=
    ⟨_, List.getElem?_eq_getElem (store.count.trans counter ▸ (by decide))⟩
  have reached : Reached [singleSpec STRING string_lt] AddsFit final.file :=
    .next (.add [⟨0, [65, 0]⟩] 0) copies.reached
      ⟨_, copies.store.schemaAt, fits⟩
      ⟨blankWorld file, file.length, status, final, rfl, le_rfl, runs, rfl⟩
  obtain ⟨schema, stored, behind⟩ := idArray_reserved.2 _ _ reached
  obtain rfl := stored.unique store.schemaAt
  exact ⟨final.file, _, counter, ⟨_, store.liveAt found⟩, stored, behind⟩

end TreeStore
