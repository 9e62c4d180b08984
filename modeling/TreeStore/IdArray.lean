import TreeStore.Growth

/-!
# Registering a new id

`appendToIdArray` stores the offset of a new tuple under the next id.  Each
time the id array has used up its last record, the first data record is moved
away first.
-/

namespace TreeStore

open ByteFile ProgramLogic LinkedRecords

section Capacity

variable (size curId : Nat)

theorem idRecords_succ :
    idRecords size (curId + 1) = curId / idUnit size + 1 := by
  have positive : 0 < idUnit size := by
    have := idUnit_ge size
    omega
  have shift : curId + 1 + idUnit size - 1 = curId + idUnit size := by omega
  rw [idRecords, shift, Nat.add_div_right _ positive]
  exact Nat.max_eq_right (Nat.succ_le_succ (Nat.zero_le _))

theorem idRecords_le_succ :
    idRecords size curId ≤ idRecords size (curId + 1) := by
  cases curId with
  | zero =>
      have positive := idUnit_ge size
      have : idRecords size 0 = 1 := by
        rw [idRecords, Nat.zero_add, Nat.div_eq_of_lt (by omega)]
        rfl
      rw [this]
      exact idRecords_pos _ _
  | succ curId =>
      rw [idRecords_succ, idRecords_succ]
      exact Nat.succ_le_succ (Nat.div_le_div_right (Nat.le_succ _))

/-- The id array grows when the next counter fills it exactly. -/
theorem grows_iff :
    (curId + 1) % getIdArraySize size curId = 0 ↔
      idUnit size ∣ curId + 1 := by
  rw [getIdArraySize_eq, ← Nat.dvd_iff_mod_eq_zero]
  constructor
  · exact fun whole => (Nat.dvd_mul_right _ _).trans whole
  · rintro ⟨count, filled⟩
    have large := idUnit_ge size
    cases count with
    | zero => omega
    | succ count =>
        cases curId with
        | zero =>
            rw [Nat.mul_succ] at filled
            omega
        | succ curId =>
            have quotient : curId / idUnit size = count := by
              rw [Nat.div_eq_iff (by omega)]
              rw [Nat.mul_succ] at filled
              have := Nat.mul_comm count (idUnit size)
              omega
            rw [idRecords_succ, quotient, filled]

theorem pos_of_grows (grows : idUnit size ∣ curId + 1) : 0 < curId := by
  have large := idUnit_ge size
  have := Nat.le_of_dvd (Nat.succ_pos _) grows
  omega

theorem idRecords_of_grows (grows : idUnit size ∣ curId + 1) :
    idRecords size curId = idRecords size (curId + 1) ∧
      idRecords size (curId + 2) = idRecords size (curId + 1) + 1 := by
  have large := idUnit_ge size
  constructor
  · cases curId with
    | zero =>
        have := Nat.le_of_dvd (by omega) grows
        omega
    | succ curId =>
        have notBefore : ¬ idUnit size ∣ curId + 1 := by
          intro before
          have := (Nat.dvd_add_right before).mp grows
          have := Nat.le_of_dvd (by omega) this
          omega
        rw [idRecords_succ, idRecords_succ, Nat.succ_div_of_not_dvd notBefore]
  · rw [idRecords_succ, idRecords_succ, Nat.succ_div_of_dvd grows]

theorem idRecords_of_not_grows (fits : ¬ idUnit size ∣ curId + 1) :
    idRecords size (curId + 2) = idRecords size (curId + 1) := by
  rw [idRecords_succ, idRecords_succ, Nat.succ_div_of_not_dvd fits]

end Capacity

theorem storeEntry_length {root : List Nat} {position : Nat} (entry : Nat)
    (inside : position ≤ root.length) :
    position < (storeEntry root position entry).length := by
  simp only [storeEntry, List.length_append, List.length_take,
    List.length_cons]
  omega

theorem storeEntry_self {root : List Nat} {position : Nat} (entry : Nat)
    (inside : position ≤ root.length) :
    (storeEntry root position entry)[position]? = some entry := by
  have length : (root.take position).length = position := by
    rw [List.length_take]
    omega
  rw [storeEntry, List.getElem?_append_right length.le, length, Nat.sub_self]
  rfl

theorem storeEntry_of_lt {root : List Nat} {position other : Nat} (entry : Nat)
    (before : other < position) (inside : position ≤ root.length) :
    (storeEntry root position entry)[other]? = root[other]? := by
  rw [storeEntry, List.getElem?_append_left
    (by rw [List.length_take]; omega), List.getElem?_take_of_lt before]

theorem storeEntry_of_mem {root : List Nat} {position : Nat} (entry : Nat)
    (inside : position < root.length) :
    storeEntry root position entry = root.set position entry := by
  rw [storeEntry, List.set_eq_take_append_cons_drop, if_pos inside]

/-- The schema after one more id. -/
def TreeSchema.counted (schema : TreeSchema) (root : List Nat) : TreeSchema :=
  { schema with
    root := root
    treeMeta := { schema.treeMeta with curId := schema.treeMeta.curId + 1 } }

section Program

variable {img : Image} {world : World} {nodes : List NodeImage}
  {node : NodeImage}

/-- The last step of `appendToIdArray`: the new tuple is registered, and the
store is healthy with one more node. -/
theorem Layout.wp_storeEntry {post : Nat → World → Prop}
    (holds : img.Holds world.file)
    (layout : Layout img.slotOffset img.recs img.types
      (idRecords img.templateSize (img.curId + 2)) img.top nodes)
    (count : nodes.length = img.curId + 1)
    (registered : Registered img.schema.root img.slotOffset img.curId nodes)
    (found : nodes[img.curId]? = some node)
    (fresh : FreshFrom img (img.curId + 1))
    (next : ∀ root recs file pos blocks,
      StoreAt ⟨img.schema.counted root, img.top, recs⟩ nodes file →
      post img.curId
        { world with file := file, pos := pos, blocks := blocks }) :
    wp (do
      fseekSet 0
      let _ ← writeTreeSchema (img.schema.counted
        (storeEntry img.schema.root img.curId (img.slotOffset node.slot)))
      return img.curId) post world := by
  have ownSlot : node.slot ∈ node.slots := by simp [NodeImage.slots]
  have bounds := layout.slot_lt (List.mem_of_getElem? found) ownSlot
  have capacityLe : idRecords img.templateSize (img.curId + 1) ≤
      idRecords img.templateSize (img.curId + 2) := idRecords_le_succ _ _
  have rootLength : img.schema.root.length =
      getIdArraySize img.templateSize img.curId := holds.valid.root_length
  have inside : img.curId ≤ img.schema.root.length := by
    rw [rootLength]
    exact curId_le_getIdArraySize _ _
  have small : img.curId + 1 < 2 ^ 64 := by
    have fits := curId_le_getIdArraySize img.templateSize (img.curId + 1)
    rw [getIdArraySize_eq] at fits
    have below := img.slotOffset_mono (bounds.1.trans bounds.2.le)
    have := holds.length_eq
    have := holds.small
    have scaled := Nat.mul_le_mul_left (8 * idUnit img.templateSize) capacityLe
    rw [Image.slotOffset, img.recordSize_eq] at below
    rw [Nat.mul_assoc] at scaled
    omega
  let kept : Nat → Option KeyNode := fun slot =>
    if idRecords img.templateSize (img.curId + 2) ≤ slot then img.recs slot
    else none
  have restricted : Image.Holds { img with recs := kept } world.file := by
    refine holds.restrict fun slot record known => ?_
    simp only [kept] at known
    split_ifs at known
    exact known
  rw [wp_bind, wp_fseekSet, if_pos le_rfl, wp_bind]
  refine Image.Holds.wp_writeTreeSchema restricted rfl rfl ?_ ?_
    (by exact capacityLe.trans (bounds.1.trans bounds.2.le)) ?_ ?_
  · exact ⟨holds.valid.treeMeta.ASCIISign, holds.valid.treeMeta.rootOffset,
      holds.valid.treeMeta.firstSeq, holds.valid.treeMeta.secondSeq, small,
      holds.valid.treeMeta.templateSize⟩
  · intro entry member
    simp only [TreeSchema.counted, storeEntry, List.mem_append,
      List.mem_cons] at member
    have offsetSmall := holds.slotOffset_small bounds.2.le
    rcases member with old | rfl | old
    · exact holds.valid.root entry (List.mem_of_mem_take old)
    · omega
    · exact holds.valid.root entry (List.mem_of_mem_drop old)
  · intro slot record known
    simp only [kept] at known
    split_ifs at known with behind
    exact capacityLe.trans behind
  · intro entries file pos blocks sized agree written
    rw [wp_pure]
    have arrayLarge := curId_le_getIdArraySize img.templateSize
      (img.curId + 1)
    have long := storeEntry_length (img.slotOffset node.slot) inside
    have sameEntry (id : Nat) (known : id < (storeEntry img.schema.root
        img.curId (img.slotOffset node.slot)).length)
        (loaded : id < getIdArraySize img.templateSize (img.curId + 1)) :
        entries[id]? = (storeEntry img.schema.root img.curId
          (img.slotOffset node.slot))[id]? := by
      have both : (entries.take (storeEntry img.schema.root img.curId
          (img.slotOffset node.slot)).length)[id]? =
            ((storeEntry img.schema.root img.curId
              (img.slotOffset node.slot)).take
                (getIdArraySize img.templateSize (img.curId + 1)))[id]? :=
        congrArg (fun list : List Nat => list[id]?) agree
      rwa [List.getElem?_take_of_lt known,
        List.getElem?_take_of_lt loaded] at both
    refine next entries kept file pos blocks ⟨written, ⟨?_, layout.nodup, ?_⟩,
      count, ?_, ?_⟩
    · intro id node' found'
      refine (layout.nodeAt id node' found').frame fun slot member => ?_
      exact if_pos (layout.slot_lt (List.mem_of_getElem? found') member).1
    · exact layout.covers
    · intro id node' found'
      have idSmall : id < img.curId + 1 := by
        rw [← count]
        exact (List.getElem?_eq_some_iff.mp found').1
      change entries[id]? = some (img.slotOffset node'.slot)
      rw [sameEntry id (by omega) (by omega)]
      by_cases new : id = img.curId
      · subst new
        rw [found] at found'
        cases found'
        exact storeEntry_self _ inside
      · rw [storeEntry_of_lt _ (by omega) inside]
        exact registered id node' (by omega) found'
    · intro id above below
      change img.curId + 1 ≤ id at above
      change entries[id]? = some 0
      have zero := fresh id above below
      have known := (List.getElem?_eq_some_iff.mp zero).1
      have unit : idUnit img.templateSize ≤
          getIdArraySize img.templateSize (img.curId + 1) := by
        rw [getIdArraySize_eq]
        exact Nat.le_mul_of_pos_right _ (idRecords_pos _ _)
      have whole : storeEntry img.schema.root img.curId
          (img.slotOffset node.slot) =
            img.schema.root.set img.curId (img.slotOffset node.slot) :=
        storeEntry_of_mem _ (by omega)
      rw [whole, List.length_set] at sameEntry
      rw [sameEntry id known (Nat.lt_of_lt_of_le below unit),
        List.getElem?_set_ne (by omega)]
      exact zero

/-- The nodes of a store after one more addition: growth has moved one
record. -/
def grownNodes (img : Image) (nodes : List NodeImage) : List NodeImage :=
  if idUnit img.templateSize ∣ img.curId + 1 then
    nodes.map (NodeImage.relocate img.realSize img.reserved img.top)
  else nodes

/-- What growth needs, when the next addition makes the id array grow: the
record that stands in its way can be moved, and there is room for it. -/
structure Growable (img : Image) (file : List UInt8) : Prop where
  movable : ∀ record, img.recs img.reserved = some record →
    Movable img.schema (img.slotOffset img.reserved) record
  room : file.length + img.recordSize < 2 ^ 63

/-- `appendToIdArray` registers the tuple that was appended last. -/
theorem Layout.wp_appendToIdArray {offset : Nat} {post : Nat → World → Prop}
    (holds : img.Holds world.file)
    (layout : Layout img.slotOffset img.recs img.types img.reserved img.top
      nodes)
    (count : nodes.length = img.curId + 1)
    (registered : Registered img.schema.root img.slotOffset img.curId nodes)
    (found : nodes[img.curId]? = some node)
    (offsetEq : offset = img.slotOffset node.slot)
    (notMoved : 0 < img.curId → img.reserved ∉ node.slots)
    (fresh : FreshFrom img img.curId)
    (growable : idUnit img.templateSize ∣ img.curId + 1 →
      Growable img world.file)
    (next : ∀ root top recs file pos blocks,
      StoreAt ⟨img.schema.counted root, top, recs⟩ (grownNodes img nodes)
        file →
      post img.curId
        { world with file := file, pos := pos, blocks := blocks }) :
    wp (appendToIdArray offset) post world := by
  subst offsetEq
  rw [appendToIdArray, wp_bind]
  refine holds.wp_readTreeSchema fun blocks => ?_
  rw [wp_bind, wp_ftell]
  dsimp only
  by_cases grows : idUnit img.templateSize ∣ img.curId + 1
  · rw [if_pos ((grows_iff _ _).mpr grows)]
    obtain ⟨movable, room⟩ := growable grows
    obtain ⟨capacityEq, reservedEq⟩ := idRecords_of_grows _ _ grows
    have positive := pos_of_grows _ _ grows
    have ownSlot : node.slot ∈ node.slots := by simp [NodeImage.slots]
    have bounds := layout.slot_lt (List.mem_of_getElem? found) ownSlot
    let grown := img.push (zeroRecord img.realSize)
    have extended : grown.Holds
        (resize world.file (world.file.length + img.recordSize)) :=
      holds.extend room
    have old (slot : Nat) (small : slot < img.top) :
        grown.recs slot = img.recs slot :=
      Function.update_of_ne small.ne _ _
    have framed : Layout grown.slotOffset grown.recs grown.types img.reserved
        img.top nodes := by
      refine ⟨fun id node found => (layout.nodeAt id node found).frame ?_,
        layout.nodup, layout.covers⟩
      exact fun slot member =>
        old slot (layout.slot_lt (List.mem_of_getElem? found) member).2
    have rootShort : grown.schema.root.length ≤
        grown.slotOffset img.reserved := holds.root_length_le capacityEq.le
    rw [wp_bind, wp_fseekEnd, wp_bind, wp_ftell, wp_bind, wp_ftruncate,
      wp_bind]
    have sizeEq : world.file.length + getRealNodeSize
        img.schema.treeMeta.templateSize + nodeHeadSize =
          world.file.length + img.recordSize := Nat.add_assoc _ _ _
    have endEq : world.file.length = grown.slotOffset img.top :=
      holds.length_eq
    have sourceEq : img.slotOffset img.capacity =
        grown.slotOffset img.reserved := congrArg img.slotOffset capacityEq
    rw [sizeEq, sourceEq]
    conv =>
      enter [1, 1]
      rw [endEq]
    refine Layout.wp_swapNode extended framed (bounds.1.trans_lt bounds.2)
      (Function.update_self _ _ _) registered rootShort ?_ ?_ ?_
    · intro id node' found' owner
      have small : id < nodes.length := (List.getElem?_eq_some_iff.mp found').1
      have notNew : id ≠ img.curId := by
        rintro rfl
        rw [found] at found'
        cases found'
        exact notMoved positive owner
      change id < img.curId
      omega
    · intro record known
      exact movable record
        ((old _ (bounds.1.trans_lt bounds.2)).symm.trans known)
    · intro root recs file pos blocks written relocated registered'
      have nodesEq : grownNodes img nodes = nodes.map
          (NodeImage.relocate img.realSize img.reserved img.top) :=
        if_pos grows
      rw [nodesEq] at next
      let after : Image :=
        { schema := { img.schema with root := root }
          top := img.top + 1
          recs := recs }
      have sameNode : node.relocate img.realSize img.reserved img.top = node :=
        NodeImage.relocate_of_notMem (notMoved positive)
      have found' : (nodes.map (NodeImage.relocate img.realSize img.reserved
          img.top))[after.curId]? = some node := by
        rw [List.getElem?_map]
        exact (congrArg _ found).trans (congrArg some sameNode)
      have count' : (nodes.map (NodeImage.relocate img.realSize img.reserved
          img.top)).length = after.curId + 1 := by
        rw [List.length_map]
        exact count
      have layout' : Layout after.slotOffset after.recs after.types
          (idRecords after.templateSize (after.curId + 2)) after.top
            (nodes.map (NodeImage.relocate img.realSize img.reserved
              img.top)) := by
        have bound : idRecords after.templateSize (after.curId + 2) =
            img.reserved + 1 := reservedEq
        rw [bound]
        exact relocated
      have holds' : after.Holds file := written
      rw [wp_bind]
      refine Image.Holds.wp_readTreeSchema written fun blocks => ?_
      dsimp only
      rw [wp_bind, wp_pure]
      have fresh' : FreshFrom after (after.curId + 1) :=
        fun id above below => absurd (Nat.le_of_dvd (Nat.succ_pos _) grows)
          (Nat.not_le.mpr (Nat.lt_of_le_of_lt above below))
      refine @Layout.wp_storeEntry after _ _ node post (by exact holds')
        layout' count' registered' found' fresh' ?_
      intro root' recs' file' pos' blocks' store
      exact next root' (img.top + 1) recs' file' pos' blocks' store
  · rw [if_neg (mt (grows_iff _ _).mp grows), wp_bind, wp_pure]
    have nodesEq : grownNodes img nodes = nodes := if_neg grows
    rw [nodesEq] at next
    have fits := idRecords_of_not_grows _ _ grows
    refine Layout.wp_storeEntry holds ?_ count registered found ?_ ?_
    · rw [fits]
      exact layout
    · exact fun id above below => fresh id (Nat.le_of_succ_le above) below
    · intro root recs file pos blocks store
      exact next root img.top recs file pos blocks store

end Program

end TreeStore
