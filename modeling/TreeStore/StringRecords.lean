import TreeStore.Records
import TreeStore.Library.LinkedRecords
import Mathlib.Data.List.TakeWhile

/-!
# Strings as chains of records

A string of the store is a chain of records.  This file says which records
`insertNodeStr` appends for a string, and that the readers of `dataFile.c`
follow such a chain to its end and assemble its characters.
-/

namespace TreeStore

open ByteFile ProgramLogic LinkedRecords

/-- A string record with its two links. -/
def stringRecord (before after : Nat) (data : List UInt8) : KeyNode :=
  ⟨⟨before, after⟩, data⟩

theorem stringRecord_inj {before after before' after' : Nat}
    {data data' : List UInt8}
    (same : stringRecord before after data =
      stringRecord before' after' data') :
    before = before' ∧ after = after' ∧ data = data' := by
  simp only [stringRecord, KeyNode.mk.injEq, NodeHeader.mk.injEq] at same
  exact ⟨same.1.1, same.1.2, same.2⟩

/-- The block that `readStringFromNode` assembles from the data of the records
of a chain. -/
def assemble (realSize : Nat) (chain : List (Nat × List UInt8)) : List UInt8 :=
  chain.flatMap fun entry => strncpy entry.2 realSize

/-- The data of consecutive records hold the characters `text`, as far as a
reader of the records can tell. -/
structure Spells (realSize : Nat) (text : List UInt8)
    (payloads : List (List UInt8)) : Prop where
  count : payloads.length = recordCount text.length realSize
  sized : ∀ payload ∈ payloads, payload.length = realSize
  characters : ∀ index payload, payloads[index]? = some payload →
    strncpy payload realSize = strncpy (text.drop (realSize * index)) realSize

section Characters

variable {realSize : Nat} {text : List UInt8}

theorem zero_notMem_textOf (string : List UInt8) : 0 ∉ textOf string := by
  intro member
  have := List.mem_takeWhile_imp member
  simp at this

theorem textOf_eq_self (plain : 0 ∉ text) : textOf text = text := by
  rw [textOf, List.takeWhile_eq_self_iff]
  intro char member
  simpa using ne_of_mem_of_not_mem member plain

theorem textOf_append_zero (plain : 0 ∉ text) (behind : List UInt8) :
    textOf (text ++ 0 :: behind) = text := by
  rw [textOf, List.takeWhile_append, if_pos]
  · simp
  · exact congrArg List.length (textOf_eq_self plain)

theorem cString_append_zero (plain : 0 ∉ text) (behind : List UInt8) :
    cString (text ++ 0 :: behind) = some text := by
  rw [cString, if_pos (by simp), textOf_append_zero plain]

/-- A terminated string is its text, the terminator, and the memory behind. -/
theorem exists_terminator {string : CharPtr} (terminated : 0 ∈ string) :
    ∃ behind, string = textOf string ++ 0 :: behind := by
  induction string with
  | nil => simp at terminated
  | cons char string ih =>
      by_cases ends : char = 0
      · exact ⟨string, by simp [textOf, ends]⟩
      · have later : 0 ∈ string := by
          simpa [Ne.symm ends] using terminated
        obtain ⟨behind, split⟩ := ih later
        refine ⟨behind, ?_⟩
        have first : textOf (char :: string) = char :: textOf string := by
          simp [textOf, ends]
        rw [first, List.cons_append, ← split]

theorem drop_terminated {string : CharPtr} (terminated : 0 ∈ string)
    {skipped : Nat} (inside : skipped ≤ (textOf string).length) :
    0 ∈ string.drop skipped ∧
      textOf (string.drop skipped) = (textOf string).drop skipped := by
  obtain ⟨behind, split⟩ := exists_terminator terminated
  have rest : string.drop skipped =
      (textOf string).drop skipped ++ 0 :: behind := by
    conv_lhs => rw [split]
    exact List.drop_append_of_le_length inside
  rw [rest]
  refine ⟨by simp, textOf_append_zero ?_ _⟩
  exact fun member => zero_notMem_textOf string (List.mem_of_mem_drop member)

theorem textOf_take (string : List UInt8) (size : Nat) :
    textOf (string.take size) = (textOf string).take size :=
  List.take_takeWhile.symm

theorem strncpy_eq (string : List UInt8) (size : Nat) :
    strncpy string size = (textOf string).take size ++
      List.replicate (size - (textOf string).length) 0 := by
  simp only [strncpy, textOf_take, List.length_take]
  congr 2
  omega

/-- What a field copy keeps of a buffer is decided by the bytes up to the first
terminator. -/
theorem strncpy_congr {string other : List UInt8} {known size : Nat}
    (agree : string.take known = other.take known)
    (decided : size ≤ known ∨ 0 ∈ other.take known) :
    strncpy string size = strncpy other size := by
  rcases decided with whole | terminated
  · have same : string.take size = other.take size := by
      rw [← Nat.min_eq_left whole, ← List.take_take, agree, List.take_take]
    simp only [strncpy, same]
  · have stops (source : List UInt8) (inside : 0 ∈ source.take known) :
        textOf source = textOf (source.take known) := by
      obtain ⟨behind, split⟩ := exists_terminator inside
      have whole : source = textOf (source.take known) ++
          0 :: (behind ++ source.drop known) := by
        conv_lhs => rw [← List.take_append_drop known source, split]
        simp
      conv_lhs => rw [whole]
      exact textOf_append_zero (zero_notMem_textOf _) _
    rw [strncpy_eq, strncpy_eq, stops other terminated,
      stops string (agree ▸ terminated), agree]

theorem lt_recordCount_iff {length index : Nat} (positive : 0 < realSize) :
    index < recordCount length realSize ↔ realSize * index < length := by
  have split := Nat.div_add_mod length realSize
  have bound := Nat.mod_lt length positive
  simp only [recordCount]
  constructor
  · intro small
    by_cases remainder : length % realSize = 0
    · rw [if_neg (by omega), Nat.add_zero] at small
      have := Nat.mul_le_mul_left realSize (Nat.succ_le_of_lt small)
      rw [Nat.mul_succ] at this
      omega
    · rw [if_pos remainder] at small
      have := Nat.mul_le_mul_left realSize (Nat.le_of_lt_succ small)
      omega
  · intro small
    by_contra large
    have := Nat.mul_le_mul_left realSize (Nat.le_of_not_lt large)
    rw [Nat.mul_add] at this
    by_cases remainder : length % realSize = 0
    · rw [if_neg (by omega)] at this
      omega
    · rw [if_pos remainder] at this
      omega

/-- A record's data, written from the string's memory, hold its share of the
text. -/
theorem strncpy_chunk {string : CharPtr} (terminated : 0 ∈ string)
    {skipped : Nat} (inside : skipped ≤ (textOf string).length)
    {data : List UInt8}
    (agree : data.take (min realSize (string.drop skipped).length) =
      (string.drop skipped).take realSize) :
    strncpy data realSize =
      strncpy ((textOf string).drop skipped) realSize := by
  obtain ⟨ended, textEq⟩ := drop_terminated terminated inside
  have known : data.take (min realSize (string.drop skipped).length) =
      (string.drop skipped).take
        (min realSize (string.drop skipped).length) := by
    rw [agree, ← List.take_take, List.take_length]
  have copied : strncpy data realSize =
      strncpy (string.drop skipped) realSize := by
    refine strncpy_congr known ?_
    by_cases long : realSize ≤ (string.drop skipped).length
    · left
      omega
    · right
      rw [Nat.min_eq_right (by omega), List.take_length]
      exact ended
  have plain : textOf ((textOf string).drop skipped) =
      (textOf string).drop skipped :=
    textOf_eq_self fun member =>
      zero_notMem_textOf string (List.mem_of_mem_drop member)
  rw [copied, strncpy_eq, strncpy_eq, plain, textEq]

end Characters

namespace Image

variable (img : Image)

/-- Further slots behind the last one, holding `nodes`. -/
def append (nodes : List KeyNode) : Image :=
  { img with
    top := img.top + nodes.length
    recs := fun slot =>
      if slot < img.top then img.recs slot else nodes[slot - img.top]? }

@[simp]
theorem append_slotOffset (nodes : List KeyNode) :
    (img.append nodes).slotOffset = img.slotOffset := rfl

theorem append_recs (nodes : List KeyNode) (slot : Nat) :
    (img.append nodes).recs slot =
      if slot < img.top then img.recs slot else nodes[slot - img.top]? := rfl

theorem append_top (nodes : List KeyNode) :
    (img.append nodes).top = img.top + nodes.length := rfl

theorem append_push (nodes : List KeyNode) (node : KeyNode) :
    (img.append nodes).push node = img.append (nodes ++ [node]) := by
  have recsEq : ((img.append nodes).push node).recs =
      (img.append (nodes ++ [node])).recs := by
    funext slot
    simp only [push, append, Function.update_apply]
    by_cases early : slot < img.top
    · rw [if_neg (by omega), if_pos early, if_pos early]
    · rw [if_neg early, if_neg early]
      by_cases last : slot = img.top + nodes.length
      · rw [if_pos last, last, Nat.add_sub_cancel_left]
        simp
      · rw [if_neg last]
        by_cases middle : slot - img.top < nodes.length
        · rw [List.getElem?_append_left middle]
        · rw [List.getElem?_eq_none (by omega),
            List.getElem?_eq_none (by simp; omega)]
  have topEq : ((img.append nodes).push node).top =
      (img.append (nodes ++ [node])).top := by
    simp [push, append, add_assoc]
  exact congrArg₂ (Image.mk img.schema) topEq recsEq

theorem append_append (nodes others : List KeyNode) :
    (img.append nodes).append others = img.append (nodes ++ others) := by
  induction others using List.reverseRecOn with
  | nil =>
      rw [List.append_nil]
      have recsEq : ((img.append nodes).append []).recs =
          (img.append nodes).recs := by
        funext slot
        rw [append_recs]
        by_cases early : slot < (img.append nodes).top
        · rw [if_pos early]
        · rw [if_neg early, append_recs]
          rw [append_top] at early
          rw [if_neg (by omega), List.getElem?_nil,
            List.getElem?_eq_none (by omega)]
      exact congrArg (Image.mk img.schema _) recsEq
  | append_singleton others node ih =>
      rw [← append_push, ih, append_push, List.append_assoc]

theorem append_recs_of_lt {slot : Nat} (old : slot < img.top)
    (nodes : List KeyNode) : (img.append nodes).recs slot = img.recs slot :=
  if_pos old

theorem append_recs_add (nodes : List KeyNode) (index : Nat) :
    (img.append nodes).recs (img.top + index) = nodes[index]? := by
  simp [append]

/-- The records that a string becomes, from the position `pos` at which the
stream stood. -/
def stringRecords (pos : Nat) (payloads : List (List UInt8)) :
    List KeyNode :=
  payloads.mapIdx fun index data =>
    ⟨strHeader pos img.realSize payloads.length index, data⟩

@[simp]
theorem stringRecords_length (pos : Nat) (payloads : List (List UInt8)) :
    (img.stringRecords pos payloads).length = payloads.length := by
  simp [stringRecords]

variable {img} {file : List UInt8}

/-- The appended records form a chain when the stream stood at the end of the
file, or when there is only one. -/
theorem chain_stringRecords {pos : Nat} {payloads : List (List UInt8)}
    {recs : Nat → Option KeyNode}
    (records : ∀ index < payloads.length, recs (img.top + index) =
      (img.stringRecords pos payloads)[index]?)
    (stands : payloads.length ≤ 1 ∨ pos = img.slotOffset img.top) :
    Chain stringRecord img.slotOffset recs 0
      (consecutive img.top payloads) := by
  refine chain_consecutive _ _ fun index inside => ?_
  rw [records index inside, stringRecords, List.getElem?_mapIdx,
    List.getElem?_eq_getElem inside, Option.map_some]
  refine congrArg some ?_
  have offsets (shift : Nat) (several : 1 < payloads.length) :
      pos + (img.realSize + nodeHeadSize) * shift =
        img.slotOffset (img.top + shift) := by
    rw [stands.resolve_left (by omega), slotOffset, slotOffset, Nat.mul_add]
    simp only [recordSize]
    omega
  simp only [stringRecord, strHeader, KeyNode.mk.injEq, NodeHeader.mk.injEq,
    and_true]
  constructor
  · by_cases first : index = 0
    · rw [if_pos first, if_pos first]
    · rw [if_neg first, if_neg first, offsets _ (by omega)]
      congr 1
      omega
  · by_cases last : index + 1 = payloads.length
    · rw [if_pos last, if_pos (by omega)]
    · rw [if_neg last, if_neg (by omega), offsets _ (by omega)]
      congr 1

theorem Holds.append_nil (holds : img.Holds file) :
    (img.append []).Holds file := by
  refine ⟨holds.valid, holds.schemaHere, holds.length_eq, holds.small,
    holds.capacity_le, ?_⟩
  intro slot node known
  simp only [append, List.getElem?_nil] at known
  split_ifs at known
  exact holds.record slot node known

/-- Appended records lengthen the file. -/
theorem Holds.append_length (holds : img.Holds file) {nodes : List KeyNode}
    {file' : List UInt8} (appended : (img.append nodes).Holds file') :
    file'.length = file.length + img.recordSize * nodes.length := by
  rw [appended.length_eq, holds.length_eq, append_slotOffset, append_top,
    slotOffset, slotOffset, Nat.mul_add]
  omega

/-- A chain with distinct slots has no more records than the file has slots. -/
theorem Holds.chain_length_le {chain : List (Nat × List UInt8)} {before : Nat}
    (holds : img.Holds file)
    (linked : Chain stringRecord img.slotOffset img.recs before chain)
    (distinct : (chain.map Prod.fst).Nodup) : chain.length ≤ img.top := by
  have bounded : chain.map Prod.fst ⊆ List.range img.top := by
    intro slot member
    obtain ⟨⟨_, data⟩, entry, rfl⟩ := List.mem_map.mp member
    obtain ⟨_, _, known, -⟩ := linked.exists_cell entry
    exact List.mem_range.mpr (holds.record _ _ known).2.1
  simpa using (List.subperm_of_subset distinct bounded).length_le

section Programs

variable {world : World}

/-- Appending a string: its records lie behind the last slot, and the stream
stands at the end of the file. -/
theorem Holds.wp_insertNodeStr {string : CharPtr} {size : Nat}
    {post : Nat → World → Prop} (holds : img.Holds world.file)
    (terminated : 0 ∈ string) (before : world.pos ≤ world.file.length)
    (room : world.file.length + img.recordSize *
      recordCount (textOf string).length img.realSize < 2 ^ 63)
    (template : size = img.realSize) (next : ∀ payloads file blocks,
      Spells img.realSize (textOf string) payloads →
      (img.append (img.stringRecords world.pos payloads)).Holds file →
      post (img.slotOffset img.top)
        { world with file := file, pos := file.length, blocks := blocks }) :
    wp (insertNodeStr string size) post world := by
  subst template
  obtain ⟨count, countEq⟩ : ∃ count,
      count = recordCount (textOf string).length img.realSize := ⟨_, rfl⟩
  rw [← countEq] at room
  rw [insertNodeStr, wp_bind]
  refine wp_strlen terminated ?_
  rw [← countEq, wp_bind, wp_ftell, wp_bind, wp_fseekEnd, wp_bind, wp_ftell,
    wp_bind]
  -- after `index` rounds, the first `index` records stand behind the old ones
  refine wp_mono (wp_forM_range (fun index middle =>
    ∃ payloads : List (List UInt8), payloads.length = index ∧
      (∀ payload ∈ payloads, payload.length = img.realSize) ∧
      (∀ position payload, payloads[position]? = some payload →
        strncpy payload img.realSize =
          strncpy ((textOf string).drop (img.realSize * position))
            img.realSize) ∧
      (img.append (payloads.mapIdx fun position data =>
        ⟨strHeader world.pos img.realSize count position, data⟩)).Holds
          middle.file ∧
      middle.file.length = world.file.length + img.recordSize * index ∧
      middle.pos = middle.file.length ∧ middle.heap = world.heap) count ?_ ?_)
    ?_
  · refine ⟨[], rfl, by simp, by simp, ?_, rfl, rfl, rfl⟩
    exact holds.append_nil
  · rintro index small middle
      ⟨payloads, lengthEq, sized, spelled, kept, fileLength, atEnd, heapEq⟩
    have inside : img.realSize * index < (textOf string).length :=
      (lt_recordCount_iff img.realSize_pos).mp (countEq ▸ small)
    have used : img.recordSize * (index + 1) ≤ img.recordSize * count :=
      Nat.mul_le_mul_left _ small
    have unfolded : img.recordSize * (index + 1) =
        img.recordSize * index + img.recordSize := Nat.mul_succ _ _
    have headerFits :
        (strHeader world.pos img.realSize count index).parentNode < 2 ^ 64 ∧
        (strHeader world.pos img.realSize count index).allocNode <
          2 ^ 64 := by
      have earlier : img.recordSize * (index - 1) ≤ img.recordSize * count :=
        Nat.mul_le_mul_left _ (by omega)
      simp only [recordSize] at room used earlier
      simp only [strHeader]
      constructor <;> split <;> omega
    rw [wp_bind]
    have roomLeft : middle.file.length + img.recordSize < 2 ^ 63 := by omega
    refine kept.wp_insertNode rfl headerFits roomLeft ?_
    intro data file blocks dataSized agree pushed grown
    have longer : file.length = middle.file.length + img.recordSize := grown
    rw [wp_pure]
    refine ⟨payloads ++ [data], by simp [lengthEq], ?_, ?_, ?_, ?_, rfl,
      heapEq⟩
    · intro payload member
      rcases List.mem_append.mp member with old | new
      · exact sized payload old
      · rw [List.mem_singleton.mp new]
        exact dataSized
    · intro position payload found
      by_cases old : position < payloads.length
      · rw [List.getElem?_append_left old] at found
        exact spelled position payload found
      · rw [List.getElem?_append_right (by omega)] at found
        obtain ⟨rfl, rfl⟩ : position = index ∧ data = payload := by
          by_cases last : position - payloads.length = 0
          · rw [last] at found
            exact ⟨by omega, by simpa using found⟩
          · rw [List.getElem?_eq_none (by simp; omega)] at found
            exact absurd found (by simp)
        exact strncpy_chunk terminated inside.le agree
    · rw [append_push] at pushed
      rw [List.mapIdx_append]
      simpa [lengthEq] using pushed
    · rw [longer, fileLength]
      omega
  · rintro _ final
      ⟨payloads, lengthEq, sized, spelled, kept, fileLength, atEnd, heapEq⟩
    rw [wp_pure]
    have spells : Spells img.realSize (textOf string) payloads :=
      ⟨by rw [lengthEq, countEq], sized, spelled⟩
    have outcome := next payloads final.file final.blocks spells
      (by rw [stringRecords, lengthEq]; exact kept)
    obtain ⟨file, pos, heap, blocks⟩ := final
    simp only at atEnd heapEq outcome ⊢
    rw [holds.length_eq, atEnd, heapEq]
    exact outcome

variable {chain : List (Nat × List UInt8)} {previous : Nat}

theorem Holds.ofBytes_bytes {node : KeyNode} {slot : Nat}
    (holds : img.Holds file) (known : img.recs slot = some node) :
    NodeHeader.ofBytes node.header.bytes = node.header :=
  have fits := (holds.record slot node known).2.2.1
  NodeHeader.ofBytes_bytes fits.parentNode fits.allocNode

/-- The loop of `getStringLenght` counts the records behind the first one. -/
theorem Holds.wp_stringLenghtLoop {slot : Nat} {data : List UInt8}
    {rest : List (Nat × List UInt8)} {fuel lenght : Nat}
    {post : Nat → World → Prop} (holds : img.Holds world.file)
    (known : img.recs slot =
      some (stringRecord previous (link img.slotOffset rest) data))
    (leads : Leads stringRecord img.slotOffset img.recs 0 rest)
    (enough : rest.length < fuel)
    (next : ∀ pos, post (lenght + rest.length) { world with pos := pos }) :
    wp (stringLenghtLoop fuel
      (NodeHeader.bytes ⟨previous, link img.slotOffset rest⟩) lenght)
      post world := by
  induction rest generalizing world previous slot data fuel lenght with
  | nil =>
      obtain ⟨fuel, rfl⟩ := Nat.exists_eq_add_one_of_ne_zero
        (Nat.ne_of_gt enough)
      have decoded := holds.ofBytes_bytes known
      simp only [stringRecord, link] at decoded
      rw [stringLenghtLoop, link, decoded, if_pos rfl, wp_pure]
      exact next world.pos
  | cons entry rest ih =>
      obtain ⟨slot', data'⟩ := entry
      obtain ⟨fuel, rfl⟩ := Nat.exists_eq_add_one_of_ne_zero
        (Nat.ne_of_gt (Nat.zero_lt_of_lt enough))
      have decoded := holds.ofBytes_bytes known
      simp only [stringRecord, link] at decoded
      obtain ⟨⟨before, known'⟩, leads'⟩ := leads
      rw [linkTo_zero] at known'
      have inside := (holds.record _ _ known').2.1
      have continues : img.slotOffset slot' ≠ 0 := by
        have := @Image.slotOffset_pos img slot'
        omega
      rw [stringLenghtLoop, link, decoded, if_neg continues, wp_bind]
      refine holds.wp_seek inside.le rfl ?_
      rw [wp_bind]
      refine Holds.wp_readHeader (by exact holds) known' rfl (by simp)
        fun pos => ?_
      refine ih (by exact holds) known' leads'
        (by simp only [List.length_cons] at enough; omega) fun pos => ?_
      have shift : lenght + (rest.length + 1) = lenght + 1 + rest.length := by
        omega
      rw [← shift]
      exact next pos

theorem Holds.wp_getStringLenght {fuel : Nat} {post : Nat → World → Prop}
    (holds : img.Holds world.file)
    (leads : Leads stringRecord img.slotOffset img.recs 0 chain)
    (nonempty : chain ≠ []) (enough : chain.length ≤ fuel)
    (next : ∀ pos blocks, post chain.length
      { world with pos := pos, blocks := blocks }) :
    wp (getStringLenght fuel (link img.slotOffset chain)) post world := by
  obtain ⟨⟨slot, data⟩, rest, rfl⟩ := List.exists_cons_of_ne_nil nonempty
  obtain ⟨⟨before, known⟩, leads⟩ := leads
  rw [linkTo_zero] at known
  have inside := (holds.record _ _ known).2.1
  rw [getStringLenght, link, wp_bind]
  refine holds.wp_seek inside.le rfl ?_
  rw [wp_bind]
  refine wp_malloc fun block blocks sized => ?_
  rw [wp_bind]
  refine Holds.wp_readHeader (by exact holds) known rfl sized fun pos => ?_
  refine Holds.wp_stringLenghtLoop (by exact holds) known leads
    (Nat.lt_of_lt_of_le (Nat.lt_succ_self _) enough) fun pos => ?_
  rw [Nat.add_comm]
  exact next pos blocks

/-- Reading a string gives the characters of all its records in order. -/
theorem Holds.wp_readStringFromNode {fuel : Nat}
    {post : List UInt8 → World → Prop} (holds : img.Holds world.file)
    (leads : Leads stringRecord img.slotOffset img.recs 0 chain)
    (nonempty : chain ≠ []) (enough : chain.length ≤ fuel)
    (next : ∀ pos blocks, post (assemble img.realSize chain)
      { world with pos := pos, blocks := blocks }) :
    wp (readStringFromNode fuel img.templateSize (link img.slotOffset chain))
      post world := by
  rw [readStringFromNode, wp_bind]
  refine holds.wp_getStringLenght leads nonempty enough fun pos blocks => ?_
  rw [wp_bind]
  -- after `index` rounds, `offset` is the link to the records not read yet
  refine wp_mono (wp_foldlM_range (fun index acc middle =>
    Leads stringRecord img.slotOffset img.recs 0 (chain.drop index) ∧
    acc = (link img.slotOffset (chain.drop index),
      assemble img.realSize (chain.take index)) ∧
    ∃ pos blocks, middle = { world with pos := pos, blocks := blocks })
    chain.length ⟨leads, rfl, pos, blocks, rfl⟩ ?_) ?_
  · rintro index small _ _ ⟨rest, rfl, pos, blocks, rfl⟩
    obtain ⟨⟨slot, data⟩, entry⟩ : ∃ entry, chain[index] = entry := ⟨_, rfl⟩
    have split := List.drop_eq_getElem_cons small
    rw [entry] at split
    rw [split] at rest ⊢
    obtain ⟨⟨before, known⟩, rest⟩ := rest
    rw [linkTo_zero] at known
    have inside := (holds.record _ _ known).2.1
    rw [link, wp_bind]
    refine Holds.wp_seek (by exact holds) inside.le rfl ?_
    rw [wp_bind]
    refine Holds.wp_readNode_template (by exact holds) known rfl rfl ?_
    intro read status pos blocks started long
    have same : strncpy read img.realSize = strncpy data img.realSize := by
      have sized := (holds.record _ _ known).2.2.1.data_length
      rw [stringRecord] at sized started
      refine strncpy_congr ?_ (Or.inl le_rfl)
      rw [started, List.take_of_length_le (by rw [sized])]
    rw [wp_pure, same]
    refine ⟨rest, Prod.ext rfl ?_, pos, blocks, rfl⟩
    rw [List.take_add_one, List.getElem?_eq_getElem small, entry]
    simp [assemble]
  · rintro _ _ ⟨-, rfl, pos, blocks, rfl⟩
    rw [wp_pure, List.take_length]
    exact next pos blocks

end Programs

end Image

end TreeStore
