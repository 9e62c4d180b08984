import TreeStore.Chains
import TreeStore.Replacing

/-!
# When a string is replaced by all of another

The links of a chain are not cut behind the last record that is written, and
the counter of the loop only ends at zero for a string that fills its records.
This file decides for which strings reading gives back what was written.
-/

namespace TreeStore

open ByteFile ProgramLogic LinkedRecords

/-- After `changeStrNode`, reading the string from its first record gives exactly
the new one; and the remaining length never wraps. -/
structure ReplacesAll (img : Image) (chain : List (Nat × List UInt8))
    (string : CharPtr) (file : List UInt8) : Prop where
  reads : ∀ world fuel, world.file = file → file.length ≤ fuel →
    wp (changeStrNode fuel (link img.slotOffset chain) string img.realSize)
      (fun status final => status = .success ∧ ∀ fuel,
        final.file.length ≤ fuel → wp (readStringFromNode fuel img.templateSize
          (link img.slotOffset chain)) (fun block _ =>
            cString block = some (textOf string)) final) world
  counts : ∀ world fuel, world.file = file → file.length ≤ fuel →
    wp (changeStrLoopTraced img.realSize fuel (link img.slotOffset chain) string
      (textOf string).length) (fun result _ =>
        ∀ value ∈ result.2, img.realSize ≤ value) world

/-- The strings that replace all of a chain: one that fills some of its records
exactly, the next of which starts with a terminator; or one that is longer than
the chain, fills no number of records exactly, and needs one record more, unless
the chain ends the file. -/
def Replaceable (realSize top : Nat) (chain : List (Nat × List UInt8))
    (length : Nat) : Prop :=
  (realSize ∣ length ∧ 0 < length ∧ ∃ slot data,
    chain[length / realSize]? = some (slot, data) ∧ data.head? = some 0) ∨
  (realSize * chain.length < length ∧ ¬ realSize ∣ length ∧
    (length ≤ realSize * (chain.length + 1) ∨
      ∃ front slot data, chain = front ++ [(slot, data)] ∧ slot + 1 = top))

namespace Image

variable {img : Image} {file : List UInt8} {chain : List (Nat × List UInt8)}
  {before : Nat} {string : CharPtr}

theorem Holds.counts_iff (holds : img.Holds file)
    (linked : Chain stringRecord img.slotOffset img.recs before chain)
    (distinct : (chain.map Prod.fst).Nodup) (nonempty : chain ≠ [])
    (small : (textOf string).length < 2 ^ 64) :
    (∀ world fuel, world.file = file → file.length ≤ fuel →
      wp (changeStrLoopTraced img.realSize fuel (link img.slotOffset chain)
        string (textOf string).length) (fun result _ =>
          ∀ value ∈ result.2, img.realSize ≤ value) world) ↔
    img.realSize * chain.length ≤ (textOf string).length ∨
      (img.realSize ∣ (textOf string).length ∧ 0 < (textOf string).length) := by
  rw [← counterValues_ge_iff img.realSize_pos
    (List.length_pos_of_ne_nil nonempty) small]
  have short := (holds.chain_length_le linked distinct).trans
    holds.top_le_length
  constructor
  · intro counts
    have traced : wp (changeStrLoopTraced img.realSize file.length
        (link img.slotOffset chain) string (textOf string).length)
        (fun result _ => result.2 = counterValues img.realSize chain.length
          (textOf string).length) (blankWorld file) :=
      Holds.wp_changeStrLoopTraced (by exact holds) linked distinct rfl rfl
        nonempty short
    obtain ⟨_, _, -, stays, values⟩ :=
      wp_and (counts (blankWorld file) _ rfl le_rfl) traced
    rw [← values]
    exact stays
  · rintro stays world fuel rfl enough
    refine wp_mono (holds.wp_changeStrLoopTraced linked distinct rfl rfl
      nonempty (short.trans enough)) fun result final values => ?_
    rw [values]
    exact stays

/-- A string that fills some records exactly. -/
theorem Holds.reads_filled_iff {count : Nat} (holds : img.Holds file)
    (linked : Chain stringRecord img.slotOffset img.recs before chain)
    (distinct : (chain.map Prod.fst).Nodup) (terminated : 0 ∈ string)
    (filled : (textOf string).length = img.realSize * count)
    (positive : 0 < count) (fits : count ≤ chain.length)
    (small : (textOf string).length < 2 ^ 64) {world : World} {fuel : Nat}
    (same : world.file = file) (enough : file.length ≤ fuel) :
    wp (changeStrNode fuel (link img.slotOffset chain) string img.realSize)
      (fun status final => status = .success ∧ ∀ fuel,
        final.file.length ≤ fuel → wp (readStringFromNode fuel img.templateSize
          (link img.slotOffset chain)) (fun block _ =>
            cString block = some (textOf string)) final) world ↔
    ∃ slot data, chain[count]? = some (slot, data) ∧ data.head? = some 0 := by
  subst same
  have short := holds.chain_length_le linked distinct
  have bounded := short.trans holds.top_le_length
  have nonempty : chain ≠ [] := by
    rintro rfl
    exact absurd (lt_of_lt_of_le positive fits) (by simp)
  have sized (slot : Nat) (data : List UInt8)
      (found : chain[count]? = some (slot, data)) :
      data.length = img.realSize := by
    obtain ⟨_, _, known, -⟩ := linked.exists_cell (List.mem_of_getElem? found)
    exact (holds.record _ _ known).2.2.1.data_length
  -- after the call the chain delivers the text, and what its other records hold
  have block : assemble img.realSize
      (overwrite img.realSize count chain string) =
        textOf string ++ assemble img.realSize (chain.drop count) := by
    rw [assemble_overwrite terminated filled.ge fits, ← filled,
      List.take_length]
  have after : (cString (assemble img.realSize
      (overwrite img.realSize count chain string)) = some (textOf string) ↔
        ∃ slot data, chain[count]? = some (slot, data) ∧
          data.head? = some 0) := by
    rw [block, cString_append_iff (zero_notMem_textOf string)]
    cases found : chain[count]? with
    | none =>
        rw [List.drop_eq_nil_of_le (List.getElem?_eq_none_iff.mp found)]
        simp [assemble]
    | some entry =>
        obtain ⟨slot, data⟩ := entry
        obtain ⟨inside, here⟩ := List.getElem?_eq_some_iff.mp found
        have nonzero : strncpy data img.realSize ≠ [] := by
          intro empty
          have := congrArg List.length empty
          rw [strncpy_eq] at this
          simp only [List.length_append, List.length_take,
            List.length_replicate, List.length_nil] at this
          have := img.realSize_pos
          omega
        rw [List.drop_eq_getElem_cons inside, here, assemble,
          List.flatMap_cons, List.head?_append_of_ne_nil _ nonzero,
          head_strncpy img.realSize_pos (sized slot data found)]
        simp
  have reads (recs : Nat → Option KeyNode) (final : World)
      (written : Holds { img with recs := recs } final.file)
      (chained : Chain stringRecord img.slotOffset recs before
        (overwrite img.realSize count chain string)) :
      (∀ fuel, final.file.length ≤ fuel → wp (readStringFromNode fuel
        img.templateSize (link img.slotOffset chain)) (fun block _ =>
          cString block = some (textOf string)) final) ↔
      ∃ slot data, chain[count]? = some (slot, data) ∧
        data.head? = some 0 := by
    have first : link img.slotOffset
        (overwrite img.realSize count chain string) =
          link img.slotOffset chain := overwrite_link _
    rw [← after, ← first]
    exact @Holds.reads_iff { img with recs := recs } final _ _ written
      chained.leads (overwrite_ne_nil nonempty)
      (overwrite_length.le.trans short)
  have changed : wp (changeStrNode fuel (link img.slotOffset chain) string
      img.realSize) (fun status final => status = .success ∧ ∃ recs,
        Holds { img with recs := recs } final.file ∧
        Chain stringRecord img.slotOffset recs before
          (overwrite img.realSize count chain string)) world :=
    holds.wp_changeStrNode linked distinct rfl rfl terminated filled positive
      fits (fits.trans (bounded.trans enough)) (filled ▸ small)
      fun recs _ _ _ written _ chained => ⟨rfl, recs, written, chained⟩
  apply wp_iff_of changed
  rintro status final ⟨success, recs, written, chained⟩
  rw [and_iff_right success]
  exact reads recs final written chained

/-- A string that is longer than the chain, where the records for the rest of it
are linked one to the other. -/
theorem Holds.reads_grown_iff {front : List (Nat × List UInt8)} {slot : Nat}
    {data : List UInt8} (holds : img.Holds file)
    (linked : Chain stringRecord img.slotOffset img.recs before chain)
    (distinct : (chain.map Prod.fst).Nodup)
    (split : chain = front ++ [(slot, data)]) (terminated : 0 ∈ string)
    (long : img.realSize * chain.length < (textOf string).length)
    (orderly : (textOf string).length ≤ img.realSize * (chain.length + 1) ∨
      slot + 1 = img.top)
    (room : file.length + img.recordSize * recordCount
      ((textOf string).length - img.realSize * chain.length) img.realSize <
        2 ^ 63)
    (small : (textOf string).length < 2 ^ 64) {world : World} {fuel : Nat}
    (same : world.file = file) (enough : file.length ≤ fuel) :
    wp (changeStrNode fuel (link img.slotOffset chain) string img.realSize)
      (fun status final => status = .success ∧ ∀ fuel,
        final.file.length ≤ fuel → wp (readStringFromNode fuel img.templateSize
          (link img.slotOffset chain)) (fun block _ =>
            cString block = some (textOf string)) final) world ↔
    ¬ img.realSize ∣ (textOf string).length := by
  subst same
  have positive := img.realSize_pos
  have short := holds.chain_length_le linked distinct
  have bounded := short.trans holds.top_le_length
  have nonempty : chain ≠ [] := by simp [split]
  have plain := zero_notMem_textOf string
  have changed : wp (changeStrNode fuel (link img.slotOffset chain) string
      img.realSize) (fun status final => status = .success ∧
        ∃ recs payloads, Spells img.realSize
            ((textOf string).drop (img.realSize * chain.length)) payloads ∧
          Holds ⟨img.schema, img.top + payloads.length, recs⟩ final.file ∧
          Leads stringRecord img.slotOffset recs 0
            (overwrite img.realSize chain.length chain string ++
              consecutive img.top payloads)) world := by
    refine holds.wp_changeStrNode_grow linked distinct rfl rfl nonempty
      terminated long (bounded.trans enough) room small ?_
    intro recs file front' slot' data' payloads pos blocks split' spells grown
      records frame leads
    rw [split] at split'
    obtain ⟨-, lastEq⟩ := List.append_inj' split' rfl
    obtain ⟨rfl, rfl⟩ : slot = slot' ∧ data = data' := by simpa using lastEq
    refine ⟨rfl, recs, payloads, spells, grown, leads_append.mpr ⟨?_, ?_⟩⟩
    · have some_payload : payloads ≠ [] := by
        rintro rfl
        have count := recordCount_eq_zero spells.count.symm
        rw [List.length_drop] at count
        omega
      obtain ⟨payload, payloads, rfl⟩ := List.exists_cons_of_ne_nil some_payload
      exact leads
    · refine (chain_stringRecords records (orderly.imp (fun one => ?_)
        fun last => congrArg img.slotOffset last)).leads
      rw [spells.count, recordCount_one (by
        rw [List.length_drop]
        rw [Nat.mul_succ] at one
        omega) (by rw [List.length_drop]; omega)]
  apply wp_iff_of changed
  rintro status final ⟨success, recs, payloads, spells, grown, leads⟩
  rw [and_iff_right success]
  have first : link img.slotOffset
      (overwrite img.realSize chain.length chain string ++
        consecutive img.top payloads) = link img.slotOffset chain :=
    link_overwrite_append nonempty _
  have count := spells.count
  rw [List.length_drop] at count
  have delivered : assemble img.realSize
      (overwrite img.realSize chain.length chain string ++
        consecutive img.top payloads) = textOf string ++
          List.replicate (img.realSize * payloads.length -
            ((textOf string).length - img.realSize * chain.length)) 0 := by
    have rest := spells.assembled (fun member =>
      plain (List.mem_of_mem_drop member)) positive
    rw [← consecutive_payloads img.top payloads, List.flatMap_map,
      consecutive_payloads, List.length_drop] at rest
    rw [assemble_append, assemble_overwrite terminated long.le le_rfl,
      List.drop_length, assemble, assemble, List.flatMap_nil, List.append_nil,
      rest, ← List.append_assoc, List.take_append_drop]
  have room' := @le_recordCount_mul img.realSize
    ((textOf string).length - img.realSize * chain.length) positive
  rw [← count] at room'
  have fills : img.realSize ∣ (textOf string).length ↔
      (textOf string).length - img.realSize * chain.length =
        img.realSize * payloads.length := by
    rw [count, ← dvd_iff_filled positive]
    obtain ⟨left, leftEq⟩ := Nat.exists_eq_add_of_le long.le
    rw [leftEq, Nat.add_sub_cancel_left, Nat.dvd_add_right (dvd_mul_right _ _)]
  rw [← first, fills]
  have decided := @Holds.reads_iff
    ⟨img.schema, img.top + payloads.length, recs⟩ final _ (textOf string) grown
    leads (by simp [overwrite_ne_nil nonempty]) (by
      have slots := congrArg List.length
        (consecutive_payloads img.top payloads)
      rw [List.length_map] at slots
      rw [List.length_append, overwrite_length, slots]
      exact Nat.add_le_add_right short _)
  refine decided.trans ?_
  change cString (assemble img.realSize _) = _ ↔ _
  rw [delivered, cString_append_iff plain]
  cases left : img.realSize * payloads.length -
      ((textOf string).length - img.realSize * chain.length) with
  | zero =>
      rw [List.replicate_zero, List.head?_nil]
      simp only [reduceCtorEq, false_iff, not_not]
      omega
  | succ more =>
      rw [List.replicate_succ, List.head?_cons]
      simp only [true_iff]
      omega

/-- Forward links that lead back are followed for ever. -/
theorem Holds.not_wp_stringLenghtLoop {last slot fuel lenght : Nat}
    {header : NodeHeader} {data : List UInt8} {world : World}
    {post : Nat → World → Prop} (holds : img.Holds world.file)
    (leads : Leads stringRecord img.slotOffset img.recs last chain)
    (back : ∃ target ∈ chain.map Prod.fst, last = img.slotOffset target)
    (member : slot ∈ chain.map Prod.fst)
    (known : img.recs slot = some ⟨header, data⟩) :
    ¬ wp (stringLenghtLoop fuel header.bytes lenght) post world := by
  induction fuel generalizing slot header data lenght world with
  | zero => exact wp_throw _
  | succ fuel ih =>
      intro counts
      obtain ⟨before, after, payload, there, linked⟩ :=
        leads.exists_next member
      obtain ⟨next, inside, afterEq⟩ : ∃ next ∈ chain.map Prod.fst,
          after = img.slotOffset next := by
        rcases linked with rfl | linked
        · exact back
        · exact linked
      have headerEq : header = ⟨before, after⟩ :=
        congrArg KeyNode.header (Option.some.inj (known.symm.trans there))
      obtain ⟨_, _, payload', there', -⟩ := leads.exists_next inside
      have nextInside := (holds.record _ _ there').2.1
      have notEnd : (NodeHeader.ofBytes header.bytes).nextNode ≠ 0 := by
        rw [holds.ofBytes_bytes known, headerEq, afterEq]
        exact Nat.ne_of_gt img.slotOffset_pos
      rw [stringLenghtLoop, if_neg notEnd] at counts
      rw [holds.ofBytes_bytes known, headerEq] at counts
      have seeks : wp (fseekSet (toLong after)) (fun _ final =>
          final.file = world.file ∧ final.pos = img.slotOffset next) world :=
        holds.wp_seek nextInside.le afterEq ⟨rfl, afterEq⟩
      obtain ⟨_, middle, ⟨sameFile, stands⟩, counts⟩ :=
        wp_bind_elim counts seeks
      have reads : wp (readFile (NodeHeader.bytes ⟨before, after⟩) nodeHeadSize)
          (fun result final => result.1 = NodeHeader.bytes ⟨_, _⟩ ∧
            final.file = world.file) middle :=
        Holds.wp_readHeader (by rw [sameFile]; exact holds) there' stands
          (by simp) fun _ => ⟨rfl, sameFile⟩
      obtain ⟨⟨read, status⟩, final, ⟨headerRead, sameFile'⟩, counts⟩ :=
        wp_bind_elim counts reads
      dsimp only at headerRead counts
      rw [headerRead] at counts
      exact ih (by rw [sameFile']; exact holds) inside there' counts

/-- A string whose forward links lead back cannot be read. -/
theorem Holds.not_wp_readStringFromNode {last fuel size : Nat} {world : World}
    {post : List UInt8 → World → Prop} (holds : img.Holds world.file)
    (leads : Leads stringRecord img.slotOffset img.recs last chain)
    (back : ∃ target ∈ chain.map Prod.fst, last = img.slotOffset target)
    (nonempty : chain ≠ []) :
    ¬ wp (readStringFromNode fuel size (link img.slotOffset chain)) post
      world := by
  intro reads
  obtain ⟨⟨slot, data⟩, rest, rfl⟩ := List.exists_cons_of_ne_nil nonempty
  obtain ⟨before, after, payload, known, -⟩ :=
    leads.exists_next (List.mem_map_of_mem List.mem_cons_self)
  obtain ⟨-, inside, -, -⟩ := holds.record _ _ known
  rw [readStringFromNode, wp_bind, getStringLenght, link] at reads
  have seeks : wp (fseekSet (toLong (img.slotOffset slot))) (fun _ final =>
      final.file = world.file ∧ final.pos = img.slotOffset slot) world :=
    holds.wp_seek inside.le rfl ⟨rfl, rfl⟩
  obtain ⟨_, middle, ⟨sameFile, stands⟩, reads⟩ := wp_bind_elim reads seeks
  have allocates : wp (malloc nodeHeadSize) (fun block final =>
      block.length = nodeHeadSize ∧ final.file = world.file ∧
        final.pos = img.slotOffset slot) middle :=
    wp_malloc fun _ _ sized => ⟨sized, sameFile, stands⟩
  obtain ⟨block, middle, ⟨sized, sameFile, stands⟩, reads⟩ :=
    wp_bind_elim reads allocates
  have heads : wp (readFile block nodeHeadSize) (fun result final =>
      result.1 = NodeHeader.bytes ⟨before, after⟩ ∧
        final.file = world.file) middle :=
    Holds.wp_readHeader (by rw [sameFile]; exact holds) known stands sized
      fun _ => ⟨rfl, sameFile⟩
  obtain ⟨⟨read, status⟩, final, ⟨headerRead, sameFile⟩, reads⟩ :=
    wp_bind_elim reads heads
  dsimp only at headerRead reads
  rw [headerRead] at reads
  exact Holds.not_wp_stringLenghtLoop (by rw [sameFile]; exact holds) leads back
    (List.mem_map_of_mem List.mem_cons_self) known reads

/-- A string that needs two records more than the chain has: the first of them
leads to the slot behind the one that follows the chain. -/
theorem Holds.wp_changeStrNode_scattered {front : List (Nat × List UInt8)}
    {slot : Nat} {data : List UInt8} {world : World} {fuel : Nat}
    (holds : img.Holds world.file)
    (linked : Chain stringRecord img.slotOffset img.recs before chain)
    (distinct : (chain.map Prod.fst).Nodup)
    (split : chain = front ++ [(slot, data)]) (terminated : 0 ∈ string)
    (long : img.realSize * (chain.length + 1) < (textOf string).length)
    (room : world.file.length + img.recordSize * recordCount
      ((textOf string).length - img.realSize * chain.length) img.realSize <
        2 ^ 63)
    (small : (textOf string).length < 2 ^ 64)
    (enough : world.file.length ≤ fuel) :
    wp (changeStrNode fuel (link img.slotOffset chain) string img.realSize)
      (fun status final => status = .success ∧ ∃ recs top payload,
        img.top + 2 ≤ top ∧ Holds ⟨img.schema, top, recs⟩ final.file ∧
        Leads stringRecord img.slotOffset recs (img.slotOffset (slot + 2))
          (overwrite img.realSize chain.length chain string ++
            [(img.top, payload)]) ∧
        strncpy payload img.realSize = ((textOf string).drop
          (img.realSize * chain.length)).take img.realSize ∧
        ∀ other < img.top, other ∉ chain.map Prod.fst →
          recs other = img.recs other) world := by
  have positive := img.realSize_pos
  have bounded := (holds.chain_length_le linked distinct).trans
    holds.top_le_length
  have nonempty : chain ≠ [] := by simp [split]
  rw [Nat.mul_succ] at long
  refine holds.wp_changeStrNode_grow linked distinct rfl rfl nonempty
    terminated (by omega) (bounded.trans enough) room small ?_
  intro recs file front' slot' data' payloads pos blocks split' spells grown
    records frame leads
  rw [split] at split'
  obtain ⟨-, lastEq⟩ := List.append_inj' split' rfl
  obtain ⟨rfl, rfl⟩ : slot = slot' ∧ data = data' := by simpa using lastEq
  have several : 2 ≤ payloads.length := by
    rw [spells.count, List.length_drop]
    exact (lt_recordCount_iff positive).mpr (by omega)
  obtain ⟨payload, rest, rfl⟩ := List.exists_cons_of_ne_nil
    (List.ne_nil_of_length_pos (show 0 < payloads.length by omega))
  have here := records 0 (by omega)
  rw [stringRecords, List.getElem?_mapIdx, List.getElem?_cons_zero] at here
  have next : img.slotOffset (slot + 1) + (img.realSize + nodeHeadSize) *
      (0 + 1) = img.slotOffset (slot + 2) := by
    rw [Nat.zero_add, Nat.mul_one]
    exact img.slotOffset_succ.symm
  have share := spells.characters 0 payload rfl
  have plain : 0 ∉ (textOf string).drop (img.realSize * chain.length) :=
    fun member => zero_notMem_textOf string (List.mem_of_mem_drop member)
  have full : strncpy ((textOf string).drop (img.realSize * chain.length))
      img.realSize = ((textOf string).drop
        (img.realSize * chain.length)).take img.realSize := by
    rw [strncpy_eq, textOf_eq_self plain,
      Nat.sub_eq_zero_of_le (by rw [List.length_drop]; omega),
      List.replicate_zero, List.append_nil]
  rw [Nat.mul_zero, List.drop_zero] at share
  refine ⟨rfl, recs, _, payload, by omega, grown,
    leads_append.mpr ⟨leads, ⟨⟨0, ?_⟩, trivial⟩⟩, share.trans full, frame⟩
  rw [Nat.add_zero] at here
  rw [here, Option.map_some]
  refine congrArg some (congrArg₂ KeyNode.mk ?_ rfl)
  rw [strHeader, if_pos rfl, if_neg (by omega), next]
  rfl

/-- A string that needs two records more than the chain has, where the chain
does not end the file: some file with this chain does not deliver it. -/
theorem Holds.exists_not_reads {front : List (Nat × List UInt8)} {slot : Nat}
    {data : List UInt8} (holds : img.Holds file)
    (linked : Chain stringRecord img.slotOffset img.recs before chain)
    (distinct : (chain.map Prod.fst).Nodup)
    (split : chain = front ++ [(slot, data)]) (terminated : 0 ∈ string)
    (long : img.realSize * (chain.length + 1) < (textOf string).length)
    (followed : slot + 1 < img.top)
    (room : file.length + img.recordSize * recordCount
      ((textOf string).length - img.realSize * chain.length) img.realSize <
        2 ^ 63)
    (small : (textOf string).length < 2 ^ 64) :
    ∃ recs file', Holds { img with recs := recs } file' ∧
      Chain stringRecord img.slotOffset recs before chain ∧
      ¬ wp (changeStrNode file'.length (link img.slotOffset chain) string
        img.realSize) (fun status final => status = .success ∧ ∀ fuel,
          final.file.length ≤ fuel → wp (readStringFromNode fuel
            img.templateSize (link img.slotOffset chain)) (fun block _ =>
              cString block = some (textOf string)) final)
        (blankWorld file') := by
  have nonempty : chain ≠ [] := by simp [split]
  have positive := img.realSize_pos
  have short := holds.chain_length_le linked distinct
  have first (payload : List UInt8) (more : List (Nat × List UInt8)) :
      link img.slotOffset (overwrite img.realSize chain.length chain string ++
        (img.top, payload) :: more) = link img.slotOffset chain :=
    link_overwrite_append nonempty _
  have slots (payload : List UInt8) :
      (overwrite img.realSize chain.length chain string ++
        [(img.top, payload)]).map Prod.fst = chain.map Prod.fst ++ [img.top] := by
    rw [List.map_append, overwrite_slots]
    rfl
  by_cases back : slot + 2 ∈ chain.map Prod.fst ++ [img.top]
  · -- the new record leads back to the chain, or to itself
    refine ⟨img.recs, file, holds, linked, fun replaced => ?_⟩
    have changed := @Holds.wp_changeStrNode_scattered img chain before string
      front slot data (blankWorld file) file.length holds linked distinct split
      terminated long room small le_rfl
    obtain ⟨status, final, -, ⟨-, recs, top, payload, -, grown, leads, -⟩,
      -, reads⟩ := wp_and changed replaced
    have loops := reads _ le_rfl
    rw [← first payload []] at loops
    exact @Holds.not_wp_readStringFromNode ⟨img.schema, top, recs⟩ _ _ _ _ _ _
      grown leads ⟨slot + 2, by rw [slots]; exact back, rfl⟩ (by simp) loops
  · -- the new record leads to a record that may hold anything
    rw [List.mem_append, List.mem_singleton, not_or] at back
    have inside : slot + 2 < img.top := by omega
    have entry : (slot, data) ∈ chain := by simp [split]
    obtain ⟨_, _, known, -⟩ := linked.exists_cell entry
    have behind := (holds.record _ _ known).1
    obtain ⟨breaker, breakerEq⟩ : ∃ breaker,
        breaker = stringRecord 0 0 (List.replicate img.realSize 0) := ⟨_, rfl⟩
    have fits : breaker.Fits img.realSize := by
      rw [breakerEq]
      exact ⟨Nat.two_pow_pos 64, Nat.two_pow_pos 64, List.length_replicate⟩
    have holds' := holds.setRec (by omega) inside fits
    have linked' := linked.update_of_notMem back.1 (some breaker)
    refine ⟨_, _, holds', linked', fun replaced => ?_⟩
    have sameLength : (writeAt file (img.slotOffset (slot + 2))
        breaker.bytes).length = file.length :=
      holds'.length_eq.trans holds.length_eq.symm
    have changed := @Holds.wp_changeStrNode_scattered
      (img.setRec (slot + 2) breaker) chain before string front slot data
      (blankWorld _) _ holds' linked' distinct split terminated long
      (by rw [← sameLength] at room; exact room) small le_rfl
    obtain ⟨status, final, -, ⟨-, recs, top, payload, more, grown, leads,
      share, frame⟩, -, reads⟩ := wp_and changed replaced
    have broken : recs (slot + 2) = some breaker :=
      (frame _ inside back.1).trans (Function.update_self _ _ _)
    have ended := leads_append.mpr ⟨leads, show Leads stringRecord
      img.slotOffset recs 0 [(slot + 2, List.replicate img.realSize 0)] from
        ⟨⟨0, by rw [broken, breakerEq]; rfl⟩, trivial⟩⟩
    rw [List.append_assoc] at ended
    have delivers := @Holds.reads_iff ⟨img.schema, top, recs⟩ final _
      (textOf string) grown ended (by simp) (by
        rw [List.length_append, overwrite_length]
        exact le_trans (Nat.add_le_add_right short 2) more)
    have linkEq := first payload [(slot + 2, List.replicate img.realSize 0)]
    change (∀ fuel, _ → wp (readStringFromNode fuel img.templateSize
      (link img.slotOffset (overwrite img.realSize chain.length chain string ++
        [(img.top, payload), (slot + 2, List.replicate img.realSize 0)])))
          _ final) ↔ cString (assemble img.realSize _) = _ at delivers
    rw [linkEq] at delivers
    have found := delivers.mp reads
    have zeros : strncpy (List.replicate img.realSize 0) img.realSize =
        List.replicate img.realSize 0 := by
      rw [strncpy_eq]
      simp [textOf]
    obtain ⟨size, sizeEq⟩ := Nat.exists_eq_add_one_of_ne_zero
      (Nat.ne_of_gt positive)
    rw [Nat.mul_succ] at long
    have delivered : assemble img.realSize
        (overwrite img.realSize chain.length chain string ++
          ([(img.top, payload)] ++
            [(slot + 2, List.replicate img.realSize 0)])) =
        (textOf string).take (img.realSize * chain.length + img.realSize) ++
          0 :: List.replicate size 0 := by
      rw [assemble_append, assemble_overwrite terminated (by omega) le_rfl,
        List.drop_length]
      simp only [assemble, List.flatMap_nil, List.append_nil,
        List.cons_append, List.nil_append, List.flatMap_cons]
      have added : strncpy payload img.realSize = ((textOf string).drop
        (img.realSize * chain.length)).take img.realSize := share
      rw [added, zeros, ← List.append_assoc, ← List.take_add, sizeEq,
        List.replicate_succ]
    change cString (assemble img.realSize
        (overwrite img.realSize chain.length chain string ++
          ([(img.top, payload)] ++
            [(slot + 2, List.replicate img.realSize 0)]))) = _ at found
    rw [delivered, cString_append_zero fun member =>
      zero_notMem_textOf string (List.mem_of_mem_take member)] at found
    have lengths := congrArg List.length (Option.some.inj found)
    rw [List.length_take] at lengths
    omega

/-- In every store that has this chain in a file of this size, the string
replaces all of the chain, exactly if it is replaceable: in the other case that
is not decided by the chain, the new records lead to records of other strings. -/
theorem changeStrNode_replacesAll_iff (holds : img.Holds file)
    (linked : Chain stringRecord img.slotOffset img.recs before chain)
    (distinct : (chain.map Prod.fst).Nodup) (nonempty : chain ≠ [])
    (terminated : 0 ∈ string)
    (room : file.length + img.recordSize *
      recordCount (textOf string).length img.realSize < 2 ^ 63) :
    (∀ recs file', Holds { img with recs := recs } file' →
      Chain stringRecord img.slotOffset recs before chain →
      ReplacesAll img chain string file') ↔
    Replaceable img.realSize img.top chain (textOf string).length := by
  have positive := img.realSize_pos
  have count := @le_recordCount_mul img.realSize (textOf string).length positive
  have recordSizeEq : img.recordSize = img.realSize + nodeHeadSize := rfl
  have small : (textOf string).length < 2 ^ 64 := by
    rw [recordSizeEq, Nat.add_mul] at room
    omega
  have room' : file.length + img.recordSize * recordCount
      ((textOf string).length - img.realSize * chain.length) img.realSize <
        2 ^ 63 :=
    lt_of_le_of_lt (Nat.add_le_add_left (Nat.mul_le_mul_left _
      (recordCount_mono positive (Nat.sub_le _ _))) _) room
  obtain ⟨front, ⟨slot, data⟩, split⟩ : ∃ front entry,
      chain = front ++ [entry] :=
    ⟨_, _, (List.dropLast_append_getLast nonempty).symm⟩
  have below : slot + 1 ≤ img.top := by
    obtain ⟨_, _, known, -⟩ := linked.exists_cell
      (show (slot, data) ∈ chain by simp [split])
    exact (holds.record _ _ known).2.1
  constructor
  · intro always
    have here := always img.recs file holds linked
    have reads := here.reads (blankWorld file) _ rfl le_rfl
    by_cases long : img.realSize * chain.length < (textOf string).length
    · right
      by_cases orderly :
          (textOf string).length ≤ img.realSize * (chain.length + 1) ∨
            slot + 1 = img.top
      · exact ⟨long, (holds.reads_grown_iff linked distinct split terminated
          long orderly room' small rfl le_rfl).mp reads,
          orderly.imp id fun last => ⟨front, slot, data, split, last⟩⟩
      · rw [not_or, not_le] at orderly
        obtain ⟨recs, file', holds', linked', fails⟩ := holds.exists_not_reads
          linked distinct split terminated orderly.1 (by omega) room' small
        exact absurd ((always recs file' holds' linked').reads (blankWorld _) _
          rfl le_rfl) fails
    · left
      have counts := (holds.counts_iff linked distinct nonempty small).mp
        here.counts
      have some_chain := Nat.mul_pos positive
        (List.length_pos_of_ne_nil nonempty)
      obtain ⟨whole, filled⟩ : img.realSize ∣ (textOf string).length ∧
          0 < (textOf string).length := by
        rcases counts with enough | filled
        · have same := le_antisymm (not_lt.mp long) enough
          exact ⟨⟨_, same⟩, same ▸ some_chain⟩
        · exact filled
      obtain ⟨count, countEq⟩ := whole
      refine ⟨⟨count, countEq⟩, filled, ?_⟩
      rw [countEq, Nat.mul_div_cancel_left _ positive]
      rw [countEq] at filled long
      exact (holds.reads_filled_iff linked distinct terminated countEq
        (Nat.pos_of_mul_pos_left filled)
        (Nat.le_of_mul_le_mul_left (not_lt.mp long) positive) small rfl
        le_rfl).mp reads
  · intro replaceable recs file' holds' linked'
    have sameLength : file'.length = file.length :=
      holds'.length_eq.trans holds.length_eq.symm
    constructor
    · intro world fuel same enough
      rcases replaceable with
        ⟨⟨count, countEq⟩, filled, slot', data', found, ends⟩ |
        ⟨long, uneven, orderly⟩
      · rw [countEq, Nat.mul_div_cancel_left _ positive] at found
        rw [countEq] at filled
        exact (@Holds.reads_filled_iff { img with recs := recs } file' chain
          before string count holds' linked' distinct terminated countEq
          (Nat.pos_of_mul_pos_left filled)
          (List.getElem?_eq_some_iff.mp found).1.le small world fuel same
          enough).mpr ⟨slot', data', found, ends⟩
      · refine (@Holds.reads_grown_iff { img with recs := recs } file' chain
          before string front slot data holds' linked' distinct split terminated
          long (orderly.imp id ?_) (sameLength ▸ room') small world fuel same
          enough).mpr uneven
        rintro ⟨front', slot', data', split', last⟩
        rw [split] at split'
        obtain ⟨-, lastEq⟩ := List.append_inj' split' rfl
        obtain ⟨rfl, -⟩ : slot = slot' ∧ data = data' := by simpa using lastEq
        exact last
    · refine (@Holds.counts_iff { img with recs := recs } file' chain before
        string holds' linked' distinct nonempty small).mpr ?_
      rcases replaceable with ⟨whole, filled, -⟩ | ⟨long, -⟩
      · exact Or.inr ⟨whole, filled⟩
      · exact Or.inl long.le

end Image

section Letters

/-- The three hundred letters are replaced by six hundred. -/
theorem changeStrNode_replacesAll_longString :
    ∃ img chain before, Image.Holds img longString ∧
      Chain stringRecord img.slotOffset img.recs before chain ∧
      ((∀ recs file', Image.Holds { img with recs := recs } file' →
        Chain stringRecord img.slotOffset recs before chain →
        ReplacesAll img chain (letters 98 600) file') ↔
      Replaceable img.realSize img.top chain
        (textOf (letters 98 600)).length) := by
  obtain ⟨img, nodes, id, node, chain, store, found, string, -, size,
    spells⟩ := longString_stored
  have live := store.liveNode found
  have holds := live.holds
  obtain ⟨nonempty, linked, distinct⟩ := live.string string
  have length := longString_length
  clear store live found
  generalize longString = file at holds length ⊢
  refine ⟨img, chain, _, holds, linked,
    Image.changeStrNode_replacesAll_iff holds linked distinct nonempty
      letters_terminated ?_⟩
  rw [length, Image.recordSize, size, textOf_letters (by decide),
    List.length_replicate]
  decide

/-- When 256 letters replace three hundred, the last 44 of these stay. -/
theorem not_always_replacesAll :
    ¬ ∀ (img : Image) (file : List UInt8) (chain : List (Nat × List UInt8))
      (before : Nat) (string : CharPtr), Image.Holds img file →
        Chain stringRecord img.slotOffset img.recs before chain →
        (chain.map Prod.fst).Nodup → chain ≠ [] → 0 ∈ string →
        file.length + img.recordSize *
          recordCount (textOf string).length img.realSize < 2 ^ 63 →
        ReplacesAll img chain string file := by
  intro always
  obtain ⟨img, nodes, id, node, chain, store, found, string, -, size,
    spells⟩ := longString_stored
  have live := store.liveNode found
  have holds := live.holds
  obtain ⟨nonempty, linked, distinct⟩ := live.string string
  have length := longString_length
  clear store live found
  generalize longString = file at holds length
  have two : chain.length = 2 := by
    have count := spells.count
    rw [List.length_map, List.length_replicate] at count
    exact count
  have text : textOf (letters 98 256) = List.replicate 256 98 :=
    textOf_letters (by decide)
  have replaced := always img _ chain _ (letters 98 256) holds linked
    distinct nonempty letters_terminated (by
      rw [length, Image.recordSize, size, text, List.length_replicate]
      decide)
  obtain ⟨slot, data, found, ends⟩ := (holds.reads_filled_iff linked distinct
    letters_terminated
    (show (textOf (letters 98 256)).length = img.realSize * 1 by
      rw [text, size, List.length_replicate])
    Nat.one_pos (by omega) (by rw [text, List.length_replicate]; norm_num)
    rfl le_rfl).mp (replaced.reads (blankWorld _) _ rfl le_rfl)
  -- the second record still begins with a letter
  have payload : (chain.map Prod.snd)[1]? = some data := by
    rw [List.getElem?_map, found]
    rfl
  have kept := spells.characters 1 data payload
  have sized := spells.sized data (List.mem_of_getElem? payload)
  have begins := (head_strncpy (by norm_num) sized).mpr ends
  rw [kept] at begins
  exact absurd begins (by decide)

end Letters

end TreeStore
