import TreeStore.Adding

/-!
# Updating a field

`updateNode` on a live id overwrites one word of the tuple, or the records of a
string.  The layout keeps all its slots as long as the new string fills some of
the records that are there exactly.
-/

namespace TreeStore

open ByteFile ProgramLogic LinkedRecords

/-- A chain whose first `count` records have been overwritten with the memory
from `string` on. -/
def overwrite (realSize : Nat) : Nat → List (Nat × List UInt8) → CharPtr →
    List (Nat × List UInt8)
  | count + 1, (slot, _) :: rest, string =>
      (slot, string.take realSize) ::
        overwrite realSize count rest (string.drop realSize)
  | _, chain, _ => chain

section Chains

variable {realSize count : Nat} {chain : List (Nat × List UInt8)}
  {string : CharPtr}

@[simp]
theorem overwrite_zero : overwrite realSize 0 chain string = chain := by
  cases chain <;> rfl

@[simp]
theorem overwrite_slots :
    (overwrite realSize count chain string).map Prod.fst =
      chain.map Prod.fst := by
  induction chain generalizing count string with
  | nil => cases count <;> rfl
  | cons entry rest ih =>
      cases count with
      | zero => rfl
      | succ count => simp [overwrite, ih]

theorem overwrite_link (address : Nat → Nat) :
    link address (overwrite realSize count chain string) =
      link address chain := by
  cases chain with
  | nil => cases count <;> rfl
  | cons entry rest => cases count <;> rfl

theorem overwrite_ne_nil (nonempty : chain ≠ []) :
    overwrite realSize count chain string ≠ [] := by
  have slots : (overwrite realSize count chain string).map Prod.fst =
      chain.map Prod.fst := overwrite_slots
  intro empty
  rw [empty] at slots
  exact nonempty (List.map_eq_nil_iff.mp slots.symm)

end Chains

/-- A node with another field at `position`. -/
def NodeImage.setField (node : NodeImage) (position : Nat)
    (field : FieldImage) : NodeImage :=
  { node with fields := node.fields.set position field }

/-- The new values that `updateNode` can store in a field: a string fills some
of the records that are there. -/
def FieldImage.Takes (realSize : Nat) (newValue : CharPtr) : FieldImage → Prop
  | .num _ => True
  | .str chain => 0 ∈ newValue ∧ ∃ count, 0 < count ∧ count ≤ chain.length ∧
      (textOf newValue).length = realSize * count

/-- The field that `updateNode` leaves. -/
inductive FieldImage.Updated (realSize : Nat) (newValue : CharPtr) :
    FieldImage → FieldImage → Prop
  | num {old word : Nat}
      (stored : 8 ≤ newValue.length → word = leValue (newValue.take 8)) :
      Updated realSize newValue (.num old) (.num word)
  | str {chain : List (Nat × List UInt8)} {count : Nat}
      (filled : (textOf newValue).length = realSize * count) :
      Updated realSize newValue (.str chain)
        (.str (overwrite realSize count chain newValue))

theorem FieldImage.Updated.slots_eq {realSize : Nat} {newValue : CharPtr}
    {field field' : FieldImage} (updated : Updated realSize newValue field field') :
    field'.slots = field.slots := by
  cases updated with
  | num => rfl
  | str => simp [FieldImage.slots]

theorem NodeImage.setField_slots {node : NodeImage} {position : Nat}
    {field field' : FieldImage} (found : node.fields[position]? = some field)
    (same : field'.slots = field.slots) :
    (node.setField position field').slots = node.slots := by
  obtain ⟨inside, fieldEq⟩ := List.getElem?_eq_some_iff.mp found
  have split : node.fields =
      node.fields.take position ++ field :: node.fields.drop (position + 1) := by
    rw [← fieldEq, List.getElem_cons_drop, List.take_append_drop]
  have chainSlotsEq : (node.setField position field').chainSlots =
      node.chainSlots := by
    rw [NodeImage.chainSlots, NodeImage.chainSlots]
    conv_rhs => rw [split]
    rw [NodeImage.setField, List.set_eq_take_append_cons_drop, if_pos inside]
    simp [same]
  rw [NodeImage.slots, chainSlotsEq]
  rfl

namespace Image

variable {img : Image} {world : World}

/-- Where the loop of `changeStrNode` ends after `count` rounds: at the record in
`slot`, which it has just written, before the rest of the string. -/
structure LoopEnds (realSize : Nat) (address : Nat → Nat)
    (chain : List (Nat × List UInt8)) (count : Nat) (string : CharPtr)
    (recs : Nat → Option KeyNode) (slot : Nat) (final : ChangeState) :
    Prop where
  position : ∃ front data rest, chain = front ++ (slot, data) :: rest ∧
    front.length + 1 = count
  offset : final.offset = address slot
  newStr : final.newStr = string.drop (realSize * count)
  record : recs slot = some ⟨final.header, final.data.take realSize⟩
  enough : realSize ≤ final.data.length

/-- One more round before it. -/
theorem LoopEnds.cons {realSize count slot : Nat} {address : Nat → Nat}
    {chain : List (Nat × List UInt8)} {string : CharPtr}
    {recs : Nat → Option KeyNode} {final : ChangeState}
    (ends : LoopEnds realSize address chain count (string.drop realSize) recs
      slot final) (entry : Nat × List UInt8) :
    LoopEnds realSize address (entry :: chain) (count + 1) string recs slot
      final := by
  obtain ⟨front, data, rest, rfl, countEq⟩ := ends.position
  refine ⟨⟨entry :: front, data, rest, rfl, by rw [← countEq]; rfl⟩,
    ends.offset, ?_, ends.record, ends.enough⟩
  rw [ends.newStr, List.drop_drop, Nat.mul_succ, Nat.add_comm]

/-- The loop of `changeStrNode` for a string that fills the first `count`
records, and either ends there or has more characters than the chain has
room. -/
theorem Holds.wp_changeStrLoop {fuel count extra offset length size before : Nat}
    {chain : List (Nat × List UInt8)} {string : CharPtr}
    {post : ChangeState → World → Prop} (holds : img.Holds world.file)
    (linked : Chain stringRecord img.slotOffset img.recs before chain)
    (distinct : (chain.map Prod.fst).Nodup) (template : size = img.realSize)
    (target : offset = link img.slotOffset chain) (positive : 0 < count)
    (fits : count ≤ chain.length) (enough : count ≤ fuel)
    (lengthEq : length = img.realSize * count + extra)
    (stops : extra = 0 ∨ count = chain.length) (small : length < 2 ^ 64)
    (inside : length ≤ string.length)
    (next : ∀ final recs file slot blocks, final.lenght = extra →
      LoopEnds img.realSize img.slotOffset chain count string recs slot final →
      Holds { img with recs := recs } file →
      (∀ slot, slot ∉ chain.map Prod.fst → recs slot = img.recs slot) →
      Chain stringRecord img.slotOffset recs before
        (overwrite img.realSize count chain string) →
      post final
        { world with
          file := file, pos := img.slotOffset (slot + 1), blocks := blocks }) :
    wp (changeStrLoop size fuel offset string length) post world := by
  subst template target
  induction count generalizing img world chain string length fuel before with
  | zero => exact absurd positive (Nat.lt_irrefl 0)
  | succ count ih =>
      obtain ⟨fuel, rfl⟩ := Nat.exists_eq_add_one_of_ne_zero
        (Nat.ne_of_gt (lt_of_lt_of_le positive enough))
      obtain ⟨⟨slot, data⟩, rest, rfl⟩ := List.exists_cons_of_ne_nil
        (List.ne_nil_of_length_pos (lt_of_lt_of_le positive fits))
      have large := img.realSize_ge
      have known := linked.1
      have recordFits := (holds.record _ _ known).2.2.1
      have slotInside := (holds.record _ _ known).2.1
      have lengthSplit : length =
          img.realSize * count + img.realSize + extra := by
        rw [lengthEq, Nat.mul_succ]
      have restEq : (length + 2 ^ 64 - img.realSize) % 2 ^ 64 =
          img.realSize * count + extra := by omega
      have first : link img.slotOffset ((slot, data) :: rest) =
          img.slotOffset slot := rfl
      have fresh : slot ∉ rest.map Prod.fst := (List.nodup_cons.mp distinct).1
      rw [changeStrLoop, first, wp_bind]
      refine holds.wp_seek slotInside.le rfl ?_
      rw [wp_bind]
      refine Holds.wp_readNode holds known rfl ((le_double _).trans
        (le_getRealNodeSize _)) ?_
      intro read status pos blocks started long
      rw [wp_bind]
      refine Holds.wp_seek (by exact holds) slotInside.le rfl ?_
      rw [wp_bind]
      refine Holds.wp_writeNode (by exact holds) known rfl (by omega) le_rfl
        ⟨recordFits.parentNode, recordFits.allocNode⟩
        (by exact le_trans (by omega) inside) fun file blocks written => ?_
      have whole : string.take img.realSize ++ data.drop img.realSize =
          string.take img.realSize := by
        have sized : data.length = img.realSize := recordFits.data_length
        rw [List.drop_eq_nil_of_le sized.le, List.append_nil]
      let after := img.setRec slot (stringRecord before
        (link img.slotOffset rest) (string.take img.realSize))
      have kept : after.Holds file := by
        have same : after = img.setRec slot ⟨⟨before,
            link img.slotOffset rest⟩, string.take img.realSize ++
              data.drop img.realSize⟩ := by
          rw [whole]
          rfl
        rw [same]
        exact written
      have linked' : Chain stringRecord img.slotOffset after.recs before
          ((slot, string.take img.realSize) :: rest) :=
        linked.set_head fresh _ _
      have others (other : Nat) (different : other ≠ slot) :
          after.recs other = img.recs other :=
        img.setRec_recs_of_ne different _
      have stands : img.slotOffset slot + nodeHeadSize + img.realSize =
          img.slotOffset (slot + 1) := by
        rw [img.slotOffset_succ, recordSize]
        omega
      dsimp only
      rw [restEq]
      by_cases last : count = 0
      · subst last
        have ended : ¬ ((stringRecord before (link img.slotOffset rest)
            data).header.nextNode ≠ 0 ∧ img.realSize * 0 + extra > 0) := by
          rintro ⟨more, left⟩
          rcases stops with none | all
          · omega
          · have empty : rest = [] := List.length_eq_zero_iff.mp (by
              simp only [List.length_cons] at all
              omega)
            subst empty
            exact more rfl
        rw [if_neg ended, wp_pure, stands]
        refine next _ after.recs file slot blocks (by simp)
          ⟨⟨[], data, rest, rfl, rfl⟩, rfl, by simp, Function.update_self _ _ _,
            by exact le_trans (by omega) inside⟩ kept
          (fun other outside => others other ?_) ?_
        · rintro rfl
          exact outside (by simp)
        · rw [overwrite, overwrite_zero]
          exact linked'
      · obtain ⟨⟨second, secondData⟩, rest', rfl⟩ :=
          List.exists_cons_of_ne_nil (l := rest) (by
            rintro rfl
            simp at fits
            omega)
        have notEnd : img.slotOffset second ≠ 0 :=
          Nat.ne_of_gt img.slotOffset_pos
        have more : 0 < img.realSize * count + extra :=
          Nat.add_pos_left
            (Nat.mul_pos (by omega) (Nat.pos_of_ne_zero last)) _
        rw [if_pos ⟨notEnd, more⟩]
        refine @ih after ⟨file, _, world.heap, blocks⟩ fuel
          (img.realSize * count + extra) (img.slotOffset slot)
          ((second, secondData) :: rest') (string.drop img.realSize)
          kept linked'.2 (List.nodup_cons.mp distinct).2
          (Nat.pos_of_ne_zero last) (by simpa using fits)
          (Nat.le_of_succ_le_succ enough) rfl
          (stops.imp_right fun all => Nat.succ_injective all) (by omega)
          (by rw [List.length_drop]; omega) ?_
        intro final recs file place blocks done ends written frame chained
        refine next final recs file place blocks done
          (LoopEnds.cons (by exact ends) _) written ?_ ?_
        · intro other outside
          simp only [List.map_cons, List.mem_cons, not_or] at outside
          rw [frame other (by simpa using outside.2), others other outside.1]
        · refine ⟨?_, chained⟩
          rw [frame slot fresh, overwrite_link]
          exact linked'.1

/-- `changeStrNode` with a string that fills some records of the chain
exactly. -/
theorem Holds.wp_changeStrNode {fuel count offset size before : Nat}
    {chain : List (Nat × List UInt8)} {string : CharPtr}
    {post : CrudStatus → World → Prop} (holds : img.Holds world.file)
    (linked : Chain stringRecord img.slotOffset img.recs before chain)
    (distinct : (chain.map Prod.fst).Nodup) (template : size = img.realSize)
    (target : offset = link img.slotOffset chain) (terminated : 0 ∈ string)
    (filled : (textOf string).length = img.realSize * count)
    (positive : 0 < count) (fits : count ≤ chain.length)
    (enough : count ≤ fuel) (small : img.realSize * count < 2 ^ 64)
    (next : ∀ recs file pos blocks,
      Holds { img with recs := recs } file →
      (∀ slot, slot ∉ chain.map Prod.fst → recs slot = img.recs slot) →
      Chain stringRecord img.slotOffset recs before
        (overwrite img.realSize count chain string) →
      post .success
        { world with file := file, pos := pos, blocks := blocks }) :
    wp (changeStrNode fuel offset string size) post world := by
  have inside := textOf_length_le string
  rw [changeStrNode, wp_bind]
  refine wp_strlen terminated ?_
  rw [wp_bind]
  refine holds.wp_changeStrLoop linked distinct template target positive fits
    enough filled (Or.inl rfl) (filled ▸ small) inside ?_
  intro final recs file slot blocks done _ written frame chained
  rw [if_neg (by omega), wp_pure]
  exact next recs file _ blocks written frame chained

end Image

section Layouts

variable {address : Nat → Nat} {recs other : Nat → Option KeyNode}
  {types : List Nat} {reserved top id : Nat} {node node' : NodeImage}
  {nodes : List NodeImage}

/-- A node may be exchanged for one that uses the same slots. -/
theorem Layout.update (layout : Layout address recs types reserved top nodes)
    (found : nodes[id]? = some node) (sameSlots : node'.slots = node.slots)
    (frame : ∀ slot, slot ∉ node.slots → other slot = recs slot)
    (nodeAt : NodeAt address other types id node') :
    Layout address other types reserved top (nodes.set id node') := by
  obtain ⟨inside, nodeEq⟩ := List.getElem?_eq_some_iff.mp found
  have split : nodes = nodes.take id ++ node :: nodes.drop (id + 1) := by
    rw [← nodeEq, List.getElem_cons_drop, List.take_append_drop]
  have slotsEq : (nodes.set id node').flatMap NodeImage.slots =
      nodes.flatMap NodeImage.slots := by
    conv_rhs => rw [split]
    rw [List.set_eq_take_append_cons_drop, if_pos inside]
    simp [sameSlots]
  refine ⟨?_, by rw [slotsEq]; exact layout.nodup,
    fun slot => by rw [slotsEq]; exact layout.covers slot⟩
  intro id' found' here
  by_cases same : id' = id
  · subst same
    rw [List.getElem?_set_self inside] at here
    cases here
    exact nodeAt
  · rw [List.getElem?_set_ne (Ne.symm same)] at here
    refine (layout.nodeAt id' found' here).frame fun slot member => ?_
    refine frame slot fun owner => same ?_
    exact layout.owner_unique here found member owner

/-- A field may be exchanged for one of the same kind, if only the records of
that field have changed. -/
theorem FieldsAt.set {owner position : Nat} {fields : List FieldImage}
    {field field' : FieldImage}
    (fieldsAt : FieldsAt address recs types owner fields)
    (found : fields[position]? = some field)
    (nodup : (fields.flatMap FieldImage.slots).Nodup)
    (kind : (∃ chain, field = .str chain) ↔ ∃ chain, field' = .str chain)
    (frame : ∀ slot, slot ∉ field.slots → other slot = recs slot)
    (chained : ∀ chain, field' = .str chain →
      chain ≠ [] ∧ Chain stringRecord address other owner chain) :
    FieldsAt address other types owner (fields.set position field') := by
  have inside := (List.getElem?_eq_some_iff.mp found).1
  refine ⟨by rw [List.length_set]; exact fieldsAt.count, ?_, ?_⟩
  · intro position' found' here
    by_cases same : position' = position
    · subst same
      rw [List.getElem?_set_self inside] at here
      cases here
      exact (fieldsAt.typed _ _ found).trans kind
    · rw [List.getElem?_set_ne (Ne.symm same)] at here
      exact fieldsAt.typed _ _ here
  · intro chain member
    obtain ⟨position', here⟩ := List.getElem?_of_mem member
    by_cases same : position' = position
    · subst same
      rw [List.getElem?_set_self inside] at here
      exact chained chain (Option.some.inj here)
    · rw [List.getElem?_set_ne (Ne.symm same)] at here
      obtain ⟨nonempty, linked⟩ :=
        fieldsAt.chains chain (List.mem_of_getElem? here)
      refine ⟨nonempty, linked.frame fun slot inside => frame slot fun owned => ?_⟩
      exact slots_disjoint nodup same here found
        (by simpa [FieldImage.slots] using inside) owned

end Layouts

section Live

variable {img : Image} {world : World} {id fuel position : Nat}
  {node : NodeImage} {field : FieldImage} {record : KeyNode}
  {newValue : CharPtr} {post : CrudStatus → World → Prop}

/-- A live node after one of its fields has been exchanged for one that uses
the same slots. -/
theorem LiveNode.setField {file file' : List UInt8} {field' : FieldImage}
    {recs : Nat → Option KeyNode} (live : LiveNode img id node file)
    (fieldFound : node.fields[position]? = some field)
    (sameSlots : field'.slots = field.slots)
    (holds : Image.Holds { img with recs := recs } file')
    (nodeAt : NodeAt img.slotOffset recs img.types id
      (node.setField position field')) :
    LiveNode { img with recs := recs } id (node.setField position field')
      file' := by
  refine ⟨holds, live.entry, nodeAt, ?_⟩
  rw [NodeImage.setField_slots fieldFound sameSlots]
  exact live.nodup

/-- Every field has its word inside the record. -/
theorem LiveNode.word_inside {file : List UInt8}
    (live : LiveNode img id node file)
    (inside : position < img.types.length) :
    8 * position + 8 ≤ img.realSize := by
  have := live.holds.types_length
  have := mul_le_getRealNodeSize img.templateSize
  simp only [Image.realSize]
  omega

/-- A tuple is no record of its own strings. -/
theorem LiveNode.tuple_fresh {file : List UInt8}
    (live : LiveNode img id node file) :
    node.slot ∉ node.fields.flatMap FieldImage.slots := fun strings =>
  (List.nodup_append.mp live.nodup).2.2 _ strings _ (List.mem_singleton_self _)
    rfl

/-- `updateNode` on a live id, once it has read the tuple. -/
theorem LiveNode.wp_updateNode_read {type : Nat}
    (live : LiveNode img id node world.file)
    (known : img.recs node.slot = some record)
    (typed : img.types[position]? = some type)
    (next : ∀ read pos blocks, read.take img.realSize = record.data →
      img.realSize ≤ read.length →
      wp (do
        if type = STRING then
          let _ ← changeStrNode fuel
            ((KeyNode.mk record.header read).word position) newValue
            (getRealNodeSize img.templateSize)
        else
          let behind ← malloc (8 - newValue.length)
          fseekSet (toLong (img.slotOffset node.slot))
          let _ ← writeNode ((KeyNode.mk record.header read).setWord position
            (leValue ((newValue ++ behind).take 8)))
            (getRealNodeSize img.templateSize)
        return .success) post { world with pos := pos, blocks := blocks }) :
    wp (updateNode fuel position newValue id) post world := by
  have inside := (live.holds.record _ _ known).2.1
  rw [updateNode, wp_bind]
  refine live.holds.wp_getTypes fun blocks => ?_
  rw [wp_bind]
  refine wp_index typed ?_
  rw [wp_bind]
  refine wp_unsetWord fun word blocks => ?_
  rw [wp_bind]
  refine LiveNode.wp_convItoO (by exact live) fun pos blocks => ?_
  rw [wp_bind]
  refine Image.Holds.wp_seek (by exact live.holds) inside.le rfl ?_
  rw [wp_bind]
  refine Image.Holds.wp_readNode_template (by exact live.holds) known rfl rfl
    ?_
  intro read status pos blocks started long
  exact next read pos blocks started long

/-- `updateNode` on a number overwrites one word of the tuple. -/
theorem LiveNode.wp_updateNode_number
    (live : LiveNode img id node world.file)
    (known : img.recs node.slot = some record)
    (inside : position < img.types.length)
    (number : img.types[position]? ≠ some STRING)
    (next : ∀ word pos blocks, word < 2 ^ 64 →
      (8 ≤ newValue.length → word = leValue (newValue.take 8)) →
      post .success
        { world with
          file := writeAt world.file (img.slotOffset node.slot)
            (record.setWord position word).bytes
          pos := pos
          blocks := blocks }) :
    wp (updateNode fuel position newValue id) post world := by
  obtain ⟨-, slotInside, fits, -⟩ := live.holds.record _ _ known
  have wordInside := live.word_inside inside
  have realPositive : 0 < img.realSize := by omega
  have typed := List.getElem?_eq_getElem inside
  rw [typed, ne_eq, Option.some.injEq] at number
  refine live.wp_updateNode_read known typed fun read pos blocks started long =>
    ?_
  rw [if_neg number, wp_bind]
  refine wp_malloc fun behind blocks behindSized => ?_
  obtain ⟨word, wordEq⟩ : ∃ word,
      word = leValue ((newValue ++ behind).take 8) := ⟨_, rfl⟩
  have wordSmall : word < 2 ^ 64 := by
    have bound := leValue_lt ((newValue ++ behind).take 8)
    have : ((newValue ++ behind).take 8).length = 8 := by
      rw [List.length_take, List.length_append]
      omega
    rw [this] at bound
    rw [wordEq]
    exact bound
  have stored : ((KeyNode.mk record.header read).setWord position
      word).data.take img.realSize = (record.setWord position word).data := by
    rw [KeyNode.setWord, take_writeAt (by simpa using wordInside), started]
    rfl
  rw [← wordEq, wp_bind]
  refine Image.Holds.wp_seek (by exact live.holds) slotInside.le rfl ?_
  rw [wp_bind]
  refine wp_writeNode_at realPositive ?_ fun blocks => ?_
  · rw [KeyNode.setWord_length (by exact le_trans wordInside long)]
    exact long
  · rw [wp_pure, stored]
    exact next word _ blocks wordSmall fun enough => by
      rw [wordEq, List.take_append_of_le_length enough]

/-- A live node after one of its numbers has been overwritten. -/
theorem LiveNode.setWord {file : List UInt8} {old word : Nat}
    (live : LiveNode img id node file)
    (known : img.recs node.slot = some record)
    (fieldFound : node.fields[position]? = some (.num old))
    (small : word < 2 ^ 64) :
    LiveNode (img.setRec node.slot (record.setWord position word)) id
      (node.setField position (.num word))
      (writeAt file (img.slotOffset node.slot)
        (record.setWord position word).bytes) := by
  obtain ⟨behind, slotInside, fits, -⟩ := live.holds.record _ _ known
  have nodeAt := live.nodeAt
  obtain ⟨_, same, tupleAt⟩ := nodeAt.tuple
  cases known.symm.trans same
  have fieldInside := (List.getElem?_eq_some_iff.mp fieldFound).1
  have wordInside := live.word_inside (nodeAt.fieldsAt.count ▸ fieldInside)
  have fits' : (record.setWord position word).Fits img.realSize := by
    refine ⟨fits.parentNode, fits.allocNode, ?_⟩
    rw [KeyNode.setWord_length (by rw [fits.data_length]; exact wordInside),
      fits.data_length]
  refine live.setField fieldFound rfl
    (live.holds.setRec behind slotInside fits')
    ⟨⟨_, Function.update_self _ _ _, tupleAt.header, ?_⟩, ?_⟩
  · intro position' field' here
    by_cases same : position' = position
    · subst same
      rw [NodeImage.setField, List.getElem?_set_self fieldInside] at here
      cases here
      exact KeyNode.word_setWord small
    · rw [NodeImage.setField, List.getElem?_set_ne (Ne.symm same)] at here
      have inside' := live.word_inside (nodeAt.fieldsAt.count ▸
        (List.getElem?_eq_some_iff.mp here).1)
      rw [KeyNode.word_setWord_of_ne same (by rw [fits.data_length]; exact inside')]
      exact tupleAt.words _ _ here
  · refine FieldsAt.set (nodeAt.fieldsAt.frame fun slot strings =>
        img.setRec_recs_of_ne (ne_of_mem_of_not_mem strings live.tuple_fresh) _)
      fieldFound (List.nodup_append.mp live.nodup).1
      ⟨by rintro ⟨_, ⟨⟩⟩, by rintro ⟨_, ⟨⟩⟩⟩
      (fun _ _ => rfl) (by rintro _ ⟨⟩)

/-- `updateNode` with a string that fills some records of the field exactly. -/
theorem LiveNode.wp_updateNode_string {chain : List (Nat × List UInt8)}
    {count : Nat} (live : LiveNode img id node world.file)
    (fieldFound : node.fields[position]? = some (.str chain))
    (terminated : 0 ∈ newValue) (positive : 0 < count)
    (fitting : count ≤ chain.length)
    (filled : (textOf newValue).length = img.realSize * count)
    (enough : img.top ≤ fuel)
    (next : ∀ recs file pos blocks,
      (∀ slot, slot ∉ chain.map Prod.fst → recs slot = img.recs slot) →
      LiveNode { img with recs := recs } id (node.setField position
        (.str (overwrite img.realSize count chain newValue))) file →
      post .success
        { world with file := file, pos := pos, blocks := blocks }) :
    wp (updateNode fuel position newValue id) post world := by
  have nodeAt := live.nodeAt
  obtain ⟨record, known, tupleAt⟩ := nodeAt.tuple
  have chainMember := List.mem_of_getElem? fieldFound
  have fieldInside := (List.getElem?_eq_some_iff.mp fieldFound).1
  have fieldsNodup := (List.nodup_append.mp live.nodup).1
  have typed := (nodeAt.fieldsAt.typed _ _ fieldFound).mpr ⟨chain, rfl⟩
  have wordInside := live.word_inside (nodeAt.fieldsAt.count ▸ fieldInside)
  obtain ⟨nonempty, linked⟩ := nodeAt.fieldsAt.chains chain chainMember
  have short := live.chain_length_le chainMember
  refine live.wp_updateNode_read known typed fun read pos blocks started long =>
    ?_
  rw [if_pos rfl, Image.word_of_take started wordInside,
    tupleAt.words _ _ fieldFound, wp_bind]
  refine Image.Holds.wp_changeStrNode (by exact live.holds) linked
    ((List.nodup_flatMap.mp fieldsNodup).1 _ chainMember) rfl rfl terminated
    filled positive fitting (by omega) ?_ ?_
  · have scaled := Nat.mul_le_mul_left img.recordSize (fitting.trans short)
    have lengthEq := live.holds.length_eq
    have := live.holds.small
    rw [Image.recordSize, Nat.add_mul] at scaled
    rw [Image.slotOffset, Image.recordSize] at lengthEq
    omega
  · intro recs file pos blocks written frame chained
    rw [wp_pure]
    refine next recs file pos blocks frame
      (live.setField fieldFound (by simp [FieldImage.slots]) written
        ⟨⟨record, ?_, tupleAt.header, ?_⟩, ?_⟩)
    · have outside : node.slot ∉ chain.map Prod.fst := fun inside =>
        live.tuple_fresh (NodeImage.chain_slots_subset chainMember inside)
      exact (frame node.slot outside).trans known
    · intro position' field' here
      by_cases same : position' = position
      · subst same
        rw [NodeImage.setField, List.getElem?_set_self fieldInside] at here
        cases here
        rw [FieldImage.word, overwrite_link]
        exact tupleAt.words _ _ fieldFound
      · rw [NodeImage.setField, List.getElem?_set_ne (Ne.symm same)] at here
        exact tupleAt.words _ _ here
    · refine nodeAt.fieldsAt.set fieldFound fieldsNodup
        ⟨fun _ => ⟨_, rfl⟩, fun _ => ⟨_, rfl⟩⟩ frame ?_
      rintro _ ⟨rfl⟩
      exact ⟨overwrite_ne_nil nonempty, chained⟩

/-- `updateNode` on a live id exchanges one field of the node. -/
theorem LiveNode.wp_updateNode (live : LiveNode img id node world.file)
    (fieldFound : node.fields[position]? = some field)
    (takes : field.Takes img.realSize newValue) (enough : img.top ≤ fuel)
    (next : ∀ field' recs file pos blocks,
      field.Updated img.realSize newValue field' →
      (∀ slot, slot ∉ node.slots → recs slot = img.recs slot) →
      LiveNode { img with recs := recs } id (node.setField position field')
        file →
      post .success
        { world with file := file, pos := pos, blocks := blocks }) :
    wp (updateNode fuel position newValue id) post world := by
  cases field with
  | num old =>
      obtain ⟨record, known, -⟩ := live.nodeAt.tuple
      have fieldInside := (List.getElem?_eq_some_iff.mp fieldFound).1
      have number : img.types[position]? ≠ some STRING := by
        intro string
        obtain ⟨_, ⟨⟩⟩ := (live.nodeAt.fieldsAt.typed _ _ fieldFound).mp string
      refine live.wp_updateNode_number known
        (live.nodeAt.fieldsAt.count ▸ fieldInside) number ?_
      intro word pos blocks small stored
      refine next _ _ _ pos blocks (.num stored) (fun slot outside => ?_)
        (live.setWord known fieldFound small)
      refine img.setRec_recs_of_ne ?_ _
      rintro rfl
      exact outside (by simp [NodeImage.slots])
  | str chain =>
      obtain ⟨terminated, count, positive, fitting, filled⟩ := takes
      refine live.wp_updateNode_string fieldFound terminated positive fitting
        filled enough ?_
      intro recs file pos blocks frame live'
      refine next _ recs file pos blocks (.str filled) (fun slot outside => ?_)
        live'
      exact frame slot fun inside => outside (List.mem_append_left _
        (NodeImage.chain_slots_subset (List.mem_of_getElem? fieldFound) inside))

end Live

section Store

variable {img : Image} {world : World} {nodes : List NodeImage} {id : Nat}
  {node : NodeImage} {field : FieldImage}

/-- The store after a node has been exchanged for one that uses the same
slots. -/
theorem StoreAt.update {file file' : List UInt8} {node' : NodeImage}
    (store : StoreAt img nodes file) (found : nodes[id]? = some node)
    (sameSlots : node'.slots = node.slots) (sameSlot : node'.slot = node.slot)
    {recs : Nat → Option KeyNode}
    (holds : Image.Holds { img with recs := recs } file')
    (frame : ∀ slot, slot ∉ node.slots → recs slot = img.recs slot)
    (nodeAt : NodeAt img.slotOffset recs img.types id node') :
    StoreAt { img with recs := recs } (nodes.set id node') file' := by
  refine ⟨holds, store.layout.update found sameSlots frame nodeAt, ?_, ?_,
    store.fresh⟩
  · rw [List.length_set]
    exact store.count
  · intro id' found' here
    by_cases same : id' = id
    · subst same
      rw [List.getElem?_set_self (List.getElem?_eq_some_iff.mp found).1] at here
      cases here
      rw [sameSlot]
      exact store.root id' node found
    · rw [List.getElem?_set_ne (Ne.symm same)] at here
      exact store.root id' found' here

/-- `updateNode` on a live id exchanges one field of the node. -/
theorem StoreAt.wp_updateNode {fuel position : Nat} {newValue : CharPtr}
    {post : CrudStatus → World → Prop} (store : StoreAt img nodes world.file)
    (found : nodes[id]? = some node)
    (fieldFound : node.fields[position]? = some field)
    (takes : field.Takes img.realSize newValue) (enough : img.top ≤ fuel)
    (next : ∀ field' recs file pos blocks,
      field.Updated img.realSize newValue field' →
      StoreAt { img with recs := recs }
        (nodes.set id (node.setField position field')) file →
      post .success
        { world with file := file, pos := pos, blocks := blocks }) :
    wp (updateNode fuel position newValue id) post world := by
  apply (store.liveNode found).wp_updateNode fieldFound takes enough
  intro field' recs file pos blocks updated frame live
  exact next field' recs file pos blocks updated (store.update found
    (NodeImage.setField_slots fieldFound updated.slots_eq) rfl live.holds frame
    live.nodeAt)

end Store

end TreeStore
