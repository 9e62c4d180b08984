import TreeStore.ReadBack

/-!
# Replacing a stored string

`changeStrNode` writes a string over the records of an old one.  Here its loop
is run with a trace of the counter, and the call with strings that are longer
than the chain: the records for the rest are appended, and their links count
from the position behind the last record of the chain.
-/

namespace TreeStore

open ByteFile ProgramLogic LinkedRecords

/-- The loop of `changeStrNode`, together with the values that `lenght` has when
its rounds begin. -/
def changeStrLoopTraced (size : Nat) :
    Nat → Nat → CharPtr → Nat → Prog (ChangeState × List Nat)
  | 0, _, _, _ => throw .outOfFuel
  | fuel + 1, offset, newStr, lenght => do
      fseekSet (toLong offset)
      let (curNode, _) ← readNode size
      fseekSet (toLong offset)
      let _ ← writeNode { curNode with data := newStr } size
      let rest := (lenght + 2 ^ 64 - size) % 2 ^ 64
      if curNode.header.nextNode ≠ 0 ∧ rest > 0 then
        let (final, later) ← changeStrLoopTraced size fuel
          curNode.header.nextNode (newStr.drop size) rest
        return (final, lenght :: later)
      else
        return ({
          header := curNode.header
          data := newStr
          offset := offset
          newStr := newStr.drop size
          lenght := rest }, [lenght])

/-- Without the trace it is the loop. -/
theorem fst_changeStrLoopTraced (size fuel offset : Nat) (newStr : CharPtr)
    (lenght : Nat) :
    Prod.fst <$> changeStrLoopTraced size fuel offset newStr lenght =
      changeStrLoop size fuel offset newStr lenght := by
  induction fuel generalizing offset newStr lenght with
  | zero => rfl
  | succ fuel ih =>
      rw [changeStrLoopTraced, changeStrLoop]
      simp only [map_bind]
      congr 1
      funext _
      congr 1
      funext read
      congr 1
      funext _
      congr 1
      funext _
      split_ifs
      · rw [← ih]
        simp only [map_eq_pure_bind, bind_assoc, pure_bind]
      · rfl

/-- The values of the counter in a chain of so many records. -/
def counterValues (size : Nat) : Nat → Nat → List Nat
  | 0, _ => []
  | count + 1, lenght =>
      let rest := (lenght + 2 ^ 64 - size) % 2 ^ 64
      lenght :: if count ≠ 0 ∧ rest > 0 then counterValues size count rest
        else []

/-- The counter never wraps exactly if the string is as long as the chain, or
fills some records of it. -/
theorem counterValues_ge_iff {size count lenght : Nat} (some_size : 0 < size)
    (some_count : 0 < count) (small : lenght < 2 ^ 64) :
    (∀ value ∈ counterValues size count lenght, size ≤ value) ↔
      size * count ≤ lenght ∨ (size ∣ lenght ∧ 0 < lenght) := by
  induction count generalizing lenght with
  | zero => exact absurd some_count (Nat.lt_irrefl 0)
  | succ count ih =>
      rw [counterValues, List.forall_mem_cons, Nat.mul_succ]
      by_cases enough : size ≤ lenght
      swap
      · constructor
        · rintro ⟨first, -⟩
          exact absurd first enough
        · rintro (long | ⟨fills, positive⟩)
          · omega
          · exact absurd (Nat.le_of_dvd positive fills) enough
      have restEq : (lenght + 2 ^ 64 - size) % 2 ^ 64 = lenght - size := by
        omega
      rw [restEq]
      by_cases more : count ≠ 0 ∧ lenght - size > 0
      · rw [if_pos more, ih (by omega) (by omega)]
        have fills : size ∣ lenght - size ↔ size ∣ lenght := by
          obtain ⟨left, rfl⟩ := Nat.exists_eq_add_of_le enough
          rw [Nat.add_sub_cancel_left, Nat.dvd_add_right (dvd_refl size)]
        rw [fills]
        constructor
        · rintro ⟨-, long | ⟨fills, -⟩⟩
          · exact Or.inl (by omega)
          · exact Or.inr ⟨fills, by omega⟩
        · rintro (long | ⟨fills, -⟩)
          · exact ⟨enough, Or.inl (by omega)⟩
          · exact ⟨enough, Or.inr ⟨fills, by omega⟩⟩
      · rw [if_neg more]
        simp only [enough, List.not_mem_nil, false_implies, implies_true,
          and_self, true_iff]
        by_cases last : count = 0
        · exact Or.inl (by simp [last, enough])
        · have whole : lenght = size := by omega
          exact Or.inr ⟨by rw [whole], by omega⟩

namespace Image

variable {img : Image} {world : World} {chain : List (Nat × List UInt8)}
  {before : Nat}

/-- Whatever is written, the values of the counter are the ones of a chain of
this length. -/
theorem Holds.wp_changeStrLoopTraced {fuel offset length size : Nat}
    {string : CharPtr} (holds : img.Holds world.file)
    (linked : Chain stringRecord img.slotOffset img.recs before chain)
    (distinct : (chain.map Prod.fst).Nodup) (template : size = img.realSize)
    (target : offset = link img.slotOffset chain) (nonempty : chain ≠ [])
    (enough : chain.length ≤ fuel) :
    wp (changeStrLoopTraced size fuel offset string length)
      (fun result _ =>
        result.2 = counterValues img.realSize chain.length length) world := by
  subst template target
  induction chain generalizing img world string length fuel before with
  | nil => exact absurd rfl nonempty
  | cons entry rest ih =>
      obtain ⟨slot, data⟩ := entry
      obtain ⟨fuel, rfl⟩ := Nat.exists_eq_add_one_of_ne_zero
        (Nat.ne_of_gt (lt_of_lt_of_le (Nat.succ_pos rest.length) enough))
      have known := linked.1
      obtain ⟨-, inside, fits, -⟩ := holds.record _ _ known
      have fresh : slot ∉ rest.map Prod.fst := (List.nodup_cons.mp distinct).1
      rw [changeStrLoopTraced, link, wp_bind]
      refine holds.wp_seek inside.le rfl ?_
      rw [wp_bind]
      refine Holds.wp_readNode holds known rfl ((le_double _).trans
        (le_getRealNodeSize _)) ?_
      intro read status pos blocks started long
      rw [wp_bind]
      refine Holds.wp_seek (by exact holds) inside.le rfl ?_
      rw [wp_bind]
      refine Holds.wp_writeNode_behind (by exact holds) known rfl rfl
        ⟨fits.parentNode, fits.allocNode⟩ ?_
      intro data' file pos blocks sized written
      dsimp only
      rw [List.length_cons, counterValues]
      cases rest with
      | nil =>
          rw [if_neg (by simp [stringRecord, link]), wp_pure]
          simp
      | cons second rest =>
          have notEnd : (stringRecord before
              (link img.slotOffset (second :: rest)) data).header.nextNode ≠
                0 := Nat.ne_of_gt img.slotOffset_pos
          by_cases more : (length + 2 ^ 64 - img.realSize) % 2 ^ 64 > 0
          · rw [if_pos ⟨notEnd, more⟩, if_pos ⟨by simp, more⟩, wp_bind]
            have linked' := linked.2.update_of_notMem fresh
              (some ⟨⟨before, link img.slotOffset (second :: rest)⟩, data'⟩)
            refine wp_mono (@ih (img.setRec slot _) ⟨file, pos, _, blocks⟩ _
              fuel _ _ written linked' (List.nodup_cons.mp distinct).2 (by simp)
              (by simpa using enough)) ?_
            intro result final trace
            rw [wp_pure]
            exact congrArg _ trace
          · rw [if_neg (fun both => more both.2),
              if_neg (fun both => more both.2), wp_pure]

/-- The rest of a string is appended and linked behind the last record of a
chain; its own links count from the position behind that record. -/
theorem Holds.wp_appendRest {front : List (Nat × List UInt8)}
    {slot offset size : Nat} {header : NodeHeader} {payload : List UInt8}
    {string : CharPtr} {post : CrudStatus → World → Prop}
    (holds : img.Holds world.file)
    (leads : Leads stringRecord img.slotOffset img.recs (img.slotOffset slot)
      front)
    (known : img.recs slot = some ⟨header, payload.take img.realSize⟩)
    (long : img.realSize ≤ payload.length)
    (fresh : slot ∉ front.map Prod.fst)
    (template : size = img.realSize) (target : offset = img.slotOffset slot)
    (stands : world.pos = img.slotOffset (slot + 1)) (terminated : 0 ∈ string)
    (room : world.file.length + img.recordSize *
      recordCount (textOf string).length img.realSize < 2 ^ 63)
    (next : ∀ recs file payloads pos blocks,
      Spells img.realSize (textOf string) payloads →
      Holds ⟨img.schema, img.top + payloads.length, recs⟩ file →
      (∀ index < payloads.length, recs (img.top + index) =
        (img.stringRecords (img.slotOffset (slot + 1)) payloads)[index]?) →
      (∀ other < img.top, other ≠ slot → recs other = img.recs other) →
      Leads stringRecord img.slotOffset recs (img.slotOffset img.top)
        (front ++ [(slot, payload.take img.realSize)]) →
      post .success
        { world with file := file, pos := pos, blocks := blocks }) :
    wp (do
      let fpos ← insertNodeStr string size
      fseekSet (toLong offset)
      let _ ← writeNode
        { header := { header with allocNode := fpos }, data := payload } size
      return .success) post world := by
  subst template
  have large := getRealNodeSize_ge img.templateSize
  have slotInside := (holds.record slot _ known).2.1
  have topSmall : img.slotOffset img.top < 2 ^ 63 := by
    rw [← holds.length_eq]
    exact holds.small
  rw [wp_bind]
  refine holds.wp_insertNodeStr terminated ?_ room rfl ?_
  · rw [stands, holds.length_eq]
    exact img.slotOffset_mono slotInside
  intro payloads file blocks spells appended
  rw [stands] at appended
  have known' : (img.append (img.stringRecords (img.slotOffset (slot + 1))
      payloads)).recs slot = some ⟨header, payload.take img.realSize⟩ := by
    rw [append_recs_of_lt _ slotInside]
    exact known
  obtain ⟨-, below, fits, -⟩ := appended.record _ _ known'
  rw [wp_bind]
  refine Holds.wp_seek (by exact appended) below.le target ?_
  rw [wp_bind]
  refine Holds.wp_writeNode (by exact appended) known' target
    (by simp only [realSize]; omega) le_rfl
    ⟨fits.parentNode, by exact lt_trans topSmall (by norm_num)⟩ long ?_
  intro file' blocks rewritten
  rw [wp_pure]
  have whole : payload.take img.realSize ++
      (payload.take img.realSize).drop img.realSize =
        payload.take img.realSize := by
    rw [List.drop_take, Nat.sub_self, List.take_zero, List.append_nil]
  have topEq : (img.append (img.stringRecords (img.slotOffset (slot + 1))
      payloads)).top = img.top + payloads.length := by
    rw [append_top, stringRecords_length]
  have placed : Holds ⟨img.schema, img.top + payloads.length,
      ((img.append (img.stringRecords (img.slotOffset (slot + 1))
        payloads)).setRec slot ⟨⟨header.parentNode, img.slotOffset img.top⟩,
          payload.take img.realSize⟩).recs⟩ file' := by
    dsimp only at rewritten
    rw [whole] at rewritten
    rw [← topEq]
    exact rewritten
  refine next _ file' payloads _ blocks spells placed ?_ ?_ ?_
  · intro index inside
    rw [setRec_recs_of_ne _ (by omega), append_recs_add]
  · intro other old different
    rw [setRec_recs_of_ne _ different, append_recs_of_lt _ old]
  · refine leads_append.mpr ⟨leads.frame fun other member => ?_,
      ⟨⟨header.parentNode, ?_⟩, trivial⟩⟩
    · have different : other ≠ slot := ne_of_mem_of_not_mem member fresh
      obtain ⟨_, _, _, there, -⟩ := leads.exists_next member
      rw [setRec_recs_of_ne _ different,
        append_recs_of_lt _ (holds.record other _ there).2.1]
    · exact Function.update_self _ _ _

/-- `changeStrNode` with a string that is longer than the chain. -/
theorem Holds.wp_changeStrNode_grow {fuel offset size : Nat} {string : CharPtr}
    {post : CrudStatus → World → Prop} (holds : img.Holds world.file)
    (linked : Chain stringRecord img.slotOffset img.recs before chain)
    (distinct : (chain.map Prod.fst).Nodup) (template : size = img.realSize)
    (target : offset = link img.slotOffset chain) (nonempty : chain ≠ [])
    (terminated : 0 ∈ string)
    (long : img.realSize * chain.length < (textOf string).length)
    (enough : chain.length ≤ fuel)
    (room : world.file.length + img.recordSize * recordCount
      ((textOf string).length - img.realSize * chain.length) img.realSize <
        2 ^ 63)
    (small : (textOf string).length < 2 ^ 64)
    (next : ∀ recs file front slot data payloads pos blocks,
      chain = front ++ [(slot, data)] →
      Spells img.realSize
        ((textOf string).drop (img.realSize * chain.length)) payloads →
      Holds ⟨img.schema, img.top + payloads.length, recs⟩ file →
      (∀ index < payloads.length, recs (img.top + index) =
        (img.stringRecords (img.slotOffset (slot + 1)) payloads)[index]?) →
      (∀ other < img.top, other ∉ chain.map Prod.fst →
        recs other = img.recs other) →
      Leads stringRecord img.slotOffset recs (img.slotOffset img.top)
        (overwrite img.realSize chain.length chain string) →
      post .success
        { world with file := file, pos := pos, blocks := blocks }) :
    wp (changeStrNode fuel offset string size) post world := by
  have inside := textOf_length_le string
  rw [changeStrNode, wp_bind]
  refine wp_strlen terminated ?_
  rw [wp_bind]
  refine holds.wp_changeStrLoop linked distinct template target
    (List.length_pos_of_ne_nil nonempty) le_rfl enough
    (Nat.add_sub_cancel' long.le).symm (Or.inr rfl) small inside ?_
  intro final recs file slot blocks extra ends written frame chained
  obtain ⟨front, data, rest, chainEq, count⟩ := ends.position
  have last : rest = [] := by
    have := congrArg List.length chainEq
    rw [List.length_append, List.length_cons] at this
    exact List.length_eq_zero_iff.mp (by omega)
  subst last
  have sameLength : file.length = world.file.length := by
    rw [written.length_eq, holds.length_eq]
    rfl
  obtain ⟨stillTerminated, restEq⟩ := drop_terminated terminated long.le
  -- the last record of the chain is the one that the loop has written last
  obtain ⟨front', overwritten, fresh⟩ : ∃ front',
      overwrite img.realSize chain.length chain string =
        front' ++ [(slot, final.data.take img.realSize)] ∧
      slot ∉ front'.map Prod.fst := by
    have slots : (overwrite img.realSize chain.length chain string).map
        Prod.fst = front.map Prod.fst ++ [slot] := by
      rw [overwrite_slots, chainEq, List.map_append]
      rfl
    obtain ⟨front', last, split, frontEq, lastEq⟩ :=
      List.map_eq_append_iff.mp slots
    obtain ⟨⟨_, data'⟩, rfl, rfl⟩ := List.map_eq_singleton_iff.mp lastEq
    rw [split] at chained
    obtain ⟨⟨_, here⟩, -⟩ := (leads_append.mp chained.leads).2
    have dataEq : data' = final.data.take img.realSize := congrArg KeyNode.data
      (Option.some.inj (here.symm.trans ends.record))
    rw [chainEq, List.map_append] at distinct
    refine ⟨front', by rw [split, dataEq], ?_⟩
    rw [frontEq]
    intro member
    exact (List.nodup_append.mp distinct).2.2 _ member _ (by simp) rfl
  rw [if_pos (by omega), ends.newStr]
  refine @Holds.wp_appendRest { img with recs := recs }
    ⟨file, img.slotOffset (slot + 1), world.heap, blocks⟩ front' slot _ _ _ _ _
    _ written ?_ ends.record ends.enough fresh template ends.offset rfl
    stillTerminated ?_ ?_
  · rw [overwritten] at chained
    exact (leads_append.mp chained.leads).1
  · rw [restEq, List.length_drop, sameLength]
    exact room
  · intro recs' file' payloads pos blocks spells appended records frame' leads
    rw [restEq] at spells
    refine next recs' file' front slot data payloads pos blocks chainEq spells
      appended records (fun other old outside => ?_) ?_
    · have different : other ≠ slot := by
        rintro rfl
        exact outside (by simp [chainEq])
      exact (frame' other old different).trans (frame other outside)
    · rw [overwritten]
      exact leads

/-- What reading a chain delivers does not depend on the fuel. -/
theorem Holds.reads_iff {text : List UInt8} (holds : img.Holds world.file)
    (leads : Leads stringRecord img.slotOffset img.recs 0 chain)
    (nonempty : chain ≠ []) (short : chain.length ≤ img.top) :
    (∀ fuel, world.file.length ≤ fuel → wp (readStringFromNode fuel
      img.templateSize (link img.slotOffset chain))
      (fun block _ => cString block = some text) world) ↔
    cString (assemble img.realSize chain) = some text := by
  have bounded := short.trans holds.top_le_length
  constructor
  · intro reads
    have delivers : wp (readStringFromNode world.file.length img.templateSize
        (link img.slotOffset chain))
        (fun block _ => block = assemble img.realSize chain) world :=
      holds.wp_readStringFromNode leads nonempty bounded fun _ _ => rfl
    obtain ⟨_, _, -, found, rfl⟩ := wp_and (reads _ le_rfl) delivers
    exact found
  · intro found fuel enough
    exact holds.wp_readStringFromNode leads nonempty (bounded.trans enough)
      fun _ _ => found

end Image

section Texts

variable {realSize : Nat} {text : List UInt8}

theorem cString_append_iff (plain : 0 ∉ text) (rest : List UInt8) :
    cString (text ++ rest) = some text ↔ rest.head? = some 0 := by
  cases rest with
  | nil => simp [cString, plain]
  | cons char rest =>
      by_cases ends : char = 0
      · subst ends
        simp [cString_append_zero plain]
      · rw [List.head?_cons, Option.some.injEq, iff_false_right ends, cString]
        split_ifs with terminated
        · have longer : textOf (text ++ char :: rest) =
              text ++ char :: textOf rest := by
            rw [textOf, List.takeWhile_append, if_pos]
            · simp [textOf, ends]
            · exact congrArg List.length (textOf_eq_self plain)
          rw [longer]
          simp
        · simp

theorem head_strncpy {data : List UInt8} (positive : 0 < realSize)
    (sized : data.length = realSize) :
    (strncpy data realSize).head? = some 0 ↔ data.head? = some 0 := by
  subst sized
  cases data with
  | nil => simp at positive
  | cons char data =>
      rw [strncpy_eq]
      by_cases ends : char = 0
      · subst ends
        simp [textOf, List.replicate_succ]
      · simp [textOf, ends]

theorem assemble_append (first second : List (Nat × List UInt8)) :
    assemble realSize (first ++ second) =
      assemble realSize first ++ assemble realSize second :=
  List.flatMap_append

/-- The records that a string fills deliver its characters. -/
theorem assemble_overwrite {count : Nat} {chain : List (Nat × List UInt8)}
    {string : CharPtr} (terminated : 0 ∈ string)
    (long : realSize * count ≤ (textOf string).length)
    (fits : count ≤ chain.length) :
    assemble realSize (overwrite realSize count chain string) =
      (textOf string).take (realSize * count) ++
        assemble realSize (chain.drop count) := by
  induction count generalizing chain string with
  | zero => simp
  | succ count ih =>
      obtain ⟨⟨slot, data⟩, rest, rfl⟩ := List.exists_cons_of_ne_nil
        (List.ne_nil_of_length_pos (Nat.lt_of_lt_of_le (Nat.succ_pos _) fits))
      rw [Nat.mul_succ] at long ⊢
      obtain ⟨terminated', textEq⟩ :=
        drop_terminated terminated (show realSize ≤ _ by omega)
      have first : strncpy (string.take realSize) realSize =
          (textOf string).take realSize := by
        rw [strncpy_eq, textOf_take, List.take_take, Nat.min_self,
          List.length_take, Nat.min_eq_left (by omega), Nat.sub_self,
          List.replicate_zero, List.append_nil]
      have later := ih terminated' (by rw [textEq, List.length_drop]; omega)
        (show count ≤ rest.length by simpa using fits)
      rw [textEq] at later
      simp only [assemble] at later
      rw [overwrite, assemble, List.flatMap_cons, later, first, List.drop_succ_cons,
        assemble, ← List.append_assoc, ← List.take_add, Nat.add_comm]

theorem link_overwrite_append {address : Nat → Nat} {count : Nat}
    {chain : List (Nat × List UInt8)} {string : CharPtr} (nonempty : chain ≠ [])
    (more : List (Nat × List UInt8)) :
    link address (overwrite realSize count chain string ++ more) =
      link address chain := by
  cases chain with
  | nil => exact absurd rfl nonempty
  | cons entry rest => cases count <;> rfl

theorem overwrite_length {count : Nat} {chain : List (Nat × List UInt8)}
    {string : CharPtr} :
    (overwrite realSize count chain string).length = chain.length := by
  have slots : (overwrite realSize count chain string).map Prod.fst =
      chain.map Prod.fst := overwrite_slots
  have lengths := congrArg List.length slots
  rwa [List.length_map, List.length_map] at lengths

end Texts

end TreeStore
