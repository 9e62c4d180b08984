import TreeStore.InsertCommand

/-!
# Where the two ways to insert a node agree

An assignment is given to both: as pairs of texts, and as settings.  They hand
the same fields to `addNode` exactly if the pairs can be taken apart.
-/

namespace TreeStore

open ByteFile ProgramLogic Assignments Pieces

section Assigning

variable {strtod : CharPtr → UInt64} {template : List NodeAttributeInfo}
  {givens : List Given} {settings : List KeyValuePair} {given : Given}
  {info : NodeAttributeInfo}

theorem plain_of_digits {text : List UInt8} (numeral : Numeral text) :
    Plain text := by
  refine ⟨?_, ?_, ?_, ?_⟩
  all_goals
    intro member
    exact absurd (numeral.digits _ member) (by decide)

theorem Denotes.plain {type : Nat} (denotes : Denotes strtod type given)
    (small : type ≤ BOOL) : Plain given.text := by
  unfold Denotes at denotes
  rcases type_cases small with rfl | rfl | rfl | rfl
  · rw [if_pos rfl] at denotes
    exact plain_of_digits denotes.2.1
  · rw [if_neg (by decide), if_neg (by decide), if_pos rfl] at denotes
    exact denotes.2.1
  · rw [if_neg (by decide), if_neg (by decide), if_neg (by decide)] at denotes
    exact denotes.2.1
  · rw [if_neg (by decide), if_pos rfl] at denotes
    rcases denotes.2 with ⟨-, same⟩ | ⟨-, same⟩
    · rw [same]
      unfold Plain
      decide
    · rw [same]
      unfold Plain
      decide

/-- A setting that denotes a value passes the check of its type. -/
theorem Denotes.checked {type : Nat} (denotes : Denotes strtod type given)
    (small : type ≤ BOOL) : Checked given.kv (some type) := by
  unfold Denotes at denotes
  rcases type_cases small with rfl | rfl | rfl | rfl
  · rw [if_pos rfl] at denotes
    simp [Checked, INT, FLOAT, STRING, BOOL, denotes.1]
  · rw [if_neg (by decide), if_neg (by decide), if_pos rfl] at denotes
    simp [Checked, INT, FLOAT, STRING, BOOL, denotes.1]
  · rw [if_neg (by decide), if_neg (by decide), if_neg (by decide)] at denotes
    simp [Checked, INT, FLOAT, STRING, BOOL, denotes.1]
  · rw [if_neg (by decide), if_pos rfl] at denotes
    rcases denotes.2 with ⟨one, -⟩ | ⟨zero, -⟩
    · simp [Checked, INT, FLOAT, STRING, BOOL, one]
    · simp [Checked, INT, FLOAT, STRING, BOOL, zero]

theorem Assigns.exists_info (assigns : Assigns strtod template givens)
    (member : given ∈ givens) : ∃ info ∈ template,
      given.kv.keyText = info.nameText ∧ Denotes strtod info.type given := by
  obtain ⟨ordered, perm, all⟩ := assigns
  exact exists_left_of_forall₂ all (perm.mem_iff.mp member)

theorem Assigns.exists_given (assigns : Assigns strtod template givens)
    (member : info ∈ template) : ∃ given ∈ givens,
      given.kv.keyText = info.nameText ∧ Denotes strtod info.type given := by
  obtain ⟨ordered, perm, all⟩ := assigns
  obtain ⟨given, inside, holds⟩ := exists_left_of_forall₂ all.flip member
  exact ⟨given, perm.mem_iff.mpr inside, holds⟩

theorem Assigns.length_eq (assigns : Assigns strtod template givens) :
    givens.length = template.length := by
  obtain ⟨ordered, perm, all⟩ := assigns
  rw [perm.length_eq, all.length_eq]

theorem Assigns.keys (assigns : Assigns strtod template givens) :
    (givens.map (·.kv.keyText)).Perm (template.map (·.nameText)) := by
  obtain ⟨ordered, perm, all⟩ := assigns
  apply (perm.map (·.kv.keyText)).trans
  clear perm
  have same : ordered.map (·.kv.keyText) = template.map (·.nameText) := by
    induction all with
    | nil => rfl
    | cons first _ ih => rw [List.map_cons, List.map_cons, ih, first.1]
  rw [same]

/-- Where the names are different, the attribute with the name of a value is the
one that the value is for. -/
theorem Assigns.denotes (assigns : Assigns strtod template givens)
    (distinct : (template.map (·.nameText)).Nodup) (member : given ∈ givens)
    (inside : info ∈ template) (named : given.kv.keyText = info.nameText) :
    Denotes strtod info.type given := by
  obtain ⟨info', inside', named', denotes⟩ := assigns.exists_info member
  obtain rfl := List.inj_on_of_nodup_map distinct inside inside'
    (named.symm.trans named')
  exact denotes

theorem Assigns.accepted (assigns : Assigns strtod template givens)
    (typed : Typed template) (distinct : (template.map (·.nameText)).Nodup)
    (perm : settings.Perm (givens.map (·.kv))) : Accepted template settings where
  count := by rw [perm.length_eq, List.length_map, assigns.length_eq]
  checked := by
    intro kv member
    obtain ⟨given, known, rfl⟩ := List.mem_map.mp (perm.mem_iff.mp member)
    obtain ⟨info, inside, named, -⟩ := assigns.exists_info known
    obtain ⟨pPos, found⟩ := findAttr_of_mem inside named
    obtain ⟨info', here, named'⟩ := findAttr_eq_some found
    have denotes := assigns.denotes distinct known
      (List.mem_of_getElem? here) named'
    refine ⟨pPos, found, ?_⟩
    rw [List.getElem?_map, here]
    exact denotes.checked (typed info' (List.mem_of_getElem? here))

end Assigning

/-- A memory that holds the same byte everywhere. -/
def uniformMemory (byte : UInt8) : World := ⟨[], 0, fun _ _ => byte, 0⟩

theorem memorySlots_uniform {byte : UInt8} {count position : Nat}
    (inside : position < count) :
    (memorySlots (uniformMemory byte) count)[position]? =
      some (numberSlot (.ofNat (leValue (List.replicate 8 byte)))) := by
  have bytes : (List.range (count * 8)).map (fun _ : Nat => byte) =
      List.replicate (count * 8) byte := by
    simp
  unfold memorySlots uniformMemory leWords
  dsimp only
  rw [bytes, List.getElem?_map, List.getElem?_map,
    List.getElem?_range inside, Option.map_some, Option.map_some,
    List.drop_replicate, List.take_replicate,
    show min 8 (count * 8 - 8 * position) = 8 by omega]

section Agreement

variable {strtod : CharPtr → UInt64} {behind str : CharPtr}
  {template : List NodeAttributeInfo} {given : Given} {info : NodeAttributeInfo}
  {place address' : UInt64} {pPos : Nat} {slot slot' : Slot}

/-- A piece of a plain text is a C string as it stands. -/
theorem textOf_piece {piece text : List UInt8} (plain : Plain text)
    (inside : piece ⊆ text) : textOf piece = piece :=
  textOf_eq_self fun member => plain.1 (inside member)

theorem Findable.unequal {name : List UInt8} (findable : Findable behind name) :
    61 ∉ name := by
  intro member
  have cuts := findable.whole 61 member
  rw [decide_eq_false_iff_not] at cuts
  exact cuts (List.mem_cons_self ..)

/-- What a pair stores is what the setting stores exactly if the first piece of
its value reads as the value. -/
theorem sameField_iff (denotes : Denotes strtod info.type given)
    (small : info.type ≤ BOOL) (named : given.kv.keyText = info.nameText)
    (findable : Findable behind info.nameText)
    (words : textOf str = given.pair) (here : template[pPos]? = some info)
    (stores : Stores strtod behind template place str (pPos, slot))
    (value : insertValue address' given.kv (some info.type) =
      .ok (some slot')) :
    SameField info.type slot slot' ↔
      ∃ piece, (pieces (delimits behind) given.text)[0]? = some piece ∧
        Reads strtod info.type given.kv piece := by
  have plain := denotes.plain small
  rw [Given.pair, named] at words
  have second := split_value words plain findable
  have stored := stores.value
  rw [List.getElem?_map, here, Option.map_some] at stored
  constructor
  · intro same
    cases piece : (split behind str 61).2[1]? with
    | none => exact absurd same (insertText_missing piece small stored)
    | some piece' =>
        refine ⟨piece', second.symm.trans piece, ?_⟩
        have inside := (mem_pieces
          (List.mem_of_getElem? (second.symm.trans piece))).2.2
        exact (reads_iff denotes small piece (textOf_piece plain inside)
          value).mp ⟨slot, stored, same⟩
  · rintro ⟨piece, first, reads⟩
    have inside := (mem_pieces (List.mem_of_getElem? first)).2.2
    obtain ⟨slot'', stored', same⟩ := (@reads_iff strtod place address' _ _ _
      _ _ _ denotes small (second.trans first) (textOf_piece plain inside)
      value).mpr reads
    rw [stored] at stored'
    cases stored'
    exact same

/-- In a template with findable names, a pair whose value reads well stores
something in the field with its name. -/
theorem exists_stores_of_reads (denotes : Denotes strtod info.type given)
    (small : info.type ≤ BOOL) (named : given.kv.keyText = info.nameText)
    (findable : Findable behind info.nameText)
    (words : textOf str = given.pair) (inside : info ∈ template)
    (distinct : (template.map (·.nameText)).Nodup)
    (reads : ∃ piece, (pieces (delimits behind) given.text)[0]? = some piece ∧
      Reads strtod info.type given.kv piece) (place : UInt64) :
    ∃ write, Stores strtod behind template place str write := by
  have plain := denotes.plain small
  have words' := words
  rw [Given.pair, named] at words'
  have two := (@split_count behind str _ _ words' plain findable.unequal).mpr
    findable.newline
  have first : (split behind str 61).2[0]? = some info.nameText := by
    rw [split_key two, words', pieces_pair findable]
    rfl
  have same : textOf info.nameText = info.nameText := List.takeWhile_idem
  obtain ⟨pPos, found⟩ := findAttr_of_mem inside same
  obtain ⟨info', here, name⟩ := findAttr_eq_some found
  obtain rfl := List.inj_on_of_nodup_map distinct inside
    (List.mem_of_getElem? here) (same.symm.trans name)
  obtain ⟨slot', value⟩ := @insertValue_checked given.kv (some info.type) 0
    (denotes.checked small) ⟨_, rfl, small⟩
  obtain ⟨piece, cut, means⟩ := reads
  have second := split_value words' plain findable
  have part := (mem_pieces (List.mem_of_getElem? cut)).2.2
  obtain ⟨slot, stored, -⟩ := (@reads_iff strtod place 0 _ _ _ _ _ _ denotes
    small (second.trans cut) (textOf_piece plain part) value).mpr means
  refine ⟨(pPos, slot), two, ⟨_, first, found⟩, ?_⟩
  rw [List.getElem?_map, here]
  exact stored

end Agreement

section FrontEnds

variable {strtod : CharPtr → UInt64} {behind idStr : CharPtr}
  {address address' : Nat → UInt64} {template : List NodeAttributeInfo}
  {pairs : List CharPtr} {settings : List KeyValuePair} {givens : List Given}
  {parent : UInt64}

/-- Where the calls agree, the pairs store something in every field: what is
left in the array is in memory by chance. -/
theorem FrontEndsAgree.covers (typed : Typed template)
    (numeric : isNumeric idStr = true) (count : pairs.length = template.length)
    (agree : FrontEndsAgree strtod behind address address' idStr pairs settings
      parent template) :
    ∃ writes, List.Forall₂ (fun str write =>
        ∃ place, Stores strtod behind template place str write) pairs writes ∧
      (∀ memory, insertPairs strtod behind address template template.length 0
        pairs memory = .ok (.ok (assign writes memory))) ∧
      (writes.map Prod.fst).Perm (List.range template.length) := by
  obtain ⟨fields, fields', text, new, same⟩ :=
    agree (uniformMemory 0) (uniformMemory 0)
  obtain ⟨other, other', text', new', same'⟩ :=
    agree (uniformMemory 1) (uniformMemory 0)
  have parsed := ((handsOver_text_iff numeric).mp text).1
  have parsed' := ((handsOver_text_iff numeric).mp text').1
  have looped := (handsOver_settings_iff.mp new).1
  have looped' := (handsOver_settings_iff.mp new').1
  rw [looped] at looped'
  cases looped'
  obtain ⟨writes, all, assigns⟩ := insertPairs_assigns typed parsed count
  rw [assigns] at parsed parsed'
  cases parsed
  cases parsed'
  refine ⟨writes, all, assigns, ?_⟩
  have covered : ∀ position < template.length,
      position ∈ writes.map Prod.fst := by
    intro position inside
    by_contra absent
    have here := List.getElem?_eq_getElem inside
    have kept := List.getElem?_eq_getElem (same.length'.symm ▸ inside)
    have first := same.same position _ _ _ here
      ((assign_of_notMem absent).trans (memorySlots_uniform inside)) kept
    have second := same'.same position _ _ _ here
      ((assign_of_notMem absent).trans (memorySlots_uniform inside)) kept
    by_cases string : template[position].type = STRING
    · rw [SameField, if_pos string] at first
      cases first.1
    · rw [sameField_number string] at first second
      exact absurd (first.trans second.symm) (by decide)
  have enough : (writes.map Prod.fst).length = template.length := by
    rw [List.length_map, ← all.length_eq, count]
  have subperm : List.Subperm (List.range template.length)
      (writes.map Prod.fst) := by
    apply List.nodup_range.subperm
    intro position member
    exact covered position (List.mem_range.mp member)
  exact (subperm.perm_of_length_le (by
    rw [enough, List.length_range])).symm

/-- Names are different where each of them leads to its own field. -/
theorem distinct_of_covered
    (covered : ∀ position < template.length, ∃ key,
      findAttr key template = some position) :
    (template.map (·.nameText)).Nodup := by
  rw [List.Nodup, List.pairwise_iff_getElem]
  intro i j first second less same
  rw [List.length_map] at second
  obtain ⟨key, found⟩ := covered j second
  obtain ⟨_, here, earlier⟩ := List.findIdx?_eq_some_iff_getElem.mp found
  have here := of_decide_eq_true here
  have earlier := earlier i less
  rw [List.getElem_map, List.getElem_map] at same
  rw [decide_eq_true_iff] at earlier
  apply earlier
  exact here.trans same.symm

theorem exists_given_of_pair
    (texts : pairs.map textOf = givens.map Given.pair) {str : CharPtr}
    (member : str ∈ pairs) : ∃ given ∈ givens, textOf str = given.pair := by
  have inside : textOf str ∈ givens.map Given.pair :=
    texts ▸ List.mem_map_of_mem member
  obtain ⟨given, known, same⟩ := List.mem_map.mp inside
  exact ⟨given, known, same.symm⟩

theorem exists_pair_of_given
    (texts : pairs.map textOf = givens.map Given.pair) {given : Given}
    (member : given ∈ givens) : ∃ str ∈ pairs, textOf str = given.pair := by
  have inside : given.pair ∈ pairs.map textOf :=
    texts ▸ List.mem_map_of_mem member
  exact List.mem_map.mp inside

/-- A name that a pair stores under is findable. -/
theorem findable_of_stores (typed : Typed template)
    (assigns : Assigns strtod template givens)
    (texts : pairs.map textOf = givens.map Given.pair)
    {writes : List (Nat × Slot)}
    (all : List.Forall₂ (fun str write =>
      ∃ place, Stores strtod behind template place str write) pairs writes)
    (covered : (writes.map Prod.fst).Perm (List.range template.length))
    {info : NodeAttributeInfo} (inside : info ∈ template) :
    Findable behind info.nameText := by
  obtain ⟨position, here⟩ := List.mem_iff_getElem?.mp inside
  have small := (List.getElem?_eq_some_iff.mp here).1
  obtain ⟨⟨_, slot⟩, written, rfl⟩ := List.mem_map.mp
    (covered.mem_iff.mpr (List.mem_range.mpr small))
  obtain ⟨str, known, place, stores⟩ := exists_left_of_forall₂ all written
  obtain ⟨key, first, found⟩ := stores.key
  obtain ⟨info', here', name⟩ := findAttr_eq_some found
  dsimp only at here here'
  rw [here] at here'
  cases here'
  rw [split_key stores.count] at first
  obtain ⟨nonempty, whole, part⟩ := mem_pieces (List.mem_of_getElem? first)
  have plain : textOf key = key := by
    apply textOf_eq_self
    intro member
    exact absurd (List.mem_takeWhile_imp (part member)) (by decide)
  rw [plain] at name
  rw [← name]
  refine ⟨nonempty, ?_, whole⟩
  -- a newline in the name would end the count of the pair that gives its value
  obtain ⟨given, given_mem, named, denotes⟩ := assigns.exists_given inside
  obtain ⟨str', known', words⟩ := exists_pair_of_given texts given_mem
  obtain ⟨_, _, _, stores'⟩ := exists_left_of_forall₂ all.flip known'
  rw [Given.pair, named, ← name] at words
  apply (@split_count behind str' _ _ words (denotes.plain (typed _ inside))
    _).mp stores'.count
  intro member
  have cuts := whole 61 member
  rw [decide_eq_false_iff_not] at cuts
  exact cuts (List.mem_cons_self ..)

/-- A pair stores in the field with its name. -/
theorem stores_position {str : CharPtr} {info : NodeAttributeInfo}
    {text : List UInt8} {place : UInt64} {position : Nat} {slot : Slot}
    (distinct : (template.map (·.nameText)).Nodup) (inside : info ∈ template)
    (findable : Findable behind info.nameText)
    (words : textOf str = info.nameText ++ 61 :: text)
    (stores : Stores strtod behind template place str (position, slot)) :
    template[position]? = some info := by
  obtain ⟨key, first, found⟩ := stores.key
  rw [split_key stores.count, words, pieces_pair findable] at first
  obtain rfl := Option.some.inj first
  obtain ⟨info', here, name⟩ := findAttr_eq_some found
  have same : textOf info.nameText = info.nameText := List.takeWhile_idem
  obtain rfl := List.inj_on_of_nodup_map distinct inside
    (List.mem_of_getElem? here) (same.symm.trans name)
  exact here

/-- A setting stores in the field with its name. -/
theorem exists_setting_field (typed : Typed template)
    (assigns : Assigns strtod template givens)
    (distinct : (template.map (·.nameText)).Nodup)
    (perm : settings.Perm (givens.map (·.kv))) {given : Given}
    {info : NodeAttributeInfo} {position : Nat} {memory fields' : List Slot}
    (member : given ∈ givens) (here : template[position]? = some info)
    (named : given.kv.keyText = info.nameText)
    (sized : memory.length = template.length)
    (loop : insertLoop address' template 0 settings none memory =
      .ok fields') :
    ∃ place slot', insertValue place given.kv (some info.type) =
      .ok (some slot') ∧ fields'[position]? = some slot' := by
  have accepted := assigns.accepted typed distinct perm
  have keys : (settings.map (·.keyText)).Nodup := by
    rw [(perm.map (·.keyText)).nodup_iff, List.map_map]
    exact assigns.keys.nodup_iff.mpr distinct
  obtain ⟨writes', assigned, loops⟩ :=
    insertLoop_passes address' typed accepted.checked 0
  rw [loops] at loop
  cases loop
  obtain ⟨kv, known, slot', one, -, stored⟩ := exists_assigned accepted keys
    assigned sized (List.getElem?_eq_some_iff.mp here).1
  obtain ⟨info', here', name⟩ := findAttr_eq_some one.place
  dsimp only at here here'
  rw [here] at here'
  cases here'
  have inside : given.kv ∈ settings :=
    perm.mem_iff.mpr (List.mem_map_of_mem member)
  obtain rfl := List.inj_on_of_nodup_map keys known inside
    (name.trans named.symm)
  obtain ⟨place, value⟩ := one.value
  rw [List.getElem?_map, here] at value
  exact ⟨place, slot', value, stored⟩

/-- Where the calls agree, the pairs can be taken apart. -/
theorem FrontEndsAgree.separable (typed : Typed template)
    (assigns : Assigns strtod template givens)
    (texts : pairs.map textOf = givens.map Given.pair)
    (perm : settings.Perm (givens.map (·.kv)))
    (numeric : isNumeric idStr = true)
    (agree : FrontEndsAgree strtod behind address address' idStr pairs settings
      parent template) : Separable strtod behind template givens := by
  have count : pairs.length = template.length := by
    have lengths := congrArg List.length texts
    rw [List.length_map, List.length_map] at lengths
    exact lengths.trans assigns.length_eq
  obtain ⟨writes, all, parses, covered⟩ := agree.covers typed numeric count
  have distinct : (template.map (·.nameText)).Nodup := by
    apply distinct_of_covered
    intro position inside
    obtain ⟨⟨_, slot⟩, written, rfl⟩ := List.mem_map.mp
      (covered.mem_iff.mpr (List.mem_range.mpr inside))
    obtain ⟨str, -, place, stores⟩ := exists_left_of_forall₂ all written
    obtain ⟨key, -, found⟩ := stores.key
    exact ⟨key, found⟩
  have names : ∀ info ∈ template, Findable behind info.nameText :=
    fun info inside => findable_of_stores typed assigns texts all covered inside
  refine ⟨distinct, names, ?_⟩
  intro given member info inside named
  have denotes := assigns.denotes distinct member inside named
  have findable := names info inside
  obtain ⟨str, known, words⟩ := exists_pair_of_given texts member
  obtain ⟨⟨position, slot⟩, written, place, stores⟩ :=
    exists_left_of_forall₂ all.flip known
  have here : template[position]? = some info := by
    apply stores_position distinct inside findable _ stores
    · exact given.text
    · rw [words, Given.pair, named]
  obtain ⟨fields, fields', text, new, same⟩ :=
    agree (uniformMemory 0) (uniformMemory 0)
  have parsed := ((handsOver_text_iff numeric).mp text).1
  rw [parses] at parsed
  cases parsed
  have nodup := covered.nodup_iff.mpr List.nodup_range
  have stored : (assign writes (memorySlots (uniformMemory 0)
      template.length))[position]? = some slot := by
    apply assign_of_mem nodup written
    rw [memorySlots_length]
    exact (List.getElem?_eq_some_iff.mp here).1
  obtain ⟨place', slot', value, stored'⟩ := exists_setting_field typed assigns
    distinct perm member here named (memorySlots_length _ _)
    (handsOver_settings_iff.mp new).1
  exact (sameField_iff denotes (typed info inside) named findable words here
    stores value).mp (same.same position info slot slot' here stored stored')

/-- Pairs that can be taken apart make the calls agree. -/
theorem Separable.agree (typed : Typed template)
    (assigns : Assigns strtod template givens)
    (texts : pairs.map textOf = givens.map Given.pair)
    (perm : settings.Perm (givens.map (·.kv)))
    (numeric : isNumeric idStr = true)
    (number : parent = .ofNat (strtolDigits idStr))
    (separable : Separable strtod behind template givens) :
    FrontEndsAgree strtod behind address address' idStr pairs settings parent
      template := by
  have count : pairs.length = template.length := by
    have lengths := congrArg List.length texts
    rw [List.length_map, List.length_map] at lengths
    exact lengths.trans assigns.length_eq
  have distinct := separable.distinct
  have accepted := assigns.accepted typed distinct perm
  have everywhere : ∀ str ∈ pairs, ∀ place, ∃ write,
      Stores strtod behind template place str write := by
    intro str known place
    obtain ⟨given, member, words⟩ := exists_given_of_pair texts known
    obtain ⟨info, inside, named, denotes⟩ := assigns.exists_info member
    exact exists_stores_of_reads denotes (typed info inside) named
      (separable.names info inside) words inside distinct
      (separable.values given member info inside named) place
  obtain ⟨writes, all, parses⟩ := @exists_insertPairs strtod behind address
    template pairs template.length 0 everywhere count
  obtain ⟨writes', assigned, loops⟩ :=
    insertLoop_passes address' typed accepted.checked 0
  -- every field has a pair
  have stored (position : Nat) (info : NodeAttributeInfo)
      (here : template[position]? = some info) :
      ∃ given ∈ givens, given.kv.keyText = info.nameText ∧ ∃ str,
        textOf str = given.pair ∧ ∃ slot, (position, slot) ∈ writes ∧
          ∃ place, Stores strtod behind template place str (position, slot) := by
    have inside := List.mem_of_getElem? here
    obtain ⟨given, member, named, -⟩ := assigns.exists_given inside
    obtain ⟨str, known, words⟩ := exists_pair_of_given texts member
    obtain ⟨⟨position', slot⟩, written, place, stores⟩ :=
      exists_left_of_forall₂ all.flip known
    have here' : template[position']? = some info := by
      apply stores_position distinct inside (separable.names info inside) _
        stores
      · exact given.text
      · rw [words, Given.pair, named]
    have same : position' = position := by
      apply (List.getElem?_inj (List.getElem?_eq_some_iff.mp here').1
        (List.Nodup.of_map _ distinct)).mp
      rw [here, here']
    subst same
    exact ⟨given, member, named, str, words, slot, written, place, stores⟩
  have nodup : (writes.map Prod.fst).Nodup := by
    have subperm : List.Subperm (List.range template.length)
        (writes.map Prod.fst) := by
      apply List.nodup_range.subperm
      intro position small
      obtain ⟨_, _, _, _, _, slot, written, -⟩ := stored position _
        (List.getElem?_eq_getElem (List.mem_range.mp small))
      exact List.mem_map_of_mem written
    have covered := subperm.perm_of_length_le (by
      rw [List.length_range, List.length_map, ← all.length_eq, count])
    exact covered.nodup_iff.mp List.nodup_range
  intro world world'
  refine ⟨assign writes (memorySlots world template.length),
    assign writes' (memorySlots world' template.length),
    (handsOver_text_iff numeric).mpr ⟨parses _, number⟩,
    handsOver_settings_iff.mpr ⟨loops _, accepted.count⟩, ?_, ?_, ?_⟩
  · rw [assign_length, memorySlots_length]
  · rw [assign_length, memorySlots_length]
  · intro position info slot slot' here found found'
    have inside := List.mem_of_getElem? here
    obtain ⟨given, member, named, str, words, slot'', written, place, stores⟩ :=
      stored position info here
    have whole : (assign writes (memorySlots world template.length))[position]?
        = some slot'' := by
      apply assign_of_mem nodup written
      rw [memorySlots_length]
      exact (List.getElem?_eq_some_iff.mp here).1
    rw [whole] at found
    cases found
    obtain ⟨place', other, value, known⟩ := exists_setting_field typed assigns
      distinct perm member here named (memorySlots_length world' _) (loops _)
    rw [known] at found'
    cases found'
    exact (sameField_iff (assigns.denotes distinct member inside named)
      (typed info inside) named (separable.names info inside) words here stores
      value).mpr (separable.values given member info inside named)

end FrontEnds

/-- The two ways to insert a node agree on an assignment exactly if its pairs
can be taken apart. -/
theorem insert_frontEnds_agree_iff {strtod : CharPtr → UInt64}
    {behind idStr : CharPtr} {address address' : Nat → UInt64}
    {template : List NodeAttributeInfo} {pairs : List CharPtr}
    {settings : List KeyValuePair} {givens : List Given} {parent : UInt64}
    {literal : List UInt8} (typed : Typed template)
    (assigns : Assigns strtod template givens)
    (texts : pairs.map textOf = givens.map Given.pair)
    (perm : settings.Perm (givens.map (·.kv)))
    (id : textOf idStr = literal) (numeral : Numeral literal)
    (fits : numeralValue literal < 2 ^ 63)
    (number : parent = .ofNat (numeralValue literal)) :
    FrontEndsAgree strtod behind address address' idStr pairs settings parent
      template ↔ Separable strtod behind template givens := by
  have numeric := isNumeric_of_digits id numeral.digits
  constructor
  · exact fun agree => agree.separable typed assigns texts perm numeric
  · intro separable
    apply separable.agree typed assigns texts perm numeric
    rw [number, strtolDigits_numeral id numeral fits]

section Clean

variable {strtod : CharPtr → UInt64} {behind : CharPtr}
  {template : List NodeAttributeInfo} {givens : List Given} {given : Given}
  {info : NodeAttributeInfo}

/-- A text denotes its value, unless it is the zero that stands for an error. -/
theorem Denotes.reads_iff (denotes : Denotes strtod info.type given)
    (small : info.type ≤ BOOL) :
    Reads strtod info.type given.kv given.text ↔
      (info.type = FLOAT → doubleBits given.kv.valueReal ≠ 0 ∧
        doubleBits given.kv.valueReal ≠ 2 ^ 63) := by
  generalize info.type = type at denotes small ⊢
  unfold Denotes at denotes
  rcases type_cases small with rfl | rfl | rfl | rfl
  · rw [if_pos rfl] at denotes
    obtain ⟨-, numeral, number⟩ := denotes
    have plain : textOf given.text = given.text :=
      textOf_eq_self numeral.zero_notMem
    have range := given.kv.valueInt.toInt_lt
    have word : given.kv.valueInt.toUInt64.toNat = numeralValue given.text := by
      have positive : 0 ≤ given.kv.valueInt := by
        rw [Int64.le_iff_toInt_le, number]
        exact Int.natCast_nonneg _
      rw [Int64.toNat_toUInt64_of_le positive]
      rw [Int64.toInt_eq_toNatClampNeg positive] at number
      omega
    rw [reads_int, word]
    apply iff_of_true
    · exact ⟨isNumeric_of_digits plain numeral.digits,
        strtolDigits_numeral plain numeral (by omega)⟩
    · intro float
      exact absurd float (by decide)
  · rw [if_neg (by decide), if_neg (by decide), if_pos rfl] at denotes
    rw [reads_float, and_iff_right denotes.2.2]
    simp
  · rw [if_neg (by decide), if_neg (by decide), if_neg (by decide)] at denotes
    rw [reads_string]
    apply iff_of_true denotes.2.2.2.symm
    intro float
    exact absurd float (by decide)
  · rw [if_neg (by decide), if_pos rfl] at denotes
    rw [reads_bool]
    apply iff_of_true denotes.2
    intro float
    exact absurd float (by decide)

/-- Where a terminator follows the delimiter in memory, pairs can be taken apart
if the names are different, not empty and free of `=` and newlines, no FLOAT is
zero, and no string is empty. -/
theorem separable_iff_of_clean (clean : textOf behind = [])
    (typed : Typed template) (assigns : Assigns strtod template givens) :
    Separable strtod behind template givens ↔
      (template.map (·.nameText)).Nodup ∧
      (∀ info ∈ template, info.nameText ≠ [] ∧ 10 ∉ info.nameText ∧
        61 ∉ info.nameText) ∧
      ∀ given ∈ givens, ∀ info ∈ template,
        given.kv.keyText = info.nameText → given.text ≠ [] ∧
          (info.type = FLOAT → doubleBits given.kv.valueReal ≠ 0 ∧
            doubleBits given.kv.valueReal ≠ 2 ^ 63) := by
  have only (char : UInt8) : delimits behind char = false ↔ char ≠ 61 := by
    rw [delimits, clean, decide_eq_false_iff_not, List.mem_singleton]
  have value (distinct : (template.map (·.nameText)).Nodup) (given : Given)
      (member : given ∈ givens) (info : NodeAttributeInfo)
      (inside : info ∈ template)
      (named : given.kv.keyText = info.nameText) :
      (∃ piece, (pieces (delimits behind) given.text)[0]? = some piece ∧
        Reads strtod info.type given.kv piece) ↔ given.text ≠ [] ∧
          (info.type = FLOAT → doubleBits given.kv.valueReal ≠ 0 ∧
            doubleBits given.kv.valueReal ≠ 2 ^ 63) := by
    have denotes := assigns.denotes distinct member inside named
    have small := typed info inside
    by_cases empty : given.text = []
    · simp [empty]
    · have whole : pieces (delimits behind) given.text = [given.text] := by
        apply pieces_eq_singleton empty
        intro char present
        rw [only]
        rintro rfl
        exact (denotes.plain small).2.2.1 present
      rw [whole, ← denotes.reads_iff small]
      simp [empty]
  constructor
  · rintro ⟨distinct, names, values⟩
    refine ⟨distinct, ?_, ?_⟩
    · intro info inside
      have findable := names info inside
      exact ⟨findable.nonempty, findable.newline, findable.unequal⟩
    · intro given member info inside named
      exact (value distinct given member info inside named).mp
        (values given member info inside named)
  · rintro ⟨distinct, names, values⟩
    refine ⟨distinct, ?_, ?_⟩
    · intro info inside
      obtain ⟨nonempty, newline, unequal⟩ := names info inside
      refine ⟨nonempty, newline, ?_⟩
      intro char present
      rw [only]
      rintro rfl
      exact unequal present
    · intro given member info inside named
      exact (value distinct given member info inside named).mpr
        (values given member info inside named)

end Clean

/-- A template with one attribute n. -/
def onlyN (type : Nat) : List NodeAttributeInfo :=
  [{ size := 4, type := type, attributeName := [110, 0] }]

theorem typed_onlyN {type : Nat} (small : type ≤ BOOL) :
    Typed (onlyN type) := by
  intro info member
  obtain rfl := List.mem_singleton.mp member
  exact small

/-- The float zero for n. -/
def zeroGiven : Given :=
  ⟨⟨[110, 0], 2, 0, 0, [0]⟩, [48]⟩

/-- The number 7 for n. -/
def sevenGiven : Given :=
  ⟨⟨[110, 0], 1, 7, 0, [0]⟩, [55]⟩

/-- The float zero is refused as a text and accepted as a setting. -/
theorem not_always_frontEnds_agree :
    ¬ ∀ (strtod : CharPtr → UInt64) (behind idStr : CharPtr)
      (address address' : Nat → UInt64) (template : List NodeAttributeInfo)
      (pairs : List CharPtr) (settings : List KeyValuePair)
      (givens : List Given) (parent : UInt64) (literal : List UInt8),
      Typed template → Assigns strtod template givens →
      pairs.map textOf = givens.map Given.pair →
      settings.Perm (givens.map (·.kv)) → textOf idStr = literal →
      Numeral literal → numeralValue literal < 2 ^ 63 →
      parent = .ofNat (numeralValue literal) →
      FrontEndsAgree strtod behind address address' idStr pairs settings parent
        template := by
  intro always
  have typed : Typed (onlyN FLOAT) := typed_onlyN (by decide)
  have assigns : Assigns (fun _ => 0) (onlyN FLOAT) [zeroGiven] := by
    refine ⟨[zeroGiven], List.Perm.refl _, .cons ⟨rfl, ?_⟩ .nil⟩
    rw [Denotes, if_neg (by decide), if_neg (by decide), if_pos rfl, Plain]
    decide
  have agree := always (fun _ => 0) [0] [48, 0] (fun _ => 0) (fun _ => 0)
    (onlyN FLOAT) [[110, 61, 48, 0]] [zeroGiven.kv] [zeroGiven] 0 [48] typed
    assigns (by decide) (List.Perm.refl _) (by decide) (by decide)
    (by decide) (by decide)
  have separable := agree.separable typed assigns (by decide)
    (List.Perm.refl _) (by decide)
  have values := ((separable_iff_of_clean (by decide) typed assigns).mp
    separable).2.2 zeroGiven (List.mem_singleton_self _) _
      (List.mem_singleton_self _) rfl
  exact absurd (values.2 rfl).1 (by decide)

/-- The text AB for s. -/
def lettersGiven : Given :=
  ⟨⟨[115, 0], 0, 0, 0, [65, 66, 0]⟩, [65, 66]⟩

/-- The number 7 and the text AB in both forms, with the settings in the other
order. -/
theorem insert_frontEnds_agree_iff_two :
    Separable (fun _ => 0) [0] [integerAttr [110, 0], stringAttr [115, 0]]
      [sevenGiven, lettersGiven] ∧
    FrontEndsAgree (fun _ => 0) [0] (fun _ => 0) (fun _ => 0) [48, 0]
      [[110, 61, 55, 0], [115, 61, 65, 66, 0]]
      [lettersGiven.kv, sevenGiven.kv] 0
      [integerAttr [110, 0], stringAttr [115, 0]] := by
  have typed : Typed [integerAttr [110, 0], stringAttr [115, 0]] := by
    unfold Typed
    decide
  have assigns : Assigns (fun _ => 0) [integerAttr [110, 0], stringAttr [115, 0]]
      [sevenGiven, lettersGiven] := by
    refine ⟨[sevenGiven, lettersGiven], List.Perm.refl _,
      .cons ⟨rfl, ?_⟩ (.cons ⟨rfl, ?_⟩ .nil)⟩
    · rw [Denotes, if_pos (show (integerAttr [110, 0]).type = INT from rfl)]
      exact ⟨rfl, by decide, by decide⟩
    · rw [Denotes, if_neg (by decide), if_neg (by decide), if_neg (by decide),
        Plain]
      decide
  have separable : Separable (fun _ => 0) [0]
      [integerAttr [110, 0], stringAttr [115, 0]]
      [sevenGiven, lettersGiven] := by
    rw [separable_iff_of_clean (by decide) typed assigns]
    decide
  have literal : textOf [48, 0] = [48] := by
    decide
  have texts : [[110, 61, 55, 0], [115, 61, 65, 66, 0]].map textOf =
      [sevenGiven, lettersGiven].map Given.pair := by
    decide
  exact ⟨separable, (insert_frontEnds_agree_iff typed assigns texts
    (List.Perm.swap _ _ _) literal (by decide) (by decide) rfl).mpr separable⟩

end TreeStore
