import TreeStore.Commands
import TreeStore.Tokens
import TreeStore.Tuples

/-!
# Loading nodes from a text file

`parseFile` takes a line at a time from the text file and hands its words to
`storageInsertNode`.  Its loop ends as soon as `feof` tells that the end of the
file has been met.
-/

namespace TreeStore

open ByteFile ProgramLogic Pieces

/-- `INPUT_SIZE`. -/
abbrev inputSize : Nat := 1024

/-- A text file that is read: what is left of it, and whether its end has been
met. -/
structure TextStream where
  text : List UInt8
  ended : Bool
  deriving DecidableEq, Repr

/-- `fgets(line, size, from)`.  The end of the file is met where neither a
newline nor the size stops the read; if nothing is read, the line stays. -/
def fgets (line : List UInt8) (size : Nat) (source : TextStream) :
    List UInt8 × TextStream :=
  let room := source.text.take (size - 1)
  let got := room.takeWhile (· ≠ 10) ++ if 10 ∈ room then [10] else []
  let ended := decide (10 ∉ room ∧ source.text.length < size - 1)
  (if got = [] then line else got ++ 0 :: line.drop (got.length + 1),
    ⟨source.text.drop got.length, source.ended || ended⟩)

/-- A read that does not meet the end of the file takes something from it. -/
theorem fgets_decreases {line : List UInt8} {source : TextStream}
    (going : (fgets line inputSize source).2.ended = false) :
    (fgets line inputSize source).2.text.length < source.text.length := by
  unfold fgets at going ⊢
  dsimp only at going ⊢
  rw [List.length_drop]
  by_cases newline : 10 ∈ source.text.take (inputSize - 1)
  · have := List.length_pos_of_mem (List.mem_of_mem_take newline)
    rw [if_pos newline, List.length_append, List.length_singleton]
    omega
  · have long : inputSize - 1 ≤ source.text.length := by
      have stops := (Bool.or_eq_false_iff.mp going).2
      rw [decide_eq_false_iff_not] at stops
      by_contra short
      exact stops ⟨newline, by omega⟩
    have whole : (source.text.take (inputSize - 1)).takeWhile (· ≠ 10) =
        source.text.take (inputSize - 1) := by
      rw [List.takeWhile_eq_self_iff]
      intro char member
      apply decide_eq_true
      rintro rfl
      exact newline member
    rw [if_neg newline, whole, List.append_nil, List.length_take]
    simp only [inputSize] at long ⊢
    omega

/-- `"add "`. -/
def addText : List UInt8 := [97, 100, 100, 32]

/-- The loop of `parseFile`, with `insert` in the place of
`storageInsertNode`. -/
def parseLoop (insert : List CharPtr → Prog StorageOp) (behind : CharPtr)
    (line : List UInt8) (source : TextStream) : Prog Unit :=
  if _going : source.ended = true then return ()
  else do
    let length ← strlen line
    if length = 0 then return ()
    else
      let line := line.set (length - 1) 0
      let (_, args) := split behind (addText ++ textOf line ++ [0]) 32
      let _ ← insert args
      parseLoop insert behind (fgets line inputSize source).1
        (fgets line inputSize source).2
termination_by source.text.length + if source.ended then 0 else 1
decreasing_by
  rw [if_neg _going]
  split_ifs with ended
  · unfold fgets
    rw [List.length_drop]
    omega
  · have := fgets_decreases (Bool.eq_false_iff.mpr ended)
    omega

/-- `parseFile`, which gets the template from the schema. -/
def parseFileWith
    (insert : List NodeAttributeInfo → List CharPtr → Prog StorageOp)
    (behind : CharPtr) (source : TextStream) : Prog Unit := do
  let line ← malloc inputSize
  let (schema, _) ← readTreeSchema
  let (line, source) := fgets line inputSize source
  parseLoop (insert schema.nodesTemplate) behind line source

/-- `storageInsertNode` on the pointers that `split` has stored; the others lead
nowhere. -/
def insertArgs (strtod : CharPtr → UInt64) (behind : CharPtr)
    (address : Nat → UInt64) (template : List NodeAttributeInfo)
    (args : List CharPtr) : Prog StorageOp := do
  let idStr ← index args 1
  storageInsertNode strtod behind address idStr (args.drop 2) template

def parseFile (strtod : CharPtr → UInt64) (behind : CharPtr)
    (address : Nat → UInt64) (source : TextStream) : Prog Unit :=
  parseFileWith (insertArgs strtod behind address) behind source

/-- A line of the text file. -/
def lineText (words : List (List UInt8)) : List UInt8 :=
  [32].intercalate words

/-- The words of a line, which fits into `line` with its newline. -/
structure PlainLine (words : List (List UInt8)) : Prop where
  nonempty : words ≠ []
  word : ∀ word ∈ words, word ≠ [] ∧ 0 ∉ word ∧ 10 ∉ word ∧ 32 ∉ word
  short : (lineText words).length < inputSize - 1

/-- A text file of these lines, with a newline behind the last one or
without. -/
def fileText (lines : List (List (List UInt8))) (closed : Bool) : List UInt8 :=
  let text := lines.flatMap fun words => lineText words ++ [10]
  if closed then text else text.dropLast

/-- The arguments of the call for a line. -/
def lineArgs (words : List (List UInt8)) : List CharPtr :=
  [97, 100, 100] :: words

/-- `parseFile` runs exactly the calls for the lines, in their order. -/
def Loads (behind : CharPtr) (lines : List (List (List UInt8)))
    (closed : Bool) : Prop :=
  ∀ insert world schema, SchemaAt world.file schema →
    (parseFileWith insert behind ⟨fileText lines closed, false⟩).run world =
      (do
        let _ ← malloc inputSize
        let _ ← readTreeSchema
        (lines.map lineArgs).forM fun args => do
          let _ ← insert schema.nodesTemplate args).run world

section Lines

variable {insert : List CharPtr → Prog StorageOp} {behind : CharPtr}
  {words : List (List UInt8)} {lines : List (List (List UInt8))}
  {closed : Bool} {line text rest : List UInt8}

/-- What `split` makes of a line. -/
def splitArgs (behind : CharPtr) (words : List (List UInt8)) : List CharPtr :=
  pieces (fun char => decide (char ∈ 32 :: textOf behind))
    (addText ++ lineText words)

theorem takeWhile_newline_append (plain : 10 ∉ text) :
    (text ++ 10 :: rest).takeWhile (· ≠ 10) = text := by
  have all : ∀ char ∈ text, decide (char ≠ 10) = true := by
    intro char member
    apply decide_eq_true
    rintro rfl
    exact plain member
  rw [List.takeWhile_append_of_pos all]
  simp

theorem fgets_newline (plain : 10 ∉ text) (short : text.length < inputSize - 1) :
    fgets line inputSize ⟨text ++ 10 :: rest, false⟩ =
      (text ++ 10 :: 0 :: line.drop (text.length + 2), ⟨rest, false⟩) := by
  obtain ⟨room, enough⟩ : ∃ room, inputSize - 1 = text.length + (room + 1) :=
    ⟨inputSize - 1 - text.length - 1, by omega⟩
  have took : (text ++ 10 :: rest).take (inputSize - 1) =
      text ++ 10 :: rest.take room := by
    rw [enough, List.take_length_add_append, List.take_succ_cons]
  have newline : 10 ∈ text ++ 10 :: rest.take room := by simp
  unfold fgets
  dsimp only
  rw [took, takeWhile_newline_append plain, if_pos newline]
  simp

theorem fgets_last (plain : 10 ∉ text) (short : text.length < inputSize - 1) :
    (fgets line inputSize ⟨text, false⟩).2.ended = true := by
  have took : text.take (inputSize - 1) = text :=
    List.take_of_length_le short.le
  unfold fgets
  dsimp only
  rw [took, Bool.false_or]
  exact decide_eq_true ⟨plain, short⟩

theorem parseLoop_ended {source : TextStream} (ended : source.ended = true) :
    parseLoop insert behind line source = pure () := by
  rw [parseLoop, dif_pos ended]

theorem notMem_lineText {char : UInt8} (other : char ≠ 32)
    (absent : ∀ word ∈ words, char ∉ word) : char ∉ lineText words := by
  intro member
  rcases mem_intercalate member with same | ⟨word, inside, there⟩
  · exact other same
  · exact absent word inside there

theorem PlainLine.zero_notMem (plain : PlainLine words) :
    0 ∉ lineText words :=
  notMem_lineText (by decide) fun word member => (plain.word word member).2.1

theorem PlainLine.newline_notMem (plain : PlainLine words) :
    10 ∉ lineText words :=
  notMem_lineText (by decide) fun word member => (plain.word word member).2.2.1

theorem split_line (plain : PlainLine words) :
    (split behind (addText ++ lineText words ++ [0]) 32).2 =
      splitArgs behind words := by
  have zero : 0 ∉ addText ++ lineText words := by
    rw [List.mem_append, not_or]
    exact ⟨by decide, plain.zero_notMem⟩
  have newline : 10 ∉ addText ++ lineText words := by
    rw [List.mem_append, not_or]
    exact ⟨by decide, plain.newline_notMem⟩
  unfold split
  rw [textOf_append_zero zero]
  apply List.ext_getElem?
  intro i
  have cut : strtokAll (32 :: textOf behind) (addText ++ lineText words) =
      splitArgs behind words := rfl
  dsimp only
  rw [List.getElem?_mapIdx, cut]
  cases found : (splitArgs behind words)[i]? with
  | none => rfl
  | some piece =>
      have inside := (mem_pieces (List.mem_of_getElem? found)).2.2
      rw [Option.map_some, if_neg]
      rintro ⟨-, last⟩
      exact newline (inside (List.mem_of_getLast? last))

/-- A line that ends in a newline is handed over. -/
theorem parseLoop_line {source : TextStream} (going : source.ended = false)
    (plain : PlainLine words) :
    parseLoop insert behind (lineText words ++ 10 :: 0 :: line) source = (do
      let _ ← insert (splitArgs behind words)
      parseLoop insert behind
        (fgets (lineText words ++ 0 :: 0 :: line) inputSize source).1
        (fgets (lineText words ++ 0 :: 0 :: line) inputSize source).2) := by
  have zero : 0 ∉ lineText words ++ [10] := by
    rw [List.mem_append, List.mem_singleton, not_or]
    exact ⟨plain.zero_notMem, by decide⟩
  have whole : textOf (lineText words ++ 10 :: 0 :: line) =
      lineText words ++ [10] := by
    have split : lineText words ++ 10 :: 0 :: line =
        (lineText words ++ [10]) ++ 0 :: line := by
      simp
    rw [split, textOf_append_zero zero]
  have cut : (lineText words ++ 10 :: 0 :: line).set (lineText words).length 0 =
      lineText words ++ 0 :: 0 :: line := by
    rw [List.set_append_right _ _ le_rfl, Nat.sub_self]
    rfl
  rw [parseLoop, dif_neg (by rw [going]; decide), strlen, if_pos (by simp),
    pure_bind, whole, List.length_append, List.length_singleton,
    if_neg (Nat.succ_ne_zero _), Nat.add_sub_cancel, cut]
  dsimp only
  rw [textOf_append_zero plain.zero_notMem, split_line plain]

theorem parseLoop_eq (plain : ∀ words ∈ lines, PlainLine words)
    (line : List UInt8) :
    parseLoop insert behind
        (fgets line inputSize ⟨fileText lines closed, false⟩).1
        (fgets line inputSize ⟨fileText lines closed, false⟩).2 =
      ((if closed then lines else lines.dropLast).map
        (splitArgs behind)).forM (fun args => do let _ ← insert args) := by
  induction lines generalizing line with
  | nil =>
      have none : fileText [] closed = [] := by
        unfold fileText
        split_ifs <;> rfl
      rw [none, parseLoop_ended (fgets_last List.not_mem_nil (by decide))]
      split_ifs <;> rfl
  | cons words lines ih =>
      have here := plain words (List.mem_cons_self ..)
      have later := fun other member =>
        plain other (List.mem_cons_of_mem words member)
      by_cases last : lines = [] ∧ closed = false
      · obtain ⟨rfl, rfl⟩ := last
        have whole : fileText [words] false = lineText words := by
          simp [fileText]
        rw [whole, parseLoop_ended (fgets_last here.newline_notMem here.short)]
        rfl
      · have first : fileText (words :: lines) closed =
            lineText words ++ 10 :: fileText lines closed := by
          unfold fileText
          dsimp only
          rw [List.flatMap_cons]
          cases closed with
          | true => simp
          | false =>
              obtain ⟨next, others, rfl⟩ :=
                List.exists_cons_of_ne_nil fun none => last ⟨none, rfl⟩
              rw [if_neg Bool.false_ne_true, if_neg Bool.false_ne_true,
                List.dropLast_append_of_ne_nil (by simp), List.append_assoc]
              rfl
        rw [first, fgets_newline here.newline_notMem here.short]
        dsimp only
        rw [parseLoop_line rfl here]
        have called : (if closed then words :: lines
            else (words :: lines).dropLast) =
            words :: if closed then lines else lines.dropLast := by
          cases closed with
          | true => rfl
          | false =>
              obtain ⟨next, others, rfl⟩ :=
                List.exists_cons_of_ne_nil fun none => last ⟨none, rfl⟩
              rfl
        rw [called, List.map_cons, ih later]
        simp

/-- The calls that `parseFile` makes. -/
def loadedArgs (behind : CharPtr) (lines : List (List (List UInt8)))
    (closed : Bool) : List (List CharPtr) :=
  (if closed then lines else lines.dropLast).map (splitArgs behind)

/-- Behind the schema, `parseFile` is these calls. -/
theorem parseFileWith_run {world : World} {schema : TreeSchema}
    (stored : SchemaAt world.file schema)
    (plain : ∀ words ∈ lines, PlainLine words) : ∃ middle : World, ∀ insert,
      (parseFileWith insert behind ⟨fileText lines closed, false⟩).run world =
        ((loadedArgs behind lines closed).forM fun args => do
          let _ ← insert schema.nodesTemplate args).run middle ∧
      ∀ calls : List (List CharPtr),
        (do
          let _ ← malloc inputSize
          let _ ← readTreeSchema
          calls.forM fun args => do
            let _ ← insert schema.nodesTemplate args).run world =
          (calls.forM fun args => do
            let _ ← insert schema.nodesTemplate args).run middle := by
  obtain ⟨line, started, allocated, same⟩ : ∃ line started,
      (malloc inputSize).run world = .ok (line, started) ∧
        started.file = world.file := ⟨_, _, rfl, rfl⟩
  obtain ⟨result, middle, reads, rfl⟩ : wp readTreeSchema
      (fun result _ => result = (schema, .success)) started :=
    SchemaAt.wp_readTreeSchema (by rw [same]; exact stored) fun _ => rfl
  refine ⟨middle, fun insert => ⟨?_, fun calls => ?_⟩⟩
  · rw [parseFileWith, run_bind_of allocated, run_bind_of reads]
    dsimp only
    rw [parseLoop_eq plain line]
    rfl
  · rw [run_bind_of allocated, run_bind_of reads]

/-- Faults if this is call number `place`, and if it has these arguments. -/
def probe (place : Nat) (expected : List CharPtr) (args : List CharPtr) :
    Prog StorageOp := do
  let world ← get
  if world.pos = place ∧ args = expected then throw .outOfFuel
  else
    set { world with pos := world.pos + 1 }
    return .success

theorem probe_run (place : Nat) (expected args : List CharPtr)
    (world : World) : (probe place expected args).run world =
      if world.pos = place ∧ args = expected then .error .outOfFuel
      else .ok (.success, { world with pos := world.pos + 1 }) := by
  unfold probe
  rw [StateT.run_bind, StateT.run_get]
  change (if world.pos = place ∧ args = expected then _ else _ :
    Prog StorageOp).run world = _
  split_ifs with here
  · rfl
  · rfl

/-- The probe faults exactly if the call of its number has its arguments. -/
theorem forM_probe {place : Nat} {expected : List CharPtr}
    (calls : List (List CharPtr)) (world : World) :
    (calls.forM fun args => do
        let _ ← probe place expected args).run world = .error .outOfFuel ↔
      world.pos ≤ place ∧ calls[place - world.pos]? = some expected := by
  induction calls generalizing world with
  | nil => exact iff_of_false nofun nofun
  | cons args calls ih =>
      simp only [List.forM_eq_forM, List.forM_cons] at ih ⊢
      by_cases here : world.pos = place ∧ args = expected
      · obtain ⟨rfl, rfl⟩ := here
        apply iff_of_true
        · rw [StateT.run_bind, StateT.run_bind, probe_run,
            if_pos ⟨rfl, rfl⟩]
          rfl
        · simp
      · have ran : (do
            let _ ← probe place expected args : Prog PUnit).run world =
              .ok (⟨⟩, { world with pos := world.pos + 1 }) := by
          rw [StateT.run_bind, probe_run, if_neg here]
          rfl
        rw [run_bind_of ran, ih]
        dsimp only
        rcases Nat.lt_trichotomy world.pos place with before | same | behind
        · have next : place - world.pos = place - (world.pos + 1) + 1 := by
            omega
          rw [next, List.getElem?_cons_succ]
          apply and_congr_left'
          omega
        · rw [same, Nat.sub_self, List.getElem?_cons_zero]
          apply iff_of_false
          · omega
          · rintro ⟨-, found⟩
            exact here ⟨same, Option.some.inj found⟩
        · apply iff_of_false
          · omega
          · omega

/-- Lists of calls that run alike are the same. -/
theorem calls_eq {calls calls' : List (List CharPtr)} {world : World}
    (same : ∀ insert : List CharPtr → Prog StorageOp,
      (calls.forM fun args => do let _ ← insert args).run world =
        (calls'.forM fun args => do let _ ← insert args).run world) :
    calls = calls' := by
  apply List.ext_getElem?
  intro i
  apply Option.ext
  intro expected
  have first := @forM_probe (world.pos + i) expected calls world
  have second := @forM_probe (world.pos + i) expected calls' world
  rw [Nat.add_sub_cancel_left, and_iff_right (Nat.le_add_right _ _)]
    at first second
  rw [← first, ← second, same]

/-- The words of a line are found exactly if nothing else delimits. -/
theorem splitArgs_eq_iff (plain : PlainLine words) :
    splitArgs behind words = lineArgs words ↔
      ∀ word ∈ lineArgs words, ∀ char ∈ word, char ∉ textOf behind := by
  have joined : addText ++ lineText words =
      [32].intercalate (lineArgs words) := by
    rw [lineArgs, List.intercalate_cons_of_ne_nil plain.nonempty]
    rfl
  unfold splitArgs
  rw [joined]
  constructor
  · intro found word member char inside delimits
    rw [← found] at member
    have other := (mem_pieces member).2.1 char inside
    exact of_decide_eq_false other (List.mem_cons_of_mem 32 delimits)
  · intro clean
    apply pieces_intercalate (by simp)
    intro word member
    have whole : word ≠ [] ∧ 32 ∉ word := by
      rcases List.mem_cons.mp member with rfl | given
      · decide
      · exact ⟨(plain.word word given).1, (plain.word word given).2.2.2⟩
    refine ⟨whole.1, fun char inside => decide_eq_false ?_⟩
    rw [List.mem_cons, not_or]
    refine ⟨?_, clean word member char inside⟩
    rintro rfl
    exact whole.2 inside

theorem loadedArgs_eq_iff (plain : ∀ words ∈ lines, PlainLine words) :
    loadedArgs behind lines closed = lines.map lineArgs ↔
      lines = [] ∨ closed = true ∧
        ∀ words ∈ lines, ∀ word ∈ lineArgs words, ∀ char ∈ word,
          char ∉ textOf behind := by
  unfold loadedArgs
  constructor
  · intro same
    cases closed with
    | true =>
        refine Or.inr ⟨rfl, fun words member => ?_⟩
        rw [if_pos rfl] at same
        exact (splitArgs_eq_iff (plain words member)).mp
          (List.map_inj_left.mp same words member)
    | false =>
        have lengths := congrArg List.length same
        rw [if_neg Bool.false_ne_true, List.length_map, List.length_map,
          List.length_dropLast] at lengths
        exact Or.inl (List.eq_nil_of_length_eq_zero (by omega))
  · rintro (rfl | ⟨rfl, clean⟩)
    · split_ifs <;> rfl
    · rw [if_pos rfl]
      apply List.map_congr_left
      intro words member
      exact (splitArgs_eq_iff (plain words member)).mpr (clean words member)

/-- Runs that are equal for all that could be called make the same calls. -/
theorem Loads.loadedArgs_eq (loads : Loads behind lines closed)
    (plain : ∀ words ∈ lines, PlainLine words) :
    loadedArgs behind lines closed = lines.map lineArgs := by
  have stored : SchemaAt (singleSchema INT).bytes (singleSchema INT) :=
    schemaAt_single (by norm_num)
  obtain ⟨middle, runs⟩ := @parseFileWith_run behind lines closed
    (blankWorld (singleSchema INT).bytes) _ stored plain
  apply @calls_eq _ _ middle
  intro insert
  obtain ⟨loaded, given⟩ := runs fun _ => insert
  rw [← loaded, ← given]
  exact loads _ _ _ stored

/-- `parseFile` runs the calls for the lines exactly if there are none, or the
file ends in a newline and no character of the lines is among those that lie
behind the delimiter. -/
theorem loads_iff (plain : ∀ words ∈ lines, PlainLine words) :
    Loads behind lines closed ↔ lines = [] ∨ closed = true ∧
      ∀ words ∈ lines, ∀ word ∈ lineArgs words, ∀ char ∈ word,
        char ∉ textOf behind := by
  rw [← loadedArgs_eq_iff plain]
  constructor
  · exact fun loads => loads.loadedArgs_eq plain
  · intro same insert world schema stored
    obtain ⟨middle, runs⟩ := @parseFileWith_run behind lines closed world schema
      stored plain
    obtain ⟨loaded, given⟩ := runs insert
    rw [loaded, given, same]

end Lines

theorem plainLine_seven : ∀ words ∈ [[[48], [110, 61, 55]]], PlainLine words :=
  List.forall_mem_singleton.mpr ⟨by decide, by decide, by decide⟩

/-- The file with the line `0 n=7` and a newline. -/
theorem loads_seven : Loads [0] [[[48], [110, 61, 55]]] true :=
  (loads_iff plainLine_seven).mpr
    (Or.inr ⟨rfl, fun _ _ _ _ _ _ => List.not_mem_nil⟩)

/-- Without the newline the line is not loaded. -/
theorem not_always_loads :
    ¬ ∀ (behind : CharPtr) (lines : List (List (List UInt8))) (closed : Bool),
      textOf behind = [] → (∀ words ∈ lines, PlainLine words) →
        Loads behind lines closed := by
  intro always
  have loads := always [0] [[[48], [110, 61, 55]]] false (by decide)
    plainLine_seven
  exact absurd (congrArg List.length (loads.loadedArgs_eq plainLine_seven))
    (by decide)

end TreeStore
