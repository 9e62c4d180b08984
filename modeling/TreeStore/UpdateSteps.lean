import TreeStore.Library.Assignments
import TreeStore.StoragePublic

/-!
# Updates as sequences of steps

Both update functions check one setting, write it, and turn to the next.  Each
setting is a step: it is refused, it leaves an array, or it writes one field.
What the steps before a refusal write is known as far as the settings say it.
-/

namespace TreeStore

open ByteFile Assignments

/-- What one setting makes an update do. -/
inductive Step (ε : Type)
  | refuse (code : ε)
  | crash (fault : Fault)
  | write (position : Nat) (source : ValueSource)

/-- The steps one after the other; the result is the code of the refusal. -/
def runSteps {ε : Type} (fuel stack id : Nat) :
    Nat → List (Step ε) → Prog (Option ε)
  | _, [] => return none
  | _, .refuse code :: _ => return some code
  | _, .crash fault :: _ => throw fault
  | value, .write position source :: steps => do
      let value ← source.load value
      updateWord fuel stack position value id
      runSteps fuel stack id value steps

/-- The steps of an update, with `value` unset at first. -/
def runUpdate {ε : Type} (fuel stack id : Nat) (steps : List (Step ε)) :
    Prog (Option ε) := do
  let value ← unsetWord
  runSteps fuel stack id value steps

/-- A setting of `storageUpdateNodeNew`. -/
def settingStep (template : List NodeAttributeInfo) (kv : KeyValuePair) :
    Step Nat :=
  let pPos : Int :=
    match findAttr kv.key template with
    | some iter => (Int8.ofNat iter).toInt
    | none => -1
  if pPos = -1 then .refuse 3
  else if pPos < 0 then .crash .outOfBounds
  else
    match (template.map (·.type))[pPos.toNat]? with
    | none => .crash .outOfBounds
    | some type =>
        match updateValue kv type with
        | none => .refuse 4
        | some source => .write pPos.toNat source

/-- A pair of `storageUpdateNode`. -/
def pairStep (strtod : CharPtr → UInt64) (behind : CharPtr)
    (template : List NodeAttributeInfo) (str : CharPtr) : Step StorageOp :=
  let (count, attrNames) := split behind str 61
  if count ≠ 2 then .refuse .wrongArgsNumberFail
  else
    match attrNames[0]? with
    | none => .crash .outOfBounds
    | some key =>
        match findAttr key template with
        | none => .refuse .templateFail
        | some pPos =>
            match (template.map (·.type))[pPos]? with
            | none => .crash .outOfBounds
            | some type =>
                match updateText strtod attrNames type with
                | .error fault => .crash fault
                | .ok none => .refuse .conversionFail
                | .ok (some source) => .write pPos source

section Equations

variable {fuel stack id value : Nat} {template : List NodeAttributeInfo}

theorem updateSettings_eq (settings : List KeyValuePair) :
    updateSettings fuel stack id template value settings =
      (·.getD 0) <$>
        runSteps fuel stack id value (settings.map (settingStep template)) := by
  induction settings generalizing value with
  | nil => rfl
  | cons kv settings ih =>
      rw [updateSettings, List.map_cons, settingStep]
      rcases findAttr kv.key template with _ | iter
      · rfl
      dsimp only
      by_cases unknown : (Int8.ofNat iter).toInt = -1
      · rw [if_pos unknown, if_pos unknown]
        rfl
      rw [if_neg unknown, if_neg unknown]
      by_cases negative : (Int8.ofNat iter).toInt < 0
      · rw [if_pos negative, if_pos negative]
        rfl
      rw [if_neg negative, if_neg negative]
      cases found : (template.map (·.type))[(Int8.ofNat iter).toInt.toNat]? with
      | none =>
          rw [index_of_none found]
          rfl
      | some type =>
          rw [index_of_some found, pure_bind]
          dsimp only
          cases accepted : updateValue kv type with
          | none => rfl
          | some source =>
              dsimp only
              simp only [runSteps, ih, map_bind]

theorem updatePairs_eq {strtod : CharPtr → UInt64} {behind : CharPtr}
    (pairs : List CharPtr) :
    updatePairs strtod behind fuel stack id template value pairs =
      (·.getD .success) <$> runSteps fuel stack id value
        (pairs.map (pairStep strtod behind template)) := by
  induction pairs generalizing value with
  | nil => rfl
  | cons str pairs ih =>
      rw [updatePairs, List.map_cons, pairStep]
      dsimp only
      by_cases count : (split behind str 61).1 ≠ 2
      · rw [if_pos count, if_pos count]
        rfl
      rw [if_neg count, if_neg count]
      cases first : (split behind str 61).2[0]? with
      | none =>
          rw [index_of_none first]
          rfl
      | some key =>
          rw [index_of_some first, pure_bind]
          dsimp only
          cases found : findAttr key template with
          | none => rfl
          | some pPos =>
              dsimp only
              cases typed : (template.map (·.type))[pPos]? with
              | none =>
                  rw [index_of_none typed]
                  rfl
              | some type =>
                  rw [index_of_some typed, pure_bind]
                  dsimp only
                  cases accepted : updateText strtod (split behind str 61).2
                      type with
                  | error fault => rfl
                  | ok source =>
                      cases source with
                      | none => rfl
                      | some source =>
                        simp only [runSteps, ih, map_bind]
                        rfl

theorem storageUpdateNodeNew_eq (settings : List KeyValuePair) :
    storageUpdateNodeNew fuel stack id settings template =
      (·.getD 0) <$>
        runUpdate fuel stack id (settings.map (settingStep template)) := by
  rw [storageUpdateNodeNew, runUpdate, map_bind]
  simp only [updateSettings_eq]

theorem storageUpdateNode_eq {strtod : CharPtr → UInt64} {behind idStr : CharPtr}
    (numeric : isNumeric idStr) (pairs : List CharPtr) :
    storageUpdateNode strtod behind fuel stack idStr pairs template =
      (·.getD .success) <$> runUpdate fuel stack (atoiDigits idStr)
        (pairs.map (pairStep strtod behind template)) := by
  rw [storageUpdateNode, runUpdate, map_bind]
  simp only [if_pos numeric, updatePairs_eq]

end Equations

/-- A number that is stored is a 64-bit word. -/
def ValueSource.Small : ValueSource → Prop
  | .number word => word < 2 ^ 64
  | .address => True
  | .keep => True

/-- A write goes to a field of the template, and stores an address exactly in a
STRING field. -/
def Step.Fits {ε : Type} (types : List Nat) : Step ε → Prop
  | .refuse _ => True
  | .crash _ => True
  | .write position source => source.Small ∧ ∃ type,
      types[position]? = some type ∧ (source = .address ↔ type = STRING)

section Fitting

variable {template : List NodeAttributeInfo}

theorem number_fits {type : Nat} (word : UInt64) (number : type ≠ STRING) :
    (ValueSource.number word.toNat).Small ∧
      (ValueSource.number word.toNat = .address ↔ type = STRING) :=
  ⟨word.toNat_lt, by simp [number]⟩

theorem updateValue_fits {kv : KeyValuePair} {type : Nat} {source : ValueSource}
    (accepted : updateValue kv type = some source) :
    source.Small ∧ (source = .address ↔ type = STRING) := by
  unfold updateValue at accepted
  split_ifs at accepted with bool one zero float real int integer string text
  · cases accepted
    exact number_fits 1 (by rw [bool]; decide)
  · cases accepted
    exact number_fits 0 (by rw [bool]; decide)
  · cases accepted
    exact number_fits _ (by rw [float]; decide)
  · cases accepted
    exact number_fits _ (by rw [int]; decide)
  · cases accepted
    simp [ValueSource.Small, string]
  · cases accepted
    simp [ValueSource.Small, string]

theorem updateText_fits {strtod : CharPtr → UInt64} {attrNames : List CharPtr}
    {type : Nat} {source : ValueSource}
    (accepted : updateText strtod attrNames type = .ok (some source)) :
    source.Small ∧ (source = .address ↔ type = STRING) := by
  unfold updateText at accepted
  by_cases string : type = STRING
  · rw [if_pos string] at accepted
    cases accepted
    simp [ValueSource.Small, string]
  rw [if_neg string] at accepted
  by_cases other : type ≠ BOOL ∧ type ≠ FLOAT ∧ type ≠ INT
  · rw [if_pos other] at accepted
    cases accepted
    simp [ValueSource.Small, string]
  rw [if_neg other] at accepted
  cases second : attrNames[1]? with
  | none =>
      rw [second] at accepted
      cases accepted
  | some text =>
      rw [second] at accepted
      dsimp only at accepted
      split_ifs at accepted <;> cases accepted
      · exact number_fits 1 string
      · exact number_fits 0 string
      · exact number_fits _ string
      · exact number_fits _ string

theorem settingStep_fits (kv : KeyValuePair) :
    (settingStep template kv).Fits (template.map (·.type)) := by
  unfold settingStep
  dsimp only
  split_ifs
  · trivial
  · trivial
  · split
    · trivial
    · next type typed =>
        split
        · trivial
        · next source accepted =>
            obtain ⟨small, address⟩ := updateValue_fits accepted
            exact ⟨small, type, typed, address⟩

theorem pairStep_fits {strtod : CharPtr → UInt64} {behind : CharPtr}
    (str : CharPtr) :
    (pairStep strtod behind template str).Fits (template.map (·.type)) := by
  unfold pairStep
  dsimp only
  split_ifs
  · trivial
  split
  · trivial
  split
  · trivial
  · split
    · trivial
    · next type typed =>
        split
        · trivial
        · trivial
        · next source accepted =>
            obtain ⟨small, address⟩ := updateText_fits accepted
            exact ⟨small, type, typed, address⟩

theorem settingStep_ne_ok (kv : KeyValuePair) :
    settingStep template kv ≠ .refuse 0 := by
  unfold settingStep
  dsimp only
  split_ifs
  · simp
  · simp
  · split
    · simp
    · split <;> simp

theorem pairStep_ne_success {strtod : CharPtr → UInt64} {behind : CharPtr}
    (str : CharPtr) :
    pairStep strtod behind template str ≠ .refuse .success := by
  unfold pairStep
  dsimp only
  split_ifs
  · simp
  split
  · simp
  split
  · simp
  · split
    · simp
    · split <;> simp

end Fitting

/-- The word that a source loads, if the settings determine it. -/
def ValueSource.known (value : Option Nat) : ValueSource → Option Nat
  | .number word => some word
  | .address => none
  | .keep => value

/-- The writes before the first setting that is refused or leaves an array. -/
def writesBefore {ε : Type} :
    Option Nat → List (Step ε) → List (Nat × Option Nat)
  | value, .write position source :: steps =>
      (position, source.known value) :: writesBefore (source.known value) steps
  | _, _ => []

/-- The code of the first setting that is refused. -/
def refusal {ε : Type} : List (Step ε) → Option ε
  | .refuse code :: _ => some code
  | .write _ _ :: steps => refusal steps
  | _ => none

/-- How the steps end: with the code of a refusal, or without one, unless an
array is left first. -/
def ending {ε : Type} : List (Step ε) → Option (Option ε)
  | [] => some none
  | .refuse code :: _ => some (some code)
  | .crash _ :: _ => none
  | .write _ _ :: steps => ending steps

theorem ending_of_refusal {ε : Type} {steps : List (Step ε)} {code : ε}
    (refused : refusal steps = some code) : ending steps = some (some code) := by
  induction steps with
  | nil => cases refused
  | cons step steps ih =>
      cases step with
      | refuse code' => exact congrArg some refused
      | crash fault => cases refused
      | write position source => exact ih refused

theorem refusal_of_ending {ε : Type} {steps : List (Step ε)}
    {result : Option ε} (ends : ending steps = some result) :
    result = refusal steps := by
  induction steps with
  | nil => exact (Option.some.inj ends).symm
  | cons step steps ih =>
      cases step with
      | refuse code => exact (Option.some.inj ends).symm
      | crash fault => cases ends
      | write position source => exact ih ends

/-- If a setting is refused, then the writes before it leave these words as
they are. -/
def LeavesWords {ε : Type} (words : List Nat) (steps : List (Step ε)) : Prop :=
  (refusal steps).isSome →
    assign (writesBefore none steps) (words.map some) = words.map some

instance {ε : Type} (words : List Nat) (steps : List (Step ε)) :
    Decidable (LeavesWords words steps) :=
  inferInstanceAs (Decidable (_ → _))

/-- The words are the cells, as far as these are known. -/
def Agree (cells : List (Option Nat)) (words : List Nat) : Prop :=
  ∀ position word : Nat, cells[position]? = some (some word) →
    words[position]? = some word

section Writes

variable {ε : Type} {types : List Nat} {known : Option Nat}
  {steps : List (Step ε)} {write : Nat × Option Nat}

theorem writesBefore_inside (fits : ∀ step ∈ steps, step.Fits types)
    (member : write ∈ writesBefore known steps) : write.1 < types.length := by
  induction steps generalizing known with
  | nil => simp [writesBefore] at member
  | cons step steps ih =>
      cases step with
      | refuse code => simp [writesBefore] at member
      | crash fault => simp [writesBefore] at member
      | write position source =>
          rcases List.mem_cons.mp member with rfl | later
          · obtain ⟨-, type, typed, -⟩ := fits _ List.mem_cons_self
            exact (List.getElem?_eq_some_iff.mp typed).1
          · exact ih (fun step member => fits step (List.mem_cons_of_mem _ member))
              later

/-- What is written into a STRING field is never known. -/
theorem writesBefore_string (fits : ∀ step ∈ steps, step.Fits types)
    (member : write ∈ writesBefore known steps)
    (string : types[write.1]? = some STRING) : write.2 = none := by
  induction steps generalizing known with
  | nil => simp [writesBefore] at member
  | cons step steps ih =>
      cases step with
      | refuse code => simp [writesBefore] at member
      | crash fault => simp [writesBefore] at member
      | write position source =>
          rcases List.mem_cons.mp member with rfl | later
          · obtain ⟨-, type, typed, address⟩ := fits _ List.mem_cons_self
            cases typed.symm.trans string
            rw [address.mpr rfl]
            rfl
          · exact ih (fun step member => fits step (List.mem_cons_of_mem _ member))
              later

/-- Where the words stay, no STRING field is written. -/
theorem LeavesWords.no_string {words : List Nat}
    (leaves : LeavesWords words steps) (refused : (refusal steps).isSome)
    (fits : ∀ step ∈ steps, step.Fits types)
    (enough : types.length ≤ words.length)
    (member : write ∈ writesBefore none steps) :
    types[write.1]? ≠ some STRING := by
  intro string
  have inside := writesBefore_inside fits member
  have unknown : (assign (writesBefore none steps) (words.map some))[write.1]? =
      some none := by
    apply assign_of_forall
    · exact List.mem_map.mpr ⟨write, member, rfl⟩
    · intro other there same
      exact writesBefore_string fits there (by rw [same]; exact string)
    · rw [List.length_map]
      omega
  rw [leaves refused, List.getElem?_map,
    List.getElem?_eq_getElem (by omega)] at unknown
  cases unknown

theorem Agree.set {cells : List (Option Nat)} {words : List Nat}
    {position word : Nat} {value : Option Nat} (agree : Agree cells words)
    (same : cells.length = words.length)
    (stored : ∀ number, value = some number → word = number) :
    Agree (cells.set position value) (words.set position word) := by
  intro other number found
  by_cases here : position = other
  · subst here
    have inside := (List.getElem?_eq_some_iff.mp found).1
    rw [List.length_set] at inside
    rw [List.getElem?_set_self inside] at found
    rw [List.getElem?_set_self (by omega), stored number (Option.some.inj found)]
  · rw [List.getElem?_set_ne here] at found ⊢
    exact agree other number found

end Writes

end TreeStore
