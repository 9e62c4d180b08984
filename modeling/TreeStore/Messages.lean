import TreeStore.Client

/-!
# The messages of the client

What the actions of a query leave behind: each filter leaves one cell on the
stack, which `switchFilter` takes away again, and each setting one pair in
front of the list.  A message has the filters in the order of the text and the
settings in the opposite one.
-/

namespace TreeStore

namespace Client

/-- The pair for `key: value`. -/
def Value.pair (given : Value) (key : CharPtr) : KeyValuePair :=
  ⟨key, .ofNat given.vtype, given.split.1, given.split.2⟩

/-- The pair for an operation, which takes a float like a number. -/
def Value.operand (given : Value) (key : CharPtr) : KeyValuePair :=
  ⟨key, .ofNat given.vtype, given.semantic, 0⟩

namespace Filter

/-- The cell that a filter leaves on the stack. -/
def top : Filter → FullComparator
  | value key given => ⟨⟨0, given.pair key⟩, []⟩
  | operation key comp given => ⟨⟨comp.code, given.operand key⟩, []⟩
  | or first second =>
      { second.top with
        connected := first.top.toComparator :: first.top.connected }

/-- The type that a filter leaves in `vtype`. -/
def vtype : Filter → Nat
  | value _ given => given.vtype
  | operation _ _ given => given.vtype
  | or _ second => second.vtype

/-- The comparators that a filter becomes. -/
def compList (filter : Filter) : List Comparator :=
  filter.top.toComparator :: filter.top.connected.take 1

theorem read_eq (filter : Filter) (state : State) :
    filter.read state = some { state with
      cmp := filter.top :: state.cmp
      vtype := filter.vtype } := by
  induction filter generalizing state with
  | value key given => rfl
  | operation key comp given => rfl
  | or first second firstIH secondIH =>
      rw [read, firstIH]
      simp only [Option.bind_eq_bind, Option.bind_some]
      rw [secondIH]
      rfl

end Filter

/-- The filters get in front of those that were there before, in the place of
the empty one. -/
theorem readFilters_eq {filters : List Filter} (some_filter : filters ≠ [])
    (state : State) : ∃ vtype, readFilters filters state = some { state with
      filtersList :=
        [] :: (filters.map Filter.compList ++ state.filtersList.tail)
      vtype := vtype } := by
  induction filters generalizing state with
  | nil => exact absurd rfl some_filter
  | cons filter filters ih =>
      rw [readFilters, filter.read_eq]
      simp only [Option.bind_eq_bind, Option.bind_some]
      by_cases last : filters = []
      · subst last
        exact ⟨filter.vtype, rfl⟩
      · obtain ⟨vtype, reads⟩ := ih last
          { state with cmp := filter.top :: state.cmp, vtype := filter.vtype }
        rw [reads]
        exact ⟨vtype, rfl⟩

/-- The settings get in front of those that were there before, the last one
first. -/
theorem readSettings_eq (settings : List (CharPtr × Value)) (state : State) :
    ∃ vtype, readSettings settings state = { state with
      settingsList := (settings.map fun setting =>
        setting.2.pair setting.1).reverse ++ state.settingsList
      vtype := vtype } := by
  induction settings generalizing state with
  | nil => exact ⟨state.vtype, rfl⟩
  | cons setting settings ih =>
      obtain ⟨key, given⟩ := setting
      obtain ⟨vtype, reads⟩ := ih (addValSetting
        { state with vtype := given.vtype } key given.split.1 given.split.2)
      refine ⟨vtype, ?_⟩
      rw [readSettings, reads, List.map_cons, List.reverse_cons,
        List.append_assoc]
      rfl

namespace Mongosh

/-- The filters of a query.  The parent of an insertion is read like one. -/
def filters : Mongosh → List Filter
  | receive filters => filters
  | delete filters => filters
  | insert parent _ => [.value (parentText ++ [0]) (.int parent)]
  | update filters _ => filters

def settings : Mongosh → List (CharPtr × Value)
  | receive _ => []
  | delete _ => []
  | insert _ settings => settings
  | update _ settings => settings

def command : Mongosh → UInt8
  | receive _ => 0
  | delete _ => 1
  | insert _ _ => 2
  | update _ _ => 3

/-- All queries are read in the same way. -/
theorem read_eq_map (mongosh : Mongosh) (state : State) :
    mongosh.read state = (readFilters mongosh.filters state).map fun state =>
      setCommand (readSettings mongosh.settings state) mongosh.command := by
  cases mongosh with
  | receive filters =>
      simp only [read, Mongosh.filters]
      cases readFilters filters state <;> rfl
  | delete filters =>
      simp only [read, Mongosh.filters]
      cases readFilters filters state <;> rfl
  | insert parent settings => rfl
  | update filters settings =>
      simp only [read, Mongosh.filters]
      cases readFilters filters state <;> rfl

/-- The settings of a query as `parseQuery` finds them. -/
def pairs (mongosh : Mongosh) : List KeyValuePair :=
  (mongosh.settings.map fun setting => setting.2.pair setting.1).reverse

/-- What a query adds to the lists.  The grammar has no empty list of
filters. -/
theorem read_eq {mongosh : Mongosh} (some_filter : mongosh.filters ≠ [])
    (state : State) : ∃ vtype, mongosh.read state = some
      { command := mongosh.command
        filtersList := [] ::
          (mongosh.filters.map Filter.compList ++ state.filtersList.tail)
        settingsList := mongosh.pairs ++ state.settingsList
        cmp := state.cmp
        vtype := vtype } := by
  obtain ⟨vtype, reads⟩ := readFilters_eq some_filter state
  rw [read_eq_map, reads, Option.map_some]
  obtain ⟨vtype', settled⟩ := readSettings_eq mongosh.settings { state with
    filtersList := [] ::
      (mongosh.filters.map Filter.compList ++ state.filtersList.tail)
    vtype := vtype }
  rw [settled]
  exact ⟨vtype', rfl⟩

end Mongosh

/-- No query is unfinished. -/
def State.Fresh (state : State) : Prop :=
  state.filtersList = [] ∧ state.settingsList = []

/-- No filter of a query is empty. -/
theorem filter_compList (filters : List Filter) :
    ((filters.map Filter.compList).filter fun compList =>
      ¬ compList.isEmpty) = filters.map Filter.compList := by
  apply List.filter_eq_self.mpr
  intro compList member
  obtain ⟨filter, -, rfl⟩ := List.mem_map.mp member
  rfl

/-- The message for a query that is read when none is unfinished. -/
theorem parseQuery_read {mongosh : Mongosh} {state : State}
    (some_filter : mongosh.filters ≠ []) (fresh : state.Fresh) :
    (mongosh.read state).bind parseQuery =
      parseLists mongosh.command (mongosh.filters.map Filter.compList)
        mongosh.pairs := by
  obtain ⟨vtype, reads⟩ := mongosh.read_eq some_filter state
  rw [reads, Option.bind_some, parseQuery, fresh.1, fresh.2, List.tail_nil,
    List.append_nil, List.append_nil, List.filter_cons_of_neg (by simp),
    filter_compList]

section Parsing

variable {α β : Type} {parse : α → Option β} {list : List α} {out : List β}

/-- A list that is made element by element. -/
theorem mapM_eq_some_iff : list.mapM parse = some out ↔
    List.Forall₂ (fun first second => parse first = some second) list out := by
  induction list generalizing out with
  | nil => simp
  | cons first list ih =>
      rw [List.mapM_cons, List.forall₂_cons_left_iff]
      simp only [Option.bind_eq_bind, Option.bind_eq_some_iff,
        Option.pure_def, Option.some.injEq, ih]
      constructor
      · rintro ⟨second, parsed, later, all, rfl⟩
        exact ⟨second, later, parsed, all, rfl⟩
      · rintro ⟨second, later, parsed, all, rfl⟩
        exact ⟨second, parsed, later, all, rfl⟩

end Parsing

theorem parseFilter_eq_some {compList : List Comparator}
    {filter : TreeStore.Filter} (parsed : parseFilter compList = some filter) :
    List.Forall₂ (fun first second => first.parse = some second) compList
      filter.compList := by
  unfold parseFilter at parsed
  obtain ⟨comps, made, parsed⟩ := Option.bind_eq_some_iff.mp parsed
  split_ifs at parsed with fits
  cases parsed
  exact mapM_eq_some_iff.mp made

/-- The query is read while none is unfinished, and becomes this message. -/
def Mongosh.Sends (mongosh : Mongosh) (query : Query) : Prop :=
  ∃ state : State, state.Fresh ∧
    (mongosh.read state).bind parseQuery = some query

/-- What a message has when it is sent. -/
theorem Mongosh.Sends.eq {mongosh : Mongosh} {query : Query}
    (sends : mongosh.Sends query) (some_filter : mongosh.filters ≠ []) :
    query.command = .ofNat mongosh.command.toNat ∧
      List.Forall₂ (fun compList filter => parseFilter compList = some filter)
        (mongosh.filters.map Filter.compList) query.filtersList ∧
      List.Forall₂ (fun pair kv => KeyValuePair.parse pair = some kv)
        mongosh.pairs query.settingsList := by
  obtain ⟨state, fresh, sent⟩ := sends
  rw [parseQuery_read some_filter fresh] at sent
  unfold parseLists at sent
  obtain ⟨filters, filtered, sent⟩ := Option.bind_eq_some_iff.mp sent
  obtain ⟨settings, settled, sent⟩ := Option.bind_eq_some_iff.mp sent
  split_ifs at sent with fits fits'
  cases sent
  exact ⟨rfl, mapM_eq_some_iff.mp filtered, mapM_eq_some_iff.mp settled⟩

end Client

end TreeStore
