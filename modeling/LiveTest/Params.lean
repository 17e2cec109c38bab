import LiveTest.Rust.Parse

/-!
# The parameters of a test case

`custom_instance_params` of `utils.rs` reads the parameters from one string:
items `name=value`, separated by `|`. An item without `=` is skipped, and what
stands behind a second `=` is not read. The last item of a name counts.

* `customInstanceParams_intercalate`: the eight items of a `TestCaseParams`, in
  any order and among any items of other names, are read back.
-/

namespace LiveTest

open Rust

/-- `struct TestCaseParams` (lines 119–142). -/
structure TestCaseParams where
  log : Bool
  logId : UInt64
  maxConcurrentSend : UInt64
  maxSizeBlock : Bool
  segmentLength : UInt64
  simTime : UInt64
  videoBitrate : UInt64
  networkBandwidth : UInt64
  deriving DecidableEq, Repr

/-- `item.split('=')`, and the first two parts of it if there are two (lines 148–158). -/
def readItem (item : Text) : Option (Text × Text) :=
  match item.splitOn '=' with
  | name :: value :: _ => some (name, value)
  | _ => none

/-- The table that the `for` loop fills (lines 145–161). -/
def readTable (params : Text) : Text → Option Text :=
  (params.splitOn '|').foldl (fun table item =>
    match readItem item with
    | some (name, value) => tableInsert table name value
    | none => table) fun _ => none

/-- `table[name].parse().expect(msg)`. -/
def parseEntry {α : Type} (table : Text → Option Text) (parse : Text → Option α) (msg : String)
    (name : String) : Except Panic α := do
  match parse (← tableIndex table name.toList) with
  | some value => return value
  | none => .error (.expect msg)

/-- An entry of type `bool`. -/
def parseBoolEntry (table : Text → Option Text) (name : String) : Except Panic Bool :=
  parseEntry table parseBool "Boolean Parsing" name

/-- An entry of type `usize`. -/
def parseUsizeEntry (table : Text → Option Text) (name : String) : Except Panic UInt64 :=
  parseEntry table parseUsize "Integer Parsing" name

/-- `custom_instance_params` (lines 144–184). -/
def customInstanceParams (params : Text) : Except Panic TestCaseParams := do
  let table := readTable params
  let log ← parseBoolEntry table "log"
  let logId ← parseUsizeEntry table "log_id"
  let maxConcurrentSend ← parseUsizeEntry table "max_concurrent_send"
  let maxSizeBlock ← parseBoolEntry table "max_size_block"
  let segmentLength ← parseUsizeEntry table "segment_length"
  let simTime ← parseUsizeEntry table "sim_time"
  let videoBitrate ← parseUsizeEntry table "video_bitrate"
  let networkBandwidth ← parseUsizeEntry table "network_bandwidth"
  return ⟨log, logId, maxConcurrentSend, maxSizeBlock, segmentLength, simTime, videoBitrate,
    networkBandwidth⟩

/-! ## The items -/

namespace TestCaseParams

/-- The names. -/
def names : List String :=
  ["log", "log_id", "max_concurrent_send", "max_size_block", "segment_length", "sim_time",
    "video_bitrate", "network_bandwidth"]

/-- The values, in the order of the names. -/
def values (p : TestCaseParams) : List Text :=
  [boolText p.log, Nat.toDigits 10 p.logId.toNat, Nat.toDigits 10 p.maxConcurrentSend.toNat,
    boolText p.maxSizeBlock, Nat.toDigits 10 p.segmentLength.toNat, Nat.toDigits 10 p.simTime.toNat,
    Nat.toDigits 10 p.videoBitrate.toNat, Nat.toDigits 10 p.networkBandwidth.toNat]

/-- Names and values. -/
def entries (p : TestCaseParams) : List (Text × Text) := (names.map String.toList).zip p.values

/-- The eight items `name=value`. -/
def items (p : TestCaseParams) : List Text := p.entries.map fun e => e.1 ++ '=' :: e.2

end TestCaseParams

/-- An item that is not for one of the eight names: it has no `=`, or another name before the
    first one. -/
def Foreign (item : Text) : Prop :=
  '|' ∉ item ∧ ('=' ∈ item → item.takeWhile (· ≠ '=') ∉ TestCaseParams.names.map String.toList)

instance (item : Text) : Decidable (Foreign item) := inferInstanceAs (Decidable (_ ∧ _))

/-! ## Reading the items -/

theorem readItem_of_not_mem {item : Text} (h : '=' ∉ item) : readItem item = none := by
  rw [readItem, List.splitOn_eq_singleton h]

/-- The name is what stands before the first `=`. -/
theorem readItem_append {name : Text} (hname : '=' ∉ name) (rest : Text) :
    ∃ value, readItem (name ++ '=' :: rest) = some (name, value) := by
  obtain ⟨value, parts, hparts⟩ := List.exists_cons_of_ne_nil (List.splitOn_ne_nil '=' rest)
  refine ⟨value, ?_⟩
  rw [readItem, List.splitOn_append_cons_self_of_not_mem hname, hparts]

/-- The value is the rest, when there is no second `=`. -/
theorem readItem_eq {name value : Text} (hname : '=' ∉ name) (hvalue : '=' ∉ value) :
    readItem (name ++ '=' :: value) = some (name, value) := by
  rw [readItem, List.splitOn_append_cons_self_of_not_mem hname, List.splitOn_eq_singleton hvalue]

/-- The table has the entries that the items read as, one inserted after the other. -/
theorem readTable_eq (params : Text) :
    readTable params = tableInsertAll (fun _ => none) ((params.splitOn '|').filterMap readItem) := by
  rw [readTable, tableInsertAll, List.foldl_filterMap]
  congr 1
  funext table item
  cases readItem item <;> rfl

theorem Foreign.not_mem_names {item : Text} (h : Foreign item) {e : Text × Text}
    (he : readItem item = some e) : e.1 ∉ TestCaseParams.names.map String.toList := by
  by_cases hmem : '=' ∈ item
  · obtain ⟨name, rest, rfl, hname⟩ := List.eq_append_cons_of_mem hmem
    have htake : (name ++ '=' :: rest).takeWhile (· ≠ '=') = name := by
      rw [List.takeWhile_append_of_pos (by
        intro c hc
        have hne : c ≠ '=' := by
          rintro rfl
          exact hname hc
        simpa using hne)]
      simp
    have hother := h.2 hmem
    rw [htake] at hother
    obtain ⟨value, hvalue⟩ := readItem_append hname rest
    rw [he, Option.some.injEq] at hvalue
    rw [hvalue]
    exact hother
  · rw [readItem_of_not_mem hmem] at he
    cases he

/-! ## Values -/

theorem not_mem_boolText {c : Char} (hc : c ∉ "true".toList ++ "false".toList) (b : Bool) :
    c ∉ boolText b := by
  rw [List.mem_append, not_or] at hc
  cases b with
  | false => exact hc.2
  | true => exact hc.1

theorem not_mem_toDigits {c : Char} (hc : c.isDigit = false) (n : ℕ) : c ∉ Nat.toDigits 10 n := by
  intro hmem
  have := Nat.isDigit_of_mem_toDigits (by decide) (by decide) hmem
  rw [hc] at this
  cases this

namespace TestCaseParams

/-- No value has a `|` or a `=` in it. -/
theorem not_mem_value (p : TestCaseParams) {value : Text} (h : value ∈ p.values) :
    '|' ∉ value ∧ '=' ∉ value := by
  have hbool : ∀ b, '|' ∉ boolText b ∧ '=' ∉ boolText b := fun b =>
    ⟨not_mem_boolText (by decide) b, not_mem_boolText (by decide) b⟩
  have hdigits : ∀ n, '|' ∉ Nat.toDigits 10 n ∧ '=' ∉ Nat.toDigits 10 n := fun n =>
    ⟨not_mem_toDigits (by decide) n, not_mem_toDigits (by decide) n⟩
  simp only [values, List.mem_cons, List.not_mem_nil, or_false] at h
  rcases h with rfl | rfl | rfl | rfl | rfl | rfl | rfl | rfl
  · exact hbool _
  · exact hdigits _
  · exact hdigits _
  · exact hbool _
  · exact hdigits _
  · exact hdigits _
  · exact hdigits _
  · exact hdigits _

/-- Neither has a name. -/
theorem not_mem_name {name : Text} (h : name ∈ names.map String.toList) :
    '|' ∉ name ∧ '=' ∉ name := by
  revert name
  decide

theorem entry_mem {p : TestCaseParams} {e : Text × Text} (h : e ∈ p.entries) :
    e.1 ∈ names.map String.toList ∧ e.2 ∈ p.values := List.of_mem_zip h

/-- Each item is read as its entry. -/
theorem readItem_items (p : TestCaseParams) : p.items.filterMap readItem = p.entries := by
  rw [items, List.filterMap_map]
  have hread : ∀ e ∈ p.entries, (readItem ∘ fun e => e.1 ++ '=' :: e.2) e = some e := by
    intro e he
    obtain ⟨hname, hvalue⟩ := entry_mem he
    exact readItem_eq (not_mem_name hname).2 (p.not_mem_value hvalue).2
  rw [List.filterMap_congr hread, List.filterMap_some]

/-- No item has a `|` in it. -/
theorem bar_not_mem {p : TestCaseParams} {item : Text} (h : item ∈ p.items) : '|' ∉ item := by
  obtain ⟨e, he, rfl⟩ := List.mem_map.mp h
  obtain ⟨hname, hvalue⟩ := entry_mem he
  rw [List.mem_append, List.mem_cons, not_or, not_or]
  exact ⟨(not_mem_name hname).1, by decide, (p.not_mem_value hvalue).1⟩

/-- A name has one value. -/
theorem entry_unique {p : TestCaseParams} {e e' : Text × Text} (h : e ∈ p.entries)
    (h' : e' ∈ p.entries) (hname : e'.1 = e.1) : e'.2 = e.2 := by
  have hnodup : (p.entries.map Prod.fst).Nodup := by
    have hfst : p.entries.map Prod.fst = names.map String.toList := List.map_fst_zip (le_of_eq rfl)
    rw [hfst]
    decide
  rw [List.inj_on_of_nodup_map hnodup h' h hname]

end TestCaseParams

/-! ## The table -/

/-- The table of a string that joins the eight items and foreign ones. -/
theorem readTable_intercalate {p : TestCaseParams} {items foreign : List Text}
    (hperm : items.Perm (p.items ++ foreign)) (hforeign : ∀ item ∈ foreign, Foreign item)
    {e : Text × Text} (he : e ∈ p.entries) :
    readTable (['|'].intercalate items) e.1 = some e.2 := by
  have hbar : ∀ item ∈ items, '|' ∉ item := by
    intro item hitem
    rcases List.mem_append.mp (hperm.mem_iff.mp hitem) with hitem | hitem
    · exact TestCaseParams.bar_not_mem hitem
    · exact (hforeign item hitem).1
  have hne : items ≠ [] := by
    rintro rfl
    have := hperm.length_eq
    simp [TestCaseParams.items, TestCaseParams.entries, TestCaseParams.names,
      TestCaseParams.values] at this
  have hentries : (items.filterMap readItem).Perm (p.entries ++ foreign.filterMap readItem) := by
    rw [← p.readItem_items, ← List.filterMap_append]
    exact hperm.filterMap _
  rw [readTable_eq, List.splitOn_intercalate '|' hbar hne]
  refine tableInsertAll_apply _ (hentries.mem_iff.mpr (List.mem_append_left _ he)) ?_
  intro e' he' hname
  rcases List.mem_append.mp (hentries.mem_iff.mp he') with he' | he'
  · exact TestCaseParams.entry_unique he he' hname
  · obtain ⟨item, hitem, hread⟩ := List.mem_filterMap.mp he'
    refine absurd ?_ ((hforeign item hitem).not_mem_names hread)
    rw [hname]
    exact (TestCaseParams.entry_mem he).1

theorem parseEntry_eq {α : Type} {table : Text → Option Text} {parse : Text → Option α}
    {name : String} {text : Text} {value : α} (htable : table name.toList = some text)
    (hparse : parse text = some value) (msg : String) :
    parseEntry table parse msg name = .ok value := by
  rw [parseEntry, tableIndex, htable]
  simp only [ok_bind, hparse, pure_eq_ok]

/-- A string that joins with `|` the eight items of a `TestCaseParams`, in any order and among any
    number of items that have no `|` and no `=`, or no `|` and another name, is read as it. -/
theorem customInstanceParams_intercalate (p : TestCaseParams) {items foreign : List Text}
    (hperm : items.Perm (p.items ++ foreign)) (hforeign : ∀ item ∈ foreign, Foreign item) :
    customInstanceParams (['|'].intercalate items) = .ok p := by
  have htable : ∀ e ∈ p.entries, readTable (['|'].intercalate items) e.1 = some e.2 :=
    fun e he => readTable_intercalate hperm hforeign he
  have hbool : ∀ (name : String) (b : Bool), (name.toList, boolText b) ∈ p.entries →
      parseBoolEntry (readTable (['|'].intercalate items)) name = .ok b := fun name b he =>
    parseEntry_eq (htable _ he) (parseBool_boolText b) _
  have husize : ∀ (name : String) (n : UInt64),
      (name.toList, Nat.toDigits 10 n.toNat) ∈ p.entries →
      parseUsizeEntry (readTable (['|'].intercalate items)) name = .ok n := fun name n he =>
    parseEntry_eq (htable _ he) (parseUsize_toDigits n) _
  have hlog := hbool "log" p.log (List.mem_of_getElem? (i := 0) rfl)
  have hlogId := husize "log_id" p.logId (List.mem_of_getElem? (i := 1) rfl)
  have hmaxConcurrentSend := husize "max_concurrent_send" p.maxConcurrentSend
    (List.mem_of_getElem? (i := 2) rfl)
  have hmaxSizeBlock := hbool "max_size_block" p.maxSizeBlock (List.mem_of_getElem? (i := 3) rfl)
  have hsegmentLength := husize "segment_length" p.segmentLength (List.mem_of_getElem? (i := 4) rfl)
  have hsimTime := husize "sim_time" p.simTime (List.mem_of_getElem? (i := 5) rfl)
  have hvideoBitrate := husize "video_bitrate" p.videoBitrate (List.mem_of_getElem? (i := 6) rfl)
  have hnetworkBandwidth := husize "network_bandwidth" p.networkBandwidth
    (List.mem_of_getElem? (i := 7) rfl)
  simp only [customInstanceParams, hlog, hlogId, hmaxConcurrentSend, hmaxSizeBlock, hsegmentLength,
    hsimTime, hvideoBitrate, hnetworkBandwidth, ok_bind, pure_eq_ok]

/-- The items in another order, with an empty item, one without a value and one for another name. -/
theorem customInstanceParams_intercalate_example :
    customInstanceParams (['|'].intercalate (["sim_time=600", "", "log_id=12", "log=false",
        "max_concurrent_send=4", "a=b=c", "max_size_block=false", "verbose", "segment_length=1",
        "video_bitrate=6000000", "network_bandwidth=10000000"].map String.toList)) =
      .ok ⟨false, 12, 4, false, 1, 600, 6000000, 10000000⟩ := by
  have hforeign : ∀ item ∈ ["", "a=b=c", "verbose"].map String.toList, Foreign item := by decide
  exact customInstanceParams_intercalate _ (by decide +kernel) hforeign

/-- `serde_test` (lines 193–210). -/
example : (customInstanceParams
    ("log=false|log_id=12|max_concurrent_send=4|max_size_block=false|segment_length=1|" ++
      "sim_time=600|video_bitrate=6000000|network_bandwidth=10000000").toList).toOption =
    some ⟨false, 12, 4, false, 1, 600, 6000000, 10000000⟩ := by decide +kernel

end LiveTest
